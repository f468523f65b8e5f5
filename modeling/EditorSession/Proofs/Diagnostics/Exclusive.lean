import EditorSession.Proofs.Diagnostics.Lateness
import Mathlib.Data.List.Nodup

/-! One piece of work for a document. The run of a document tells what is at work for it: a timer, a
computation that nobody has asked to stop, or nothing. What is done for one document leaves the work
for the others alone, so it is enough to look at the run that is replaced. -/

namespace EditorSession.Diagnostics

open Document (key)

namespace Pipeline

variable {p q p' : Pipeline} {uri : Bytes} {c c' : Computation} {run : Run}

/-- The numbers of the unfinished computations. -/
def ids (p : Pipeline) : List ComputationId := p.computations.map (·.id)

/-- What a run says of the work for the documents under its key is so. -/
inductive Keeps (p : Pipeline) (k : Bytes) (run : Run) : Prop where
  | idle (hs : run.state = .idle) (ht : run.timer = none) (hc : run.computation = none)
  | scheduled (hs : run.state = .scheduled) (ht : run.timer.isSome = true)
      (hc : run.computation = none)
  | computing {c : Computation} (hs : run.state = .computing) (ht : run.timer = none)
      (hm : c ∈ p.computations) (hc : run.computation = some c.id) (hk : key c.uri = k)
      (hn : c.stopped = false) (hg : c.generation = run.generation)

theorem Keeps.mono {k : Bytes} {run : Run} (h : p.Keeps k run)
    (hm : ∀ c ∈ p.computations, key c.uri = k → c ∈ p'.computations) : p'.Keeps k run := by
  cases h with
  | idle hs ht hc => exact .idle hs ht hc
  | scheduled hs ht hc => exact .scheduled hs ht hc
  | computing hs ht hc hown hk hn hg => exact .computing hs ht (hm _ hc hk) hown hk hn hg

structure Exclusive (p : Pipeline) : Prop extends p.Sound where
  distinct : p.ids.Nodup
  below : ∀ a ∈ p.ids, a < p.started
  keeps : ∀ k run, Table.get? k p.runs = some run → p.Keeps k run

theorem exclusive_empty (options : Options) : ({ options } : Pipeline).Exclusive :=
  ⟨sound_empty options, List.nodup_nil, by simp [Pipeline.ids], by simp [Table.get?]⟩

theorem Exclusive.eq_of_id (h : p.Exclusive) (hc : c ∈ p.computations)
    (hc' : c' ∈ p.computations) (hi : c.id = c'.id) : c = c' :=
  List.inj_on_of_nodup_map h.distinct hc hc' hi

/-- The run of an unstopped computation is its own. -/
theorem Exclusive.run_of_mem (h : p.Exclusive) (hc : c ∈ p.computations) (hn : c.stopped = false) :
    ∃ run, Table.get? (key c.uri) p.runs = some run ∧ run.state = .computing ∧ run.timer = none ∧
      run.computation = some c.id ∧ run.generation = c.generation := by
  obtain ⟨run, hg, hi⟩ := h.owned c hc hn
  refine ⟨run, hg, ?_⟩
  cases h.keeps _ run hg with
  | idle _ _ hnone => simp [hnone] at hi
  | scheduled _ _ hnone => simp [hnone] at hi
  | computing hs ht hm hown _ _ hgen =>
    rw [hown, Option.some.injEq] at hi
    obtain rfl := h.eq_of_id hm hc hi
    exact ⟨hs, ht, hown, hgen.symm⟩

/-- A computation that a run names is for the document of the run. -/
theorem Exclusive.key_of_named (h : p.Exclusive) (hc : c ∈ p.computations)
    (hr : (p.run uri).computation = some c.id) : key c.uri = key uri := by
  unfold Pipeline.run at hr
  cases hg : Table.get? (key uri) p.runs with
  | none => simp [hg] at hr
  | some run =>
    rw [hg, Option.getD_some] at hr
    cases h.keeps _ run hg with
    | idle _ _ hnone => simp [hnone] at hr
    | scheduled _ _ hnone => simp [hnone] at hr
    | computing _ _ hm hown hk =>
      rw [hown, Option.some.injEq] at hr
      rwa [h.eq_of_id hm hc hr] at hk

/-! ### What is done for one document -/

/-- Only the work for one document differs. -/
structure Elsewhere (p : Pipeline) (uri : Bytes) (p' : Pipeline) : Prop where
  runs : ∀ k, k ≠ key uri → Table.get? k p'.runs = Table.get? k p.runs
  computations : ∀ c, key c.uri ≠ key uri → (c ∈ p'.computations ↔ c ∈ p.computations)

theorem Elsewhere.refl (p : Pipeline) (uri : Bytes) : p.Elsewhere uri p :=
  ⟨fun _ _ => rfl, fun _ _ => .rfl⟩

theorem Elsewhere.trans (h : p.Elsewhere uri q) (h' : q.Elsewhere uri p') : p.Elsewhere uri p' :=
  ⟨fun k hk => (h'.runs k hk).trans (h.runs k hk),
    fun c hk => (h'.computations c hk).trans (h.computations c hk)⟩

theorem Exclusive.elsewhere (h : p.Exclusive) (he : p.Elsewhere uri p') (hs : p'.Sound)
    (hi : p'.ids.Nodup) (hb : ∀ a ∈ p'.ids, a < p'.started)
    (hk : ∀ run, Table.get? (key uri) p'.runs = some run → p'.Keeps (key uri) run) :
    p'.Exclusive := by
  refine ⟨hs, hi, hb, ?_⟩
  intro k run hg
  by_cases hku : k = key uri
  · subst hku
    exact hk run hg
  · rw [he.runs k hku] at hg
    refine (h.keeps k run hg).mono ?_
    rintro c hc rfl
    exact (he.computations c hku).mpr hc

/-- Something was done for one document, and no computation came to its end. -/
structure Serves (p : Pipeline) (uri : Bytes) (p' : Pipeline) : Prop where
  exclusive : p'.Exclusive
  elsewhere : p.Elsewhere uri p'
  ids : p.ids <+: p'.ids
  starts : p.started < p'.started →
    ∃ c ∈ p'.computations, c.id = p.started ∧ c.uri = uri ∧ c.stopped = false

theorem Exclusive.refl (h : p.Exclusive) (uri : Bytes) : p.Serves uri p :=
  ⟨h, .refl p uri, List.prefix_rfl, fun hn => absurd hn (Nat.lt_irrefl _)⟩

@[simp] theorem ids_cancel (p : Pipeline) (run : Run) : (p.cancel run).ids = p.ids := by
  rw [ids, cancel, List.map_map]
  refine List.map_congr_left ?_
  intro c _
  simp only [Function.comp_apply]
  split <;> rfl

theorem Exclusive.cancel_elsewhere (h : p.Exclusive) (uri : Bytes) :
    p.Elsewhere uri (p.cancel (p.run uri)) := by
  refine ⟨fun _ _ => rfl, ?_⟩
  -- a computation that is asked to stop is for the document itself
  have hstop : ∀ d ∈ p.computations, key d.uri ≠ key uri →
      ¬(p.run uri).computation = some d.id := fun d hd hk hr => hk (h.key_of_named hd hr)
  intro c hk
  constructor
  · intro hc
    obtain ⟨d, hd, rfl⟩ := List.mem_map.mp hc
    have hu : key d.uri ≠ key uri := by
      split at hk <;> exact hk
    rwa [if_neg (hstop d hd hu)]
  · intro hc
    exact List.mem_map.mpr ⟨c, hc, if_neg (hstop c hc hk)⟩

/-! ### Scheduling, starting and clearing -/

theorem ids_startComputation (p : Pipeline) (uri : Bytes) (generation : Nat) :
    (p.startComputation uri generation).ids = p.ids ++ [p.started] := by
  simp [ids, startComputation]

theorem startComputation_elsewhere (p : Pipeline) (uri : Bytes) (generation : Nat) :
    p.Elsewhere uri (p.startComputation uri generation) := by
  refine ⟨fun k hk => Table.get?_set_ne hk _ _, ?_⟩
  intro c hk
  simp only [startComputation, List.mem_append, List.mem_singleton]
  constructor
  · rintro (hc | rfl)
    · exact hc
    · exact absurd rfl hk
  · exact .inl

theorem mem_startComputation (p : Pipeline) (uri : Bytes) (generation : Nat) :
    { id := p.started, uri, generation } ∈ (p.startComputation uri generation).computations := by
  simp [startComputation]

/-- The computation that is started is the only one at work for its document. -/
theorem Exclusive.startComputation (h : p.Exclusive) (he : p.Elsewhere uri q) (hi : q.ids = p.ids)
    (hn : q.started = p.started) {generation : Nat}
    (hs : (q.startComputation uri generation).Sound) :
    p.Serves uri (q.startComputation uri generation) := by
  have he := he.trans (q.startComputation_elsewhere uri generation)
  have hids : (q.startComputation uri generation).ids = p.ids ++ [p.started] := by
    rw [ids_startComputation, hi, hn]
  refine ⟨h.elsewhere he hs ?_ ?_ ?_, he, hids ▸ List.prefix_append _ _, fun _ => ?_⟩
  · rw [hids, List.nodup_append]
    refine ⟨h.distinct, List.nodup_singleton _, ?_⟩
    rintro a ha b hb rfl
    rw [List.mem_singleton.mp hb] at ha
    exact Nat.lt_irrefl _ (h.below _ ha)
  · intro a ha
    rw [hids, List.mem_append, List.mem_singleton] at ha
    have hstarted : (q.startComputation uri generation).started = p.started + 1 := by rw [← hn]; rfl
    rw [hstarted]
    rcases ha with ha | rfl
    · exact Nat.lt_succ_of_lt (h.below a ha)
    · exact Nat.lt_succ_self _
  · intro run hg
    rw [Pipeline.startComputation, Table.get?_set_self, Option.some.injEq] at hg
    subst hg
    exact .computing rfl rfl (q.mem_startComputation uri generation) rfl rfl rfl rfl
  · exact ⟨_, q.mem_startComputation uri generation, hn, rfl, rfl⟩

/-- No computation is started or ends for the document. -/
theorem Exclusive.serves (h : p.Exclusive) (he : p.Elsewhere uri p') (hs : p'.Sound)
    (hi : p'.ids = p.ids) (hn : p'.started = p.started)
    (hk : ∀ run, Table.get? (key uri) p'.runs = some run → p'.Keeps (key uri) run) :
    p.Serves uri p' := by
  refine ⟨h.elsewhere he hs (hi ▸ h.distinct) ?_ hk, he, hi ▸ List.prefix_rfl, ?_⟩
  · rw [hi, hn]
    exact h.below
  · intro hlt
    exact absurd hlt (hn ▸ Nat.lt_irrefl _)

theorem Exclusive.trigger (h : p.Exclusive) (now : Int) (uri : Bytes) :
    p.Serves uri (p.trigger now uri) := by
  have hs := h.toSound.trigger now uri
  revert hs
  unfold Pipeline.trigger
  split
  case isTrue => exact fun _ => h.refl uri
  case isFalse =>
    intro hs
    refine h.serves ⟨?_, (h.cancel_elsewhere uri).computations⟩ hs (p.ids_cancel _) rfl ?_
    · intro k hk
      exact Table.get?_set_ne hk _ _
    · intro run hg
      rw [Table.get?_set_self, Option.some.injEq] at hg
      subst hg
      exact .scheduled rfl rfl rfl

theorem Exclusive.computeNow (h : p.Exclusive) (uri : Bytes) :
    p.Serves uri (p.computeNow uri) := by
  have hs := (h.toSound.computeNow uri).1
  revert hs
  unfold Pipeline.computeNow
  split
  case isTrue => exact fun _ => h.refl uri
  case isFalse => exact fun hs => h.startComputation (h.cancel_elsewhere uri) (p.ids_cancel _) rfl hs

theorem Exclusive.expire (h : p.Exclusive) (uri : Bytes) (generation : Nat) :
    p.Serves uri (p.expire uri generation) := by
  have hs := (h.toSound.expire uri generation).1
  revert hs
  unfold Pipeline.expire
  split
  case isTrue => exact fun _ => h.refl uri
  case isFalse =>
    split
    case h_1 =>
      split
      case isTrue => exact fun hs => h.startComputation (.refl p uri) rfl rfl hs
      case isFalse => exact fun _ => h.refl uri
    case h_2 => exact fun _ => h.refl uri

theorem Exclusive.fire (h : p.Exclusive) (timer : Timer) :
    p.Serves timer.uri (p.fire timer) := by
  have hq : ({ p with timers := p.timers.filter fun t => t.id ≠ timer.id } : Pipeline).Exclusive :=
    ⟨⟨h.waiting, h.owned, h.shut⟩, h.distinct, h.below,
      fun k run hg => (h.keeps k run hg).mono fun _ hc _ => hc⟩
  obtain ⟨hx, ⟨hr, hc⟩, hi, hs⟩ := hq.expire timer.uri timer.generation
  exact ⟨hx, ⟨hr, hc⟩, hi, hs⟩

theorem Exclusive.clear (h : p.Exclusive) (uri : Bytes) : p.Serves uri (p.clear uri).1 := by
  have hs := h.toSound.clear uri
  cases ho : p.shut with
  | true =>
    rw [Pipeline.clear, if_pos ho]
    exact h.refl uri
  | false =>
    rw [clear_of_open ho] at hs ⊢
    refine h.serves ⟨?_, (h.cancel_elsewhere uri).computations⟩ hs (p.ids_cancel _) rfl ?_
    · intro k hk
      exact Table.get?_erase_ne hk _
    · intro run hg
      rw [Table.get?_erase_self] at hg
      cases hg

/-! ### Beginning and ending -/

theorem ids_begin (p : Pipeline) (c : Computation) (d : Document.OpenDocument) :
    (p.begin c (some d)).1.ids = p.ids := by
  rw [ids, begin, List.map_map, ids]
  refine List.map_congr_left ?_
  intro x _
  simp only [Function.comp_apply]
  split <;> rfl

theorem Exclusive.begin (h : p.Exclusive) (hc : c ∈ p.computations)
    (d : Document.OpenDocument) : p.Serves c.uri (p.begin c (some d)).1 := by
  have hs := h.toSound.begin c d
  -- only the computation that begins is touched
  have hmap : ∀ {x : Computation}, x ∈ (p.begin c (some d)).1.computations ↔
      x ∈ p.computations ∧ x.id ≠ c.id ∨ x = { c with stage := .running (.ofDocument d) } := by
    intro x
    simp only [Pipeline.begin, List.mem_map]
    constructor
    · rintro ⟨y, hy, rfl⟩
      by_cases hi : y.id = c.id
      · obtain rfl := h.eq_of_id hy hc hi
        simp
      · simp [hi, hy]
    · rintro (⟨hx, hi⟩ | rfl)
      · exact ⟨x, hx, if_neg hi⟩
      · exact ⟨c, hc, if_pos rfl⟩
  refine h.serves ⟨fun _ _ => rfl, ?_⟩ hs (p.ids_begin c d) rfl ?_
  · intro x hk
    rw [hmap]
    constructor
    · rintro (⟨hx, -⟩ | rfl)
      · exact hx
      · exact absurd rfl hk
    · intro hx
      refine .inl ⟨hx, ?_⟩
      intro hi
      exact hk (h.eq_of_id hx hc hi ▸ rfl)
  · intro run hg
    cases h.keeps _ run hg with
    | idle hw ht hn => exact .idle hw ht hn
    | scheduled hw ht hn => exact .scheduled hw ht hn
    | @computing x hw ht hx hown hk hn hgen =>
      by_cases hi : x.id = c.id
      · obtain rfl := h.eq_of_id hx hc hi
        exact .computing hw ht (hmap.mpr (.inr rfl)) hown hk hn hgen
      · exact .computing hw ht (hmap.mpr (.inl ⟨hx, hi⟩)) hown hk hn hgen

/-- A computation comes to its end. -/
structure Concludes (p : Pipeline) (c : Computation) (p' : Pipeline) : Prop where
  exclusive : p'.Exclusive
  elsewhere : p.Elsewhere c.uri p'
  ids : p'.ids = p.ids.filter (· ≠ c.id)

theorem ids_without (p : Pipeline) (c : Computation) :
    (p.without c).ids = p.ids.filter (· ≠ c.id) := by
  rw [ids, ids, List.filter_map]
  rfl

theorem Exclusive.without_elsewhere (h : p.Exclusive) (hc : c ∈ p.computations) :
    p.Elsewhere c.uri (p.without c) := by
  refine ⟨fun _ _ => rfl, ?_⟩
  intro x hk
  simp only [without, List.mem_filter, decide_eq_true_eq, and_iff_left_iff_imp]
  intro hx hi
  exact hk (h.eq_of_id hx hc hi ▸ rfl)

theorem Exclusive.concludes (h : p.Exclusive) (he : p.Elsewhere c.uri p') (hs : p'.Sound)
    (hi : p'.ids = p.ids.filter (· ≠ c.id)) (hn : p'.started = p.started)
    (hk : ∀ run, Table.get? (key c.uri) p'.runs = some run → p'.Keeps (key c.uri) run) :
    p.Concludes c p' := by
  refine ⟨h.elsewhere he hs ?_ ?_ hk, he, hi⟩
  · rw [hi]
    exact h.distinct.filter _
  · rw [hi, hn]
    exact fun a ha => h.below a (List.mem_filter.mp ha).1

/-- A computation that is not current leaves the run to another. -/
theorem Exclusive.drop (h : p.Exclusive) (hc : c ∈ p.computations)
    (hn : ∀ run, Table.get? (key c.uri) p.runs = some run →
      ¬(run.generation = c.generation ∧ ¬c.stopped = true)) : p.Concludes c (p.without c) := by
  refine h.concludes (h.without_elsewhere hc) (h.toSound.without c) (p.ids_without c) rfl ?_
  intro run hg
  cases h.keeps _ run hg with
  | idle hs ht hn => exact .idle hs ht hn
  | scheduled hs ht hn => exact .scheduled hs ht hn
  | @computing x hs ht hx hown hk hu hgen =>
    refine .computing hs ht (List.mem_filter.mpr ⟨hx, ?_⟩) hown hk hu hgen
    rw [decide_eq_true_eq]
    intro hi
    obtain rfl := h.eq_of_id hx hc hi
    exact hn run hg ⟨hgen.symm, by simp [hu]⟩

/-- A pipeline in which the computation of a run has come to its end. -/
def concluded (p : Pipeline) (c : Computation) (run : Run) : Pipeline :=
  { p.without c with
    runs := Table.set (key c.uri) { run with state := .idle, computation := none } p.runs }

theorem finish_current (hg : Table.get? (key c.uri) p.runs = some run)
    (hcur : run.generation = c.generation ∧ ¬c.stopped = true)
    (publication : Option Lsp.Publication) :
    (p.finish c publication).1 = p.concluded c run ∧
      (p.finish c publication).2.1 = if p.shut then [] else publication.toList := by
  rw [finish_eq, hg]
  dsimp only
  rw [if_pos hcur]
  cases p.shut with
  | true => exact ⟨rfl, rfl⟩
  | false =>
    cases publication with
    | none => exact ⟨rfl, rfl⟩
    | some publication => exact ⟨rfl, rfl⟩

theorem finish_superseded (hn : ∀ run, Table.get? (key c.uri) p.runs = some run →
      ¬(run.generation = c.generation ∧ ¬c.stopped = true))
    (publication : Option Lsp.Publication) :
    p.finish c publication = (p.without c, [], [Notice.superseded c.uri]) := by
  rw [finish_eq]
  split
  case h_1 run hg => rw [if_neg (hn run hg)]
  case h_2 => rfl

theorem Exclusive.finish (h : p.Exclusive) (hc : c ∈ p.computations)
    (publication : Option Lsp.Publication) : p.Concludes c (p.finish c publication).1 := by
  have hs := h.toSound.finish hc publication
  by_cases hcur : ∃ run, Table.get? (key c.uri) p.runs = some run ∧
      run.generation = c.generation ∧ ¬c.stopped = true
  · obtain ⟨run, hg, hcur⟩ := hcur
    obtain ⟨run', hg', -, ht, -⟩ := h.run_of_mem hc (by simpa using hcur.2)
    obtain rfl := Option.some.inj (hg.symm.trans hg')
    rw [(finish_current hg hcur publication).1] at hs ⊢
    refine h.concludes ⟨?_, (h.without_elsewhere hc).computations⟩ hs (p.ids_without c) rfl ?_
    · intro k hk
      exact Table.get?_set_ne hk _ _
    · intro run' hg'
      rw [concluded, Table.get?_set_self, Option.some.injEq] at hg'
      subst hg'
      exact .idle rfl ht rfl
  · have hn : ∀ run, Table.get? (key c.uri) p.runs = some run →
        ¬(run.generation = c.generation ∧ ¬c.stopped = true) :=
      fun run hg hrun => hcur ⟨run, hg, hrun⟩
    rw [finish_superseded hn]
    exact h.drop hc hn

/-- The engine's answer ends the computation that asked, or is to nobody. -/
theorem Exclusive.answer (h : p.Exclusive) (id : ComputationId)
    (outcome : Analysis.Outcome (List Lsp.Diagnostic)) :
    (p.answer id outcome).1 = p ∨
      ∃ c ∈ p.computations, c.id = id ∧ p.Concludes c (p.answer id outcome).1 := by
  unfold Pipeline.answer
  split
  case h_1 => exact .inl rfl
  case h_2 c hf =>
    have hc := List.mem_of_find?_eq_some hf
    have hi : c.id = id := by simpa using List.find?_some hf
    split
    case h_1 => exact .inl rfl
    case h_2 =>
      refine .inr ⟨c, hc, hi, ?_⟩
      unfold complete
      split
      case h_1 => exact h.finish hc _
      case h_2 => exact h.finish hc _
      case h_3 =>
        split
        · exact h.finish hc _
        · exact h.finish hc _

@[simp] theorem ids_shutdown (p : Pipeline) : p.shutdown.1.ids = p.ids := by
  unfold Pipeline.shutdown
  split
  case isTrue => rfl
  case isFalse =>
    rw [ids, List.map_map]
    refine List.map_congr_left ?_
    intro x _
    simp only [Function.comp_apply]
    split <;> rfl

theorem Exclusive.shutdown (h : p.Exclusive) : p.shutdown.1.Exclusive := by
  refine ⟨h.toSound.shutdown, p.ids_shutdown ▸ h.distinct, ?_, ?_⟩
  · rw [ids_shutdown]
    unfold Pipeline.shutdown
    split <;> exact h.below
  · unfold Pipeline.shutdown
    split
    case isTrue => exact h.keeps
    case isFalse => simp [Table.get?]

end Pipeline

/-! ### The account of a run -/

namespace Scene

variable {w w' : Scene} {trace records : List Record}

/-- A computation comes to its end in a step of the pipeline: its document was not open, or the
engine has answered. -/
inductive Finishes (p : Pipeline) (c : Computation) : Pipeline → Prop where
  | skipped : Finishes p c (p.begin c none).1
  | answered (outcome) : Finishes p c (p.answer c.id outcome).1

theorem Move.exclusive (h : Move w records w') (hx : w.pipeline.Exclusive) :
    w'.pipeline.Exclusive := by
  cases h with
  | trigger now uri => exact (hx.trigger now uri).exclusive
  | computeNow uri => exact (hx.computeNow uri).exclusive
  | fire timer => exact (hx.fire timer).exclusive
  | clear uri => exact (hx.clear uri).exclusive
  | begin document hc => exact (hx.begin hc document).exclusive
  | skip hc => exact (hx.finish hc none).exclusive
  | answer id outcome =>
    rcases hx.answer id outcome with hp | ⟨c, -, -, hp⟩
    · rw [issue, hp]
      exact hx
    · exact hp.exclusive
  | publish => exact hx
  | shutdown => exact hx.shutdown
  | leave => exact hx

theorem Run.exclusive {options : Options} (h : Run options trace w) : w.pipeline.Exclusive := by
  induction h with
  | refl => exact Pipeline.exclusive_empty options
  | tail _ hm ih => exact hm.exclusive ih

/-- A computation that is not finished stays so until it comes to its end. -/
theorem Move.kept (h : Move w records w') (hx : w.pipeline.Exclusive) {c : Computation}
    (hc : c ∈ w.pipeline.computations) :
    c.id ∈ w'.pipeline.ids ∨ Finishes w.pipeline c w'.pipeline := by
  have hm : c.id ∈ w.pipeline.ids := List.mem_map.mpr ⟨c, hc, rfl⟩
  have hends : ∀ {d : Computation} {q : Pipeline}, d.id ≠ c.id → w.pipeline.Concludes d q →
      c.id ∈ q.ids := by
    intro d q hi hq
    rw [hq.ids]
    exact List.mem_filter.mpr ⟨hm, by simpa using Ne.symm hi⟩
  cases h with
  | trigger now uri => exact .inl ((hx.trigger now uri).ids.subset hm)
  | computeNow uri => exact .inl ((hx.computeNow uri).ids.subset hm)
  | fire timer => exact .inl ((hx.fire timer).ids.subset hm)
  | clear uri => exact .inl ((hx.clear uri).ids.subset hm)
  | begin document hb => exact .inl ((hx.begin hb document).ids.subset hm)
  | @skip d hd =>
    by_cases hi : d.id = c.id
    · obtain rfl := hx.eq_of_id hd hc hi
      exact .inr .skipped
    · exact .inl (hends hi (hx.finish hd none))
  | answer id outcome =>
    rcases hx.answer id outcome with hp | ⟨d, -, rfl, hp⟩
    · rw [issue, hp]
      exact .inl hm
    · by_cases hi : d.id = c.id
      · rw [hi]
        exact .inr (.answered outcome)
      · exact .inl (hends hi hp)
  | publish => exact .inl hm
  | shutdown => exact .inl (w.pipeline.ids_shutdown.symm ▸ hm)
  | leave => exact .inl hm

/-- A computation that has just been started is unfinished, and nobody has asked it to stop. -/
theorem Move.begun (h : Move w records w') (hx : w.pipeline.Exclusive) {a : ComputationId}
    {uri : Bytes} (ha : .started a uri ∈ records) :
    ∃ c ∈ w'.pipeline.computations, c.id = a ∧ c.uri = uri ∧ c.stopped = false := by
  have hstarts : ∀ {u : Bytes} {q : Pipeline}, w.pipeline.Serves u q →
      .started a uri ∈ w.starts u q →
      ∃ c ∈ q.computations, c.id = a ∧ c.uri = uri ∧ c.stopped = false := by
    intro u q hq hm
    unfold starts at hm
    split at hm
    case isTrue hlt =>
      obtain ⟨rfl, rfl⟩ : a = w.pipeline.started ∧ uri = u := by simpa using hm
      exact hq.starts hlt
    case isFalse => cases hm
  cases h with
  | computeNow u => exact hstarts (hx.computeNow u) ha
  | fire timer => exact hstarts (hx.fire timer) ha
  | @publish o => cases o <;> simp [Outgoing.record] at ha
  | shutdown =>
    split at ha <;> simp at ha
  | _ => simp at ha

end Scene

/-- The account of the work at one moment of a run. The run of a document tells what is at work for
it; of all its computations that were started and have not come to their end, nobody has asked at
most one to stop, which the run names; and shutting forgets the runs and stops the computations. -/
structure OneAtATime (trace : List Record) (w : Scene) : Prop where
  scheduled : ∀ k run, Table.get? k w.pipeline.runs = some run → run.state = .scheduled →
    run.timer.isSome = true ∧ run.computation = none
  computing : ∀ k run, Table.get? k w.pipeline.runs = some run → run.state = .computing →
    run.timer = none ∧ ∃ c ∈ w.pipeline.computations,
      run.computation = some c.id ∧ key c.uri = k ∧ c.stopped = false
  idle : ∀ k run, Table.get? k w.pipeline.runs = some run → run.state = .idle →
    run.timer = none ∧ run.computation = none
  /-- The list holds every computation from its start to its end. -/
  begun : ∀ records w', Scene.Move w records w' → ∀ a uri, .started a uri ∈ records →
    ∃ c ∈ w'.pipeline.computations, c.id = a ∧ c.uri = uri ∧ c.stopped = false
  kept : ∀ records w', Scene.Move w records w' → ∀ c ∈ w.pipeline.computations,
    c.id ∈ w'.pipeline.ids ∨ Scene.Finishes w.pipeline c w'.pipeline
  unique : ∀ c ∈ w.pipeline.computations, ∀ c' ∈ w.pipeline.computations,
    key c.uri = key c'.uri → c.stopped = false → c'.stopped = false → c = c'
  stored : ∀ c ∈ w.pipeline.computations, c.stopped = false →
    ∃ run, Table.get? (key c.uri) w.pipeline.runs = some run ∧ run.computation = some c.id
  shut : .shut ∈ trace →
    w.pipeline.runs = [] ∧ ∀ c ∈ w.pipeline.computations, c.stopped = true

/-- In every run there is at most one piece of work for a document. -/
theorem Scene.Run.oneAtATime {options : Options} {trace : List Record} {w : Scene}
    (h : Run options trace w) : OneAtATime trace w where
  scheduled := by
    intro k run hg hs
    cases h.exclusive.keeps k run hg with
    | scheduled _ ht hc => exact ⟨ht, hc⟩
    | idle hi => simp [hs] at hi
    | computing hi => simp [hs] at hi
  computing := by
    intro k run hg hs
    cases h.exclusive.keeps k run hg with
    | computing _ ht hm hc hk hn => exact ⟨ht, _, hm, hc, hk, hn⟩
    | idle hi => simp [hs] at hi
    | scheduled hi => simp [hs] at hi
  idle := by
    intro k run hg hs
    cases h.exclusive.keeps k run hg with
    | idle _ ht hc => exact ⟨ht, hc⟩
    | scheduled hi => simp [hs] at hi
    | computing hi => simp [hs] at hi
  begun := fun _ _ hm _ _ ha => hm.begun h.exclusive ha
  kept := fun _ _ hm _ hc => hm.kept h.exclusive hc
  unique := by
    intro c hc c' hc' hk hn hn'
    obtain ⟨run, hg, hi⟩ := h.exclusive.owned c hc hn
    obtain ⟨run', hg', hi'⟩ := h.exclusive.owned c' hc' hn'
    obtain rfl := Option.some.inj (hg.symm.trans (hk ▸ hg'))
    exact h.exclusive.eq_of_id hc hc' (Option.some.inj (hi.symm.trans hi'))
  stored := h.exclusive.owned
  shut := by
    intro hs
    have hr : w.pipeline.runs = [] := h.exclusive.shut (h.account.shut hs)
    refine ⟨hr, ?_⟩
    intro c hc
    cases hn : c.stopped with
    | true => rfl
    | false =>
      obtain ⟨run, hg, -⟩ := h.exclusive.owned c hc hn
      rw [hr] at hg
      cases hg

/-- A computation is superseded by a timer, which goes off while it is still running. -/
def supersededTrace : List Record := [.started 0 (ascii "a"), .started 1 (ascii "A")]

theorem Scene.Run.oneAtATime_supersededTrace :
    ∃ w, Run {} supersededTrace w ∧ w.pipeline.computations.map (·.stopped) = [true, false] ∧
      OneAtATime supersededTrace w := by
  have h1 := Scene.Moves.refl.tail (.computeNow { pipeline := {} } (ascii "a"))
  have h2 := h1.tail (.trigger _ 5 (ascii "A"))
  have h3 := h2.tail (.fire _ ⟨0, ascii "A", 2, 305⟩)
  exact ⟨_, h3, rfl, Run.oneAtATime h3⟩

end EditorSession.Diagnostics
