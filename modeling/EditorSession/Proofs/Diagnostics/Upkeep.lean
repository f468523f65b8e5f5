import EditorSession.Proofs.Diagnostics.Exclusive

/-! Work that is not lost. A document that was triggered has a timer or a computation at work for it
until the computation has come to its end, and what this computation works on is the document as it
was when the computation began. -/

namespace EditorSession.Diagnostics

open Document (key)

namespace Pipeline

variable {options : Options} {now : Bytes → Option Snapshot} {p p' q : Pipeline} {uri k : Bytes}
  {c : Computation} {run : Run}

/-- Every scheduled run has its timer. -/
structure Armed (p : Pipeline) : Prop where
  nodup : (p.timers.map (·.id)).Nodup
  numbered : ∀ t ∈ p.timers, t.id < p.armed
  timed : ∀ k run, Table.get? k p.runs = some run → run.state = .scheduled →
    ∃ t ∈ p.timers, run.timer = some t.id ∧ key t.uri = k ∧ t.generation = run.generation

/-- What is computed is computed for the document that the computation was started for. -/
def Placed (p : Pipeline) : Prop :=
  ∀ c ∈ p.computations, ∀ s, c.stage = .running s → key s.uri = key c.uri

/-- A pipeline in service. -/
structure Ready (options : Options) (p : Pipeline) : Prop extends p.Exclusive, p.Armed where
  placed : p.Placed
  on : p.shut = false
  options : p.options = options

/-- A timer or a computation is at work for the documents under a key. -/
def Working (p : Pipeline) (k : Bytes) : Prop :=
  (∃ run, Table.get? k p.runs = some run ∧ run.state = .scheduled) ∨
    ∃ c ∈ p.computations, key c.uri = k ∧ c.stopped = false

/-- What is computed for a key, and not in vain, is computed from this snapshot. -/
def Reads (p : Pipeline) (k : Bytes) (snapshot : Option Snapshot) : Prop :=
  ∀ c ∈ p.computations, key c.uri = k → c.stopped = false →
    ∀ s, c.stage = .running s → snapshot = some s

theorem ready_empty (options : Options) : ({ options } : Pipeline).Ready options :=
  ⟨exclusive_empty options, ⟨List.nodup_nil, by simp, by simp [Table.get?]⟩, by simp [Placed], rfl,
    rfl⟩

/-! ### One document -/

theorem Elsewhere.working (h : p.Elsewhere uri p') (hk : k ≠ key uri) (hw : p.Working k) :
    p'.Working k := by
  rcases hw with ⟨run, hg, hs⟩ | ⟨c, hc, rfl, hn⟩
  · exact .inl ⟨run, (h.runs k hk).trans hg, hs⟩
  · exact .inr ⟨c, (h.computations c hk).mpr hc, rfl, hn⟩

theorem Elsewhere.reads (h : p.Elsewhere uri p') (hk : k ≠ key uri) {snapshot : Option Snapshot}
    (hr : p.Reads k snapshot) : p'.Reads k snapshot := by
  rintro c hc rfl hn s hs
  exact hr c ((h.computations c hk).mp hc) rfl hn s hs

theorem Armed.eq_of_id (h : p.Armed) {t t' : Timer} (ht : t ∈ p.timers) (ht' : t' ∈ p.timers)
    (hi : t.id = t'.id) : t = t' :=
  List.inj_on_of_nodup_map h.nodup ht ht' hi

/-- A timer that a run names is for the document of the run. -/
theorem Ready.key_of_timer (h : p.Ready options) {t : Timer} (ht : t ∈ p.timers)
    (hr : (p.run uri).timer = some t.id) : key t.uri = key uri := by
  unfold Pipeline.run at hr
  cases hg : Table.get? (key uri) p.runs with
  | none => simp [hg] at hr
  | some run =>
    rw [hg, Option.getD_some] at hr
    cases h.keeps _ run hg with
    | idle _ hnone => simp [hnone] at hr
    | computing _ hnone => simp [hnone] at hr
    | scheduled hs =>
      obtain ⟨t', ht', hi, hk, -⟩ := h.timed _ run hg hs
      rw [hr, Option.some.injEq] at hi
      rwa [h.toArmed.eq_of_id ht ht' hi]

/-- Only the run and the timer of one document differ. -/
theorem Ready.armed_of_elsewhere (h : p.Ready options)
    (hr : ∀ k, k ≠ key uri → Table.get? k p'.runs = Table.get? k p.runs)
    (ht : ∀ t ∈ p.timers, (p.run uri).timer ≠ some t.id → t ∈ p'.timers)
    (hd : (p'.timers.map (·.id)).Nodup) (hb : ∀ t ∈ p'.timers, t.id < p'.armed)
    (hk : ∀ run, Table.get? (key uri) p'.runs = some run → run.state = .scheduled →
      ∃ t ∈ p'.timers, run.timer = some t.id ∧ key t.uri = key uri ∧
        t.generation = run.generation) : p'.Armed := by
  refine ⟨hd, hb, ?_⟩
  intro k run hg hs
  by_cases hku : k = key uri
  · subst hku
    exact hk run hg hs
  · rw [hr k hku] at hg
    obtain ⟨t, hm, hi, rfl, hgen⟩ := h.timed k run hg hs
    refine ⟨t, ht t hm ?_, hi, rfl, hgen⟩
    intro hrun
    exact hku (h.key_of_timer hm hrun)

/-- The same, when no timer is touched and the document is not scheduled. -/
theorem Ready.armed_of_timers (h : p.Ready options)
    (hr : ∀ k, k ≠ key uri → Table.get? k p'.runs = Table.get? k p.runs)
    (ht : p'.timers = p.timers) (ha : p'.armed = p.armed)
    (hk : ∀ run, Table.get? (key uri) p'.runs = some run → run.state ≠ .scheduled) :
    p'.Armed := by
  refine h.armed_of_elsewhere hr ?_ ?_ ?_ fun run hg hs => absurd hs (hk run hg)
  · rw [ht]
    exact fun _ hm _ => hm
  · rw [ht]
    exact h.nodup
  · rw [ht, ha]
    exact h.numbered

theorem nodup_timers_cancel (h : p.Armed) (run : Run) :
    ((p.cancel run).timers.map (·.id)).Nodup :=
  h.nodup.sublist (List.filter_sublist.map _)

theorem mem_timers_cancel {run : Run} {t : Timer} :
    t ∈ (p.cancel run).timers ↔ t ∈ p.timers ∧ run.timer ≠ some t.id := by
  simp [cancel]

/-- The same, when the timer of the document is cancelled. -/
theorem Ready.armed_of_cancel (h : p.Ready options)
    (hr : ∀ k, k ≠ key uri → Table.get? k p'.runs = Table.get? k p.runs)
    (ht : p'.timers = (p.cancel (p.run uri)).timers) (ha : p'.armed = p.armed)
    (hk : ∀ run, Table.get? (key uri) p'.runs = some run → run.state ≠ .scheduled) :
    p'.Armed := by
  refine h.armed_of_elsewhere hr ?_ ?_ ?_ fun run hg hs => absurd hs (hk run hg)
  · intro t hm hn
    rw [ht]
    exact mem_timers_cancel.mpr ⟨hm, hn⟩
  · rw [ht]
    exact nodup_timers_cancel h.toArmed _
  · intro t hm
    rw [ht] at hm
    rw [ha]
    exact h.numbered t (mem_timers_cancel.mp hm).1

theorem Placed.cancel (h : p.Placed) (run : Run) : (p.cancel run).Placed := by
  intro c hc s hs
  obtain ⟨d, hd, rfl⟩ := List.mem_map.mp hc
  split at hs
  case isTrue hr =>
    rw [if_pos hr]
    exact h d hd s hs
  case isFalse hr =>
    rw [if_neg hr]
    exact h d hd s hs

theorem Placed.startComputation (h : p.Placed) (uri : Bytes) (generation : Nat) :
    (p.startComputation uri generation).Placed := by
  intro c hc s hs
  rcases List.mem_append.mp hc with hc | hc
  · exact h c hc s hs
  · rw [List.mem_singleton.mp hc] at hs
    cases hs

/-! ### Triggering, computing and clearing -/

/-- Work for one document starts anew, if at all. -/
structure Renews (options : Options) (p : Pipeline) (uri : Bytes) (p' : Pipeline) : Prop where
  ready : p'.Ready options
  elsewhere : p.Elsewhere uri p'
  reads : ∀ snapshot, p'.Reads (key uri) snapshot

theorem Ready.reads_cancel (h : p.Ready options) (uri : Bytes) (snapshot : Option Snapshot) :
    (p.cancel (p.run uri)).Reads (key uri) snapshot := by
  intro c hc hk hn
  exact absurd hk (h.of_mem_cancel hc hn).2

theorem Reads.startComputation {snapshot : Option Snapshot} (h : p.Reads k snapshot) (uri : Bytes)
    (generation : Nat) : (p.startComputation uri generation).Reads k snapshot := by
  intro c hc hk hn s hs
  rcases List.mem_append.mp hc with hc | hc
  · exact h c hc hk hn s hs
  · rw [List.mem_singleton.mp hc] at hs
    cases hs

theorem working_startComputation (p : Pipeline) (uri : Bytes) (generation : Nat) :
    (p.startComputation uri generation).Working (key uri) :=
  .inr ⟨_, p.mem_startComputation uri generation, rfl, rfl⟩

theorem not_scheduled_startComputation (p : Pipeline) (uri : Bytes) (generation : Nat) {run : Run}
    (hg : Table.get? (key uri) (p.startComputation uri generation).runs = some run) :
    run.state ≠ .scheduled := by
  rw [startComputation, Table.get?_set_self, Option.some.injEq] at hg
  subst hg
  simp

theorem Ready.trigger (h : p.Ready options) (now : Int) (uri : Bytes) :
    p.Renews options uri (p.trigger now uri) ∧ (p.trigger now uri).Working (key uri) := by
  have hx := h.toExclusive.trigger now uri
  revert hx
  unfold Pipeline.trigger
  rw [if_neg (by simp [h.on])]
  intro hx
  refine ⟨⟨⟨hx.exclusive, ?_, h.placed.cancel _, h.on, h.options⟩, hx.elsewhere,
    h.reads_cancel uri⟩, .inl ⟨_, Table.get?_set_self _ _ _, rfl⟩⟩
  refine h.armed_of_elsewhere hx.elsewhere.runs ?_ ?_ ?_ ?_
  · intro t ht hn
    exact List.mem_append_left _ (mem_timers_cancel.mpr ⟨ht, hn⟩)
  · rw [List.map_append, List.nodup_append]
    refine ⟨nodup_timers_cancel h.toArmed _, List.nodup_singleton _, ?_⟩
    rintro a ha b hb rfl
    obtain ⟨t, ht, rfl⟩ := List.mem_map.mp ha
    have hlt := h.numbered t (mem_timers_cancel.mp ht).1
    simp only [List.map_cons, List.map_nil, List.mem_singleton] at hb
    exact Nat.ne_of_lt hlt hb
  · intro t ht
    rcases List.mem_append.mp ht with ht | ht
    · exact Nat.lt_succ_of_lt (h.numbered t (mem_timers_cancel.mp ht).1)
    · rw [List.mem_singleton.mp ht]
      exact Nat.lt_succ_self _
  · intro run hg _
    rw [Table.get?_set_self, Option.some.injEq] at hg
    subst hg
    exact ⟨_, List.mem_append_right _ (List.mem_singleton_self _), rfl, rfl, rfl⟩

theorem Ready.computeNow (h : p.Ready options) (uri : Bytes) :
    p.Renews options uri (p.computeNow uri) ∧ (p.computeNow uri).Working (key uri) := by
  have hx := h.toExclusive.computeNow uri
  revert hx
  unfold Pipeline.computeNow
  rw [if_neg (by simp [h.on])]
  intro hx
  refine ⟨⟨⟨hx.exclusive, ?_, (h.placed.cancel _).startComputation uri _, h.on, h.options⟩,
    hx.elsewhere, fun s => (h.reads_cancel uri s).startComputation uri _⟩,
    working_startComputation _ uri _⟩
  exact h.armed_of_cancel hx.elsewhere.runs rfl rfl
    fun run => not_scheduled_startComputation _ uri _

theorem Ready.clear (h : p.Ready options) (uri : Bytes) :
    p.Renews options uri (p.clear uri).1 ∧ (p.clear uri).2.1 = [{ uri }] := by
  have hx := h.toExclusive.clear uri
  rw [clear_of_open h.on] at hx ⊢
  refine ⟨⟨⟨hx.exclusive, ?_, h.placed.cancel _, h.on, h.options⟩, hx.elsewhere,
    h.reads_cancel uri⟩, rfl⟩
  refine h.armed_of_cancel hx.elsewhere.runs rfl rfl ?_
  intro run hg
  rw [Table.get?_erase_self] at hg
  cases hg

/-! ### Going on -/

/-- Whoever was at work for a document still is, or another in its place; and if only the documents
as they are `now` were worked on, this is so still. -/
structure Carries (options : Options) (now : Bytes → Option Snapshot) (p p' : Pipeline) :
    Prop where
  ready : p'.Ready options
  working : ∀ k, p.Working k → p'.Working k
  reads : ∀ uri, p.Reads (key uri) (now uri) → p'.Reads (key uri) (now uri)

theorem Ready.carries_refl (h : p.Ready options) : p.Carries options now p :=
  ⟨h, fun _ => id, fun _ => id⟩

/-- The delay is over for the scheduled run of that generation, if there is one. -/
theorem expire_cases (ho : p.shut = false) (uri : Bytes) (generation : Nat) :
    (∃ run, Table.get? (key uri) p.runs = some run ∧ run.generation = generation ∧
        run.state = .scheduled ∧ p.expire uri generation = p.startComputation uri generation) ∨
      p.expire uri generation = p ∧ ∀ run, Table.get? (key uri) p.runs = some run →
        run.state = .scheduled → run.generation ≠ generation := by
  unfold Pipeline.expire
  rw [if_neg (by simp [ho])]
  split
  case h_1 run hg =>
    split
    case isTrue h => exact .inl ⟨run, hg, h.1, h.2, rfl⟩
    case isFalse hn =>
      refine .inr ⟨rfl, ?_⟩
      intro run' hg' hs hgen
      obtain rfl := Option.some.inj (hg.symm.trans hg')
      exact hn ⟨hgen, hs⟩
  case h_2 hg =>
    refine .inr ⟨rfl, ?_⟩
    intro run hg'
    rw [hg] at hg'
    cases hg'

theorem working_of_startComputation (h : p.Working k) (uri : Bytes) (generation : Nat) :
    (p.startComputation uri generation).Working k := by
  by_cases hk : k = key uri
  · subst hk
    exact working_startComputation p uri generation
  · exact (p.startComputation_elsewhere uri generation).working hk h

theorem Ready.expire (h : p.Ready options) (uri : Bytes) (generation : Nat) :
    p.Carries options now (p.expire uri generation) := by
  have hx := (h.toExclusive.expire uri generation).exclusive
  rcases expire_cases h.on uri generation with ⟨-, -, -, -, he⟩ | ⟨he, -⟩
  · rw [he] at hx ⊢
    refine ⟨⟨hx, ?_, h.placed.startComputation uri generation, h.on, h.options⟩, ?_, ?_⟩
    · exact h.armed_of_timers (p.startComputation_elsewhere uri generation).runs rfl rfl
        fun run => p.not_scheduled_startComputation uri generation
    · exact fun k hw => working_of_startComputation hw uri generation
    · exact fun _ hr => hr.startComputation uri generation
  · rw [he]
    exact h.carries_refl

/-- The timer that goes off is nobody's, unless its run is there and waits for it. -/
theorem Ready.fire (h : p.Ready options) {t : Timer} (ht : t ∈ p.timers) :
    p.Carries options now (p.fire t) := by
  have hx := (h.toExclusive.fire t).exclusive
  have hnodup : ((p.timers.filter fun other => other.id ≠ t.id).map (·.id)).Nodup :=
    h.nodup.sublist (List.filter_sublist.map _)
  have hnumbered : ∀ other ∈ p.timers.filter fun other => other.id ≠ t.id, other.id < p.armed :=
    fun other ho => h.numbered other (List.mem_filter.mp ho).1
  -- a run keeps its timer, unless the timer is the one that goes off
  have htimed : ∀ k run, Table.get? k p.runs = some run → run.state = .scheduled →
      ¬(k = key t.uri ∧ run.generation = t.generation) →
      ∃ other ∈ p.timers.filter fun other => other.id ≠ t.id,
        run.timer = some other.id ∧ key other.uri = k ∧ other.generation = run.generation := by
    intro k run hg hs hn
    obtain ⟨other, ho, hi, hk, hgen⟩ := h.timed k run hg hs
    refine ⟨other, List.mem_filter.mpr ⟨ho, ?_⟩, hi, hk, hgen⟩
    rw [decide_eq_true_eq]
    intro heq
    obtain rfl := h.toArmed.eq_of_id ho ht heq
    exact hn ⟨hk.symm, hgen.symm⟩
  unfold Pipeline.fire at hx ⊢
  rcases expire_cases (p := { p with timers := p.timers.filter fun other => other.id ≠ t.id })
    h.on t.uri t.generation with ⟨-, -, -, -, he⟩ | ⟨he, hn⟩
  · rw [he] at hx ⊢
    refine ⟨⟨hx, ⟨hnodup, hnumbered, ?_⟩, Placed.startComputation h.placed _ _, h.on, h.options⟩,
      ?_, ?_⟩
    · intro k run hg hs
      by_cases hk : k = key t.uri
      · subst hk
        exact absurd hs (not_scheduled_startComputation _ _ _ hg)
      · rw [startComputation, Table.get?_set_ne hk] at hg
        exact htimed k run hg hs fun hc => hk hc.1
    · exact fun k hw => working_of_startComputation hw t.uri t.generation
    · exact fun _ hr => Reads.startComputation hr t.uri t.generation
  · rw [he] at hx ⊢
    refine ⟨⟨hx, ⟨hnodup, hnumbered, ?_⟩, h.placed, h.on, h.options⟩, fun _ => id, fun _ => id⟩
    intro k run hg hs
    refine htimed k run hg hs ?_
    rintro ⟨rfl, hgen⟩
    exact hn run hg hs hgen

/-- A queued computation that finds its document open goes to work on it as it is now. -/
theorem Ready.begin (h : p.Ready options) (hc : c ∈ p.computations) {d : Document.OpenDocument}
    (hk : key d.uri = key c.uri)
    (hd : ∀ uri, key c.uri = key uri → now uri = some (.ofDocument d)) :
    p.Carries options now (p.begin c (some d)).1 := by
  have hx := h.toExclusive.begin hc d
  have hmem : ∀ {x}, x ∈ (p.begin c (some d)).1.computations → ∃ y ∈ p.computations,
      x = if y.id = c.id then { y with stage := .running (.ofDocument d) } else y := by
    intro x hx
    obtain ⟨y, hy, rfl⟩ := List.mem_map.mp hx
    exact ⟨y, hy, rfl⟩
  refine ⟨⟨hx.exclusive, ⟨h.nodup, h.numbered, h.timed⟩, ?_, h.on, h.options⟩, ?_, ?_⟩
  · intro x hx s hs
    obtain ⟨y, hy, rfl⟩ := hmem hx
    by_cases hi : y.id = c.id
    · obtain rfl := h.toExclusive.eq_of_id hy hc hi
      rw [if_pos rfl] at hs ⊢
      cases hs
      exact hk
    · rw [if_neg hi] at hs ⊢
      exact h.placed y hy s hs
  · rintro k (hs | ⟨y, hy, hk, hn⟩)
    · exact .inl hs
    · refine .inr ⟨_, List.mem_map.mpr ⟨y, hy, rfl⟩, ?_⟩
      split <;> exact ⟨hk, hn⟩
  · intro uri hr x hx hk hn s hs
    obtain ⟨y, hy, rfl⟩ := hmem hx
    by_cases hi : y.id = c.id
    · obtain rfl := h.toExclusive.eq_of_id hy hc hi
      rw [if_pos rfl] at hk hs
      cases hs
      exact hd uri hk
    · rw [if_neg hi] at hk hn hs
      exact hr y hy hk hn s hs

/-! ### Coming to an end -/

/-- A computation has come to its end, and the others go on. -/
structure Leaves (options : Options) (now : Bytes → Option Snapshot) (p : Pipeline)
    (c : Computation) (p' : Pipeline) : Prop where
  ready : p'.Ready options
  elsewhere : p.Elsewhere c.uri p'
  reads : ∀ uri, p.Reads (key uri) (now uri) → p'.Reads (key uri) (now uri)

theorem Reads.of_subset {snapshot : Option Snapshot} (h : p.Reads k snapshot)
    (hc : ∀ c ∈ p'.computations, c ∈ p.computations) : p'.Reads k snapshot :=
  fun c hm => h c (hc c hm)

theorem mem_of_mem_without {x : Computation} (h : x ∈ (p.without c).computations) :
    x ∈ p.computations :=
  (List.mem_filter.mp h).1

theorem Ready.without (h : p.Ready options) (hx : (p.without c).Exclusive) :
    (p.without c).Ready options :=
  ⟨hx, ⟨h.nodup, h.numbered, h.timed⟩, fun c hm => h.placed c (mem_of_mem_without hm), h.on,
    h.options⟩

/-- A computation that somebody has asked to stop leaves no trace. -/
theorem Ready.finish_stopped (h : p.Ready options) (hc : c ∈ p.computations)
    (hs : c.stopped = true) (publication : Option Lsp.Publication) :
    p.Carries options now (p.finish c publication).1 ∧ (p.finish c publication).2.1 = [] := by
  have hx := (h.toExclusive.finish hc publication).exclusive
  rw [finish_superseded (by simp [hs])] at hx ⊢
  refine ⟨⟨h.without hx, ?_, ?_⟩, rfl⟩
  · rintro k (hw | ⟨x, hx, hk, hn⟩)
    · exact .inl hw
    · refine .inr ⟨x, List.mem_filter.mpr ⟨hx, ?_⟩, hk, hn⟩
      rw [decide_eq_true_eq]
      intro hi
      obtain rfl := h.toExclusive.eq_of_id hx hc hi
      simp [hs] at hn
  · exact fun uri hr => hr.of_subset fun x => mem_of_mem_without

/-- The computation of a run is the last that is at work for its document. -/
theorem Ready.finish_current (h : p.Ready options) (hc : c ∈ p.computations)
    (hs : c.stopped = false) (publication : Option Lsp.Publication) :
    p.Leaves options now c (p.finish c publication).1 ∧
      (p.finish c publication).2.1 = publication.toList := by
  obtain ⟨run, hg, -, -, -, hgen⟩ := h.run_of_mem hc hs
  have hx := h.toExclusive.finish hc publication
  obtain ⟨hp, hpub⟩ := Pipeline.finish_current hg ⟨hgen, by simp [hs]⟩ publication
  rw [hp] at hx ⊢
  rw [hpub, h.on]
  refine ⟨⟨⟨hx.exclusive, ?_, fun c hm => h.placed c (mem_of_mem_without hm), h.on, h.options⟩,
    hx.elsewhere, ?_⟩, rfl⟩
  · refine h.armed_of_timers hx.elsewhere.runs rfl rfl ?_
    intro run' hg'
    rw [concluded, Table.get?_set_self, Option.some.injEq] at hg'
    subst hg'
    simp
  · exact fun uri hr => hr.of_subset fun x => mem_of_mem_without

/-- What is published when the engine has answered. -/
def report (p : Pipeline) (snapshot : Snapshot)
    (outcome : Analysis.Outcome (List Lsp.Diagnostic)) : Lsp.Publication :=
  { uri := snapshot.uri
    version := some snapshot.version
    diagnostics := match outcome with
      | .ok diagnostics => p.filter diagnostics
      | .error _ => [] }

theorem complete_eq (p : Pipeline) (c : Computation) (snapshot : Snapshot)
    (outcome : Analysis.Outcome (List Lsp.Diagnostic)) :
    ∃ publication, (p.complete c snapshot outcome).1 = (p.finish c publication).1 ∧
      (p.complete c snapshot outcome).2.1 = (p.finish c publication).2.1 ∧
      (c.stopped = false → outcome ≠ .error .cancelled →
        publication = some (p.report snapshot outcome)) := by
  unfold complete
  split
  case h_1 => exact ⟨_, rfl, rfl, fun _ _ => rfl⟩
  case h_2 => exact ⟨_, rfl, rfl, fun _ hn => absurd rfl hn⟩
  case h_3 =>
    split
    case isTrue hs => exact ⟨_, rfl, rfl, fun hn => by simp [hs] at hn⟩
    case isFalse => exact ⟨_, rfl, rfl, fun _ _ => rfl⟩

/-- The engine gives up only if it was asked to stop; else its answer is published. -/
theorem Ready.complete (h : p.Ready options) (now : Bytes → Option Snapshot)
    (hc : c ∈ p.computations) (snapshot : Snapshot)
    {outcome : Analysis.Outcome (List Lsp.Diagnostic)}
    (ho : outcome = .error .cancelled → c.stopped = true) :
    p.Carries options now (p.complete c snapshot outcome).1 ∧
        (p.complete c snapshot outcome).2.1 = [] ∨
      c.stopped = false ∧ p.Leaves options now c (p.complete c snapshot outcome).1 ∧
        (p.complete c snapshot outcome).2.1 = [p.report snapshot outcome] := by
  obtain ⟨publication, hp, hpub, hreport⟩ := p.complete_eq c snapshot outcome
  rw [hp, hpub]
  cases hs : c.stopped with
  | true => exact .inl (h.finish_stopped hc hs publication)
  | false =>
    have hnot : outcome ≠ .error .cancelled := by
      intro he
      simp [ho he] at hs
    obtain ⟨hl, hlist⟩ := h.finish_current hc hs publication
    rw [hreport hs hnot] at hl hlist ⊢
    exact .inr ⟨rfl, hl, hlist⟩

/-- A computation that finds its document closed ends without a publication. -/
theorem Ready.begin_none (h : p.Ready options) (now : Bytes → Option Snapshot)
    (hc : c ∈ p.computations) :
    p.Leaves options now c (p.begin c none).1 ∧ (p.begin c none).2.1 = [] := by
  cases hs : c.stopped with
  | false => exact h.finish_current hc hs none
  | true =>
    obtain ⟨hcarries, hpub⟩ := h.finish_stopped hc hs none
    exact ⟨⟨hcarries.ready, (h.toExclusive.finish hc none).elsewhere, hcarries.reads⟩, hpub⟩

/-! ### Events -/

/-- What the pipeline does when it is told of an event: whatever was at work for the document is
superseded, and another takes its place unless the document was closed. -/
structure Observes (options : Options) (p : Pipeline) (event : Document.Event) (step : Step) :
    Prop where
  renews : p.Renews options event.uri step.1
  working : event.kind ≠ .closed → Working step.1 (key event.uri)
  publications : step.2.1 = if event.kind = .closed then [{ uri := event.uri }] else []

theorem Ready.observe (h : p.Ready options) (he : options.enabled = true) (time : Int)
    (event : Document.Event) : p.Observes options event (p.observe time event) := by
  have he : p.options.enabled = true := h.options ▸ he
  obtain ⟨uri, version, kind⟩ := event
  unfold Pipeline.observe
  cases kind with
  | closed =>
    obtain ⟨hr, hp⟩ := h.clear uri
    exact ⟨hr, fun hn => absurd rfl hn, hp⟩
  | opened =>
    obtain ⟨hr, hw⟩ := h.computeNow uri
    simp only [he, ↓reduceIte]
    exact ⟨hr, fun _ => hw, rfl⟩
  | changed =>
    obtain ⟨hr, hw⟩ := h.trigger time uri
    simp only [he, ↓reduceIte]
    exact ⟨hr, fun _ => hw, rfl⟩
  | saved =>
    obtain ⟨hr, hw⟩ := h.trigger time uri
    simp only [he, ↓reduceIte]
    exact ⟨hr, fun _ => hw, rfl⟩

/-- A pipeline without timers and computations is not at work for any document. -/
theorem Ready.not_working (h : p.Ready options) (ht : p.timers = []) (hc : p.computations = [])
    (k : Bytes) : ¬p.Working k := by
  rintro (⟨run, hg, hs⟩ | ⟨c, hm, -⟩)
  · obtain ⟨t, hm, -⟩ := h.timed k run hg hs
    rw [ht] at hm
    cases hm
  · rw [hc] at hm
    cases hm

end Pipeline

end EditorSession.Diagnostics
