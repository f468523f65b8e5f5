import EditorSession.Diagnostics.Pipeline
import EditorSession.Proofs.Table

/-! Who works for a document. A computation that nobody has asked to stop is the one that the run of
its document names, whatever the generation numbers are. So whoever takes a run over, or clears it,
stops every computation that was started for the document before. -/

namespace EditorSession.Diagnostics

open Document (key)

namespace Pipeline

variable {p p' : Pipeline} {uri : Bytes} {c : Computation}

structure Sound (p : Pipeline) : Prop where
  waiting : ∀ k run, Table.get? k p.runs = some run → run.state = .scheduled →
    run.computation = none
  owned : ∀ c ∈ p.computations, c.stopped = false →
    ∃ run, Table.get? (key c.uri) p.runs = some run ∧ run.computation = some c.id
  shut : p.shut = true → p.runs = []

theorem sound_empty (options : Options) : ({ options } : Pipeline).Sound := by
  constructor <;> simp [Table.get?]

/-! ### What a step can do -/

/-- No computation is started, and stop requests are not taken back. -/
structure Continues (p p' : Pipeline) : Prop where
  carries : ∀ c' ∈ p'.computations, ∃ c ∈ p.computations,
    c'.id = c.id ∧ c'.uri = c.uri ∧ (c'.stopped = false → c.stopped = false)
  started : p'.started = p.started

/-- No computation is started, stop requests are not taken back, and the pipeline is not shut. -/
structure GoesOn (p p' : Pipeline) : Prop extends Continues p p' where
  shut : p'.shut = p.shut

/-- One computation is started, and every other one for its document has been asked to stop. -/
structure Starts (p : Pipeline) (uri : Bytes) (p' : Pipeline) : Prop where
  carries : ∀ c' ∈ p'.computations, c'.id = p.started ∧ c'.uri = uri ∨
    ∃ c ∈ p.computations, c'.id = c.id ∧ c'.uri = c.uri ∧
      (c'.stopped = false → c.stopped = false ∧ key c.uri ≠ key uri)
  started : p'.started = p.started + 1
  before : p.shut = false
  after : p'.shut = false

inductive MayStart (p : Pipeline) (uri : Bytes) (p' : Pipeline) : Prop where
  | goesOn (h : p.GoesOn p')
  | starts (h : p.Starts uri p')

/-- A computation ends. It publishes only if nobody has asked it to stop and the pipeline is not
shut. -/
inductive Ends (p : Pipeline) (c : Computation) : Step → Prop where
  | silently {p' notices} (hg : p.GoesOn p') (hc : ∀ c' ∈ p'.computations, c'.id ≠ c.id) :
      Ends p c (p', [], notices)
  | publishing {p' publication notices} (hg : p.GoesOn p')
      (hc : ∀ c' ∈ p'.computations, c'.id ≠ c.id) (hs : c.stopped = false)
      (ho : p.shut = false) : Ends p c (p', [publication], notices)

theorem GoesOn.of_subset (hc : ∀ c ∈ p'.computations, c ∈ p.computations)
    (hn : p'.started = p.started) (hs : p'.shut = p.shut) : p.GoesOn p' :=
  ⟨⟨fun c h => ⟨c, hc c h, rfl, rfl, id⟩, hn⟩, hs⟩

theorem GoesOn.refl (p : Pipeline) : p.GoesOn p := .of_subset (fun _ h => h) rfl rfl

/-! ### Cancelling -/

@[simp] theorem cancel_shut (p : Pipeline) (run : Run) : (p.cancel run).shut = p.shut := rfl

theorem cancel_goesOn (p : Pipeline) (run : Run) : p.GoesOn (p.cancel run) := by
  refine ⟨⟨?_, rfl⟩, rfl⟩
  intro c' hc'
  obtain ⟨c, hc, rfl⟩ := List.mem_map.mp hc'
  refine ⟨c, hc, ?_⟩
  split <;> simp

/-- What is unstopped after a run was cancelled was so before, and is for another document. -/
theorem Sound.of_mem_cancel (h : p.Sound) (hc : c ∈ (p.cancel (p.run uri)).computations)
    (hs : c.stopped = false) : c ∈ p.computations ∧ key c.uri ≠ key uri := by
  obtain ⟨c', hc', rfl⟩ := List.mem_map.mp hc
  by_cases hr : (p.run uri).computation = some c'.id
  · simp [hr] at hs
  · rw [if_neg hr] at hs ⊢
    refine ⟨hc', ?_⟩
    intro hk
    obtain ⟨run, hg, hi⟩ := h.owned c' hc' hs
    rw [hk] at hg
    apply hr
    rw [Pipeline.run, hg]
    exact hi

/-- Replacing the run of one document, after it was cancelled. -/
theorem Sound.replace (h : p.Sound) (uri : Bytes) (ho : p'.shut = false)
    (hr : ∀ k, k ≠ key uri → Table.get? k p'.runs = Table.get? k p.runs)
    (hw : ∀ run, Table.get? (key uri) p'.runs = some run → run.state = .scheduled →
      run.computation = none)
    (hc : ∀ c ∈ p'.computations, c.stopped = false → c ∈ p.computations ∧ key c.uri ≠ key uri ∨
      ∃ run, Table.get? (key c.uri) p'.runs = some run ∧ run.computation = some c.id) :
    p'.Sound where
  waiting := by
    intro k run hg
    by_cases hk : k = key uri
    · subst hk
      exact hw run hg
    · rw [hr k hk] at hg
      exact h.waiting k run hg
  owned := by
    intro c hm hs
    rcases hc c hm hs with ⟨hm, hk⟩ | hrun
    · rw [hr _ hk]
      exact h.owned c hm hs
    · exact hrun
  shut := by simp [ho]

/-! ### Scheduling, starting and clearing -/

theorem Sound.startComputation (h : p.Sound) (ho : p.shut = false) (uri : Bytes)
    (generation : Nat) (hi : ∀ c ∈ p.computations, c.stopped = false → key c.uri ≠ key uri) :
    (p.startComputation uri generation).Sound := by
  refine h.replace uri ho ?_ ?_ ?_
  · intro k hk
    exact Table.get?_set_ne hk _ _
  · intro run hg
    rw [Pipeline.startComputation, Table.get?_set_self, Option.some.injEq] at hg
    subst hg
    simp
  · intro c hc hs
    rcases List.mem_append.mp hc with hc | hc
    · exact .inl ⟨hc, hi c hc hs⟩
    · obtain rfl := List.mem_singleton.mp hc
      exact .inr ⟨_, Table.get?_set_self _ _ _, rfl⟩

theorem startComputation_starts (ho : p.shut = false) (uri : Bytes) (generation : Nat)
    (hi : ∀ c ∈ p.computations, c.stopped = false → key c.uri ≠ key uri) :
    p.Starts uri (p.startComputation uri generation) := by
  refine ⟨?_, rfl, ho, ho⟩
  intro c hc
  rcases List.mem_append.mp hc with hc | hc
  · exact .inr ⟨c, hc, rfl, rfl, fun hs => ⟨hs, hi c hc hs⟩⟩
  · obtain rfl := List.mem_singleton.mp hc
    exact .inl ⟨rfl, rfl⟩

theorem Sound.cancel (h : p.Sound) (uri : Bytes) : (p.cancel (p.run uri)).Sound where
  waiting := h.waiting
  owned := fun c hc hs => h.owned c (h.of_mem_cancel hc hs).1 hs
  shut := h.shut

theorem GoesOn.starts {q : Pipeline} (hg : p.GoesOn q) (hs : q.Starts uri p') :
    p.Starts uri p' := by
  refine ⟨?_, by rw [hs.started, hg.started], ?_, hs.after⟩
  case refine_2 => rw [← hg.shut, hs.before]
  intro c' hc'
  rcases hs.carries c' hc' with ⟨hi, hu⟩ | ⟨d, hd, hi, hu, hk⟩
  · exact .inl ⟨by rw [hi, hg.started], hu⟩
  · obtain ⟨c, hc, hi', hu', hs'⟩ := hg.carries d hd
    refine .inr ⟨c, hc, hi.trans hi', hu.trans hu', ?_⟩
    intro hn
    obtain ⟨hn, hne⟩ := hk hn
    exact ⟨hs' hn, hu' ▸ hne⟩

theorem Sound.trigger (h : p.Sound) (now : Int) (uri : Bytes) : (p.trigger now uri).Sound := by
  unfold Pipeline.trigger
  split
  case isTrue => exact h
  case isFalse ho =>
    refine h.replace uri (by simpa using ho) ?_ ?_ ?_
    · intro k hk
      exact Table.get?_set_ne hk _ _
    · intro run hg
      rw [Table.get?_set_self, Option.some.injEq] at hg
      subst hg
      simp
    · intro c hc hs
      exact .inl (h.of_mem_cancel hc hs)

theorem trigger_goesOn (p : Pipeline) (now : Int) (uri : Bytes) :
    p.GoesOn (p.trigger now uri) := by
  unfold Pipeline.trigger
  split
  case isTrue => exact .refl p
  case isFalse =>
    obtain ⟨⟨hc, hn⟩, hs⟩ := p.cancel_goesOn (p.run uri)
    exact ⟨⟨hc, hn⟩, hs⟩

theorem Sound.computeNow (h : p.Sound) (uri : Bytes) :
    (p.computeNow uri).Sound ∧ p.MayStart uri (p.computeNow uri) := by
  unfold Pipeline.computeNow
  split
  case isTrue => exact ⟨h, .goesOn (.refl p)⟩
  case isFalse ho =>
    have ho : (p.cancel (p.run uri)).shut = false := by simpa using ho
    have hi := fun c hc hs => (@Sound.of_mem_cancel p uri c h hc hs).2
    exact ⟨(h.cancel uri).startComputation ho uri _ hi,
      .starts ((p.cancel_goesOn _).starts (startComputation_starts ho uri _ hi))⟩

/-- Nothing works for a document whose run is scheduled. -/
theorem Sound.ne_of_scheduled (h : p.Sound) {run : Run}
    (hg : Table.get? (key uri) p.runs = some run) (hw : run.state = .scheduled) :
    ∀ c ∈ p.computations, c.stopped = false → key c.uri ≠ key uri := by
  intro c hc hs hk
  obtain ⟨run', hg', hi⟩ := h.owned c hc hs
  rw [hk, hg, Option.some.injEq] at hg'
  rw [← hg', h.waiting _ _ hg hw] at hi
  cases hi

theorem Sound.expire (h : p.Sound) (uri : Bytes) (generation : Nat) :
    (p.expire uri generation).Sound ∧ p.MayStart uri (p.expire uri generation) := by
  have hsame : p.Sound ∧ p.MayStart uri p := ⟨h, .goesOn (.refl p)⟩
  unfold Pipeline.expire
  split
  case isTrue => exact hsame
  case isFalse ho =>
    have ho : p.shut = false := by simpa using ho
    split
    case h_1 run hg =>
      split
      case isTrue hw =>
        have hi := h.ne_of_scheduled hg hw.2
        exact ⟨h.startComputation ho uri _ hi, .starts (startComputation_starts ho uri _ hi)⟩
      case isFalse => exact hsame
    case h_2 => exact hsame

theorem Sound.fire (h : p.Sound) (timer : Timer) :
    (p.fire timer).Sound ∧ p.MayStart timer.uri (p.fire timer) := by
  have hq : ({ p with timers := p.timers.filter fun t => t.id ≠ timer.id } : Pipeline).Sound :=
    ⟨h.waiting, h.owned, h.shut⟩
  obtain ⟨hs, he⟩ := hq.expire timer.uri timer.generation
  refine ⟨hs, ?_⟩
  cases he with
  | goesOn h => exact .goesOn ⟨⟨h.carries, h.started⟩, h.shut⟩
  | starts h => exact .starts ⟨h.carries, h.started, h.before, h.after⟩

theorem clear_of_open (ho : p.shut = false) (uri : Bytes) :
    p.clear uri =
      ({ p.cancel (p.run uri) with runs := Table.erase (key uri) p.runs }, [{ uri }],
        [Notice.publishing { uri }]) := by
  rw [clear, if_neg (by simp [ho])]
  rfl

theorem Sound.clear (h : p.Sound) (uri : Bytes) : Sound (p.clear uri).1 := by
  cases ho : p.shut with
  | true =>
    rw [Pipeline.clear, if_pos ho]
    exact h
  | false =>
    rw [clear_of_open ho]
    refine h.replace uri ho ?_ ?_ ?_
    · intro k hk
      exact Table.get?_erase_ne hk _
    · intro run hg
      rw [Table.get?_erase_self] at hg
      cases hg
    · intro c hc hs
      exact .inl (h.of_mem_cancel hc hs)

theorem clear_goesOn (p : Pipeline) (uri : Bytes) : p.GoesOn (p.clear uri).1 := by
  cases ho : p.shut with
  | true =>
    rw [clear, if_pos ho]
    exact .refl p
  | false =>
    rw [clear_of_open ho]
    obtain ⟨⟨hc, hn⟩, hs⟩ := p.cancel_goesOn (p.run uri)
    exact ⟨⟨hc, hn⟩, hs⟩

/-! ### Beginning and ending -/

theorem begin_goesOn (p : Pipeline) (c : Computation) (d : Document.OpenDocument) :
    p.GoesOn (p.begin c (some d)).1 := by
  refine ⟨⟨?_, rfl⟩, rfl⟩
  intro c' hc'
  obtain ⟨other, ho, rfl⟩ := List.mem_map.mp hc'
  refine ⟨other, ho, ?_⟩
  split <;> simp

theorem Sound.begin (h : p.Sound) (c : Computation) (d : Document.OpenDocument) :
    Sound (p.begin c (some d)).1 where
  waiting := h.waiting
  owned := by
    intro c' hc' hs
    obtain ⟨other, ho, rfl⟩ := List.mem_map.mp hc'
    by_cases hi : other.id = c.id
    · rw [if_pos hi] at hs ⊢
      exact h.owned other ho hs
    · rw [if_neg hi] at hs ⊢
      exact h.owned other ho hs
  shut := h.shut

/-- A pipeline without the given computation. -/
def without (p : Pipeline) (c : Computation) : Pipeline :=
  { p with computations := p.computations.filter fun other => other.id ≠ c.id }

theorem without_goesOn (p : Pipeline) (c : Computation) : p.GoesOn (p.without c) :=
  .of_subset (fun _ h => (List.mem_filter.mp h).1) rfl rfl

theorem ne_of_mem_without {c' : Computation} (h : c' ∈ (p.without c).computations) :
    c'.id ≠ c.id := by
  simpa using (List.mem_filter.mp h).2

theorem finish_eq (p : Pipeline) (c : Computation) (publication : Option Lsp.Publication) :
    p.finish c publication =
      match Table.get? (key c.uri) p.runs with
      | some run =>
        if run.generation = c.generation ∧ ¬c.stopped then
          let q := { p.without c with
            runs := Table.set (key c.uri) { run with state := .idle, computation := none } p.runs }
          match p.shut, publication with
          | false, some publication => q.publish publication
          | _, _ => (q, [], [])
        else (p.without c, [], [Notice.superseded c.uri])
      | none => (p.without c, [], [Notice.superseded c.uri]) := rfl

theorem finish_ends (p : Pipeline) (c : Computation) (publication : Option Lsp.Publication) :
    p.Ends c (p.finish c publication) := by
  obtain ⟨⟨hg, hn⟩, hs⟩ := p.without_goesOn c
  rw [finish_eq]
  split
  case h_1 run _ =>
    split
    case isTrue hc =>
      split
      case h_1 ho =>
        exact .publishing ⟨⟨hg, hn⟩, hs⟩ (fun _ => ne_of_mem_without) (by simpa using hc.2) ho
      case h_2 => exact .silently ⟨⟨hg, hn⟩, hs⟩ fun _ => ne_of_mem_without
    case isFalse => exact .silently ⟨⟨hg, hn⟩, hs⟩ fun _ => ne_of_mem_without
  case h_2 => exact .silently ⟨⟨hg, hn⟩, hs⟩ fun _ => ne_of_mem_without

theorem Sound.without (h : p.Sound) (c : Computation) : (p.without c).Sound where
  waiting := h.waiting
  owned := fun c' hc' => h.owned c' (List.mem_filter.mp hc').1
  shut := h.shut

/-- The run of a computation that ends unstopped was its own, so nothing else loses its run. -/
theorem Sound.finish (h : p.Sound) (hc : c ∈ p.computations)
    (publication : Option Lsp.Publication) : Sound (p.finish c publication).1 := by
  rw [finish_eq]
  split
  case h_1 run hg =>
    split
    case isTrue hcur =>
      have hidle : ({ p.without c with
          runs := Table.set (key c.uri) { run with state := .idle, computation := none } p.runs } :
            Pipeline).Sound := by
        have ho : p.shut = false := by
          cases ho : p.shut with
          | false => rfl
          | true =>
            rw [h.shut ho] at hg
            cases hg
        refine h.replace c.uri ho ?_ ?_ ?_
        · intro k hk
          exact Table.get?_set_ne hk _ _
        · intro run' hg'
          rw [Table.get?_set_self, Option.some.injEq] at hg'
          subst hg'
          simp
        · intro c' hc' hs
          have hm := (List.mem_filter.mp hc').1
          refine .inl ⟨hm, ?_⟩
          intro hk
          obtain ⟨own, hown, hi⟩ := h.owned c hc (by simpa using hcur.2)
          obtain ⟨own', hown', hi'⟩ := h.owned c' hm hs
          rw [hk, hown, Option.some.injEq] at hown'
          rw [← hown', hi, Option.some.injEq] at hi'
          exact ne_of_mem_without hc' hi'.symm
      split
      case h_1 => exact hidle
      case h_2 => exact hidle
    case isFalse => exact h.without c
  case h_2 => exact h.without c

theorem Ends.saying {step : Step} (h : p.Ends c step) (notices : List Log.Notice) :
    p.Ends c (saying notices step) := by
  cases h with
  | silently hg hc => exact .silently hg hc
  | publishing hg hc hs ho => exact .publishing hg hc hs ho

/-- The engine's answer ends the computation that asked, or is to nobody. -/
inductive Answered (p : Pipeline) (id : ComputationId) (step : Step) : Prop where
  | nobody (h : step = (p, [], []))
  | ended {c : Computation} (hc : c ∈ p.computations) (hi : c.id = id) (he : p.Ends c step)
      (hs : Sound step.1)

theorem Sound.answer (h : p.Sound) (id : ComputationId)
    (outcome : Analysis.Outcome (List Lsp.Diagnostic)) : p.Answered id (p.answer id outcome) := by
  unfold Pipeline.answer
  split
  case h_1 => exact .nobody rfl
  case h_2 c hf =>
    have hc := List.mem_of_find?_eq_some hf
    have hi : c.id = id := by simpa using List.find?_some hf
    split
    case h_1 => exact .nobody rfl
    case h_2 =>
      unfold complete
      split
      case h_1 => exact .ended hc hi (p.finish_ends c _) (h.finish hc _)
      case h_2 => exact .ended hc hi ((p.finish_ends c _).saying _) (h.finish hc _)
      case h_3 =>
        split
        · exact .ended hc hi ((p.finish_ends c _).saying _) (h.finish hc _)
        · exact .ended hc hi ((p.finish_ends c _).saying _) (h.finish hc _)

/-! ### Shutting -/

theorem shutdown_continues (p : Pipeline) : p.Continues p.shutdown.1 := by
  unfold shutdown
  split
  case isTrue => exact (GoesOn.refl p).toContinues
  case isFalse =>
    refine ⟨?_, rfl⟩
    intro c' hc'
    obtain ⟨c, hc, rfl⟩ := List.mem_map.mp hc'
    refine ⟨c, hc, ?_⟩
    split <;> simp

theorem shutdown_first_iff {p : Pipeline} : p.shutdown.2 = true ↔ p.shut = false := by
  unfold shutdown
  split
  case isTrue h => simp [h]
  case isFalse h => simpa using h

theorem shutdown_shut (p : Pipeline) : p.shutdown.1.shut = true := by
  unfold shutdown
  split
  case isTrue h => exact h
  case isFalse => rfl

/-- Shutting stops all computations, because each that was not stopped is named by a run. -/
theorem Sound.shutdown (h : p.Sound) : p.shutdown.1.Sound := by
  unfold Pipeline.shutdown
  split
  case isTrue => exact h
  case isFalse =>
    refine ⟨by simp [Table.get?], ?_, fun _ => rfl⟩
    intro c' hc' hs
    obtain ⟨c, hc, rfl⟩ := List.mem_map.mp hc'
    split at hs
    case isTrue => cases hs
    case isFalse hn =>
      obtain ⟨run, hg, hi⟩ := h.owned c hc hs
      exact absurd (List.any_eq_true.mpr ⟨_, Table.mem_of_get? hg, by simp [hi]⟩) hn

end Pipeline

end EditorSession.Diagnostics
