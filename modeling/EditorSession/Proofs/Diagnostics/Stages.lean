import EditorSession.Proofs.Diagnostics.Upkeep

/-! How far computations have come. Whatever is done to a pipeline, a computation that is at work goes
on with the snapshot that it has. When it ends it leaves its run idle, if the run is its own, and
publishes nothing if it is not. -/

namespace EditorSession.Diagnostics

open Document (key)

namespace Pipeline

variable {p p' q : Pipeline} {uri : Bytes} {c : Computation}

/-- Every computation stays at the stage that it has come to, and those that are new are queued. -/
structure Retains (p p' : Pipeline) : Prop where
  stages : ∀ c' ∈ p'.computations,
    (p.started ≤ c'.id ∧ c'.id < p'.started ∧ c'.stage = .queued) ∨
      ∃ c ∈ p.computations, c'.id = c.id ∧ c'.uri = c.uri ∧ c'.stage = c.stage
  started : p.started ≤ p'.started
  options : p'.options = p.options

namespace Retains

theorem of_subset (hc : ∀ c ∈ p'.computations, c ∈ p.computations) (hs : p'.started = p.started)
    (ho : p'.options = p.options) : p.Retains p' :=
  ⟨fun c hm => .inr ⟨c, hc c hm, rfl, rfl, rfl⟩, Nat.le_of_eq hs.symm, ho⟩

theorem refl (p : Pipeline) : p.Retains p := of_subset (fun _ h => h) rfl rfl

theorem trans (h : p.Retains q) (h' : q.Retains p') : p.Retains p' := by
  refine ⟨?_, Nat.le_trans h.started h'.started, h'.options.trans h.options⟩
  intro c' hc'
  rcases h'.stages c' hc' with ⟨hl, hb, hq⟩ | ⟨d, hd, hi, hu, hst⟩
  · exact .inl ⟨Nat.le_trans h.started hl, hb, hq⟩
  · rcases h.stages d hd with ⟨hl, hb, hq⟩ | ⟨c, hc, hi', hu', hst'⟩
    · exact .inl ⟨hi ▸ hl, hi ▸ Nat.lt_of_lt_of_le hb h'.started, hst.trans hq⟩
    · exact .inr ⟨c, hc, hi.trans hi', hu.trans hu', hst.trans hst'⟩

theorem cancel (p : Pipeline) (run : Run) : p.Retains (p.cancel run) := by
  refine ⟨?_, Nat.le_refl _, rfl⟩
  intro c' hc'
  obtain ⟨c, hc, rfl⟩ := List.mem_map.mp hc'
  refine .inr ⟨c, hc, ?_⟩
  split <;> exact ⟨rfl, rfl, rfl⟩

theorem startComputation (p : Pipeline) (uri : Bytes) (generation : Nat) :
    p.Retains (p.startComputation uri generation) := by
  refine ⟨?_, Nat.le_succ _, rfl⟩
  intro c' hc'
  rcases List.mem_append.mp hc' with hc' | hc'
  · exact .inr ⟨c', hc', rfl, rfl, rfl⟩
  · rw [List.mem_singleton.mp hc']
    exact .inl ⟨Nat.le_refl _, Nat.lt_succ_self _, rfl⟩

theorem trigger (p : Pipeline) (now : Int) (uri : Bytes) : p.Retains (p.trigger now uri) := by
  unfold Pipeline.trigger
  split
  case isTrue => exact refl p
  case isFalse =>
    obtain ⟨hs, hn, ho⟩ := cancel p (p.run uri)
    exact ⟨hs, hn, ho⟩

theorem computeNow (p : Pipeline) (uri : Bytes) : p.Retains (p.computeNow uri) := by
  unfold Pipeline.computeNow
  split
  case isTrue => exact refl p
  case isFalse => exact (cancel p _).trans (startComputation _ uri _)

theorem expire (p : Pipeline) (uri : Bytes) (generation : Nat) :
    p.Retains (p.expire uri generation) := by
  unfold Pipeline.expire
  split
  case isTrue => exact refl p
  case isFalse =>
    split
    case h_1 =>
      split
      case isTrue => exact startComputation p uri generation
      case isFalse => exact refl p
    case h_2 => exact refl p

theorem fire (p : Pipeline) (timer : Timer) : p.Retains (p.fire timer) := by
  have h : p.Retains { p with timers := p.timers.filter fun t => t.id ≠ timer.id } :=
    of_subset (fun _ hc => hc) rfl rfl
  exact h.trans (expire _ timer.uri timer.generation)

theorem clear (p : Pipeline) (uri : Bytes) : p.Retains (p.clear uri).1 := by
  cases ho : p.shut with
  | true =>
    rw [Pipeline.clear, if_pos ho]
    exact refl p
  | false =>
    rw [clear_of_open ho]
    obtain ⟨hs, hn, ho⟩ := cancel p (p.run uri)
    exact ⟨hs, hn, ho⟩

theorem finish (p : Pipeline) (c : Computation) (publication : Option Lsp.Publication) :
    p.Retains (p.finish c publication).1 := by
  have h : p.Retains (p.without c) := of_subset (fun _ => mem_of_mem_without) rfl rfl
  rw [finish_eq]
  split
  case h_1 =>
    split
    case isTrue =>
      split
      case h_1 => exact ⟨h.stages, h.started, h.options⟩
      case h_2 => exact ⟨h.stages, h.started, h.options⟩
    case isFalse => exact h
  case h_2 => exact h

theorem complete (p : Pipeline) (c : Computation) (snapshot : Snapshot)
    (outcome : Analysis.Outcome (List Lsp.Diagnostic)) :
    p.Retains (p.complete c snapshot outcome).1 := by
  obtain ⟨publication, he, -⟩ := p.complete_eq c snapshot outcome
  rw [he]
  exact finish p c publication

theorem shutdown (p : Pipeline) : p.Retains p.shutdown.1 := by
  unfold Pipeline.shutdown
  split
  case isTrue => exact refl p
  case isFalse =>
    refine ⟨?_, Nat.le_refl _, rfl⟩
    intro c' hc'
    obtain ⟨c, hc, rfl⟩ := List.mem_map.mp hc'
    refine .inr ⟨c, hc, ?_⟩
    split <;> exact ⟨rfl, rfl, rfl⟩

end Retains

/-- A computation that begins goes to work on the document, and the others stay where they are. -/
theorem stage_begin {d : Document.OpenDocument} {c' : Computation}
    (hc' : c' ∈ (p.begin c (some d)).1.computations) :
    (c'.id = c.id ∧ c'.stage = .running (.ofDocument d)) ∨ (c'.id ≠ c.id ∧ c' ∈ p.computations) := by
  obtain ⟨x, hx, rfl⟩ := List.mem_map.mp hc'
  by_cases hi : x.id = c.id
  · rw [if_pos hi]
    exact .inl ⟨hi, rfl⟩
  · rw [if_neg hi]
    exact .inr ⟨hi, hx⟩

/-! ### Coming to an end -/

/-- The run of its document names the computation. -/
def Owns (p : Pipeline) (c : Computation) : Prop := (p.run c.uri).computation = some c.id

/-- A computation owns its run as long as nobody has asked it to stop. -/
theorem Exclusive.owns_iff (h : p.Exclusive) (hc : c ∈ p.computations) :
    p.Owns c ↔ c.stopped = false := by
  constructor
  · intro ho
    unfold Owns Pipeline.run at ho
    cases hg : Table.get? (key c.uri) p.runs with
    | none => simp [hg] at ho
    | some run =>
      rw [hg, Option.getD_some] at ho
      cases h.keeps _ run hg with
      | idle _ _ hn => simp [hn] at ho
      | scheduled _ _ hn => simp [hn] at ho
      | computing _ _ hm hown _ hn =>
        rw [hown, Option.some.injEq] at ho
        obtain rfl := h.eq_of_id hm hc ho
        exact hn
  · intro hn
    obtain ⟨run, hg, -, -, hown, -⟩ := h.run_of_mem hc hn
    rw [Owns, Pipeline.run, hg]
    exact hown

/-- Once the pipeline is shut, every computation has been asked to stop. -/
theorem Exclusive.open_of_mem (h : p.Exclusive) (hc : c ∈ p.computations)
    (hn : c.stopped = false) : p.shut = false := by
  obtain ⟨run, hg, -⟩ := h.run_of_mem hc hn
  cases hs : p.shut with
  | false => rfl
  | true =>
    rw [h.shut hs] at hg
    cases hg

theorem not_mem_ids_finish (p : Pipeline) (c : Computation)
    (publication : Option Lsp.Publication) : c.id ∉ (p.finish c publication).1.ids := by
  have hc := (p.finish_ends c publication)
  intro hm
  obtain ⟨x, hx, hi⟩ := List.mem_map.mp hm
  generalize p.finish c publication = step at hc hx
  cases hc with
  | silently _ hn => exact hn x hx hi
  | publishing _ hn => exact hn x hx hi

/-- What an end leads to: a computation that owns its run leaves it idle, and its publication goes
out; another leaves the run to whom it belongs, and publishes nothing. -/
structure Releases (p : Pipeline) (c : Computation) (publication : Option Lsp.Publication)
    (step : Step) : Prop where
  gone : c.id ∉ step.1.ids
  idle : c.stopped = false → step.1.state c.uri = .idle
  left : c.stopped = true → step.1.run c.uri = p.run c.uri
  publications : step.2.1 = if c.stopped then [] else publication.toList

theorem Releases.saying {publication : Option Lsp.Publication} {step : Step}
    (h : p.Releases c publication step) (notices : List Log.Notice) :
    p.Releases c publication (saying notices step) :=
  ⟨h.gone, h.idle, h.left, h.publications⟩

theorem Exclusive.finish_releases (h : p.Exclusive) (hc : c ∈ p.computations)
    (publication : Option Lsp.Publication) :
    p.Releases c publication (p.finish c publication) := by
  have hgone := p.not_mem_ids_finish c publication
  cases hn : c.stopped with
  | true =>
    rw [finish_superseded (by simp [hn])] at hgone ⊢
    exact ⟨hgone, by simp [hn], fun _ => rfl, by rw [hn]; rfl⟩
  | false =>
    obtain ⟨run, hg, -, -, -, hgen⟩ := h.run_of_mem hc hn
    obtain ⟨hp, hpub⟩ := finish_current hg ⟨hgen, by simp [hn]⟩ publication
    refine ⟨hgone, ?_, by simp [hn], ?_⟩
    · intro _
      rw [hp, state, Pipeline.run, concluded, Table.get?_set_self]
      rfl
    · rw [hpub, h.open_of_mem hc hn, hn]

/-- A computation whose document is not open ends at once. -/
theorem Exclusive.skip_releases (h : p.Exclusive) (hc : c ∈ p.computations) :
    p.Releases c none (p.begin c none) :=
  (h.finish_releases hc none).saying _

theorem answer_eq {snapshot : Snapshot} (hc : p.computation? c.id = some c)
    (hr : c.stage = .running snapshot) (outcome : Analysis.Outcome (List Lsp.Diagnostic)) :
    p.answer c.id outcome = p.complete c snapshot outcome := by
  rw [answer, hc]
  dsimp only
  rw [hr]

/-- What the engine's answer gives a computation to publish. -/
def reply (p : Pipeline) (snapshot : Snapshot) (outcome : Analysis.Outcome (List Lsp.Diagnostic)) :
    Option Lsp.Publication :=
  if outcome = .error .cancelled then none else some (p.report snapshot outcome)

theorem Exclusive.complete (h : p.Exclusive) (hc : c ∈ p.computations) (snapshot : Snapshot)
    (outcome : Analysis.Outcome (List Lsp.Diagnostic)) :
    (p.complete c snapshot outcome).1.Exclusive := by
  obtain ⟨publication, he, -⟩ := p.complete_eq c snapshot outcome
  rw [he]
  exact (h.finish hc publication).exclusive

/-- The engine's answer ends the computation. -/
theorem Exclusive.complete_releases (h : p.Exclusive) (hc : c ∈ p.computations)
    (snapshot : Snapshot) (outcome : Analysis.Outcome (List Lsp.Diagnostic)) :
    p.Releases c (p.reply snapshot outcome) (p.complete c snapshot outcome) := by
  unfold Pipeline.complete
  split
  case h_1 diagnostics => exact h.finish_releases hc _
  case h_2 => exact (h.finish_releases hc none).saying _
  case h_3 failure hne =>
    have hr : p.reply snapshot (.error failure) = some (p.report snapshot (.error failure)) := by
      apply if_neg
      intro he
      exact hne (Except.error.inj he)
    rw [hr]
    split
    case isTrue hs =>
      -- a stopped computation publishes nothing, whatever there is to publish
      obtain ⟨hg, hi, hl, hp⟩ := (h.finish_releases hc none).saying
        [Notice.interrupted c.uri failure.message]
      refine ⟨hg, hi, hl, hp.trans ?_⟩
      rw [if_pos hs, if_pos hs]
    case isFalse => exact (h.finish_releases hc (some (p.report snapshot (.error failure)))).saying _

end Pipeline

end EditorSession.Diagnostics
