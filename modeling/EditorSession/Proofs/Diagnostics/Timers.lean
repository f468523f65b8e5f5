import EditorSession.Proofs.Diagnostics.Upkeep

/-! Timers. The run of a document waits for every timer that is armed for it, so a document has at
most one, and what is called on it arms another or none. A timer that goes off starts the computation
that it was armed for. -/

namespace EditorSession.Diagnostics

open Document (key)

namespace Pipeline

variable {options : Options} {p p' q : Pipeline} {uri : Bytes} {c : Computation} {t t' : Timer}

/-- The run of a document waits for this timer. -/
def Awaits (p : Pipeline) (t : Timer) : Prop :=
  ∃ run, Table.get? (key t.uri) p.runs = some run ∧ run.state = .scheduled ∧
    run.timer = some t.id ∧ run.generation = t.generation

/-- A pipeline in service that has no timer which nobody waits for. -/
structure Awaited (options : Options) (p : Pipeline) : Prop extends p.Ready options where
  awaits : ∀ t ∈ p.timers, p.Awaits t

theorem Awaited.empty (options : Options) : ({ options } : Pipeline).Awaited options :=
  ⟨ready_empty options, by simp⟩

theorem Awaits.of_runs (h : p.Awaits t)
    (hr : Table.get? (key t.uri) p'.runs = Table.get? (key t.uri) p.runs) : p'.Awaits t := by
  obtain ⟨run, hg, hrun⟩ := h
  exact ⟨run, hr.trans hg, hrun⟩

theorem Awaited.eq_of_key (h : p.Awaited options) (ht : t ∈ p.timers) (ht' : t' ∈ p.timers)
    (hk : key t.uri = key t'.uri) : t = t' := by
  obtain ⟨run, hg, -, hi, -⟩ := h.awaits t ht
  obtain ⟨run', hg', -, hi', -⟩ := h.awaits t' ht'
  rw [hk, hg', Option.some.injEq] at hg
  subst hg
  exact h.toArmed.eq_of_id ht ht' (Option.some.inj (hi.symm.trans hi'))

/-- The timer that is cancelled is the timer of the document. -/
theorem Awaited.mem_timers_cancel (h : p.Awaited options) :
    t ∈ (p.cancel (p.run uri)).timers ↔ t ∈ p.timers ∧ key t.uri ≠ key uri := by
  rw [Pipeline.mem_timers_cancel]
  refine and_congr_right ?_
  intro ht
  refine not_congr ⟨h.toReady.key_of_timer ht, ?_⟩
  intro hk
  obtain ⟨run, hg, -, hi, -⟩ := h.awaits t ht
  rw [Pipeline.run, ← hk, hg]
  exact hi

/-! ### Computations that are started -/

/-- The documents for which `p'` has computations that `p` has not yet started. -/
def begun (p p' : Pipeline) : List Bytes :=
  (p'.computations.filter fun c => p.started ≤ c.id).map (·.uri)

theorem begun_eq_nil (h : p.Exclusive) (hi : ∀ a ∈ p'.ids, a ∈ p.ids) : p.begun p' = [] := by
  rw [begun, List.map_eq_nil_iff, List.filter_eq_nil_iff]
  intro c hc
  simpa using h.below c.id (hi c.id (List.mem_map_of_mem hc))

theorem begun_startComputation (h : p.Exclusive) (hi : q.ids = p.ids) (hs : q.started = p.started)
    (uri : Bytes) (generation : Nat) : p.begun (q.startComputation uri generation) = [uri] := by
  have hold : p.begun q = [] := begun_eq_nil h fun a ha => hi ▸ ha
  rw [begun, List.map_eq_nil_iff] at hold
  simp [begun, startComputation, hold, hs]

/-- A step by which computations are started for these documents. -/
structure Launches (options : Options) (p : Pipeline) (uris : List Bytes) (p' : Pipeline) :
    Prop where
  awaited : p'.Awaited options
  begun : p.begun p' = uris

/-- A step by which the document loses its timer and is given these. -/
structure Retimes (options : Options) (p : Pipeline) (uri : Bytes) (own : List Timer)
    (uris : List Bytes) (p' : Pipeline) : Prop extends p.Launches options uris p' where
  timers : ∀ t, t ∈ p'.timers ↔ t ∈ p.timers ∧ key t.uri ≠ key uri ∨ t ∈ own

/-- A step by which the timers are kept, and nothing is started. -/
structure Rests (options : Options) (p p' : Pipeline) : Prop extends p.Launches options [] p' where
  timers : p'.timers = p.timers

theorem Awaited.retimes (h : p.Awaited options) (hr : p'.Ready options)
    (he : ∀ k, k ≠ key uri → Table.get? k p'.runs = Table.get? k p.runs) {own : List Timer}
    {uris : List Bytes} (hb : p.begun p' = uris)
    (ht : ∀ t, t ∈ p'.timers ↔ t ∈ p.timers ∧ key t.uri ≠ key uri ∨ t ∈ own)
    (ho : ∀ t ∈ own, p'.Awaits t) : p.Retimes options uri own uris p' := by
  refine ⟨⟨⟨hr, ?_⟩, hb⟩, ht⟩
  intro t hm
  rcases (ht t).mp hm with ⟨hm, hk⟩ | hm
  · exact (h.awaits t hm).of_runs (he _ hk)
  · exact ho t hm

/-- The timer that a trigger arms. -/
def armedBy (p : Pipeline) (now : Int) (uri : Bytes) : Timer :=
  ⟨p.armed, uri, (p.run uri).generation + 1, now + p.options.delay.toInt⟩

theorem trigger_of_open (ho : p.shut = false) (now : Int) (uri : Bytes) :
    p.trigger now uri = { p.cancel (p.run uri) with
      runs := Table.set (key uri) ⟨.scheduled, (p.run uri).generation + 1, some p.armed, none⟩ p.runs
      timers := (p.cancel (p.run uri)).timers ++ [p.armedBy now uri]
      armed := p.armed + 1 } := by
  rw [trigger, if_neg (by simp [ho])]
  rfl

theorem computeNow_of_open (ho : p.shut = false) (uri : Bytes) :
    p.computeNow uri =
      (p.cancel (p.run uri)).startComputation uri ((p.run uri).generation + 1) := by
  rw [computeNow, if_neg (by simp [ho])]

theorem Awaited.trigger (h : p.Awaited options) (now : Int) (uri : Bytes) :
    p.Retimes options uri [p.armedBy now uri] [] (p.trigger now uri) := by
  obtain ⟨hr, he, -⟩ := (h.toReady.trigger now uri).1
  have hp := trigger_of_open h.on now uri
  refine h.retimes hr he.runs ?_ ?_ ?_
  · refine begun_eq_nil h.toExclusive ?_
    intro a ha
    rw [hp] at ha
    exact (p.ids_cancel (p.run uri)) ▸ ha
  · intro t
    rw [hp, List.mem_append, h.mem_timers_cancel]
  · intro t ht
    rw [List.mem_singleton.mp ht, hp]
    exact ⟨_, Table.get?_set_self _ _ _, rfl, rfl, rfl⟩

theorem Awaited.computeNow (h : p.Awaited options) (uri : Bytes) :
    p.Retimes options uri [] [uri] (p.computeNow uri) := by
  obtain ⟨hr, he, -⟩ := (h.toReady.computeNow uri).1
  have hp := computeNow_of_open h.on uri
  refine h.retimes hr he.runs ?_ ?_ (by simp)
  · rw [hp]
    exact begun_startComputation h.toExclusive (p.ids_cancel _) rfl uri _
  · intro t
    rw [hp, List.mem_nil_iff, or_false]
    exact h.mem_timers_cancel

theorem Awaited.clear (h : p.Awaited options) (uri : Bytes) :
    p.Retimes options uri [] [] (p.clear uri).1 := by
  obtain ⟨hr, he, -⟩ := (h.toReady.clear uri).1
  rw [clear_of_open h.on] at hr he ⊢
  refine h.retimes hr he.runs ?_ ?_ (by simp)
  · exact begun_eq_nil h.toExclusive fun a ha => (p.ids_cancel (p.run uri)) ▸ ha
  · intro t
    rw [List.mem_nil_iff, or_false]
    exact h.mem_timers_cancel

/-- The delay of the run is over, since it is the run that waits for the timer. -/
theorem Awaited.fire_eq (h : p.Awaited options) (ht : t ∈ p.timers) :
    p.fire t = ({ p with timers := p.timers.filter fun other => other.id ≠ t.id } :
      Pipeline).startComputation t.uri t.generation := by
  obtain ⟨run, hg, hs, -, hgen⟩ := h.awaits t ht
  rw [fire, expire, if_neg (by simp [h.on])]
  simp only [hg, hgen, hs, and_self, ↓reduceIte]

theorem Awaited.fire (h : p.Awaited options) (ht : t ∈ p.timers) :
    p.Retimes options t.uri [] [t.uri] (p.fire t) := by
  have hcarries : p.Carries options (fun _ => none) (p.fire t) := h.toReady.fire ht
  have hr := hcarries.ready
  rw [h.fire_eq ht] at hr ⊢
  refine h.retimes hr ?_ ?_ ?_ (by simp)
  · intro k hk
    exact Table.get?_set_ne hk _ _
  · exact begun_startComputation h.toExclusive rfl rfl t.uri t.generation
  · intro other
    simp only [startComputation, List.mem_filter, decide_eq_true_eq, List.mem_nil_iff, or_false]
    refine and_congr_right ?_
    intro ho
    refine not_congr ⟨?_, ?_⟩
    · intro hi
      rw [h.toArmed.eq_of_id ho ht hi]
    · intro hk
      rw [h.eq_of_key ho ht hk]

/-! ### Timers that are due -/

theorem due?_eq_some {now : Int} (h : p.due? now = some t) : t ∈ p.timers ∧ t.due ≤ now := by
  unfold due? at h
  suffices ht : t ∈ p.timers.filter fun t => t.due ≤ now by simpa using ht
  refine List.foldlRecOn (motive := fun best => ∀ t, best = some t → t ∈ p.timers.filter _) _ _
    (by simp) ?_ t h
  intro best hb other ho t ht
  cases best with
  | none =>
    obtain rfl := Option.some.inj ht
    exact ho
  | some b =>
    dsimp only at ht
    split at ht
    · obtain rfl := Option.some.inj ht
      exact ho
    · exact hb t ht

theorem due?_eq_none {now : Int} (h : p.due? now = none) (ht : t ∈ p.timers) : now < t.due := by
  unfold due? at h
  cases hf : p.timers.filter fun t => t.due ≤ now with
  | nil => simpa using List.filter_eq_nil_iff.mp hf t ht
  | cons first rest =>
    rw [hf, List.foldl_cons] at h
    -- once there is a timer, there is one to the end
    refine (List.foldlRecOn (motive := fun best => best ≠ none) rest _ (by simp) ?_ h).elim
    intro best hb other _
    cases best with
    | none => exact absurd rfl hb
    | some b =>
      dsimp only
      split <;> simp

/-! ### Computations that begin and end -/

theorem Awaited.rests (h : p.Awaited options) (hr : p'.Ready options)
    (hi : ∀ a ∈ p'.ids, a ∈ p.ids) (ht : p'.timers = p.timers)
    (ha : ∀ t ∈ p.timers, Table.get? (key t.uri) p'.runs = Table.get? (key t.uri) p.runs) :
    p.Rests options p' := by
  refine ⟨⟨⟨hr, ?_⟩, begun_eq_nil h.toExclusive hi⟩, ht⟩
  rw [ht]
  exact fun t hm => (h.awaits t hm).of_runs (ha t hm)

theorem Awaited.rests_refl (h : p.Awaited options) : p.Rests options p :=
  h.rests h.toReady (fun _ => id) rfl fun _ _ => rfl

theorem Awaited.begin (h : p.Awaited options) (hc : c ∈ p.computations)
    {d : Document.OpenDocument} (hk : key d.uri = key c.uri) :
    p.Rests options (p.begin c (some d)).1 := by
  have hcarries : p.Carries options (fun _ => some (.ofDocument d)) (p.begin c (some d)).1 :=
    h.toReady.begin hc hk fun _ _ => rfl
  exact h.rests hcarries.ready (fun a ha => (p.ids_begin c d) ▸ ha) rfl fun _ _ => rfl

theorem Awaited.finish (h : p.Awaited options) (hc : c ∈ p.computations)
    (publication : Option Lsp.Publication) : p.Rests options (p.finish c publication).1 := by
  have hi : ∀ a ∈ (p.finish c publication).1.ids, a ∈ p.ids := by
    intro a ha
    rw [(h.toExclusive.finish hc publication).ids] at ha
    exact (List.mem_filter.mp ha).1
  cases hs : c.stopped with
  | true =>
    have hcarries : p.Carries options (fun _ => none) (p.finish c publication).1 :=
      (h.toReady.finish_stopped hc hs publication).1
    have hr := hcarries.ready
    rw [finish_superseded (by simp [hs])] at hr hi ⊢
    exact h.rests hr hi rfl fun _ _ => rfl
  | false =>
    have hleaves : p.Leaves options (fun _ => none) c (p.finish c publication).1 :=
      (h.toReady.finish_current hc hs publication).1
    have hr := hleaves.ready
    obtain ⟨run, hg, hcomputing, -, -, hgen⟩ := h.run_of_mem hc hs
    rw [(finish_current hg ⟨hgen, by simp [hs]⟩ publication).1] at hr hi ⊢
    refine h.rests hr hi rfl ?_
    intro t ht
    refine Table.get?_set_ne ?_ _ _
    intro hk
    obtain ⟨run', hg', hscheduled, -⟩ := h.awaits t ht
    rw [hk, hg, Option.some.injEq] at hg'
    subst hg'
    rw [hcomputing] at hscheduled
    cases hscheduled

theorem next?_queued (h : p.next? = some c) : c ∈ p.computations ∧ c.stage = .queued := by
  unfold next? at h
  dsimp only at h
  split at h
  case isFalse => cases h
  case isTrue =>
    refine ⟨List.mem_of_find?_eq_some h, ?_⟩
    have hq : c.isRunning = false := by simpa using List.find?_some h
    unfold Computation.isRunning at hq
    split at hq
    · assumption
    · cases hq

theorem Awaited.beginNext (h : p.Awaited options)
    {documentOf : Bytes → Option Document.OpenDocument}
    (hd : ∀ uri d, documentOf uri = some d → key d.uri = key uri) :
    p.Rests options (p.beginNext documentOf).1 := by
  unfold Pipeline.beginNext
  cases hn : p.next? with
  | none => exact h.rests_refl
  | some c =>
    have hc := (next?_queued hn).1
    dsimp only
    cases hdoc : documentOf c.uri with
    | none => exact h.finish hc none
    | some d => exact h.begin hc (hd c.uri d hdoc)

theorem Awaited.answer (h : p.Awaited options) (id : ComputationId)
    (outcome : Analysis.Outcome (List Lsp.Diagnostic)) :
    p.Rests options (p.answer id outcome).1 := by
  unfold Pipeline.answer
  split
  case h_1 => exact h.rests_refl
  case h_2 c hf =>
    split
    case h_1 => exact h.rests_refl
    case h_2 snapshot _ =>
      obtain ⟨publication, hp, -⟩ := p.complete_eq c snapshot outcome
      rw [hp]
      exact h.finish (List.mem_of_find?_eq_some hf) publication

end Pipeline

end EditorSession.Diagnostics
