import EditorSession.Proofs.Document.Turns

/-! Every event reaches every listener once. Operations may be begun, and listeners may come and go,
while listeners are being called; nevertheless the round of an event is made up of those who were
registered when it was raised, in order, less those who were removed before their turn. -/

namespace EditorSession.Document

theorem eq_append_cons_of_append {α : Type} {xs ys before after : List α} {x : α}
    (h : xs ++ ys = before ++ x :: after) :
    (∃ since, xs = before ++ x :: since ∧ after = since ++ ys) ∨
      ∃ since, before = xs ++ since ∧ ys = since ++ x :: after := by
  rcases List.append_eq_append_iff.mp h with ⟨since, hb, hy⟩ | ⟨since, hx, ha⟩
  · exact .inr ⟨since, hb, hy⟩
  · cases since with
    | nil =>
      refine .inr ⟨[], ?_, ha.symm⟩
      rw [hx, List.append_nil, List.append_nil]
    | cons y since =>
      obtain ⟨rfl, rfl⟩ := List.cons.inj ha
      exact .inl ⟨since, hx, rfl⟩

theorem eq_of_append_cons {α : Type} {xs ys xs' ys' : List α} {x : α} (h : x ∉ xs) (h' : x ∉ xs')
    (he : xs ++ x :: ys = xs' ++ x :: ys') : xs' = xs := by
  rcases eq_append_cons_of_append he with ⟨since, rfl, -⟩ | ⟨since, rfl, hs⟩
  · exact absurd (by simp) h
  · cases since with
    | nil => exact List.append_nil xs
    | cons y since =>
      obtain ⟨rfl, -⟩ := List.cons.inj hs
      exact absurd (by simp) h'

namespace Scene

variable {trace notes : List Note} {w w' : Scene} {id : OperationId}

/-- What has become of an event: its round is under way, or it is over and everyone has had a turn. -/
inductive Course (w : Scene) (id : OperationId) (event : Event) (audience : List ListenerId)
    (since : List Note) : Prop where
  | underway (d) (hd : (id, .delivery d) ∈ w.operations) (he : d.event = event)
      (hr : Round id event audience since d.waiting)
  | ended (during rest) (hs : since = during ++ .ended id :: rest)
      (hr : Round id event audience during [])

/-- The listener being called has its turn in the round of an event that was raised before. -/
def Underway (trace : List Note) (id : OperationId) (d : Delivery) : Prop :=
  ∃ before since, trace = before ++ .raised id d.event :: since ∧
    Round id d.event (registeredIn before) since d.waiting

/-- It is the listener's turn in the round of the event, and it has not been removed. -/
def InTurn (before : List Note) (id : OperationId) (l : ListenerId) (event : Event) : Prop :=
  .removed l ∉ before ∧ ∃ earlier since waiting, before = earlier ++ .raised id event :: since ∧
    Round id event (registeredIn earlier) since (l :: waiting)

/-- Events take their course, and listeners are called in their turn only. -/
structure Served (trace : List Note) (w : Scene) : Prop where
  underway : ∀ id d, (id, .delivery d) ∈ w.operations → Underway trace id d
  raised : ∀ before id event since, trace = before ++ .raised id event :: since →
    Course w id event (registeredIn before) since
  called : ∀ before id l event since, trace = before ++ .called id l event :: since →
    InTurn before id l event

theorem Underway.append {d : Delivery} (h : Underway trace id d)
    (hn : ∀ n ∈ notes, n.round? ≠ some id) : Underway (trace ++ notes) id d := by
  obtain ⟨before, since, rfl, hr⟩ := h
  exact ⟨before, since ++ notes, by simp, hr.append hn⟩

theorem round?_of_mem_begins {status : Status} {n : Note} (h : n ∈ status.begins id) :
    n.round? = some id := by
  rcases status.quiet_or_calls with hq | ⟨d, rfl⟩
  · rw [Status.begins_of_quiet hq] at h
    cases h
  · rcases List.mem_cons.mp h with rfl | h
    · rfl
    · rw [List.mem_singleton.mp h]
      rfl

/-- A step that raises an event calls a listener at once. -/
theorem raised_of_begins {status : Status} {since rest : List Note} {i : OperationId} {event : Event}
    (h : status.begins id = since ++ .raised i event :: rest) :
    ∃ d, status = .suspended (.delivery d) ∧ i = id ∧ d.event = event ∧ since = [] ∧
      rest = [.called id d.listener d.event] := by
  rcases status.quiet_or_calls with hq | ⟨d, rfl⟩
  · simp [Status.begins_of_quiet hq] at h
  · rw [Status.begins] at h
    cases since with
    | nil =>
      simp only [List.nil_append, List.cons.injEq, Note.raised.injEq] at h
      obtain ⟨⟨hi, he⟩, hr⟩ := h
      exact ⟨d, rfl, hi.symm, he, rfl, hr.symm⟩
    | cons n since => cases since <;> simp at h

theorem called_of_begins {status : Status} {since rest : List Note} {i : OperationId}
    {l : ListenerId} {event : Event}
    (h : status.begins id = since ++ .called i l event :: rest) :
    ∃ d, status = .suspended (.delivery d) ∧ i = id ∧ d.listener = l ∧ d.event = event ∧
      since = [.raised id d.event] := by
  rcases status.quiet_or_calls with hq | ⟨d, rfl⟩
  · simp [Status.begins_of_quiet hq] at h
  · rw [Status.begins] at h
    cases since with
    | nil => simp at h
    | cons n since =>
      cases since with
      | nil =>
        simp only [List.cons_append, List.nil_append, List.cons.injEq, Note.called.injEq] at h
        obtain ⟨rfl, ⟨hi, hl, he⟩, -⟩ := h
        exact ⟨d, rfl, hi.symm, hl, he, rfl⟩
      | cons n' since => simp at h

theorem round?_of_mem_continues {status : Status} {n : Note} (h : n ∈ status.continues id) :
    n.round? = some id := by
  rcases status.quiet_or_calls with hq | ⟨d, rfl⟩
  · rw [Status.continues_of_quiet hq] at h
    rw [List.mem_singleton.mp h]
    rfl
  · rw [List.mem_singleton.mp h]
    rfl

theorem not_mem_continues {status : Status} {i : OperationId} {event : Event} :
    .raised i event ∉ status.continues id := by
  rcases status.quiet_or_calls with hq | ⟨d, rfl⟩
  · simp [Status.continues_of_quiet hq]
  · simp [Status.continues]

theorem called_of_continues {status : Status} {since rest : List Note} {i i' : OperationId}
    {l l' : ListenerId} {failure : Option Bytes} {event : Event}
    (h : .left i' l' failure :: status.continues id = since ++ .called i l event :: rest) :
    ∃ d, status = .suspended (.delivery d) ∧ i = id ∧ d.listener = l ∧ d.event = event ∧
      since = [.left i' l' failure] := by
  cases since with
  | nil => simp at h
  | cons n since =>
    rw [List.cons_append, List.cons.injEq] at h
    obtain ⟨rfl, h⟩ := h
    rcases status.quiet_or_calls with hq | ⟨d, rfl⟩
    · rw [Status.continues_of_quiet hq] at h
      cases since <;> simp at h
    · rw [Status.continues] at h
      cases since with
      | nil =>
        simp only [List.nil_append, List.cons.injEq, Note.called.injEq] at h
        obtain ⟨⟨hi, hl, he⟩, -⟩ := h
        exact ⟨d, rfl, hi.symm, hl, he, rfl⟩
      | cons n' since => simp at h

namespace Served

theorem empty : Served [] {} := ⟨by simp, by simp, by simp⟩

/-- A move takes the rounds that are under way a step further, and the events that it raises and the
calls that it makes are in order. -/
theorem step (h : w.Served trace)
    (hu : ∀ id d, (id, .delivery d) ∈ w'.operations → Underway (trace ++ notes) id d)
    (ho : ∀ before id d since, trace = before ++ .raised id d.event :: since →
      (id, .delivery d) ∈ w.operations →
      Round id d.event (registeredIn before) since d.waiting →
      Course w' id d.event (registeredIn before) (since ++ notes))
    (hr : ∀ since id event rest, notes = since ++ .raised id event :: rest →
      Course w' id event (registeredIn (trace ++ since)) rest)
    (hc : ∀ since id l event rest, notes = since ++ .called id l event :: rest →
      InTurn (trace ++ since) id l event) : w'.Served (trace ++ notes) where
  underway := hu
  raised := by
    intro before id event since ht
    rcases eq_append_cons_of_append ht with ⟨since', ht', rfl⟩ | ⟨since', rfl, hn⟩
    · cases h.raised before id event since' ht' with
      | underway d hd he hround =>
        subst he
        exact ho before id d since' ht' hd hround
      | ended during rest hs hround =>
        refine .ended during (rest ++ notes) ?_ hround
        rw [hs, List.append_assoc]
        rfl
    · exact hr since' id event since hn
  called := by
    intro before id l event since ht
    rcases eq_append_cons_of_append ht with ⟨since', ht', -⟩ | ⟨since', rfl, hn⟩
    · exact h.called before id l event since' ht'
    · exact hc since' id l event since hn

/-- Listeners come and go. -/
theorem keep (h : w.Served trace) (ho : w'.operations = w.operations)
    (hn : ∀ n ∈ notes, n.round? = none) : w'.Served (trace ++ notes) := by
  have hne : ∀ id : OperationId, ∀ n ∈ notes, n.round? ≠ some id := by
    intro id n hm
    rw [hn n hm]
    simp
  refine h.step ?_ ?_ ?_ ?_
  · intro id d hd
    rw [ho] at hd
    exact (h.underway id d hd).append (hne id)
  · intro before id d since _ hd hr
    rw [← ho] at hd
    exact .underway d hd rfl (hr.append (hne id))
  · intro since id event rest hs
    exact absurd rfl (hne id (.raised id event) (by simp [hs]))
  · intro since id l event rest hs
    exact absurd rfl (hne id (.called id l event) (by simp [hs]))

variable {step : Step}

/-- A step that may begin a round. -/
theorem begins (h : w.Served trace) (ha : w.Account trace) (hb : w.store.Begins step)
    (hid : ∀ d, (id, .delivery d) ∉ w.operations)
    (hm : ∀ i t, (i, t) ∈ w'.operations ↔
      (i, t) ∈ w.operations ∧ i ≠ id ∨ i = id ∧ step.2.1 = .suspended t) :
    w'.Served (trace ++ step.2.1.begins id) := by
  have hother : ∀ i, i ≠ id → ∀ n ∈ step.2.1.begins id, n.round? ≠ some i := by
    intro i hi n hn
    rw [round?_of_mem_begins hn]
    simpa using hi.symm
  -- what the step begins, it begins with those who are registered
  have hfirst : ∀ d, step.2.1 = .suspended (.delivery d) →
      registeredIn trace = d.listener :: d.waiting := by
    intro d hd
    rw [← ha.roster.registered]
    cases hb with
    | quiet _ hq => exact absurd hd (hq d)
    | raises d' hr _ hd' =>
      rw [hd', Status.suspended.injEq, Suspended.delivery.injEq] at hd
      exact hd ▸ hr
  have hround : ∀ d, step.2.1 = .suspended (.delivery d) →
      Round id d.event (registeredIn trace) [.called id d.listener d.event] d.waiting := by
    intro d hd
    rw [hfirst d hd]
    exact Round.called .begun (by simp)
  refine h.step ?_ ?_ ?_ ?_
  · intro i d hd
    rcases (hm i _).mp hd with ⟨hd, hi⟩ | ⟨rfl, hs⟩
    · exact (h.underway i d hd).append (hother i hi)
    · refine ⟨trace, _, ?_, hround d hs⟩
      rw [hs]
      rfl
  · intro before i d since _ hd hr
    have hi : i ≠ id := by
      rintro rfl
      exact hid d hd
    exact .underway d ((hm i _).mpr (.inl ⟨hd, hi⟩)) rfl (hr.append (hother i hi))
  · intro since i event rest hs
    obtain ⟨d, hst, rfl, rfl, rfl, rfl⟩ := raised_of_begins hs
    rw [List.append_nil]
    exact .underway d ((hm i _).mpr (.inr ⟨rfl, hst⟩)) rfl (hround d hst)
  · intro since i l event rest hs
    obtain ⟨d, hst, rfl, rfl, rfl, rfl⟩ := called_of_begins hs
    have hl : d.listener ∈ registeredIn trace := hfirst d hst ▸ List.mem_cons_self
    refine ⟨?_, trace, [], d.waiting, rfl, hfirst d hst ▸ .begun⟩
    have hr := (List.mem_filter.mp hl).2
    simpa using hr

/-- A step that goes on with a round. -/
theorem continues (h : w.Served trace) (ha : w.Account trace) {d : Delivery}
    (hd : (id, .delivery d) ∈ w.operations)
    (hc : (w.store.leave d.listener).Continues d step) (failure : Option Bytes) :
    (w.advance id step).Served
      (trace ++ .left id d.listener failure :: step.2.1.continues id) := by
  have hleave := ha.roster_leave d.listener
  have hother : ∀ i, i ≠ id →
      ∀ n ∈ Note.left id d.listener failure :: step.2.1.continues id, n.round? ≠ some i := by
    intro i hi n hn
    rcases List.mem_cons.mp hn with rfl | hn
    · simp [Note.round?]
    · rw [round?_of_mem_continues hn]
      simpa using hi.symm
  refine h.step ?_ ?_ ?_ ?_
  · intro i d' hd'
    rcases mem_advance_operations.mp hd' with ⟨hd', hi⟩ | ⟨rfl, hs⟩
    · exact (h.underway i d' hd').append (hother i hi)
    · obtain ⟨before, since, rfl, hr⟩ := h.underway i d hd
      obtain ⟨he, hn, hr'⟩ := hr.next hleave hc failure hs
      refine ⟨before, _, ?_, he ▸ hr'.called hn⟩
      rw [hs, Status.continues, he]
      simp
  · intro before i d₀ since ht hd₀ hr
    by_cases hi : i = id
    · subst hi
      cases ha.orderly.eq_of_mem hd hd₀
      rw [ht] at hleave
      rcases Status.quiet_or_calls step.2.1 with hs | ⟨d', hs⟩
      · refine .ended (since ++ [.left i d.listener failure]) [] ?_ (hr.ends hleave hc failure hs)
        rw [Status.continues_of_quiet hs]
        simp
      · obtain ⟨he, hn, hr'⟩ := hr.next hleave hc failure hs
        refine .underway d' (mem_advance_operations.mpr (.inr ⟨rfl, hs⟩)) he ?_
        have hcall := hr'.called hn
        rw [hs, Status.continues, he]
        simpa using hcall
    · exact .underway d₀ (mem_advance_operations.mpr (.inl ⟨hd₀, hi⟩)) rfl (hr.append (hother i hi))
  · intro since i event rest hs
    have hm : Note.raised i event ∈ step.2.1.continues id := by
      have hm : Note.raised i event ∈ Note.left id d.listener failure :: step.2.1.continues id := by
        simp [hs]
      simpa using hm
    exact absurd hm not_mem_continues
  · intro since i l event rest hs
    obtain ⟨d', hst, rfl, rfl, rfl, rfl⟩ := called_of_continues hs
    obtain ⟨before, since, rfl, hr⟩ := h.underway i d hd
    obtain ⟨he, hn, hr'⟩ := hr.next hleave hc failure hst
    have hl : d'.listener ∈ registeredIn _ := hleave.listens_iff.mp (hc.listens hst)
    refine ⟨?_, before, since ++ [.left i d.listener failure], d'.waiting, by simp [he], he ▸ hr'⟩
    have hrem := (List.mem_filter.mp hl).2
    simpa using hrem

end Served

/-! ### Along a run -/

theorem Served.turn (h : w.Served trace) (ha : w.Account trace) (ht : Turn w notes w') :
    w'.Served (trace ++ notes) := by
  cases ht with
  | start operation =>
    refine h.begins ha (w.store.start_begins operation) ?_ fun i t => mem_advance_operations
    intro d hd
    exact Nat.lt_irrefl _ (ha.orderly.below _ hd)
  | @answer id l answer hl =>
    refine h.begins ha (w.store.resumeLookup_begins l answer) ?_ fun i t => mem_advance_operations
    intro d hd
    cases ha.orderly.eq_of_mem hl hd
  | @hear id d failure hd =>
    exact h.continues ha hd (w.store.resumeDelivery_continues d failure) failure
  | subscribe =>
    refine h.keep rfl ?_
    intro n hn
    rw [List.mem_singleton.mp hn]
    rfl
  | unsubscribe listener running =>
    refine h.keep rfl ?_
    intro n hn
    split at hn
    · rw [List.mem_singleton.mp hn]
      rfl
    · cases hn

theorem Turns.account (h : Turns trace w) : w.Account trace ∧ w.Served trace := by
  induction h with
  | refl => exact ⟨.empty, .empty⟩
  | tail _ ht ih => exact ⟨ih.1.turn ht, ih.2.turn ih.1 ht⟩

/-- Every event reaches every listener once. -/
structure EachOnce (trace : List Note) (w : Scene) : Prop where
  registered : w.store.registered = registeredIn trace
  distinct : ∀ before since, trace = before ++ since → (registeredIn before).Nodup
  /-- Raising an event begins a round, unless there is nobody to tell. -/
  raises : ∀ event aftermath, match w.store.registered with
    | [] => w.store.raise event aftermath = w.store.conclude aftermath
    | l :: waiting => w.store.raise event aftermath =
        (w.store.enter l, .suspended (.delivery ⟨event, l, waiting, aftermath⟩), [])
  /-- The round of an event takes its course among those who are registered when it is raised. -/
  raised : ∀ before id event since, trace = before ++ .raised id event :: since →
    Course w id event (registeredIn before) since
  /-- When it is over, everyone has been called in order and once, or has been removed. -/
  told : ∀ before id event during rest,
    trace = before ++ .raised id event :: (during ++ .ended id :: rest) → .ended id ∉ during →
      (Round.callees id during).Sublist (registeredIn before) ∧
        ∀ l ∈ registeredIn before, l ∈ Round.callees id during ∨ .removed l ∈ during
  /-- Nobody is called but in turn, and never after having been removed. -/
  called : ∀ before id l event since, trace = before ++ .called id l event :: since →
    InTurn before id l event
  /-- A failure is contained. -/
  failed : ∀ d failure, (w.store.resumeDelivery d failure).1 = (w.store.resumeDelivery d none).1 ∧
    (w.store.resumeDelivery d failure).2.1 = (w.store.resumeDelivery d none).2.1
  /-- The count of a listener is that of its calls that have not returned. -/
  active : ∀ l ∈ w.store.listeners, l.active = w.inProgress l.id ∧
    trace.countP (Note.calls l.id) = trace.countP (Note.leaves l.id) + l.active

/-- In every run, whatever is done while listeners are being called, every event reaches every
listener once. -/
theorem Turns.eachOnce (h : Turns trace w) : EachOnce trace w := by
  obtain ⟨ha, hs⟩ := h.account
  refine ⟨ha.roster.registered, ?_, ?_, hs.raised, ?_, hs.called, ?_, ?_⟩
  · intro before since ht
    subst ht
    exact ha.roster.nodup
  · intro event aftermath
    split
    case h_1 hr => exact w.store.raise_empty hr event aftermath
    case h_2 l waiting hr => exact w.store.raise_cons hr event aftermath
  · intro before id event during rest ht hover
    have hround : Round id event (registeredIn before) during [] := by
      cases hs.raised before id event _ ht with
      | underway d hd he hr => exact absurd (by simp) hr.not_ended
      | ended during' rest' heq hr =>
        exact eq_of_append_cons hover hr.not_ended heq ▸ hr
    refine ⟨?_, ?_⟩
    · have hsub := hround.sublist
      rwa [List.append_nil] at hsub
    · intro l hl
      rcases hround.complete hl with hc | hr | hw
      · exact .inl hc
      · exact .inr hr
      · cases hw
  · intro d failure
    exact w.store.resumeDelivery_failure d failure
  · intro l hl
    have hb := ha.busy l hl
    refine ⟨hb, ?_⟩
    rw [hb]
    exact ha.balance l.id

/-- The first listener removes the second and fails; a third is added meanwhile, and a document is
opened while the event of another is being told. -/
def nestedNotes : List Note :=
  [.added 1, .added 2, .raised 0 ⟨ascii "a", 1, .opened⟩, .called 0 1 ⟨ascii "a", 1, .opened⟩,
    .removed 2, .added 3, .raised 1 ⟨ascii "b", 1, .opened⟩, .called 1 1 ⟨ascii "b", 1, .opened⟩,
    .left 1 1 none, .called 1 3 ⟨ascii "b", 1, .opened⟩, .left 1 3 none, .ended 1,
    .left 0 1 (some (ascii "bad")), .ended 0]

theorem Turns.eachOnce_nestedNotes :
    ∃ w, Turns nestedNotes w ∧ w.store.listeners.map (·.active) = [0, 0, 0] ∧
      EachOnce nestedNotes w := by
  have h1 := Turns.refl.tail (.subscribe _)
  have h2 := h1.tail (.subscribe _)
  have h3 := h2.tail (.start _ (.openDocument (ascii "a") (ascii "vb") 1 (ascii "x")))
  have h4 := h3.tail (@Turn.answer _ 0 _ (.ok none) (.head _))
  have h5 := h4.tail (.unsubscribe _ 2 (some 1))
  have h6 := h5.tail (.subscribe _)
  have h7 := h6.tail (.start _ (.openDocument (ascii "b") (ascii "vb") 1 (ascii "y")))
  have h8 := h7.tail (@Turn.answer _ 1 _ (.ok none) (.tail _ (.head _)))
  have h9 := h8.tail (@Turn.hear _ 1 _ none (.tail _ (.head _)))
  have h10 := h9.tail (@Turn.hear _ 1 _ none (.tail _ (.head _)))
  have h11 := h10.tail (@Turn.hear _ 0 _ (some (ascii "bad")) (.head _))
  exact ⟨_, h11, rfl, Turns.eachOnce h11⟩

end Scene

end EditorSession.Document
