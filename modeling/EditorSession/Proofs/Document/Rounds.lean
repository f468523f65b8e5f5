import EditorSession.Proofs.Document.Step
import EditorSession.Workspace

/-! Rounds of listeners. Raising an event gives a turn to every listener that is registered then, in
order of registration. A turn is passed over if the listener has been removed meanwhile; else the
listener is called. Operations go on, and listeners come and go, while a round is under way. -/

namespace EditorSession.Document

/-- What happens to listeners. An event for which nobody is registered is told to nobody, and is not
on record. -/
inductive Note where
  | added (listener : ListenerId)
  | removed (listener : ListenerId)
  /-- An operation raises an event. -/
  | raised (id : OperationId) (event : Event)
  /-- A listener is called on behalf of an operation. -/
  | called (id : OperationId) (listener : ListenerId) (event : Event)
  /-- A listener has returned, or failed. -/
  | left (id : OperationId) (listener : ListenerId) (failure : Option Bytes)
  /-- Every listener has had its turn. -/
  | ended (id : OperationId)
deriving DecidableEq

namespace Note

def added? : Note → Option ListenerId
  | added listener => some listener
  | removed _ => none
  | raised _ _ => none
  | called _ _ _ => none
  | left _ _ _ => none
  | ended _ => none

/-- The operation whose round begins, goes on to the next listener, or ends. -/
def round? : Note → Option OperationId
  | added _ => none
  | removed _ => none
  | raised id _ => some id
  | called id _ _ => some id
  | left _ _ _ => none
  | ended id => some id

/-- The listener is called. -/
def calls (listener : ListenerId) : Note → Bool
  | added _ => false
  | removed _ => false
  | raised _ _ => false
  | called _ l _ => l = listener
  | left _ _ _ => false
  | ended _ => false

/-- The listener has returned, or failed. -/
def leaves (listener : ListenerId) : Note → Bool
  | added _ => false
  | removed _ => false
  | raised _ _ => false
  | called _ _ _ => false
  | left _ l _ => l = listener
  | ended _ => false

end Note

/-- The listeners that have been added, and not removed, in order. -/
def registeredIn (trace : List Note) : List ListenerId :=
  (trace.filterMap Note.added?).filter fun l => .removed l ∉ trace

/-- The round of an operation: what has happened since the event was raised, and the listeners of the
audience whose turn is still to come. -/
inductive Round (id : OperationId) (event : Event) (audience : List ListenerId) :
    List Note → List ListenerId → Prop where
  | begun : Round id event audience [] audience
  | meanwhile {notes waiting note} (h : Round id event audience notes waiting)
      (hn : note.round? ≠ some id) : Round id event audience (notes ++ [note]) waiting
  | passed {notes l waiting} (h : Round id event audience notes (l :: waiting))
      (hr : .removed l ∈ notes) : Round id event audience notes waiting
  | called {notes l waiting} (h : Round id event audience notes (l :: waiting))
      (hr : .removed l ∉ notes) : Round id event audience (notes ++ [.called id l event]) waiting

namespace Round

variable {id : OperationId} {event : Event} {audience waiting : List ListenerId}
  {notes more : List Note}

/-- Others are none of its business. -/
theorem append (h : Round id event audience notes waiting)
    (hn : ∀ n ∈ more, n.round? ≠ some id) : Round id event audience (notes ++ more) waiting := by
  induction more generalizing notes with
  | nil => rwa [List.append_nil]
  | cons note more ih =>
    have hm := h.meanwhile (hn note List.mem_cons_self)
    have hr := ih hm fun n hmem => hn n (List.mem_cons_of_mem _ hmem)
    rwa [List.append_assoc] at hr

theorem skip {skipped : List ListenerId} (h : Round id event audience notes (skipped ++ waiting))
    (hs : ∀ l ∈ skipped, .removed l ∈ notes) : Round id event audience notes waiting := by
  induction skipped with
  | nil => exact h
  | cons l skipped ih =>
    apply ih (h.passed (hs l List.mem_cons_self))
    intro x hx
    exact hs x (List.mem_cons_of_mem _ hx)

theorem not_ended (h : Round id event audience notes waiting) : .ended id ∉ notes := by
  induction h with
  | begun => simp
  | @meanwhile notes waiting note _ hn ih =>
    intro hm
    rcases List.mem_append.mp hm with hm | hm
    · exact ih hm
    · rw [← List.mem_singleton.mp hm] at hn
      exact hn rfl
  | passed _ _ ih => exact ih
  | called _ _ ih => simpa using ih

/-- The listeners called in the round of an operation. -/
def callees (id : OperationId) (notes : List Note) : List ListenerId :=
  notes.filterMap fun
    | .called i l _ => if i = id then some l else none
    | _ => none

/-- Nobody is called out of order, or twice, and nobody who was not in the audience. -/
theorem sublist (h : Round id event audience notes waiting) :
    (callees id notes ++ waiting).Sublist audience := by
  induction h with
  | begun => exact List.Sublist.refl _
  | @meanwhile notes waiting note _ hn ih =>
    have hc : callees id [note] = [] := by
      cases note <;> simp_all [callees, Note.round?]
    rw [callees, List.filterMap_append] at *
    rw [show List.filterMap _ [note] = [] from hc, List.append_nil]
    exact ih
  | @passed notes l waiting _ _ ih =>
    exact ((List.sublist_cons_self l waiting).append_left _).trans ih
  | @called notes l waiting _ _ ih =>
    have hc : callees id [.called id l event] = [l] := by simp [callees]
    rw [callees, List.filterMap_append] at *
    rw [show List.filterMap _ [Note.called id l event] = [l] from hc, List.append_assoc]
    exact ih

/-- Nobody is left out who was not removed. -/
theorem complete (h : Round id event audience notes waiting) {l : ListenerId} (hl : l ∈ audience) :
    l ∈ callees id notes ∨ .removed l ∈ notes ∨ l ∈ waiting := by
  induction h with
  | begun => exact .inr (.inr hl)
  | @meanwhile notes waiting note _ hn ih =>
    rw [callees, List.filterMap_append]
    rcases ih with hc | hr | hw
    · exact .inl (List.mem_append_left _ hc)
    · exact .inr (.inl (List.mem_append_left _ hr))
    · exact .inr (.inr hw)
  | @passed notes x waiting _ hx ih =>
    rcases ih with hc | hr | hw
    · exact .inl hc
    · exact .inr (.inl hr)
    · rcases List.mem_cons.mp hw with rfl | hw
      · exact .inr (.inl hx)
      · exact .inr (.inr hw)
  | @called notes x waiting _ _ ih =>
    rw [callees, List.filterMap_append]
    rcases ih with hc | hr | hw
    · exact .inl (List.mem_append_left _ hc)
    · exact .inr (.inl (List.mem_append_left _ hr))
    · rcases List.mem_cons.mp hw with rfl | hw
      · exact .inl (List.mem_append_right _ (by simp))
      · exact .inr (.inr hw)

end Round

/-! ### Steps of the store -/

/-- The notes of a step that begins a round, if it does. -/
def Status.begins (id : OperationId) : Status → List Note
  | .suspended (.delivery d) => [.raised id d.event, .called id d.listener d.event]
  | .suspended (.lookup _) => []
  | .done _ => []

/-- The notes of a step that goes on with a round: the next listener is called, or the round is
over. -/
def Status.continues (id : OperationId) : Status → List Note
  | .suspended (.delivery d) => [.called id d.listener d.event]
  | .suspended (.lookup _) => [.ended id]
  | .done _ => [.ended id]

namespace Status

variable {id : OperationId} {status : Status}

/-- A step calls a listener, or it does not. -/
theorem quiet_or_calls (status : Status) :
    (∀ d, status ≠ .suspended (.delivery d)) ∨ ∃ d, status = .suspended (.delivery d) := by
  cases status with
  | done outcome => exact .inl (by simp)
  | suspended t =>
    cases t with
    | lookup lookup => exact .inl (by simp)
    | delivery d => exact .inr ⟨d, rfl⟩

theorem begins_of_quiet (h : ∀ d, status ≠ .suspended (.delivery d)) : status.begins id = [] := by
  cases status with
  | done outcome => rfl
  | suspended t =>
    cases t with
    | lookup lookup => rfl
    | delivery d => exact absurd rfl (h d)

theorem continues_of_quiet (h : ∀ d, status ≠ .suspended (.delivery d)) :
    status.continues id = [.ended id] := by
  cases status with
  | done outcome => rfl
  | suspended t =>
    cases t with
    | lookup lookup => rfl
    | delivery d => exact absurd rfl (h d)

end Status

namespace Store

/-- A listener is called. -/
def enter (s : Store) (id : ListenerId) : Store :=
  s.modifyListener id fun l => { l with active := l.active + 1 }

/-- A listener has returned. -/
def leave (s : Store) (id : ListenerId) : Store :=
  s.modifyListener id fun l => { l with active := l.active - 1 }

/-- A step that raises no event, or raises one for the listeners that are registered. -/
inductive Begins (s : Store) (step : Step) : Prop where
  | quiet (hl : step.1.listeners = s.listeners) (hd : ∀ d, step.2.1 ≠ .suspended (.delivery d))
  | raises (d) (hr : s.registered = d.listener :: d.waiting)
      (hl : step.1.listeners = (s.enter d.listener).listeners)
      (hd : step.2.1 = .suspended (.delivery d))

/-- A step that goes on with a round, to the next that still listens. -/
inductive Continues (s : Store) (d : Delivery) (step : Step) : Prop where
  | ended (hs : ∀ l ∈ d.waiting, s.listens l = false)
      (hl : step.1.listeners = s.listeners)
      (hd : ∀ d', step.2.1 ≠ .suspended (.delivery d'))
  | next (d' skipped) (he : d'.event = d.event) (hw : d.waiting = skipped ++ d'.listener :: d'.waiting)
      (hs : ∀ l ∈ skipped, s.listens l = false) (hx : s.listens d'.listener = true)
      (hl : step.1.listeners = (s.enter d'.listener).listeners)
      (hd : step.2.1 = .suspended (.delivery d'))

variable {s s' : Store} {step : Step}

theorem Begins.saying (h : s.Begins step) (notices : List Log.Notice) :
    s.Begins (Store.saying notices step) := by
  cases h with
  | quiet hl hd => exact .quiet hl hd
  | raises d hr hl hd => exact .raises d hr hl hd

/-- Only the documents of the store differ. -/
theorem Begins.of_listeners (hs : s'.listeners = s.listeners) (h : s'.Begins step) :
    s.Begins step := by
  cases h with
  | quiet hl hd => exact .quiet (hl.trans hs) hd
  | raises d hr hl hd =>
    refine .raises d ?_ ?_ hd
    · rw [registered, ← hs]
      exact hr
    · rw [hl]
      simp only [enter, modifyListener, hs]

theorem mem_registered_iff {l : ListenerId} : l ∈ s.registered ↔ s.listens l = true := by
  simp only [registered, listens, List.mem_map, List.mem_filter, List.any_eq_true,
    decide_eq_true_eq]
  constructor
  · intro h
    obtain ⟨x, ⟨hx, hr⟩, rfl⟩ := h
    exact ⟨x, hx, rfl, hr⟩
  · intro h
    obtain ⟨x, hx, rfl, hr⟩ := h
    exact ⟨x, ⟨hx, hr⟩, rfl⟩

theorem reassociate_quiet (s : Store) (ids : List EntryId) (count : Nat) :
    (s.reassociate ids count).1.listeners = s.listeners ∧
      ∀ d, (s.reassociate ids count).2.1 ≠ .suspended (.delivery d) := by
  induction ids with
  | nil => exact ⟨rfl, by simp [Store.reassociate]⟩
  | cons id ids ih =>
    rw [Store.reassociate]
    split
    case h_1 => exact ⟨rfl, by simp⟩
    case h_2 => exact ih

theorem conclude_quiet (s : Store) (aftermath : Aftermath) :
    (s.conclude aftermath).1.listeners = s.listeners ∧
      ∀ d, (s.conclude aftermath).2.1 ≠ .suspended (.delivery d) := by
  cases aftermath with
  | finish outcome => exact ⟨rfl, by simp [Store.conclude]⟩
  | reassociate rest count => exact s.reassociate_quiet rest count

/-- Those that do not listen any more are passed over. -/
theorem notify_continues (s : Store) (d : Delivery) :
    s.Continues d (s.notify d.event d.aftermath d.waiting) := by
  obtain ⟨event, listener, waiting, aftermath⟩ := d
  dsimp only
  induction waiting with
  | nil =>
    obtain ⟨hl, hd⟩ := s.conclude_quiet aftermath
    exact .ended (by simp) hl hd
  | cons l waiting ih =>
    rw [Store.notify]
    split
    case isTrue hx => exact .next ⟨event, l, waiting, aftermath⟩ [] rfl rfl (by simp) hx rfl rfl
    case isFalse hx =>
      rw [Bool.not_eq_true] at hx
      have hcons : ∀ ls : List ListenerId, (∀ x ∈ ls, s.listens x = false) →
          ∀ x ∈ l :: ls, s.listens x = false := by
        intro ls hls x hm
        rcases List.mem_cons.mp hm with rfl | hm
        · exact hx
        · exact hls x hm
      cases ih with
      | ended hs hl hd => exact .ended (hcons _ hs) hl hd
      | next d' skipped he hw hs hx' hl hd =>
        exact .next d' (l :: skipped) he (congrArg (l :: ·) hw) (hcons _ hs) hx' hl hd

theorem raise_empty (s : Store) (h : s.registered = []) (event : Event) (aftermath : Aftermath) :
    s.raise event aftermath = s.conclude aftermath := by
  rw [raise, h]
  rfl

theorem raise_cons (s : Store) {l : ListenerId} {waiting : List ListenerId}
    (h : s.registered = l :: waiting) (event : Event) (aftermath : Aftermath) :
    s.raise event aftermath =
      (s.enter l, .suspended (.delivery ⟨event, l, waiting, aftermath⟩), []) := by
  have hl : s.listens l = true := mem_registered_iff.mp (h ▸ List.mem_cons_self)
  rw [raise, h, Store.notify, if_pos hl]
  rfl

theorem raise_begins (s : Store) (event : Event) (aftermath : Aftermath) :
    s.Begins (s.raise event aftermath) := by
  cases hr : s.registered with
  | nil =>
    obtain ⟨hl, hd⟩ := s.conclude_quiet aftermath
    rw [s.raise_empty hr]
    exact .quiet hl hd
  | cons l waiting =>
    rw [s.raise_cons hr]
    exact .raises ⟨event, l, waiting, aftermath⟩ hr rfl rfl

theorem afterLookup_begins (s : Store) (id : EntryId) (stored : Bool) (errand : Errand) :
    s.Begins (s.afterLookup id stored errand) := by
  cases errand with
  | opening uri version size => exact (s.raise_begins _ _).saying _
  | raising event => exact s.raise_begins event _
  | reassociating rest count =>
    simp only [Store.afterLookup]
    split
    case h_1 => exact (s.raise_begins _ _).saying _
    case h_2 =>
      obtain ⟨hl, hd⟩ := s.reassociate_quiet rest count
      exact .quiet hl hd

theorem refresh_begins (s : Store) (id : EntryId) (resolves : Bool) (attempts : Nat)
    (errand : Errand) : s.Begins (s.refresh id resolves attempts errand) := by
  unfold Store.refresh
  split
  case h_1 => exact .quiet rfl (by simp)
  case h_2 => exact s.afterLookup_begins id false errand

theorem update_begins (s : Store) (id : EntryId) (before after : Entry) (event : Event) :
    s.Begins (s.update id before after event) := by
  have hl : (s.modifyEntry id fun _ => after).listeners = s.listeners := rfl
  unfold Store.update
  apply Begins.of_listeners hl
  split
  case isTrue => exact refresh_begins _ _ _ _ _
  case isFalse => exact raise_begins _ _ _

theorem start_begins (s : Store) (operation : Operation) : s.Begins (s.start operation) := by
  cases operation with
  | openDocument uri languageId version text =>
    have hl : (s.opened { uri, languageId, version, text }).listeners = s.listeners := by
      unfold Store.opened retire
      split <;> rfl
    exact ((refresh_begins _ _ _ _ _).of_listeners hl).saying _
  | changeDocument uri version changes =>
    rw [start, startChange]
    split
    case h_1 => exact .quiet rfl (by simp)
    case h_2 =>
      split
      case isTrue => exact .quiet rfl (by simp)
      case isFalse =>
        split
        case isTrue => exact .quiet rfl (by simp)
        case isFalse => exact s.update_begins _ _ _ _
  | closeDocument uri =>
    rw [start, startClose]
    split
    case h_1 => exact .quiet rfl (by simp)
    case h_2 id e hf =>
      have hl : (s.shut uri id).listeners = s.listeners := rfl
      exact ((raise_begins _ _ _).of_listeners hl).saying _
  | saveDocument uri text =>
    rw [start, startSave]
    split
    case h_1 => exact .quiet rfl (by simp)
    case h_2 =>
      split
      case isTrue => exact .quiet rfl (by simp)
      case isFalse => exact s.update_begins _ _ _ _
  | reassociateFirst first =>
    obtain ⟨hl, hd⟩ := s.reassociate_quiet (arrange first (s.table.map (·.2))) 0
    exact .quiet hl hd

theorem storeHandle_begins (s : Store) (l : Lookup) (handle : Analysis.Handle) :
    s.Begins (s.storeHandle l handle) := by
  unfold Store.storeHandle
  split
  case h_1 => exact s.afterLookup_begins _ _ _
  case h_2 =>
    split
    case isTrue => exact s.afterLookup_begins _ _ _
    case isFalse =>
      split
      case isTrue =>
        have hl : (s.withHandle l.entry handle).listeners = s.listeners := rfl
        exact (afterLookup_begins _ _ _ _).of_listeners hl
      case isFalse => exact (s.refresh_begins _ _ _ _).saying _

theorem resumeLookup_begins (s : Store) (l : Lookup) (answer : ModelAnswer) :
    s.Begins (s.resumeLookup l answer) := by
  unfold Store.resumeLookup
  split
  case h_1 => exact (s.afterLookup_begins _ _ _).saying _
  case h_2 handle =>
    split
    case h_1 => exact s.afterLookup_begins _ _ _
    case h_2 => exact .quiet rfl (by simp)
    case h_3 =>
      split
      case h_1 => exact (s.afterLookup_begins _ _ _).saying _
      case h_2 => exact s.storeHandle_begins _ _

/-- Whether a listener has failed makes no difference but to the log. -/
theorem resumeDelivery_failure (s : Store) (d : Delivery) (failure : Option Bytes) :
    (s.resumeDelivery d failure).1 = (s.resumeDelivery d none).1 ∧
      (s.resumeDelivery d failure).2.1 = (s.resumeDelivery d none).2.1 :=
  ⟨rfl, rfl⟩

theorem resumeDelivery_continues (s : Store) (d : Delivery) (failure : Option Bytes) :
    (s.leave d.listener).Continues d (s.resumeDelivery d failure) := by
  have h := (s.leave d.listener).notify_continues d
  cases h with
  | ended hs hl hd => exact .ended hs hl hd
  | next d' skipped he hw hs hx hl hd => exact .next d' skipped he hw hs hx hl hd

/-- Whoever is called next listens. -/
theorem Continues.listens {d d' : Delivery} (h : s.Continues d step)
    (hs : step.2.1 = .suspended (.delivery d')) : s.listens d'.listener = true := by
  cases h with
  | ended _ _ hd => exact absurd hs (hd d')
  | next d'' _ _ _ _ hx _ hd =>
    rw [hd, Status.suspended.injEq, Suspended.delivery.injEq] at hs
    exact hs ▸ hx

/-! ### How often listeners are being called -/

/-- Each listener is in as many invocations as `f` says. -/
def Busy (s : Store) (f : ListenerId → Nat) : Prop := ∀ l ∈ s.listeners, l.active = f l.id

theorem Busy.enter {f : ListenerId → Nat} (h : s.Busy f) (id : ListenerId) :
    (s.enter id).Busy fun l => f l + (decide (id = l)).toNat := by
  intro l hl
  obtain ⟨x, hx, rfl⟩ := List.mem_map.mp hl
  by_cases hi : x.id = id
  · simp [hi, h x hx]
  · simp [hi, Ne.symm hi, h x hx]

theorem Busy.leave {f : ListenerId → Nat} (h : s.Busy f) (id : ListenerId) :
    (s.leave id).Busy fun l => f l - (decide (id = l)).toNat := by
  intro l hl
  obtain ⟨x, hx, rfl⟩ := List.mem_map.mp hl
  by_cases hi : x.id = id
  · simp [hi, h x hx]
  · simp [hi, Ne.symm hi, h x hx]

theorem Busy.addListener {f : ListenerId → Nat} (h : s.Busy f) (hf : f s.addListener.2 = 0) :
    Busy s.addListener.1 f := by
  intro l hl
  rcases List.mem_append.mp hl with hl | hl
  · exact h l hl
  · rw [List.mem_singleton.mp hl]
    exact hf.symm

theorem Busy.removeListener {f : ListenerId → Nat} (h : s.Busy f) (id : ListenerId)
    (running : Option ListenerId) : Busy (s.removeListener id running).1 f := by
  unfold Store.removeListener
  split
  case isTrue =>
    intro l hl
    obtain ⟨x, hx, rfl⟩ := List.mem_map.mp hl
    split <;> exact h x hx
  case isFalse => exact h

/-! ### Who is registered -/

/-- The listeners, and whether they were removed. -/
def roll (s : Store) : List (ListenerId × Bool) := s.listeners.map fun l => (l.id, l.removed)

theorem roll_modifyListener {f : Listener → Listener}
    (hf : ∀ l, (f l).id = l.id ∧ (f l).removed = l.removed) (id : ListenerId) :
    (s.modifyListener id f).roll = s.roll := by
  rw [roll, roll, modifyListener, List.map_map]
  apply List.map_congr_left
  intro l _
  dsimp only [Function.comp_apply]
  split
  · rw [(hf l).1, (hf l).2]
  · rfl

theorem roll_enter (id : ListenerId) : (s.enter id).roll = s.roll := by
  apply roll_modifyListener
  intro l
  exact ⟨rfl, rfl⟩

theorem roll_leave (id : ListenerId) : (s.leave id).roll = s.roll := by
  apply roll_modifyListener
  intro l
  exact ⟨rfl, rfl⟩

theorem roll_of_listeners (h : s'.listeners = s.listeners) : s'.roll = s.roll := by
  rw [roll, roll, h]

theorem registered_eq (s : Store) : s.registered = (s.roll.filter fun r => ¬r.2).map (·.1) := by
  rw [registered, roll, List.filter_map, List.map_map]
  rfl

theorem Begins.roll (h : s.Begins step) : Store.roll step.1 = s.roll := by
  cases h with
  | quiet hl => exact roll_of_listeners hl
  | raises d _ hl => exact (roll_of_listeners hl).trans (roll_enter _)

theorem Continues.roll {d : Delivery} (h : s.Continues d step) : Store.roll step.1 = s.roll := by
  cases h with
  | ended _ hl => exact roll_of_listeners hl
  | next _ _ _ _ _ _ hl => exact (roll_of_listeners hl).trans (roll_enter _)

end Store

end EditorSession.Document
