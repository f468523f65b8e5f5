import EditorSession.Channel.Duplex

/-! The two ends of a pair deliver in order until one of them is closed. Any number of calls may be
under way at either end: a write first looks whether its end is connected and then appends to the
other end's queue, and a close disconnects its end, closes the queue that its end reads from and then
the other one. So a run takes these parts in any order, between the parts of all the other calls. -/

namespace EditorSession.Channel

namespace Side

@[simp] theorem other_other (side : Side) : side.other.other = side := by cases side <;> rfl

theorem other_ne (side : Side) : side.other ≠ side := by cases side <;> decide

theorem eq_or_eq_other (a b : Side) : a = b ∨ a = b.other := by
  cases a <;> cases b <;> decide

end Side

namespace Duplex

variable {d d' : Duplex} {side : Side} {payload : Bytes}

/-! ### One queue at a time -/

@[simp] theorem connected_setInbox (d : Duplex) (side : Side) (box : Mailbox) :
    (d.setInbox side box).connected = d.connected := rfl

@[simp] theorem inbox_setInbox_self (d : Duplex) (side : Side) (box : Mailbox) :
    (d.setInbox side box).inbox side = box := by simp [setInbox, atSide]

theorem inbox_setInbox_of_ne (d : Duplex) {side side' : Side} (box : Mailbox) (h : side' ≠ side) :
    (d.setInbox side box).inbox side' = d.inbox side' := by simp [setInbox, atSide, h]

@[simp] theorem setInbox_setInbox (d : Duplex) (side : Side) (box box' : Mailbox) :
    (d.setInbox side box).setInbox side box' = d.setInbox side box' := by
  refine congrArg (Duplex.mk _) (funext fun s => ?_)
  by_cases h : s = side <;> simp [setInbox, atSide, h]

theorem setInbox_comm (d : Duplex) {side side' : Side} (box box' : Mailbox) (h : side ≠ side') :
    (d.setInbox side box).setInbox side' box' = (d.setInbox side' box').setInbox side box := by
  refine congrArg (Duplex.mk _) (funext fun s => ?_)
  by_cases hs : s = side
  · simp [setInbox, atSide, hs, h]
  · simp [setInbox, atSide, hs]

@[simp] theorem setInbox_inbox (d : Duplex) (side : Side) : d.setInbox side (d.inbox side) = d := by
  refine congrArg (Duplex.mk _) (funext fun s => ?_)
  by_cases h : s = side <;> simp [atSide, h]

/-! ### The parts of the calls -/

@[simp] theorem messages_shut (d : Duplex) (side side' : Side) :
    ((d.shut side).inbox side').messages = (d.inbox side').messages := by
  by_cases h : side' = side
  · rw [h, shut, inbox_setInbox_self]
  · rw [shut, inbox_setInbox_of_ne _ _ h]

/-- A queue takes a message only when it is open. -/
theorem put_ok_iff :
    d.put side payload = .ok d' ↔ (d.inbox side.other).closed = false ∧
      d' = d.setInbox side.other ⟨(d.inbox side.other).messages ++ [payload], false⟩ := by
  unfold put
  cases h : (d.inbox side.other).closed <;> simp [h, eq_comm]

theorem write_ok_iff :
    d.write side payload = .ok d' ↔ d.connected side = true ∧ (d.inbox side.other).closed = false ∧
      d' = d.setInbox side.other ⟨(d.inbox side.other).messages ++ [payload], false⟩ := by
  rw [write, ← put_ok_iff]
  cases d.connected side <;> simp

/-- A write does not touch the queue that its side reads from, and does not look at it. -/
theorem write_setInbox (d : Duplex) (side : Side) (payload : Bytes) (box : Mailbox) :
    (d.setInbox side box).write side payload =
      (d.write side payload).map (·.setInbox side box) := by
  have hi := d.inbox_setInbox_of_ne box side.other_ne
  rw [write, write, connected_setInbox]
  split
  · rw [put, put, hi]
    split
    · rfl
    · exact congrArg Except.ok (d.setInbox_comm _ _ side.other_ne.symm)
  · rfl

theorem inbox_of_write (h : d.write side payload = .ok d') : d'.inbox side = d.inbox side := by
  obtain ⟨-, -, rfl⟩ := write_ok_iff.mp h
  exact inbox_setInbox_of_ne _ _ side.other_ne.symm

/-- A read returns the oldest message and takes it out of the queue. -/
theorem read_of_cons {rest : List Bytes} (h : (d.inbox side).messages = payload :: rest) :
    d.read side = (d.setInbox side ⟨rest, (d.inbox side).closed⟩, .message payload) := by
  simp only [read, h]

theorem read_of_nil (h : (d.inbox side).messages = []) :
    d.read side =
      (d, if (d.inbox side).closed ∨ ¬d.connected side then .ended else .waiting) := by
  simp only [read, h]

theorem exists_of_read (h : d.read side = (d', .message payload)) :
    ∃ rest, (d.inbox side).messages = payload :: rest ∧
      d' = d.setInbox side ⟨rest, (d.inbox side).closed⟩ := by
  cases hm : (d.inbox side).messages with
  | nil =>
    rw [read_of_nil hm] at h
    split at h <;> simp at h
  | cons p rest =>
    obtain ⟨rfl, ⟨⟩⟩ := Prod.mk.inj ((read_of_cons hm).symm.trans h)
    exact ⟨rest, rfl, rfl⟩

theorem messages_eq_nil_of_read (h : ∀ payload, (d.read side).2 ≠ .message payload) :
    (d.inbox side).messages = [] := by
  cases hm : (d.inbox side).messages with
  | nil => rfl
  | cons payload rest => exact absurd (congrArg Prod.snd (read_of_cons hm)) (h payload)

/-- What the next reads of a side return, when nothing else happens. -/
def reads (d : Duplex) (side : Side) : Nat → List Received
  | 0 => []
  | n + 1 => (d.read side).2 :: (d.read side).1.reads side n

/-- A closed queue is read to its end. -/
theorem reads_of_closed (hc : (d.inbox side).closed = true) {messages : List Bytes}
    (hm : (d.inbox side).messages = messages) :
    d.reads side (messages.length + 1) = messages.map .message ++ [.ended] := by
  induction messages generalizing d with
  | nil => simp [reads, read_of_nil hm, hc]
  | cons payload rest ih =>
    rw [List.length_cons, reads, read_of_cons hm, List.map_cons, List.cons_append]
    exact congrArg _ (ih (by simpa using hc) (by simp))

end Duplex

/-! ### Calls under way -/

/-- A call under way: a write that has found its end connected, a close that has disconnected its end,
and a close that has also closed the queue its end reads from. -/
inductive Call where
  | writing (side : Side) (payload : Bytes)
  | closing (side : Side)
  | shutting (side : Side)
deriving DecidableEq

/-- A pair with the calls under way at its ends. -/
structure Scene where
  duplex : Duplex := {}
  calls : List Call := []

/-- What happens at a side. -/
inductive Event where
  | started (side : Side)
  /-- A write has found its end connected. -/
  | entered (side : Side) (payload : Bytes)
  /-- A write has put its message into the queue, so that it succeeds. -/
  | wrote (side : Side) (payload : Bytes)
  | refused (side : Side) (payload : Bytes) (flaw : WriteFlaw)
  /-- A read has returned a message. -/
  | received (side : Side) (payload : Bytes)
  /-- A read has returned without a message: at the end of its queue, or as nothing arrived in time. -/
  | missed (side : Side)
  | disconnected (side : Side)
  /-- A close has closed the queue that its end reads from. -/
  | shut (side : Side)
  /-- A close has returned. -/
  | closed (side : Side)
deriving DecidableEq

namespace Scene

open Event

inductive Step (s : Scene) : Event → Scene → Prop where
  | start (side) : Step s (started side) { s with duplex := s.duplex.start side }
  | enter (side payload) (h : s.duplex.connected side = true) :
      Step s (entered side payload) { s with calls := .writing side payload :: s.calls }
  | refuse (side payload) (h : s.duplex.connected side = false) :
      Step s (refused side payload .notConnected) s
  | write (before after) {side payload duplex}
      (hc : s.calls = before ++ .writing side payload :: after)
      (h : s.duplex.put side payload = .ok duplex) :
      Step s (wrote side payload) ⟨duplex, before ++ after⟩
  | fail (before after) {side payload flaw}
      (hc : s.calls = before ++ .writing side payload :: after)
      (h : s.duplex.put side payload = .error flaw) :
      Step s (refused side payload flaw) { s with calls := before ++ after }
  | receive (side payload) {duplex} (h : s.duplex.read side = (duplex, .message payload)) :
      Step s (received side payload) { s with duplex }
  | miss (side) (h : ∀ payload, (s.duplex.read side).2 ≠ .message payload) : Step s (missed side) s
  | disconnect (side) :
      Step s (disconnected side) ⟨s.duplex.disconnect side, .closing side :: s.calls⟩
  | shut (before after) {side} (hc : s.calls = before ++ .closing side :: after) :
      Step s (Event.shut side) ⟨s.duplex.shut side, .shutting side :: (before ++ after)⟩
  | close (before after) {side} (hc : s.calls = before ++ .shutting side :: after) :
      Step s (closed side) ⟨s.duplex.shut side.other, before ++ after⟩

/-- Any number of steps, with what happens at them. -/
inductive Steps (s : Scene) : List Event → Scene → Prop where
  | refl : Steps s [] s
  | tail {trace s' event s''} : Steps s trace s' → Step s' event s'' →
      Steps s (trace ++ [event]) s''

/-- A run of a fresh pair. -/
abbrev Run (trace : List Event) (s : Scene) : Prop := Steps {} trace s

variable {s s' : Scene} {trace : List Event} {event : Event} {side : Side} {payload : Bytes}

/-! ### Calls that nothing comes between -/

theorem Steps.write {duplex : Duplex} (h : Steps s trace s')
    (hw : s'.duplex.write side payload = .ok duplex) :
    Steps s (trace ++ [entered side payload, wrote side payload]) { s' with duplex } := by
  rw [Duplex.write] at hw
  cases hc : s'.duplex.connected side with
  | false => simp [hc] at hw
  | true =>
    rw [hc] at hw
    simpa using (h.tail (.enter side payload hc)).tail (.write [] _ rfl hw)

/-- A write is refused at the first look, or when it comes to the queue. -/
theorem Steps.refuse {flaw : WriteFlaw} (h : Steps s trace s')
    (hw : s'.duplex.write side payload = .error flaw) :
    Steps s (trace ++ [refused side payload flaw]) s' ∨
      Steps s (trace ++ [entered side payload, refused side payload flaw]) s' := by
  rw [Duplex.write] at hw
  cases hc : s'.duplex.connected side with
  | false =>
    obtain rfl : .notConnected = flaw := by simpa [hc] using hw
    exact .inl (h.tail (.refuse side payload hc))
  | true =>
    rw [hc] at hw
    exact .inr (by simpa using (h.tail (.enter side payload hc)).tail (.fail [] _ rfl hw))

theorem Steps.close (h : Steps s trace s') (side : Side) :
    Steps s (trace ++ [disconnected side, Event.shut side, closed side])
      { s' with duplex := s'.duplex.close side } := by
  have hc := ((h.tail (.disconnect side)).tail (.shut [] _ rfl)).tail (.close [] _ rfl)
  simpa [Duplex.close] using hc

theorem Steps.split {earlier later : List Event} (h : Steps s (earlier ++ later) s') :
    ∃ m, Steps s earlier m ∧ Steps m later s' := by
  generalize ht : earlier ++ later = trace at h
  induction h generalizing later with
  | refl =>
    obtain ⟨rfl, rfl⟩ := List.append_eq_nil_iff.mp ht
    exact ⟨s, .refl, .refl⟩
  | @tail t u e v hs hm ih =>
    rcases later.eq_nil_or_concat with rfl | ⟨later, e', rfl⟩
    · rw [List.append_nil] at ht
      subst ht
      exact ⟨v, hs.tail hm, .refl⟩
    · rw [List.concat_eq_append, ← List.append_assoc] at ht
      obtain ⟨rfl, rfl⟩ := List.append_inj' ht rfl |>.imp_right List.singleton_inj.mp
      obtain ⟨m, h₁, h₂⟩ := ih rfl
      exact ⟨m, h₁, List.concat_eq_append ▸ h₂.tail hm⟩

theorem Steps.single (h : Steps s [event] s') : Step s event s' := by
  generalize ht : [event] = trace at h
  cases h with
  | refl => cases ht
  | @tail t u e v hs hm =>
    obtain ⟨rfl, rfl⟩ := List.append_inj' (show [] ++ [event] = t ++ [e] from ht) rfl
      |>.imp_right List.singleton_inj.mp
    generalize ht : [] = trace at hs
    cases hs with
    | refl => exact hm
    | tail => simp at ht

theorem Steps.split_cons {earlier later : List Event} (h : Steps s (earlier ++ event :: later) s') :
    ∃ m m', Steps s earlier m ∧ Step m event m' ∧ Steps m' later s' := by
  obtain ⟨m, h₁, h₂⟩ := h.split
  obtain ⟨m', h₃, h₄⟩ := Steps.split (show Steps m ([event] ++ later) s' from h₂)
  exact ⟨m, m', h₁, h₃.single, h₄⟩

/-! ### What is written and what is returned -/

/-- The messages that a side has written with success. -/
def sent (side : Side) (trace : List Event) : List Bytes :=
  trace.filterMap fun
    | wrote s payload => if s = side then some payload else none
    | _ => none

/-- The messages that the reads of a side have returned. -/
def returned (side : Side) (trace : List Event) : List Bytes :=
  trace.filterMap fun
    | received s payload => if s = side then some payload else none
    | _ => none

theorem sent_append (side : Side) (a b : List Event) :
    sent side (a ++ b) = sent side a ++ sent side b := List.filterMap_append

theorem returned_append (side : Side) (a b : List Event) :
    returned side (a ++ b) = returned side a ++ returned side b := List.filterMap_append

/-- A step moves the messages of a queue on: what it writes comes in behind, what it returns leaves in
front. -/
theorem Step.flow (h : Step s event s') (side : Side) :
    (s.duplex.inbox side).messages ++ sent side.other [event] =
      returned side [event] ++ (s'.duplex.inbox side).messages := by
  cases h with
  | @write before after writer payload duplex hc h =>
    obtain ⟨-, rfl⟩ := Duplex.put_ok_iff.mp h
    rcases side.eq_or_eq_other writer with rfl | rfl
    · simp [sent, returned, Duplex.inbox_setInbox_of_ne _ _ side.other_ne.symm, side.other_ne.symm]
    · simp [sent, returned]
  | @receive reader payload duplex h =>
    obtain ⟨rest, hm, rfl⟩ := Duplex.exists_of_read h
    by_cases hr : side = reader
    · subst hr
      simp [sent, returned, hm]
    · simp [sent, returned, Duplex.inbox_setInbox_of_ne _ _ hr, Ne.symm hr]
  | start | enter | refuse | fail | miss | disconnect | shut | close =>
    simp [sent, returned, Duplex.start, Duplex.disconnect]

theorem Steps.flow (h : Steps s trace s') (side : Side) :
    (s.duplex.inbox side).messages ++ sent side.other trace =
      returned side trace ++ (s'.duplex.inbox side).messages := by
  induction h with
  | refl => simp [sent, returned]
  | tail _ hm ih =>
    rw [sent_append, returned_append, ← List.append_assoc, ih, List.append_assoc, hm.flow side,
      List.append_assoc]

end Scene

end EditorSession.Channel
