import EditorSession.Proofs.Channel.Duplex

/-! Main statement: what one end of a pair has returned is the beginning of what the other end has
written, whatever calls are made at the two ends and whichever of them overlap. Once a close has
returned, both queues are closed for good: what was written before is still read to its end, and no
write succeeds any more, started again or not. -/

namespace EditorSession.Channel

/-- Both queues are closed. -/
def Duplex.Shut (d : Duplex) : Prop := ∀ side, (d.inbox side).closed = true

namespace Duplex

variable {d : Duplex} {side : Side} {payload : Bytes}

theorem closed_shut (d : Duplex) (side : Side) : ((d.shut side).inbox side).closed = true := by
  rw [shut, inbox_setInbox_self]

theorem closed_shut_of_closed {side' : Side} (h : (d.inbox side).closed = true) :
    ((d.shut side').inbox side).closed = true := by
  by_cases hs : side = side'
  · rw [hs]
    exact d.closed_shut side'
  · rw [shut, inbox_setInbox_of_ne _ _ hs]
    exact h

theorem shut_close (d : Duplex) (side : Side) : (d.close side).Shut := by
  intro side'
  rcases side'.eq_or_eq_other side with rfl | rfl
  · exact closed_shut_of_closed (closed_shut _ _)
  · exact closed_shut _ _

theorem messages_close (d : Duplex) (side reader : Side) :
    ((d.close side).inbox reader).messages = (d.inbox reader).messages := by
  rw [close, messages_shut, messages_shut]
  rfl

theorem Shut.restarted (h : d.Shut) (starts : List Side) : (starts.foldl start d).Shut := by
  induction starts generalizing d with
  | nil => exact h
  | cons side starts ih => exact ih (show (d.start side).Shut from h)

theorem Shut.put_ne_ok (h : d.Shut) {d' : Duplex} : d.put side payload ≠ .ok d' := fun hp =>
  Bool.noConfusion ((h side.other).symm.trans (put_ok_iff.mp hp).1)

theorem Shut.write_error (h : d.Shut) (side : Side) (payload : Bytes) :
    ∃ flaw, d.write side payload = .error flaw := by
  rw [write]
  split
  · cases hp : d.put side payload with
    | error flaw => exact ⟨flaw, rfl⟩
    | ok d' => exact absurd hp h.put_ne_ok
  · exact ⟨.notConnected, rfl⟩

end Duplex

namespace Scene

open Event

variable {s s' : Scene} {trace : List Event} {event : Event} {side : Side} {payload : Bytes}

/-! ### Closing -/

/-- No step opens a queue again. -/
theorem Step.stays_closed (h : Step s event s') (hc : (s.duplex.inbox side).closed = true) :
    (s'.duplex.inbox side).closed = true := by
  cases h with
  | @write before after writer payload duplex _ h =>
    obtain ⟨ho, rfl⟩ := Duplex.put_ok_iff.mp h
    have hs : side ≠ writer.other := by
      rintro rfl
      exact Bool.noConfusion (hc.symm.trans ho)
    rwa [Duplex.inbox_setInbox_of_ne _ _ hs]
  | @receive reader payload duplex h =>
    obtain ⟨rest, -, rfl⟩ := Duplex.exists_of_read h
    by_cases hs : side = reader
    · rw [hs] at hc
      rw [hs, Duplex.inbox_setInbox_self]
      exact hc
    · rwa [Duplex.inbox_setInbox_of_ne _ _ hs]
  | shut => exact Duplex.closed_shut_of_closed hc
  | close => exact Duplex.closed_shut_of_closed hc
  | start | enter | refuse | fail | miss | disconnect => exact hc

/-- A close that has only the other end's queue left to close has closed its own. -/
def Orderly (s : Scene) : Prop := ∀ side, .shutting side ∈ s.calls → (s.duplex.inbox side).closed = true

theorem Step.orderly (h : Step s event s') (hs : s.Orderly) : s'.Orderly := by
  intro side hc
  have hkeep : .shutting side ∈ s.calls → (s'.duplex.inbox side).closed = true :=
    fun hm => h.stays_closed (hs side hm)
  cases h with
  | start | refuse | receive | miss => exact hkeep hc
  | enter | disconnect => exact hkeep (by simpa using hc)
  | write _ _ hcalls | fail _ _ hcalls => exact hkeep (by rw [hcalls]; simpa using hc)
  | close _ _ hcalls =>
    refine hkeep ?_
    rw [hcalls]
    simp only [List.mem_append, List.mem_cons] at hc ⊢
    exact hc.imp_right .inr
  | @shut before after closer hcalls =>
    rcases List.mem_cons.mp hc with he | hc
    · obtain ⟨rfl⟩ := he
      exact Duplex.closed_shut _ side
    · exact hkeep (by rw [hcalls]; simpa using hc)

theorem Step.shut_of_closed (h : Step s (closed side) s') (hs : s.Orderly) : s'.duplex.Shut := by
  cases h with
  | close _ _ hcalls =>
    intro side'
    rcases side'.eq_or_eq_other side with rfl | rfl
    · exact Duplex.closed_shut_of_closed (hs _ (by simp [hcalls]))
    · exact Duplex.closed_shut _ _

theorem Steps.orderly (h : Steps s trace s') (hs : s.Orderly) : s'.Orderly := by
  induction h with
  | refl => exact hs
  | tail _ hm ih => exact hm.orderly ih

theorem Steps.shut (h : Steps s trace s') (hs : s.duplex.Shut) : s'.duplex.Shut := by
  induction h with
  | refl => exact hs
  | tail _ hm ih => exact fun side => hm.stays_closed (ih side)

theorem Steps.not_wrote (h : Steps s trace s') (hs : s.duplex.Shut) : wrote side payload ∉ trace := by
  induction h with
  | refl => exact List.not_mem_nil
  | tail h hm ih =>
    rw [List.mem_append, List.mem_singleton]
    rintro (hw | rfl)
    · exact ih hw
    · cases hm with
      | write _ _ _ hp => exact (h.shut hs).put_ne_ok hp

theorem sent_eq_nil (h : ∀ payload, wrote side payload ∉ trace) : sent side trace = [] := by
  refine List.filterMap_eq_nil_iff.mpr fun event he => ?_
  cases event with
  | wrote writer payload =>
    have hw : writer ≠ side := fun hw => h payload (hw ▸ he)
    simp [hw]
  | _ => rfl

theorem orderly_fresh : Orderly {} := fun _ h => nomatch h

/-- Once a close has returned, both queues are closed. -/
theorem Run.shut_of_closed {before after : List Event} (h : Run (before ++ closed side :: after) s) :
    ∃ m m', Run before m ∧ Step m (closed side) m' ∧ m'.duplex.Shut ∧ Steps m' after s := by
  obtain ⟨m, m', h₁, hm, h₂⟩ := Steps.split_cons h
  exact ⟨m, m', h₁, hm, hm.shut_of_closed (h₁.orderly orderly_fresh), h₂⟩

/-! ### Delivery -/

/-- What a side has returned and what waits for it is what the other side has written. -/
theorem Run.conserved (h : Run trace s) (side : Side) :
    returned side trace ++ (s.duplex.inbox side).messages = sent side.other trace :=
  (Steps.flow h side).symm

/-- A pair delivers in order, and what was written before a close even after it. -/
structure Delivers (trace : List Event) (s : Scene) : Prop where
  /-- A write that no other call comes between goes on with the run: it puts its message into the
  queue, or it is refused, at the first look or at the queue. -/
  write : ∀ side payload,
    (∃ duplex, s.duplex.write side payload = .ok duplex ∧
      Run (trace ++ [entered side payload, wrote side payload]) { s with duplex }) ∨
    ∃ flaw, s.duplex.write side payload = .error flaw ∧
      (Run (trace ++ [refused side payload flaw]) s ∨
        Run (trace ++ [entered side payload, refused side payload flaw]) s)
  /-- So does a close: it keeps the messages, and no write succeeds after it, started again or not. -/
  close : ∀ side,
    Run (trace ++ [disconnected side, Event.shut side, closed side])
        { s with duplex := s.duplex.close side } ∧
      (∀ reader, ((s.duplex.close side).inbox reader).messages =
        (s.duplex.inbox reader).messages) ∧
      ∀ (starts : List Side) writer payload, ∃ flaw,
        (starts.foldl Duplex.start (s.duplex.close side)).write writer payload = .error flaw
  /-- Nothing is lost, doubled or put before what was written earlier. -/
  inOrder : ∀ side, returned side trace <+: sent side.other trace
  /-- The next read returns the oldest message not returned yet, whether anything is closed or not. -/
  oldest : ∀ side payload rest, sent side.other trace = returned side trace ++ payload :: rest →
    (s.duplex.read side).2 = .message payload
  /-- A read comes back without a message only when everything written had been returned. -/
  nothingLeft : ∀ before side after, trace = before ++ missed side :: after →
    returned side before = sent side.other before
  /-- Of what was written before a close has returned, everything is returned after it: by the reads
  since then, and by the next ones, which come to the end of the queue only after the last message. -/
  afterClose : ∀ before closer after, trace = before ++ closed closer :: after → ∀ side, ∃ rest,
    sent side.other before = returned side before ++ returned side after ++ rest ∧
      s.duplex.reads side (rest.length + 1) = rest.map .message ++ [.ended]
  /-- A write that fails leaves both queues as they were. -/
  refused : ∀ side payload flaw s', Step s (Event.refused side payload flaw) s' → s'.duplex = s.duplex
  /-- After a close has returned no write puts anything into a queue. -/
  noWrite : ∀ before closer after, trace = before ++ closed closer :: after →
    ∀ side payload, wrote side payload ∉ after
  /-- Starting again does not help. -/
  noRestart : ∀ closer, closed closer ∈ trace → ∀ (starts : List Side) side payload,
    ∃ flaw, (starts.foldl Duplex.start s.duplex).write side payload = .error flaw

theorem Run.delivers (h : Run trace s) : Delivers trace s where
  write side payload := by
    cases hw : s.duplex.write side payload with
    | ok duplex => exact .inl ⟨duplex, rfl, Steps.write h hw⟩
    | error flaw => exact .inr ⟨flaw, rfl, Steps.refuse h hw⟩
  close side :=
    ⟨Steps.close h side, s.duplex.messages_close side, fun starts writer payload =>
      ((s.duplex.shut_close side).restarted starts).write_error writer payload⟩
  inOrder side := ⟨_, Run.conserved h side⟩
  oldest side payload rest hs := by
    have hm : (s.duplex.inbox side).messages = payload :: rest :=
      List.append_cancel_left ((Run.conserved h side).trans hs)
    rw [Duplex.read_of_cons hm]
  nothingLeft before side after ht := by
    subst ht
    obtain ⟨m, m', h₁, hm, -⟩ := Steps.split_cons h
    cases hm with
    | miss _ hr =>
      have hc := Run.conserved h₁ side
      rwa [Duplex.messages_eq_nil_of_read hr, List.append_nil] at hc
  afterClose before closer after ht side := by
    subst ht
    obtain ⟨m, m', h₁, hm, hs, h₂⟩ := Run.shut_of_closed h
    refine ⟨(s.duplex.inbox side).messages, ?_, Duplex.reads_of_closed (h₂.shut hs side) rfl⟩
    have hc := Run.conserved h side
    have hw : sent side.other after = [] := sent_eq_nil fun _ => h₂.not_wrote hs
    have hn : sent side.other [closed closer] = [] := rfl
    have hr : returned side [closed closer] = [] := rfl
    rw [← List.singleton_append, sent_append, sent_append, returned_append, returned_append, hw, hn,
      hr, List.nil_append, List.append_nil, List.append_nil] at hc
    exact hc.symm
  refused side payload flaw s' hm := by
    cases hm with
    | refuse | fail => rfl
  noWrite before closer after ht side payload := by
    subst ht
    obtain ⟨m, m', -, -, hs, h₂⟩ := Run.shut_of_closed h
    exact h₂.not_wrote hs
  noRestart closer hc starts side payload := by
    obtain ⟨before, after, rfl⟩ := List.append_of_mem hc
    obtain ⟨m, m', -, -, hs, h₂⟩ := Run.shut_of_closed h
    exact ((h₂.shut hs).restarted starts).write_error side payload

/-- The right end is closed while a write of the left one is under way, with a message still to read,
and then started again. -/
def closedByReader : List Event :=
  [started .left, started .right, entered .left [1], wrote .left [1], entered .left [2],
    disconnected .right, Event.shut .right, closed .right, refused .left [2] .peerClosed,
    started .right, received .right [1], missed .right]

theorem delivers_closedByReader :
    ∃ s, Run closedByReader s ∧ Delivers closedByReader s ∧
      sent .left closedByReader = [[1]] ∧ returned .right closedByReader = [[1]] := by
  have hs : Run _ _ := (Steps.refl.tail (.start .left)).tail (.start .right)
  have hw := hs.write (show Duplex.write _ .left [1] = .ok _ from rfl)
  have hc := (((hw.tail (.enter .left [2] rfl)).tail (.disconnect .right)).tail
    (.shut [] _ rfl)).tail (.close [] _ rfl)
  have hr := ((hc.tail (.fail [] _ rfl rfl)).tail (.start .right)).tail (.receive .right [1] rfl)
  have h : Run closedByReader _ := hr.tail (.miss .right nofun)
  exact ⟨_, h, Run.delivers h, rfl, rfl⟩

end Scene

end EditorSession.Channel
