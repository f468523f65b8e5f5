import EditorSession.Proofs.Channel.Duplex
import EditorSession.Proofs.Dispatch.Notifications

/-! The frames that wait for a service. Nothing but the receive loop looks at them, and the loop takes
them from the head of the queue; so all else that happens is the same with any other queue. -/

namespace EditorSession.Dispatch

variable {H N : Type}

/-- The frame that an event receives. -/
def Event.frame? : Event → Option Bytes
  | received frame _ => some frame
  | drained => none
  | concluded _ _ => none
  | delivered _ _ => none

namespace Service

open Channel (Duplex)

/-! ### The queue of a service -/

/-- The frames that have arrived and were not received yet. -/
def waiting (s : Service H N) : List Bytes := (s.channel.inbox ownSide).messages

/-- The service with these frames waiting for it, in this phase. -/
def withQueue (s : Service H N) (frames : List Bytes) (phase : Phase) : Service H N :=
  { s with
    phase
    channel := s.channel.setInbox ownSide { s.channel.inbox ownSide with messages := frames } }

variable {s s' : Service H N} {events : List Event} {frames : List Bytes} {phase : Phase}
  {notices : List Log.Notice}

@[simp] theorem withQueue_dispatcher : (s.withQueue frames phase).dispatcher = s.dispatcher := rfl

@[simp] theorem withQueue_phase : (s.withQueue frames phase).phase = phase := rfl

@[simp] theorem withQueue_readFlaw : (s.withQueue frames phase).readFlaw = s.readFlaw := rfl

@[simp] theorem withQueue_stopRequested :
    (s.withQueue frames phase).stopRequested = s.stopRequested := rfl

@[simp] theorem withQueue_waiting : (s.withQueue frames phase).waiting = frames := by
  simp [waiting, withQueue]

@[simp] theorem withQueue_withQueue (frames' : List Bytes) (phase' : Phase) :
    (s.withQueue frames phase).withQueue frames' phase' = s.withQueue frames' phase' := by
  simp [withQueue]

@[simp] theorem withQueue_self : s.withQueue s.waiting s.phase = s :=
  congrArg (fun channel => { s with channel }) (s.channel.setInbox_inbox ownSide)

/-- What is written does not depend on the queue. -/
theorem respond_withQueue (s : Service H N) (frames : List Bytes) (phase : Phase)
    (r : Rpc.Response) :
    (s.withQueue frames phase).respond r =
      ((s.respond r).1.withQueue frames phase, (s.respond r).2) := by
  simp only [respond, withQueue, Duplex.write_setInbox]
  cases hw : s.channel.write ownSide r.encode with
  | error flaw => rfl
  | ok channel => simp only [Except.map, Duplex.inbox_of_write hw]

theorem notify_withQueue (s : Service H N) (frames : List Bytes) (phase : Phase)
    (n : Rpc.Notification) :
    (s.withQueue frames phase).notify n =
      ((s.notify n).1.withQueue frames phase, (s.notify n).2) := by
  simp only [notify, withQueue, Duplex.write_setInbox]
  cases hw : s.channel.write ownSide n.encode with
  | error flaw => rfl
  | ok channel => simp only [Except.map, Duplex.inbox_of_write hw]

theorem deliver_withQueue (s : Service H N) (frames : List Bytes) (phase : Phase) (id : WorkerId) :
    (s.withQueue frames phase).deliver id =
      ((s.deliver id).1.withQueue frames phase, (s.deliver id).2) := by
  unfold deliver
  rw [withQueue_dispatcher]
  rcases s.dispatcher.takeResponse id with ⟨d, _ | r⟩
  · rfl
  · exact respond_withQueue { s with dispatcher := d } frames phase r

theorem receive_withQueue (s : Service H N) (frames : List Bytes) (phase : Phase) (frame : Bytes) :
    (s.withQueue frames phase).receive frame =
      ((s.receive frame).1.withQueue frames phase, (s.receive frame).2) := by
  unfold receive
  rw [withQueue_dispatcher]
  rcases s.dispatcher.receive (.ofFrame frame) with ⟨d, _ | r, notices⟩
  · rfl
  · have hr := respond_withQueue { s with dispatcher := d } frames phase r
    simp only [withQueue] at hr ⊢
    rw [hr]

/-- What is written leaves the queue alone. -/
theorem respond_waiting (s : Service H N) (r : Rpc.Response) : (s.respond r).1.waiting = s.waiting := by
  unfold respond
  split
  case h_1 channel hw => rw [waiting, Duplex.inbox_of_write hw, waiting]
  case h_2 => rfl

theorem receive_waiting (s : Service H N) (frame : Bytes) :
    (s.receive frame).1.waiting = s.waiting := by
  rw [receive_eq]
  split
  · rfl
  · exact respond_waiting _ _

theorem deliver_waiting (s : Service H N) (id : WorkerId) : (s.deliver id).1.waiting = s.waiting := by
  unfold deliver
  split
  · rfl
  · exact respond_waiting _ _

/-! ### The loop and the queue -/

/-- The loop that waits for a frame receives the first one. -/
theorem next?_of_waiting {frame : Bytes} {rest : List Bytes} (hp : s.phase = .reading)
    (hf : s.readFlaw = none) (hw : s.waiting = frame :: rest) :
    s.next? = some ((s.withQueue rest .polling).receive frame) :=
  next?_of_message hp hf (Duplex.read_of_cons hw)

theorem loopEvents_of_waiting {frame : Bytes} {rest : List Bytes} (hp : s.phase = .reading)
    (hf : s.readFlaw = none) (hw : s.waiting = frame :: rest) :
    s.loopEvents = [.received frame (s.dispatcher.fate (.ofFrame frame))] := by
  have hr := Duplex.read_of_cons hw
  simp only [loopEvents, hp, hf, hr]

/-- The loop that waits with no frame in the queue is left when the channel or a stop request ends it. -/
theorem next?_of_empty (hp : s.phase = .reading) (hf : s.readFlaw = none) (hw : s.waiting = []) :
    s.next? =
      if ((s.channel.inbox ownSide).closed ∨ ¬s.channel.connected ownSide) ∨ s.stopRequested then
        some (s.drain, [Notice.endOfStream s.session])
      else none := by
  simp only [next?, hp, read?, hf, Duplex.read_of_nil hw]
  by_cases hc : (s.channel.inbox ownSide).closed = true ∨ ¬s.channel.connected ownSide = true
  · have hd : ((s.channel.inbox ownSide).closed = true ∨ ¬s.channel.connected ownSide = true) ∨
        s.stopRequested = true := .inl hc
    rw [if_pos hc, if_pos hd]
  · rw [if_neg hc]
    simp only [hc, false_or]

theorem loopEvents_of_empty (hp : s.phase = .reading) (hw : s.waiting = []) :
    s.loopEvents = [.drained] := by
  simp only [loopEvents, hp, Duplex.read_of_nil hw]
  split
  case h_1 h => split at h <;> cases h
  case h_2 => rfl

/-- Every frame that is received comes from the head of the queue. -/
theorem Move.flow (h : Move s events s') : s.waiting = events.filterMap Event.frame? ++ s'.waiting := by
  cases h with
  | loop h =>
    obtain ⟨phase, he, rfl, -⟩ | ⟨readFlaw, he, rfl⟩ | ⟨channel, frame, hr, he, rfl⟩ := next?_cases h
    · rw [he]
      rfl
    · rw [he]
      rfl
    · obtain ⟨rest, hm, rfl⟩ := Duplex.exists_of_read hr
      rw [he, receive_waiting, waiting, hm]
      simp [Event.frame?, waiting]
  | deliver => exact (deliver_waiting _ _).symm
  | conclude | takeJob | finishJob => rfl

/-- The loop leaves the queue alone, unless it waits for a frame and there is one. -/
theorem next?_waiting (h : s.next? = some (s', notices)) :
    s'.waiting = s.waiting ∨
      s.phase = .reading ∧ s.readFlaw = none ∧ ∃ frame rest, s.waiting = frame :: rest := by
  obtain ⟨phase, -, rfl, -⟩ | ⟨readFlaw, -, rfl⟩ | ⟨channel, frame, hr, he, -⟩ := next?_cases h
  · exact .inl rfl
  · exact .inl rfl
  · obtain ⟨rest, hm, -⟩ := Duplex.exists_of_read hr
    cases hp : s.phase with
    | notRunning | draining | finished => simp [loopEvents, hp] at he
    | polling =>
      simp only [loopEvents, hp] at he
      split at he <;> cases he
    | reading =>
      cases hf : s.readFlaw with
      | some flaw => simp [loopEvents, hp, hf] at he
      | none => exact .inr ⟨rfl, rfl, frame, rest, hm⟩

/-- A move of the loop that takes no frame can be made with any other queue, as long as an empty queue
stays empty while the loop waits. -/
theorem next?_withQueue (h : s.next? = some (s', notices)) (hw : s'.waiting = s.waiting)
    (hq : s.phase = .reading → s.waiting = [] → frames = []) :
    (s.withQueue frames s.phase).next? = some (s'.withQueue frames s'.phase, notices) ∧
      (s.withQueue frames s.phase).loopEvents = s.loopEvents := by
  cases hp : s.phase with
  | notRunning | finished => simp [next?, hp] at h
  | polling =>
    simp only [next?, hp, Option.some.injEq, Prod.mk.injEq] at h
    obtain ⟨rfl, rfl⟩ := h
    cases hs : s.stopRequested <;> simp [next?, loopEvents, hp, hs] <;> rfl
  | draining =>
    simp only [next?, hp, Option.ite_none_right_eq_some, Option.some.injEq, Prod.mk.injEq] at h
    obtain ⟨hi, rfl, rfl⟩ := h
    simp [next?, loopEvents, hp, hi]
    rfl
  | reading =>
    cases hf : s.readFlaw with
    | some flaw =>
      simp only [next?, hp, read?, hf, Option.some.injEq, Prod.mk.injEq] at h
      obtain ⟨rfl, rfl⟩ := h
      simp [next?, read?, loopEvents, hp, hf]
      rfl
    | none =>
      cases hm : s.waiting with
      | cons frame rest =>
        have hs := congrArg Prod.fst (Option.some.inj (h.symm.trans (next?_of_waiting hp hf hm)))
        rw [show s' = _ from hs, receive_waiting, withQueue_waiting, hm] at hw
        simp at hw
      | nil =>
        obtain rfl := hq hp hm
        have hw' : (s.withQueue [] .reading).waiting = [] := withQueue_waiting
        have hf' : (s.withQueue [] .reading).readFlaw = none := hf
        refine ⟨?_, by rw [loopEvents_of_empty rfl hw', loopEvents_of_empty hp hm]⟩
        rw [next?_of_empty hp hf hm] at h
        rw [next?_of_empty rfl hf' hw']
        simp only [withQueue, Duplex.inbox_setInbox_self, Duplex.connected_setInbox]
        split at h
        case isTrue hc =>
          obtain ⟨rfl, rfl⟩ := Prod.mk.inj (Option.some.inj h)
          rw [if_pos hc]
          rfl
        case isFalse => cases h

/-! ### What happens beside the loop -/

@[simp] theorem call?_withQueue (frames' : List Bytes) (phase' : Phase) :
    (s.withQueue frames phase).call? (s'.withQueue frames' phase') = s.call? s' := rfl

/-- Besides the loop, handlers and the calls of notification handlers go on, whatever the queue and the
phase of the loop are. -/
theorem Move.loop_or_beside (h : Move s events s') :
    (∃ notices, s.next? = some (s', notices) ∧ events = s.loopEvents) ∨
      s'.phase = s.phase ∧ s'.waiting = s.waiting ∧
        ∀ frames phase, Move (s.withQueue frames phase) events (s'.withQueue frames phase) := by
  cases h with
  | loop h => exact .inl ⟨_, h, rfl⟩
  | conclude outcome hw hr => exact .inr ⟨rfl, rfl, fun _ _ => .conclude outcome hw hr⟩
  | @deliver id w response hw hr =>
    refine .inr ⟨s.deliver_phase id, s.deliver_waiting id, fun frames phase => ?_⟩
    have hm : Move (s.withQueue frames phase) _ _ := .deliver hw hr
    rwa [deliver_withQueue] at hm
  | takeJob => exact .inr ⟨rfl, rfl, fun _ _ => .takeJob _⟩
  | finishJob failure => exact .inr ⟨rfl, rfl, fun _ _ => .finishJob _ failure⟩

/-- All that is done to a service but starting its loop is done whatever the queue and the phase of the
loop are. -/
theorem Intervention.run_or_beside (h : Intervention s s') :
    (s.isRunning = false ∧ s' = s.run.1) ∨ s'.phase = s.phase ∧
      ∀ frames phase, Intervention (s.withQueue frames phase) (s'.withQueue frames phase) := by
  cases h with
  | run h => exact .inl ⟨h, rfl⟩
  | onRequest method handler => exact .inr ⟨rfl, fun _ _ => .onRequest _ method handler⟩
  | onNotification method handler => exact .inr ⟨rfl, fun _ _ => .onNotification _ method handler⟩
  | notify n =>
    refine .inr ⟨s.notify_phase n, fun frames phase => ?_⟩
    have hi := Intervention.notify (s.withQueue frames phase) n
    rwa [notify_withQueue] at hi
  | workerFlaw flaw => exact .inr ⟨rfl, fun _ _ => .workerFlaw _ flaw⟩
  | outside channel stopRequested readFlaw =>
    exact .inr ⟨rfl, fun _ _ => .outside _ _ stopRequested readFlaw⟩

end Service

end EditorSession.Dispatch
