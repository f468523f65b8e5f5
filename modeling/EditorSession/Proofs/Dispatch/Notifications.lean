import EditorSession.Proofs.Dispatch.Bookkeeping
import EditorSession.Proofs.Dispatch.Over

/-! Notifications are handled in the order of their arrival, each of them once. The queue holds what
has arrived and was not handled yet. Requests, cancellations and stop requests leave it alone, and
the receive loop finishes only when it is empty. -/

namespace EditorSession.Dispatch

variable {H N : Type}

/-- The notification that a frame brings to a handler: an object without an id whose method is a
text, but not the one that asks for a cancellation. -/
def notification? (frame : Bytes) : Option Rpc.Notification :=
  match Json.parse frame with
  | .error _ => none
  | .ok v =>
    match v.member? (ascii "method"), v.member? (ascii "id") with
    | some (.text method), none =>
      if method = cancelMethod then none else some ⟨method, v.member? (ascii "params")⟩
    | _, _ => none

theorem notification?_eq_some_iff {frame : Bytes} {n : Rpc.Notification} :
    notification? frame = some n ↔
      ∃ v, Json.parse frame = .ok v ∧ Rpc.Notification.ofJson? v = some n ∧
        n.method ≠ cancelMethod := by
  obtain ⟨method, params⟩ := n
  unfold notification?
  cases Json.parse frame with
  | error e => simp
  | ok v =>
    simp only [Except.ok.injEq, exists_eq_left', Incoming.notification_ofJson?_eq_some_iff]
    split
    case h_1 m hm hi =>
      by_cases hc : m = cancelMethod
      · simp only [hc, hm, ↓reduceIte, reduceCtorEq, Option.some.injEq, Json.text.injEq, false_iff]
        rintro ⟨⟨rfl, -⟩, hn⟩
        exact hn rfl
      · simp only [hc, hm, hi, ↓reduceIte, Option.some.injEq, Rpc.Notification.mk.injEq,
          Json.text.injEq, true_and]
        constructor
        · rintro ⟨rfl, hp⟩
          exact ⟨⟨rfl, hp⟩, hc⟩
        · exact fun h => h.1
    case h_2 hn =>
      simp only [reduceCtorEq, false_iff]
      rintro ⟨⟨hm, hi, -⟩, -⟩
      exact hn method hm hi

namespace Incoming

theorem ofNotification_eq_notification_iff {m n : Rpc.Notification} :
    ofNotification m = .notification n ↔ m = n ∧ n.method ≠ cancelMethod := by
  unfold ofNotification
  split
  case isTrue hc =>
    simp only [reduceCtorEq, false_iff]
    rintro ⟨rfl, hn⟩
    exact hn hc
  case isFalse hc =>
    simp only [notification.injEq]
    constructor
    · rintro rfl
      exact ⟨rfl, hc⟩
    · exact fun h => h.1

theorem ofJson_eq_notification_iff {v : Json} {n : Rpc.Notification} :
    ofJson v = .notification n ↔
      Rpc.Notification.ofJson? v = some n ∧ n.method ≠ cancelMethod := by
  unfold ofJson
  cases hm : v.member? (ascii "method") with
  | none =>
    have hn : Rpc.Notification.ofJson? v ≠ some n := by
      simp [notification_ofJson?_eq_some_iff, hm]
    simp only [hn, false_and, iff_false]
    split <;> simp
  | some m =>
    cases hi : v.member? (ascii "id") with
    | some i =>
      have hn : Rpc.Notification.ofJson? v ≠ some n := by
        simp [notification_ofJson?_eq_some_iff, hi]
      simp only [hn, false_and, iff_false]
      split <;> simp
    | none =>
      cases Rpc.Notification.ofJson? v with
      | none => simp
      | some n' => simp [ofNotification_eq_notification_iff]

theorem ofFrame_eq_notification_iff {frame : Bytes} {n : Rpc.Notification} :
    ofFrame frame = .notification n ↔ notification? frame = some n := by
  rw [notification?_eq_some_iff]
  unfold ofFrame
  cases Json.parse frame with
  | error e => simp
  | ok v =>
    simp only [Except.ok.injEq, exists_eq_left']
    split
    case isTrue => exact ofJson_eq_notification_iff
    case isFalse ho =>
      simp only [reduceCtorEq, false_iff, notification_ofJson?_eq_some_iff]
      rintro ⟨⟨hm, -⟩, -⟩
      exact ho (isObject_of_member? hm)

end Incoming

/-! ### What the queue does -/

/-- What a run has to tell of its notifications. -/
inductive QueueEvent (N : Type) where
  /-- A frame was received while these handlers were registered. -/
  | arrived (frame : Bytes) (handlers : Table N)
  /-- A handler was called. -/
  | called (job : Job N)

namespace QueueEvent

/-- The call that a frame asks for, with the handler that is registered when it arrives. -/
def due? : QueueEvent N → Option (Job N)
  | arrived frame handlers => do
    let n ← notification? frame
    let handler ← Table.get? n.method handlers
    return ⟨handler, n⟩
  | called _ => none

def call? : QueueEvent N → Option (Job N)
  | arrived _ _ => none
  | called job => some job

/-- Whether the event is the arrival of anything but a request. -/
def isNoRequest : QueueEvent N → Bool
  | arrived frame _ => (requestId? frame).isNone
  | called _ => false

end QueueEvent

/-- The calls that were due, in the order of arrival. -/
def dueCalls (queue : List (QueueEvent N)) : List (Job N) := queue.filterMap QueueEvent.due?

/-- The calls that were made, in the order in which they were made. -/
def calls (queue : List (QueueEvent N)) : List (Job N) := queue.filterMap QueueEvent.call?

theorem dueCalls_append (queue more : List (QueueEvent N)) :
    dueCalls (queue ++ more) = dueCalls queue ++ dueCalls more :=
  List.filterMap_append

theorem calls_append (queue more : List (QueueEvent N)) :
    calls (queue ++ more) = calls queue ++ calls more :=
  List.filterMap_append

namespace Service

/-- The arrival that a move leaves on record. -/
def arrival? (s : Service H N) : Event → Option (QueueEvent N)
  | .received frame _ => some (.arrived frame s.dispatcher.notificationHandlers)
  | .drained => none
  | .concluded _ _ => none
  | .delivered _ _ => none

/-- The handler that is called from one state to the next: none was at work before. -/
def call? (s s' : Service H N) : Option (Job N) :=
  if s.dispatcher.current.isNone then s'.dispatcher.current else none

/-- What a move tells of the notifications. -/
def queueEvents (s : Service H N) (events : List Event) (s' : Service H N) : List (QueueEvent N) :=
  events.filterMap s.arrival? ++ ((s.call? s').map .called).toList

/-- A run with what it has to tell of the notifications. -/
inductive Watched : List (QueueEvent N) → Service H N → Prop where
  | fresh (channel session) : Watched [] { channel, session }
  | move {queue s events s'} : Watched queue s → Move s events s' →
      Watched (queue ++ s.queueEvents events s') s'
  | intervention {queue s s'} : Watched queue s → Intervention s s' → Watched queue s'

/-- Every run can be watched, and nothing else. -/
theorem exists_watched_iff {s : Service H N} :
    (∃ queue, Watched queue s) ↔ ∃ trace, Run trace s := by
  constructor
  · rintro ⟨queue, h⟩
    induction h with
    | fresh channel session => exact ⟨[], .fresh channel session⟩
    | move _ hm ih =>
      obtain ⟨trace, hr⟩ := ih
      exact ⟨_, hr.move hm⟩
    | intervention _ hi ih =>
      obtain ⟨trace, hr⟩ := ih
      exact ⟨trace, hr.intervention hi⟩
  · rintro ⟨trace, h⟩
    induction h with
    | fresh channel session => exact ⟨[], .fresh channel session⟩
    | move _ hm ih =>
      obtain ⟨queue, hw⟩ := ih
      exact ⟨_, hw.move hm⟩
    | intervention _ hi ih =>
      obtain ⟨queue, hw⟩ := ih
      exact ⟨queue, hw.intervention hi⟩

end Service

/-! ### The queue in a step -/

namespace Dispatcher

/-- The two dispatchers have the same notifications to handle. -/
structure SameJobs (d d' : Dispatcher H N) : Prop where
  current : d'.current = d.current
  jobs : d'.jobs = d.jobs

theorem refuse_sameJobs (d : Dispatcher H N) (id : Rpc.Id) (code : Int32) (message : Bytes)
    (n : Log.Notice) : d.SameJobs (d.refuse id code message n).1 := ⟨rfl, rfl⟩

theorem receiveRequest_sameJobs (d : Dispatcher H N) (r : Rpc.Request) :
    d.SameJobs (d.receiveRequest r).1 := by
  unfold receiveRequest
  split
  · exact ⟨rfl, rfl⟩
  · split
    · exact ⟨rfl, rfl⟩
    · split <;> exact ⟨rfl, rfl⟩

theorem cancel_sameJobs (d : Dispatcher H N) (id : Rpc.Id) : d.SameJobs (d.cancel id).1 := by
  unfold cancel
  split <;> exact ⟨rfl, rfl⟩

theorem conclude_sameJobs (d : Dispatcher H N) (id : WorkerId)
    (outcome : Except Rpc.Failure Json) : d.SameJobs (d.conclude id outcome).1 := by
  unfold conclude
  split <;> exact ⟨rfl, rfl⟩

theorem takeResponse_sameJobs (d : Dispatcher H N) (id : WorkerId) :
    d.SameJobs (d.takeResponse id).1 := by
  unfold takeResponse
  split <;> exact ⟨rfl, rfl⟩

/-- A message that is no notification for a handler leaves the queue alone. -/
theorem receive_sameJobs (d : Dispatcher H N) {m : Incoming} (h : ∀ n, m ≠ .notification n) :
    d.SameJobs (d.receive m).1 := by
  cases m with
  | malformed | notObject | unrecognized | response | namelessNotification => exact ⟨rfl, rfl⟩
  | invalidRequest id => exact d.refuse_sameJobs _ _ _ _
  | request r => exact d.receiveRequest_sameJobs r
  | cancel target =>
    cases target with
    | none => exact ⟨rfl, rfl⟩
    | some id => exact d.cancel_sameJobs id
  | notification n => exact absurd rfl (h n)

/-- A frame puts at the end of the queue what it asks for. -/
theorem receive_queues (d : Dispatcher H N) (frame : Bytes) :
    (d.receive (.ofFrame frame)).1.current = d.current ∧
      (d.receive (.ofFrame frame)).1.jobs =
        d.jobs ++ dueCalls [.arrived frame d.notificationHandlers] := by
  cases hn : notification? frame with
  | none =>
    have hm : ∀ n, Incoming.ofFrame frame ≠ .notification n := by
      intro n h
      rw [Incoming.ofFrame_eq_notification_iff, hn] at h
      cases h
    obtain ⟨hc, hj⟩ := d.receive_sameJobs hm
    exact ⟨hc, by simp [hj, dueCalls, QueueEvent.due?, hn]⟩
  | some n =>
    rw [Incoming.ofFrame_eq_notification_iff.mpr hn]
    cases hh : Table.get? n.method d.notificationHandlers with
    | none => simp [receive, receiveNotification, dueCalls, QueueEvent.due?, hn, hh]
    | some handler => simp [receive, receiveNotification, dueCalls, QueueEvent.due?, hn, hh]

end Dispatcher

namespace Service

variable {s s' : Service H N} {events : List Event} {queue : List (QueueEvent N)}

theorem call?_of_current (h : s'.dispatcher.current = s.dispatcher.current) : s.call? s' = none := by
  unfold call?
  split
  case isTrue hn => rw [h, Option.isNone_iff_eq_none.mp hn]
  case isFalse => rfl

/-- What is due joins the queue at its end, and what is called leaves it at its head. -/
def Balanced (s : Service H N) (queue : List (QueueEvent N)) (s' : Service H N) : Prop :=
  s.dispatcher.jobs ++ dueCalls queue = calls queue ++ s'.dispatcher.jobs

theorem balanced_of_sameJobs (h : s.dispatcher.SameJobs s'.dispatcher)
    (he : events.filterMap s.arrival? = []) : s.Balanced (s.queueEvents events s') s' := by
  simp [Balanced, queueEvents, he, call?_of_current h.current, dueCalls, calls, h.jobs]

theorem Move.balanced (h : Move s events s') : s.Balanced (s.queueEvents events s') s' := by
  cases h with
  | loop h =>
    obtain ⟨phase, he, rfl, -⟩ | ⟨readFlaw, he, rfl⟩ | ⟨channel, frame, -, he, rfl⟩ := next?_cases h
    · exact balanced_of_sameJobs ⟨rfl, rfl⟩ (by simp [he])
    · exact balanced_of_sameJobs ⟨rfl, rfl⟩ (by simp [he, arrival?])
    · obtain ⟨hc, hj⟩ := s.dispatcher.receive_queues frame
      have hn : s.call? ({ s with channel, phase := .polling }.receive frame).1 = none := by
        apply call?_of_current
        rw [receive_dispatcher]
        exact hc
      rw [Balanced, queueEvents, he, hn, receive_dispatcher, hj]
      simp [arrival?, calls, QueueEvent.call?]
  | @conclude id w outcome hw hr =>
    exact balanced_of_sameJobs (s.dispatcher.conclude_sameJobs id outcome) (by simp [arrival?])
  | @deliver id w response hw hr =>
    refine balanced_of_sameJobs ?_ (by simp [arrival?])
    rw [deliver_dispatcher]
    exact s.dispatcher.takeResponse_sameJobs id
  | takeJob =>
    have hd : s.takeJob.1.dispatcher = s.dispatcher.takeJob.1 := rfl
    rw [Balanced, queueEvents, call?, hd, Dispatcher.takeJob]
    cases hc : s.dispatcher.current with
    | some job => simp [dueCalls, calls]
    | none =>
      cases hj : s.dispatcher.jobs with
      | nil => simp [hc, hj, dueCalls, calls]
      | cons job rest => simp [dueCalls, calls, QueueEvent.due?, QueueEvent.call?]
  | finishJob failure =>
    have hd : (s.finishJob failure).1.dispatcher = (s.dispatcher.finishJob failure).1 := rfl
    rw [Balanced, queueEvents, call?, hd, Dispatcher.finishJob]
    cases hc : s.dispatcher.current <;> simp [hc, dueCalls, calls]

theorem Intervention.sameJobs (h : Intervention s s') : s.dispatcher.SameJobs s'.dispatcher := by
  cases h with
  | notify n =>
    unfold Service.notify
    split <;> exact ⟨rfl, rfl⟩
  | onRequest | onNotification | run | workerFlaw | outside => exact ⟨rfl, rfl⟩

/-- At every moment the calls made, and those in the queue, are the calls due. -/
theorem Watched.dueCalls_eq (h : Watched queue s) :
    dueCalls queue = calls queue ++ s.dispatcher.jobs := by
  induction h with
  | fresh => rfl
  | @move queue s events s' _ hm ih =>
    rw [dueCalls_append, calls_append, ih, List.append_assoc, List.append_assoc, hm.balanced]
  | intervention _ hi ih => rw [ih, hi.sameJobs.jobs]

/-- The loop finishes when no notification is left, and from then on none comes. -/
theorem Watched.at_rest (h : Watched queue s) (hp : s.phase = .finished) :
    s.dispatcher.current = none ∧ s.dispatcher.jobs = [] := by
  obtain ⟨trace, hr⟩ := exists_watched_iff.mp ⟨queue, h⟩
  exact ⟨(hr.isOver hp).current, (hr.isOver hp).jobs⟩

/-- A message that has arrived is received. -/
theorem next?_of_message {channel : Channel.Duplex} {frame : Bytes} (hp : s.phase = .reading)
    (hf : s.readFlaw = none) (hr : s.channel.read ownSide = (channel, .message frame)) :
    s.next? = some ({ s with channel, phase := .polling }.receive frame) := by
  simp [next?, hp, read?, hf, hr]

/-- A cancellation is acted on when it arrives, whatever notifications are waiting. -/
theorem Watched.cancel (h : Watched queue s) {channel : Channel.Duplex} {frame : Bytes} {id : Rpc.Id}
    (hp : s.phase = .reading) (hf : s.readFlaw = none)
    (hr : s.channel.read ownSide = (channel, .message frame)) (hc : Cancels frame id) :
    ∃ s' notices, s.next? = some (s', notices) ∧ s.dispatcher.SameJobs s'.dispatcher ∧
      ∀ w ∈ s.dispatcher.workers, w.response = none → w.request.id = id →
        { w with stopped := true } ∈ s'.dispatcher.workers := by
  obtain ⟨trace, hrun⟩ := exists_watched_iff.mp ⟨queue, h⟩
  have hn := next?_of_message hp hf hr
  have hd : ({ s with channel, phase := .polling }.receive frame).1.dispatcher =
      (s.dispatcher.cancel id).1 := by
    rw [receive_dispatcher, Incoming.ofFrame_eq_cancel_iff.mpr hc]
    rfl
  generalize ({ s with channel, phase := .polling } : Service H N).receive frame = step at hn hd
  refine ⟨step.1, step.2, hn, ?_, ?_⟩
  · rw [hd]
    exact s.dispatcher.cancel_sameJobs id
  · intro w hw hu hi
    rw [hd, hrun.sound.cancel_workers, List.mem_map]
    exact ⟨w, hw, by simp [Worker.stopIf, hu, hi]⟩

end Service

/-! ### What is due -/

theorem requestId?_of_notification? {frame : Bytes} {n : Rpc.Notification}
    (h : notification? frame = some n) : requestId? frame = none := by
  obtain ⟨v, hv, hn, -⟩ := notification?_eq_some_iff.mp h
  obtain ⟨hm, hi, -⟩ := Incoming.notification_ofJson?_eq_some_iff.mp hn
  simp [requestId?, hv, hm, hi]

namespace QueueEvent

theorem due?_arrived_eq_some_iff {frame : Bytes} {handlers : Table N} {job : Job N} :
    (arrived frame handlers).due? = some job ↔ notification? frame = some job.notification ∧
      Table.get? job.notification.method handlers = some job.handler := by
  simp only [due?, Option.pure_def, Option.bind_eq_bind, Option.bind_eq_some_iff, Option.some.injEq]
  constructor
  · rintro ⟨n, hn, handler, hh, rfl⟩
    exact ⟨hn, hh⟩
  · rintro ⟨hn, hh⟩
    exact ⟨_, hn, _, hh, rfl⟩

theorem due?_of_request {e : QueueEvent N} (h : e.isNoRequest = false) : e.due? = none := by
  cases e with
  | called job => rfl
  | arrived frame handlers =>
    rw [Option.eq_none_iff_forall_ne_some]
    intro job hj
    have hr := requestId?_of_notification? (due?_arrived_eq_some_iff.mp hj).1
    simp [isNoRequest, hr] at h

end QueueEvent

theorem method_ne_of_mem_dueCalls {queue : List (QueueEvent N)} {job : Job N}
    (h : job ∈ dueCalls queue) : job.notification.method ≠ cancelMethod := by
  obtain ⟨e, -, he⟩ := List.mem_filterMap.mp h
  cases e with
  | called other => cases he
  | arrived frame handlers =>
    obtain ⟨hn, -⟩ := QueueEvent.due?_arrived_eq_some_iff.mp he
    obtain ⟨v, -, -, hm⟩ := notification?_eq_some_iff.mp hn
    exact hm

/-- No call is due for a request. -/
theorem dueCalls_filter (queue : List (QueueEvent N)) :
    dueCalls (queue.filter QueueEvent.isNoRequest) = dueCalls queue := by
  rw [dueCalls, List.filterMap_filter]
  refine List.filterMap_congr ?_
  intro e _
  cases he : e.isNoRequest with
  | false => exact (QueueEvent.due?_of_request he).symm
  | true => rfl

/-! ### The account of a run -/

/-- The account of the notifications. The handlers are called in the order in which the frames have
arrived, and when the loop has finished all calls that were due have been made. A cancellation does
not wait for its turn, and no handler is called for it. Requests, and what becomes of them, make no
difference. -/
structure InOrder (queue : List (QueueEvent N)) (s : Service H N) : Prop where
  inTurn : calls queue <+: dueCalls queue
  finished : s.phase = .finished → calls queue = dueCalls queue ∧ s.dispatcher.current = none
  cancel : ∀ channel frame id, s.phase = .reading → s.readFlaw = none →
    s.channel.read Service.ownSide = (channel, .message frame) → Cancels frame id →
    ∃ s' notices, s.next? = some (s', notices) ∧ s.dispatcher.SameJobs s'.dispatcher ∧
      ∀ w ∈ s.dispatcher.workers, w.response = none → w.request.id = id →
        { w with stopped := true } ∈ s'.dispatcher.workers
  uncalled : ∀ job ∈ calls queue, job.notification.method ≠ cancelMethod
  requests : ∀ queue' (s' : Service H N), Service.Watched queue' s' →
    queue.filter QueueEvent.isNoRequest = queue'.filter QueueEvent.isNoRequest →
    (calls queue <+: calls queue' ∨ calls queue' <+: calls queue) ∧
      (s.phase = .finished → s'.phase = .finished → calls queue = calls queue')

theorem Service.Watched.calls_prefix {queue : List (QueueEvent N)} {s : Service H N}
    (h : Watched queue s) : calls queue <+: dueCalls queue :=
  h.dueCalls_eq ▸ List.prefix_append _ _

theorem Service.Watched.calls_eq {queue : List (QueueEvent N)} {s : Service H N}
    (h : Watched queue s) (hp : s.phase = .finished) : calls queue = dueCalls queue := by
  rw [h.dueCalls_eq, (h.at_rest hp).2, List.append_nil]

/-- Notifications are handled in order, in every run. -/
theorem Service.Watched.inOrder {queue : List (QueueEvent N)} {s : Service H N}
    (h : Watched queue s) : InOrder queue s where
  inTurn := h.calls_prefix
  finished := fun hp => ⟨h.calls_eq hp, (h.at_rest hp).1⟩
  cancel := fun _ _ _ hp hf hr hc => h.cancel hp hf hr hc
  uncalled := fun _ hj => method_ne_of_mem_dueCalls (h.calls_prefix.subset hj)
  requests := by
    intro queue' s' h' he
    have hd : dueCalls queue = dueCalls queue' := by
      rw [← dueCalls_filter queue, he, dueCalls_filter]
    refine ⟨List.prefix_or_prefix_of_prefix h.calls_prefix (hd ▸ h'.calls_prefix), ?_⟩
    intro hp hp'
    rw [h.calls_eq hp, h'.calls_eq hp', hd]

def noteFrame : Bytes := ascii "\x7b\"method\":\"m\"\x7d"

theorem ofFrame_noteFrame : Incoming.ofFrame noteFrame = .notification ⟨ascii "m", none⟩ := by
  have hv : Json.value 512 = Json.valueWith (some (Json.valueWith (some (Json.value 510)))) := rfl
  have hj : Json.parse noteFrame = .ok (.object [(ascii "method", .text (ascii "m"))]) := by
    rw [Json.parse, Json.maxDepth, hv, noteFrame]
    generalize Json.value 510 = v
    simp [ascii, Json.valueWith, Json.Cursor.skipSpace, Json.Cursor.advance, Json.Cursor.isSpace,
      List.takeWhile, Json.objectBody, Json.Cursor.accept?, Json.membersFrom, Json.string,
      Json.stringBody, bind, Except.bind, Table.set]
  rw [Incoming.ofFrame, hj]
  rfl

/-- A notification comes between a request and its cancellation. It is handled when both have been
received, and its handler fails. -/
theorem Service.Watched.inOrder_noteFrame :
    ∃ queue, ∃ s : Service Unit Unit, Watched queue s ∧ s.phase = .finished ∧
      calls queue = [⟨(), ⟨ascii "m", none⟩⟩] ∧ InOrder queue s := by
  let channel : Channel.Duplex :=
    { connected := fun _ => true
      inbox := fun _ => { messages := [requestFrame, noteFrame, cancelFrame] } }
  let d : Dispatcher Unit Unit :=
    { requestHandlers := [(ascii "m", ())], notificationHandlers := [(ascii "m", ())] }
  have h0 : Watched [] ({ channel } : Service Unit Unit) := .fresh channel Channel.sessionStem
  have h1 := (h0.intervention (.onRequest _ (ascii "m") ())).intervention
    (.onNotification _ (ascii "m") ())
  have h2 : Watched [] ({ dispatcher := d, channel, phase := .reading } : Service Unit Unit) :=
    (h1.intervention (.run rfl)).move (.loop rfl)
  have h3 := (h2.move (.receive rfl rfl rfl ofFrame_requestFrame rfl)).move (.loop rfl)
  have h4 := (h3.move (.receive rfl rfl rfl ofFrame_noteFrame rfl)).move (.loop rfl)
  have h5 := h4.move (.receive rfl rfl rfl ofFrame_cancelFrame rfl)
  have h6 := (h5.move (.takeJob _)).move (.finishJob _ (some (.crashed (ascii "note failed"))))
  have h7 := h6.move (@Service.Move.conclude _ _ _ 0 _ (.ok .null) rfl rfl)
  have h8 := h7.move (@Service.Move.deliver _ _ _ 0 _ _ rfl rfl)
  have h9 := (h8.intervention (.outside _ channel true none)).move (.loop rfl)
  have h10 := h9.move (.loop rfl)
  refine ⟨_, _, h10, ?_, ?_, ?_⟩
  · rfl
  · rfl
  · exact inOrder h10

end EditorSession.Dispatch
