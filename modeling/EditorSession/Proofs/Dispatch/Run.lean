import EditorSession.Dispatch.Service

/-! Runs of a service. Its own moves are those of the receive loop, of the workers and of the
notification queue, in any order; between them the outside may register handlers, start the loop,
send notifications, let the start of a worker fail, and do anything to the channel. Handlers are not looked into: they end at any
time and with any outcome. -/

namespace EditorSession.Dispatch

/-- What became of a frame when it was received. -/
inductive Fate where
  | ignored
  | answered (response : Rpc.Response)
  /-- A worker took the request over. -/
  | accepted (worker : WorkerId)

/-- What a run leaves on record. -/
inductive Event where
  | received (frame : Bytes) (fate : Fate)
  /-- The receive loop was left. -/
  | drained
  /-- The handler of a request has returned or failed. -/
  | concluded (worker : WorkerId) (outcome : Except Rpc.Failure Json)
  /-- The response of a worker was written. -/
  | delivered (worker : WorkerId) (response : Rpc.Response)

namespace Event

/-- The worker that an event concerns. -/
def worker? : Event → Option WorkerId
  | received _ (.accepted n) => some n
  | received _ _ => none
  | drained => none
  | concluded n _ => some n
  | delivered n _ => some n

/-- The responses written in an event. -/
def responses : Event → List Rpc.Response
  | received _ (.answered r) => [r]
  | received _ _ => []
  | drained => []
  | concluded _ _ => []
  | delivered _ r => [r]

end Event

variable {H N : Type}

/-- What a dispatcher makes of a message. -/
def Dispatcher.fate (d : Dispatcher H N) (m : Incoming) : Fate :=
  match d.receive m with
  | (_, some response, _) => .answered response
  | (after, none, _) => if d.accepted < after.accepted then .accepted d.accepted else .ignored

namespace Service

/-- What the next move of the receive loop leaves on record. -/
def loopEvents (s : Service H N) : List Event :=
  match s.phase with
  | .polling => if s.stopRequested then [.drained] else []
  | .reading =>
    match s.readFlaw, (s.channel.read ownSide).2 with
    | none, .message frame => [.received frame (s.dispatcher.fate (.ofFrame frame))]
    | _, _ => [.drained]
  | _ => []

/-- What the service does of its own accord. A handler ends once, and its response is written when
it has been decided. -/
inductive Move : Service H N → List Event → Service H N → Prop where
  | loop {s s' notices} (h : s.next? = some (s', notices)) : Move s s.loopEvents s'
  | conclude {s id w} (outcome) (hw : s.dispatcher.worker? id = some w) (hr : w.response = none) :
      Move s [.concluded id outcome] (s.conclude id outcome).1
  | deliver {s id w response} (hw : s.dispatcher.worker? id = some w)
      (hr : w.response = some response) : Move s [.delivered id response] (s.deliver id).1
  | takeJob (s) : Move s [] s.takeJob.1
  | finishJob (s failure) : Move s [] (s.finishJob failure).1

/-- What is done to the service. Nothing is assumed of the channel, of stop requests and of reads
that fail. -/
inductive Intervention : Service H N → Service H N → Prop where
  | onRequest (s method handler) :
      Intervention s { s with dispatcher := s.dispatcher.onRequest method handler }
  | onNotification (s method handler) :
      Intervention s { s with dispatcher := s.dispatcher.onNotification method handler }
  | run {s} (h : s.isRunning = false) : Intervention s s.run.1
  | notify (s n) : Intervention s (s.notify n).1
  /-- The start of the next worker will fail, or will not. -/
  | workerFlaw (s) (workerFlaw) : Intervention s { s with dispatcher := { s.dispatcher with workerFlaw } }
  | outside (s channel stopRequested readFlaw) :
      Intervention s { s with channel, stopRequested, readFlaw }

/-- A run with its record, from a service without handlers whose loop has not been started. -/
inductive Run : List Event → Service H N → Prop where
  | fresh (channel session) : Run [] { channel, session }
  | move {trace s events s'} : Run trace s → Move s events s' → Run (trace ++ events) s'
  | intervention {trace s s'} : Run trace s → Intervention s s' → Run trace s'

end Service

/-! ### What a frame is -/

/-- The id that the response to a frame carries, if the frame asks for one: it is an object with a
method and an id. An id that is neither a text, an integer nor null counts as null. -/
def requestId? (frame : Bytes) : Option Rpc.Id :=
  match Json.parse frame with
  | .error _ => none
  | .ok v =>
    match v.member? (ascii "method"), v.member? (ascii "id") with
    | some _, some id => some ((Rpc.Id.ofJson? id).getD .null)
    | _, _ => none

/-- A frame that asks to cancel the request with the given id: a notification of the method for it
whose params name a usable id. -/
def Cancels (frame : Bytes) (id : Rpc.Id) : Prop :=
  ∃ v params target, Json.parse frame = .ok v ∧
    v.member? (ascii "method") = some (.text cancelMethod) ∧ v.member? (ascii "id") = none ∧
    v.member? (ascii "params") = some params ∧ params.member? (ascii "id") = some target ∧
    Rpc.Id.ofJson? target = some id

namespace Incoming

/-- The id that the response to a message carries, if it asks for one. -/
def requestId? : Incoming → Option Rpc.Id
  | invalidRequest id => some id
  | request r => some r.id
  | _ => none

theorem isObject_of_member? {v value : Json} {key : Bytes} (h : v.member? key = some value) :
    v.isObject = true := by
  cases v <;> simp_all [Json.member?, Json.isObject, Json.kind]

theorem requestId?_ofNotification (n : Rpc.Notification) : (ofNotification n).requestId? = none := by
  unfold ofNotification
  split <;> rfl

theorem requestId?_ofFrame (frame : Bytes) :
    (ofFrame frame).requestId? = Dispatch.requestId? frame := by
  unfold ofFrame Dispatch.requestId?
  cases Json.parse frame with
  | error e => rfl
  | ok v =>
    cases hm : v.member? (ascii "method") with
    | none =>
      by_cases ho : v.isObject = true
      · simp only [ho, ↓reduceIte, ofJson, hm]
        split <;> rfl
      · simp [ho, hm, requestId?]
    | some m =>
      simp only [isObject_of_member? hm, ↓reduceIte, ofJson, hm]
      cases hi : v.member? (ascii "id") with
      | none =>
        cases Rpc.Notification.ofJson? v with
        | none => rfl
        | some n => exact requestId?_ofNotification n
      | some i =>
        cases hr : Rpc.Request.ofJson? v with
        | none => rfl
        | some r =>
          simp only [Rpc.Request.ofJson?, hi, Option.pure_def, Option.bind_eq_bind,
            Option.bind_eq_some_iff, Option.some.injEq] at hr
          obtain ⟨_, _, _, rfl, id, hid, rfl⟩ := hr
          simp [requestId?, hid]

theorem ofNotification_eq_cancel_iff {n : Rpc.Notification} {id : Rpc.Id} :
    ofNotification n = .cancel (some id) ↔
      n.method = cancelMethod ∧ ∃ params target, n.params = some params ∧
        params.member? (ascii "id") = some target ∧ Rpc.Id.ofJson? target = some id := by
  unfold ofNotification
  by_cases hm : n.method = cancelMethod
  · simp only [hm, ↓reduceIte, cancel.injEq, cancelledId?, Option.bind_eq_some_iff, true_and]
    constructor
    · rintro ⟨target, ⟨params, hp, ht⟩, hid⟩
      exact ⟨params, target, hp, ht, hid⟩
    · rintro ⟨params, target, hp, ht, hid⟩
      exact ⟨target, ⟨params, hp, ht⟩, hid⟩
  · simp [hm]

theorem textMember?_eq_some_iff {v : Json} {key s : Bytes} :
    v.textMember? key = some s ↔ v.member? key = some (.text s) := by
  unfold Json.textMember?
  split <;> simp_all

theorem notification_ofJson?_eq_some_iff {v : Json} {n : Rpc.Notification} :
    Rpc.Notification.ofJson? v = some n ↔
      v.member? (ascii "method") = some (.text n.method) ∧ v.member? (ascii "id") = none ∧
        v.member? (ascii "params") = n.params := by
  obtain ⟨method, params⟩ := n
  rw [← textMember?_eq_some_iff]
  cases hm : v.textMember? (ascii "method") with
  | none => simp [Rpc.Notification.ofJson?, hm]
  | some m =>
    cases hi : v.member? (ascii "id") with
    | none => simp [Rpc.Notification.ofJson?, hm, hi]
    | some i => simp [Rpc.Notification.ofJson?, hm, hi]

theorem ofJson_eq_cancel_iff {v : Json} {id : Rpc.Id} :
    ofJson v = .cancel (some id) ↔
      ∃ n, Rpc.Notification.ofJson? v = some n ∧ ofNotification n = .cancel (some id) := by
  unfold ofJson
  cases hm : v.member? (ascii "method") with
  | none =>
    have hn : ∀ n, Rpc.Notification.ofJson? v ≠ some n := by
      intro n h
      simp [notification_ofJson?_eq_some_iff, hm] at h
    simp only [hn, false_and, exists_false, iff_false]
    split <;> simp
  | some m =>
    cases hi : v.member? (ascii "id") with
    | none => cases Rpc.Notification.ofJson? v <;> simp
    | some i =>
      have hn : ∀ n, Rpc.Notification.ofJson? v ≠ some n := by
        intro n h
        simp [notification_ofJson?_eq_some_iff, hi] at h
      simp only [hn, false_and, exists_false, iff_false]
      split <;> simp

theorem ofFrame_eq_cancel_iff {frame : Bytes} {id : Rpc.Id} :
    ofFrame frame = .cancel (some id) ↔ Cancels frame id := by
  unfold ofFrame Cancels
  cases Json.parse frame with
  | error e => simp
  | ok v =>
    by_cases ho : v.isObject = true
    · simp only [ho, ↓reduceIte, ofJson_eq_cancel_iff, notification_ofJson?_eq_some_iff,
        ofNotification_eq_cancel_iff]
      constructor
      · rintro ⟨n, ⟨hm, hi, hp⟩, hc, params, target, hn, ht, hid⟩
        exact ⟨v, params, target, rfl, hc ▸ hm, hi, hn ▸ hp, ht, hid⟩
      · rintro ⟨_, params, target, ⟨⟩, hm, hi, hp, ht, hid⟩
        exact ⟨⟨cancelMethod, some params⟩, ⟨hm, hi, hp⟩, rfl, params, target, rfl, ht, hid⟩
    · have hm : ∀ value, v.member? (ascii "method") ≠ some value :=
        fun value h => ho (isObject_of_member? h)
      simp [ho, hm]

end Incoming

/-! ### What a message does -/

namespace Dispatcher

/-- What can become of a message: it is none of the requests' concern, it is answered at once, a
worker takes it over, no worker can be started for it, or it asks a pending request to stop. -/
inductive Reception (d : Dispatcher H N) : Incoming → Fate → Dispatcher H N → Prop where
  | aside {m d'} (hr : ∀ r, m ≠ .request r) (hi : ∀ id, m ≠ .invalidRequest id)
      (hc : ∀ id, m ≠ .cancel (some id)) (hp : d'.pending = d.pending)
      (hw : d'.workers = d.workers) (ha : d'.accepted = d.accepted) : Reception d m .ignored d'
  | invalid (id) :
      Reception d (.invalidRequest id)
        (.answered (.ofError id ⟨Rpc.Code.invalidRequest, ascii "Invalid request", none⟩)) d
  | unknown {r} (h : Table.get? r.method d.requestHandlers = none) :
      Reception d (.request r)
        (.answered (.ofError r.id
          ⟨Rpc.Code.methodNotFound, ascii "Method not found: " ++ r.method, none⟩)) d
  | duplicate {r} (h : Table.contains r.id.key d.pending = true) :
      Reception d (.request r)
        (.answered (.ofError r.id ⟨Rpc.Code.invalidRequest, ascii "Duplicate request id", none⟩)) d
  | accepted {r} (handler) (h : Table.contains r.id.key d.pending = false) :
      Reception d (.request r) (.accepted d.accepted) (d.enter r handler)
  | unstarted {r} (handler reason) (h : Table.contains r.id.key d.pending = false) :
      Reception d (.request r)
        (.answered (.ofError r.id ⟨Rpc.Code.internalError, Bytes.beforeNul reason, none⟩))
        ((d.enter r handler).withdraw r d.accepted)
  | cancel (id) : Reception d (.cancel (some id)) .ignored (d.cancel id).1

theorem cancel_response (d : Dispatcher H N) (id : Rpc.Id) : (d.cancel id).2.1 = none := by
  unfold cancel
  split <;> rfl

theorem cancel_accepted (d : Dispatcher H N) (id : Rpc.Id) : (d.cancel id).1.accepted = d.accepted := by
  unfold cancel
  split <;> rfl

section

variable {d : Dispatcher H N} {r : Rpc.Request} {handler : H}

theorem receive_unknown (hm : Table.get? r.method d.requestHandlers = none) :
    d.receive (.request r) =
      d.refuse r.id Rpc.Code.methodNotFound (ascii "Method not found: " ++ r.method)
        (Notice.methodNotFound r.method) := by
  simp [receive, receiveRequest, hm]

theorem receive_pending (hm : Table.get? r.method d.requestHandlers = some handler)
    (hc : Table.contains r.id.key d.pending = true) :
    d.receive (.request r) =
      d.refuse r.id Rpc.Code.invalidRequest (ascii "Duplicate request id")
        (Notice.duplicateId r.id) := by
  simp [receive, receiveRequest, hm, hc]

theorem receive_started (hm : Table.get? r.method d.requestHandlers = some handler)
    (hc : Table.contains r.id.key d.pending = false) (hs : d.workerFlaw = none) :
    d.receive (.request r) = (d.enter r handler, none, [Notice.dispatching r]) := by
  simp [receive, receiveRequest, hm, hc, hs]

theorem receive_unstarted {reason : Bytes}
    (hm : Table.get? r.method d.requestHandlers = some handler)
    (hc : Table.contains r.id.key d.pending = false) (hs : d.workerFlaw = some reason) :
    d.receive (.request r) =
      ((d.enter r handler).withdraw r d.accepted,
        some (.ofError r.id ⟨Rpc.Code.internalError, Bytes.beforeNul reason, none⟩),
        [Notice.dispatching r, Notice.startFailed reason]) := by
  simp [receive, receiveRequest, hm, hc, hs]

end

theorem request_reception (d : Dispatcher H N) (r : Rpc.Request) :
    Reception d (.request r) (d.fate (.request r)) (d.receive (.request r)).1 := by
  cases hm : Table.get? r.method d.requestHandlers with
  | none => simpa [fate, receive_unknown hm, refuse] using Reception.unknown hm
  | some handler =>
    cases hc : Table.contains r.id.key d.pending with
    | true => simpa [fate, receive_pending hm hc, refuse] using Reception.duplicate hc
    | false =>
      cases hs : d.workerFlaw with
      | none =>
        have hlt : d.accepted < (d.enter r handler).accepted := Nat.lt_succ_self _
        simpa [fate, receive_started hm hc hs, hlt] using Reception.accepted handler hc
      | some reason =>
        simpa [fate, receive_unstarted hm hc hs] using Reception.unstarted handler reason hc

theorem receive_reception (d : Dispatcher H N) (m : Incoming) :
    Reception d m (d.fate m) (d.receive m).1 := by
  have aside : ∀ {d' notices}, d.receive m = (d', none, notices) → d'.accepted = d.accepted →
      d.fate m = .ignored := by
    intro d' notices h ha
    simp [fate, h, ha]
  cases m with
  | malformed | notObject | unrecognized | response | namelessNotification =>
    rw [aside rfl rfl]
    exact .aside (by simp) (by simp) (by simp) rfl rfl rfl
  | invalidRequest id => exact .invalid id
  | request r => exact d.request_reception r
  | cancel target =>
    cases target with
    | none =>
      rw [aside rfl rfl]
      exact .aside (by simp) (by simp) (by simp) rfl rfl rfl
    | some id =>
      have h : d.receive (.cancel (some id)) = ((d.cancel id).1, none, (d.cancel id).2.2) := by
        rw [← d.cancel_response id]
        rfl
      rw [aside h (d.cancel_accepted id)]
      exact .cancel id
  | notification n =>
    cases hn : Table.get? n.method d.notificationHandlers with
    | none =>
      have h : d.receive (.notification n) = (d, none, [Notice.noHandler n.method]) := by
        simp [receive, receiveNotification, hn]
      rw [aside h rfl, h]
      exact .aside (by simp) (by simp) (by simp) rfl rfl rfl
    | some handler =>
      have h : d.receive (.notification n) =
          ({ d with jobs := d.jobs ++ [⟨handler, n⟩] }, none, []) := by
        simp [receive, receiveNotification, hn]
      rw [aside h rfl, h]
      exact .aside (by simp) (by simp) (by simp) rfl rfl rfl

/-- What a move of the service does to the requests of its dispatcher. -/
inductive Change : Dispatcher H N → List Event → Dispatcher H N → Prop where
  | aside {d d'} (hp : d'.pending = d.pending) (hw : d'.workers = d.workers)
      (ha : d'.accepted = d.accepted) : Change d [] d'
  | received (d frame) :
      Change d [.received frame (d.fate (.ofFrame frame))] (d.receive (.ofFrame frame)).1
  | drained (d) : Change d [.drained] d.stopPending
  | concluded {d id w} (outcome) (hw : d.worker? id = some w) (hr : w.response = none) :
      Change d [.concluded id outcome] (d.conclude id outcome).1
  | delivered {d id w response} (hw : d.worker? id = some w) (hr : w.response = some response) :
      Change d [.delivered id response] (d.takeResponse id).1

/-- The notification queue does not concern the requests. -/
theorem takeJob_keeps (d : Dispatcher H N) :
    d.takeJob.1.pending = d.pending ∧ d.takeJob.1.workers = d.workers ∧
      d.takeJob.1.accepted = d.accepted := by
  unfold takeJob
  split <;> exact ⟨rfl, rfl, rfl⟩

theorem finishJob_keeps (d : Dispatcher H N) (failure : Option Rpc.Failure) :
    (d.finishJob failure).1.pending = d.pending ∧ (d.finishJob failure).1.workers = d.workers ∧
      (d.finishJob failure).1.accepted = d.accepted := by
  unfold finishJob
  split <;> exact ⟨rfl, rfl, rfl⟩

theorem takeResponse_of_some {d : Dispatcher H N} {id : WorkerId} {w : Worker H}
    {response : Rpc.Response} (hw : d.worker? id = some w) (hr : w.response = some response) :
    d.takeResponse id =
      ({ d with workers := d.workers.filter fun w => w.id ≠ id }, some response) := by
  simp [takeResponse, hw, hr]

end Dispatcher

/-! ### What a move does -/

namespace Service

theorem respond_dispatcher (s : Service H N) (r : Rpc.Response) :
    (s.respond r).1.dispatcher = s.dispatcher := by
  unfold respond
  split <;> rfl

theorem respond_phase (s : Service H N) (r : Rpc.Response) : (s.respond r).1.phase = s.phase := by
  unfold respond
  split <;> rfl

/-- A received frame goes to the dispatcher, and the response that this gives is written. -/
theorem receive_eq (s : Service H N) (frame : Bytes) :
    (s.receive frame).1 =
      match (s.dispatcher.receive (.ofFrame frame)).2.1 with
      | none => { s with dispatcher := (s.dispatcher.receive (.ofFrame frame)).1 }
      | some r =>
        ({ s with dispatcher := (s.dispatcher.receive (.ofFrame frame)).1 }.respond r).1 := by
  unfold receive
  rcases s.dispatcher.receive (.ofFrame frame) with ⟨d, _ | r, notices⟩ <;> rfl

theorem receive_dispatcher (s : Service H N) (frame : Bytes) :
    (s.receive frame).1.dispatcher = (s.dispatcher.receive (.ofFrame frame)).1 := by
  rw [receive_eq]
  split
  · rfl
  · rw [respond_dispatcher]

theorem receive_phase (s : Service H N) (frame : Bytes) : (s.receive frame).1.phase = s.phase := by
  rw [receive_eq]
  split
  · rfl
  · rw [respond_phase]

/-- The three things that a move of the loop can do: it only goes on to its next phase, it leaves
the loop, or it takes a frame. The loop finishes only when nothing is under way. -/
theorem next?_cases {s s' : Service H N} {notices : List Log.Notice}
    (h : s.next? = some (s', notices)) :
    (∃ phase, s.loopEvents = [] ∧ s' = { s with phase } ∧
      (phase = .finished → s.dispatcher.idle = true)) ∨
    (∃ readFlaw, s.loopEvents = [.drained] ∧ s' = { s with readFlaw }.drain) ∨
    ∃ channel frame, s.channel.read ownSide = (channel, .message frame) ∧
      s.loopEvents = [.received frame (s.dispatcher.fate (.ofFrame frame))] ∧
      s' = ({ s with channel, phase := .polling }.receive frame).1 := by
  unfold next? at h
  cases hp : s.phase with
  | notRunning => simp [hp] at h
  | finished => simp [hp] at h
  | polling =>
    simp only [hp, Option.some.injEq, Prod.mk.injEq] at h
    obtain ⟨h, -⟩ := h
    by_cases hs : s.stopRequested = true
    · rw [if_pos hs] at h
      exact .inr (.inl ⟨s.readFlaw, by simp [loopEvents, hp, hs], h.symm⟩)
    · exact .inl ⟨.reading, by simp [loopEvents, hp, hs], by simpa [hs] using h.symm, by simp⟩
  | draining =>
    simp only [hp, Option.ite_none_right_eq_some, Option.some.injEq, Prod.mk.injEq] at h
    obtain ⟨hi, h, -⟩ := h
    exact .inl ⟨.finished, by simp [loopEvents, hp], h.symm, fun _ => hi⟩
  | reading =>
    simp only [hp, read?] at h
    cases hf : s.readFlaw with
    | some flaw =>
      simp only [hf, Option.some.injEq, Prod.mk.injEq] at h
      exact .inr (.inl ⟨none, by simp [loopEvents, hp, hf], h.1.symm⟩)
    | none =>
      simp only [hf] at h
      rcases hr : s.channel.read ownSide with ⟨channel, frame | _ | _⟩
      · simp only [hr, Option.some.injEq] at h
        exact .inr (.inr ⟨channel, frame, rfl, by simp [loopEvents, hp, hf, hr], by rw [h]⟩)
      · simp only [hr, Option.some.injEq, Prod.mk.injEq] at h
        exact .inr (.inl ⟨s.readFlaw, by simp [loopEvents, hp, hf, hr], h.1.symm⟩)
      · simp only [hr, Option.ite_none_right_eq_some, Option.some.injEq, Prod.mk.injEq] at h
        exact .inr (.inl ⟨s.readFlaw, by simp [loopEvents, hp, hf, hr], h.2.1.symm⟩)

theorem deliver_dispatcher (s : Service H N) (id : WorkerId) :
    (s.deliver id).1.dispatcher = (s.dispatcher.takeResponse id).1 := by
  unfold deliver
  cases h : (s.dispatcher.worker? id).bind (·.response) with
  | none => simp [Dispatcher.takeResponse, h]
  | some response => simp [Dispatcher.takeResponse, h, respond_dispatcher]

theorem Move.change {s s' : Service H N} {events : List Event} (h : Move s events s') :
    s.dispatcher.Change events s'.dispatcher := by
  cases h with
  | loop h =>
    obtain ⟨phase, he, rfl, -⟩ | ⟨readFlaw, he, rfl⟩ | ⟨channel, frame, -, he, rfl⟩ := next?_cases h
    · rw [he]
      exact .aside rfl rfl rfl
    · rw [he]
      exact .drained s.dispatcher
    · rw [he, receive_dispatcher]
      exact .received s.dispatcher frame
  | conclude outcome hw hr => exact .concluded outcome hw hr
  | deliver hw hr =>
    rw [deliver_dispatcher]
    exact .delivered hw hr
  | takeJob =>
    obtain ⟨hp, hw, ha⟩ := s.dispatcher.takeJob_keeps
    exact .aside hp hw ha
  | finishJob failure =>
    obtain ⟨hp, hw, ha⟩ := s.dispatcher.finishJob_keeps failure
    exact .aside hp hw ha

theorem Intervention.change {s s' : Service H N} (h : Intervention s s') :
    s.dispatcher.Change [] s'.dispatcher := by
  cases h with
  | notify n =>
    unfold Service.notify
    split <;> exact .aside rfl rfl rfl
  | onRequest | onNotification | run | workerFlaw | outside => exact .aside rfl rfl rfl

/-- What holds of a new dispatcher and is kept by every change holds along every run. -/
theorem Run.dispatcher_induction {P : List Event → Dispatcher H N → Prop} (fresh : P [] {})
    (change : ∀ {trace d events d'}, P trace d → d.Change events d' → P (trace ++ events) d')
    {trace : List Event} {s : Service H N} (h : Run trace s) : P trace s.dispatcher := by
  induction h with
  | fresh => exact fresh
  | move _ hm ih => exact change ih hm.change
  | intervention _ hi ih => simpa using change ih hi.change

/-- The loop takes a message that is not answered at once. -/
theorem Move.receive {s : Service H N} {channel : Channel.Duplex} {frame : Bytes} {m : Incoming}
    {d : Dispatcher H N} {notices : List Log.Notice} (hp : s.phase = .reading)
    (hf : s.readFlaw = none) (hr : s.channel.read ownSide = (channel, .message frame))
    (hm : Incoming.ofFrame frame = m) (hd : s.dispatcher.receive m = (d, none, notices)) :
    Move s [.received frame (s.dispatcher.fate m)]
      { s with dispatcher := d, channel, phase := .polling } := by
  subst hm
  have he : s.loopEvents = [.received frame (s.dispatcher.fate (.ofFrame frame))] := by
    simp [loopEvents, hp, hf, hr]
  rw [← he]
  refine @Move.loop _ _ s _ notices ?_
  simp [next?, read?, hp, hf, hr, Service.receive, hd]

/-- The loop takes a message that is answered at once. -/
theorem Move.refuse {s : Service H N} {channel : Channel.Duplex} {frame : Bytes} {m : Incoming}
    {d : Dispatcher H N} {response : Rpc.Response} {notices : List Log.Notice}
    (hp : s.phase = .reading) (hf : s.readFlaw = none)
    (hr : s.channel.read ownSide = (channel, .message frame)) (hm : Incoming.ofFrame frame = m)
    (hd : s.dispatcher.receive m = (d, some response, notices)) :
    Move s [.received frame (.answered response)]
      ({ s with dispatcher := d, channel, phase := .polling }.respond response).1 := by
  subst hm
  have he : s.loopEvents = [.received frame (.answered response)] := by
    simp [loopEvents, hp, hf, hr, Dispatcher.fate, hd]
  let s' : Service H N := { s with dispatcher := d, channel, phase := .polling }
  have hn : s.next? = some ((s'.respond response).1, notices ++ (s'.respond response).2) := by
    simp [next?, read?, hp, hf, hr, Service.receive, hd, s']
  rw [← he]
  exact .loop hn

end Service

/-! ### A request that is cancelled -/

def requestFrame : Bytes := ascii "\x7b\"id\":\"a\",\"method\":\"m\"\x7d"

def cancelFrame : Bytes :=
  ascii "\x7b\"method\":\"$/cancelRequest\",\"params\":\x7b\"id\":\"a\"\x7d\x7d"

theorem ofFrame_requestFrame :
    Incoming.ofFrame requestFrame = .request ⟨.text (ascii "a"), ascii "m", none⟩ := by
  have hv : Json.value 512 = Json.valueWith (some (Json.valueWith (some (Json.value 510)))) := rfl
  have hj : Json.parse requestFrame =
      .ok (.object [(ascii "id", .text (ascii "a")), (ascii "method", .text (ascii "m"))]) := by
    rw [Json.parse, Json.maxDepth, hv, requestFrame]
    generalize Json.value 510 = v
    simp [ascii, Json.valueWith, Json.Cursor.skipSpace, Json.Cursor.advance, Json.Cursor.isSpace,
      List.takeWhile, Json.objectBody, Json.Cursor.accept?, Json.membersFrom, Json.string,
      Json.stringBody, bind, Except.bind, Table.set]
  rw [Incoming.ofFrame, hj]
  rfl

theorem ofFrame_cancelFrame : Incoming.ofFrame cancelFrame = .cancel (some (.text (ascii "a"))) := by
  have hv : Json.value 512 =
      Json.valueWith (some (Json.valueWith (some (Json.valueWith (some (Json.value 509)))))) := rfl
  have hj : Json.parse cancelFrame =
      .ok (.object [(ascii "method", .text cancelMethod),
        (ascii "params", .object [(ascii "id", .text (ascii "a"))])]) := by
    rw [Json.parse, Json.maxDepth, hv, cancelFrame]
    generalize Json.value 509 = v
    simp [cancelMethod, ascii, Json.valueWith, Json.Cursor.skipSpace, Json.Cursor.advance,
      Json.Cursor.isSpace, List.takeWhile, Json.objectBody, Json.Cursor.accept?, Json.membersFrom,
      Json.string, Json.stringBody, bind, Except.bind, Table.set]
  rw [Incoming.ofFrame, hj]
  rfl

/-- The response to a request that no worker could be started for. -/
def unstartedResponse : Rpc.Response :=
  .ofError (.text (ascii "a")) ⟨Rpc.Code.internalError, ascii "no thread", none⟩

/-- The record of a request that no worker can be started for, and of one with the same id whose
handler succeeds although it was cancelled. -/
def cancelledTrace : List Event :=
  [.received requestFrame (.answered unstartedResponse), .received requestFrame (.accepted 0),
    .received cancelFrame .ignored, .concluded 0 (.ok .null),
    .delivered 0 (.ofError (.text (ascii "a")) Rpc.Failure.cancelled.toError), .drained]

theorem exists_run_cancelledTrace :
    ∃ s : Service Unit Unit, Service.Run cancelledTrace s ∧ s.phase = .finished := by
  let channel : Channel.Duplex :=
    { connected := fun _ => true
      inbox := fun _ => { messages := [requestFrame, requestFrame, cancelFrame] } }
  let d : Dispatcher Unit Unit :=
    { requestHandlers := [(ascii "m", ())], workerFlaw := some (ascii "no thread") }
  have h0 : Service.Run [] ({ channel } : Service Unit Unit) := .fresh channel Channel.sessionStem
  have h1 : Service.Run [] ({ dispatcher := d, channel, phase := .reading } : Service Unit Unit) :=
    (((h0.intervention (.onRequest _ (ascii "m") ())).intervention
      (.workerFlaw _ (some (ascii "no thread")))).intervention (.run rfl)).move (.loop rfl)
  have h1' := (h1.move (.refuse rfl rfl rfl ofFrame_requestFrame rfl)).move (.loop rfl)
  have h2 := (h1'.move (.receive rfl rfl rfl ofFrame_requestFrame rfl)).move (.loop rfl)
  have h3 := h2.move (.receive rfl rfl rfl ofFrame_cancelFrame rfl)
  have h4 := h3.move (@Service.Move.conclude _ _ _ 0 _ (.ok .null) rfl rfl)
  have h5 := h4.move (@Service.Move.deliver _ _ _ 0 _ _ rfl rfl)
  have h6 := (h5.intervention (.outside _ channel true none)).move (.loop rfl)
  exact ⟨_, h6.move (.loop rfl), rfl⟩

end EditorSession.Dispatch
