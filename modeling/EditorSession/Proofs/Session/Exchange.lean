import EditorSession.Proofs.Session.Dialogue

/-! What becomes of a message that is sent to a server with nothing else to begin. It is received, and
the request is served or the notification handled; whatever else the server does meanwhile leaves it
where it is. -/

namespace EditorSession

namespace Dispatch

variable {H N : Type}

namespace Service

variable {s s' : Service H N}

/-- Nothing was received, no notification was taken up, and no request has become pending. -/
structure Rests (s s' : Service H N) : Prop where
  inbox : s'.inbox = s.inbox
  jobs : s'.dispatcher.jobs = s.dispatcher.jobs
  current : s.dispatcher.current = none → s'.dispatcher.current = none
  pending : ∀ key, Table.contains key s'.dispatcher.pending = true →
    Table.contains key s.dispatcher.pending = true

theorem Rests.refl (s : Service H N) : s.Rests s := ⟨rfl, rfl, fun h => h, fun _ h => h⟩

theorem bears_rests (s : Service H N) : Bears s.Rests where
  conclude s' id outcome h := by
    obtain ⟨hc, hj⟩ := s'.dispatcher.conclude_sameJobs id outcome
    refine ⟨h.inbox, hj.trans h.jobs, fun hn => hc.trans (h.current hn), ?_⟩
    intro key hk
    refine h.pending key ?_
    simp only [Service.conclude, Dispatcher.conclude] at hk
    split at hk
    · exact hk
    · exact Table.contains_of_erase hk
  deliver s' id h := by
    have hi := ((bears_beside s').deliver s' id (.refl s')).inbox_eq
    obtain ⟨hc, hj⟩ := s'.dispatcher.takeResponse_sameJobs id
    rw [← s'.deliver_dispatcher id] at hc hj
    refine ⟨hi.trans h.inbox, hj.trans h.jobs, fun hn => hc.trans (h.current hn), ?_⟩
    intro key hk
    refine h.pending key ?_
    rw [deliver_dispatcher, Dispatcher.takeResponse] at hk
    split at hk <;> exact hk
  finishJob s' failure h := by
    obtain ⟨hp, -, -⟩ := s'.dispatcher.finishJob_keeps failure
    refine ⟨h.inbox, Eq.trans ?_ h.jobs, fun _ => s'.dispatcher.finishJob_current failure,
      fun key hk => h.pending key (hp ▸ hk)⟩
    simp only [Service.finishJob, Dispatcher.finishJob]
    split <;> rfl

theorem Rests.notify (h : s.Rests s') (n : Rpc.Notification) : s.Rests (s'.notify n).1 := by
  have hd := s'.notify_dispatcher n
  exact ⟨((Beside.refl s').notify n).inbox_eq.trans h.inbox, hd ▸ h.jobs, hd ▸ h.current,
    hd ▸ h.pending⟩

theorem takeJob_of_jobs_nil (h : s.dispatcher.jobs = []) : s.takeJob = (s, none) := by
  unfold takeJob Dispatcher.takeJob
  rw [h]
  cases s.dispatcher.current <;> rfl

theorem takeJob_of_jobs_cons (hc : s.dispatcher.current = none) {job : Job N} {rest : List (Job N)}
    (hj : s.dispatcher.jobs = job :: rest) : ∃ service, s.takeJob = (service, some job) := by
  refine ⟨{ s with dispatcher := { s.dispatcher with current := some job, jobs := rest } }, ?_⟩
  rw [takeJob, Dispatcher.takeJob, hc, hj]

end Service

end Dispatch

namespace Session

open Dispatch (WorkerId Worker Job Incoming)

theorem get?_requestHandlers {method : Bytes} {handler : RequestHandler} :
    Table.get? method requestHandlers = some handler ↔ method = handler.method := by
  constructor
  · intro h
    obtain ⟨handler', -, he⟩ := List.mem_map.mp (Table.mem_of_get? h)
    rw [Prod.mk.injEq] at he
    exact he.1.symm.trans (congrArg _ he.2)
  · rintro rfl
    cases handler with
    | handshake => rfl
    | shutdown => rfl
    | feature f => cases f <;> rfl

theorem get?_notificationHandlers {method : Bytes} {handler : NotificationHandler} :
    Table.get? method notificationHandlers = some handler ↔ method = handler.method := by
  constructor
  · intro h
    obtain ⟨handler', -, he⟩ := List.mem_map.mp (Table.mem_of_get? h)
    rw [Prod.mk.injEq] at he
    exact he.1.symm.trans (congrArg _ he.2)
  · rintro rfl
    cases handler <;> rfl

/-- Handlers are told apart by their methods. -/
theorem RequestHandler.method_inj {handler other : RequestHandler} :
    handler.method = other.method ↔ handler = other := by
  refine ⟨fun h => ?_, congrArg _⟩
  have hg := get?_requestHandlers.mpr h
  rw [get?_requestHandlers.mpr (rfl : handler.method = _)] at hg
  exact Option.some.inj hg

theorem NotificationHandler.method_inj {handler other : NotificationHandler} :
    handler.method = other.method ↔ handler = other := by
  refine ⟨fun h => ?_, congrArg _⟩
  have hg := get?_notificationHandlers.mpr h
  rw [get?_notificationHandlers.mpr (rfl : handler.method = _)] at hg
  exact Option.some.inj hg

/-! ### The lifecycle -/

namespace State

/-- The state after a message. The opening request starts the session proper, a shutdown winds it up,
and an exit ends it at any time. -/
def after (state : State) : Incoming → State
  | .request r =>
    if state = .initializing ∧ r.method = RequestHandler.handshake.method then .running
    else if state = .running ∧ r.method = RequestHandler.shutdown.method then .shuttingDown
    else state
  | .notification n => if n.method = NotificationHandler.exit.method then .stopped else state
  | _ => state

variable {state : State} {r : Rpc.Request} {n : Rpc.Notification}

theorem after_request (handler : RequestHandler) : r.method = handler.method →
    state.after (.request r) =
      match handler with
      | .handshake => if state = .initializing then .running else state
      | .shutdown => if state = .running then .shuttingDown else state
      | .feature _ => state := by
  intro h
  rw [after, h]
  simp only [RequestHandler.method_inj]
  cases handler <;> simp

theorem after_notification {handler : NotificationHandler} (h : n.method = handler.method) :
    state.after (.notification n) = if handler = .exit then .stopped else state := by
  rw [after, h]
  simp only [NotificationHandler.method_inj]

theorem after_unknown_request (h : Table.get? r.method requestHandlers = none) :
    state.after (.request r) = state := by
  have hm : ∀ handler : RequestHandler, r.method ≠ handler.method := by
    intro handler hm
    simp [get?_requestHandlers.mpr hm] at h
  simp [after, hm]

theorem after_unknown_notification (h : Table.get? n.method notificationHandlers = none) :
    state.after (.notification n) = state := by
  refine if_neg fun hm => ?_
  simp [get?_notificationHandlers.mpr hm] at h

end State

/-- The requests that are refused in a state whatever they ask, and the code that they are refused
with. -/
inductive Refuses : State → RequestHandler → Int32 → Prop where
  | early {handler} (h : handler ≠ .handshake) :
      Refuses .initializing handler Rpc.Code.serverNotInitialized
  | late {handler} (h : handler ≠ .handshake) :
      Refuses .shuttingDown handler Rpc.Code.invalidRequest
  | again {state} (h : state ≠ .initializing) : Refuses state .handshake Rpc.Code.invalidRequest

theorem Refuses.permit {state : State} {handler : RequestHandler} {code : Int32}
    (h : Refuses state handler code) (hn : handler ≠ .handshake) (method : Bytes) :
    ∃ message, state.permit method = .error ⟨code, message⟩ := by
  cases h with
  | early => exact ⟨_, rfl⟩
  | late => exact ⟨_, rfl⟩
  | again => exact absurd rfl hn

theorem Refuses.of_handshake {state : State} {code : Int32} (h : Refuses state .handshake code) :
    state ≠ .initializing ∧ code = Rpc.Code.invalidRequest := by
  cases h with
  | early hn => exact absurd rfl hn
  | late hn => exact absurd rfl hn
  | again hi => exact ⟨hi, rfl⟩

namespace Server

variable {s t : Server} {frame : Bytes}

/-! ### A move that takes nothing further -/

/-- What was sent is where it was, and so is the session. -/
structure Rests (s t : Server) : Prop where
  service : s.service.Rests t.service
  serves : ∀ j w, t.Serves j w ↔ s.Serves j w
  state : t.state = s.state
  roots : t.roots = s.roots

/-- A move takes nothing further, or the first message in, or it serves a request, or handles the
next notification. The loop of a session that has stopped may be left. -/
inductive Moved (s : Server) : Server → Prop where
  | rests {s'} (h : s.Rests s') : Moved s s'
  | takes {first rest} {service : Dispatch.Service RequestHandler NotificationHandler}
      (hp : s.service.phase = .reading) (hi : s.service.inbox = first :: rest)
      (hd : service.dispatcher = (s.service.dispatcher.receive (.ofFrame first)).1)
      (hr : service.inbox = rest)
      (hs : service.sent = s.service.sent ++
        (s.service.dispatcher.receive (.ofFrame first)).2.1.toList.map Rpc.Response.encode) :
      Moved s { s with service }
  | leaves (hs : s.state = .stopped) : Moved s { s with service := s.service.drain }
  | serves {id worker} (h : s.Serves id worker) : Moved s (s.serve id).1
  | handles {service job} (h : s.service.takeJob = (service, some job)) : Moved s s.handle.1

theorem Rests.refl (s : Server) : s.Rests s := ⟨.refl _, fun _ _ => Iff.rfl, rfl, rfl⟩

/-- How far the loop has come is of no account. -/
theorem rests_withPhase (s : Server) (phase : Dispatch.Phase) :
    s.Rests { s with service := { s.service with phase } } :=
  ⟨⟨rfl, rfl, fun h => h, fun _ h => h⟩, fun _ _ => SameRequests.serves ⟨rfl, rfl, rfl, rfl⟩, rfl, rfl⟩

/-- Only three moves take anything further. -/
theorem step_rests (s : Server) (now : Int) (move : Move) (hr : move ≠ .receive)
    (hv : ∀ id, move ≠ .serve id) (hh : move ≠ .handle) :
    s.service.Rests (s.step now move).1.service ∧
      ∀ j w, (s.step now move).1.Serves j w ↔ s.Serves j w := by
  refine ⟨?_, fun _ _ => step_serves now hr hv⟩
  exact step_bears (Dispatch.Service.bears_rests s.service) (.refl _) now move
    (fun h => absurd h hr) (fun h => absurd h hh) (.inr fun _ n h => h.notify n)
    (fun h => absurd h.1 hh) (fun _ _ h => ⟨h.inbox, h.jobs, h.current, h.pending⟩)

theorem Kept.rests (h : s.Kept) (now : Int) (move : Move) (hr : move ≠ .receive)
    (hv : ∀ id, move ≠ .serve id) (hh : move ≠ .handle) : s.Rests (s.step now move).1 := by
  obtain ⟨hservice, hserves⟩ := s.step_rests now move hr hv hh
  suffices (s.step now move).1.life.state = s.state ∧ (s.step now move).1.life.roots = s.roots from
    ⟨hservice, hserves, this.1, this.2⟩
  have ht := s.step_life now move
  generalize (s.step now move).1.life = life at ht
  cases ht with
  | still => exact ⟨rfl, rfl⟩
  | handshake => exact absurd rfl (hv _)
  | shutdown => exact absurd rfl (hv _)
  | exit => exact absurd rfl hh
  | closing => exact ⟨rfl, rfl⟩
  | returned hc =>
    refine ⟨?_, rfl⟩
    by_contra hs
    obtain ⟨ho, hg⟩ := h.isOpen (Ne.symm hs)
    have hp := ho.phase
    rcases hc with ⟨-, hf⟩ | hf
    · simp [hf] at hp
    · simp [hg] at hf

/-- Every move is one of these. -/
theorem Kept.moved (h : s.Kept) (now : Int) (move : Move) : s.Moved (s.step now move).1 := by
  have aside := fun hr hv hh => Moved.rests (h.rests now move hr hv hh)
  cases move with
  | receive =>
    simp only [Server.step]
    split
    case h_1 next hn =>
      obtain ⟨service, notices⟩ := next
      cases h.afloat.goes hn with
      | waits => exact .rests (s.rests_withPhase _)
      | @takes frame rest hp hi =>
        have hw := h.afloat.writable (by simp [hp])
        exact .takes hp hi (Dispatch.Service.receive_dispatcher _ _)
          (s.service.receive_unshift_inbox frame rest)
          (Dispatch.Service.receive_unshift_sent hw frame rest)
      | leaves hp hs =>
        refine .leaves ?_
        by_contra hl
        simp [(h.isOpen hl).1.stop] at hs
      | finishes => exact .rests (s.rests_withPhase _)
    case h_2 => exact .rests (.refl s)
  | serve id =>
    rcases s.serve_cases id with hn | ⟨worker, hw⟩
    · rw [Server.step, hn]
      exact .rests (.refl s)
    · exact .serves hw
  | handle =>
    rcases s.handle_cases with hn | ⟨service, job, hj⟩
    · rw [Server.step, hn]
      exact .rests (.refl s)
    · exact .handles hj
  | _ => exact aside (by simp) (by simp) (by simp)

/-- When the loop is left, who is pending is asked to stop. -/
theorem Orderly.serves_drain (ho : s.Orderly) {j : WorkerId} {w : Worker RequestHandler} :
    ({ s with service := s.service.drain } : Server).Serves j w ↔
      ∃ v, s.Serves j v ∧ v.stopIf (fun _ => true) = w := by
  have hw : s.service.drain.dispatcher.worker? j =
      (s.service.dispatcher.worker? j).map (·.stopIf fun _ => true) := by
    have hp : ((fun w : Worker RequestHandler => decide (w.id = j)) ∘
        fun w : Worker RequestHandler => w.stopIf fun _ => true) = fun w => decide (w.id = j) :=
      funext fun w => by simp
    simp only [Dispatch.Dispatcher.worker?, Dispatch.Service.drain]
    rw [ho.sound.stopPending_workers, List.find?_map, hp]
  constructor
  · rintro ⟨hf, hu, hn⟩
    obtain ⟨v, hv, rfl⟩ := Option.map_eq_some_iff.mp (hw.symm.trans hf)
    exact ⟨v, ⟨hv, by simpa using hu, hn⟩, rfl⟩
  · rintro ⟨v, hv, rfl⟩
    exact ⟨hw.trans (by rw [hv.found, Option.map_some]), by simpa using hv.undecided, hv.unserved⟩

/-! ### A request that is served -/

theorem serve_roots (hs : s.state ≠ .initializing) (id : WorkerId) :
    (s.serve id).1.roots = s.roots := by
  have ht := s.serve_life id
  generalize hl : (s.serve id).1.life = life at ht
  refine (congrArg Life.roots hl).trans ?_
  cases ht with
  | still => rfl
  | handshake _ _ hi => exact absurd hi hs
  | shutdown => rfl

section

variable {id : WorkerId} {w : Worker RequestHandler} (h : s.Serves id w)

include h

theorem Serves.serve_state (hm : w.request.method = w.handler.method) :
    (s.serve id).1.state = s.state.after (.request w.request) := by
  rw [h.serve_eq, State.after_request w.handler hm]
  cases w.handler with
  | handshake =>
    dsimp only
    unfold serveHandshake
    split <;> rfl
  | shutdown =>
    dsimp only
    unfold serveShutdown
    split
    case h_1 hp =>
      rw [if_neg]
      · rfl
      · intro hs
        rw [permit_eq_ok_iff.mpr hs] at hp
        cases hp
    case h_2 hp =>
      rw [if_pos (permit_eq_ok_iff.mp hp)]
      exact congrArg Life.state (s.acceptShutdown_life id)
  | feature f =>
    dsimp only
    exact congrArg Life.state (s.serveFeature_life id f _)

/-- A refusal is the response of the request, unless it was asked to stop. -/
theorem Serves.given_refuse (r : Rpc.Refusal) (n : Nat) : ∃ code message,
    (code = r.code ∨ w.stopped = true ∧ code = Rpc.Code.requestCancelled) ∧
      (s.refuse id r).1.Given n (.ofError w.request.id ⟨code, message, none⟩) := by
  have hf := s.worker?_conclude id id (.error (.refused r))
  rw [h.found, Option.map_some, if_pos rfl] at hf
  have hm := List.mem_of_find?_eq_some hf
  cases hw : w.stopped with
  | false =>
    refine ⟨r.code, Bytes.beforeNul r.message, .inl rfl, .inr ⟨_, hm, ?_⟩⟩
    simp only [Worker.responseTo, hw, Bool.false_eq_true, ↓reduceIte]
    rfl
  | true =>
    refine ⟨Rpc.Code.requestCancelled, Rpc.Failure.cancelled.toError.message, .inr ⟨rfl, rfl⟩,
      .inr ⟨_, hm, ?_⟩⟩
    simp only [Worker.responseTo, hw, ↓reduceIte]
    rfl

theorem Serves.serve_refuses {code : Int32} (hr : Refuses s.state w.handler code) :
    ∃ message, s.serve id = s.refuse id ⟨code, message⟩ := by
  rw [h.serve_eq]
  cases hw : w.handler with
  | handshake =>
    rw [hw] at hr
    obtain ⟨hi, rfl⟩ := hr.of_handshake
    exact ⟨_, if_neg hi⟩
  | shutdown =>
    obtain ⟨message, hp⟩ := hr.permit (by simp [hw]) RequestHandler.shutdown.method
    exact ⟨message, by simp only [serveShutdown, hp]⟩
  | feature f =>
    obtain ⟨message, hp⟩ := hr.permit (by simp [hw]) (featureMethod f)
    exact ⟨message, by simp only [serveFeature, hp]⟩

end

/-! ### Where a message stands -/

/-- Nothing is left to be begun. -/
structure Idle (s : Server) : Prop where
  jobs : s.service.dispatcher.jobs = []
  requests : ∀ j w, ¬s.Serves j w

theorem Settled.idle (h : s.Settled) : s.Idle := by
  refine ⟨h.jobs, fun j w hw => ?_⟩
  have hi : w.id = j := by simpa using List.find?_some hw.found
  have hs := (h.requests w (List.mem_of_find?_eq_some hw.found)).2
  rw [hi, hw.unserved] at hs
  cases hs

theorem Idle.rests (h : s.Idle) (hr : s.Rests t) : t.Idle :=
  ⟨hr.service.jobs.trans h.jobs, fun j w hw => h.requests j w ((hr.serves j w).mp hw)⟩

theorem Orderly.serves_iff (ho : s.Orderly) {j : WorkerId} {w : Worker RequestHandler} :
    s.Serves j w ↔ w ∈ s.service.dispatcher.workers ∧ w.id = j ∧ w.response = none ∧
      s.wait? j = none := by
  constructor
  · rintro ⟨hf, hu, hn⟩
    obtain ⟨hm, hi⟩ := ho.sound.worker?_eq_some_iff.mp hf
    exact ⟨hm, hi, hu, hn⟩
  · rintro ⟨hm, hi, hu, hn⟩
    exact ⟨ho.sound.worker?_eq_some_iff.mpr ⟨hm, hi⟩, hu, hn⟩

/-- Nothing waits under a number that was not given yet. -/
theorem Orderly.wait?_accepted (ho : s.Orderly) : s.wait? s.service.dispatcher.accepted = none := by
  rw [Option.eq_none_iff_forall_not_mem]
  intro wait hx
  obtain ⟨entry, hf, -⟩ := Option.map_eq_some_iff.mp hx
  have hi : entry.1 = s.service.dispatcher.accepted := by simpa using List.find?_some hf
  obtain ⟨u, hu, hui, -⟩ := ho.waiting entry (List.mem_of_find?_eq_some hf)
  have hb := ho.sound.bounded u hu
  rw [hui, hi] at hb
  exact Nat.lt_irrefl _ hb

theorem Idle.drain (h : s.Idle) (ho : s.Orderly) :
    ({ s with service := s.service.drain } : Server).Idle := by
  refine ⟨h.jobs, fun j w hw => ?_⟩
  obtain ⟨v, hv, -⟩ := ho.serves_drain.mp hw
  exact h.requests j v hv

/-- With nothing to receive and nothing to begin there will be nothing to begin. -/
theorem Idle.moved (h : s.Idle) (ho : s.Orderly)
    (hi : s.service.inbox = [] ∨ s.service.phase ≠ .reading) (hm : s.Moved t) : t.Idle := by
  cases hm with
  | rests hr => exact h.rests hr
  | takes hp hi' => simp [hp, hi'] at hi
  | leaves => exact h.drain ho
  | serves hv => exact absurd hv (h.requests _ _)
  | handles hj => simp [Dispatch.Service.takeJob_of_jobs_nil h.jobs] at hj

/-- The message is a request with the id of an undecided one. -/
def Repeats (s : Server) (frame : Bytes) : Prop :=
  ∃ r, Incoming.ofFrame frame = .request r ∧
    Table.contains r.id.key s.service.dispatcher.pending = true

/-- If the message is a request that is refused in this state, the refusal is given. In a session that
has stopped the request may be cancelled before. -/
def Refused (s : Server) (frame : Bytes) (t : Server) : Prop :=
  ∀ r handler code, Incoming.ofFrame frame = .request r → r.method = handler.method →
    Refuses s.state handler code → ∃ code' message,
      (code' = code ∨ s.state = .stopped ∧ code' = Rpc.Code.requestCancelled) ∧
        t.Given s.service.sent.length (.ofError r.id ⟨code', message, none⟩)

theorem Refused.of_ne (h : ∀ r, Incoming.ofFrame frame ≠ .request r) : s.Refused frame t :=
  fun r _ _ hf => absurd hf (h r)

/-- The session is where it was. -/
structure Unmoved (s t : Server) : Prop where
  state : t.state = s.state
  roots : t.roots = s.roots

/-- What has become of a message. It is not heard any more when the loop was left. -/
inductive Stand (s : Server) (frame : Bytes) (t : Server) : Prop where
  | unheard (hs : s.state = .stopped) (hl : t.service.Left (s.service.inbox ++ [frame])) (hq : t.Idle)
      (hu : s.Unmoved t)
  | unread (hi : t.service.inbox = [frame]) (hb : s.service.inbox = []) (hq : t.Idle)
      (hp : ∀ key, Table.contains key t.service.dispatcher.pending = true →
        Table.contains key s.service.dispatcher.pending = true) (hu : s.Unmoved t)
      (hc : s.current = none → t.current = none)
  | accepted {w} (hf : Incoming.ofFrame frame = .request w.request)
      (hm : w.request.method = w.handler.method) (hw : w.stopped = true → s.state = .stopped)
      (hi : t.service.inbox = []) (hj : t.service.dispatcher.jobs = [])
      (hs : ∀ j v, t.Serves j v ↔ j = w.id ∧ v = w) (hu : s.Unmoved t)
  | queued {n handler} (hf : Incoming.ofFrame frame = .notification n)
      (hm : n.method = handler.method) (hi : t.service.inbox = [])
      (hj : t.service.dispatcher.jobs = [⟨handler, n⟩]) (hs : ∀ j w, ¬t.Serves j w)
      (hu : s.Unmoved t) (hc : s.current = none → t.current = none)
  | done (hi : t.service.inbox = []) (hq : t.Idle)
      (hs : t.state = s.state ∧ s.Repeats frame ∨ t.state = s.state.after (.ofFrame frame))
      (hr : s.state ≠ .initializing → t.roots = s.roots) (hg : s.Refused frame t)

/-- The message is received by `service`; it was the only one, and nothing else was to be begun. -/
structure Receives (s : Server) (frame : Bytes) (t : Server)
    (service : Dispatch.Service RequestHandler NotificationHandler) : Prop where
  kept : t.Kept
  idle : t.Idle
  unmoved : s.Unmoved t
  pending : ∀ key, Table.contains key t.service.dispatcher.pending = true →
    Table.contains key s.service.dispatcher.pending = true
  current : s.current = none → t.current = none
  early : s.state = .initializing → s.service.dispatcher.pending = []
  earlier : s.service.sent <+: t.service.sent
  after : Kept { t with service }
  inbox : service.inbox = []
  dispatcher : service.dispatcher = (t.service.dispatcher.receive (.ofFrame frame)).1
  sent : service.sent = t.service.sent ++
    (t.service.dispatcher.receive (.ofFrame frame)).2.1.toList.map Rpc.Response.encode

namespace Receives

variable {service : Dispatch.Service RequestHandler NotificationHandler}
  (h : Receives s frame t service)

include h

/-- A message that asks for nothing that is still to be begun is done with. -/
theorem aside (hj : service.dispatcher.jobs = t.service.dispatcher.jobs)
    (hw : ∀ w ∈ service.dispatcher.workers, ∃ v ∈ t.service.dispatcher.workers,
      v.id = w.id ∧ v.response = w.response)
    (ha : s.Repeats frame ∨ s.state.after (.ofFrame frame) = s.state)
    (hg : s.Refused frame { t with service }) : Stand s frame { t with service } := by
  refine .done h.inbox ⟨hj.trans h.idle.jobs, ?_⟩ ?_ (fun _ => h.unmoved.roots) hg
  · intro j w hs
    obtain ⟨hm, hid, hn, hv⟩ := h.after.orderly.serves_iff.mp hs
    obtain ⟨v, hmv, hvi, hvr⟩ := hw w hm
    exact h.idle.requests j v
      (h.kept.orderly.serves_iff.mpr ⟨hmv, hvi.trans hid, hvr.trans hn, hv⟩)
  · exact ha.imp (fun hr => ⟨h.unmoved.state, hr⟩) fun hr => h.unmoved.state.trans hr.symm

theorem ignored (hd : (t.service.dispatcher.receive (.ofFrame frame)).1 = t.service.dispatcher)
    (ha : s.Repeats frame ∨ s.state.after (.ofFrame frame) = s.state)
    (hg : s.Refused frame { t with service }) : Stand s frame { t with service } := by
  have hd := h.dispatcher.trans hd
  exact h.aside (by rw [hd]) (fun w hw => ⟨w, hd ▸ hw, rfl, rfl⟩) ha hg

/-- What is accepted is the only request that is to be served. -/
theorem accepted {w : Worker RequestHandler}
    (hf : Incoming.ofFrame frame = .request w.request) (hm : w.request.method = w.handler.method)
    (hw : w.stopped = false) (hr : w.response = none)
    (hid : w.id = t.service.dispatcher.accepted)
    (hj : service.dispatcher.jobs = t.service.dispatcher.jobs)
    (hws : service.dispatcher.workers = t.service.dispatcher.workers ++ [w]) :
    Stand s frame { t with service } := by
  refine .accepted hf hm (by simp [hw]) h.inbox (hj.trans h.idle.jobs) ?_
    ⟨h.unmoved.state, h.unmoved.roots⟩
  intro j v
  rw [h.after.orderly.serves_iff, hws, List.mem_append, List.mem_singleton]
  constructor
  · rintro ⟨hv | rfl, rfl, hn, hx⟩
    · exact absurd (h.kept.orderly.serves_iff.mpr ⟨hv, rfl, hn, hx⟩) (h.idle.requests _ _)
    · exact ⟨rfl, rfl⟩
  · rintro ⟨rfl, rfl⟩
    exact ⟨.inr rfl, rfl, hr, hid ▸ h.kept.orderly.wait?_accepted⟩

/-- A request whose id is taken is refused on arrival, with the code of late requests. -/
theorem duplicate {r : Rpc.Request} (hm : Incoming.ofFrame frame = .request r)
    (hr : t.service.dispatcher.receive (.request r) = t.service.dispatcher.refuse r.id
      Rpc.Code.invalidRequest (ascii "Duplicate request id") (Dispatch.Notice.duplicateId r.id))
    (hc : Table.contains r.id.key t.service.dispatcher.pending = true) :
    Stand s frame { t with service } := by
  refine h.ignored (by rw [hm, hr]; rfl) (.inl ⟨r, hm, h.pending _ hc⟩) ?_
  intro r' handler code hf hm' href
  obtain rfl : r = r' := by simpa [hm] using hf
  have hcode : code = Rpc.Code.invalidRequest := by
    generalize hst : s.state = state at href
    cases href with
    | early =>
      have hc' := h.pending _ hc
      simp [h.early hst, Table.contains, Table.get?] at hc'
    | late => rfl
    | again => rfl
  refine ⟨code, ascii "Duplicate request id", .inl rfl, .inl ?_⟩
  obtain ⟨since, hsince⟩ := h.earlier
  have hs := h.sent
  rw [hm, hr] at hs
  simp [hcode, hs, ← hsince, Dispatch.Dispatcher.refuse]

theorem request {r : Rpc.Request} (hm : Incoming.ofFrame frame = .request r) :
    Stand s frame { t with service } := by
  cases hh : Table.get? r.method t.service.dispatcher.requestHandlers with
  | none =>
    refine h.ignored ?_ (.inr ?_) ?_
    · simp [hm, Dispatch.Dispatcher.receive_unknown hh, Dispatch.Dispatcher.refuse]
    · rw [hm]
      exact State.after_unknown_request (h.kept.handles.requests ▸ hh)
    · intro r' handler code hf hm' _
      obtain rfl : r = r' := by simpa [hm] using hf
      rw [h.kept.handles.requests, get?_requestHandlers.mpr hm'] at hh
      cases hh
  | some handler =>
    cases hc : Table.contains r.id.key t.service.dispatcher.pending with
    | true => exact h.duplicate hm (Dispatch.Dispatcher.receive_pending hh hc) hc
    | false =>
      have hmethod := get?_requestHandlers.mp (h.kept.handles.requests ▸ hh)
      have hd := h.dispatcher
      rw [hm, Dispatch.Dispatcher.receive_started hh hc h.kept.handles.startable] at hd
      exact h.accepted (w := ⟨t.service.dispatcher.accepted, r, handler, false, none⟩) hm hmethod
        rfl rfl rfl (hd ▸ rfl) (hd ▸ rfl)

theorem cancel {target : Option Rpc.Id} (hm : Incoming.ofFrame frame = .cancel target) :
    Stand s frame { t with service } := by
  have hj := t.service.dispatcher.receive_sameJobs (m := .cancel target) (by simp)
  have hd := h.dispatcher
  rw [hm] at hd
  refine h.aside (hd ▸ hj.jobs) ?_ (.inr (by rw [hm]; rfl)) (.of_ne (by simp [hm]))
  intro w hw
  rw [hd] at hw
  cases target with
  | none => exact ⟨w, hw, rfl, rfl⟩
  | some id =>
    rw [Dispatch.Dispatcher.receive, h.kept.orderly.sound.cancel_workers] at hw
    obtain ⟨v, hv, rfl⟩ := List.mem_map.mp hw
    exact ⟨v, hv, by simp, by simp⟩

theorem notification {n : Rpc.Notification} (hm : Incoming.ofFrame frame = .notification n) :
    Stand s frame { t with service } := by
  cases hh : Table.get? n.method t.service.dispatcher.notificationHandlers with
  | none =>
    refine h.ignored ?_ (.inr ?_) (.of_ne (by simp [hm]))
    · simp [hm, Dispatch.Dispatcher.receive, Dispatch.Dispatcher.receiveNotification, hh]
    · rw [hm]
      exact State.after_unknown_notification (h.kept.handles.notifications ▸ hh)
  | some handler =>
    have hmethod := get?_notificationHandlers.mp (h.kept.handles.notifications ▸ hh)
    have hd := h.dispatcher
    simp only [hm, Dispatch.Dispatcher.receive, Dispatch.Dispatcher.receiveNotification, hh] at hd
    refine .queued hm hmethod h.inbox (by rw [hd, h.idle.jobs]; rfl) ?_
      ⟨h.unmoved.state, h.unmoved.roots⟩ ?_
    · rintro j w ⟨hf, hn, hx⟩
      rw [hd] at hf
      exact h.idle.requests j w ⟨hf, hn, hx⟩
    · intro hc
      rw [Server.current, hd]
      exact h.current hc

theorem stand : Stand s frame { t with service } := by
  have ignored : ∀ {m}, Incoming.ofFrame frame = m →
      (t.service.dispatcher.receive m).1 = t.service.dispatcher → s.state.after m = s.state →
      (∀ r, m ≠ .request r) → Stand s frame { t with service } := by
    rintro m rfl hd ha hn
    exact h.ignored hd (.inr ha) (.of_ne hn)
  cases hm : Incoming.ofFrame frame with
  | malformed size e => exact ignored hm rfl rfl (by simp)
  | notObject => exact ignored hm rfl rfl (by simp)
  | unrecognized => exact ignored hm rfl rfl (by simp)
  | response id => exact ignored hm rfl rfl (by simp)
  | invalidRequest id => exact ignored hm rfl rfl (by simp)
  | request r => exact h.request hm
  | namelessNotification => exact ignored hm rfl rfl (by simp)
  | cancel target => exact h.cancel hm
  | notification n => exact h.notification hm

end Receives

/-- When the only request is served, nothing is left to begin. -/
theorem Serves.serve_idle {id : WorkerId} {w : Worker RequestHandler} (h : t.Serves id w)
    (hi : t.service.inbox = []) (hj : t.service.dispatcher.jobs = [])
    (hs : ∀ j v, t.Serves j v → j = id) :
    (t.serve id).1.service.inbox = [] ∧ (t.serve id).1.Idle := by
  have hr := h.serving.bears (Dispatch.Service.bears_rests t.service) (.refl _)
  refine ⟨hr.inbox.trans hi, hr.jobs.trans hj, fun j v hv => ?_⟩
  obtain ⟨hn, hv⟩ := h.serving.serves.mp hv
  exact hn (hs j v hv)

/-- When the only notification is handled, nothing is left to begin. -/
theorem handle_idle {service : Dispatch.Service RequestHandler NotificationHandler}
    {job other : Job NotificationHandler} (ht : t.service.takeJob = (service, some job))
    (hi : t.service.inbox = []) (hj : t.service.dispatcher.jobs = [other])
    (hs : ∀ j w, ¬t.Serves j w) : t.handle.1.service.inbox = [] ∧ t.handle.1.Idle := by
  obtain ⟨-, rest, hjobs, hservice⟩ := Dispatch.Service.takeJob_eq_some ht
  obtain ⟨-, rfl⟩ : job = other ∧ rest = [] := by simpa [hj] using hjobs.symm
  have hr : service.Rests t.handle.1.service :=
    handled_bears (Dispatch.Service.bears_rests service) ht (.refl _)
      fun _ s h => ⟨h.inbox, h.jobs, h.current, h.pending⟩
  exact ⟨hr.inbox.trans (hservice ▸ hi), hr.jobs.trans (hservice ▸ rfl),
    fun j w h => hs j w (t.handle_sameRequests.serves.mp h)⟩

/-- The request is served. -/
theorem Stand.of_served {w : Worker RequestHandler}
    (hf : Incoming.ofFrame frame = .request w.request) (hm : w.request.method = w.handler.method)
    (hw : w.stopped = true → s.state = .stopped) (hi : t.service.inbox = [])
    (hj : t.service.dispatcher.jobs = [])
    (hs : ∀ j v, t.Serves j v ↔ j = w.id ∧ v = w) (hu : s.Unmoved t) :
    Stand s frame (t.serve w.id).1 := by
  have hv : t.Serves w.id w := (hs w.id w).mpr ⟨rfl, rfl⟩
  obtain ⟨hinbox, hidle⟩ := hv.serve_idle hi hj fun j v h => ((hs j v).mp h).1
  have hst := hv.serve_state hm
  rw [hu.state, ← hf] at hst
  refine .done hinbox hidle (.inr hst) ?_ ?_
  · intro hn
    exact (serve_roots (hu.state ▸ hn) w.id).trans hu.roots
  · intro r handler code hf' hm' href
    obtain rfl : w.request = r := by simpa [hf] using hf'
    obtain rfl : w.handler = handler := RequestHandler.method_inj.mp (hm.symm.trans hm')
    obtain ⟨message, he⟩ := hv.serve_refuses (hu.state ▸ href)
    obtain ⟨code', message', hc, hg⟩ := hv.given_refuse ⟨code, message⟩ s.service.sent.length
    exact ⟨code', message', hc.imp_right (.imp_left hw), he ▸ hg⟩

/-- The notification is handled. -/
theorem Stand.of_handled {n : Rpc.Notification} {handler : NotificationHandler}
    {service : Dispatch.Service RequestHandler NotificationHandler} {job : Job NotificationHandler}
    (ht : t.service.takeJob = (service, some job))
    (hf : Incoming.ofFrame frame = .notification n) (hm : n.method = handler.method)
    (hi : t.service.inbox = []) (hj : t.service.dispatcher.jobs = [⟨handler, n⟩])
    (hs : ∀ j w, ¬t.Serves j w) (hu : s.Unmoved t) : Stand s frame t.handle.1 := by
  obtain ⟨-, rest, hjobs, -⟩ := Dispatch.Service.takeJob_eq_some ht
  obtain ⟨rfl, -⟩ : job = ⟨handler, n⟩ ∧ rest = [] := by simpa [hj] using hjobs.symm
  obtain ⟨hinbox, hidle⟩ := handle_idle ht hi hj hs
  have hlife := t.handle_life
  generalize hl : t.handle.1.life = life at hlife
  have hroots : t.handle.1.roots = s.roots := by
    refine (congrArg Life.roots hl).trans ?_
    cases hlife <;> exact hu.roots
  have ha : t.handle.1.state = s.state.after (.ofFrame frame) := by
    rw [hf, State.after_notification hm]
    by_cases hx : handler = .exit
    · rw [if_pos hx]
      exact (Leaves.step ⟨rfl, _, _, ht, hx⟩ 0).1
    · rw [if_neg hx, ← hu.state]
      refine (congrArg Life.state hl).trans ?_
      cases hlife with
      | still => rfl
      | exit ht' hh =>
        rw [ht, Prod.mk.injEq, Option.some.injEq] at ht'
        obtain ⟨-, rfl⟩ := ht'
        exact absurd hh hx
  exact .done hinbox hidle (.inr ha) (fun _ => hroots) (.of_ne (by simp [hf]))

/-- A message stays where it is while nothing takes it further. -/
theorem Stand.rests {t' : Server} (h : Stand s frame t) (hr : t.Rests t')
    (hl : ∀ unread, t.service.Left unread → t'.service.Left unread)
    (hg : s.Refused frame t → s.Refused frame t') : Stand s frame t' := by
  have unmoved : s.Unmoved t → s.Unmoved t' := fun hu =>
    ⟨hr.state.trans hu.state, hr.roots.trans hu.roots⟩
  cases h with
  | unheard hs hl' hq hu => exact .unheard hs (hl _ hl') (hq.rests hr) (unmoved hu)
  | unread hi hb hq hp hu hc =>
    exact .unread (hr.service.inbox.trans hi) hb (hq.rests hr)
      (fun key hk => hp key (hr.service.pending key hk)) (unmoved hu)
      fun hn => hr.service.current (hc hn)
  | accepted hf hm hw hi hj hs hu =>
    exact .accepted hf hm hw (hr.service.inbox.trans hi) (hr.service.jobs.trans hj)
      (fun j v => (hr.serves j v).trans (hs j v)) (unmoved hu)
  | queued hf hm hi hj hs hu hc =>
    exact .queued hf hm (hr.service.inbox.trans hi) (hr.service.jobs.trans hj)
      (fun j w hw => hs j w ((hr.serves j w).mp hw)) (unmoved hu)
      fun hn => hr.service.current (hc hn)
  | done hi hq hs hr' hg' =>
    exact .done (hr.service.inbox.trans hi) (hq.rests hr) (hr.state ▸ hs)
      (fun hn => hr.roots.trans (hr' hn)) (hg hg')

/-- When the loop is left, a message that was received stays where it is, and another one is not heard
any more. -/
theorem Stand.leaves (h : Stand s frame t) (ho : t.Orderly) (ht : t.state = .stopped)
    (hg : s.Refused frame t → s.Refused frame { t with service := t.service.drain }) :
    Stand s frame { t with service := t.service.drain } := by
  cases h with
  | unheard hs hl hq hu =>
    exact .unheard hs ⟨.inl rfl, hl.inbox⟩ (hq.drain ho) ⟨hu.state, hu.roots⟩
  | unread hi hb hq hp hu hc =>
    exact .unheard (hu.state.symm.trans ht) ⟨.inl rfl, hi.trans (by rw [hb]; rfl)⟩ (hq.drain ho)
      ⟨hu.state, hu.roots⟩
  | @accepted w hf hm hw hi hj hs hu =>
    refine .accepted (w := w.stopIf fun _ => true) (by simpa using hf) (by simpa using hm)
      (fun _ => hu.state.symm.trans ht) hi hj ?_ ⟨hu.state, hu.roots⟩
    intro j v
    rw [ho.serves_drain, w.stopIf_id]
    constructor
    · rintro ⟨u, hv, rfl⟩
      obtain ⟨rfl, rfl⟩ := (hs j u).mp hv
      exact ⟨rfl, rfl⟩
    · rintro ⟨rfl, rfl⟩
      exact ⟨w, (hs _ _).mpr ⟨rfl, rfl⟩, rfl⟩
  | queued hf hm hi hj hs hu hc =>
    refine .queued hf hm hi hj (fun j w hw => ?_) ⟨hu.state, hu.roots⟩ hc
    obtain ⟨v, hv, -⟩ := ho.serves_drain.mp hw
    exact hs j v hv
  | done hi hq hs hr hg' => exact .done hi (hq.drain ho) hs hr (hg hg')

/-- A response that is given stays given. -/
theorem Kept.given (h : t.Kept) {n : Nat} (hn : n ≤ t.service.sent.length) {r : Rpc.Response}
    (hg : t.Given n r) (now : Int) (move : Move) : (t.step now move).1.Given n r := by
  have hsent := step_keeps (Dispatch.Service.keeps_sent _) (List.prefix_refl t.service.sent) now move
  by_cases hp : t.service.phase = .finished
  · rcases hg with hg | ⟨w, hw, -⟩
    · exact .inl (mem_drop_mono hsent hg)
    · simp [(h.finished hp).workers] at hw
  · obtain ⟨events, hb⟩ := h.orderly.step_books now move
    exact hb.given h.orderly (h.afloat.writable hp) hsent hn hg

/-- A move of the server takes a message one step further or leaves it where it is. -/
theorem Stand.step (h : Stand s frame t) (hk : t.Kept)
    (hn : s.state = .initializing → s.service.dispatcher.pending = [])
    (hsent : s.service.sent <+: t.service.sent) (now : Int) (move : Move) :
    Stand s frame (t.step now move).1 := by
  have hk' := hk.step now move
  have hg : s.Refused frame t → s.Refused frame (t.step now move).1 := by
    intro hg r handler code hf hm hr
    obtain ⟨code', message, hc, hgiven⟩ := hg r handler code hf hm hr
    exact ⟨code', message, hc, hk.given hsent.length_le hgiven now move⟩
  have hleft : ∀ unread, t.service.Left unread → (t.step now move).1.service.Left unread :=
    fun unread hl => step_keeps (Dispatch.Service.keeps_left unread) hl now move
  have hm := hk.moved now move
  generalize (t.step now move).1 = t' at hk' hg hleft hm ⊢
  cases hm with
  | rests hr => exact h.rests hr hleft hg
  | leaves ht => exact h.leaves hk.orderly ht hg
  | takes hp hi hd hr hs =>
    cases h with
    | unread hi' _ hq hp hu hc =>
      obtain ⟨rfl, rfl⟩ : frame = _ ∧ [] = _ := by simpa [hi'] using hi
      exact Receives.stand ⟨hk, hq, hu, hp, hc, hn, hsent, hk', hr, hd, hs⟩
    | unheard _ hl =>
      have hph := hl.phase
      simp [hp] at hph
    | accepted _ _ _ hi' => simp [hi'] at hi
    | queued _ _ hi' => simp [hi'] at hi
    | done hi' => simp [hi'] at hi
  | serves hv =>
    cases h with
    | accepted hf hm hw hi hj hs hu =>
      obtain ⟨rfl, rfl⟩ := (hs _ _).mp hv
      exact .of_served hf hm hw hi hj hs hu
    | unheard _ _ hq => exact absurd hv (hq.requests _ _)
    | unread _ _ hq => exact absurd hv (hq.requests _ _)
    | queued _ _ _ _ hs => exact absurd hv (hs _ _)
    | done _ hq => exact absurd hv (hq.requests _ _)
  | handles ht =>
    obtain ⟨-, rest, hj', -⟩ := Dispatch.Service.takeJob_eq_some ht
    cases h with
    | queued hf hm hi hj hs hu => exact .of_handled ht hf hm hi hj hs hu
    | unheard _ _ hq => simp [hq.jobs] at hj'
    | unread _ _ hq => simp [hq.jobs] at hj'
    | accepted _ _ _ _ hj => simp [hj] at hj'
    | done _ hq => simp [hq.jobs] at hj'

end Server

end Session

end EditorSession
