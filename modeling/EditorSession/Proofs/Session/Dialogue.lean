import EditorSession.Proofs.Session.Effects

/-! Sessions whose client is patient: it sends a message only when everything that it has sent before
was handled, or waits for the engine or the project model. The server takes its moves at any time and
in any order. -/

namespace EditorSession.Dispatch

variable {H N : Type}

namespace Dispatcher

/-- The handlers are the same, and workers can be started as before. -/
structure SameHandlers (d d' : Dispatcher H N) : Prop where
  requests : d'.requestHandlers = d.requestHandlers
  notifications : d'.notificationHandlers = d.notificationHandlers
  startable : d.workerFlaw = none → d'.workerFlaw = none

variable (d : Dispatcher H N)

theorem receive_sameHandlers (m : Incoming) : d.SameHandlers (d.receive m).1 := by
  cases m with
  | request r =>
    rw [receive, receiveRequest]
    split
    · exact ⟨rfl, rfl, fun h => h⟩
    · split
      · exact ⟨rfl, rfl, fun h => h⟩
      · split
        · exact ⟨rfl, rfl, fun h => h⟩
        · exact ⟨rfl, rfl, fun _ => rfl⟩
  | cancel target =>
    cases target with
    | none => exact ⟨rfl, rfl, fun h => h⟩
    | some id =>
      rw [receive, Dispatcher.cancel]
      split <;> exact ⟨rfl, rfl, fun h => h⟩
  | notification n =>
    rw [receive, receiveNotification]
    split <;> exact ⟨rfl, rfl, fun h => h⟩
  | _ => exact ⟨rfl, rfl, fun h => h⟩

theorem conclude_sameHandlers (id : WorkerId) (outcome : Except Rpc.Failure Json) :
    d.SameHandlers (d.conclude id outcome).1 := by
  unfold conclude
  split <;> exact ⟨rfl, rfl, fun h => h⟩

theorem takeResponse_sameHandlers (id : WorkerId) : d.SameHandlers (d.takeResponse id).1 := by
  unfold takeResponse
  split <;> exact ⟨rfl, rfl, fun h => h⟩

theorem takeJob_sameHandlers : d.SameHandlers d.takeJob.1 := by
  unfold takeJob
  split <;> exact ⟨rfl, rfl, fun h => h⟩

theorem finishJob_sameHandlers (failure : Option Rpc.Failure) :
    d.SameHandlers (d.finishJob failure).1 := by
  unfold finishJob
  split <;> exact ⟨rfl, rfl, fun h => h⟩

end Dispatcher

namespace Service

variable {s s' : Service H N}

/-- The handlers are these, and workers can be started. -/
structure Handles (requestHandlers : Table H) (notificationHandlers : Table N)
    (s : Service H N) : Prop where
  requests : s.dispatcher.requestHandlers = requestHandlers
  notifications : s.dispatcher.notificationHandlers = notificationHandlers
  startable : s.dispatcher.workerFlaw = none

theorem Handles.of_same {requestHandlers : Table H} {notificationHandlers : Table N}
    (h : Handles requestHandlers notificationHandlers s)
    (hd : s.dispatcher.SameHandlers s'.dispatcher) :
    Handles requestHandlers notificationHandlers s' :=
  ⟨hd.requests.trans h.requests, hd.notifications.trans h.notifications, hd.startable h.startable⟩

theorem keeps_handles (requestHandlers : Table H) (notificationHandlers : Table N) :
    Keeps (Handles requestHandlers notificationHandlers) where
  conclude s id outcome h := h.of_same (s.dispatcher.conclude_sameHandlers id outcome)
  deliver s id h := h.of_same (s.deliver_dispatcher id ▸ s.dispatcher.takeResponse_sameHandlers id)
  finishJob s failure h := h.of_same (s.dispatcher.finishJob_sameHandlers failure)
  loop s s' notices hn h := by
    obtain ⟨phase, -, rfl, -⟩ | ⟨readFlaw, -, rfl⟩ | ⟨channel, frame, -, -, rfl⟩ := next?_cases hn
    · exact ⟨h.requests, h.notifications, h.startable⟩
    · exact ⟨h.requests, h.notifications, h.startable⟩
    · refine h.of_same ?_
      rw [receive_dispatcher]
      exact s.dispatcher.receive_sameHandlers _
  takeJob s h := h.of_same s.dispatcher.takeJob_sameHandlers
  notify s n h := h.of_same (s.notify_dispatcher n ▸ ⟨rfl, rfl, fun h => h⟩)
  stop _ h := ⟨h.requests, h.notifications, h.startable⟩
  close _ h := ⟨h.requests, h.notifications, h.startable⟩

theorem bears_open : Bears (Open : Service H N → Prop) where
  conclude s id outcome h := ((bears_beside s).conclude s id outcome (.refl s)).isOpen h
  deliver s id h := ((bears_beside s).deliver s id (.refl s)).isOpen h
  finishJob s failure h := ((bears_beside s).finishJob s failure (.refl s)).isOpen h

end Service

end EditorSession.Dispatch

namespace EditorSession.Session

open Dispatch (WorkerId Worker)

namespace Server

/-- A server that was started, with a client at the other end of its channel. -/
def attended (options : Diagnostics.Options) (session : Bytes) : Server :=
  let s := ((create options session).run none).1
  { s with service := { s.service with channel := s.service.channel.start .left } }

/-- What was sent is received, unless the loop was left, and handled, unless it waits for the engine or
the project model. A loop that was asked to stop need not have been left yet. -/
structure Settled (s : Server) : Prop where
  loop : s.service.phase = .draining ∨ s.service.phase = .finished ∨ s.service.inbox = []
  jobs : s.service.dispatcher.jobs = []
  requests : ∀ w ∈ s.service.dispatcher.workers, w.response = none ∧ (s.wait? w.id).isSome

/-- The client sends a message. -/
inductive Sends (s : Server) (frame : Bytes) : Server → Prop where
  | intro {channel} (h : s.service.channel.write .left frame = .ok channel) :
      Sends s frame { s with service := { s.service with channel } }

/-- The server takes any number of moves. -/
inductive Leads (s : Server) : Server → Prop where
  | refl : Leads s s
  | step {t} (h : Leads s t) (now move) : Leads s (t.step now move).1

end Server

/-- A session up to some moment. -/
inductive Dialogue (options : Diagnostics.Options) (session : Bytes) : Server → Prop where
  | start : Dialogue options session (.attended options session)
  | step {s} (h : Dialogue options session s) (now move) :
      Dialogue options session (s.step now move).1
  | send {s frame t} (h : Dialogue options session s) (hs : s.Settled) (ht : s.Sends frame t) :
      Dialogue options session t

namespace Server

variable {s t : Server} {frame : Bytes}

/-- What holds of a server that no one but the client leaves. -/
structure Kept (s : Server) : Prop where
  orderly : s.Orderly
  handles : s.service.Handles requestHandlers notificationHandlers
  afloat : s.service.Afloat
  finished : s.service.phase = .finished → s.service.Over
  ended : s.stage = .serving ∨ s.service.phase = .finished
  isOpen : s.state ≠ .stopped → s.service.Open ∧ s.stage = .serving
  leaving : s.state = .stopped → s.service.Leaving
  silent : s.state = .initializing ∨ s.state = .shuttingDown → s.workspace.Silent
  unserved : s.state = .initializing → s.waits = []

/-- An exit that is handled stops the session. -/
theorem Leaves.step {move : Move} (h : s.Leaves move) (now : Int) :
    (s.step now move).1.state = .stopped ∧ (s.step now move).1.service.stopRequested = true := by
  obtain ⟨rfl, service, job, hj, hh⟩ := h
  have hs : s.handle = ({ s with service } : Server).handleExit := by
    simp [handle, hj, hh]
  rw [Server.step, hs]
  exact ⟨rfl, rfl⟩

/-- A session that has stopped stays so. -/
theorem Turn.stopped {move : Move} {life : Life} (h : s.Turn move life) (hs : s.state = .stopped) :
    life.state = .stopped := by
  cases h with
  | still => exact hs
  | handshake _ _ hi => simp [hs] at hi
  | shutdown _ _ hr => simp [hs] at hr
  | exit => rfl
  | closing => exact hs
  | returned => rfl

theorem step_stopped (hs : s.state = .stopped) (now : Int) (move : Move) :
    (s.step now move).1.state = .stopped :=
  (s.step_life now move).stopped hs

/-- A session does not close while its loop reads on. -/
theorem close_of_open (ho : s.service.Open) (hs : s.stage = .serving) : s.close = (s, []) := by
  have hp : s.service.phase ≠ .finished := by
    intro hp
    have hph := ho.phase
    simp [hp] at hph
  simp [close, hs, hp]

theorem step_open (ho : s.service.Open) (hg : s.stage = .serving) (now : Int) (move : Move)
    (hl : ¬s.Leaves move) : (s.step now move).1.service.Open := by
  by_cases hc : move = .close
  · rw [hc, step, close_of_open ho hg]
    exact ho
  · exact step_bears Dispatch.Service.bears_open ho now move
      (fun _ _ _ hn => ((Dispatch.Service.Afloat.of_open ho).goes hn).isOpen ho)
      (fun _ => (Dispatch.Service.beside_takeJob _).isOpen ho)
      (.inr fun s n h => ((Dispatch.Service.Beside.refl s).notify n).isOpen h)
      (fun h => absurd h hl) (fun h => absurd h hc)

namespace Kept

theorem attended (options : Diagnostics.Options) (session : Bytes) :
    (attended options session).Kept where
  orderly := ⟨.of_empty rfl rfl, by simp [Server.attended, create, run, saying, served]⟩
  handles := ⟨rfl, rfl, rfl⟩
  afloat := by
    refine ⟨fun _ side => ?_, fun _ _ => rfl, fun _ => rfl⟩
    cases side <;> rfl
  finished hp := by cases hp
  ended := .inl rfl
  isOpen _ := by
    refine ⟨⟨.inl rfl, rfl, rfl, ?_, fun _ => rfl⟩, rfl⟩
    intro side
    cases side <;> rfl
  leaving h := by cases h
  silent _ := .inr ⟨rfl, rfl, rfl, rfl⟩
  unserved _ := rfl

/-- A session goes on serving until it is left. -/
theorem serving (h : s.Kept) (now : Int) (move : Move)
    (hs : (s.step now move).1.state ≠ .stopped) :
    (s.step now move).1.service.Open ∧ (s.step now move).1.stage = .serving := by
  obtain ⟨ho, hg⟩ := h.isOpen fun hr => hs (step_stopped hr now move)
  refine ⟨step_open ho hg now move fun hl => hs (hl.step now).1, ?_⟩
  by_cases hc : move = .close
  · rw [hc, Server.step, close_of_open ho hg]
    exact hg
  · have ht := s.step_life now move
    generalize hl : (s.step now move).1.life = life at ht
    refine (congrArg Life.stage hl).trans ?_
    cases ht with
    | closing => exact absurd rfl hc
    | returned => exact absurd rfl hc
    | _ => exact hg

/-- A session stops with an exit, which asks the loop to stop. -/
theorem stops (h : s.Kept) (now : Int) (move : Move)
    (hs : (s.step now move).1.state = .stopped) : (s.step now move).1.service.Leaving := by
  by_cases hr : s.state = .stopped
  · exact step_keeps Dispatch.Service.keeps_leaving (h.leaving hr) now move
  · obtain ⟨ho, hg⟩ := h.isOpen hr
    have ht := s.step_life now move
    generalize hl : (s.step now move).1.life = life at ht
    have hstate : life.state = .stopped := (congrArg Life.state hl).symm.trans hs
    cases ht with
    | exit hj hh => exact .inl (Leaves.step ⟨rfl, _, _, hj, hh⟩ now).2
    | returned =>
      have hc : (s.step now .close).1.state = s.state := by
        rw [Server.step, close_of_open ho hg]
      exact absurd (hc.symm.trans hs) hr
    | still => exact absurd hstate hr
    | handshake => cases hstate
    | shutdown => cases hstate
    | closing => exact absurd hstate hr

/-- What began the session, or ended it, is seen in its state. -/
theorem early (now : Int) (move : Move)
    (hs : (s.step now move).1.state = .initializing) : s.state = .initializing := by
  have ht := s.step_life now move
  generalize hl : (s.step now move).1.life = life at ht
  have hstate : life.state = .initializing := (congrArg Life.state hl).symm.trans hs
  cases ht with
  | still => exact hstate
  | closing => exact hstate
  | handshake => cases hstate
  | shutdown => cases hstate
  | exit => cases hstate
  | returned => cases hstate

theorem step_silent (h : s.Kept) (now : Int) (move : Move)
    (hs : (s.step now move).1.state = .initializing ∨ (s.step now move).1.state = .shuttingDown) :
    (s.step now move).1.workspace.Silent := by
  have ht := s.step_life now move
  have hw := s.step_work now move
  generalize hl : (s.step now move).1.life = life at ht
  have hstate : life.state = .initializing ∨ life.state = .shuttingDown :=
    hs.imp (congrArg Life.state hl).symm.trans (congrArg Life.state hl).symm.trans
  have still : s.state = .initializing ∨ s.state = .shuttingDown →
      (s.step now move).1.workspace.Silent := by
    intro hs
    refine (hw.silent (h.silent hs) ?_).1
    intro _ hr
    simp [hr] at hs
  cases ht with
  | still => exact still hstate
  | closing => exact still hstate
  | @shutdown id worker hsv hh hr =>
    refine .inl ?_
    rw [Server.step, hsv.serve_eq, hh]
    simp [serveShutdown, hr, State.permit, acceptShutdown_workspace,
      Diagnostics.Pipeline.shutdown_shut]
  | handshake => simp at hstate
  | exit => simp at hstate
  | returned => simp at hstate

theorem step_unserved (h : s.Kept) (now : Int) (move : Move)
    (hs : (s.step now move).1.state = .initializing) : (s.step now move).1.waits = [] := by
  have hi := early now move hs
  rw [List.eq_nil_iff_forall_not_mem]
  intro entry hm
  rcases s.step_waits now move entry hm with hm | ⟨hr, -⟩
  · simp [h.unserved hi] at hm
  · simp [hi] at hr

/-- A loop that has finished stays so. -/
theorem step_finished (h : s.Kept) (hp : s.service.phase = .finished) (now : Int) (move : Move) :
    (s.step now move).1.service.phase = .finished :=
  (step_keeps Dispatch.Service.keeps_over (h.finished hp) now move).phase

/-- The channel is closed only when the loop has finished. -/
theorem step_afloat (h : s.Kept) (now : Int) (move : Move) : (s.step now move).1.service.Afloat := by
  by_cases hp : s.service.phase = .finished
  · exact .of_finished (h.step_finished hp now move)
  by_cases hc : move = .close
  · have hs := h.ended.resolve_right hp
    have hn : s.close = (s, []) := by simp [close, hs, hp]
    rw [hc, Server.step, hn]
    exact h.afloat
  · exact step_bears Dispatch.Service.bears_afloat h.afloat now move
      (fun _ _ _ hn => (h.afloat.goes hn).afloat h.afloat)
      (fun _ => h.afloat.of_beside (Dispatch.Service.beside_takeJob _))
      (.inr fun s n h => h.of_beside ((Dispatch.Service.Beside.refl s).notify n))
      (fun _ _ h => ⟨h.connected, h.closed, h.flaw⟩) (fun h => absurd h hc)

theorem step_ended (h : s.Kept) (now : Int) (move : Move) :
    (s.step now move).1.stage = .serving ∨ (s.step now move).1.service.phase = .finished := by
  by_cases hp : s.service.phase = .finished
  · exact .inr (h.step_finished hp now move)
  left
  have hs := h.ended.resolve_right hp
  have ht := s.step_life now move
  generalize hl : (s.step now move).1.life = life at ht
  refine (congrArg Life.stage hl).trans ?_
  cases ht with
  | closing _ hp' => exact absurd hp' hp
  | returned hr =>
    rcases hr with ⟨-, hp'⟩ | hc
    · exact absurd hp' hp
    · simp [hs] at hc
  | _ => exact hs

theorem step (h : s.Kept) (now : Int) (move : Move) : (s.step now move).1.Kept where
  orderly := h.orderly.step now move
  handles := step_keeps (Dispatch.Service.keeps_handles _ _) h.handles now move
  afloat := h.step_afloat now move
  finished := step_keeps Dispatch.Service.keeps_finished h.finished now move
  ended := h.step_ended now move
  isOpen := h.serving now move
  leaving := h.stops now move
  silent := h.step_silent now move
  unserved := h.step_unserved now move

theorem send (h : s.Kept) (hs : s.Sends frame t) : t.Kept := by
  obtain @⟨channel, hw⟩ := hs
  obtain ⟨hc, -, hf⟩ := Channel.Duplex.write_ok hw
  refine ⟨⟨h.orderly.sound, h.orderly.waiting⟩,
    ⟨h.handles.requests, h.handles.notifications, h.handles.startable⟩,
    ⟨fun hp side => hc ▸ h.afloat.connected hp side,
      fun hp side => (hf side).trans (h.afloat.closed hp side), h.afloat.flaw⟩,
    fun hp => ⟨hp, (h.finished hp).workers, (h.finished hp).current, (h.finished hp).jobs⟩, h.ended,
    ?_, h.leaving, h.silent, h.unserved⟩
  intro hr
  obtain ⟨ho, hg⟩ := h.isOpen hr
  exact ⟨⟨ho.phase, ho.stop, ho.flaw, fun side => hc ▸ ho.connected side,
    fun side => (hf side).trans (ho.closed side)⟩, hg⟩

end Kept

end Server

theorem Dialogue.kept {options : Diagnostics.Options} {session : Bytes} {s : Server}
    (h : Dialogue options session s) : s.Kept := by
  induction h with
  | start => exact .attended options session
  | step _ now move ih => exact ih.step now move
  | send _ _ ht ih => exact ih.send ht

end EditorSession.Session
