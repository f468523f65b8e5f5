import EditorSession.Proofs.Dispatch.Notifications
import EditorSession.Proofs.Workspace.Silence
import EditorSession.Session.Server

/-! What a move of a server can do. How far the session has come changes in few places only: with the
opening request, a shutdown, an exit and the end of the run. The notification being handled is ended
by whoever it waits for. -/

namespace EditorSession.Dispatch

variable {H N : Type}

namespace Service

/-- A job is taken when none is being handled; it was the first in the queue. -/
theorem takeJob_eq_some {s service : Service H N} {job : Job N}
    (h : s.takeJob = (service, some job)) :
    s.dispatcher.current = none ∧ ∃ rest, s.dispatcher.jobs = job :: rest ∧
      service = { s with dispatcher := { s.dispatcher with current := some job, jobs := rest } } := by
  unfold takeJob Dispatcher.takeJob at h
  cases hc : s.dispatcher.current with
  | some job' => simp [hc] at h
  | none =>
    cases hj : s.dispatcher.jobs with
    | nil => simp [hc, hj] at h
    | cons first rest =>
      simp only [hc, hj, Prod.mk.injEq, Option.some.injEq] at h
      obtain ⟨rfl, rfl⟩ := h
      exact ⟨rfl, rest, rfl, rfl⟩

/-- The receive loop does not touch the notification being handled. -/
theorem next?_current {s s' : Service H N} {notices : List Log.Notice}
    (h : s.next? = some (s', notices)) : s'.dispatcher.current = s.dispatcher.current := by
  obtain ⟨phase, -, rfl, -⟩ | ⟨readFlaw, -, rfl⟩ | ⟨channel, frame, -, -, rfl⟩ := next?_cases h
  · rfl
  · rfl
  · rw [receive_dispatcher]
    exact (s.dispatcher.receive_queues frame).1

end Service

end EditorSession.Dispatch

namespace EditorSession.Session

open Dispatch (WorkerId Worker Job)

/-- How far a session has come. -/
structure Life where
  state : State
  stage : Stage
  roots : List Bytes
  exitReceived : Bool
  exitCode : Nat

namespace Server

def life (s : Server) : Life := ⟨s.state, s.stage, s.roots, s.exitReceived, s.exitCode⟩

/-- The notification being handled. -/
def current (s : Server) : Option (Job NotificationHandler) := s.service.dispatcher.current

/-- The handler of a request is about to start. -/
structure Serves (s : Server) (id : WorkerId) (worker : Worker RequestHandler) : Prop where
  found : s.service.dispatcher.worker? id = some worker
  undecided : worker.response = none
  unserved : s.wait? id = none

/-- What a move makes of the session. -/
inductive Turn (s : Server) : Move → Life → Prop where
  | still (move) : Turn s move s.life
  | handshake {id worker} (hw : s.Serves id worker) (hh : worker.handler = .handshake)
      (hs : s.state = .initializing) :
      Turn s (.serve id)
        { s.life with
          state := .running
          roots := (Lsp.Client.read worker.request.params).roots }
  | shutdown {id worker} (hw : s.Serves id worker) (hh : worker.handler = .shutdown)
      (hs : s.state = .running) : Turn s (.serve id) { s.life with state := .shuttingDown }
  | exit {service job} (hj : s.service.takeJob = (service, some job)) (hh : job.handler = .exit) :
      Turn s .handle
        { s.life with
          state := .stopped
          exitReceived := true
          exitCode := if s.state = .shuttingDown then 0 else 1 }
  | closing (hs : s.stage = .serving) (hp : s.service.phase = .finished) :
      Turn s .close { s.life with stage := .closing }
  | returned (hs : s.stage = .serving ∧ s.service.phase = .finished ∨ s.stage = .closing) :
      Turn s .close { s.life with state := .stopped, stage := .returned s.exitCode }

/-- What a move does with the notification being handled. -/
inductive Tending (s s' : Server) : Prop where
  | still (hc : s'.chore = s.chore) (hj : s'.current = s.current)
  | begun {job} (hn : s.current = none) (hj : s'.current = some job)
  | ended (hs : s.chore.isSome ∨ s.current = none) (hc : s'.chore = none) (hj : s'.current = none)

variable {s s' : Server}

/-! ### Publications and the end of an operation -/

theorem publishAll_induction {P : Server → Prop}
    (service : ∀ s n, P s → P { s with service := (s.service.notify n).1 })
    (publications : List Lsp.Publication) (h : P s) : P (s.publishAll publications).1 := by
  induction publications generalizing s with
  | nil => exact h
  | cons publication rest ih => exact ih (service s _ h)

/-- The end of an operation concerns a change of the model, or the notification being handled. -/
theorem settleOperation_cases (s : Server) (id : OperationId) (outcome : Document.Outcome) :
    (∃ changes, (s.settleOperation id outcome).1 = { s with changes }) ∨
      s.chore = some (.operation id) ∧ s.settleOperation id outcome = s.finishJob none := by
  unfold settleOperation
  split
  case isTrue => exact .inl ⟨_, rfl⟩
  case isFalse =>
    split
    case isTrue hc => exact .inr ⟨hc, rfl⟩
    case isFalse => exact .inl ⟨s.changes, rfl⟩

/-- A step of the workspace is taken in, its publications are sent, and an operation that it has
finished is settled. -/
theorem progressed_induction {P : Server → Prop} (progress : Workspace.Progress)
    (service : ∀ s n, P s → P { s with service := (s.service.notify n).1 })
    (settle : ∀ s id outcome, P s → P (s.settleOperation id outcome).1)
    (h : P { s with workspace := progress.workspace }) : P (s.progressed progress).1 := by
  have hp := publishAll_induction service progress.publications h
  unfold progressed
  cases progress.finished with
  | none => exact hp
  | some finished => exact settle _ _ _ hp

theorem finishJob_current (s : Server) (failure : Option Rpc.Failure) :
    (s.finishJob failure).1.current = none := s.service.dispatcher.finishJob_current failure

theorem notify_current (s : Server) (n : Rpc.Notification) :
    current { s with service := (s.service.notify n).1 } = s.current := by
  rw [current, Dispatch.Service.notify_dispatcher]
  rfl

/-! ### How far the session has come -/

theorem settleOperation_life (s : Server) (id : OperationId) (outcome : Document.Outcome) :
    (s.settleOperation id outcome).1.life = s.life := by
  rcases s.settleOperation_cases id outcome with ⟨changes, h⟩ | ⟨-, h⟩ <;> rw [h] <;> rfl

theorem progressed_life (s : Server) (progress : Workspace.Progress) :
    (s.progressed progress).1.life = s.life := by
  apply progressed_induction (P := fun s' => s'.life = s.life)
  · intro s' n h
    exact h
  · intro s' id outcome h
    exact (s'.settleOperation_life id outcome).trans h
  · rfl

theorem acceptShutdown_life (s : Server) (id : WorkerId) :
    (s.acceptShutdown id).1.life = { s.life with state := .shuttingDown } := by
  unfold acceptShutdown
  dsimp only
  split <;> rfl

/-- Only a running session accepts a request other than the opening one. -/
theorem permit_eq_ok_iff {state : State} {method : Bytes} :
    state.permit method = .ok () ↔ state = .running := by
  cases state <;> simp [State.permit]

theorem serveFeature_life (s : Server) (id : WorkerId) (feature : Analysis.Feature)
    (params : Option Json) : (s.serveFeature id feature params).1.life = s.life := by
  unfold serveFeature
  split
  case h_1 => rfl
  case h_2 =>
    split
    case h_1 => rfl
    case h_2 => rfl
    case h_3 => rfl

/-- The handler that the request was accepted for is started. -/
theorem Serves.serve_eq {id : WorkerId} {worker : Worker RequestHandler} (h : s.Serves id worker) :
    s.serve id =
      match worker.handler with
      | .handshake => s.serveHandshake id worker.request.params
      | .shutdown => s.serveShutdown id
      | .feature f => s.serveFeature id f worker.request.params := by
  rw [serve, h.found]
  exact if_neg (by simp [h.undecided, h.unserved])

/-- A request starts a handler if it is neither being served nor decided. -/
theorem serve_cases (s : Server) (id : WorkerId) :
    s.serve id = (s, []) ∨ ∃ worker, s.Serves id worker := by
  unfold serve
  cases hw : s.service.dispatcher.worker? id with
  | none => exact .inl rfl
  | some worker =>
    by_cases h : worker.response.isSome = true ∨ (s.wait? id).isSome = true
    · exact .inl (if_pos h)
    · rw [not_or, Bool.not_eq_true, Bool.not_eq_true, Option.isSome_eq_false_iff,
        Option.isSome_eq_false_iff, Option.isNone_iff_eq_none, Option.isNone_iff_eq_none] at h
      exact .inr ⟨worker, hw, h.1, h.2⟩

/-- What starting a handler comes to: the request is decided, or waits. -/
inductive Serving (s : Server) (id : WorkerId) : Server → Prop where
  | concluded (state roots workspace outcome) :
      Serving s id ({ s with state, roots, workspace }.conclude id outcome).1
  | awaits (state workspace wait) : Serving s id ({ s with state, workspace }.await id wait).1

theorem acceptShutdown_serving (s : Server) (id : WorkerId) : s.Serving id (s.acceptShutdown id).1 := by
  unfold acceptShutdown
  dsimp only
  split
  · exact .awaits _ _ _
  · exact .concluded _ _ _ _

theorem Serves.serving {id : WorkerId} {worker : Worker RequestHandler} (h : s.Serves id worker) :
    s.Serving id (s.serve id).1 := by
  have concluded : ∀ outcome, s.Serving id (s.conclude id outcome).1 := fun _ => .concluded _ _ _ _
  rw [h.serve_eq]
  cases worker.handler with
  | handshake =>
    dsimp only
    unfold serveHandshake
    split
    · exact .concluded _ _ _ _
    · exact concluded _
  | shutdown =>
    dsimp only
    unfold serveShutdown
    split
    · exact concluded _
    · exact s.acceptShutdown_serving id
  | feature f =>
    dsimp only
    unfold serveFeature
    split
    · exact concluded _
    · split
      · exact concluded _
      · exact concluded _
      · exact .awaits _ _ _

theorem serve_life (s : Server) (id : WorkerId) : s.Turn (.serve id) (s.serve id).1.life := by
  rcases s.serve_cases id with h | ⟨worker, hw⟩
  · rw [h]
    exact .still _
  · rw [hw.serve_eq]
    cases hh : worker.handler with
    | handshake =>
      dsimp only
      unfold serveHandshake
      split
      case isTrue hs => exact .handshake hw hh hs
      case isFalse => exact .still _
    | shutdown =>
      dsimp only
      unfold serveShutdown
      split
      case h_1 => exact .still _
      case h_2 hs =>
        rw [acceptShutdown_life]
        exact .shutdown hw hh (permit_eq_ok_iff.mp hs)
    | feature f =>
      dsimp only
      rw [serveFeature_life]
      exact .still _

theorem operate_life (s : Server) (operation : Document.Operation) :
    (s.operate operation).1.life = s.life := progressed_life _ _

theorem handleDocument_life (s : Server) (handler : NotificationHandler) (params : Option Json) :
    (s.handleDocument handler params).1.life = s.life := by
  unfold handleDocument
  split
  case isTrue =>
    split
    case h_1 => rfl
    case h_2 => rfl
    case h_3 => exact operate_life _ _
  case isFalse => rfl

/-- The next notification is taken from the queue and handled. -/
theorem handle_eq {service : Dispatch.Service RequestHandler NotificationHandler}
    {job : Job NotificationHandler} (hj : s.service.takeJob = (service, some job)) :
    s.handle =
      match job.handler with
      | .initialized =>
        ({ s with service, chore := some (.opening s.roots) }, [Notice.opening s.roots])
      | .exit => ({ s with service } : Server).handleExit
      | handler => ({ s with service } : Server).handleDocument handler job.notification.params := by
  obtain ⟨handler, notification⟩ := job
  cases handler <;> simp only [handle, hj]

theorem handle_cases (s : Server) :
    s.handle = (s, []) ∨ ∃ service job, s.service.takeJob = (service, some job) := by
  cases hj : s.service.takeJob with
  | mk service job =>
    cases job with
    | none =>
      left
      unfold handle
      rw [hj]
    | some job => exact .inr ⟨service, job, rfl⟩

theorem handle_life (s : Server) : s.Turn .handle s.handle.1.life := by
  rcases s.handle_cases with h | ⟨service, job, hj⟩
  · rw [h]
    exact .still _
  · rw [handle_eq hj]
    cases hh : job.handler with
    | initialized => exact .still _
    | exit =>
      have hx := Turn.exit hj hh
      by_cases hs : s.state = .shuttingDown <;> simpa [handleExit, Server.exit, saying, life,
        requestStop, Server.finishJob, served, hs] using hx
    | didOpen | didChange | didClose | didSave =>
      dsimp only
      rw [handleDocument_life]
      exact .still _

theorem close_life (s : Server) : s.Turn .close s.close.1.life := by
  unfold close
  split
  case h_1 hs =>
    split
    case isTrue hp =>
      dsimp only
      split
      case isTrue => exact .closing hs hp
      case isFalse => exact .returned (.inl ⟨hs, hp⟩)
    case isFalse => exact .still _
  case h_2 hs =>
    split
    case isTrue => exact .returned (.inr hs)
    case isFalse => exact .still _
  case h_3 => exact .still _
  case h_4 => exact .still _

/-- Every move leaves the session as it is, or is one of the few that do not. -/
theorem step_life (s : Server) (now : Int) (move : Move) : s.Turn move (s.step now move).1.life := by
  cases move with
  | receive =>
    simp only [step]
    split <;> exact .still _
  | serve id => exact s.serve_life id
  | answer id answers =>
    simp only [step, answer]
    split <;> exact .still _
  | calm id =>
    simp only [step, calm]
    split
    case h_1 => split <;> exact .still _
    case h_2 => exact .still _
  | deliver id => exact .still _
  | handle => exact s.handle_life
  | opened =>
    simp only [step, opened]
    split <;> exact .still _
  | modelChanged =>
    simp only [step, modelChanged, progressed_life]
    exact .still _
  | resolve id answer =>
    simp only [step, progressed_life]
    exact .still _
  | tell id =>
    simp only [step, progressed_life]
    exact .still _
  | beginComputation =>
    simp only [step, progressed_life]
    exact .still _
  | diagnosed id outcome =>
    simp only [step, progressed_life]
    exact .still _
  | fire =>
    simp only [step, progressed_life]
    exact .still _
  | close => exact s.close_life

/-! ### The notification being handled -/

/-- The end of an operation ends the notification that waits for it. -/
theorem Tending.settle (h : s.Tending s') (id : OperationId) (outcome : Document.Outcome) :
    s.Tending (s'.settleOperation id outcome).1 := by
  rcases s'.settleOperation_cases id outcome with ⟨changes, hs⟩ | ⟨hc, hs⟩
  · rw [hs]
    cases h with
    | still hc hj => exact .still hc hj
    | begun hn hj => exact .begun hn hj
    | ended ho hc hj => exact .ended ho hc hj
  · rw [hs]
    refine .ended ?_ rfl (finishJob_current _ _)
    cases h with
    | still hc' => exact .inl (by rw [← hc', hc]; rfl)
    | begun hn => exact .inr hn
    | ended _ hc' => simp [hc] at hc'

theorem Tending.progressed (h : s.Tending s') (progress : Workspace.Progress) :
    s.Tending (s'.progressed progress).1 := by
  apply progressed_induction (P := s.Tending)
  · intro s'' n h
    cases h with
    | still hc hj => exact .still hc ((notify_current s'' n).trans hj)
    | begun hn hj => exact .begun hn ((notify_current s'' n).trans hj)
    | ended ho hc hj => exact .ended ho hc ((notify_current s'' n).trans hj)
  · exact fun _ id outcome h => h.settle id outcome
  · cases h with
    | still hc hj => exact .still hc hj
    | begun hn hj => exact .begun hn hj
    | ended ho hc hj => exact .ended ho hc hj

theorem conclude_tending (s : Server) (id : WorkerId) (outcome : Except Rpc.Failure Json) :
    s.Tending (s.conclude id outcome).1 :=
  .still rfl (s.service.dispatcher.conclude_sameJobs id outcome).current

theorem Serving.tending {id : WorkerId} (h : s.Serving id s') : s.Tending s' := by
  cases h with
  | concluded => exact .still rfl (s.service.dispatcher.conclude_sameJobs id _).current
  | awaits => exact .still rfl rfl

theorem serve_tending (s : Server) (id : WorkerId) : s.Tending (s.serve id).1 := by
  rcases s.serve_cases id with h | ⟨worker, hw⟩
  · rw [h]
    exact .still rfl rfl
  · exact hw.serving.tending

theorem handle_tending (s : Server) : s.Tending s.handle.1 := by
  rcases s.handle_cases with h | ⟨service, job, hj⟩
  · rw [h]
    exact .still rfl rfl
  · rw [handle_eq hj]
    obtain ⟨hn, rest, -, rfl⟩ := Dispatch.Service.takeJob_eq_some hj
    cases job.handler with
    | initialized => exact .begun hn rfl
    | exit => exact .ended (.inr hn) rfl rfl
    | didOpen | didChange | didClose | didSave =>
      dsimp only
      unfold handleDocument
      split
      · split
        · exact .ended (.inr hn) rfl rfl
        · exact .ended (.inr hn) rfl rfl
        · exact Tending.progressed (.begun hn rfl) _
      · exact .ended (.inr hn) rfl rfl

/-- A move leaves the notification being handled alone, takes up the next one, or ends the one that
waits for it. -/
theorem step_tending (s : Server) (now : Int) (move : Move) : s.Tending (s.step now move).1 := by
  have hrefl : s.Tending s := .still rfl rfl
  cases move with
  | receive =>
    simp only [step]
    split
    case h_1 next hn => exact .still rfl (Dispatch.Service.next?_current hn)
    case h_2 => exact hrefl
  | serve id => exact s.serve_tending id
  | answer id answers =>
    simp only [step, answer]
    split
    · exact s.conclude_tending id _
    · exact hrefl
  | calm id =>
    simp only [step, calm]
    split
    · split
      · exact s.conclude_tending id _
      · exact hrefl
    · exact hrefl
  | deliver id =>
    refine .still rfl ?_
    rw [current, step, served, Dispatch.Service.deliver_dispatcher]
    exact (s.service.dispatcher.takeResponse_sameJobs id).current
  | handle => exact s.handle_tending
  | opened =>
    simp only [step, opened]
    split
    case h_1 roots hc => exact .ended (.inl (by rw [hc]; rfl)) rfl (finishJob_current _ _)
    case h_2 => exact hrefl
  | modelChanged =>
    have hs : s.Tending { s with changes := s.changes ++ [s.workspace.begun] } := .still rfl rfl
    exact hs.progressed _
  | resolve id answer => exact hrefl.progressed _
  | tell id => exact hrefl.progressed _
  | beginComputation => exact hrefl.progressed _
  | diagnosed id outcome => exact hrefl.progressed _
  | fire => exact hrefl.progressed _
  | close =>
    simp only [step, close]
    split
    · split
      · split <;> exact .still rfl rfl
      · exact hrefl
    · split
      · exact .still rfl rfl
      · exact hrefl
    · exact hrefl
    · exact hrefl

/-! ### The service -/

/-- What the workspace publishes in a move. -/
def published (s : Server) (now : Int) : Move → List Lsp.Publication
  | .tell id => (s.workspace.tell now id).publications
  | .beginComputation => s.workspace.beginComputation.publications
  | .diagnosed id outcome => (s.workspace.diagnosed id outcome).publications
  | _ => []

/-- The move handles an exit. -/
def Leaves (s : Server) (move : Move) : Prop :=
  move = .handle ∧ ∃ service job, s.service.takeJob = (service, some job) ∧ job.handler = .exit

section

variable {P : Dispatch.Service RequestHandler NotificationHandler → Prop}

/-- Publications are notifications; without any, the service need not bear one. -/
def Announces (P : Dispatch.Service RequestHandler NotificationHandler → Prop)
    (publications : List Lsp.Publication) : Prop :=
  publications = [] ∨ ∀ s n, P s → P (s.notify n).1

theorem publishAll_bears {publications : List Lsp.Publication} (hn : Announces P publications)
    (h : P s.service) : P (s.publishAll publications).1.service := by
  rcases hn with rfl | hn
  · exact h
  · exact publishAll_induction (P := fun s => P s.service) (fun s n h => hn _ n h) publications h

theorem close_bears (h : P s.service)
    (hc : ∀ s, P s → P { s with channel := s.channel.close Dispatch.Service.ownSide }) :
    P s.close.1.service := by
  unfold close
  split
  · split
    · dsimp only
      split
      · exact h
      · exact hc _ h
    · exact h
  · split
    · exact hc _ h
    · exact h
  · exact h
  · exact h

variable (hP : Dispatch.Service.Bears P)

include hP

theorem settleOperation_bears (h : P s.service) (id : OperationId) (outcome : Document.Outcome) :
    P (s.settleOperation id outcome).1.service := by
  rcases s.settleOperation_cases id outcome with ⟨changes, hs⟩ | ⟨-, hs⟩
  · rw [hs]
    exact h
  · rw [hs]
    exact hP.finishJob _ none h

theorem progressed_bears {progress : Workspace.Progress} (hn : Announces P progress.publications)
    (h : P s.service) : P (s.progressed progress).1.service := by
  have hp : P ({ s with workspace := progress.workspace }.publishAll
      progress.publications).1.service := publishAll_bears hn h
  unfold progressed
  cases progress.finished with
  | none => exact hp
  | some finished => exact settleOperation_bears hP hp _ _

theorem Serving.bears {id : WorkerId} (hs : s.Serving id s') (h : P s.service) : P s'.service := by
  cases hs with
  | concluded => exact hP.conclude _ id _ h
  | awaits => exact h

theorem exit_bears (h : P s.service) (hx : ∀ s, P s → P { s with stopRequested := true })
    (clean : Bool) : P (s.exit clean).1.service :=
  hP.finishJob _ none (hx _ h)

theorem serve_bears (h : P s.service) (id : WorkerId) : P (s.serve id).1.service := by
  rcases s.serve_cases id with hs | ⟨worker, hw⟩
  · rw [hs]
    exact h
  · exact hw.serving.bears hP h

/-- What is taken from the queue is handled by a service that has it in hand. -/
theorem handled_bears {service : Dispatch.Service RequestHandler NotificationHandler}
    {job : Job NotificationHandler} (hj : s.service.takeJob = (service, some job)) (h : P service)
    (hx : job.handler = .exit → ∀ s, P s → P { s with stopRequested := true }) :
    P s.handle.1.service := by
  rw [handle_eq hj]
  cases hh : job.handler with
  | initialized => exact h
  | exit => exact exit_bears hP h (hx hh) _
  | didOpen | didChange | didClose | didSave =>
    dsimp only
    unfold handleDocument
    split
    · split
      · exact hP.finishJob _ _ h
      · exact hP.finishJob _ _ h
      · exact progressed_bears hP (.inl (Workspace.advance_publications _ _ _)) h
    · exact hP.finishJob _ _ h

theorem handle_bears (h : P s.service) (ht : P s.service.takeJob.1)
    (hx : s.Leaves .handle → ∀ s, P s → P { s with stopRequested := true }) :
    P s.handle.1.service := by
  rcases s.handle_cases with hs | ⟨service, job, hj⟩
  · rw [hs]
    exact h
  · rw [hj] at ht
    exact handled_bears hP hj ht fun hh => hx ⟨rfl, service, job, hj, hh⟩

/-- Beside what its handlers do, a server receives, takes notifications up, publishes, asks the loop to
stop and closes the channel, each in moves of its own. -/
theorem step_bears (h : P s.service) (now : Int) (move : Move)
    (hl : move = .receive → ∀ service notices,
      s.service.next? = some (service, notices) → P service)
    (ht : move = .handle → P s.service.takeJob.1) (hn : Announces P (s.published now move))
    (hx : s.Leaves move → ∀ s, P s → P { s with stopRequested := true })
    (hc : move = .close → ∀ s, P s →
      P { s with channel := s.channel.close Dispatch.Service.ownSide }) :
    P (s.step now move).1.service := by
  cases move with
  | receive =>
    simp only [step]
    split
    case h_1 next hs => exact hl rfl next.1 next.2 hs
    case h_2 => exact h
  | serve id => exact serve_bears hP h id
  | answer id answers =>
    simp only [step, answer]
    split
    · exact hP.conclude _ id _ h
    · exact h
  | calm id =>
    simp only [step, calm]
    split
    · split
      · exact hP.conclude _ id _ h
      · exact h
    · exact h
  | deliver id => exact hP.deliver _ id h
  | handle => exact handle_bears hP h (ht rfl) hx
  | opened =>
    simp only [step, opened]
    split
    · exact hP.finishJob _ none h
    · exact h
  | modelChanged =>
    exact progressed_bears (s := { s with changes := s.changes ++ [s.workspace.begun] }) hP
      (.inl (Workspace.advance_publications _ _ _)) h
  | resolve id answer => exact progressed_bears hP (.inl (Workspace.answer_publications _ _ _)) h
  | tell id => exact progressed_bears hP hn h
  | beginComputation => exact progressed_bears hP hn h
  | diagnosed id outcome => exact progressed_bears hP hn h
  | fire => exact progressed_bears hP (.inl rfl) h
  | close => exact close_bears h (hc rfl)

end

theorem step_keeps {P : Dispatch.Service RequestHandler NotificationHandler → Prop}
    (hP : Dispatch.Service.Keeps P) (h : P s.service) (now : Int) (move : Move) :
    P (s.step now move).1.service :=
  step_bears hP.toBears h now move (fun _ _ _ hs => hP.loop _ _ _ hs h) (fun _ => hP.takeJob _ h)
    (.inr hP.notify) (fun _ => hP.stop) (fun _ => hP.close)

end Server

end EditorSession.Session
