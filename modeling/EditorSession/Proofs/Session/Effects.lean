import EditorSession.Proofs.Dispatch.Wire
import EditorSession.Proofs.Session.Requests

/-! What a move of a server touches besides its requests: the channel, the loop and the workspace. -/

namespace EditorSession.Channel.Duplex

/-- Writing touches nothing but the messages at the other side. -/
theorem write_ok {d d' : Duplex} {side : Side} {payload : Bytes} (h : d.write side payload = .ok d') :
    d'.connected = d.connected ∧ d'.inbox side = d.inbox side ∧
      ∀ other, (d'.inbox other).closed = (d.inbox other).closed := by
  obtain ⟨-, hc, rfl⟩ := write_ok_iff.mp h
  refine ⟨rfl, inbox_of_write h, fun other => ?_⟩
  by_cases ho : other = side.other
  · rw [ho, inbox_setInbox_self, hc]
  · rw [inbox_setInbox_of_ne _ _ ho]

theorem write_messages {d d' : Duplex} {side : Side} {payload : Bytes}
    (h : d.write side payload = .ok d') :
    (d'.inbox side.other).messages = (d.inbox side.other).messages ++ [payload] := by
  obtain ⟨-, -, rfl⟩ := write_ok_iff.mp h
  rw [inbox_setInbox_self]

end EditorSession.Channel.Duplex

namespace EditorSession.Dispatch

variable {H N : Type}

namespace Service

variable {s s' : Service H N}

/-- The messages that are still to be received. -/
def inbox (s : Service H N) : List Bytes := (s.channel.inbox ownSide).messages

/-! ### A loop that reads on -/

/-- The loop reads on, and the channel is open. -/
structure Open (s : Service H N) : Prop where
  phase : s.phase = .polling ∨ s.phase = .reading
  stop : s.stopRequested = false
  flaw : s.readFlaw = none
  connected : ∀ side, s.channel.connected side = true
  closed : ∀ side, (s.channel.inbox side).closed = false

/-- The loop and what is to be received are as they were, and the channel is as open as it was. -/
structure Beside (s s' : Service H N) : Prop where
  phase : s'.phase = s.phase
  stop : s'.stopRequested = s.stopRequested
  flaw : s'.readFlaw = s.readFlaw
  connected : s'.channel.connected = s.channel.connected
  inbox : s'.channel.inbox ownSide = s.channel.inbox ownSide
  closed : ∀ side, (s'.channel.inbox side).closed = (s.channel.inbox side).closed

theorem Beside.refl (s : Service H N) : s.Beside s := ⟨rfl, rfl, rfl, rfl, rfl, fun _ => rfl⟩

theorem Beside.isOpen (h : s.Beside s') (ho : s.Open) : s'.Open where
  phase := h.phase ▸ ho.phase
  stop := h.stop.trans ho.stop
  flaw := h.flaw.trans ho.flaw
  connected side := h.connected ▸ ho.connected side
  closed side := (h.closed side).trans (ho.closed side)

theorem Beside.inbox_eq (h : s.Beside s') : s'.inbox = s.inbox := by
  rw [Service.inbox, h.inbox]
  rfl

theorem Beside.withDispatcher (h : s.Beside s') (dispatcher : Dispatcher H N) :
    s.Beside { s' with dispatcher } :=
  ⟨h.phase, h.stop, h.flaw, h.connected, h.inbox, h.closed⟩

theorem Beside.respond (h : s.Beside s') (r : Rpc.Response) : s.Beside (s'.respond r).1 := by
  unfold Service.respond
  split
  case h_1 channel hw =>
    obtain ⟨hc, hi, hf⟩ := Channel.Duplex.write_ok hw
    exact ⟨h.phase, h.stop, h.flaw, hc.trans h.connected, hi.trans h.inbox,
      fun side => (hf side).trans (h.closed side)⟩
  case h_2 => exact h

theorem Beside.notify (h : s.Beside s') (n : Rpc.Notification) : s.Beside (s'.notify n).1 := by
  unfold Service.notify
  split
  case h_1 channel hw =>
    obtain ⟨hc, hi, hf⟩ := Channel.Duplex.write_ok hw
    exact ⟨h.phase, h.stop, h.flaw, hc.trans h.connected, hi.trans h.inbox,
      fun side => (hf side).trans (h.closed side)⟩
  case h_2 => exact h

theorem bears_beside (s : Service H N) : Bears s.Beside where
  conclude _ _ _ h := h.withDispatcher _
  deliver s' id h := by
    unfold Service.deliver
    split
    · exact h
    · exact (h.withDispatcher _).respond _
  finishJob _ _ h := h.withDispatcher _

theorem beside_takeJob (s : Service H N) : s.Beside s.takeJob.1 := (Beside.refl s).withDispatcher _

/-- A message that is received is no longer to be received; its response is written. -/
theorem receive_channel (s : Service H N) (frame : Bytes) :
    s.Beside { (s.receive frame).1 with dispatcher := s.dispatcher } := by
  rw [receive_eq]
  split
  · exact .refl s
  · exact (((Beside.refl s).withDispatcher _).respond _).withDispatcher _

/-- The service without the first message, about to look for a stop request again. -/
def unshift (s : Service H N) (rest : List Bytes) : Service H N :=
  { s with
    phase := .polling
    channel := s.channel.setInbox ownSide { s.channel.inbox ownSide with messages := rest } }

theorem Open.next?_polling (h : s.Open) (hp : s.phase = .polling) :
    s.next? = some ({ s with phase := .reading }, []) := by
  simp [next?, hp, h.stop]

theorem next?_message (hf : s.readFlaw = none) (hp : s.phase = .reading) {frame : Bytes}
    {rest : List Bytes} (hi : s.inbox = frame :: rest) :
    s.next? = some ((s.unshift rest).receive frame) := by
  have hm : (s.channel.inbox ownSide).messages = frame :: rest := hi
  simp [next?, hp, read?, hf, Channel.Duplex.read, hm, unshift]

theorem receive_unshift_beside (s : Service H N) (frame : Bytes) (rest : List Bytes) :
    (s.unshift rest).Beside
      { ((s.unshift rest).receive frame).1 with dispatcher := (s.unshift rest).dispatcher } :=
  receive_channel (s.unshift rest) frame

theorem receive_unshift_inbox (s : Service H N) (frame : Bytes) (rest : List Bytes) :
    ((s.unshift rest).receive frame).1.inbox = rest := by
  refine (s.receive_unshift_beside frame rest).inbox_eq.trans ?_
  simp [Service.inbox, unshift]

theorem receive_unshift_sent (hw : Dispatch.writable s.channel ownSide = true) (frame : Bytes)
    (rest : List Bytes) : ((s.unshift rest).receive frame).1.sent = s.sent ++
      (s.dispatcher.receive (.ofFrame frame)).2.1.toList.map Rpc.Response.encode := by
  have hw' : Dispatch.writable (s.unshift rest).channel ownSide = true := hw
  rw [receive_sent, List.flatMap_singleton, responses_fate, hw']
  simp [sent, Service.unshift, Channel.Duplex.setInbox, Channel.Duplex.atSide, ownSide,
    Channel.Side.other]

theorem Open.unshift (h : s.Open) (rest : List Bytes) : (s.unshift rest).Open := by
  refine ⟨.inl rfl, h.stop, h.flaw, h.connected, fun side => ?_⟩
  cases side <;> simp [Service.unshift, Channel.Duplex.setInbox, Channel.Duplex.atSide, ownSide, h.closed]

/-! ### A loop that goes on to its end -/

/-- The channel is open until the loop has finished, and until the loop is left no read fails. -/
structure Afloat (s : Service H N) : Prop where
  connected : s.phase ≠ .finished → ∀ side, s.channel.connected side = true
  closed : s.phase ≠ .finished → ∀ side, (s.channel.inbox side).closed = false
  flaw : s.phase = .polling ∨ s.phase = .reading → s.readFlaw = none

/-- A loop begins to wait, takes the first message in, or is left because it was asked to stop, and
finishes in the end. -/
inductive Goes (s : Service H N) : Service H N → Prop where
  | waits (hp : s.phase = .polling) : Goes s { s with phase := .reading }
  | takes {frame rest} (hp : s.phase = .reading) (hi : s.inbox = frame :: rest) :
      Goes s ((s.unshift rest).receive frame).1
  | leaves (hp : s.phase = .polling ∨ s.phase = .reading) (hs : s.stopRequested = true) :
      Goes s s.drain
  | finishes (hp : s.phase = .draining) : Goes s { s with phase := .finished }

namespace Afloat

theorem of_open (h : s.Open) : s.Afloat := ⟨fun _ => h.connected, fun _ => h.closed, fun _ => h.flaw⟩

theorem of_finished (hp : s.phase = .finished) : s.Afloat :=
  ⟨fun hn => absurd hp hn, fun hn => absurd hp hn, by simp [hp]⟩

theorem of_beside (h : s.Afloat) (hb : s.Beside s') : s'.Afloat where
  connected hp side := hb.connected ▸ h.connected (hb.phase ▸ hp) side
  closed hp side := (hb.closed side).trans (h.closed (hb.phase ▸ hp) side)
  flaw hp := hb.flaw.trans (h.flaw (hb.phase ▸ hp))

theorem writable (h : s.Afloat) (hp : s.phase ≠ .finished) :
    Dispatch.writable s.channel ownSide = true := by
  simp [Dispatch.writable, h.connected hp, h.closed hp]

theorem goes (h : s.Afloat) {notices : List Log.Notice} (hn : s.next? = some (s', notices)) :
    s.Goes s' := by
  cases hp : s.phase with
  | notRunning => simp [next?, hp] at hn
  | finished => simp [next?, hp] at hn
  | polling =>
    simp only [next?, hp, Option.some.injEq, Prod.mk.injEq] at hn
    obtain ⟨rfl, -⟩ := hn
    split
    case isTrue hs => exact .leaves (.inl hp) hs
    case isFalse => exact .waits hp
  | draining =>
    simp only [next?, hp, Option.ite_none_right_eq_some, Option.some.injEq, Prod.mk.injEq] at hn
    obtain ⟨-, rfl, -⟩ := hn
    exact .finishes hp
  | reading =>
    have hf := h.flaw (.inr hp)
    cases hi : s.inbox with
    | cons frame rest =>
      rw [next?_message hf hp hi, Option.some.injEq] at hn
      obtain rfl : ((s.unshift rest).receive frame).1 = s' := congrArg Prod.fst hn
      exact .takes hp hi
    | nil =>
      have hm : (s.channel.inbox ownSide).messages = [] := hi
      have hd : s.phase ≠ .finished := by simp [hp]
      have hr : s.channel.read ownSide = (s.channel, .waiting) := by
        simp [Channel.Duplex.read, hm, h.closed hd, h.connected hd]
      simp only [next?, hp, read?, hf, hr, Option.ite_none_right_eq_some, Option.some.injEq,
        Prod.mk.injEq] at hn
      obtain ⟨hs, rfl, -⟩ := hn
      exact .leaves (.inr hp) hs

end Afloat

theorem Goes.afloat (h : s.Goes s') (ha : s.Afloat) : s'.Afloat := by
  cases h with
  | waits hp =>
    have hn : s.phase ≠ .finished := by simp [hp]
    exact ⟨fun _ => ha.connected hn, fun _ => ha.closed hn, fun _ => ha.flaw (.inl hp)⟩
  | @takes frame rest hp =>
    have hn : s.phase ≠ .finished := by simp [hp]
    have hu : (s.unshift rest).Afloat := by
      refine ⟨fun _ => ha.connected hn, fun _ side => ?_, fun _ => ha.flaw (.inr hp)⟩
      cases side <;>
        simp [Service.unshift, Channel.Duplex.setInbox, Channel.Duplex.atSide, ownSide, ha.closed hn]
    obtain ⟨hco, hcl, hfl⟩ := hu.of_beside (s.receive_unshift_beside frame rest)
    exact ⟨hco, hcl, hfl⟩
  | leaves hp =>
    have hn : s.phase ≠ .finished := by rcases hp with hp | hp <;> simp [hp]
    exact ⟨fun _ => ha.connected hn, fun _ => ha.closed hn, by simp [Service.drain]⟩
  | finishes => exact .of_finished rfl

theorem bears_afloat : Bears (Afloat : Service H N → Prop) where
  conclude _ _ _ h := ⟨h.connected, h.closed, h.flaw⟩
  deliver s id h := h.of_beside ((bears_beside s).deliver s id (.refl s))
  finishJob _ _ h := ⟨h.connected, h.closed, h.flaw⟩

theorem Goes.isOpen (h : s.Goes s') (ho : s.Open) : s'.Open := by
  cases h with
  | waits => exact ⟨.inr rfl, ho.stop, ho.flaw, ho.connected, ho.closed⟩
  | @takes frame rest =>
    obtain ⟨hph, hst, hfl, hco, hcl⟩ := (s.receive_unshift_beside frame rest).isOpen (ho.unshift rest)
    exact ⟨hph, hst, hfl, hco, hcl⟩
  | leaves _ hs => simp [ho.stop] at hs
  | finishes hp =>
    have hph := ho.phase
    simp [hp] at hph

/-! ### What is written -/

/-- The messages written since are responses. -/
def Responded (written : List Bytes) (s : Service H N) : Prop :=
  ∃ responses : List Rpc.Response, s.sent = written ++ responses.map Rpc.Response.encode

theorem Responded.append {written : List Bytes} (h : Responded written s)
    {responses : List Rpc.Response} (hs : s'.sent = s.sent ++ responses.map Rpc.Response.encode) :
    Responded written s' := by
  obtain ⟨earlier, he⟩ := h
  exact ⟨earlier ++ responses, by rw [hs, he, List.append_assoc, List.map_append]⟩

/-- A move of the service writes responses only. -/
theorem Move.responded {events : List Event} (h : Move s events s') :
    ∃ responses : List Rpc.Response, s'.sent = s.sent ++ responses.map Rpc.Response.encode := by
  have hs := h.sent_eq
  split at hs
  · exact ⟨_, hs⟩
  · exact ⟨[], hs⟩

theorem deliver_responded (s : Service H N) (id : WorkerId) :
    ∃ responses : List Rpc.Response,
      (s.deliver id).1.sent = s.sent ++ responses.map Rpc.Response.encode := by
  cases hd : (s.dispatcher.worker? id).bind (·.response) with
  | none =>
    refine ⟨[], ?_⟩
    simp [Service.deliver, Dispatcher.takeResponse, hd]
  | some response =>
    obtain ⟨w, hw, hr⟩ := Option.bind_eq_some_iff.mp hd
    exact (Move.deliver hw hr).responded

theorem bears_responded (written : List Bytes) : Bears (Responded (H := H) (N := N) written) where
  conclude _ _ _ h := h
  deliver s id h := by
    obtain ⟨responses, hs⟩ := s.deliver_responded id
    exact h.append hs
  finishJob _ _ h := h

theorem notify_sent (s : Service H N) (n : Rpc.Notification) :
    s.sent <+: (s.notify n).1.sent := by
  unfold Service.notify
  split
  case h_1 channel hw => exact ⟨_, (Channel.Duplex.write_messages hw).symm⟩
  case h_2 => exact List.prefix_rfl

/-- What was written stays written. -/
theorem keeps_sent (written : List Bytes) :
    Keeps fun s : Service H N => written <+: s.sent where
  conclude _ _ _ h := h
  deliver s id h := by
    obtain ⟨responses, hs⟩ := s.deliver_responded id
    rw [hs]
    exact h.trans (List.prefix_append _ _)
  finishJob _ _ h := h
  loop s s' notices hn h := by
    obtain ⟨responses, hs⟩ := (Move.loop hn).responded
    rw [hs]
    exact h.trans (List.prefix_append _ _)
  takeJob _ h := h
  notify s n h := h.trans (s.notify_sent n)
  stop _ h := h
  close _ h := h

/-! ### A loop that is over -/

/-- The loop was left, and these messages are not received any more. -/
structure Left (unread : List Bytes) (s : Service H N) : Prop where
  phase : s.phase = .draining ∨ s.phase = .finished
  inbox : s.inbox = unread

theorem Left.of_beside {unread : List Bytes} (h : Left unread s) (hb : s.Beside s') :
    Left unread s' := ⟨hb.phase ▸ h.phase, hb.inbox_eq.trans h.inbox⟩

/-- A loop that was left can only finish. -/
theorem next?_of_left (hp : s.phase = .draining ∨ s.phase = .finished) {notices : List Log.Notice}
    (hn : s.next? = some (s', notices)) : s' = { s with phase := .finished } := by
  rcases hp with hp | hp
  · simp only [next?, hp, Option.ite_none_right_eq_some, Option.some.injEq, Prod.mk.injEq] at hn
    exact hn.2.1.symm
  · simp [next?, hp] at hn

theorem keeps_left (unread : List Bytes) : Keeps (Left (H := H) (N := N) unread) where
  conclude _ _ _ h := ⟨h.phase, h.inbox⟩
  deliver s id h := h.of_beside ((bears_beside s).deliver s id (.refl s))
  finishJob _ _ h := ⟨h.phase, h.inbox⟩
  loop s s' notices hn h := by
    rw [next?_of_left h.phase hn]
    exact ⟨.inr rfl, h.inbox⟩
  takeJob _ h := ⟨h.phase, h.inbox⟩
  notify s n h := h.of_beside ((Beside.refl s).notify n)
  stop _ h := ⟨h.phase, h.inbox⟩
  close _ h := ⟨h.phase, h.inbox⟩

/-- The loop was left with no request waiting, and only notifications were written since. -/
structure Dismissed (written : List Bytes) (s : Service H N) : Prop where
  phase : s.phase = .draining ∨ s.phase = .finished
  workers : s.dispatcher.workers = []
  sent : ∃ notifications : List Rpc.Notification,
    s.sent = written ++ notifications.map Rpc.Notification.encode

theorem keeps_dismissed (written : List Bytes) :
    Keeps (Dismissed (H := H) (N := N) written) where
  conclude s id outcome h := by
    have hd : s.dispatcher.conclude id outcome = (s.dispatcher, []) := by
      simp [Dispatcher.conclude, Dispatcher.worker?, h.workers]
    exact ⟨h.phase, by simp [Service.conclude, hd, h.workers], h.sent⟩
  deliver s id h := by
    have hd : s.deliver id = (s, []) := by
      simp [Service.deliver, Dispatcher.takeResponse, Dispatcher.worker?, h.workers]
    rwa [hd]
  finishJob s failure h := by
    have hd : (s.dispatcher.finishJob failure).1.workers = s.dispatcher.workers := by
      unfold Dispatcher.finishJob
      split <;> rfl
    exact ⟨h.phase, hd.trans h.workers, h.sent⟩
  loop s s' notices hn h := by
    rw [next?_of_left h.phase hn]
    exact ⟨.inr rfl, h.workers, h.sent⟩
  takeJob s h := by
    have hd : s.dispatcher.takeJob.1.workers = s.dispatcher.workers := by
      unfold Dispatcher.takeJob
      split <;> rfl
    exact ⟨h.phase, hd.trans h.workers, h.sent⟩
  notify s n h := by
    refine ⟨((Beside.refl s).notify n).phase ▸ h.phase, s.notify_dispatcher n ▸ h.workers, ?_⟩
    obtain ⟨notifications, hs⟩ := h.sent
    unfold Service.notify
    split
    case h_1 channel hw =>
      refine ⟨notifications ++ [n], (Channel.Duplex.write_messages hw).trans ?_⟩
      change s.sent ++ _ = _
      simp [hs]
    case h_2 => exact ⟨notifications, hs⟩
  stop _ h := ⟨h.phase, h.workers, h.sent⟩
  close _ h := ⟨h.phase, h.workers, h.sent⟩

/-- Nothing is answered any more. -/
theorem Dismissed.unanswered {written : List Bytes} (h : Dismissed written s) (r : Rpc.Response) :
    r.encode ∉ s.sent.drop written.length := by
  obtain ⟨notifications, hs⟩ := h.sent
  rw [hs, List.drop_left, List.mem_map]
  rintro ⟨n, -, he⟩
  exact r.encode_ne_notification n he.symm

theorem read_of_inbox_nil (h : s.inbox = []) {channel : Channel.Duplex} {frame : Bytes} :
    s.channel.read ownSide ≠ (channel, .message frame) := by
  have hm : (s.channel.inbox ownSide).messages = [] := h
  simp only [Channel.Duplex.read, hm, ne_eq, Prod.mk.injEq]
  split <;> simp

/-- What has nothing to receive comes by nothing. -/
theorem keeps_inbox_nil : Keeps fun s : Service H N => s.inbox = [] where
  conclude _ _ _ h := h
  deliver s id h := ((bears_beside s).deliver s id (.refl s)).inbox_eq.trans h
  finishJob _ _ h := h
  loop s s' notices hn h := by
    obtain ⟨phase, -, rfl, -⟩ | ⟨readFlaw, -, rfl⟩ | ⟨channel, frame, hr, -, rfl⟩ := next?_cases hn
    · exact h
    · exact h
    · exact absurd hr (read_of_inbox_nil h)
  takeJob _ h := h
  notify s n h := ((Beside.refl s).notify n).inbox_eq.trans h
  stop _ h := h
  close _ h := h

/-- The loop was left, or was asked to stop. -/
def Leaving (s : Service H N) : Prop :=
  s.stopRequested = true ∨ s.phase = .draining ∨ s.phase = .finished

theorem Leaving.of_eq (h : s.Leaving) (hp : s'.phase = s.phase)
    (hs : s'.stopRequested = s.stopRequested) : s'.Leaving := by
  rw [Leaving, hp, hs]
  exact h

theorem keeps_leaving : Keeps (Leaving : Service H N → Prop) where
  conclude _ _ _ h := h
  deliver s id h :=
    have hb := (bears_beside s).deliver s id (.refl s)
    h.of_eq hb.phase hb.stop
  finishJob _ _ h := h
  loop s s' notices hn h := by
    rcases h with hs | hp
    · refine .inl ?_
      obtain ⟨phase, -, rfl, -⟩ | ⟨readFlaw, -, rfl⟩ | ⟨channel, frame, -, -, rfl⟩ := next?_cases hn
      · exact hs
      · exact hs
      · exact (receive_channel _ _).stop.trans hs
    · rw [next?_of_left hp hn]
      exact .inr (.inr rfl)
  takeJob _ h := h
  notify s n h :=
    have hb := (Beside.refl s).notify n
    h.of_eq hb.phase hb.stop
  stop _ _ := .inl rfl
  close _ h := h

end Service

end EditorSession.Dispatch

namespace EditorSession.Session

open Dispatch (WorkerId Worker)

namespace Server

variable {s s' : Server}

/-! ### The workspace -/

/-- What a move makes of the workspace. An operation of the editor is begun only for a notification,
and while the session is running. -/
inductive Work (s : Server) : Move → Workspace → Prop where
  | still (move) : Work s move s.workspace
  | shut (move) :
      Work s move { s.workspace with pipeline := s.workspace.pipeline.shutdown.1 }
  | onward {progress} (move) (h : s.workspace.Onward progress) : Work s move progress.workspace
  | begun {service job} (operation) (hj : s.service.takeJob = (service, some job))
      (hs : s.state = .running) : Work s .handle (s.workspace.start operation).workspace

theorem settleOperation_workspace (s : Server) (id : OperationId) (outcome : Document.Outcome) :
    (s.settleOperation id outcome).1.workspace = s.workspace := by
  rcases s.settleOperation_cases id outcome with ⟨changes, h⟩ | ⟨-, h⟩
  · rw [h]
  · rw [h]
    rfl

theorem progressed_workspace (s : Server) (progress : Workspace.Progress) :
    (s.progressed progress).1.workspace = progress.workspace := by
  apply progressed_induction (P := fun s' => s'.workspace = progress.workspace)
  · intro s' n h
    exact h
  · intro s' id outcome h
    exact (s'.settleOperation_workspace id outcome).trans h
  · rfl

theorem acceptShutdown_workspace (s : Server) (id : WorkerId) :
    (s.acceptShutdown id).1.workspace =
      { s.workspace with pipeline := s.workspace.pipeline.shutdown.1 } := by
  unfold acceptShutdown
  dsimp only
  split <;> rfl

theorem serve_work (s : Server) (id : WorkerId) : s.Work (.serve id) (s.serve id).1.workspace := by
  rcases s.serve_cases id with hs | ⟨worker, hw⟩
  · rw [hs]
    exact .still _
  · rw [hw.serve_eq]
    cases worker.handler with
    | handshake =>
      dsimp only
      unfold serveHandshake
      split <;> exact .still _
    | shutdown =>
      dsimp only
      unfold serveShutdown
      split
      · exact .still _
      · rw [acceptShutdown_workspace]
        exact .shut _
    | feature f =>
      dsimp only
      unfold serveFeature
      split
      · exact .still _
      · split <;> exact .still _

theorem handle_work (s : Server) : s.Work .handle s.handle.1.workspace := by
  rcases s.handle_cases with hs | ⟨service, job, hj⟩
  · rw [hs]
    exact .still _
  · rw [handle_eq hj]
    cases job.handler with
    | initialized => exact .still _
    | exit => exact .still _
    | didOpen | didChange | didClose | didSave =>
      dsimp only
      unfold handleDocument
      split
      case isTrue hr =>
        split
        · exact .still _
        · exact .still _
        · rw [operate, progressed_workspace]
          exact .begun _ hj hr
      case isFalse => exact .still _

theorem close_work (s : Server) : s.Work .close s.close.1.workspace := by
  unfold close
  split
  · split
    · dsimp only
      split <;> exact .shut _
    · exact .still _
  · split <;> exact .still _
  · exact .still _
  · exact .still _

theorem step_work (s : Server) (now : Int) (move : Move) :
    s.Work move (s.step now move).1.workspace := by
  cases move with
  | receive =>
    simp only [step]
    split <;> exact .still _
  | serve id => exact s.serve_work id
  | answer id answers =>
    simp only [step, answer]
    split <;> exact .still _
  | calm id =>
    simp only [step, calm]
    split
    · split <;> exact .still _
    · exact .still _
  | deliver id => exact .still _
  | handle => exact s.handle_work
  | opened =>
    simp only [step, opened]
    split <;> exact .still _
  | modelChanged =>
    simp only [step, modelChanged, progressed_workspace]
    exact .onward _ (.reassociate _)
  | resolve id answer =>
    simp only [step, progressed_workspace]
    exact .onward _ (.answer id answer)
  | tell id =>
    simp only [step, progressed_workspace]
    exact .onward _ (.tell now id)
  | beginComputation =>
    simp only [step, progressed_workspace]
    exact .onward _ .begin
  | diagnosed id outcome =>
    simp only [step, progressed_workspace]
    exact .onward _ (.diagnosed id outcome)
  | fire =>
    simp only [step, progressed_workspace]
    exact .onward _ (.fire now)
  | close => exact s.close_work

/-- The workspace stays silent unless an operation is begun. -/
theorem Work.silent {move : Move} {w : Workspace} (h : s.Work move w) (hs : s.workspace.Silent)
    (hb : move = .handle → s.state = .running → s.service.takeJob.2 = none) :
    w.Silent ∧ w.pipeline.started = s.workspace.pipeline.started := by
  cases h with
  | still => exact ⟨hs, rfl⟩
  | shut =>
    exact ⟨.inl (Diagnostics.Pipeline.shutdown_shut _),
      (Diagnostics.Pipeline.shutdown_continues _).started⟩
  | onward _ ho =>
    obtain ⟨hw, -, hn⟩ := hs.onward ho
    exact ⟨hw, hn⟩
  | begun operation hj hr =>
    have hn := hb rfl hr
    simp [hj] at hn

/-- The documents keep their texts and versions unless an operation is begun. -/
theorem Work.sameTexts {move : Move} {w : Workspace} (h : s.Work move w)
    (hb : move = .handle → s.state = .running → s.service.takeJob.2 = none) :
    s.workspace.store.SameTexts w.store := by
  cases h with
  | still => exact .refl _
  | shut => exact .refl _
  | onward _ ho => exact ho.sameTexts
  | begun operation hj hr =>
    have hn := hb rfl hr
    simp [hj] at hn

theorem published_of_silent (h : s.workspace.Silent) (now : Int) (move : Move) :
    s.published now move = [] := by
  cases move with
  | tell id => exact (h.onward (.tell now id)).2.1
  | beginComputation => exact (h.onward .begin).2.1
  | diagnosed id outcome => exact (h.onward (.diagnosed id outcome)).2.1
  | _ => rfl

/-! ### What the notification being handled waits for -/

theorem progressed_chore (s : Server) (progress : Workspace.Progress) :
    (s.progressed progress).1.chore = s.chore ∨ (s.progressed progress).1.chore = none := by
  apply progressed_induction (P := fun s' => s'.chore = s.chore ∨ s'.chore = none)
  · exact fun _ _ h => h
  · intro s' id outcome h
    rcases s'.settleOperation_cases id outcome with ⟨changes, hs⟩ | ⟨-, hs⟩
    · rw [hs]
      exact h
    · rw [hs]
      exact .inr rfl
  · exact .inl rfl

/-- Outside a running session no notification but the one that opens the workspace turns to the project
model. -/
inductive Errand (s : Server) : Move → Option Chore → Prop where
  | still (move) : Errand s move s.chore
  | ended (move) : Errand s move none
  | begun {service job chore} (hj : s.service.takeJob = (service, some job))
      (hs : s.state = .running) : Errand s .handle chore
  | opening {service job} (hj : s.service.takeJob = (service, some job))
      (hh : job.handler = .initialized) : Errand s .handle (some (.opening s.roots))

theorem Errand.of_or {move : Move} {chore : Option Chore} (h : chore = s.chore ∨ chore = none) :
    s.Errand move chore := by
  rcases h with rfl | rfl
  · exact .still move
  · exact .ended move

theorem handle_errand (s : Server) : s.Errand .handle s.handle.1.chore := by
  rcases s.handle_cases with hs | ⟨service, job, hj⟩
  · rw [hs]
    exact .still _
  · rw [handle_eq hj]
    cases hh : job.handler with
    | initialized => exact .opening hj hh
    | exit => exact .ended _
    | didOpen | didChange | didClose | didSave =>
      dsimp only
      unfold handleDocument
      split
      case isTrue hr => exact .begun hj hr
      case isFalse => exact .ended _

theorem step_errand (s : Server) (now : Int) (move : Move) :
    s.Errand move (s.step now move).1.chore := by
  cases move with
  | receive =>
    simp only [step]
    split <;> exact .still _
  | serve id =>
    rcases s.serve_cases id with hs | ⟨worker, hw⟩
    · rw [step, hs]
      exact .still _
    · have hv := hw.serving
      rw [step]
      generalize (s.serve id).1 = s' at hv
      cases hv <;> exact .still _
  | answer id answers =>
    simp only [step, answer]
    split <;> exact .still _
  | calm id =>
    simp only [step, calm]
    split
    · split <;> exact .still _
    · exact .still _
  | deliver id => exact .still _
  | handle => exact s.handle_errand
  | opened =>
    simp only [step, opened]
    split
    · exact .ended _
    · exact .still _
  | close =>
    simp only [step, close]
    split
    · split
      · split <;> exact .still _
      · exact .still _
    · split <;> exact .still _
    · exact .still _
    · exact .still _
  | modelChanged first =>
    exact .of_or (progressed_chore { s with changes := s.changes ++ [s.workspace.begun] } _)
  | resolve id answer => exact .of_or (s.progressed_chore _)
  | tell id => exact .of_or (s.progressed_chore _)
  | beginComputation => exact .of_or (s.progressed_chore _)
  | diagnosed id outcome => exact .of_or (s.progressed_chore _)
  | fire => exact .of_or (s.progressed_chore _)

/-! ### What waits -/

theorem mem_waits_of_conclude {id : WorkerId} {outcome : Except Rpc.Failure Json}
    {entry : WorkerId × Wait} (h : entry ∈ (s.conclude id outcome).1.waits) : entry ∈ s.waits :=
  (List.mem_filter.mp h).1

/-- Something begins to wait only when a request is served while the session is running. -/
theorem step_waits (s : Server) (now : Int) (move : Move) :
    ∀ entry ∈ (s.step now move).1.waits, entry ∈ s.waits ∨
      s.state = .running ∧ ∃ id worker, move = .serve id ∧ s.Serves id worker := by
  intro entry hm
  cases move with
  | receive =>
    simp only [step] at hm
    split at hm <;> exact .inl hm
  | serve id =>
    rcases s.serve_cases id with hs | ⟨worker, hw⟩
    · rw [step, hs] at hm
      exact .inl hm
    · by_cases hr : s.state = .running
      · exact .inr ⟨hr, id, worker, rfl, hw⟩
      · refine .inl ?_
        rw [step, hw.serve_eq] at hm
        split at hm
        · unfold serveHandshake at hm
          split at hm <;> exact (List.mem_filter.mp hm).1
        · unfold serveShutdown at hm
          split at hm
          case h_1 => exact mem_waits_of_conclude hm
          case h_2 hp => exact absurd (permit_eq_ok_iff.mp hp) hr
        · unfold serveFeature at hm
          split at hm
          case h_1 => exact mem_waits_of_conclude hm
          case h_2 hp => exact absurd (permit_eq_ok_iff.mp hp) hr
  | answer id answers =>
    simp only [step, answer] at hm
    split at hm
    · exact .inl (mem_waits_of_conclude hm)
    · exact .inl hm
  | calm id =>
    simp only [step, calm] at hm
    split at hm
    · split at hm
      · exact .inl (mem_waits_of_conclude hm)
      · exact .inl hm
    · exact .inl hm
  | deliver id => exact .inl hm
  | _ =>
    rw [(s.step_sameRequests now ?_).waits] at hm
    · exact .inl hm
    · trivial

end Server

end EditorSession.Session
