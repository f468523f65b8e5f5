import EditorSession.Proofs.Session.Exchange

/-! The lifecycle of a session. A message that is sent when nothing is left to be done leads to the
state that the lifecycle gives, and outside a running session what is done with a message touches
neither the documents nor the diagnostics. A session that has stopped may still pass a notification on
to the project model, and what the model then reports may lead to diagnostics. -/

namespace EditorSession.Session

open Dispatch (WorkerId Worker Incoming)

namespace Server

variable {s t u : Server} {frame : Bytes}

/-! ### After a message was sent -/

/-- The message opens the workspace, which waits for the project model. -/
def Opens (s : Server) (frame : Bytes) (t : Server) : Prop :=
  (∃ n, Incoming.ofFrame frame = .notification n ∧
    n.method = NotificationHandler.initialized.method) ∧ t.chore = some (.opening s.roots)

/-- What holds from the moment when a message is sent. -/
structure Exchange (s : Server) (frame : Bytes) (t : Server) : Prop where
  kept : t.Kept
  stand : Stand s frame t
  sent : s.service.sent <+: t.service.sent
  documents : s.state ≠ .running → s.workspace.store.SameTexts t.workspace.store
  unasked : s.state ≠ .running → ∀ entry ∈ t.waits, entry ∈ s.waits
  silent : s.state ≠ .running → s.workspace.Silent → t.workspace.Silent ∧
    t.workspace.pipeline.started = s.workspace.pipeline.started ∧
    t.service.Responded s.service.sent
  errand : s.state ≠ .running → t.chore = s.chore ∨ t.chore = none ∨ s.Opens frame t
  unheard : s.service.phase = .draining ∨ s.service.phase = .finished →
    t.service.Left (s.service.inbox ++ [frame])
  dismissed : s.service.Dismissed s.service.sent → t.service.Dismissed s.service.sent

theorem Settled.inbox (hs : s.Settled) (ho : s.service.Open) : s.service.inbox = [] := by
  have hp := ho.phase
  rcases hs.loop with hp' | hp' | hi
  · simp [hp'] at hp
  · simp [hp'] at hp
  · exact hi

/-- With no request at work a server is settled as soon as it has received and handled everything. -/
theorem Settled.of_workers_nil (hw : s.service.dispatcher.workers = [])
    (hj : s.service.dispatcher.jobs = []) (hi : s.service.inbox = []) : s.Settled :=
  ⟨.inr (.inr hi), hj, by simp [hw]⟩

/-- Only the loop of a session that has stopped is left. -/
theorem Kept.stopped_of_left (hk : s.Kept)
    (hl : s.service.phase = .draining ∨ s.service.phase = .finished) : s.state = .stopped := by
  by_contra hs
  have hp := (hk.isOpen hs).1.phase
  rcases hl with hl | hl <;> simp [hl] at hp

/-- Before the session proper no request waits, so a settled server has none. -/
theorem Settled.pending (hs : s.Settled) (hk : s.Kept) (hi : s.state = .initializing) :
    s.service.dispatcher.pending = [] := by
  refine Dispatch.Service.pending_nil_of_workers_nil hk.orderly.sound ?_
  rw [List.eq_nil_iff_forall_not_mem]
  intro w hw
  have hx := (hs.requests w hw).2
  simp [wait?, hk.unserved hi] at hx

theorem Exchange.send (hk : s.Kept) (hs : s.Settled) (h : s.Sends frame t) : s.Exchange frame t := by
  have hk' := hk.send h
  obtain @⟨channel, hw⟩ := h
  obtain ⟨-, hsent, -⟩ := Channel.Duplex.write_ok hw
  have hm : (channel.inbox .right).messages = s.service.inbox ++ [frame] :=
    Channel.Duplex.write_messages hw
  have hsent' : (channel.inbox .left).messages = s.service.sent := congrArg (·.messages) hsent
  have hq : Idle { s with service := { s.service with channel } } :=
    ⟨hs.jobs, fun j w hv => hs.idle.requests j w ⟨hv.found, hv.undecided, hv.unserved⟩⟩
  refine ⟨hk', ?_, ?_, fun _ => .refl _, fun _ _ h => h, fun _ hl => ⟨hl, rfl, [], ?_⟩,
    fun _ => .inl rfl, fun hl => ⟨hl, hm⟩, fun hd => ⟨hd.phase, hd.workers, [], ?_⟩⟩
  · have left (hl : s.service.phase = .draining ∨ s.service.phase = .finished) :
        Stand s frame { s with service := { s.service with channel } } :=
      .unheard (hk.stopped_of_left hl) ⟨hl, hm⟩ hq ⟨rfl, rfl⟩
    rcases hs.loop with hl | hl | hi
    · exact left (.inl hl)
    · exact left (.inr hl)
    · exact .unread (hm.trans (by rw [hi]; rfl)) hi hq (fun _ h => h) ⟨rfl, rfl⟩ fun h => h
  · exact hsent' ▸ List.prefix_refl _
  · exact hsent'.trans (List.append_nil _).symm
  · exact hsent'.trans (List.append_nil _).symm

/-- The message that began the session proper, or wound it up, has left nothing to begin. -/
theorem Stand.idle (h : Stand s frame t) (hs : s.state ≠ .running) (ht : t.state = .running) :
    t.Idle := by
  cases h with
  | unheard _ _ hq => exact hq
  | unread _ _ hq => exact hq
  | accepted _ _ _ _ _ _ hu => exact absurd (hu.state.symm.trans ht) hs
  | queued _ _ _ _ _ hu => exact absurd (hu.state.symm.trans ht) hs
  | done _ hq => exact hq

/-- The only notification that can be taken up is the message. -/
theorem Stand.takeJob (h : Stand s frame t)
    {service : Dispatch.Service RequestHandler NotificationHandler}
    {job : Dispatch.Job NotificationHandler} (hj : t.service.takeJob = (service, some job)) :
    s.Unmoved t ∧ ∃ n, Incoming.ofFrame frame = .notification n ∧ n.method = job.handler.method := by
  obtain ⟨-, rest, hjobs, -⟩ := Dispatch.Service.takeJob_eq_some hj
  cases h with
  | unheard _ _ hq => simp [hq.jobs] at hjobs
  | unread _ _ hq => simp [hq.jobs] at hjobs
  | accepted _ _ _ _ hj' => simp [hj'] at hjobs
  | @queued n handler hf hm _ hj' _ hu =>
    obtain ⟨rfl, -⟩ : job = ⟨handler, n⟩ ∧ rest = [] := by simpa [hj'] using hjobs.symm
    exact ⟨hu, n, hf, hm⟩
  | done _ hq => simp [hq.jobs] at hjobs

theorem Exchange.step_errand (h : s.Exchange frame t) (hs : s.state ≠ .running) (now : Int)
    (move : Move) : (t.step now move).1.chore = s.chore ∨ (t.step now move).1.chore = none ∨
      s.Opens frame (t.step now move).1 := by
  have he := t.step_errand now move
  generalize hc : (t.step now move).1.chore = chore at he
  cases he with
  | still => exact (h.errand hs).imp_right (.imp_right fun ho => ⟨ho.1, hc.trans ho.2⟩)
  | ended => exact .inr (.inl rfl)
  | begun hj ht => exact absurd ((h.stand.takeJob hj).1.state.symm.trans ht) hs
  | opening hj hh =>
    obtain ⟨hu, n, hf, hm⟩ := h.stand.takeJob hj
    exact .inr (.inr ⟨⟨n, hf, hh ▸ hm⟩, hc.trans (by rw [hu.roots])⟩)

theorem Exchange.step (h : s.Exchange frame t) (hn : s.state = .initializing →
    s.service.dispatcher.pending = []) (now : Int) (move : Move) :
    s.Exchange frame (t.step now move).1 := by
  have hbegun : s.state ≠ .running → move = .handle → t.state = .running →
      t.service.takeJob.2 = none := by
    intro hs _ ht
    rw [Dispatch.Service.takeJob_of_jobs_nil (h.stand.idle hs ht).jobs]
  refine ⟨h.kept.step now move, h.stand.step h.kept hn h.sent now move,
    step_keeps (Dispatch.Service.keeps_sent _) h.sent now move, ?_, ?_, ?_,
    fun hs => h.step_errand hs now move,
    fun hl => step_keeps (Dispatch.Service.keeps_left _) (h.unheard hl) now move,
    fun hd => step_keeps (Dispatch.Service.keeps_dismissed _) (h.dismissed hd) now move⟩
  · intro hs
    exact (h.documents hs).trans ((t.step_work now move).sameTexts (hbegun hs))
  · intro hs entry hm
    rcases t.step_waits now move entry hm with hm | ⟨ht, id, worker, -, hv⟩
    · exact h.unasked hs entry hm
    · exact absurd hv ((h.stand.idle hs ht).requests id worker)
  · intro hs hl
    obtain ⟨hw, hst, hr⟩ := h.silent hs hl
    obtain ⟨hw', hst'⟩ := (t.step_work now move).silent hw (hbegun hs)
    refine ⟨hw', hst'.trans hst, ?_⟩
    refine step_bears (Dispatch.Service.bears_responded _) hr now move ?_ (fun _ => hr)
      (.inl (published_of_silent hw now move)) (fun _ _ h => h) (fun _ _ h => ?_)
    · intro _ service notices hl
      obtain ⟨responses, he⟩ := (Dispatch.Service.Move.loop hl).responded
      exact hr.append he
    · exact h

theorem Exchange.leads (h : s.Exchange frame t) (hn : s.state = .initializing →
    s.service.dispatcher.pending = []) (hl : t.Leads u) : s.Exchange frame u := by
  induction hl with
  | refl => exact h
  | step _ now move ih => exact ih.step hn now move

/-! ### Handling a message -/

/-- The move is one of those that receive messages, act on them and answer them. -/
def IsHandling : Move → Prop
  | .receive => True
  | .serve _ => True
  | .deliver _ => True
  | .handle => True
  | _ => False

theorem serve_workspace (hs : s.state ≠ .running) (id : WorkerId) :
    (s.serve id).1.workspace = s.workspace := by
  have hp : ∀ method, ∃ r, s.state.permit method = .error r := by
    intro method
    cases hm : s.state.permit method with
    | ok _ => exact absurd (permit_eq_ok_iff.mp hm) hs
    | error r => exact ⟨r, rfl⟩
  rcases s.serve_cases id with hn | ⟨worker, hw⟩
  · rw [hn]
  · rw [hw.serve_eq]
    cases worker.handler with
    | handshake =>
      dsimp only
      unfold serveHandshake
      split <;> rfl
    | shutdown =>
      obtain ⟨r, hr⟩ := hp RequestHandler.shutdown.method
      simp only [serveShutdown, hr]
      rfl
    | feature f =>
      obtain ⟨r, hr⟩ := hp (featureMethod f)
      simp only [serveFeature, hr]
      rfl

theorem handle_workspace (hs : s.state ≠ .running) : s.handle.1.workspace = s.workspace := by
  rcases s.handle_cases with hn | ⟨service, job, hj⟩
  · rw [hn]
  · rw [handle_eq hj]
    cases job.handler with
    | initialized => rfl
    | exit => rfl
    | didOpen | didChange | didClose | didSave =>
      dsimp only
      rw [handleDocument, if_neg hs]
      rfl

/-- Unless something was left to begin in a running session, no message touches the workspace. -/
theorem handling_workspace (hq : s.state = .running → s.Idle) (now : Int) {move : Move}
    (hm : IsHandling move) : (s.step now move).1.workspace = s.workspace := by
  cases move with
  | receive =>
    simp only [step]
    split <;> rfl
  | serve id =>
    by_cases hs : s.state = .running
    · rcases s.serve_cases id with hn | ⟨worker, hw⟩
      · rw [step, hn]
      · exact absurd hw ((hq hs).requests id worker)
    · exact serve_workspace hs id
  | deliver id => rfl
  | handle =>
    by_cases hs : s.state = .running
    · rcases s.handle_cases with hn | ⟨service, job, hj⟩
      · rw [step, hn]
      · rw [Dispatch.Service.takeJob_of_jobs_nil (hq hs).jobs] at hj
        cases hj
    · exact handle_workspace hs
  | _ => exact hm.elim

/-! ### To the end -/

/-- What was sent is received, and handled unless it waits for the engine or the project model. -/
structure Completed (t : Server) : Prop extends Settled t where
  received : t.service.inbox = []

theorem Leads.trans (h : s.Leads t) (h' : t.Leads u) : s.Leads u := by
  induction h' with
  | refl => exact h
  | step _ now move ih => exact ih.step now move

/-- What is decided can be delivered, until nothing is left but what waits. -/
theorem Idle.completes (hq : t.Idle) (hk : t.Kept) (hi : t.service.inbox = []) :
    ∃ u, t.Leads u ∧ u.Completed := by
  induction hn : t.service.dispatcher.workers.length using Nat.strong_induction_on generalizing t with
  | _ n ih =>
    by_cases hd : ∃ w ∈ t.service.dispatcher.workers, w.response.isSome
    · obtain ⟨w, hw, hr⟩ := hd
      have hlt : (t.step 0 (.deliver w.id)).1.service.dispatcher.workers.length < n := by
        have hd : (t.step 0 (.deliver w.id)).1.service.dispatcher =
            (t.service.dispatcher.takeResponse w.id).1 := t.service.deliver_dispatcher w.id
        obtain ⟨response, hr⟩ := Option.isSome_iff_exists.mp hr
        have hf := hk.orderly.sound.worker?_eq_some_iff.mpr ⟨hw, rfl⟩
        have hlen := hk.orderly.sound.length_filter_ne hw
        simp only [hd, Dispatch.Dispatcher.takeResponse, hf, Option.bind_some, hr]
        omega
      obtain ⟨u, hu, hs⟩ := ih _ hlt (hq.moved hk.orderly (.inl hi) (hk.moved 0 (.deliver w.id)))
        (hk.step 0 (.deliver w.id)) (step_keeps Dispatch.Service.keeps_inbox_nil hi 0 _) rfl
      exact ⟨u, (Leads.refl.step 0 (.deliver w.id)).trans hu, hs⟩
    · refine ⟨t, .refl, ⟨.inr (.inr hi), hq.jobs, ?_⟩, hi⟩
      intro w hw
      have hr : w.response = none := by
        by_contra hr
        exact hd ⟨w, hw, Option.isSome_iff_ne_none.mpr hr⟩
      refine ⟨hr, ?_⟩
      by_contra hx
      rw [Option.not_isSome_iff_eq_none] at hx
      exact hq.requests w.id w (hk.orderly.serves_iff.mpr ⟨hw, rfl, hr, hx⟩)

/-- A message that was received can be seen through. -/
theorem Exchange.completes_of_received (h : s.Exchange frame t)
    (hf : (∃ n, Incoming.ofFrame frame = .notification n) → s.current = none)
    (hi : t.service.inbox = []) : ∃ u, t.Leads u ∧ u.Completed := by
  cases h.stand with
  | unheard _ hl => simp [hl.inbox] at hi
  | unread hi' => simp [hi] at hi'
  | @accepted w _ _ _ _ hj hs =>
    have hv : t.Serves w.id w := (hs _ _).mpr ⟨rfl, rfl⟩
    obtain ⟨hi', hq⟩ := hv.serve_idle hi hj fun j v h => ((hs j v).mp h).1
    obtain ⟨u, hu, hc⟩ := hq.completes (h.kept.step 0 (.serve w.id)) hi'
    exact ⟨u, (Leads.refl.step 0 (.serve w.id)).trans hu, hc⟩
  | @queued n handler hn _ _ hj hs _ hcur =>
    have hcur : t.service.dispatcher.current = none := hcur (hf ⟨n, hn⟩)
    obtain ⟨service, ht⟩ := Dispatch.Service.takeJob_of_jobs_cons hcur hj
    obtain ⟨hi', hq⟩ := handle_idle ht hi hj hs
    obtain ⟨u, hu, hc⟩ := hq.completes (h.kept.step 0 .handle) hi'
    exact ⟨u, (Leads.refl.step 0 .handle).trans hu, hc⟩
  | done _ hq => exact hq.completes h.kept hi

/-- A loop that reads on comes to the first message in one move or in two. -/
theorem leads_receive (ho : t.service.Open) {rest : List Bytes}
    (hi : t.service.inbox = frame :: rest) : ∃ u, t.Leads u ∧ u.service.inbox = rest := by
  have reading : ∀ {v : Server}, v.service.Open → v.service.phase = .reading →
      v.service.inbox = frame :: rest → (v.step 0 .receive).1.service.inbox = rest := by
    intro v ho hp hi
    rw [Server.step, Dispatch.Service.next?_message ho.flaw hp hi]
    exact v.service.receive_unshift_inbox frame rest
  rcases ho.phase with hp | hp
  · have ht : (t.step 0 .receive).1 = { t with service := { t.service with phase := .reading } } := by
      rw [Server.step, ho.next?_polling hp]
      rfl
    refine ⟨_, (Leads.refl.step 0 .receive).step 0 .receive, ?_⟩
    rw [ht]
    exact reading ⟨.inr rfl, ho.stop, ho.flaw, ho.connected, ho.closed⟩ rfl hi
  · exact ⟨_, Leads.refl.step 0 .receive, reading ho hp hi⟩

theorem Exchange.completes (h : s.Exchange frame t)
    (hl : s.state ≠ .stopped ∨ t.service.inbox = [])
    (hn : s.state = .initializing → s.service.dispatcher.pending = [])
    (hf : (∃ n, Incoming.ofFrame frame = .notification n) → s.current = none) :
    ∃ u, t.Leads u ∧ u.Completed := by
  by_cases hi : t.service.inbox = []
  · exact h.completes_of_received hf hi
  · replace hl := hl.resolve_right hi
    cases h.stand with
    | unread hi' _ _ _ hu =>
      obtain ⟨u, hu, hi'⟩ := leads_receive (h.kept.isOpen (hu.state ▸ hl)).1 hi'
      obtain ⟨v, hv, hc⟩ := (h.leads hn hu).completes_of_received hf hi'
      exact ⟨v, hu.trans hv, hc⟩
    | unheard hs => exact absurd hs hl
    | accepted _ _ _ hi' => exact absurd hi' hi
    | queued _ _ hi' => exact absurd hi' hi
    | done hi' => exact absurd hi' hi

/-- Until a message is done it has left the session where it was. -/
theorem Stand.state (h : Stand s frame t) :
    t.state = s.state ∨ t.state = s.state.after (.ofFrame frame) := by
  cases h with
  | unheard _ _ _ hu => exact .inl hu.state
  | unread _ _ _ _ hu => exact .inl hu.state
  | accepted _ _ _ _ _ _ hu => exact .inl hu.state
  | queued _ _ _ _ _ hu => exact .inl hu.state
  | done _ _ hs => exact hs.imp And.left id

theorem Stand.roots (h : Stand s frame t) (hs : s.state ≠ .initializing) : t.roots = s.roots := by
  cases h with
  | unheard _ _ _ hu => exact hu.roots
  | unread _ _ _ _ hu => exact hu.roots
  | accepted _ _ _ _ _ _ hu => exact hu.roots
  | queued _ _ _ _ _ hu => exact hu.roots
  | done _ _ _ hr => exact hr hs

/-- When a message is completed, the session has gone on or was left, and a refusal is given. -/
theorem Stand.of_completed (h : Stand s frame t) (hc : t.Completed) :
    (t.state = s.state ∧ s.Repeats frame ∨ t.state = s.state.after (.ofFrame frame)) ∧
      s.Refused frame t := by
  have hr := hc.received
  cases h with
  | unheard _ hl => simp [hl.inbox] at hr
  | unread hi => simp [hr] at hi
  | accepted _ _ _ _ _ hw => exact absurd ((hw _ _).mpr ⟨rfl, rfl⟩) (hc.idle.requests _ _)
  | queued _ _ _ hj => simp [hc.jobs] at hj
  | done _ _ ha _ hg => exact ⟨ha, hg⟩

/-- A session that has not stopped leaves no message unread. -/
theorem Stand.completed (h : Stand s frame t) (hk : t.Kept) (hl : s.state ≠ .stopped)
    (hs : t.Settled) : t.Completed := by
  refine ⟨hs, ?_⟩
  cases h with
  | unheard hn => exact absurd hn hl
  | unread _ _ _ _ hu => exact hs.inbox (hk.isOpen (hu.state ▸ hl)).1
  | accepted _ _ _ hi => exact hi
  | queued _ _ hi => exact hi
  | done hi => exact hi

/-! ### The lifecycle -/

/-- What a message that is sent to `s` does, as seen at a later moment `t`. -/
structure Conduct (s : Server) (frame : Bytes) (t : Server) : Prop where
  /-- The state is left alone, or it is the one that the lifecycle leads to, -/
  state : t.state = s.state ∨ t.state = s.state.after (.ofFrame frame)
  /-- and that it is in the end. -/
  follows : t.Completed → ¬s.Repeats frame → t.state = s.state.after (.ofFrame frame)
  /-- A request that cannot be served in the state is refused. Once the session has stopped, leaving the
  loop may cancel it before. -/
  refuses : t.Completed → ∀ r handler code,
    Incoming.ofFrame frame = .request r → r.method = handler.method → Refuses s.state handler code →
    ∃ code' message, (code' = code ∨ s.state = .stopped ∧ code' = Rpc.Code.requestCancelled) ∧
      (Rpc.Response.ofError r.id ⟨code', message, none⟩).encode ∈
        t.service.sent.drop s.service.sent.length
  /-- The roots are set once. -/
  roots : s.state ≠ .initializing → t.roots = s.roots
  /-- Outside a running session the engine is asked nothing, -/
  unasked : s.state ≠ .running → ∀ entry ∈ t.waits, entry ∈ s.waits
  /-- the documents stay as they are, -/
  documents : s.state ≠ .running → ∀ uri,
    (t.workspace.store.document? uri).map Document.OpenDocument.bare =
      (s.workspace.store.document? uri).map Document.OpenDocument.bare
  /-- what is done with the message does not touch the workspace, -/
  apart : s.state ≠ .running → ∀ now move, IsHandling move →
    (t.step now move).1.workspace = t.workspace
  /-- and the message is not passed on to the project model unless it is the one that opens the
  workspace. -/
  errand : s.state ≠ .running → t.chore = s.chore ∨ t.chore = none ∨ s.Opens frame t
  /-- Before a running session and after its shutdown no computation starts, and nothing is published;
  nor once it has stopped, if its pipeline is shut or no document is open. -/
  silent : s.state = .initializing ∨ s.state = .shuttingDown ∨
      s.state = .stopped ∧ s.workspace.Silent →
    t.workspace.pipeline.started = s.workspace.pipeline.started ∧
      ∀ n : Rpc.Notification, n.encode ∉ t.service.sent.drop s.service.sent.length
  /-- Every message is received until the session has stopped, -/
  received : s.state ≠ .stopped → t.Settled → t.Completed
  /-- and none after its loop was left; -/
  unread : s.service.phase = .draining ∨ s.service.phase = .finished →
    t.service.inbox = s.service.inbox ++ [frame]
  /-- nor is then anything answered if no request waits. -/
  unanswered : s.service.phase = .draining ∨ s.service.phase = .finished →
    s.service.dispatcher.workers = [] →
    ∀ r : Rpc.Response, r.encode ∉ t.service.sent.drop s.service.sent.length

theorem Exchange.conduct (h : s.Exchange frame t) (hk : s.Kept) : s.Conduct frame t where
  state := h.stand.state
  follows hc hn := (h.stand.of_completed hc).1.resolve_left fun ha => hn ha.2
  refuses hc r handler code hf hm hr := by
    obtain ⟨code', message, he, hg | ⟨w, hw, hg⟩⟩ :=
      (h.stand.of_completed hc).2 r handler code hf hm hr
    · exact ⟨code', message, he, hg⟩
    · rw [(hc.requests w hw).1] at hg
      cases hg
  roots := h.stand.roots
  unasked := h.unasked
  documents hs uri := (h.documents hs).document? uri
  apart hs now move hm := handling_workspace (h.stand.idle hs) now hm
  errand := h.errand
  silent hs := by
    obtain ⟨hr, hl⟩ : s.state ≠ .running ∧ s.workspace.Silent := by
      rcases hs with hs | hs | ⟨hs, hl⟩
      · exact ⟨by simp [hs], hk.silent (.inl hs)⟩
      · exact ⟨by simp [hs], hk.silent (.inr hs)⟩
      · exact ⟨by simp [hs], hl⟩
    obtain ⟨-, hst, responses, he⟩ := h.silent hr hl
    refine ⟨hst, fun n hn => ?_⟩
    rw [he, List.drop_left, List.mem_map] at hn
    obtain ⟨r, -, he⟩ := hn
    exact Rpc.Response.encode_ne_notification r n he
  received hl hs := h.stand.completed h.kept hl hs
  unread hl := (h.unheard hl).inbox
  unanswered hl hw := (h.dismissed ⟨hl, hw, [], (List.append_nil _).symm⟩).unanswered

/-- With nothing to begin the session stays where it is. -/
theorem Moved.unmoved (h : s.Moved t) (hq : s.Idle) : s.Unmoved t := by
  cases h with
  | rests hr => exact ⟨hr.state, hr.roots⟩
  | takes => exact ⟨rfl, rfl⟩
  | leaves => exact ⟨rfl, rfl⟩
  | serves hv => exact absurd hv (hq.requests _ _)
  | handles hj => simp [Dispatch.Service.takeJob_of_jobs_nil hq.jobs] at hj

/-- A settled server keeps its state and its roots while nothing is sent. -/
theorem Settled.leads (hs : s.Settled) (hk : s.Kept) (h : s.Leads t) :
    t.state = s.state ∧ t.roots = s.roots := by
  suffices t.Kept ∧ t.Idle ∧ (t.service.inbox = [] ∨ t.service.Left t.service.inbox) ∧
      t.state = s.state ∧ t.roots = s.roots from this.2.2.2
  induction h with
  | refl =>
    refine ⟨hk, hs.idle, ?_, rfl, rfl⟩
    rcases hs.loop with hp | hp | hi
    · exact .inr ⟨.inl hp, rfl⟩
    · exact .inr ⟨.inr hp, rfl⟩
    · exact .inl hi
  | @step u _ now move ih =>
    obtain ⟨hk', hq, hi, hst, hro⟩ := ih
    have hn : u.service.inbox = [] ∨ u.service.phase ≠ .reading := by
      refine hi.imp_right fun hl hp => ?_
      have hph := hl.phase
      simp [hp] at hph
    have hm := hk'.moved now move
    refine ⟨hk'.step now move, hq.moved hk'.orderly hn hm, ?_, ?_⟩
    · rcases hi with hi | hl
      · exact .inl (step_keeps Dispatch.Service.keeps_inbox_nil hi now move)
      · have hl' := step_keeps (Dispatch.Service.keeps_left _) hl now move
        exact .inr ⟨hl'.phase, rfl⟩
    · obtain ⟨hst', hro'⟩ := hm.unmoved hq
      exact ⟨hst'.trans hst, hro'.trans hro⟩

/-- A settled session keeps its state until a message is sent; then it follows its lifecycle. Every
message can be completed, unless it is a notification that another one is ahead of, or comes when the
session has stopped and is not received. -/
structure FollowsLifecycle (s : Server) : Prop where
  unprompted : ∀ t, s.Leads t → t.state = s.state ∧ t.roots = s.roots
  prompted : ∀ frame t u, s.Sends frame t → t.Leads u → s.Conduct frame u
  completes : ∀ frame t u, s.Sends frame t → t.Leads u →
    s.state ≠ .stopped ∨ u.service.inbox = [] →
    ((∃ n, Incoming.ofFrame frame = .notification n) → s.current = none) →
    ∃ v, u.Leads v ∧ v.Completed

end Server

theorem Server.settled_attended (options : Diagnostics.Options) (session : Bytes) :
    (attended options session).Settled := .of_workers_nil rfl rfl rfl

/-- A question that comes before the opening request. -/
def hoverRequest : Rpc.Request := ⟨.text (ascii "1"), featureMethod .hover, none⟩

namespace Server

variable {s t : Server} {frame : Bytes}

/-- One move after the other, all of them at once. -/
def moves (s : Server) (ms : List Move) : Server := ms.foldl (fun s m => (s.step 0 m).1) s

/-- The message was received, and nothing else has happened. -/
def heard (s : Server) (m : Incoming) : Server :=
  { s with service :=
    { s.service.unshift [] with dispatcher := (s.service.dispatcher.receive m).1 } }

theorem Leads.moves (h : s.Leads t) (ms : List Move) : s.Leads (t.moves ms) := by
  induction ms generalizing t with
  | nil => exact h
  | cons m ms ih => exact ih (h.step 0 m)

/-- Taking everything out takes out the message that was sent. -/
theorem Sends.unshift (h : s.Sends frame t) : t.service.unshift [] = s.service.unshift [] := by
  obtain @⟨channel, hw⟩ := h
  obtain ⟨-, hclosed, rfl⟩ := Channel.Duplex.write_ok_iff.mp hw
  have hc : (s.service.channel.inbox .right).closed = false := hclosed
  refine congrArg (fun channel => { s.service with phase := .polling, channel }) ?_
  refine (Channel.Duplex.setInbox_setInbox _ _ _ _).trans ?_
  exact congrArg (fun closed => s.service.channel.setInbox .right ⟨[], closed⟩) hc.symm

/-- A loop that reads takes up what is sent. -/
theorem Sends.heard (h : s.Sends frame t) (hp : s.service.phase = .reading)
    (hf : s.service.readFlaw = none) (hi : s.service.inbox = []) {m : Incoming}
    (hm : Incoming.ofFrame frame = m) (hd : (s.service.dispatcher.receive m).2.1 = none) :
    (t.step 0 .receive).1 = s.heard m := by
  have hu := h.unshift
  obtain @⟨channel, hw⟩ := h
  have hi' : ({ s.service with channel } : Dispatch.Service _ _).inbox = [frame] :=
    (Channel.Duplex.write_messages hw).trans (congrArg (· ++ [frame]) hi)
  subst hm
  rw [Server.step, Dispatch.Service.next?_message (s := { s.service with channel }) hf hp hi', hu]
  have hd' : ((s.service.unshift []).dispatcher.receive (.ofFrame frame)).2.1 = none := hd
  simp only [served, Dispatch.Service.receive_eq, hd']
  rfl

theorem Sends.leads_heard (h : s.Sends frame t) (hp : s.service.phase = .reading)
    (hf : s.service.readFlaw = none) (hi : s.service.inbox = []) {m : Incoming}
    (hm : Incoming.ofFrame frame = m) (hd : (s.service.dispatcher.receive m).2.1 = none)
    (moves : List Move) : t.Leads ((s.heard m).moves moves) :=
  (h.heard hp hf hi hm hd ▸ Leads.refl.step 0 .receive : t.Leads (s.heard m)).moves moves

end Server

theorem Dialogue.leads {options : Diagnostics.Options} {session : Bytes} {s t : Server}
    (h : Dialogue options session s) (ht : s.Leads t) : Dialogue options session t := by
  induction ht with
  | refl => exact h
  | step _ now move ih => exact ih.step now move

theorem Dialogue.heard {options : Diagnostics.Options} {session : Bytes} {s : Server}
    (h : Dialogue options session s) (hs : s.Settled) (frame : Bytes) {channel : Channel.Duplex}
    (hw : s.service.channel.write .left frame = .ok channel) (hp : s.service.phase = .reading)
    (hf : s.service.readFlaw = none) (hi : s.service.inbox = []) {m : Incoming}
    (hm : Incoming.ofFrame frame = m) (hd : (s.service.dispatcher.receive m).2.1 = none)
    (moves : List Move) : Dialogue options session ((s.heard m).moves moves) :=
  have ht : s.Sends frame _ := ⟨hw⟩
  (h.send hs ht).leads (ht.leads_heard hp hf hi hm hd moves)

/-- The request that begins the session. -/
def initializeRequest : Rpc.Request := ⟨.text (ascii "1"), RequestHandler.handshake.method, none⟩

def openNote : Rpc.Notification where
  method := NotificationHandler.didOpen.method
  params := some (.record [("textDocument", .record
    [("uri", .text (ascii "a")), ("languageId", .text (ascii "vb")), ("version", .int 1),
      ("text", .text [])])])

def exitNote : Rpc.Notification := ⟨NotificationHandler.exit.method, none⟩

def initializedNote : Rpc.Notification := ⟨NotificationHandler.initialized.method, none⟩

/-- A session that has begun. -/
def begunServer : Server :=
  (((Server.attended {} Channel.sessionStem).moves [.receive]).heard
    (.request initializeRequest)).moves [.serve 0, .deliver 0, .receive]

/-- A document was opened, which the model does not know, and was diagnosed. -/
def editedServer : Server :=
  (begunServer.heard (.notification openNote)).moves
    [.handle, .resolve 0 (.ok none), .tell 0, .beginComputation, .diagnosed 0 (.ok []), .receive]

/-- An exit was handled while the loop waits for a message. -/
def leftServer : Server := (editedServer.heard (.notification exitNote)).moves [.receive, .handle]

theorem dialogue_begunServer : Dialogue {} Channel.sessionStem begunServer :=
  (Dialogue.start.step 0 .receive).heard (.of_workers_nil rfl rfl rfl) initializeRequest.encode
    rfl rfl rfl rfl (Incoming.ofFrame_request _ (by simp [initializeRequest, Rpc.Legible])) rfl _

theorem legible_openNote : Rpc.Legible openNote.params := by
  rintro _ ⟨⟩
  refine Rpc.legible_record (n := 510) (by decide) (List.forall_mem_singleton.mpr ?_)
  refine Rpc.legible_record (n := 509) (by decide) ?_
  simp [Json.depth, Json.Exact.text, Json.Exact.int]

theorem dialogue_editedServer : Dialogue {} Channel.sessionStem editedServer :=
  dialogue_begunServer.heard (.of_workers_nil rfl rfl rfl) openNote.encode rfl rfl rfl rfl
    (Incoming.ofFrame_notification _ legible_openNote (by decide)) rfl _

theorem dialogue_leftServer : Dialogue {} Channel.sessionStem leftServer :=
  dialogue_editedServer.heard (.of_workers_nil rfl rfl rfl) exitNote.encode rfl rfl rfl rfl
    (Incoming.ofFrame_notification _ (by simp [exitNote, Rpc.Legible]) (by decide)) rfl _

/-- The project model was asked to open the workspace after the exit. -/
def reopeningServer : Server :=
  (leftServer.heard (.notification initializedNote)).moves [.handle]

/-- While it was open, the model came to know the document. -/
def reopenedServer : Server :=
  reopeningServer.moves [.modelChanged [], .resolve 1 (.ok (some ⟨ascii "a", 0⟩)),
    .resolve 1 (.ok none), .tell 1, .opened, .beginComputation, .diagnosed 1 (.ok [])]

/-- The loop has seen that it was asked to stop. -/
def dismissedServer : Server := leftServer.moves [.receive]

end EditorSession.Session
