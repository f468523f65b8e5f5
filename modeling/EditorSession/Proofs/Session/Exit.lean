import EditorSession.Proofs.Dispatch.Wire
import EditorSession.Proofs.Session.Step

/-! The code that a session returns. Requests and notifications are handled while the receive loop
reads on, so it may take in further exits before it finds that it was asked to stop. A handler is not
one step either: a shutdown is found permitted before it changes the state, and an exit looks at the
state before it acts on what it has seen. -/

namespace EditorSession.Session

open Dispatch (WorkerId)

/-- What a run leaves on record. -/
inductive Event where
  /-- A request to shut down, which was found permitted, has changed the state. -/
  | accepted
  /-- An exit is being handled, and has looked at the state. -/
  | exiting
  /-- The exit has left its code. -/
  | exited
deriving DecidableEq

/-- A server with the handlers that are between two steps. -/
structure Scene where
  server : Server
  /-- Requests to shut down that were found permitted. -/
  permitted : List WorkerId := []
  /-- What the exit that is being handled has found. -/
  leaving : Option Bool := none

namespace Scene

/-- The move is none of those that are taken in two steps. -/
def Whole (w : Scene) : Session.Move → Prop
  | .serve id => id ∉ w.permitted ∧ ∀ worker, w.server.Serves id worker →
      worker.handler = .shutdown → w.server.state ≠ .running
  | .handle => ∀ service job, w.server.service.takeJob = (service, some job) → job.handler ≠ .exit
  | _ => True

/-- Nothing is assumed of the client, of stop requests and of reads that fail. -/
inductive Move : Scene → List Event → Scene → Prop where
  | step {w} (now move) (hw : w.Whole move) :
      Move w [] { w with server := (w.server.step now move).1 }
  | permit {w id worker} (hw : w.server.Serves id worker) (hh : worker.handler = .shutdown)
      (hs : w.server.state = .running) : Move w [] { w with permitted := id :: w.permitted }
  | accept {w id} (h : id ∈ w.permitted) :
      Move w [.accepted]
        { w with
          server := (w.server.acceptShutdown id).1
          permitted := w.permitted.filter (· ≠ id) }
  | look {w service job} (hj : w.server.service.takeJob = (service, some job))
      (hh : job.handler = .exit) :
      Move w [.exiting]
        { w with
          server := { w.server with service }
          leaving := some (w.server.state = .shuttingDown) }
  | leave {w clean} (h : w.leaving = some clean) :
      Move w [.exited] { w with server := (w.server.exit clean).1, leaving := none }
  | outside (w channel stopRequested readFlaw) :
      Move w []
        { w with
          server := { w.server with
            service := { w.server.service with channel, stopRequested, readFlaw } } }

/-- A run, with its record, of a server whose transport has started. -/
inductive Run : List Event → Scene → Prop where
  | start (options session) : Run [] { server := ((Server.create options session).run none).1 }
  | tail {trace w events w'} : Run trace w → Move w events w' → Run (trace ++ events) w'

/-- A server whose handlers are not interrupted takes its steps in a run. -/
theorem Run.exists_server_step {trace : List Event} {w : Scene} (h : Run trace w)
    (hp : w.permitted = []) (hl : w.leaving = none) (now : Int) (move : Session.Move) :
    ∃ events, Run (trace ++ events) { w with server := (w.server.step now move).1 } := by
  obtain ⟨server, permitted, leaving⟩ := w
  obtain rfl : permitted = [] := hp
  obtain rfl : leaving = none := hl
  by_cases hw : Scene.Whole { server } move
  · exact ⟨_, h.tail (.step now move hw)⟩
  · cases move with
    | serve id =>
      obtain ⟨worker, hs, hh, hr⟩ : ∃ worker, server.Serves id worker ∧
          worker.handler = .shutdown ∧ server.state = .running := by
        simpa [Whole] using hw
      have hserve : server.serve id = server.acceptShutdown id := by
        rw [hs.serve_eq, hh]
        simp [Server.serveShutdown, hr, State.permit]
      have h' := (h.tail (.permit hs hh hr)).tail (.accept (List.mem_singleton_self id))
      refine ⟨[.accepted], ?_⟩
      simpa [Server.step, hserve] using h'
    | handle =>
      obtain ⟨service, job, hj, hh⟩ : ∃ service job, server.service.takeJob = (service, some job) ∧
          job.handler = .exit := by
        simpa [Whole] using hw
      have hhandle : server.handle = ({ server with service } : Server).handleExit := by
        simp [Server.handle, hj, hh]
      have h' := (h.tail (.look hj hh)).tail (.leave rfl)
      refine ⟨[.exiting, .exited], ?_⟩
      simpa [Server.step, hhandle, Server.handleExit] using h'
    | _ => exact absurd trivial hw

end Scene

/-! ### The record -/

/-- A shutdown was accepted, and no exit was done since. -/
def ShutDown (trace : List Event) : Prop :=
  ∃ before after, trace = before ++ .accepted :: after ∧ .exited ∉ after

/-- The last exit to be handled came after a shutdown, and no other exit was done in between. -/
def LastClean (trace : List Event) : Prop :=
  ∃ before after, trace = before ++ .exiting :: after ∧ .exiting ∉ after ∧ ShutDown before

/-- The first exit to be handled came after a shutdown. -/
def FirstClean (trace : List Event) : Prop :=
  ∃ before after, trace = before ++ .exiting :: after ∧ .exiting ∉ before ∧ .accepted ∈ before

variable {trace : List Event}

/-- A record that is split at an event is split at its last one, or before. -/
theorem snoc_eq_split {α : Type} {xs before after : List α} {x y : α} :
    xs ++ [x] = before ++ y :: after ↔
      (xs = before ∧ x = y ∧ after = []) ∨
        ∃ rest, xs = before ++ y :: rest ∧ after = rest ++ [x] := by
  rcases List.eq_nil_or_concat after with rfl | ⟨rest, z, rfl⟩
  · simp
  · constructor
    · intro h
      rw [List.concat_eq_append, ← List.cons_append, ← List.append_assoc] at h
      obtain ⟨hxs, hx⟩ := List.append_inj' h rfl
      refine .inr ⟨rest, hxs, ?_⟩
      rw [List.concat_eq_append, hx]
    · rintro (⟨-, -, h⟩ | ⟨rest', rfl, h⟩)
      · simp at h
      · rw [h]
        simp

theorem shutDown_snoc {e : Event} :
    ShutDown (trace ++ [e]) ↔ e = .accepted ∨ e ≠ .exited ∧ ShutDown trace := by
  unfold ShutDown
  simp only [snoc_eq_split]
  constructor
  · rintro ⟨before, after, ⟨-, rfl, -⟩ | ⟨rest, rfl, rfl⟩, hn⟩
    · exact .inl rfl
    · simp only [List.mem_append, List.mem_singleton, not_or] at hn
      exact .inr ⟨Ne.symm hn.2, before, rest, rfl, hn.1⟩
  · rintro (rfl | ⟨he, before, after, rfl, hn⟩)
    · exact ⟨trace, [], .inl ⟨rfl, rfl, rfl⟩, by simp⟩
    · exact ⟨before, after ++ [e], .inr ⟨after, rfl, rfl⟩, by simp [hn, Ne.symm he]⟩

theorem lastClean_snoc_exiting : LastClean (trace ++ [.exiting]) ↔ ShutDown trace := by
  unfold LastClean
  simp only [snoc_eq_split]
  constructor
  · rintro ⟨before, after, ⟨rfl, -, -⟩ | ⟨rest, -, rfl⟩, hn, hs⟩
    · exact hs
    · simp at hn
  · intro hs
    exact ⟨trace, [], .inl ⟨rfl, trivial, rfl⟩, by simp, hs⟩

theorem lastClean_snoc {e : Event} (he : e ≠ .exiting) :
    LastClean (trace ++ [e]) ↔ LastClean trace := by
  unfold LastClean
  simp only [snoc_eq_split]
  constructor
  · rintro ⟨before, after, ⟨-, rfl, -⟩ | ⟨rest, rfl, rfl⟩, hn, hs⟩
    · exact absurd rfl he
    · exact ⟨before, rest, rfl, fun hm => hn (List.mem_append_left _ hm), hs⟩
  · rintro ⟨before, after, rfl, hn, hs⟩
    exact ⟨before, after ++ [e], .inr ⟨after, rfl, rfl⟩, by simp [hn, Ne.symm he], hs⟩

/-- No exit is done that was not being handled. -/
def Bracketed (trace : List Event) : Prop :=
  ∀ before after, trace = before ++ .exited :: after → .exiting ∈ before

theorem bracketed_snoc {e : Event} :
    Bracketed (trace ++ [e]) ↔ (e = .exited → .exiting ∈ trace) ∧ Bracketed trace := by
  unfold Bracketed
  simp only [snoc_eq_split]
  constructor
  · intro h
    exact ⟨fun he => h trace [] (.inl ⟨rfl, he, rfl⟩),
      fun before after ht => h before (after ++ [e]) (.inr ⟨after, ht, rfl⟩)⟩
  · rintro ⟨he, h⟩ before after (⟨rfl, hx, -⟩ | ⟨rest, ht, -⟩)
    · exact he hx
    · exact h before rest ht

/-- When only one exit was handled, it was the first and the last. -/
theorem lastClean_iff_firstClean (hb : Bracketed trace) (hc : trace.count .exiting ≤ 1) :
    LastClean trace ↔ FirstClean trace := by
  have hone : ∀ before after, trace = before ++ .exiting :: after →
      Event.exiting ∉ before ∧ Event.exiting ∉ after := by
    rintro before after rfl
    simp only [List.count_append, List.count_cons_self] at hc
    constructor <;> rw [← List.count_eq_zero] <;> omega
  constructor
  · rintro ⟨before, after, ht, -, shut, rest, rfl, -⟩
    exact ⟨_, after, ht, (hone _ _ ht).1, by simp⟩
  · rintro ⟨before, after, ht, hn, hm⟩
    obtain ⟨shut, rest, rfl⟩ := List.append_of_mem hm
    refine ⟨_, after, ht, (hone _ _ ht).2, shut, rest, rfl, ?_⟩
    -- an exit that was done would have been handled before
    intro hx
    obtain ⟨more, last, rfl⟩ := List.append_of_mem hx
    have hm := hb (shut ++ .accepted :: more) (last ++ .exiting :: after) (by rw [ht]; simp)
    refine hn ?_
    simp only [List.mem_append, List.mem_cons, reduceCtorEq, false_or] at hm ⊢
    exact hm.imp_right .inl

/-! ### The state and the code -/

/-- What the state, the code and the exit under way have to do with what was done. -/
structure Accounted (trace : List Event) (w : Scene) : Prop where
  state : (∀ code, w.server.stage ≠ .returned code) →
    (w.server.state = .shuttingDown ↔ ShutDown trace)
  leaving : ∀ clean, w.leaving = some clean → (clean = true ↔ LastClean trace)
  code : w.leaving = none → (w.server.exitCode = 0 ↔ LastClean trace)
  bit : w.server.exitCode = 0 ∨ w.server.exitCode = 1
  bracketed : Bracketed trace
  handled : w.leaving.isSome → .exiting ∈ trace
  busy : w.server.chore.isSome → w.server.current.isSome
  held : w.leaving.isSome → w.server.current.isSome ∧ w.server.chore = none
  finished : w.server.service.phase = .finished → w.server.service.Over
  ended : w.server.stage ≠ .serving → w.server.service.Over
  returned : ∀ code, w.server.stage = .returned code → w.server.exitCode = code

namespace Accounted

variable {w w' : Scene}

theorem start (options : Diagnostics.Options) (session : Bytes) :
    Accounted [] { server := ((Server.create options session).run none).1 } where
  state _ := by simp [ShutDown, Server.run, Server.saying, Server.served]
  leaving _ h := by cases h
  code _ := by simp [LastClean, Server.create, Server.run, Server.saying, Server.served]
  bit := .inr rfl
  bracketed := by simp [Bracketed]
  handled h := by cases h
  busy h := by cases h
  held h := by cases h
  finished h := by cases h
  ended h := absurd rfl h
  returned _ h := by cases h

/-- A job is only taken while the run goes on and no other is being handled. -/
theorem of_takeJob (h : Accounted trace w)
    {service : Dispatch.Service RequestHandler NotificationHandler}
    {job : Dispatch.Job NotificationHandler}
    (hj : w.server.service.takeJob = (service, some job)) :
    w.server.stage = .serving ∧ w.leaving = none ∧ w.server.chore = none := by
  obtain ⟨hn, -⟩ := Dispatch.Service.takeJob_eq_some hj
  have hcurrent : w.server.current = none := hn
  refine ⟨?_, ?_, ?_⟩
  · by_contra hs
    simp [(h.ended hs).takeJob] at hj
  · rw [← Option.not_isSome_iff_eq_none]
    intro hl
    have hb := (h.held hl).1
    rw [hcurrent] at hb
    cases hb
  · rw [← Option.not_isSome_iff_eq_none]
    intro hc
    have hb := h.busy hc
    rw [hcurrent] at hb
    cases hb

/-- While an exit is being handled the run has not returned. -/
theorem serving_of_leaving (h : Accounted trace w) (hl : w.leaving.isSome) :
    w.server.stage = .serving := by
  by_contra hs
  have hc := (h.held hl).1
  rw [Server.current, (h.ended hs).current] at hc
  cases hc

theorem busy_of_tending (h : Accounted trace w) {s' : Server} (ht : w.server.Tending s') :
    s'.chore.isSome → s'.current.isSome := by
  intro hc
  cases ht with
  | still hc' hj =>
    rw [hj]
    exact h.busy (hc' ▸ hc)
  | begun _ hj =>
    rw [hj]
    rfl
  | ended _ hc' =>
    rw [hc'] at hc
    cases hc

theorem held_of_tending (h : Accounted trace w) {s' : Server} (ht : w.server.Tending s') :
    w.leaving.isSome → s'.current.isSome ∧ s'.chore = none := by
  intro hl
  obtain ⟨hcurrent, hchore⟩ := h.held hl
  cases ht with
  | still hc hj => exact ⟨hj ▸ hcurrent, hc.trans hchore⟩
  | begun hn => simp [hn] at hcurrent
  | ended hs =>
    rcases hs with hs | hs
    · simp [hchore] at hs
    · simp [hs] at hcurrent

/-- A move that is taken in one step leaves the record and the code as they are. -/
theorem step (h : Accounted trace w) {move : Session.Move} (hw : w.Whole move) (now : Int) :
    Accounted trace { w with server := (w.server.step now move).1 } := by
  have ht := w.server.step_tending now move
  have hover : w.server.service.Over → (w.server.step now move).1.service.Over :=
    fun hs => Server.step_keeps Dispatch.Service.keeps_over hs now move
  have hfinished := Server.step_keeps Dispatch.Service.keeps_finished h.finished now move
  have hturn := w.server.step_life now move
  generalize (w.server.step now move).1 = s' at ht hover hfinished hturn ⊢
  -- what there is to show once the new state, stage and code are known
  have main : ∀ state stage, s'.state = state → s'.stage = stage →
      s'.exitCode = w.server.exitCode →
      ((∀ code, stage ≠ .returned code) → (state = .shuttingDown ↔ ShutDown trace)) →
      (stage ≠ .serving → s'.service.Over) →
      (∀ code, stage = .returned code → w.server.exitCode = code) →
      Accounted trace { w with server := s' } := by
    rintro state stage rfl rfl hcode hstate hended hreturned
    exact ⟨hstate, h.leaving, by rw [hcode]; exact h.code, by rw [hcode]; exact h.bit, h.bracketed,
      h.handled, h.busy_of_tending ht, h.held_of_tending ht, hfinished, hended,
      by rw [hcode]; exact hreturned⟩
  generalize hl : s'.life = life at hturn
  have hstate := congrArg Life.state hl
  have hstage := congrArg Life.stage hl
  have hcode := congrArg Life.exitCode hl
  cases hturn with
  | still => exact main _ _ hstate hstage hcode h.state (fun hs => hover (h.ended hs)) h.returned
  | handshake _ _ hs =>
    refine main _ _ hstate hstage hcode ?_ (fun hs => hover (h.ended hs)) h.returned
    intro hnone
    have hshut := h.state hnone
    rw [hs] at hshut
    rw [← hshut]
    simp
  | shutdown hserves hh hs => exact absurd hs (hw.2 _ hserves hh)
  | exit hj hh => exact absurd hh (hw _ _ hj)
  | closing hs hp =>
    refine main _ _ hstate hstage hcode ?_ (fun _ => hover (h.finished hp)) (by simp)
    intro _
    exact h.state (by simp [hs])
  | returned hs =>
    refine main _ _ hstate hstage hcode (fun hn => absurd rfl (hn _)) ?_ ?_
    · intro _
      rcases hs with ⟨-, hp⟩ | hs
      · exact hover (h.finished hp)
      · exact hover (h.ended (by simp [hs]))
    · rintro code ⟨⟩
      rfl

theorem accept (h : Accounted trace w) (id : WorkerId) (permitted : List WorkerId) :
    Accounted (trace ++ [.accepted])
      { w with server := (w.server.acceptShutdown id).1, permitted } := by
  have hlife := w.server.acceptShutdown_life id
  have hsv := w.server.acceptShutdown_serving id
  have hstate : (w.server.acceptShutdown id).1.state = .shuttingDown := congrArg Life.state hlife
  have hstage : (w.server.acceptShutdown id).1.stage = w.server.stage := congrArg Life.stage hlife
  have hcode : (w.server.acceptShutdown id).1.exitCode = w.server.exitCode :=
    congrArg Life.exitCode hlife
  have hclean : LastClean (trace ++ [.accepted]) ↔ LastClean trace := lastClean_snoc (by simp)
  refine ⟨?_, ?_, ?_, ?_, bracketed_snoc.mpr ⟨by simp, h.bracketed⟩,
    fun hl => List.mem_append_left _ (h.handled hl), h.busy_of_tending hsv.tending,
    h.held_of_tending hsv.tending,
    hsv.bears Dispatch.Service.keeps_finished.toBears h.finished, ?_, ?_⟩
  · simp [hstate, shutDown_snoc]
  · simpa only [hclean] using h.leaving
  · simpa only [hclean, hcode] using h.code
  · simpa only [hcode] using h.bit
  · intro hs
    exact hsv.bears Dispatch.Service.keeps_over.toBears (h.ended (hstage ▸ hs))
  · simpa only [hstage, hcode] using h.returned

theorem look (h : Accounted trace w)
    {service : Dispatch.Service RequestHandler NotificationHandler}
    {job : Dispatch.Job NotificationHandler}
    (hj : w.server.service.takeJob = (service, some job)) :
    Accounted (trace ++ [.exiting])
      { w with
        server := { w.server with service }
        leaving := some (w.server.state = .shuttingDown) } := by
  obtain ⟨hstage, -, hchore⟩ := h.of_takeJob hj
  obtain ⟨hn, rest, -, rfl⟩ := Dispatch.Service.takeJob_eq_some hj
  have hover := Dispatch.Service.keeps_finished.takeJob _ h.finished
  rw [hj] at hover
  have hshut := h.state (by simp [hstage])
  refine ⟨?_, ?_, by simp, h.bit, bracketed_snoc.mpr ⟨by simp, h.bracketed⟩, by simp,
    fun _ => rfl, fun _ => ⟨rfl, hchore⟩, hover, fun hs => absurd hstage hs, h.returned⟩
  · intro _
    rw [shutDown_snoc]
    simpa using hshut
  · rintro _ ⟨⟩
    rw [lastClean_snoc_exiting, decide_eq_true_iff]
    exact hshut

theorem leave (h : Accounted trace w) {clean : Bool} (hl : w.leaving = some clean) :
    Accounted (trace ++ [.exited])
      { w with server := (w.server.exit clean).1, leaving := none } := by
  have hstage := h.serving_of_leaving (by rw [hl]; rfl)
  have hclean : LastClean (trace ++ [.exited]) ↔ LastClean trace := lastClean_snoc (by simp)
  have hcode : (w.server.exit clean).1.exitCode = if clean then 0 else 1 := rfl
  refine ⟨?_, by simp, ?_, ?_, bracketed_snoc.mpr ⟨fun _ => h.handled (by rw [hl]; rfl),
    h.bracketed⟩, by simp, by simp [Server.exit, Server.saying, Server.finishJob, Server.served],
    by simp, Server.exit_bears Dispatch.Service.keeps_finished.toBears h.finished
      Dispatch.Service.keeps_finished.stop clean,
    fun hs => absurd hstage hs, fun code hs => ?_⟩
  · intro _
    simp [shutDown_snoc, Server.exit, Server.saying, Server.finishJob, Server.served,
      Server.requestStop]
  · intro _
    rw [hclean, ← h.leaving clean hl, hcode]
    cases clean <;> simp
  · rw [hcode]
    cases clean <;> simp
  · have hs' : w.server.stage = .returned code := hs
    simp [hstage] at hs'

theorem move {events : List Event} (h : Accounted trace w) (hm : w.Move events w') :
    Accounted (trace ++ events) w' := by
  cases hm with
  | step now move hw =>
    rw [List.append_nil]
    exact h.step hw now
  | permit =>
    rw [List.append_nil]
    exact ⟨h.state, h.leaving, h.code, h.bit, h.bracketed, h.handled, h.busy, h.held, h.finished,
      h.ended, h.returned⟩
  | accept => exact h.accept _ _
  | look hj => exact h.look hj
  | leave hl => exact h.leave hl
  | outside channel stopRequested readFlaw =>
    rw [List.append_nil]
    exact ⟨h.state, h.leaving, h.code, h.bit, h.bracketed, h.handled, h.busy, h.held,
      fun hp => (h.finished hp).of_dispatcher rfl rfl, fun hs => (h.ended hs).of_dispatcher rfl rfl,
      h.returned⟩

end Accounted

theorem Scene.Run.accounted {w : Scene} (h : Run trace w) : Accounted trace w := by
  induction h with
  | start options session => exact .start options session
  | tail _ hm ih => exact ih.move hm

/-! ### The account of a run -/

/-- The code tells how the last exit was found: it is zero if a shutdown was accepted before that exit
and no other exit was done in between. Where only one exit was handled, it is zero if this came after a
shutdown. -/
structure ExitCode (trace : List Event) (code : Nat) : Prop where
  bit : code = 0 ∨ code = 1
  last : code = 0 ↔ LastClean trace
  once : trace.count .exiting ≤ 1 → (code = 0 ↔ FirstClean trace)

/-- Every run that returns has returned this code. -/
theorem Scene.Run.exitCode {w : Scene} {code : Nat} (h : Run trace w)
    (hr : w.server.stage = .returned code) : ExitCode trace code := by
  have ha := h.accounted
  obtain rfl := ha.returned code hr
  have hleaving : w.leaving = none := by
    rw [← Option.not_isSome_iff_eq_none]
    intro hl
    simp [ha.serving_of_leaving hl] at hr
  have hlast := ha.code hleaving
  exact ⟨ha.bit, hlast, fun hc => hlast.trans (lastClean_iff_firstClean ha.bracketed hc)⟩

/-! ### A session that is left twice -/

def initializeFrame : Bytes :=
  (⟨.text (ascii "1"), RequestHandler.handshake.method, none⟩ : Rpc.Request).encode

def shutdownFrame : Bytes :=
  (⟨.text (ascii "2"), RequestHandler.shutdown.method, none⟩ : Rpc.Request).encode

def exitFrame : Bytes := (⟨NotificationHandler.exit.method, none⟩ : Rpc.Notification).encode

/-- A channel with the given messages for the server. -/
def channelWith (messages : List Bytes) : Channel.Duplex :=
  { connected := fun _ => true
    inbox := fun side => { messages := if side = .right then messages else [] } }

theorem Scene.Run.receive {trace : List Event} {w : Scene} (h : Run trace w)
    {channel : Channel.Duplex} {frame : Bytes} {m : Dispatch.Incoming}
    {d : Dispatch.Dispatcher RequestHandler NotificationHandler} {notices : List Log.Notice}
    (hp : w.server.service.phase = .reading) (hf : w.server.service.readFlaw = none)
    (hr : w.server.service.channel.read Dispatch.Service.ownSide = (channel, .message frame))
    (hm : Dispatch.Incoming.ofFrame frame = m)
    (hd : w.server.service.dispatcher.receive m = (d, none, notices)) :
    Run trace { w with
      server := { w.server with
        service := { w.server.service with dispatcher := d, channel, phase := .polling } } } := by
  subst hm
  have h' := h.tail (.step 0 .receive trivial)
  simpa [Server.step, Dispatch.Service.next?, Dispatch.Service.read?, hp, hf, hr,
    Dispatch.Service.receive, hd, Server.served] using h'

/-- A session that was sent a request to begin and a request to shut down. -/
def askedServer : Server where
  service :=
    { dispatcher :=
        { requestHandlers
          notificationHandlers
          pending := [(Rpc.Id.key (.text (ascii "1")), 0), (Rpc.Id.key (.text (ascii "2")), 1)]
          workers :=
            [{ id := 0, request := ⟨.text (ascii "1"), RequestHandler.handshake.method, none⟩
               handler := .handshake },
              { id := 1, request := ⟨.text (ascii "2"), RequestHandler.shutdown.method, none⟩
                handler := .shutdown }]
          accepted := 2 }
      channel := channelWith []
      phase := .polling }
  workspace := .empty {}
  state := .initializing
  stage := .serving

/-- A session that was shut down, with the given messages still to be received. -/
def shutServer (messages : List Bytes) : Server where
  service :=
    { dispatcher := { requestHandlers, notificationHandlers, accepted := 2 }
      channel := channelWith messages
      phase := .polling }
  workspace := { Workspace.empty {} with pipeline := { shut := true } }
  state := .shuttingDown
  stage := .serving

theorem Scene.run_askedServer : Run [] { server := askedServer } := by
  have h0 := (Run.start {} Channel.sessionStem).tail
    (.outside _ (channelWith [initializeFrame, shutdownFrame]) false none)
  have h1 := (h0.tail (.step 0 .receive trivial)).receive rfl rfl rfl
    (Dispatch.Incoming.ofFrame_request _ (by simp [Rpc.Legible])) rfl
  have h2 := (h1.tail (.step 0 .receive trivial)).receive rfl rfl rfl
    (Dispatch.Incoming.ofFrame_request _ (by simp [Rpc.Legible])) rfl
  exact h2.tail (.outside _ (channelWith []) false none)

theorem Scene.run_shutServer (messages : List Bytes) :
    Run [.accepted] { server := shutServer messages } := by
  have h1 := run_askedServer.tail (.step 0 (.serve 0) ⟨by simp, by
    rintro worker ⟨hw, -, -⟩ hh
    cases hw
    cases hh⟩)
  have h2 := h1.tail (@Scene.Move.permit _ 1 _ ⟨rfl, rfl, rfl⟩ rfl rfl)
  have h3 := (h2.tail (.accept (.head _))).tail (.step 0 (.calm 1) trivial)
  have h4 := (h3.tail (.step 0 (.deliver 0) trivial)).tail (.step 0 (.deliver 1) trivial)
  exact h4.tail (.outside _ (channelWith messages) false none)

/-- An exit after a shutdown, and the session returns. -/
theorem Scene.Run.exitCode_exit :
    ∃ w, Run [.accepted, .exiting, .exited] w ∧ w.server.stage = .returned 0 ∧
      ExitCode [.accepted, .exiting, .exited] 0 := by
  have h1 := ((run_shutServer [exitFrame]).tail (.step 0 .receive trivial)).receive rfl rfl rfl
    (Dispatch.Incoming.ofFrame_notification _ (by simp [Rpc.Legible]) (by decide)) rfl
  have h2 := (h1.tail (.look rfl rfl)).tail (.leave rfl)
  have h3 := (h2.tail (.step 0 .receive trivial)).tail (.step 0 .receive trivial)
  have h4 := h3.tail (.step 0 .close trivial)
  exact ⟨_, h4, rfl, Scene.Run.exitCode h4 rfl⟩

/-- A second exit is received before the loop finds that it was asked to stop. The first one came
after the shutdown, and still the code is one. -/
theorem Scene.returned_one_firstClean :
    ∃ trace w, Run trace w ∧ w.server.stage = .returned 1 ∧ FirstClean trace := by
  have h1 := ((run_shutServer [exitFrame, exitFrame]).tail (.step 0 .receive trivial)).receive rfl rfl
    rfl (Dispatch.Incoming.ofFrame_notification _ (by simp [Rpc.Legible]) (by decide)) rfl
  have h2 := (h1.tail (.step 0 .receive trivial)).receive rfl rfl rfl
    (Dispatch.Incoming.ofFrame_notification _ (by simp [Rpc.Legible]) (by decide)) rfl
  have h3 := (h2.tail (.look rfl rfl)).tail (.leave rfl)
  have h4 := (h3.tail (.look rfl rfl)).tail (.leave rfl)
  have h5 := (h4.tail (.step 0 .receive trivial)).tail (.step 0 .receive trivial)
  have h6 := h5.tail (.step 0 .close trivial)
  exact ⟨_, _, h6, rfl, [.accepted], [.exited, .exiting, .exited], rfl, by decide, by decide⟩

end EditorSession.Session
