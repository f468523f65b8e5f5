import EditorSession.Analysis.Absent
import EditorSession.Rehearsal.Exchange
import EditorSession.Session.Server

/-! A whole session rehearsed: a server between a client at the other end of its channel and
collaborators that are scripted or absent, on a clock that moves by hand. -/

namespace EditorSession.Rehearsal

open Dispatch (WorkerId ReadFlaw)
open Session (Move Server)

/-- A line of the client's script. -/
inductive Line where
  | run
  | send (text : Bytes)
  /-- Asks for the roots of the opened workspace. -/
  | roots
  | stop
  | closeClient
  | breakRead (flaw : ReadFlaw)
  | model (change : Model → Model)
  | engine (change : Engine → Engine)
  /-- The model learns uris and reports a change. -/
  | load (uris : List Bytes)
  | release (key : Bytes)
  | advance (milliseconds : Int)

structure Sitting where
  server : Server
  model : Model := {}
  engine : Engine := {}
  /-- Stands in for both collaborators. -/
  absent : Option Analysis.Absent.Model := none
  /-- Why the channel cannot be started. -/
  startFlaw : Option Bytes := none
  calls : List Call := []
  now : Int := 0
  /-- The model has reported a change while it opens the workspace. -/
  announced : Bool := false
  trace : Trace := {}

namespace Sitting

/-- The client is connected; the server has not been run. -/
def start (options : Diagnostics.Options) (session : Bytes) (absent : Bool)
    (startFlaw : Option Bytes) : Sitting :=
  let server := Server.create options session
  let service := { server.service with channel := server.service.channel.start clientSide }
  { server := { server with service }
    absent := if absent then some { watched := true } else none
    startFlaw
    trace := { notices := [Channel.startNotice session] } }

def say (t : Sitting) (notices : List Log.Notice) : Sitting :=
  { t with trace := { t.trace with notices := t.trace.notices ++ notices } }

def recordModelCall (t : Sitting) (entry : Bytes) : Sitting :=
  { t with trace := { t.trace with modelCalls := t.trace.modelCalls ++ [entry] } }

def recordEngineCall (t : Sitting) (entry : Bytes) : Sitting :=
  { t with trace := { t.trace with engineCalls := t.trace.engineCalls ++ [entry] } }

/-- Takes in a step of the server. -/
def stepped (t : Sitting) (step : Session.Step) : Sitting := { t with server := step.1 }.say step.2

/-- The server takes a move. -/
def take (t : Sitting) (move : Move) : Sitting := t.stepped (t.server.step t.now move)

/-! ### The collaborators -/

/-- Calls the engine for a request; an absent engine answers at once. -/
def ask (t : Sitting) (id : WorkerId) (query : Analysis.Query) : Sitting :=
  match t.absent with
  | some _ => t.take (.answer id fun feature => .ok (Analysis.Absent.result feature))
  | none =>
    { t.recordEngineCall (queryRecord query) with
      calls := t.calls ++ [⟨.request id, queryKey query, t.engine.serving, false⟩] }

/-- Starts the handler of a request. -/
def serve (t : Sitting) (id : WorkerId) : Sitting :=
  let t := t.take (.serve id)
  match t.server.wait? id with
  | some (.engine query) => t.ask id query
  | _ => t

/-- The question that a running computation puts to the engine. -/
def inspection? (t : Sitting) (id : Diagnostics.ComputationId) : Option Analysis.Inspection :=
  match t.server.workspace.pipeline.computation? id with
  | none => none
  | some c =>
    match c.stage with
    | .queued => none
    | .running snapshot => some snapshot.inspection

/-- Begins the next computation and calls the engine. -/
def beginComputation (t : Sitting) (id : Diagnostics.ComputationId) : Sitting :=
  let t := t.take .beginComputation
  match t.inspection? id, t.absent with
  | none, _ => t
  | some inspection, some _ => t.take (.diagnosed id (.ok (Analysis.Absent.diagnostics inspection)))
  | some inspection, none =>
    { t.recordEngineCall (inspectionRecord inspection) with
      calls := t.calls ++
        [⟨.computation id, inspectionKey inspection, t.engine.diagnosing, false⟩] }

/-- The engine returns from a call. -/
def finishCall (t : Sitting) (call : Call) (outcome : Analysis.Outcome Unit) : Sitting :=
  let t := { t with calls := Call.drop call.caller t.calls }
  match call.caller with
  | .request id => t.take (.answer id (t.engine.answers outcome))
  | .computation id =>
    match t.inspection? id with
    | some inspection =>
      t.take (.diagnosed id (t.engine.diagnose t.model.text inspection outcome))
    | none => t

/-- The project model answers an operation. -/
def resolve (t : Sitting) (id : OperationId) (call : Document.ModelCall) : Sitting :=
  match t.absent with
  | some _ =>
    t.take (.resolve id (.ok (match call with
      | .resolve uri => Analysis.Absent.resolve uri
      | .update uri text => Analysis.Absent.update uri text)))
  | none =>
    let (model, answer) := t.model.answer call
    { t with model }.recordModelCall (callRecord call) |>.take (.resolve id answer)

/-- The project model opens the workspace. If it reports a change meanwhile, it returns when that
has been worked off. -/
def openWorkspace (t : Sitting) (roots : List Bytes) : Sitting :=
  let (t, reports) := match t.absent with
    | some absent =>
      let (absent, watched, notices) := absent.openWorkspace roots
      ({ t with absent := some absent }.say notices, watched)
    | none =>
      ({ t with model := { t.model with roots } }.recordModelCall (Model.openRecord roots),
        t.model.announces)
  if reports then { t with announced := true }.take (.modelChanged []) else t.take .opened

/-! ### The schedule -/

/-- Whether the caller of an engine call was asked to stop. -/
def stopped (t : Sitting) : Caller → Bool
  | .request id => ((t.server.service.dispatcher.worker? id).map (·.stopped)).getD false
  | .computation id =>
    ((t.server.workspace.pipeline.computation? id).map (·.stopped)).getD false

/-- The next move of a request: a response is written, a handler starts, or it learns that all
computations have ended. -/
def requestMove? (t : Sitting) : Option Sitting :=
  let workers := t.server.service.dispatcher.workers
  ((workers.find? fun w => w.response.isSome).map fun w => t.take (.deliver w.id))
    <|> ((workers.find? fun w => w.response.isNone ∧ (t.server.wait? w.id).isNone).map fun w =>
      t.serve w.id)
    <|> (if t.server.workspace.pipeline.quiet then
      (t.server.waits.find? fun entry => entry.2 = .quiet).map fun entry => t.take (.calm entry.1)
    else none)

/-- The next move of an operation. -/
def operationMove? (t : Sitting) : Option Sitting :=
  match t.server.workspace.operations with
  | [] => none
  | (id, .lookup l) :: _ => some (t.resolve id l.call)
  | (id, .delivery _) :: _ => some (t.take (.tell id))

/-- The next move of the notifications. -/
def notificationMove? (t : Sitting) : Option Sitting :=
  match t.server.chore with
  | some (.opening roots) =>
    if ¬t.announced then some (t.openWorkspace roots)
    else if t.server.changes.isEmpty then some ({ t with announced := false }.take .opened)
    else none
  | some (.operation _) => none
  | none => if t.server.service.dispatcher.jobs.isEmpty then none else some (t.take .handle)

/-- The next move of the diagnostics: a computation begins, or a timer goes off. -/
def diagnosticsMove? (t : Sitting) : Option Sitting :=
  let pipeline := t.server.workspace.pipeline
  (pipeline.next?.map fun c => t.beginComputation c.id)
    <|> ((pipeline.due? t.now).map fun _ => t.take .fire)

/-- The last moves of a session. -/
def closeMove? (t : Sitting) : Option Sitting :=
  match t.server.stage with
  | .serving => if t.server.service.phase = .finished then some (t.take .close) else none
  | .closing => if t.server.workspace.pipeline.quiet then some (t.take .close) else none
  | .notRun => none
  | .returned _ => none

/-- The next move of the session. -/
def move? (t : Sitting) : Option Sitting :=
  (t.server.service.next?.map fun _ => t.take .receive)
    <|> t.requestMove?
    <|> t.operationMove?
    <|> t.notificationMove?
    <|> ((Call.ready? t.stopped t.calls).map fun (call, outcome) => t.finishCall call outcome)
    <|> t.diagnosticsMove?
    <|> t.closeMove?

/-- Moves on until nothing can move. -/
def settle : Nat → Sitting → Sitting
  | 0, t => t
  | fuel + 1, t =>
    match t.move? with
    | some t => settle fuel t
    | none => t

/-- A bound on the moves that can follow each other. A message is waited for, read, served and
answered, or begins an operation; an operation visits every document, asks the model twice for each
and tells one listener; each event begins at most one computation. -/
def settleFuel (t : Sitting) : Nat :=
  let messages := (t.server.service.channel.inbox Dispatch.Service.ownSide).messages.length +
    t.server.service.dispatcher.jobs.length + t.server.service.dispatcher.workers.length + 2
  let documents := t.server.workspace.store.entries.length + messages
  let pipeline := t.server.workspace.pipeline
  8 * messages * (documents + 1) + 4 * (pipeline.computations.length + pipeline.timers.length) +
    8 * t.calls.length

def settled (t : Sitting) : Sitting := t.settle t.settleFuel

/-! ### Scripts -/

def withChannel (t : Sitting) (channel : Channel.Duplex) : Sitting :=
  let service := { t.server.service with channel }
  { t with server := { t.server with service } }

/-- Acts on a line, without what follows from it. -/
def perform (t : Sitting) : Line → Sitting × Reply
  | .run =>
    match t.server.stage with
    | .notRun => (t.stepped (t.server.run t.startFlaw), .nothing)
    | _ => (t, .nothing)
  | .send text =>
    match t.server.service.channel.write clientSide text with
    | .ok channel => (t.withChannel channel, .nothing)
    | .error flaw => (t, .failure (.crashed flaw.message))
  | .roots =>
    (t, .roots (match t.absent with
      | some absent => absent.roots
      | none => t.model.roots))
  | .stop => ({ t with server := t.server.requestStop }, .nothing)
  | .closeClient =>
    ((t.withChannel (t.server.service.channel.close clientSide)).say
      [Channel.closeNotice t.server.service.session], .nothing)
  | .breakRead flaw =>
    let service := { t.server.service with readFlaw := some flaw }
    ({ t with server := { t.server with service } }, .nothing)
  | .model change => ({ t with model := change t.model }, .nothing)
  | .engine change => ({ t with engine := change t.engine }, .nothing)
  | .load uris =>
    let t := { t with model := t.model.learn uris }
    (if t.absent.isSome then t else t.take (.modelChanged []), .nothing)
  | .release key =>
    match Call.release? key t.calls with
    | some calls => ({ t with calls }, .flag true)
    | none => (t, .flag false)
  | .advance milliseconds => ({ t with now := t.now + milliseconds }, .nothing)

/-- What a line has led to once everything has settled. -/
structure LineReport where
  reply : Reply
  /-- Messages that have arrived at the client. -/
  received : List Bytes
  trace : Trace

/-- Acts on a line and waits until all work has settled. -/
def play (t : Sitting) (line : Line) : Sitting × LineReport :=
  let (t, reply) := t.perform line
  let t := t.settled
  let (channel, received) := collect t.server.service.channel
  let service := { t.server.service with channel }
  ({ t with server := { t.server with service }, trace := {} }, { reply, received, trace := t.trace })

/-- The gates at which calls wait. -/
def waiting (t : Sitting) : List Bytes := t.calls.map (·.key)

/-- The code that the server has returned. -/
def exitCode? (t : Sitting) : Option Nat :=
  match t.server.stage with
  | .returned code => some code
  | _ => none

end Sitting

end EditorSession.Rehearsal
