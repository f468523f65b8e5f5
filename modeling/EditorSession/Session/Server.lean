import EditorSession.Dispatch.Service
import EditorSession.Feature
import EditorSession.Lsp.Handshake
import EditorSession.Session.Lifecycle
import EditorSession.Settings.Release
import EditorSession.Workspace

/-! A server for one session. Its requests, its notifications, its computations and its receive loop
go on independently of each other; `Server.step` takes one of them one move further. What waits for
the project model, the engine or the clock can be read off the state. -/

namespace EditorSession.Session

open Dispatch (WorkerId Worker)

/-- What a request that is being served waits for. -/
inductive Wait where
  | engine (query : Analysis.Query)
  /-- The end of all computations. -/
  | quiet
deriving DecidableEq

/-- What the notification being handled waits for. -/
inductive Chore where
  /-- The project model opens the workspace. -/
  | opening (roots : List Bytes)
  | operation (id : OperationId)
deriving DecidableEq

/-- How far the service of a session has come. -/
inductive Stage where
  | notRun
  | serving
  /-- The receive loop is over; computations are still to end. -/
  | closing
  | returned (code : Nat)
deriving DecidableEq, Repr

structure Server where
  service : Dispatch.Service RequestHandler NotificationHandler
  workspace : Workspace
  state : State := .notStarted
  stage : Stage := .notRun
  roots : List Bytes := []
  exitReceived : Bool := false
  exitCode : Nat := 1
  /-- The requests being served. -/
  waits : List (WorkerId × Wait) := []
  chore : Option Chore := none
  /-- Operations that a change of the project model has begun. -/
  changes : List OperationId := []

/-- A move of one of the activities of a server. -/
inductive Move where
  /-- The receive loop goes on. -/
  | receive
  /-- The handler of an accepted request starts. -/
  | serve (worker : WorkerId)
  /-- The engine answers a request. -/
  | answer (worker : WorkerId) (answers : Analysis.Answers)
  /-- All computations have ended, which a request waits for. -/
  | calm (worker : WorkerId)
  /-- The response of a decided request is written. -/
  | deliver (worker : WorkerId)
  /-- The next notification is handled. -/
  | handle
  /-- The project model has opened the workspace. -/
  | opened
  /-- The project model reports a change, and the documents of `first` are resolved first. -/
  | modelChanged (first : List Document.EntryId)
  /-- The project model answers an operation. -/
  | resolve (operation : OperationId) (answer : Document.ModelAnswer)
  /-- The pipeline is told of an event. -/
  | tell (operation : OperationId)
  | beginComputation
  /-- The engine answers a computation. -/
  | diagnosed (computation : Diagnostics.ComputationId)
      (outcome : Analysis.Outcome (List Lsp.Diagnostic))
  /-- A due timer goes off. -/
  | fire
  /-- The receive loop has finished, and the session is closed. -/
  | close

/-- The server after a move, and what was logged. -/
abbrev Step := Server × List Log.Notice

namespace Notice

open Log

def serving (session : Bytes) : Notice :=
  .info (Lsp.serverName ++ 32 :: Settings.release.text ++ ascii " serving session " ++ session)

def startFailed (reason : Bytes) : Notice :=
  .error (ascii "Failed to start transport: " ++ Bytes.beforeNul reason)

def initialized (client : Lsp.Client) : Notice :=
  .info (ascii "Initialized by " ++ client.name.getD (ascii "unknown client") ++ ascii " (pid " ++
    (match client.processId with
      | some pid => Bytes.decimalInt pid.toInt
      | none => ascii "n/a") ++
    ascii "), " ++ Bytes.decimal client.roots.length ++ ascii " workspace root(s)")

def opening (roots : List Bytes) : Notice :=
  .debug (ascii "Opening workspace with " ++ Bytes.decimal roots.length ++ ascii " root(s)")

def shutdownRequested : Notice := .info (ascii "Shutdown requested")

def exitReceived (clean : Bool) : Notice :=
  .info (ascii "Exit received (" ++
    (if clean then ascii "after shutdown" else ascii "without shutdown") ++ ascii ")")

def dropped (method : Bytes) (state : State) : Notice :=
  .warn (ascii "Dropping " ++ method ++ ascii " received in state " ++ state.name)

def endedWithoutExit : Notice := .warn (ascii "Session ended without an exit notification")

end Notice

namespace Server

/-- A server that has not been run. -/
def create (options : Diagnostics.Options) (session : Bytes) : Server :=
  { service := { dispatcher := { requestHandlers, notificationHandlers }, session }
    workspace := Workspace.empty options }

/-- Puts notices in front of those of a step. -/
def saying (notices : List Log.Notice) (step : Step) : Step := (step.1, notices ++ step.2)

/-- Takes in a step of the service. -/
def served (s : Server)
    (step : Dispatch.Service RequestHandler NotificationHandler × List Log.Notice) : Step :=
  ({ s with service := step.1 }, step.2)

/-- Connects and starts the receive loop, unless the channel cannot be started. -/
def run (s : Server) (flaw : Option Bytes) : Step :=
  match flaw with
  | some reason =>
    ({ s with state := .stopped, stage := .returned 1 }, [Notice.startFailed reason])
  | none =>
    let service := { s.service with channel := s.service.channel.start Dispatch.Service.ownSide }
    saying [Channel.startNotice service.session, Notice.serving service.session]
      ({ s with state := .initializing, stage := .serving }.served service.run)

/-- Asks the receive loop to end. -/
def requestStop (s : Server) : Server :=
  { s with service := { s.service with stopRequested := true } }

/-! ### Requests -/

/-- Ends the work on a request. -/
def conclude (s : Server) (id : WorkerId) (outcome : Except Rpc.Failure Json) : Step :=
  { s with waits := s.waits.filter fun entry => entry.1 ≠ id }.served (s.service.conclude id outcome)

def refuse (s : Server) (id : WorkerId) (r : Rpc.Refusal) : Step :=
  s.conclude id (.error (.refused r))

def await (s : Server) (id : WorkerId) (wait : Wait) : Step :=
  ({ s with waits := s.waits ++ [(id, wait)] }, [])

def wait? (s : Server) (id : WorkerId) : Option Wait :=
  (s.waits.find? fun entry => entry.1 = id).map (·.2)

/-- The opening request starts the session proper and records the roots. -/
def serveHandshake (s : Server) (id : WorkerId) (params : Option Json) : Step :=
  if s.state = .initializing then
    let client := Lsp.Client.read params
    saying [Notice.initialized client]
      ({ s with state := .running, roots := client.roots }.conclude id
        (.ok (Lsp.welcome Settings.release.text)))
  else s.refuse id s.state.handshakeRefusal

/-- A shutdown that is permitted is answered when all computations have ended. -/
def acceptShutdown (s : Server) (id : WorkerId) : Step :=
  let (pipeline, first) := s.workspace.pipeline.shutdown
  let s := { s with state := .shuttingDown, workspace := { s.workspace with pipeline } }
  saying [Notice.shutdownRequested] (if first then s.await id .quiet else s.conclude id (.ok .null))

def serveShutdown (s : Server) (id : WorkerId) : Step :=
  match s.state.permit RequestHandler.shutdown.method with
  | .error r => s.refuse id r
  | .ok () => s.acceptShutdown id

/-- A feature puts a question to the engine, or has an empty result when there is none to put. -/
def serveFeature (s : Server) (id : WorkerId) (feature : Analysis.Feature)
    (params : Option Json) : Step :=
  match s.state.permit (featureMethod feature) with
  | .error r => s.refuse id r
  | .ok () =>
    match feature.query? s.workspace.store.handle? params with
    | .error flaw => s.refuse id flaw.refusal
    | .ok none => s.conclude id (.ok feature.emptyResult)
    | .ok (some query) => s.await id (.engine query)

/-- Starts the handler of a request that is neither being served nor decided. -/
def serve (s : Server) (id : WorkerId) : Step :=
  match s.service.dispatcher.worker? id with
  | none => (s, [])
  | some worker =>
    if worker.response.isSome ∨ (s.wait? id).isSome then (s, [])
    else
      match worker.handler with
      | .handshake => s.serveHandshake id worker.request.params
      | .shutdown => s.serveShutdown id
      | .feature f => s.serveFeature id f worker.request.params

/-- The engine has answered a request. -/
def answer (s : Server) (id : WorkerId) (answers : Analysis.Answers) : Step :=
  match s.wait? id, s.service.dispatcher.worker? id with
  | some (.engine query), some worker =>
    let (outcome, notices) := query.feature.respond worker.stopped (answers query.feature)
    saying notices (s.conclude id outcome)
  | _, _ => (s, [])

/-- A shutdown whose computations have ended is answered. -/
def calm (s : Server) (id : WorkerId) : Step :=
  match s.wait? id with
  | some .quiet =>
    if s.workspace.pipeline.quiet then
      saying [Diagnostics.Notice.stopped] (s.conclude id (.ok .null))
    else (s, [])
  | _ => (s, [])

/-! ### Notifications and operations -/

/-- Ends the notification being handled. -/
def finishJob (s : Server) (failure : Option Rpc.Failure) : Step :=
  { s with chore := none }.served (s.service.finishJob failure)

/-- Sends diagnostics to the editor. -/
def publish (s : Server) (publication : Lsp.Publication) : Step :=
  let (service, _, notices) := s.service.notify ⟨publishMethod, some publication.toJson⟩
  ({ s with service }, notices)

def publishAll (s : Server) : List Lsp.Publication → Step
  | [] => (s, [])
  | publication :: rest =>
    let (s, notices) := s.publish publication
    saying notices (s.publishAll rest)

/-- What follows from the end of an operation. -/
def settleOperation (s : Server) (id : OperationId) (outcome : Document.Outcome) : Step :=
  if id ∈ s.changes then
    ({ s with changes := s.changes.erase id },
      match outcome with
      | .reassociated count => [Document.Notice.modelChanged count]
      | .opened => []
      | .handled _ => [])
  else if s.chore = some (.operation id) then s.finishJob none
  else (s, [])

/-- Takes in a step of the workspace. -/
def progressed (s : Server) (progress : Workspace.Progress) : Step :=
  let (s, notices) := { s with workspace := progress.workspace }.publishAll progress.publications
  saying (progress.notices ++ notices)
    (match progress.finished with
      | some (id, outcome) => s.settleOperation id outcome
      | none => (s, []))

/-- Begins an operation on behalf of the notification being handled. -/
def operate (s : Server) (operation : Document.Operation) : Step :=
  { s with chore := some (.operation s.workspace.begun) }.progressed (s.workspace.start operation)

/-- The operation that a document notification asks for. -/
def readOperation (handler : NotificationHandler) (params : Option Json) :
    Lsp.Reading (Option Document.Operation) :=
  match handler with
  | .initialized => .ok none
  | .exit => .ok none
  | .didOpen => do
    let item ← Lsp.DocumentItem.read params
    return some (.openDocument item.uri item.languageId item.version item.text)
  | .didChange => do
    let change ← Lsp.DocumentChanges.read params
    return some (.changeDocument change.uri change.version change.changes)
  | .didClose => do
    let uri ← Lsp.readDocumentUri params
    return some (.closeDocument uri)
  | .didSave => do
    let save ← Lsp.DocumentSave.read params
    return some (.saveDocument save.uri save.text)

/-- Documents change only while the session is running. -/
def handleDocument (s : Server) (handler : NotificationHandler) (params : Option Json) : Step :=
  if s.state = .running then
    match readOperation handler params with
    | .error flaw => s.finishJob (some (.refused flaw.refusal))
    | .ok none => s.finishJob none
    | .ok (some operation) => s.operate operation
  else saying [Notice.dropped handler.method s.state] (s.finishJob none)

/-- Ends the session with the code for a clean or an unclean end. -/
def exit (s : Server) (clean : Bool) : Step :=
  saying [Notice.exitReceived clean]
    ({ s with
        exitCode := if clean then 0 else 1
        exitReceived := true
        state := .stopped }.requestStop.finishJob none)

/-- The end of the session is clean if a shutdown came before. -/
def handleExit (s : Server) : Step := s.exit (s.state = .shuttingDown)

/-- Handles the next notification, if none is being handled. -/
def handle (s : Server) : Step :=
  match s.service.takeJob with
  | (_, none) => (s, [])
  | (service, some job) =>
    let s := { s with service }
    match job.handler with
    | .initialized => ({ s with chore := some (.opening s.roots) }, [Notice.opening s.roots])
    | .exit => s.handleExit
    | handler => s.handleDocument handler job.notification.params

/-- The project model has opened the workspace. -/
def opened (s : Server) : Step :=
  match s.chore with
  | some (.opening _) => s.finishJob none
  | _ => (s, [])

/-- The project model has changed: documents without a handle are resolved again. -/
def modelChanged (s : Server) (first : List Document.EntryId) : Step :=
  { s with changes := s.changes ++ [s.workspace.begun] }.progressed
    (s.workspace.start (.reassociateFirst first))

/-! ### The end -/

/-- Closes the channel and returns. -/
def finish (s : Server) : Step :=
  let service := { s.service with channel := s.service.channel.close Dispatch.Service.ownSide }
  ({ s with service, state := .stopped, stage := .returned s.exitCode },
    Channel.closeNotice service.session ::
      if s.exitReceived then [] else [Notice.endedWithoutExit])

/-- Closes the session once the receive loop has finished and the computations have ended. -/
def close (s : Server) : Step :=
  match s.stage with
  | .serving =>
    if s.service.phase = .finished then
      let (pipeline, first) := s.workspace.pipeline.shutdown
      let s := { s with workspace := { s.workspace with pipeline } }
      if first then ({ s with stage := .closing }, []) else s.finish
    else (s, [])
  | .closing =>
    if s.workspace.pipeline.quiet then saying [Diagnostics.Notice.stopped] s.finish else (s, [])
  | .notRun => (s, [])
  | .returned _ => (s, [])

/-- Takes one move at the given time. A move that is not possible changes nothing. -/
def step (s : Server) (now : Int) : Move → Step
  | .receive =>
    match s.service.next? with
    | some step => s.served step
    | none => (s, [])
  | .serve worker => s.serve worker
  | .answer worker answers => s.answer worker answers
  | .calm worker => s.calm worker
  | .deliver worker => s.served (s.service.deliver worker)
  | .handle => s.handle
  | .opened => s.opened
  | .modelChanged first => s.modelChanged first
  | .resolve operation answer => s.progressed (s.workspace.answer operation answer)
  | .tell operation => s.progressed (s.workspace.tell now operation)
  | .beginComputation => s.progressed s.workspace.beginComputation
  | .diagnosed computation outcome => s.progressed (s.workspace.diagnosed computation outcome)
  | .fire => s.progressed (s.workspace.fire now)
  | .close => s.close

end Server

end EditorSession.Session
