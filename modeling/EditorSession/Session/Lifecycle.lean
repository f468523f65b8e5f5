import EditorSession.Analysis.Query
import EditorSession.Rpc.Error
import EditorSession.Table

/-! The life of a session, and the methods that a server knows. Requests are served only while the
session is running; the opening request is served once, before. -/

namespace EditorSession.Session

inductive State where
  | notStarted | starting | initializing | running | shuttingDown | stopped
deriving DecidableEq, Repr, Inhabited

namespace State

def name : State → Bytes
  | notStarted => ascii "NotStarted"
  | starting => ascii "Starting"
  | initializing => ascii "Initializing"
  | running => ascii "Running"
  | shuttingDown => ascii "ShuttingDown"
  | stopped => ascii "Stopped"

/-- The states in the order of a session's life. -/
def numbered : List State := [notStarted, starting, initializing, running, shuttingDown, stopped]

/-- The name of the state with the given number, from zero. -/
def nameOfNumber (n : Int) : Bytes :=
  if 0 ≤ n then ((numbered[n.toNat]?).map name).getD (ascii "Unknown") else ascii "Unknown"

/-- Whether a request other than the opening one can be served, and the refusal if not. -/
def permit (method : Bytes) : State → Except Rpc.Refusal Unit
  | running => .ok ()
  | notStarted => .error (notInitialized method)
  | starting => .error (notInitialized method)
  | initializing => .error (notInitialized method)
  | shuttingDown => .error (closing method)
  | stopped => .error (closing method)
where
  notInitialized (method : Bytes) : Rpc.Refusal :=
    ⟨Rpc.Code.serverNotInitialized, ascii "Server not initialized; cannot handle " ++ method⟩
  closing (method : Bytes) : Rpc.Refusal :=
    ⟨Rpc.Code.invalidRequest, ascii "Server is shutting down; cannot handle " ++ method⟩

/-- The refusal of an opening request that comes at the wrong time. -/
def handshakeRefusal (state : State) : Rpc.Refusal :=
  ⟨Rpc.Code.invalidRequest, ascii "initialize is not valid in state " ++ state.name⟩

end State

/-- The requests that a server answers. -/
inductive RequestHandler where
  /-- The opening request. -/
  | handshake
  | shutdown
  | feature (f : Analysis.Feature)
deriving DecidableEq

/-- The notifications that a server acts on. -/
inductive NotificationHandler where
  | initialized | exit | didOpen | didChange | didClose | didSave
deriving DecidableEq

def featureMethod : Analysis.Feature → Bytes
  | .completion => ascii "textDocument/completion"
  | .hover => ascii "textDocument/hover"
  | .definition => ascii "textDocument/definition"
  | .references => ascii "textDocument/references"
  | .rename => ascii "textDocument/rename"
  | .documentSymbol => ascii "textDocument/documentSymbol"
  | .workspaceSymbol => ascii "workspace/symbol"

def RequestHandler.method : RequestHandler → Bytes
  | handshake => ascii "initialize"
  | shutdown => ascii "shutdown"
  | feature f => featureMethod f

def NotificationHandler.method : NotificationHandler → Bytes
  | initialized => ascii "initialized"
  | exit => ascii "exit"
  | didOpen => ascii "textDocument/didOpen"
  | didChange => ascii "textDocument/didChange"
  | didClose => ascii "textDocument/didClose"
  | didSave => ascii "textDocument/didSave"

/-- All request handlers. -/
def RequestHandler.all : List RequestHandler :=
  [handshake, shutdown, feature .completion, feature .hover, feature .definition,
    feature .references, feature .rename, feature .documentSymbol, feature .workspaceSymbol]

/-- All notification handlers. -/
def NotificationHandler.all : List NotificationHandler :=
  [initialized, exit, didOpen, didChange, didClose, didSave]

def requestHandlers : Table RequestHandler := RequestHandler.all.map fun h => (h.method, h)

def notificationHandlers : Table NotificationHandler :=
  NotificationHandler.all.map fun h => (h.method, h)

/-- The notification that carries diagnostics. -/
def publishMethod : Bytes := ascii "textDocument/publishDiagnostics"

end EditorSession.Session
