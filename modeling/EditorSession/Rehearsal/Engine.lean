import EditorSession.Analysis.Query
import EditorSession.Diagnostics.Pipeline
import EditorSession.Dispatch.Dispatcher
import EditorSession.Rehearsal.Model

/-! An analysis engine that follows a script. A call may wait at a gate until it is released, or
until its caller is asked to stop. -/

namespace EditorSession.Rehearsal

open Analysis (Feature Inspection Outcome Query)

/-- How a call goes on. -/
inductive Conduct where
  | answers | crashes | cancels | refuses
  /-- Waits for its release; a stop request cancels it. -/
  | gate
  /-- Waits for its release; a stop request makes it fail. -/
  | gateThrow
  /-- Waits for its release; a stop request lets it go on. -/
  | gateReturn
  /-- Waits for its release, whatever is requested. -/
  | stubborn
deriving DecidableEq, Repr

def Conduct.ofWord : Bytes → Conduct :=
  meaning
    [("throw", crashes), ("cancel", cancels), ("protocol", refuses), ("gate", gate),
      ("gateThrow", gateThrow), ("gateReturn", gateReturn), ("stubborn", stubborn)]
    answers

/-- How a call ends, if it does not wait. -/
def Conduct.outcome? (stopped released : Bool) : Conduct → Option (Outcome Unit)
  | answers => some (.ok ())
  | crashes => some (.error (.crashed (ascii "engine crashed")))
  | cancels => some (.error .cancelled)
  | refuses => some (.error (.refused ⟨Rpc.Code.requestFailed, ascii "engine refused"⟩))
  | gate =>
    if released then some (.ok ()) else if stopped then some (.error .cancelled) else none
  | gateThrow =>
    if released then some (.ok ())
    else if stopped then some (.error (.crashed (ascii "engine interrupted")))
    else none
  | gateReturn => if released ∨ stopped then some (.ok ()) else none
  | stubborn => if released then some (.ok ()) else none

/-- On whose behalf a call is made. -/
inductive Caller where
  | computation (id : Diagnostics.ComputationId)
  | request (id : Dispatch.WorkerId)
deriving DecidableEq

/-- A call that has not returned. -/
structure Call where
  caller : Caller
  /-- The name of its gate. -/
  key : Bytes
  conduct : Conduct
  released : Bool := false
deriving DecidableEq

namespace Call

/-- Releases the oldest unreleased call at the gate `key`; nothing when there is none. -/
def release? (key : Bytes) : List Call → Option (List Call)
  | [] => none
  | c :: rest =>
    if c.key = key ∧ ¬c.released then some ({ c with released := true } :: rest)
    else (release? key rest).map (c :: ·)

/-- The oldest call that can return, with its outcome. -/
def ready? (stopped : Caller → Bool) (calls : List Call) : Option (Call × Outcome Unit) :=
  calls.findSome? fun c => (c.conduct.outcome? (stopped c.caller) c.released).map fun o => (c, o)

/-- Drops the call of a caller. -/
def drop (caller : Caller) (calls : List Call) : List Call :=
  calls.filter fun c => c.caller ≠ caller

end Call

structure Engine where
  diagnosing : Conduct := .answers
  serving : Conduct := .answers
  /-- The diagnostics of every document; by default they tell its text. -/
  diagnostics : Option (List Lsp.Diagnostic) := none
  completions : List Analysis.Completion := []
  hover : Option Analysis.Hover := none
  definitions : List Lsp.Location := []
  references : List Lsp.Location := []
  renames : List Analysis.DocumentEdits := []
  symbols : List Analysis.DocumentSymbol := []
  workspaceSymbols : List Analysis.WorkspaceSymbol := []

/-- The diagnostics of a text when the script gives none: a warning that repeats it, and a hint. -/
def defaultDiagnostics (text : Bytes) : List Lsp.Diagnostic :=
  let range : Lsp.Range := ⟨⟨0, 0⟩, ⟨0, Int64.ofNat text.length⟩⟩
  [{ range, severity := .warning, code := ascii "VB0001", source := ascii "fake"
     message := ascii "Analyzed: " ++ text },
    { range, severity := .hint, code := ascii "VB9999", source := ascii "fake"
      message := ascii "Style hint" }]

namespace Engine

def result (e : Engine) : (feature : Feature) → feature.Result
  | .completion => e.completions
  | .hover => e.hover
  | .definition => e.definitions
  | .references => e.references
  | .rename => e.renames
  | .documentSymbol => e.symbols
  | .workspaceSymbol => e.workspaceSymbols

/-- The answers to a call that ended with `outcome`. -/
def answers (e : Engine) (outcome : Outcome Unit) : Analysis.Answers :=
  fun feature => outcome.map fun () => e.result feature

/-- The diagnostics for a call that ended with `outcome`; `textOf` gives the text behind a handle. -/
def diagnose (e : Engine) (textOf : Bytes → Bytes) (inspection : Inspection)
    (outcome : Outcome Unit) : Outcome (List Lsp.Diagnostic) :=
  outcome.map fun () =>
    e.diagnostics.getD (defaultDiagnostics
      (match inspection with
        | .handle h => textOf h.documentId
        | .standalone _ text => text))

end Engine

/-! ### Records of calls -/

def handleText (h : Analysis.Handle) : Bytes := h.documentId ++ 35 :: Bytes.decimal h.snapshot

def positionText (p : Lsp.Position) : Bytes :=
  Bytes.decimalInt p.line.toInt ++ 58 :: Bytes.decimalInt p.character.toInt

/-- How a question for diagnostics is recorded. -/
def inspectionRecord : Inspection → Bytes
  | .handle h => ascii "diagnostics " ++ handleText h
  | .standalone uri _ => ascii "standalone " ++ uri

/-- The gate of a question for diagnostics. -/
def inspectionKey : Inspection → Bytes
  | .handle h => h.documentId
  | .standalone uri _ => uri

/-- The name of a feature in records and at gates. -/
def featureName : Feature → Bytes
  | .completion => ascii "completion"
  | .hover => ascii "hover"
  | .definition => ascii "definition"
  | .references => ascii "references"
  | .rename => ascii "rename"
  | .documentSymbol => ascii "documentSymbol"
  | .workspaceSymbol => ascii "workspaceSymbol"

/-- The feature with the given name. -/
def featureOfName? (name : Bytes) : Option Feature :=
  [Feature.completion, .hover, .definition, .references, .rename, .documentSymbol,
    .workspaceSymbol].find? fun feature => featureName feature = name

def queryKey (q : Query) : Bytes := featureName q.feature

/-- How a question on behalf of a feature is recorded. -/
def queryRecord (q : Query) : Bytes :=
  queryKey q ++ 32 ::
    match q with
    | .completion h p => handleText h ++ 32 :: positionText p
    | .hover h p => handleText h ++ 32 :: positionText p
    | .definition h p => handleText h ++ 32 :: positionText p
    | .references h p includeDeclaration =>
      handleText h ++ 32 :: positionText p ++ if includeDeclaration then ascii " decl" else []
    | .rename h p newName => handleText h ++ 32 :: positionText p ++ 32 :: newName
    | .documentSymbol h => handleText h
    | .workspaceSymbol text => text

end EditorSession.Rehearsal
