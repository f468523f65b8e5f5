import EditorSession.Diagnostics.Pipeline
import EditorSession.Document.Operation

/-! Open documents together with the diagnostics kept for them. The pipeline is the only listener:
it was registered before the first document was opened, and every event is told to it. -/

namespace EditorSession

/-- Operations are numbered in the order they were begun. -/
abbrev OperationId := Nat

structure Workspace where
  store : Document.Store
  pipeline : Diagnostics.Pipeline
  /-- The operations under way. -/
  operations : List (OperationId × Document.Suspended) := []
  /-- Operations begun so far. -/
  begun : Nat := 0

namespace Workspace

/-- What a step leads to. -/
structure Progress where
  workspace : Workspace
  /-- The operation that the step has finished. -/
  finished : Option (OperationId × Document.Outcome) := none
  publications : List Lsp.Publication := []
  notices : List Log.Notice := []

/-- No document is open, and the pipeline listens. -/
def empty (options : Diagnostics.Options) : Workspace :=
  { store := ({} : Document.Store).addListener.1, pipeline := { options } }

def operation? (w : Workspace) (id : OperationId) : Option Document.Suspended :=
  (w.operations.find? fun entry => entry.1 = id).map (·.2)

/-- Takes in a step of the store on behalf of an operation. -/
def advance (w : Workspace) (id : OperationId) (step : Document.Step) : Progress :=
  let others := w.operations.filter fun entry => entry.1 ≠ id
  match step.2.1 with
  | .done outcome =>
    { workspace := { w with store := step.1, operations := others }
      finished := some (id, outcome)
      notices := step.2.2 }
  | .suspended s =>
    { workspace := { w with store := step.1, operations := others ++ [(id, s)] }
      notices := step.2.2 }

/-- Takes in a step of the pipeline. -/
def observed (w : Workspace) (step : Diagnostics.Step) : Progress :=
  { workspace := { w with pipeline := step.1 }, publications := step.2.1, notices := step.2.2 }

/-- Begins an operation, under the number `w.begun`. -/
def start (w : Workspace) (operation : Document.Operation) : Progress :=
  { w with begun := w.begun + 1 }.advance w.begun (w.store.start operation)

/-- Takes the project model's answer to an operation that waits for it. -/
def answer (w : Workspace) (id : OperationId) (answer : Document.ModelAnswer) : Progress :=
  match w.operation? id with
  | some (.lookup l) => w.advance id (w.store.resumeLookup l answer)
  | _ => { workspace := w }

/-- Tells the pipeline of an event. -/
def tell (w : Workspace) (now : Int) (id : OperationId) : Progress :=
  match w.operation? id with
  | some (.delivery d) =>
    let (pipeline, publications, said) := w.pipeline.observe now d.event
    let progress := { w with pipeline }.advance id (w.store.resumeDelivery d none)
    { progress with publications, notices := said ++ progress.notices }
  | _ => { workspace := w }

/-- Begins the next computation. -/
def beginComputation (w : Workspace) : Progress :=
  w.observed (w.pipeline.beginNext w.store.document?)

/-- Takes the engine's answer to a computation. -/
def diagnosed (w : Workspace) (id : Diagnostics.ComputationId)
    (outcome : Analysis.Outcome (List Lsp.Diagnostic)) : Progress :=
  w.observed (w.pipeline.answer id outcome)

/-- Lets the next due timer go off. -/
def fire (w : Workspace) (now : Int) : Progress :=
  { workspace := { w with pipeline := w.pipeline.fireDue now } }

end Workspace

end EditorSession
