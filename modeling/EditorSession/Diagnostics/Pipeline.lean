import EditorSession.Analysis.Query
import EditorSession.Diagnostics.Options
import EditorSession.Document.Store

/-! When the diagnostics of a document are computed, and which of them are published. A document has
at most one run: a timer that has been armed, or a computation. A new trigger cancels what the one
before has left, and a generation number keeps cancelled work from publishing. -/

namespace EditorSession.Diagnostics

open Analysis (Inspection)

/-- How far the run of a document has come. -/
inductive RunState where
  | idle | scheduled | computing
deriving DecidableEq, Repr, Inhabited

def RunState.name : RunState → Bytes
  | idle => ascii "Idle"
  | scheduled => ascii "Scheduled"
  | computing => ascii "Computing"

/-- Timers are numbered in the order they were armed. -/
abbrev TimerId := Nat

/-- Computations are numbered in the order they were started. -/
abbrev ComputationId := Nat

structure Run where
  state : RunState := .idle
  generation : Nat := 0
  timer : Option TimerId := none
  computation : Option ComputationId := none
deriving DecidableEq, Inhabited

structure Timer where
  id : TimerId
  uri : Bytes
  generation : Nat
  /-- The time it expires at, in milliseconds. -/
  due : Int
deriving DecidableEq

/-- The state of a document that a computation works on. -/
structure Snapshot where
  uri : Bytes
  version : Int64
  inspection : Inspection
deriving DecidableEq

def Snapshot.ofDocument (d : Document.OpenDocument) : Snapshot :=
  { uri := d.uri
    version := d.version
    inspection := match d.handle with
      | some h => .handle h
      | none => .standalone d.uri d.text }

inductive Stage where
  | queued
  | running (snapshot : Snapshot)
deriving DecidableEq

/-- A computation that has not finished. -/
structure Computation where
  id : ComputationId
  uri : Bytes
  generation : Nat
  /-- A stop was requested. -/
  stopped : Bool := false
  stage : Stage := .queued
deriving DecidableEq

def Computation.isRunning (c : Computation) : Bool :=
  match c.stage with
  | .queued => false
  | .running _ => true

structure Pipeline where
  options : Options := {}
  runs : Table Run := []
  timers : List Timer := []
  computations : List Computation := []
  /-- Timers armed so far. -/
  armed : Nat := 0
  /-- Computations started so far. -/
  started : Nat := 0
  shut : Bool := false
deriving DecidableEq

/-- The pipeline after a step, what it publishes, and what it logs. -/
abbrev Step := Pipeline × List Lsp.Publication × List Log.Notice

namespace Notice

open Log

def notOpen (uri : Bytes) : Notice :=
  .debug (ascii "Skipping diagnostics for " ++ uri ++ ascii ": document is not open")

def cancelled (uri : Bytes) : Notice :=
  .debug (ascii "Diagnostics for " ++ uri ++ ascii " cancelled")

def interrupted (uri reason : Bytes) : Notice :=
  .debug (ascii "Diagnostics for " ++ uri ++ ascii " cancelled (" ++ reason ++ ascii ")")

def failed (uri reason : Bytes) : Notice :=
  .error (ascii "Diagnostics computation failed for " ++ uri ++ ascii ": " ++ reason)

def superseded (uri : Bytes) : Notice :=
  .debug (ascii "Dropping superseded diagnostics for " ++ uri)

def publishing (p : Lsp.Publication) : Notice :=
  .debug (ascii "Publishing " ++ Bytes.decimal p.diagnostics.length ++ ascii " diagnostic(s) for " ++
    p.uri)

def publishFailed (uri reason : Bytes) : Notice :=
  .error (ascii "Failed to publish diagnostics for " ++ uri ++ ascii ": " ++ Bytes.beforeNul reason)

def stopped : Notice := .debug (ascii "Diagnostics pipeline stopped")

end Notice

namespace Pipeline

def run (p : Pipeline) (uri : Bytes) : Run := (Table.get? (Document.key uri) p.runs).getD {}

def state (p : Pipeline) (uri : Bytes) : RunState := (p.run uri).state

def computation? (p : Pipeline) (id : ComputationId) : Option Computation :=
  p.computations.find? fun c => c.id = id

/-- Cancels the timer and the computation of a run. -/
def cancel (p : Pipeline) (run : Run) : Pipeline :=
  { p with
    timers := p.timers.filter fun t => run.timer ≠ some t.id
    computations := p.computations.map fun c =>
      if run.computation = some c.id then { c with stopped := true } else c }

/-- Starts a computation as the run of `uri`. -/
def startComputation (p : Pipeline) (uri : Bytes) (generation : Nat) : Pipeline :=
  { p with
    runs := Table.set (Document.key uri)
      { state := .computing, generation, computation := some p.started } p.runs
    computations := p.computations ++ [{ id := p.started, uri, generation }]
    started := p.started + 1 }

/-- Restarts the delay of a document. -/
def trigger (p : Pipeline) (now : Int) (uri : Bytes) : Pipeline :=
  if p.shut then p
  else
    let run := p.run uri
    let p := p.cancel run
    let generation := run.generation + 1
    { p with
      runs := Table.set (Document.key uri)
        { state := .scheduled, generation, timer := some p.armed } p.runs
      timers := p.timers ++ [⟨p.armed, uri, generation, now + p.options.delay.toInt⟩]
      armed := p.armed + 1 }

/-- Computes the diagnostics of a document without delay. -/
def computeNow (p : Pipeline) (uri : Bytes) : Pipeline :=
  if p.shut then p
  else
    let run := p.run uri
    (p.cancel run).startComputation uri (run.generation + 1)

/-- Publishes, with the notice that goes before. -/
def publish (p : Pipeline) (publication : Lsp.Publication) : Step :=
  (p, [publication], [Notice.publishing publication])

/-- Forgets the run of a document and publishes an empty list without a version. -/
def clear (p : Pipeline) (uri : Bytes) : Step :=
  if p.shut then (p, [], [])
  else
    let p := p.cancel (p.run uri)
    ({ p with runs := Table.erase (Document.key uri) p.runs } : Pipeline).publish { uri }

/-- The delay of a trigger is over. It starts a computation if the run is still the scheduled one of
that generation. -/
def expire (p : Pipeline) (uri : Bytes) (generation : Nat) : Pipeline :=
  if p.shut then p
  else
    match Table.get? (Document.key uri) p.runs with
    | some run =>
      if run.generation = generation ∧ run.state = .scheduled then p.startComputation uri generation
      else p
    | none => p

/-- An armed timer goes off. -/
def fire (p : Pipeline) (timer : Timer) : Pipeline :=
  ({ p with timers := p.timers.filter fun t => t.id ≠ timer.id } : Pipeline).expire timer.uri
    timer.generation

/-- Ends a computation. If it is still current its run becomes idle, and `publication` goes out
unless the pipeline is shut. -/
def finish (p : Pipeline) (c : Computation) (publication : Option Lsp.Publication) : Step :=
  let p := { p with computations := p.computations.filter fun other => other.id ≠ c.id }
  match Table.get? (Document.key c.uri) p.runs with
  | some run =>
    if run.generation = c.generation ∧ ¬c.stopped then
      let idle := { run with state := .idle, computation := none }
      let p := { p with runs := Table.set (Document.key c.uri) idle p.runs }
      match p.shut, publication with
      | false, some publication => p.publish publication
      | _, _ => (p, [], [])
    else (p, [], [Notice.superseded c.uri])
  | none => (p, [], [Notice.superseded c.uri])

/-- Puts notices in front of those of a step. -/
def saying (notices : List Log.Notice) (step : Step) : Step :=
  (step.1, step.2.1, notices ++ step.2.2)

/-- A queued computation looks at its document, and ends if that is not open. -/
def begin (p : Pipeline) (c : Computation) (document : Option Document.OpenDocument) : Step :=
  match document with
  | none => saying [Notice.notOpen c.uri] (p.finish c none)
  | some d =>
    ({ p with computations := p.computations.map fun other =>
        if other.id = c.id then { other with stage := .running (.ofDocument d) } else other },
      [], [])

/-- The diagnostics that are grave enough. -/
def filter (p : Pipeline) (diagnostics : List Lsp.Diagnostic) : List Lsp.Diagnostic :=
  diagnostics.filter fun d => d.severity.rank ≤ p.options.threshold.rank

/-- The engine has answered a running computation. A failure that no stop request explains is
published as an empty list. -/
def complete (p : Pipeline) (c : Computation) (snapshot : Snapshot)
    (outcome : Analysis.Outcome (List Lsp.Diagnostic)) : Step :=
  let publication (diagnostics : List Lsp.Diagnostic) : Lsp.Publication :=
    { uri := snapshot.uri, version := some snapshot.version, diagnostics }
  match outcome with
  | .ok diagnostics => p.finish c (some (publication (p.filter diagnostics)))
  | .error .cancelled => saying [Notice.cancelled c.uri] (p.finish c none)
  | .error failure =>
    if c.stopped then saying [Notice.interrupted c.uri failure.message] (p.finish c none)
    else saying [Notice.failed c.uri failure.message] (p.finish c (some (publication [])))

/-- Cancels all work, for good. The flag tells whether this call is the first, which has to wait for
the unfinished computations. -/
def shutdown (p : Pipeline) : Pipeline × Bool :=
  if p.shut then (p, false)
  else
    ({ p with
        shut := true
        runs := []
        timers := []
        computations := p.computations.map fun c =>
          if p.runs.any fun (_, run) => run.computation = some c.id then { c with stopped := true }
          else c },
      true)

/-- Reacts to a change of a document. -/
def observe (p : Pipeline) (now : Int) (event : Document.Event) : Step :=
  match event.kind with
  | .closed => p.clear event.uri
  | .opened => (if p.options.enabled then p.computeNow event.uri else p, [], [])
  | .changed => (if p.options.enabled then p.trigger now event.uri else p, [], [])
  | .saved => (if p.options.enabled then p.trigger now event.uri else p, [], [])

/-- No computation is left unfinished. -/
def quiet (p : Pipeline) : Bool := p.computations.isEmpty

/-- The computation that may begin next: the oldest queued one, if a thread is free. -/
def next? (p : Pipeline) : Option Computation :=
  let running := (p.computations.filter (·.isRunning)).length
  if running < max 1 p.options.threads then
    p.computations.find? fun c => ¬c.isRunning
  else none

/-- The timer to go off next at time `now`: the earliest due, of equals the first armed. -/
def due? (p : Pipeline) (now : Int) : Option Timer :=
  (p.timers.filter fun t => t.due ≤ now).foldl (fun best t =>
    match best with
    | some b => if t.due < b.due then some t else some b
    | none => some t) none

/-! ### Steps that the pipeline takes on its own -/

/-- Begins the computation that is next, if one may begin. -/
def beginNext (p : Pipeline) (documentOf : Bytes → Option Document.OpenDocument) : Step :=
  match p.next? with
  | some c => p.begin c (documentOf c.uri)
  | none => (p, [], [])

/-- Takes the engine's answer to a running computation. -/
def answer (p : Pipeline) (id : ComputationId)
    (outcome : Analysis.Outcome (List Lsp.Diagnostic)) : Step :=
  match p.computation? id with
  | none => (p, [], [])
  | some c =>
    match c.stage with
    | .queued => (p, [], [])
    | .running snapshot => p.complete c snapshot outcome

/-- Lets the next due timer go off. -/
def fireDue (p : Pipeline) (now : Int) : Pipeline :=
  match p.due? now with
  | some timer => p.fire timer
  | none => p

end Pipeline

end EditorSession.Diagnostics
