import EditorSession.Feature
import EditorSession.Rehearsal.Engine
import EditorSession.Rehearsal.Trace

/-! Documents, listeners and diagnostics rehearsed with a scripted project model and a scripted
engine, on a clock that moves by hand. The script may go on inside a call of the project model or
of a listener. -/

namespace EditorSession.Rehearsal

open Document (ListenerId Suspended)

/-- What a scripted listener does after it has recorded an event. -/
inductive Role where
  | records | fails
  /-- Unregisters itself. -/
  | leaves
  /-- Runs its script, at the first event only. -/
  | acts
deriving DecidableEq, Repr

def Role.ofWord : Bytes → Role :=
  meaning [("throw", fails), ("removeSelf", leaves), ("steps", acts)] records

/-- The calls of the project model that a script can go on in. -/
inductive Hook where
  | resolve | update
deriving DecidableEq, Repr

/-- A line of a script. -/
inductive Step where
  | model (change : Model → Model)
  | engine (change : Engine → Engine)
  /-- The model learns uris and reports a change. -/
  | load (uris : List Bytes)
  | release (key : Bytes)
  | advance (milliseconds : Int)
  | operation (op : Document.Operation)
  | document (uri : Bytes)
  | handle (uri : Bytes)
  | uris
  | listen (name : Bytes) (role : Role) (script : List Step)
  | unlisten (id : Nat)
  | hook (hook : Hook) (script : List Step)
  /-- The params are JSON text. -/
  | feature (feature : Analysis.Feature) (params : Option Bytes) (stopped : Bool)
  /-- Starts a pipeline, in place of the one before. -/
  | pipeline (options : Diagnostics.Options) (publisherFails : Bool)
  | dropPipeline
  | trigger (uri : Bytes)
  | compute (uri : Bytes)
  | clear (uri : Bytes)
  | shutdown
  | runState (uri : Bytes)

/-- The number of lines, nested ones included. -/
def Step.weight : Step → Nat
  | .listen _ _ script => 1 + total script
  | .hook _ script => 1 + total script
  | _ => 1
where
  total : List Step → Nat
    | [] => 0
    | step :: rest => step.weight + total rest

structure Observer where
  id : ListenerId
  name : Bytes
  role : Role
  script : List Step

/-- A pipeline with its place among the listeners. -/
structure Watch where
  pipeline : Diagnostics.Pipeline
  listener : ListenerId
  publisherFails : Bool

structure Desk where
  store : Document.Store := ({} : Document.Store).addListener.1
  observers : List Observer := [⟨1, ascii "main", .records, []⟩]
  watch : Option Watch := none
  model : Model := {}
  engine : Engine := {}
  /-- Calls of the engine that have not returned. -/
  calls : List Call := []
  now : Int := 0
  resolveHooks : List (List Step) := []
  updateHooks : List (List Step) := []
  /-- Listeners whose callbacks are in progress, the innermost first. -/
  callbacks : List ListenerId := []
  /-- A listener was unregistered from within another of its own callbacks, and the caller waits for
  that callback. Nothing can go on. -/
  stuck : Bool := false
  trace : Trace := {}

namespace Desk

/-! ### The trace -/

def say (d : Desk) (notices : List Log.Notice) : Desk :=
  { d with trace := { d.trace with notices := d.trace.notices ++ notices } }

def recordNested (d : Desk) (reply : Reply) : Desk :=
  { d with trace := { d.trace with nested := d.trace.nested ++ [reply] } }

def recordEvent (d : Desk) (name : Bytes) (event : Document.Event) : Desk :=
  { d with trace := { d.trace with events := d.trace.events ++ [(name, event)] } }

def recordModelCall (d : Desk) (call : Document.ModelCall) : Desk :=
  { d with trace := { d.trace with modelCalls := d.trace.modelCalls ++ [callRecord call] } }

def recordEngineCall (d : Desk) (entry : Bytes) : Desk :=
  { d with trace := { d.trace with engineCalls := d.trace.engineCalls ++ [entry] } }

/-- Hands a publication to the publisher, which may fail after taking it. -/
def publish (d : Desk) (publisherFails : Bool) (p : Lsp.Publication) : Desk :=
  let d := { d with trace := { d.trace with publications := d.trace.publications ++ [p] } }
  if publisherFails then d.say [Diagnostics.Notice.publishFailed p.uri (ascii "publisher failed")]
  else d

/-- Unregisters a listener. Everything is done by one thread here, so that a caller who has to wait
waits for good. -/
def unregister (d : Desk) (id : ListenerId) (running : Option ListenerId) : Desk :=
  let (store, waits) := d.store.removeListener id running
  { d with store, stuck := d.stuck || waits }

/-! ### Diagnostics -/

/-- Takes in a step of the pipeline. -/
def observed (d : Desk) (watch : Watch) (step : Diagnostics.Step) : Desk :=
  let d := { d with watch := some { watch with pipeline := step.1 } }.say step.2.2
  step.2.1.foldl (fun d p => d.publish watch.publisherFails p) d

/-- Applies a step of the pipeline, if there is one. -/
def withPipeline (d : Desk) (f : Diagnostics.Pipeline → Diagnostics.Step) : Desk :=
  match d.watch with
  | some watch => d.observed watch (f watch.pipeline)
  | none => d

/-- Applies a silent step of the pipeline, if there is one. -/
def mapPipeline (d : Desk) (f : Diagnostics.Pipeline → Diagnostics.Pipeline) : Desk :=
  { d with watch := d.watch.map fun watch => { watch with pipeline := f watch.pipeline } }

/-- Whether the caller of an engine call was asked to stop. -/
def stopped (d : Desk) : Caller → Bool
  | .computation id =>
    ((d.watch.bind fun watch => watch.pipeline.computation? id).map (·.stopped)).getD false
  | .request _ => false

/-- The question that a running computation puts to the engine. -/
def inspection? (d : Desk) (id : Diagnostics.ComputationId) : Option Analysis.Inspection :=
  match d.watch.bind fun watch => watch.pipeline.computation? id with
  | none => none
  | some c =>
    match c.stage with
    | .queued => none
    | .running snapshot => some snapshot.inspection

/-- Begins the next computation and calls the engine. -/
def beginComputation (d : Desk) (id : Diagnostics.ComputationId) : Desk :=
  let d := d.withPipeline fun p => p.beginNext d.store.document?
  match d.inspection? id with
  | some inspection =>
    let call : Call := ⟨.computation id, inspectionKey inspection, d.engine.diagnosing, false⟩
    { d.recordEngineCall (inspectionRecord inspection) with calls := d.calls ++ [call] }
  | none => d

/-- The engine returns from a call. -/
def finishCall (d : Desk) (call : Call) (outcome : Analysis.Outcome Unit) : Desk :=
  let d := { d with calls := Call.drop call.caller d.calls }
  match call.caller with
  | .computation id =>
    match d.inspection? id with
    | some inspection =>
      d.withPipeline fun p => p.answer id (d.engine.diagnose d.model.text inspection outcome)
    | none => d
  | .request _ => d

/-- The next move of the pipeline and the engine: a call returns, a computation begins, or a timer
goes off. -/
def move? (d : Desk) : Option Desk :=
  match Call.ready? d.stopped d.calls, d.watch with
  | some (call, outcome), _ => some (d.finishCall call outcome)
  | none, none => none
  | none, some watch =>
    match watch.pipeline.next?, watch.pipeline.due? d.now with
    | some c, _ => some (d.beginComputation c.id)
    | none, some timer => some (d.mapPipeline fun p => p.fire timer)
    | none, none => none

/-- Moves on until nothing can move. -/
def settle : Nat → Desk → Desk
  | 0, d => d
  | fuel + 1, d =>
    match d.move? with
    | some d => settle fuel d
    | none => d

/-- A bound on the moves that can follow each other: each computation begins and ends once, and each
timer goes off once. -/
def settleFuel (d : Desk) : Nat :=
  match d.watch with
  | some watch =>
    2 * watch.pipeline.computations.length + 3 * watch.pipeline.timers.length + d.calls.length + 1
  | none => d.calls.length + 1

def settled (d : Desk) : Desk := d.settle d.settleFuel

/-- Shuts the pipeline down and waits for its computations. -/
def shutdown (d : Desk) : Desk :=
  match d.watch with
  | none => d
  | some watch =>
    let (pipeline, first) := watch.pipeline.shutdown
    let d := { d with watch := some { watch with pipeline } }
    if first then d.settled.say [Diagnostics.Notice.stopped] else d

/-- Unregisters the pipeline and shuts it down. -/
def dropPipeline (d : Desk) : Desk :=
  match d.watch with
  | none => d
  | some watch =>
    let d := d.unregister watch.listener d.callbacks.head?
    { d.shutdown with watch := none }

def startPipeline (d : Desk) (options : Diagnostics.Options) (publisherFails : Bool) : Desk :=
  let d := d.dropPipeline
  let (store, listener) := d.store.addListener
  { d with store, watch := some ⟨{ options }, listener, publisherFails⟩ }

/-! ### Requests -/

/-- Serves a request for a feature, at an engine that does not wait. -/
def serve (d : Desk) (feature : Analysis.Feature) (params : Option Json) (stopped : Bool) :
    Desk × Reply :=
  match feature.query? d.store.handle? params with
  | .error flaw => (d, .failure (.refused flaw.refusal))
  | .ok none => (d, .value feature.emptyResult)
  | .ok (some query) =>
    let d := d.recordEngineCall (queryRecord query)
    match d.engine.serving.outcome? stopped false with
    | none => (d, .nothing)
    | some ending =>
      let (outcome, notices) := feature.respond stopped (d.engine.answers ending feature)
      (d.say notices,
        match outcome with
        | .ok v => .value v
        | .error failure => .failure failure)

/-- Serves a request whose params are JSON text. -/
def serveText (d : Desk) (feature : Analysis.Feature) (params : Option Bytes) (stopped : Bool) :
    Desk × Reply :=
  match params.mapM Json.parse with
  | .error e => (d, .failure (.crashed e.message))
  | .ok params => d.serve feature params stopped

/-! ### Listeners -/

def addObserver (d : Desk) (name : Bytes) (role : Role) (script : List Step) : Desk × ListenerId :=
  let (store, id) := d.store.addListener
  ({ d with store, observers := d.observers ++ [⟨id, name, role, script⟩] }, id)

def removeListener (d : Desk) (id : ListenerId) : Desk :=
  d.unregister id d.callbacks.head?

/-- Takes the script of a listener, which has none from then on. -/
def takeScript (d : Desk) (id : ListenerId) : Desk × List Step :=
  ({ d with observers := d.observers.map fun o => if o.id = id then { o with script := [] } else o },
    ((d.observers.find? fun o => o.id = id).map (·.script)).getD [])

/-- Takes the next script queued for a call of the project model. -/
def takeHook (d : Desk) : Document.ModelCall → Desk × List Step
  | .resolve _ => ({ d with resolveHooks := d.resolveHooks.drop 1 }, d.resolveHooks.headD [])
  | .update _ _ => ({ d with updateHooks := d.updateHooks.drop 1 }, d.updateHooks.headD [])

/-! ### Scripts -/

def outcomeReply : Document.Outcome → Reply
  | .opened => .nothing
  | .handled accepted => .flag accepted
  | .reassociated count => .count count

/-- Lines that need no operation on documents. -/
def performPlain (d : Desk) : Step → Desk × Reply
  | .model change => ({ d with model := change d.model }, .nothing)
  | .engine change => ({ d with engine := change d.engine }, .nothing)
  | .release key =>
    match Call.release? key d.calls with
    | some calls => ({ d with calls }, .flag true)
    | none => (d, .flag false)
  | .advance milliseconds => ({ d with now := d.now + milliseconds }.settled, .nothing)
  | .document uri => (d, .document (d.store.document? uri))
  | .handle uri => (d, .handle (d.store.handle? uri))
  | .uris => (d, .uris d.store.uris)
  | .listen name role script =>
    let (d, id) := d.addObserver name role script
    (d, .count id)
  | .unlisten id => (d.removeListener id, .nothing)
  | .hook .resolve script => ({ d with resolveHooks := d.resolveHooks ++ [script] }, .nothing)
  | .hook .update script => ({ d with updateHooks := d.updateHooks ++ [script] }, .nothing)
  | .feature feature params stopped => d.serveText feature params stopped
  | .pipeline options publisherFails => (d.startPipeline options publisherFails, .nothing)
  | .dropPipeline => (d.dropPipeline, .nothing)
  | .trigger uri => (d.mapPipeline fun p => p.trigger d.now uri, .nothing)
  | .compute uri => (d.mapPipeline fun p => p.computeNow uri, .nothing)
  | .clear uri => (d.withPipeline fun p => p.clear uri, .nothing)
  | .shutdown => (d.shutdown, .nothing)
  | .runState uri =>
    (d, match d.watch with
      | some watch => .runState (watch.pipeline.state uri)
      | none => .nothing)
  | .load _ => (d, .nothing)
  | .operation _ => (d, .nothing)

mutual

/-- Performs a line of a script. Nothing is done when the fuel is spent, or when nothing can go on. -/
def perform : Nat → Desk → Step → Desk × Reply
  | 0, d, _ => (d, .nothing)
  | fuel + 1, d, step =>
    if d.stuck then (d, .nothing)
    else match step with
    | .operation op =>
      let (d, outcome) := drive fuel d (d.store.start op)
      (d, (outcome.map outcomeReply).getD .nothing)
    | .load uris =>
      let d := { d with model := d.model.learn uris }
      let (d, outcome) := drive fuel d (d.store.start .reassociate)
      (match outcome with
        | some (.reassociated count) => d.say [Document.Notice.modelChanged count]
        | _ => d, .nothing)
    | step => d.performPlain step

/-- Performs nested lines and keeps their results. -/
def performAll : Nat → Desk → List Step → Desk
  | 0, d, _ => d
  | _ + 1, d, [] => d
  | fuel + 1, d, step :: rest =>
    let (d, reply) := perform fuel d step
    performAll fuel (d.recordNested reply) rest

/-- Takes an operation to its end, with the answers of the project model and the listeners. -/
def drive : Nat → Desk → Document.Step → Desk × Option Document.Outcome
  | 0, d, _ => (d, none)
  | fuel + 1, d, (store, status, notices) =>
    let d := { d with store }.say notices
    match status with
    | .done outcome => (d, some outcome)
    | .suspended (.lookup l) =>
      let (d, script) := (d.recordModelCall l.call).takeHook l.call
      let d := performAll fuel d script
      if d.stuck then (d, none)
      else
        let (model, answer) := d.model.answer l.call
        let d := { d with model }
        drive fuel d (d.store.resumeLookup l answer)
    | .suspended (.delivery delivery) =>
      let (d, failure) := deliver fuel d delivery
      if d.stuck then (d, none) else drive fuel d (d.store.resumeDelivery delivery failure)

/-- Calls a listener, and gives the reason if it fails. -/
def deliver : Nat → Desk → Document.Delivery → Desk × Option Bytes
  | 0, d, _ => (d, none)
  | fuel + 1, d, delivery =>
    let id := delivery.listener
    match d.observers.find? fun o => o.id = id with
    | none => (d.withPipeline fun p => p.observe d.now delivery.event, none)
    | some observer =>
      let d := d.recordEvent observer.name delivery.event
      match observer.role with
      | .records => (d, none)
      | .fails => (d, some (ascii "listener failed"))
      | .leaves => (d.unregister id (some id), none)
      | .acts =>
        let (d, script) := d.takeScript id
        let d := performAll fuel { d with callbacks := id :: d.callbacks } script
        ({ d with callbacks := d.callbacks.drop 1 }, none)

end

/-- The lines that may still be performed, `step` included. -/
def weight (d : Desk) (step : Step) : Nat :=
  step.weight + ((d.resolveHooks ++ d.updateHooks ++ d.observers.map (·.script)).map
    Step.weight.total).foldr (· + ·) 0

/-- Enough fuel for a line and all that it leads to. An operation visits every document, asks for a
handle at most three times, each with two calls, and tells every listener; every nested line may be
one more operation and may open a document or add a listener. -/
def fuel (d : Desk) (step : Step) : Nat :=
  let weight := d.weight step
  let documents := d.store.entries.length + weight
  let listeners := d.store.listeners.length + weight
  (weight + 1) * (documents * (2 * Document.maxAttempts + listeners + 2) + weight + 4)

/-- Performs a line of a script and waits until all work has settled. -/
def play (d : Desk) (step : Step) : Desk × Reply × Trace :=
  let d := { d with trace := {} }
  let (d, reply) := perform (d.fuel step) d step
  let d := d.settled
  (d, reply, d.trace)

/-- The gates at which calls wait. -/
def waiting (d : Desk) : List Bytes := d.calls.map (·.key)

end Desk

end EditorSession.Rehearsal
