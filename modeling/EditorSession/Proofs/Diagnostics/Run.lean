import EditorSession.Proofs.Diagnostics.Work

/-! Runs of a pipeline. Calls, expiries, computations and the engine's answers come in any order. A
computation decides whether it publishes, and the publication goes out later: in between documents
may be triggered and computations started, and the pipeline may be shut, but no other publication is
decided and no document is cleared. -/

namespace EditorSession.Diagnostics

/-- What a run leaves on record. -/
inductive Record where
  | started (id : ComputationId) (uri : Bytes)
  /-- A computation has found itself current; its publication is to follow. -/
  | decided (id : ComputationId)
  | published (id : ComputationId) (publication : Lsp.Publication)
  /-- The run of a document was cleared; the empty publication is to follow. -/
  | cleared (uri : Bytes)
  | emptied (publication : Lsp.Publication)
  | shut
  /-- A call that was to shut the pipeline has returned: it has `waited` for the computations, or it
  found the pipeline shut. -/
  | returned (waited : Bool)

/-- A publication on its way out. -/
inductive Outgoing where
  | result (id : ComputationId) (publication : Lsp.Publication)
  | clearing (publication : Lsp.Publication)

def Outgoing.record : Outgoing → Record
  | result id publication => .published id publication
  | clearing publication => .emptied publication

/-- A pipeline with what is under way around it. -/
structure Scene where
  pipeline : Pipeline := {}
  outgoing : Option Outgoing := none
  /-- The call that has shut the pipeline waits for the computations. -/
  closing : Bool := false

namespace Scene

/-- What goes on record when a step has started a computation. -/
def starts (w : Scene) (uri : Bytes) (p : Pipeline) : List Record :=
  if w.pipeline.started < p.started then [.started w.pipeline.started uri] else []

/-- Takes in a step; what it publishes is on its way out. -/
def issue (w : Scene) (outgoing : Lsp.Publication → Outgoing) (step : Step) : Scene :=
  { w with pipeline := step.1, outgoing := step.2.1.head?.map outgoing }

theorem issue_silent {w : Scene} (ho : w.outgoing = none) (outgoing : Lsp.Publication → Outgoing)
    (p : Pipeline) (notices : List Log.Notice) :
    w.issue outgoing (p, [], notices) = { w with pipeline := p } := by
  rw [issue, List.head?_nil, Option.map_none, ← ho]

/-- Nothing is assumed of documents and of the engine, and a timer may go off although it was
cancelled. -/
inductive Move : Scene → List Record → Scene → Prop where
  | trigger (w now uri) : Move w [] { w with pipeline := w.pipeline.trigger now uri }
  | computeNow (w uri) :
      Move w (w.starts uri (w.pipeline.computeNow uri))
        { w with pipeline := w.pipeline.computeNow uri }
  | fire (w timer) :
      Move w (w.starts timer.uri (w.pipeline.fire timer))
        { w with pipeline := w.pipeline.fire timer }
  | clear {w} (uri) (ho : w.outgoing = none) :
      Move w ((w.pipeline.clear uri).2.1.map fun _ => .cleared uri)
        (w.issue .clearing (w.pipeline.clear uri))
  | begin {w c} (document) (hc : c ∈ w.pipeline.computations) (hq : c.stage = .queued) :
      Move w [] { w with pipeline := (w.pipeline.begin c (some document)).1 }
  | skip {w c} (hc : c ∈ w.pipeline.computations) (hq : c.stage = .queued)
      (ho : w.outgoing = none) :
      Move w ((w.pipeline.begin c none).2.1.map fun _ => .decided c.id)
        (w.issue (.result c.id) (w.pipeline.begin c none))
  | answer {w} (id outcome) (ho : w.outgoing = none) :
      Move w ((w.pipeline.answer id outcome).2.1.map fun _ => .decided id)
        (w.issue (.result id) (w.pipeline.answer id outcome))
  | publish {w o} (ho : w.outgoing = some o) : Move w [o.record] { w with outgoing := none }
  | shutdown (w) :
      Move w (if w.pipeline.shutdown.2 then [.shut] else [.returned false])
        { w with
          pipeline := w.pipeline.shutdown.1
          closing := w.closing || w.pipeline.shutdown.2 }
  | leave {w} (hc : w.closing = true) (hq : w.pipeline.quiet = true)
      (ho : ∀ id publication, w.outgoing ≠ some (.result id publication)) :
      Move w [.returned true] { w with closing := false }

/-- Any number of moves, with their record. -/
inductive Moves (w : Scene) : List Record → Scene → Prop where
  | refl : Moves w [] w
  | tail {trace w' records w''} : Moves w trace w' → Move w' records w'' →
      Moves w (trace ++ records) w''

/-- A run from the beginning, when nothing has been asked of the pipeline. -/
abbrev Run (options : Options) (trace : List Record) (w : Scene) : Prop :=
  Moves { pipeline := { options } } trace w

end Scene

end EditorSession.Diagnostics
