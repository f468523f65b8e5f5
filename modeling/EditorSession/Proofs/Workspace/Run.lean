import EditorSession.Proofs.Diagnostics.Timers
import EditorSession.Proofs.Document.Run

/-! Runs of a workspace. Operations are begun at any time, also while others wait for the project
model; only the listener is not interrupted. Timers go off and computations begin and end in between,
in any order. A computation decides whether it publishes, and the publication goes out later: in
between nothing else that publishes is done. -/

namespace EditorSession.Workspace

open Diagnostics (Snapshot)

/-- A publication and what it comes from. -/
inductive Bulletin where
  | cleared (publication : Lsp.Publication)
  | computed (snapshot : Snapshot) (outcome : Analysis.Outcome (List Lsp.Diagnostic))
      (publication : Lsp.Publication)

def Bulletin.publication : Bulletin → Lsp.Publication
  | cleared publication => publication
  | computed _ _ publication => publication

/-- What a run leaves on record. -/
inductive Record where
  | document (record : Document.Record)
  | published (bulletin : Bulletin)

def Record.document? : Record → Option Document.Record
  | document record => some record
  | published _ => none

def Record.bulletin? : Record → Option Bulletin
  | document _ => none
  | published bulletin => some bulletin

/-- The listener is being told of an event. -/
def Telling (w : Workspace) : Prop := ∃ id d, (id, .delivery d) ∈ w.operations

/-- A workspace with the publication that is on its way out. -/
structure Scene where
  workspace : Workspace
  outgoing : Option Bulletin := none

namespace Scene

/-- Takes in what a step leads to; what it publishes is on its way out. -/
def issue (w : Scene) (bulletin : Lsp.Publication → Bulletin) (progress : Progress) : Scene :=
  { workspace := progress.workspace
    outgoing := (progress.publications.head?.map bulletin).or w.outgoing }

/-- Lets the pipeline take a step that publishes nothing. -/
def withPipeline (w : Scene) (pipeline : Diagnostics.Pipeline) : Scene :=
  { w with workspace := { w.workspace with pipeline } }

/-- The project model answers anything, and so does the engine, which gives up on a computation only
if it was asked to stop. Timers go off at any time, even after they were cancelled. -/
inductive Move : Scene → List Record → Scene → Prop where
  | start {w} (operation) (hq : ¬w.workspace.Telling) :
      Move w [.document (.began w.workspace.begun operation)]
        { w with workspace := (w.workspace.start operation).workspace }
  | answer {w id l} (answer) (hl : w.workspace.operation? id = some (.lookup l))
      (hq : ¬w.workspace.Telling) :
      Move w [.document (.replied id l.call answer)]
        { w with workspace := (w.workspace.answer id answer).workspace }
  | tell {w id d} (time) (hd : w.workspace.operation? id = some (.delivery d))
      (ho : d.event.kind = .closed → w.outgoing = none) :
      Move w [.document (.heard id d none)] (w.issue .cleared (w.workspace.tell time id))
  | fire {w t} (ht : t ∈ w.workspace.pipeline.timers) :
      Move w [] (w.withPipeline (w.workspace.pipeline.fire t))
  | lapse (w uri generation) :
      Move w [] (w.withPipeline (w.workspace.pipeline.expire uri generation))
  | begin {w c} (hc : c ∈ w.workspace.pipeline.computations) (hq : c.stage = .queued) :
      Move w [] (w.withPipeline
        (w.workspace.pipeline.begin c (w.workspace.store.document? c.uri)).1)
  | diagnosed {w id c snapshot} (outcome)
      (hc : w.workspace.pipeline.computation? id = some c) (hr : c.stage = .running snapshot)
      (hs : outcome = .error .cancelled → c.stopped = true) (ho : w.outgoing = none) :
      Move w [] (w.issue (.computed snapshot outcome) (w.workspace.diagnosed id outcome))
  | publish {w bulletin} (ho : w.outgoing = some bulletin) :
      Move w [.published bulletin] { w with outgoing := none }

/-- Any number of moves, with their record. -/
inductive Moves (w : Scene) : List Record → Scene → Prop where
  | refl : Moves w [] w
  | tail {trace w' records w''} : Moves w trace w' → Move w' records w'' →
      Moves w (trace ++ records) w''

/-- A run from the beginning, when no document is open and only the pipeline listens. -/
abbrev Run (options : Diagnostics.Options) (trace : List Record) (w : Scene) : Prop :=
  Moves { workspace := .empty options } trace w

variable {w w' : Scene} {trace records : List Record}

/-! ### The documents of a run -/

/-- A move is a move of the documents, or leaves them alone. -/
theorem Move.documents (h : Move w records w') :
    w.workspace.scene.Move (records.filterMap Record.document?) w'.workspace.scene ∨
      records.filterMap Record.document? = [] ∧ w'.workspace.scene = w.workspace.scene := by
  cases h with
  | start operation => exact .inl (w.workspace.start_move operation)
  | answer answer hl => exact .inl (answer_move hl answer)
  | tell time hd => exact .inl (tell_move hd time)
  | fire => exact .inr ⟨rfl, rfl⟩
  | lapse => exact .inr ⟨rfl, rfl⟩
  | begin => exact .inr ⟨rfl, rfl⟩
  | diagnosed => exact .inr ⟨rfl, rfl⟩
  | publish => exact .inr ⟨rfl, rfl⟩

/-- A run of a workspace is a run of its documents. -/
theorem Run.documents {options : Diagnostics.Options} (h : Run options trace w) :
    Document.Scene.Run (trace.filterMap Record.document?) w.workspace.scene := by
  induction h with
  | refl => exact Document.Scene.Moves.refl.tail (.subscribe {})
  | tail _ hm ih =>
    rw [List.filterMap_append]
    rcases hm.documents with h | ⟨hr, hw⟩
    · exact ih.tail h
    · rw [hr, hw, List.append_nil]
      exact ih

/-! ### The steps that the workspace takes on its own -/

/-- The timer that is due goes off. -/
theorem fire_moves (w : Scene) (time : Int) :
    w.Moves [] { w with workspace := (w.workspace.fire time).workspace } := by
  unfold Workspace.fire Diagnostics.Pipeline.fireDue
  cases h : w.workspace.pipeline.due? time with
  | none => exact .refl
  | some t => exact .tail .refl (.fire (Diagnostics.Pipeline.due?_eq_some h).1)

/-- The computation that is next begins. -/
theorem beginComputation_moves (w : Scene) :
    w.Moves [] { w with workspace := w.workspace.beginComputation.workspace } := by
  unfold beginComputation observed Diagnostics.Pipeline.beginNext
  cases h : w.workspace.pipeline.next? with
  | none => exact .refl
  | some c =>
    obtain ⟨hc, hq⟩ := Diagnostics.Pipeline.next?_queued h
    exact .tail .refl (.begin hc hq)

end Scene

end EditorSession.Workspace
