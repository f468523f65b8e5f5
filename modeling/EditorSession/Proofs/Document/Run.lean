import EditorSession.Proofs.Document.Table
import EditorSession.Workspace

/-! Runs of operations on documents. Any number of operations may be under way, and whichever is
waiting may be answered next; so a run also covers operations that are begun inside a call of the
project model or of a listener. Project model and listeners are not looked into: they answer
anything, and listeners come and go. -/

namespace EditorSession.Document

open Analysis (Handle)

/-- A store with the operations under way. -/
structure Scene where
  store : Store := {}
  operations : List (OperationId × Suspended) := []
  /-- Operations begun so far. -/
  begun : Nat := 0

/-- What a run leaves on record. -/
inductive Record where
  | began (id : OperationId) (operation : Operation)
  /-- The project model has answered, or failed. -/
  | replied (id : OperationId) (call : ModelCall) (answer : ModelAnswer)
  /-- A listener has returned, or failed. -/
  | heard (id : OperationId) (delivery : Delivery) (failure : Option Bytes)

/-- The operation that a call of the project model was made for. -/
def Record.caller? : Record → Option OperationId
  | replied id _ _ => some id
  | began _ _ => none
  | heard _ _ _ => none

namespace Scene

/-- Takes in a step of the store on behalf of an operation. -/
def advance (w : Scene) (id : OperationId) (step : Step) : Scene :=
  let others := w.operations.filter fun entry => entry.1 ≠ id
  match step.2.1 with
  | .done _ => { w with store := step.1, operations := others }
  | .suspended s => { w with store := step.1, operations := others ++ [(id, s)] }

inductive Move : Scene → List Record → Scene → Prop where
  | start (w operation) :
      Move w [.began w.begun operation]
        ({ w with begun := w.begun + 1 }.advance w.begun (w.store.start operation))
  | answer {w id l} (answer) (h : (id, .lookup l) ∈ w.operations) :
      Move w [.replied id l.call answer] (w.advance id (w.store.resumeLookup l answer))
  | hear {w id d} (failure) (h : (id, .delivery d) ∈ w.operations) :
      Move w [.heard id d failure] (w.advance id (w.store.resumeDelivery d failure))
  | subscribe (w) : Move w [] { w with store := w.store.addListener.1 }
  | unsubscribe (w listener running) :
      Move w [] { w with store := (w.store.removeListener listener running).1 }

/-- Any number of moves, with their record. -/
inductive Moves (w : Scene) : List Record → Scene → Prop where
  | refl : Moves w [] w
  | tail {trace w' records w''} : Moves w trace w' → Move w' records w'' →
      Moves w (trace ++ records) w''

/-- A run from the beginning, when nothing is open. -/
abbrev Run (trace : List Record) (w : Scene) : Prop := Moves {} trace w

theorem advance_store (w : Scene) (id : OperationId) (step : Step) :
    (w.advance id step).store = step.1 := by
  obtain ⟨store, status, notices⟩ := step
  cases status <;> rfl

/-- After a step the operation waits for what the step leaves it to wait for; the others still wait
for the same. -/
theorem mem_advance_operations {w : Scene} {id i : OperationId} {step : Step} {t : Suspended} :
    (i, t) ∈ (w.advance id step).operations ↔
      (i, t) ∈ w.operations ∧ i ≠ id ∨ i = id ∧ step.2.1 = .suspended t := by
  obtain ⟨store, status, notices⟩ := step
  cases status with
  | done outcome => simp [advance]
  | suspended t' =>
    simp only [advance, List.mem_append, List.mem_filter, decide_eq_true_eq, List.mem_singleton,
      Prod.mk.injEq, Status.suspended.injEq]
    rw [@eq_comm _ t t']

variable {w w' : Scene} {records : List Record}

theorem Move.grows (h : Move w records w') : w.store.Grows w'.store := by
  cases h with
  | start operation =>
    rw [advance_store]
    exact w.store.start_grows operation
  | answer answer hl =>
    rw [advance_store]
    exact w.store.resumeLookup_grows _ answer
  | hear failure hd =>
    rw [advance_store]
    exact .of_entries (Store.GoesOn.resumeDelivery _ failure).entries
  | subscribe => exact .of_entries rfl
  | unsubscribe listener running =>
    exact .of_entries (w.store.removeListener_keeps listener running).1

theorem Move.sound (h : Move w records w') (hs : w.store.Sound) : w'.store.Sound := by
  cases h with
  | start operation =>
    rw [advance_store]
    exact hs.start operation
  | answer answer hl =>
    rw [advance_store]
    exact hs.resumeLookup _ answer
  | @hear id d failure hd =>
    rw [advance_store]
    have hg := @Store.GoesOn.resumeDelivery w.store d failure
    exact hs.of_eq hg.entries hg.table
  | subscribe => exact hs.of_eq rfl rfl
  | unsubscribe listener running =>
    obtain ⟨he, ht⟩ := w.store.removeListener_keeps listener running
    exact hs.of_eq he ht

theorem Moves.grows (h : Moves w records w') : w.store.Grows w'.store := by
  induction h with
  | refl => exact .of_entries rfl
  | tail _ hm ih => exact ih.trans hm.grows

/-- In every run the table lists the documents that are not closed, and only these. -/
theorem Run.sound (h : Run records w) : w.store.Sound := by
  induction h with
  | refl => exact .empty
  | tail _ hm ih => exact hm.sound ih

end Scene

end EditorSession.Document

namespace EditorSession.Workspace

open Document

/-- The documents of a workspace. -/
def scene (w : Workspace) : Scene := ⟨w.store, w.operations, w.begun⟩

theorem scene_advance (w : Workspace) (id : OperationId) (step : Document.Step) :
    (w.advance id step).workspace.scene = w.scene.advance id step := by
  obtain ⟨store, status, notices⟩ := step
  cases status <;> rfl

theorem mem_operations_of_operation? {w : Workspace} {id : OperationId} {s : Suspended}
    (h : w.operation? id = some s) : (id, s) ∈ w.scene.operations := by
  obtain ⟨⟨i, _⟩, hf, rfl⟩ := Option.map_eq_some_iff.mp h
  obtain rfl : i = id := by simpa using List.find?_some hf
  exact List.mem_of_find?_eq_some hf

/-- Operations of a workspace are moves of its scene. -/
theorem start_move (w : Workspace) (operation : Operation) :
    w.scene.Move [.began w.begun operation] (w.start operation).workspace.scene := by
  rw [start, scene_advance]
  exact .start w.scene operation

theorem answer_move {w : Workspace} {id : OperationId} {l : Lookup}
    (h : w.operation? id = some (.lookup l)) (answer : ModelAnswer) :
    w.scene.Move [.replied id l.call answer] (w.answer id answer).workspace.scene := by
  rw [Workspace.answer, h]
  dsimp only
  rw [scene_advance]
  exact .answer answer (mem_operations_of_operation? h)

theorem tell_move {w : Workspace} {id : OperationId} {d : Delivery}
    (h : w.operation? id = some (.delivery d)) (now : Int) :
    w.scene.Move [.heard id d none] (w.tell now id).workspace.scene := by
  rw [tell, h]
  dsimp only
  rw [scene_advance]
  exact .hear none (mem_operations_of_operation? h)

end EditorSession.Workspace
