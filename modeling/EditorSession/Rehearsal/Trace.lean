import EditorSession.Diagnostics.Pipeline

/-! What a script can see: the result of each of its lines, and what happened meanwhile. -/

namespace EditorSession.Rehearsal

/-- What a line of a script results in. -/
inductive Reply where
  | nothing
  | flag (b : Bool)
  | count (n : Nat)
  | document (d : Option Document.OpenDocument)
  | handle (h : Option Analysis.Handle)
  | uris (uris : List Bytes)
  /-- The roots of a workspace, in their order. -/
  | roots (uris : List Bytes)
  | value (v : Json)
  | runState (state : Diagnostics.RunState)
  | failure (f : Rpc.Failure)

/-- What happened during a line of a script. -/
structure Trace where
  /-- Results of nested lines, in the order they ended. -/
  nested : List Reply := []
  events : List (Bytes × Document.Event) := []
  modelCalls : List Bytes := []
  engineCalls : List Bytes := []
  publications : List Lsp.Publication := []
  notices : List Log.Notice := []

end EditorSession.Rehearsal
