import EditorSession.Analysis.Query
import EditorSession.Log

/-! The collaborators of a server that has no analysis engine: no document belongs to a project, and
every question has an empty answer. -/

namespace EditorSession.Analysis.Absent

/-- No document resolves to a handle. -/
def resolve (_uri : Bytes) : Option Handle := none

/-- No document takes a text. -/
def update (_uri _text : Bytes) : Option Handle := none

/-- A project model that only remembers what it was told. -/
structure Model where
  roots : List Bytes := []
  /-- Somebody wants to know when the model changes. -/
  watched : Bool := false
deriving DecidableEq

/-- Records the roots. The flag tells whether a watcher is called. -/
def Model.openWorkspace (m : Model) (roots : List Bytes) : Model × Bool × List Log.Notice :=
  ({ m with roots }, m.watched,
    [.info (ascii "No analysis engine linked; workspace roots recorded (" ++
      Bytes.decimal roots.length ++ ascii ")")])

def diagnostics (_ : Inspection) : List Lsp.Diagnostic := []

/-- The empty answer of each kind. -/
def result : (feature : Feature) → feature.Result
  | .completion => []
  | .hover => none
  | .definition => []
  | .references => []
  | .rename => []
  | .documentSymbol => []
  | .workspaceSymbol => []

/-- How many items an answer lists; a missing hover counts none. -/
def count : (feature : Feature) → feature.Result → Nat
  | .completion, items => items.length
  | .hover, info => info.toList.length
  | .definition, items => items.length
  | .references, items => items.length
  | .rename, items => items.length
  | .documentSymbol, items => items.length
  | .workspaceSymbol, items => items.length

end EditorSession.Analysis.Absent
