import EditorSession.Analysis.Symbol
import EditorSession.Rpc.Error

/-! The questions put to an analysis engine. -/

namespace EditorSession.Analysis

/-- A language feature that an editor can ask for. -/
inductive Feature where
  | completion | hover | definition | references | rename | documentSymbol | workspaceSymbol
deriving DecidableEq, Repr

/-- What an engine returns for a feature. -/
abbrev Feature.Result : Feature → Type
  | .completion => List Completion
  | .hover => Option Hover
  | .definition => List Lsp.Location
  | .references => List Lsp.Location
  | .rename => List DocumentEdits
  | .documentSymbol => List DocumentSymbol
  | .workspaceSymbol => List WorkspaceSymbol

/-- A question on behalf of a feature. -/
inductive Query where
  | completion (handle : Handle) (position : Lsp.Position)
  | hover (handle : Handle) (position : Lsp.Position)
  | definition (handle : Handle) (position : Lsp.Position)
  | references (handle : Handle) (position : Lsp.Position) (includeDeclaration : Bool)
  | rename (handle : Handle) (position : Lsp.Position) (newName : Bytes)
  | documentSymbol (handle : Handle)
  | workspaceSymbol (text : Bytes)
deriving DecidableEq

def Query.feature : Query → Feature
  | completion _ _ => .completion
  | hover _ _ => .hover
  | definition _ _ => .definition
  | references _ _ _ => .references
  | rename _ _ _ => .rename
  | documentSymbol _ => .documentSymbol
  | workspaceSymbol _ => .workspaceSymbol

/-- How an engine call ends. -/
abbrev Outcome (α : Type) := Except Rpc.Failure α

/-- The answers an engine would give to each kind of question. -/
abbrev Answers := (feature : Feature) → Outcome feature.Result

/-- A question for diagnostics: through a handle, or about a text on its own. -/
inductive Inspection where
  | handle (h : Handle)
  | standalone (uri text : Bytes)
deriving DecidableEq

end EditorSession.Analysis
