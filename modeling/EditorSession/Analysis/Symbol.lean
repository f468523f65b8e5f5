import EditorSession.Lsp.Basic

/-! What an analysis engine reports, and the kind numbers the editor knows symbols by. -/

namespace EditorSession.Analysis

/-- A document inside one snapshot of a project; only the engine knows what it means. -/
structure Handle where
  documentId : Bytes
  snapshot : Nat := 0
deriving DecidableEq, Inhabited

inductive SymbolKind where
  | nameSpace | classType | structType | moduleType | interfaceType | enumType | enumMember
  | delegateType | event | method | constructorMethod | function | property | field | constant
  | localVariable | parameter | keyword | typeParameter
  /-- A kind this library has no name for. -/
  | unlisted
deriving DecidableEq, Repr, Inhabited

namespace SymbolKind

/-- The named kinds, in the order engines number them. -/
def numbered : List SymbolKind :=
  [nameSpace, classType, structType, moduleType, interfaceType, enumType, enumMember, delegateType,
    event, method, constructorMethod, function, property, field, constant, localVariable, parameter,
    keyword, typeParameter]

/-- The kind with the given number. -/
def ofNumber (n : Int) : SymbolKind :=
  if 0 ≤ n then (numbered[n.toNat]?).getD unlisted else unlisted

/-- The kind of a completion item. -/
def completionNumber : SymbolKind → Int64
  | nameSpace => 9
  | classType => 7
  | structType => 22
  | moduleType => 9
  | interfaceType => 8
  | enumType => 13
  | enumMember => 20
  | delegateType => 7
  | event => 23
  | method => 2
  | constructorMethod => 4
  | function => 3
  | property => 10
  | field => 5
  | constant => 21
  | localVariable => 6
  | parameter => 6
  | keyword => 14
  | typeParameter => 25
  | unlisted => 1

/-- The kind of a symbol. -/
def symbolNumber : SymbolKind → Int64
  | nameSpace => 3
  | classType => 5
  | structType => 23
  | moduleType => 2
  | interfaceType => 11
  | enumType => 10
  | enumMember => 22
  | delegateType => 5
  | event => 24
  | method => 6
  | constructorMethod => 9
  | function => 12
  | property => 7
  | field => 8
  | constant => 14
  | localVariable => 13
  | parameter => 13
  | keyword => 20
  | typeParameter => 26
  | unlisted => 13

end SymbolKind

structure Completion where
  display : Bytes
  /-- Empty when it is the displayed text. -/
  insert : Bytes := []
  kind : SymbolKind
  detail : Bytes := []
deriving DecidableEq, Inhabited

structure Hover where
  markdown : Bytes
  span : Option Lsp.Range := none
deriving DecidableEq, Inhabited

/-- A symbol of a document with the symbols inside it. -/
inductive DocumentSymbol where
  | node (name detail : Bytes) (kind : SymbolKind) (span nameSpan : Lsp.Range)
      (children : List DocumentSymbol)
deriving Inhabited

structure WorkspaceSymbol where
  name : Bytes
  kind : SymbolKind
  container : Bytes := []
  location : Lsp.Location
deriving DecidableEq, Inhabited

/-- Edits of one document. -/
structure DocumentEdits where
  uri : Bytes
  edits : List Lsp.TextEdit
deriving DecidableEq, Inhabited

end EditorSession.Analysis
