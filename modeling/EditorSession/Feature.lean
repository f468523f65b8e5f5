import EditorSession.Analysis.Query
import EditorSession.Log
import EditorSession.Lsp.Params

/-! Language features: from the params of a request to a question for the engine, and from the
engine's answer to the result of the request. -/

namespace EditorSession.Analysis

namespace Completion

def toJson (c : Completion) : Json :=
  .record ([("label", .text c.display), ("kind", .int c.kind.completionNumber)] ++
    Lsp.nonEmptyMember "detail" c.detail ++
    if c.insert = c.display then [] else Lsp.nonEmptyMember "insertText" c.insert)

end Completion

/-- A completion list, always complete. -/
def completionList (items : List Completion) : Json :=
  .record [("isIncomplete", .bool false), ("items", .array (items.map Completion.toJson))]

/-- A hover without text is none. -/
def hoverJson : Option Hover → Json
  | none => .null
  | some info =>
    if info.markdown.isEmpty then .null
    else
      .record ([("contents", .record
          [("kind", .text (ascii "markdown")), ("value", .text info.markdown)])] ++
        match info.span with
        | some span => [("range", span.toJson)]
        | none => [])

/-- The edits of each document under its uri. Documents without edits are left out, and a later
entry for a uri takes the place of an earlier one. -/
def editTable (groups : List DocumentEdits) : Table Json :=
  Table.ofPairs ((groups.filter fun group => ¬group.edits.isEmpty).map fun group =>
    (group.uri, .array (group.edits.map Lsp.TextEdit.toJson)))

/-- A workspace edit; null when nothing changes. -/
def workspaceEdit (groups : List DocumentEdits) : Json :=
  match editTable groups with
  | [] => .null
  | changes => .record [("changes", .object changes)]

/-- A symbol as an object, with its children when it has any. -/
def DocumentSymbol.toJson : DocumentSymbol → Json
  | .node name detail kind span nameSpan children =>
    .record ([("name", .text name)] ++ Lsp.nonEmptyMember "detail" detail ++
      [("kind", .int kind.symbolNumber), ("range", span.toJson),
        ("selectionRange", nameSpan.toJson)] ++
      match children with
      | [] => []
      | first :: rest => [("children", .array (first.toJson :: forest rest))])
where
  forest : List DocumentSymbol → List Json
    | [] => []
    | symbol :: rest => symbol.toJson :: forest rest

def WorkspaceSymbol.toJson (s : WorkspaceSymbol) : Json :=
  .record ([("name", .text s.name), ("kind", .int s.kind.symbolNumber),
    ("location", s.location.toJson)] ++ Lsp.nonEmptyMember "containerName" s.container)

namespace Feature

/-- The name a feature has in log lines. -/
def label : Feature → Bytes
  | completion => ascii "completion"
  | hover => ascii "hover"
  | definition => ascii "definition"
  | references => ascii "references"
  | rename => ascii "rename"
  | documentSymbol => ascii "documentSymbol"
  | workspaceSymbol => ascii "workspace/symbol"

/-- The result of a request that has nothing to report. -/
def emptyResult : Feature → Json
  | completion => completionList []
  | hover => .null
  | definition => .array []
  | references => .array []
  | rename => .null
  | documentSymbol => .array []
  | workspaceSymbol => .array []

/-- The result of a request from the engine's answer. -/
def resultJson : (feature : Feature) → feature.Result → Json
  | completion, items => completionList items
  | hover, info => hoverJson info
  | definition, locations => .array (locations.map Lsp.Location.toJson)
  | references, locations => .array (locations.map Lsp.Location.toJson)
  | rename, groups => workspaceEdit groups
  | documentSymbol, symbols => .array (DocumentSymbol.toJson.forest symbols)
  | workspaceSymbol, symbols => .array (symbols.map WorkspaceSymbol.toJson)

/-- The question that a request puts to the engine. There is none when the document has no handle;
symbols of the workspace need no document. -/
def query? (feature : Feature) (handleOf : Bytes → Option Handle) (params : Option Json) :
    Lsp.Reading (Option Query) :=
  match feature with
  | completion => do
    let at_ ← Lsp.DocumentPosition.read params
    return (handleOf at_.uri).map fun h => .completion h at_.position
  | hover => do
    let at_ ← Lsp.DocumentPosition.read params
    return (handleOf at_.uri).map fun h => .hover h at_.position
  | definition => do
    let at_ ← Lsp.DocumentPosition.read params
    return (handleOf at_.uri).map fun h => .definition h at_.position
  | references => do
    let at_ ← Lsp.ReferenceQuery.read params
    return (handleOf at_.uri).map fun h => .references h at_.position at_.includeDeclaration
  | rename => do
    let at_ ← Lsp.RenameQuery.read params
    return (handleOf at_.uri).map fun h => .rename h at_.position at_.newName
  | documentSymbol => do
    let uri ← Lsp.readDocumentUri params
    return (handleOf uri).map .documentSymbol
  | workspaceSymbol => do
    let text ← Lsp.readSymbolQuery params
    return some (.workspaceSymbol text)

/-- What an engine failure logs. -/
def crashNotice (feature : Feature) (reason : Bytes) : Log.Notice :=
  .error (feature.label ++ ascii " failed in the analysis engine: " ++ Bytes.beforeNul reason)

/-- The result of a request once the engine has answered. Cancellations and refusals pass through; a
stop request turns everything else into a cancellation; a crash is logged and gives the empty
result. -/
def respond (feature : Feature) (stopped : Bool) (outcome : Outcome feature.Result) :
    Outcome Json × List Log.Notice :=
  match outcome with
  | .error .cancelled => (.error .cancelled, [])
  | .error (.refused r) => (.error (.refused r), [])
  | .error (.crashed reason) =>
    if stopped then (.error .cancelled, [])
    else (.ok feature.emptyResult, [feature.crashNotice reason])
  | .ok result => if stopped then (.error .cancelled, []) else (.ok (feature.resultJson result), [])

end Feature

end EditorSession.Analysis
