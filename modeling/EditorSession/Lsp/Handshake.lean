import EditorSession.Lsp.Basic

/-! The opening exchange of a session: what the editor tells about itself, and what the server
offers. -/

namespace EditorSession.Lsp

/-- What the editor tells about itself. -/
structure Client where
  processId : Option Int64 := none
  name : Option Bytes := none
  /-- The legacy root followed by the workspace folders, without empty ones and repetitions. -/
  roots : List Bytes := []
deriving DecidableEq, Inhabited

/-- Appends a root unless it is empty or already there. -/
def addRoot (roots : List Bytes) (uri : Bytes) : List Bytes :=
  if uri.isEmpty ∨ uri ∈ roots then roots else roots ++ [uri]

/-- The uris of the workspace folders that have one. -/
def folderUris (params : Json) : List Bytes :=
  match params.member? (ascii "workspaceFolders") with
  | some (.array folders) => folders.filterMap fun folder => folder.textMember? (ascii "uri")
  | _ => []

/-- Reads what the editor sent. Nothing is required and malformed members are ignored. -/
def Client.read (params : Option Json) : Client :=
  match params with
  | some (.object members) =>
    let params := Json.object members
    let rootUri := (params.textMember? (ascii "rootUri")).toList
    { processId := params.intMember? (ascii "processId")
      name := (params.member? (ascii "clientInfo")).bind fun info => info.textMember? (ascii "name")
      roots := (rootUri ++ folderUris params).foldl addRoot [] }
  | _ => {}

/-- The name the server gives itself. -/
def serverName : Bytes := ascii "vbls"

/-- What the server offers. -/
def capabilities : Json :=
  .record
    [("positionEncoding", .text (ascii "utf-16")),
      ("textDocumentSync", .record
        [("openClose", .bool true), ("change", .int 2),
          ("save", .record [("includeText", .bool false)])]),
      ("completionProvider", .record
        [("triggerCharacters", .array [.text (ascii ".")]), ("resolveProvider", .bool false)]),
      ("hoverProvider", .bool true),
      ("definitionProvider", .bool true),
      ("referencesProvider", .bool true),
      ("renameProvider", .bool true),
      ("documentSymbolProvider", .bool true),
      ("workspaceSymbolProvider", .bool true)]

/-- The answer to the opening request. -/
def welcome (version : Bytes) : Json :=
  .record
    [("capabilities", capabilities),
      ("serverInfo", .record [("name", .text serverName), ("version", .text version)])]

end EditorSession.Lsp
