import EditorSession.Lsp.Basic
import EditorSession.Rpc.Error

/-! Reading the params of requests and notifications. The first flaw met, in the order the members
are read, is the one reported. -/

namespace EditorSession.Lsp

/-- What is wrong with the params of a message. -/
inductive ParamsFlaw where
  | notAnObject
  | missingObject (key : String)
  | missingText (key : String)
  | missingInteger (key : String)
  | negativePosition
  | missingChanges
  | changeNotAnObject
  | emptyNewName
deriving DecidableEq, Repr

namespace ParamsFlaw

def message : ParamsFlaw → Bytes
  | notAnObject => ascii "params must be an object"
  | missingObject key => ascii "missing object member '" ++ ascii key ++ ascii "'"
  | missingText key => ascii "missing string member '" ++ ascii key ++ ascii "'"
  | missingInteger key => ascii "missing integer member '" ++ ascii key ++ ascii "'"
  | negativePosition => ascii "position members must be non-negative"
  | missingChanges => ascii "missing array member 'contentChanges'"
  | changeNotAnObject => ascii "contentChanges entries must be objects"
  | emptyNewName => ascii "newName must not be empty"

/-- Flawed params are refused as invalid. -/
def refusal (flaw : ParamsFlaw) : Rpc.Refusal := ⟨Rpc.Code.invalidParams, flaw.message⟩

end ParamsFlaw

/-- The outcome of reading params. -/
abbrev Reading (α : Type) := Except ParamsFlaw α

/-- Params have to be an object. -/
def requireParams : Option Json → Reading Json
  | some (.object members) => .ok (.object members)
  | _ => .error .notAnObject

def requireObject (v : Json) (key : String) : Reading Json :=
  match v.objectMember? (ascii key) with
  | some member => .ok member
  | none => .error (.missingObject key)

def requireText (v : Json) (key : String) : Reading Bytes :=
  match v.textMember? (ascii key) with
  | some s => .ok s
  | none => .error (.missingText key)

def requireInteger (v : Json) (key : String) : Reading Int64 :=
  match v.intMember? (ascii key) with
  | some n => .ok n
  | none => .error (.missingInteger key)

/-- The uri of the member that identifies a document. -/
def requireDocumentUri (params : Json) : Reading Bytes := do
  let document ← requireObject params "textDocument"
  requireText document "uri"

/-- Both members are read before their signs are looked at. -/
def Position.read (v : Json) : Reading Position := do
  let line ← requireInteger v "line"
  let character ← requireInteger v "character"
  if line < 0 ∨ character < 0 then .error .negativePosition else return ⟨line, character⟩

def Range.read (v : Json) : Reading Range := do
  let start ← requireObject v "start"
  let start ← Position.read start
  let stop ← requireObject v "end"
  let stop ← Position.read stop
  return ⟨start, stop⟩

/-- A document as the editor opens it. -/
structure DocumentItem where
  uri : Bytes
  languageId : Bytes
  version : Int64
  text : Bytes
deriving DecidableEq

/-- A language id that is missing or no text is empty. -/
def DocumentItem.read (params : Option Json) : Reading DocumentItem := do
  let params ← requireParams params
  let document ← requireObject params "textDocument"
  let uri ← requireText document "uri"
  let languageId := (document.textMember? (ascii "languageId")).getD []
  let version ← requireInteger document "version"
  let text ← requireText document "text"
  return ⟨uri, languageId, version, text⟩

/-- A null range counts as a missing one. -/
def Change.readRange (v : Json) : Reading (Option Range) :=
  match v.member? (ascii "range") with
  | none => .ok none
  | some .null => .ok none
  | some range => (Range.read range).map some

def Change.read (v : Json) : Reading Change :=
  match v with
  | .object _ => do
    let range ← Change.readRange v
    let text ← requireText v "text"
    return ⟨range, text⟩
  | _ => .error .changeNotAnObject

/-- Changes of a document, to be applied in order. -/
structure DocumentChanges where
  uri : Bytes
  version : Int64
  changes : List Change
deriving DecidableEq

def DocumentChanges.read (params : Option Json) : Reading DocumentChanges := do
  let params ← requireParams params
  let document ← requireObject params "textDocument"
  let uri ← requireText document "uri"
  let version ← requireInteger document "version"
  match params.member? (ascii "contentChanges") with
  | some (.array entries) => return ⟨uri, version, ← entries.mapM Change.read⟩
  | _ => .error .missingChanges

/-- A saved document, with its text if the editor sent it. -/
structure DocumentSave where
  uri : Bytes
  text : Option Bytes
deriving DecidableEq

def DocumentSave.read (params : Option Json) : Reading DocumentSave := do
  let params ← requireParams params
  let uri ← requireDocumentUri params
  return ⟨uri, params.textMember? (ascii "text")⟩

def readDocumentUri (params : Option Json) : Reading Bytes := do
  let params ← requireParams params
  requireDocumentUri params

/-- A position in a document. -/
structure DocumentPosition where
  uri : Bytes
  position : Position
deriving DecidableEq

/-- Reads document and position from params known to be an object. -/
def DocumentPosition.ofObject (params : Json) : Reading DocumentPosition := do
  let uri ← requireDocumentUri params
  let position ← requireObject params "position"
  let position ← Position.read position
  return ⟨uri, position⟩

def DocumentPosition.read (params : Option Json) : Reading DocumentPosition := do
  let params ← requireParams params
  DocumentPosition.ofObject params

structure ReferenceQuery extends DocumentPosition where
  includeDeclaration : Bool
deriving DecidableEq

/-- Declarations are left out unless the context asks for them. -/
def ReferenceQuery.read (params : Option Json) : Reading ReferenceQuery := do
  let params ← requireParams params
  let place ← DocumentPosition.ofObject params
  let context := (params.member? (ascii "context")).getD .null
  return ⟨place, (context.boolMember? (ascii "includeDeclaration")).getD false⟩

structure RenameQuery extends DocumentPosition where
  newName : Bytes
deriving DecidableEq

def RenameQuery.read (params : Option Json) : Reading RenameQuery := do
  let params ← requireParams params
  let place ← DocumentPosition.ofObject params
  let newName ← requireText params "newName"
  if newName.isEmpty then .error .emptyNewName else return ⟨place, newName⟩

/-- The text to look for among the symbols of the workspace. -/
def readSymbolQuery (params : Option Json) : Reading Bytes := do
  let params ← requireParams params
  requireText params "query"

end EditorSession.Lsp
