import EditorSession.Json.Parser
import EditorSession.Json.Printer
import EditorSession.Rpc.Error
import EditorSession.Rpc.Id

/-! Requests, responses and notifications, with their wire forms. -/

namespace EditorSession.Rpc

structure Request where
  id : Id := default
  method : Bytes := []
  params : Option Json := none

structure Response where
  id : Id := default
  result : Option Json := none
  error : Option Json := none

structure Notification where
  method : Bytes := []
  params : Option Json := none

/-- The version member of every message. -/
def versionMember : String × Json := ("jsonrpc", .text (ascii "2.0"))

/-- A member that is written only when there is something to write. -/
def optionalMember (key : String) : Option Json → List (String × Json)
  | some v => [(key, v)]
  | none => []

namespace Request

def toJson (r : Request) : Json :=
  .record ([versionMember, ("id", r.id.toJson), ("method", .text r.method)] ++
    optionalMember "params" r.params)

/-- A request needs a textual method and a usable id. -/
def ofJson? (v : Json) : Option Request := do
  let method ← v.textMember? (ascii "method")
  let id ← v.member? (ascii "id")
  let id ← Id.ofJson? id
  return ⟨id, method, v.member? (ascii "params")⟩

def encode (r : Request) : Bytes := r.toJson.render

end Request

namespace Response

def ofResult (id : Id) (result : Json) : Response := { id, result := some result }

def ofError (id : Id) (e : Error) : Response := { id, error := some e.toJson }

def isError (r : Response) : Bool := r.error.isSome

/-- The error carried by a response, if it is well formed. -/
def error? (r : Response) : Option Error := r.error.bind Error.ofJson?

/-- A response is written with its error if it has one, and else with its result, null included. -/
def toJson (r : Response) : Json :=
  .record ([versionMember, ("id", r.id.toJson)] ++
    match r.error with
    | some e => [("error", e)]
    | none => [("result", r.result.getD .null)])

/-- A response needs a result or an error. A missing id is the null id. -/
def ofJson? (v : Json) : Option Response :=
  let result := v.member? (ascii "result")
  let error := v.member? (ascii "error")
  if result.isNone ∧ error.isNone then none
  else
    match v.member? (ascii "id") with
    | none => some ⟨.null, result, error⟩
    | some id => (Id.ofJson? id).map fun id => ⟨id, result, error⟩

def encode (r : Response) : Bytes := r.toJson.render

end Response

namespace Notification

def toJson (n : Notification) : Json :=
  .record ([versionMember, ("method", .text n.method)] ++ optionalMember "params" n.params)

/-- A notification has a textual method and no id. -/
def ofJson? (v : Json) : Option Notification := do
  let method ← v.textMember? (ascii "method")
  if (v.member? (ascii "id")).isSome then none
  else return ⟨method, v.member? (ascii "params")⟩

def encode (n : Notification) : Bytes := n.toJson.render

end Notification

/-- The outcome of reading a text into a message. -/
inductive Reading (α : Type) where
  | message (m : α)
  | malformed (e : Json.ParseError)
  | unsuitable

/-- Reads a text as the kind of message that `ofJson?` recognises. -/
def readWith {α : Type} (ofJson? : Json → Option α) (text : Bytes) : Reading α :=
  match Json.parse text with
  | .error e => .malformed e
  | .ok v =>
    match ofJson? v with
    | some m => .message m
    | none => .unsuitable

/-- A message slot after a reading: overwritten by a message, else untouched. -/
def Reading.into {α : Type} (slot : α) : Reading α → α
  | message m => m
  | malformed _ => slot
  | unsuitable => slot

def Reading.succeeded {α : Type} : Reading α → Bool
  | message _ => true
  | malformed _ => false
  | unsuitable => false

/-- Reads a text into the slot of a request. -/
def Request.read (text : Bytes) : Reading Request := readWith Request.ofJson? text

def Response.read (text : Bytes) : Reading Response := readWith Response.ofJson? text

def Notification.read (text : Bytes) : Reading Notification := readWith Notification.ofJson? text

end EditorSession.Rpc
