import EditorSession.Rpc.Message

/-! Message objects that texts are read into, one after the other. The members of a value are looked
through before the first field is set; then every field is set, the optional ones to nothing where
the value has no member for them. -/

namespace EditorSession.Rpc

/-- Sets the fields of a request from a value. Tells whether the value was a request. -/
def Request.fill (v : Json) : StateM Request Bool := do
  let some method := v.textMember? (ascii "method") | return false
  let some id := v.member? (ascii "id") | return false
  let some id := Id.ofJson? id | return false
  modify fun r => { r with id }
  modify fun r => { r with method }
  modify fun r => { r with params := v.member? (ascii "params") }
  return true

/-- A missing id becomes the null id; an id that is there has to be usable. -/
def Response.fill (v : Json) : StateM Response Bool := do
  let result := v.member? (ascii "result")
  let error := v.member? (ascii "error")
  if result.isNone ∧ error.isNone then return false
  match v.member? (ascii "id") with
  | some id =>
    let some id := Id.ofJson? id | return false
    modify fun r => { r with id }
  | none => modify fun r => { r with id := .null }
  modify fun r => { r with result }
  modify fun r => { r with error }
  return true

def Notification.fill (v : Json) : StateM Notification Bool := do
  let some method := v.textMember? (ascii "method") | return false
  if (v.member? (ascii "id")).isSome then return false
  modify fun n => { n with method }
  modify fun n => { n with params := v.member? (ascii "params") }
  return true

/-- Reads a text into a message, whose fields `fill` sets from the value of the text. -/
def readInto {α : Type} (fill : Json → StateM α Bool) (text : Bytes) : StateM α (Reading Unit) := do
  match Json.parse text with
  | .error e => return .malformed e
  | .ok v => return if ← fill v then .message () else .unsuitable

end EditorSession.Rpc
