import EditorSession.Rpc.Message

/-! What a received frame is. Only requests are answered; a frame that is nothing known is skipped. -/

namespace EditorSession.Dispatch

inductive Incoming where
  /-- Not JSON. -/
  | malformed (size : Nat) (error : Json.ParseError)
  | notObject
  /-- An object without method, result and error. -/
  | unrecognized
  /-- A response, which nothing here waits for. -/
  | response (id : Option Json)
  /-- An id with a method that is no text, or a method with an id that is none. -/
  | invalidRequest (id : Rpc.Id)
  | request (r : Rpc.Request)
  /-- A notification whose method is no text. -/
  | namelessNotification
  /-- Asks to cancel the request with the given id, if that is one. -/
  | cancel (id : Option Rpc.Id)
  | notification (n : Rpc.Notification)

/-- The notification that asks for a cancellation. -/
def cancelMethod : Bytes := ascii "$/cancelRequest"

namespace Incoming

/-- The id that the params of a cancellation name. -/
def cancelledId? (params : Option Json) : Option Rpc.Id :=
  (params.bind fun v => v.member? (ascii "id")).bind Rpc.Id.ofJson?

def ofNotification (n : Rpc.Notification) : Incoming :=
  if n.method = cancelMethod then .cancel (cancelledId? n.params) else .notification n

/-- Sorts an object by its members: a method with an id is a request, a method alone a
notification, a result or an error without a method a response. -/
def ofJson (v : Json) : Incoming :=
  match v.member? (ascii "method"), v.member? (ascii "id") with
  | some _, some id =>
    match Rpc.Request.ofJson? v with
    | some r => .request r
    | none => .invalidRequest ((Rpc.Id.ofJson? id).getD .null)
  | some _, none =>
    match Rpc.Notification.ofJson? v with
    | some n => ofNotification n
    | none => .namelessNotification
  | none, id =>
    if (v.member? (ascii "result")).isSome ∨ (v.member? (ascii "error")).isSome then .response id
    else .unrecognized

def ofFrame (frame : Bytes) : Incoming :=
  match Json.parse frame with
  | .error e => .malformed frame.length e
  | .ok v => if v.isObject then ofJson v else .notObject

end Incoming

end EditorSession.Dispatch
