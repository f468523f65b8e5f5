import EditorSession.Json.Value

/-! Error objects of responses, and the failures that lead to them. -/

namespace EditorSession.Rpc

namespace Code

def parseError : Int32 := -32700
def invalidRequest : Int32 := -32600
def methodNotFound : Int32 := -32601
def invalidParams : Int32 := -32602
def internalError : Int32 := -32603
def serverNotInitialized : Int32 := -32002
def unknownErrorCode : Int32 := -32001
def requestFailed : Int32 := -32803
def serverCancelled : Int32 := -32802
def contentModified : Int32 := -32801
def requestCancelled : Int32 := -32800

end Code

/-- What kind of trouble a code stands for. -/
inductive Category where
  | parse | invalidRequest | methodNotFound | invalidParams | internal
  | serverNotInitialized | unknownError | requestFailed | serverCancelled | contentModified
  | requestCancelled | unknown
deriving DecidableEq, Repr

/-- The name a category goes by. -/
def Category.name : Category → Bytes
  | parse => ascii "JsonRpcParse"
  | invalidRequest => ascii "JsonRpcInvalidRequest"
  | methodNotFound => ascii "JsonRpcMethodNotFound"
  | invalidParams => ascii "JsonRpcInvalidParams"
  | internal => ascii "JsonRpcInternal"
  | serverNotInitialized => ascii "LspServerNotInitialized"
  | unknownError => ascii "LspUnknownError"
  | requestFailed => ascii "LspRequestFailed"
  | serverCancelled => ascii "LspServerCancelled"
  | contentModified => ascii "LspContentModified"
  | requestCancelled => ascii "LspRequestCancelled"
  | unknown => ascii "Unknown"

def Category.ofCode (code : Int32) : Category :=
  if code = Code.parseError then .parse
  else if code = Code.invalidRequest then .invalidRequest
  else if code = Code.methodNotFound then .methodNotFound
  else if code = Code.invalidParams then .invalidParams
  else if code = Code.internalError then .internal
  else if code = Code.serverNotInitialized then .serverNotInitialized
  else if code = Code.unknownErrorCode then .unknownError
  else if code = Code.requestFailed then .requestFailed
  else if code = Code.serverCancelled then .serverCancelled
  else if code = Code.contentModified then .contentModified
  else if code = Code.requestCancelled then .requestCancelled
  else .unknown

/-- An error as a response carries it. -/
structure Error where
  code : Int32
  message : Bytes
  data : Option Json := none

namespace Error

def category (e : Error) : Category := Category.ofCode e.code

def toJson (e : Error) : Json :=
  .record ([("code", .int e.code.toInt64), ("message", .text e.message)] ++
    match e.data with
    | some data => [("data", data)]
    | none => [])

/-- Reads an error object. The code is cut to its low 32 bits. -/
def ofJson? (v : Json) : Option Error := do
  let code ← v.intMember? (ascii "code")
  let message ← v.textMember? (ascii "message")
  return ⟨code.toInt32, message, v.member? (ascii "data")⟩

end Error

/-- A request that cannot be served as sent. -/
structure Refusal where
  code : Int32
  message : Bytes
deriving DecidableEq

/-- Why work on behalf of a request ended without a result. -/
inductive Failure where
  | cancelled
  | refused (r : Refusal)
  | crashed (reason : Bytes)
deriving DecidableEq

/-- The text that cancelled work reports. -/
def cancelledText : Bytes := ascii "Request cancelled"

/-- What a failure reports of itself. The text ends at its first zero byte. -/
def Failure.message : Failure → Bytes
  | cancelled => cancelledText
  | refused r => Bytes.beforeNul r.message
  | crashed reason => Bytes.beforeNul reason

def Failure.code : Failure → Int32
  | cancelled => Code.requestCancelled
  | refused r => r.code
  | crashed _ => Code.internalError

/-- The error that a failure is answered with. -/
def Failure.toError (f : Failure) : Error := ⟨f.code, f.message, none⟩

end EditorSession.Rpc
