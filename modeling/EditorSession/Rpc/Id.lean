import EditorSession.Json.Value

/-! Request ids: a text, a 64-bit integer or null. -/

namespace EditorSession.Rpc

inductive Id where
  | text (s : Bytes)
  | number (n : Int64)
  | null
deriving DecidableEq

namespace Id

/-- A fresh message has the empty text for its id. -/
instance : Inhabited Id := ⟨.text []⟩

/-- The key of an id in a table; ids of different kinds never share one. -/
def key : Id → Bytes
  | text s => ascii "s:" ++ s
  | number n => ascii "n:" ++ Bytes.decimalInt n.toInt
  | null => ascii "null"

/-- How an id is written in log lines. -/
def label : Id → Bytes
  | text s => 34 :: s ++ [34]
  | number n => Bytes.decimalInt n.toInt
  | null => ascii "null"

def toJson : Id → Json
  | text s => .text s
  | number n => .int n
  | null => .null

/-- Texts, integers and null are ids; every other value is none. -/
def ofJson? : Json → Option Id
  | .text s => some (text s)
  | .int n => some (number n)
  | .null => some null
  | _ => none

end Id

end EditorSession.Rpc
