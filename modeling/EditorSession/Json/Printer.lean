import EditorSession.Json.Value
import EditorSession.Number.Shortest

/-! Compact JSON text. Quotes, backslashes and control characters are escaped and every other byte
stands for itself; members are written in the order they are kept. -/

namespace EditorSession.Json

/-- The text of one byte inside a string. -/
def escapeByte (b : UInt8) : Bytes :=
  if b = 34 then [92, 34]
  else if b = 92 then [92, 92]
  else if b = 8 then [92, 98]
  else if b = 12 then [92, 102]
  else if b = 10 then [92, 110]
  else if b = 13 then [92, 114]
  else if b = 9 then [92, 116]
  else if b < 32 then
    [92, 117, 48, 48, Bytes.hexDigit (b.toNat / 16), Bytes.hexDigit (b.toNat % 16)]
  else [b]

/-- A quoted string. -/
def quote (s : Bytes) : Bytes := 34 :: s.flatMap escapeByte ++ [34]

/-- The text of a double; one that is not finite has none of its own and is written as null. -/
def realText (x : Binary64) : Bytes := if x.isFinite then Number.text x else ascii "null"

/-- The text of a value, with the given text for doubles. -/
def renderWith (real : Binary64 → Bytes) : Json → Bytes
  | null => ascii "null"
  | bool b => if b then ascii "true" else ascii "false"
  | int n => Bytes.decimalInt n.toInt
  | .real x => real x
  | text s => quote s
  | array items => 91 :: items_ items ++ [93]
  | object members => 123 :: members_ members ++ [125]
where
  items_ : List Json → Bytes
    | [] => []
    | [v] => renderWith real v
    | v :: rest => renderWith real v ++ 44 :: items_ rest
  members_ : List (Bytes × Json) → Bytes
    | [] => []
    | [(k, v)] => quote k ++ 58 :: renderWith real v
    | (k, v) :: rest => quote k ++ 58 :: renderWith real v ++ 44 :: members_ rest

/-- The compact text of a value. -/
def render (v : Json) : Bytes := v.renderWith realText

end EditorSession.Json
