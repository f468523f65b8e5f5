import EditorSession.Json.Value
import EditorSession.Proofs.Table
import EditorSession.Proofs.Text.Encoding
import Mathlib.Algebra.Group.Nat.Defs
import Mathlib.Algebra.Group.Int.Defs

/-! The JSON grammar and what its texts denote. A denotation relates texts to values; that of a
container is built from that of the values inside it, and as many as are stacked up, so many containers
may stand inside one another. -/

namespace EditorSession.Json.Grammar

/-- Which texts denote which values. -/
abbrev Denotation (α : Type) := Bytes → α → Prop

/-- Any run of space, tab, carriage return and line feed. -/
def Space (s : Bytes) : Prop := ∀ b ∈ s, b = 32 ∨ b = 9 ∨ b = 13 ∨ b = 10

/-! ### Strings -/

/-- The letters of the one-letter escapes with the bytes they denote. -/
def shortEscapes : List (UInt8 × UInt8) :=
  [(34, 34), (92, 92), (47, 47), (98, 8), (102, 12), (110, 10), (114, 13), (116, 9)]

/-- Four hexadecimal digits of either case. -/
structure Quad where
  digits : Bytes
  four : digits.length = 4
  hex : ∀ b ∈ digits, (Bytes.hexValue? b).isSome

/-- The number that hexadecimal digits denote, continuing from `start`. -/
def hexFrom (start : Nat) (digits : Bytes) : Nat :=
  digits.foldl (fun code b => 16 * code + (Bytes.hexValue? b).getD 0) start

namespace Quad

def code (q : Quad) : Nat := hexFrom 0 q.digits

/-- The character of an escape on its own. A surrogate is no character and is replaced. -/
def char (q : Quad) : Char := if q.code.isValidChar then Char.ofNat q.code else '\uFFFD'

/-- The character of two escapes in a row, if they are a high and a low surrogate. -/
def pair? (high low : Quad) : Option Char :=
  if (0xD800 ≤ high.code ∧ high.code < 0xDC00) ∧ 0xDC00 ≤ low.code ∧ low.code < 0xE000 then
    some (Char.ofNat (0x10000 + (high.code - 0xD800) * 0x400 + (low.code - 0xDC00)))
  else none

end Quad

/-- What stands between the quotes of a string. -/
inductive Piece where
  | plain (b : UInt8) (allowed : 32 ≤ b ∧ b ≠ 34 ∧ b ≠ 92)
  | short (letter byte : UInt8) (known : (letter, byte) ∈ shortEscapes)
  | unicode (quad : Quad)

def Piece.text : Piece → Bytes
  | plain b _ => [b]
  | short letter _ _ => [92, letter]
  | unicode quad => 92 :: 117 :: quad.digits

/-- The bytes that pieces denote. A byte outside the escapes stands for itself, also where it is no
part of a character. -/
def denoted : List Piece → Bytes
  | [] => []
  | .plain b _ :: rest => b :: denoted rest
  | .short _ b _ :: rest => b :: denoted rest
  | .unicode high :: .unicode low :: rest =>
    match high.pair? low with
    | some c => String.utf8EncodeChar c ++ denoted rest
    | none => String.utf8EncodeChar high.char ++ denoted (.unicode low :: rest)
  | .unicode quad :: rest => String.utf8EncodeChar quad.char ++ denoted rest

def texts (pieces : List Piece) : Bytes := pieces.flatMap Piece.text

inductive Quoted : Denotation Bytes
  | mk (pieces : List Piece) : Quoted (34 :: texts pieces ++ [34]) (denoted pieces)

/-! ### Numbers -/

/-- Decimal digits, at least one; leading zeros are allowed. -/
abbrev Digits := { s : Bytes // Bytes.isNumeral s = true }

/-- The sign of an exponent as it is written. -/
inductive Sign where
  | none | plus | minus

def Sign.text : Sign → Bytes
  | none => []
  | plus => [43]
  | minus => [45]

structure Exponent where
  capital : Bool
  sign : Sign
  digits : Digits

namespace Exponent

def text (e : Exponent) : Bytes := (if e.capital then 69 else 101) :: e.sign.text ++ e.digits.1

def value (e : Exponent) : Int :=
  match e.sign with
  | .minus => -Bytes.digitsValue e.digits.1
  | _ => Bytes.digitsValue e.digits.1

end Exponent

structure Numeral where
  negative : Bool
  whole : Digits
  fraction : Option Digits
  exponent : Option Exponent

/-- A part that is absent is written as nothing. -/
def written {α : Type} (text : α → Bytes) : Option α → Bytes
  | none => []
  | some x => text x

namespace Numeral

def fractionText (places : Digits) : Bytes := 46 :: places.1

def text (n : Numeral) : Bytes :=
  (if n.negative then [45] else []) ++ n.whole.1 ++ written fractionText n.fraction ++
    written Exponent.text n.exponent

/-- The value of the digits before the point, with their sign. -/
def integer (n : Numeral) : Int :=
  if n.negative then -(Bytes.digitsValue n.whole.1 : Int) else Bytes.digitsValue n.whole.1

/-- The digits after the point. -/
def places (n : Numeral) : Bytes := written Subtype.val n.fraction

/-- The power of ten by which the digits before and after the point are to be multiplied. -/
def scale (n : Numeral) : Int := (n.exponent.map Exponent.value).getD 0 - n.places.length

/-- Written without fraction and exponent, with a value that fits a signed 64-bit integer. -/
def Fits (n : Numeral) : Prop :=
  n.fraction = none ∧ n.exponent = none ∧ -2 ^ 63 ≤ n.integer ∧ n.integer < 2 ^ 63

end Numeral

/-- An integer that fits is itself; any other number is what the conversion of its digits to a double
gives, and is none where the conversion refuses. -/
inductive Number : Denotation Json
  | int {n : Numeral} {i : Int64} (fits : n.Fits) (value : i.toInt = n.integer) : Number n.text (.int i)
  | real {n : Numeral} {x : Binary64} (other : ¬n.Fits)
      (value : Binary64.ofDecimal? n.negative (Bytes.digitsValue (n.whole.1 ++ n.places)) n.scale =
        some x) : Number n.text (.real x)

/-! ### Values -/

/-- Space on both sides. -/
inductive Padded {α : Type} (inner : Denotation α) : Denotation α
  | mk {before t after : Bytes} {v : α} (hb : Space before) (h : inner t v) (ha : Space after) :
      Padded inner (before ++ t ++ after) v

/-- One entry or more, with a comma between any two and none after the last. -/
inductive Row {α : Type} (entry : Denotation α) : Denotation (List α)
  | last {t : Bytes} {x : α} (h : entry t x) : Row entry t [x]
  | more {t u : Bytes} {x : α} {xs : List α} (h : entry t x) (hs : Row entry u xs) :
      Row entry (t ++ 44 :: u) (x :: xs)

/-- A key and a value with a colon between them. -/
inductive Member (nested : Denotation Json) : Denotation (Bytes × Json)
  | mk {s t : Bytes} {k : Bytes} {v : Json} (hk : Padded Quoted s k) (hv : Padded nested t v) :
      Member nested (s ++ 58 :: t) (k, v)

/-- The values that are no containers. -/
inductive Scalar : Denotation Json
  | null : Scalar (ascii "null") .null
  | true : Scalar (ascii "true") (.bool true)
  | false : Scalar (ascii "false") (.bool false)
  | text {t s : Bytes} (h : Quoted t s) : Scalar t (.text s)
  | number {t : Bytes} {v : Json} (h : Number t v) : Scalar t v

/-- Arrays and objects of nested values. -/
inductive Container (nested : Denotation Json) : Denotation Json
  | emptyArray {s : Bytes} (h : Space s) : Container nested (91 :: s ++ [93]) (.array [])
  | array {t : Bytes} {vs : List Json} (h : Row (Padded nested) t vs) :
      Container nested (91 :: t ++ [93]) (.array vs)
  | emptyObject {s : Bytes} (h : Space s) : Container nested (123 :: s ++ [125]) (.object [])
  | object {t : Bytes} {ms table : List (Bytes × Json)} (h : Row (Member nested) t ms)
      (settled : Table.Settles ms table) : Container nested (123 :: t ++ [125]) (.object table)

/-- The values with at most the given number of containers inside one another. -/
def Value : Nat → Denotation Json
  | 0 => Scalar
  | depth + 1 => fun t v => Scalar t v ∨ Container (Value depth) t v

/-- A whole text: one value with space around it. -/
def Document : Denotation Json := Padded (Value 512)

end EditorSession.Json.Grammar
