/-! Byte strings and the ASCII conventions shared by the whole library. Every text is kept as the
bytes that arrived, so malformed UTF-8 passes through unchanged; case folding, digits and blanks
concern ASCII only. -/

namespace EditorSession

/-- A byte string. -/
abbrev Bytes := List UInt8

instance : LawfulBEq Bytes := inferInstanceAs (LawfulBEq (List UInt8))

/-- The bytes of an ASCII literal. -/
def ascii (s : String) : Bytes := s.toList.map fun c => UInt8.ofNat c.toNat

namespace Bytes

/-- ASCII lower case of one byte. -/
def lowerByte (b : UInt8) : UInt8 := if 65 ≤ b ∧ b ≤ 90 then b + 32 else b

/-- ASCII upper case of one byte. -/
def upperByte (b : UInt8) : UInt8 := if 97 ≤ b ∧ b ≤ 122 then b - 32 else b

def lower (s : Bytes) : Bytes := s.map lowerByte

def upper (s : Bytes) : Bytes := s.map upperByte

/-- A decimal digit. -/
def isDigit (b : UInt8) : Bool := 48 ≤ b && b ≤ 57

/-- White space of headers: space, tab, line feed, vertical tab, form feed, carriage return. -/
def isBlank (b : UInt8) : Bool := b == 32 || (9 ≤ b && b ≤ 13)

/-- The byte of a decimal digit below ten. -/
def digit (n : Nat) : UInt8 := UInt8.ofNat (48 + n)

/-- Decimal digits, most significant first and without leading zeros. -/
def decimal (n : Nat) : Bytes :=
  if n < 10 then [digit n] else decimal (n / 10) ++ [digit (n % 10)]
termination_by n

/-- A decimal integer with a sign only when negative. -/
def decimalInt (n : Int) : Bytes :=
  if n < 0 then 45 :: decimal n.natAbs else decimal n.natAbs

/-- The number a run of digits denotes, continuing from `start`. -/
def digitsValueFrom (start : Nat) (s : Bytes) : Nat :=
  s.foldl (fun v b => 10 * v + (b.toNat - 48)) start

/-- The number a run of digits denotes; leading zeros are allowed. -/
def digitsValue (s : Bytes) : Nat := digitsValueFrom 0 s

/-- A non-empty run of decimal digits. -/
def isNumeral (s : Bytes) : Bool := !s.isEmpty && s.all isDigit

/-- Drops blanks at both ends. -/
def trim (s : Bytes) : Bytes :=
  ((s.dropWhile isBlank).reverse.dropWhile isBlank).reverse

/-- The part before the first zero byte. -/
def beforeNul (s : Bytes) : Bytes := s.takeWhile (· ≠ 0)

/-- The parts before and after the first `sep`, if there is one. -/
def splitOnce (sep : UInt8) : Bytes → Option (Bytes × Bytes)
  | [] => none
  | b :: rest =>
    if b = sep then some ([], rest)
    else (splitOnce sep rest).map fun (front, back) => (b :: front, back)

/-- The part after the last `sep`, or everything when there is none. -/
def afterLast (sep : UInt8) (s : Bytes) : Bytes :=
  (s.reverse.takeWhile (· ≠ sep)).reverse

/-- The lines of a text, without their line feeds; what follows the last line feed is a line unless
it is empty. -/
def lines (s : Bytes) : List Bytes :=
  let (last, done) := s.foldr (fun b (front, done) =>
    if b = 10 then ([], front :: done) else (b :: front, done)) (([] : Bytes), ([] : List Bytes))
  let all := last :: done
  if all.getLast? = some [] then all.dropLast else all

/-- Lexicographic order by byte value. -/
def le : Bytes → Bytes → Bool
  | [], _ => true
  | _ :: _, [] => false
  | a :: s, b :: t => if a = b then le s t else a < b

/-- The lower-case hexadecimal digit of a number below sixteen. -/
def hexDigit (n : Nat) : UInt8 := if n < 10 then UInt8.ofNat (48 + n) else UInt8.ofNat (87 + n)

/-- The value of a hexadecimal digit of either case. -/
def hexValue? (b : UInt8) : Option Nat :=
  if 48 ≤ b ∧ b ≤ 57 then some (b.toNat - 48)
  else if 97 ≤ b ∧ b ≤ 102 then some (b.toNat - 87)
  else if 65 ≤ b ∧ b ≤ 70 then some (b.toNat - 55)
  else none

end Bytes

end EditorSession
