import EditorSession.Json.Value
import EditorSession.Text.Utf8

/-! Reading JSON text. The reader accepts the JSON grammar with leading zeros, refuses containers
nested more than 512 deep, and reports the first flaw with the offset it was noticed at. The
remaining nesting depth is what the recursion runs on. -/

namespace EditorSession.Json

/-- What is wrong with a text. -/
inductive Flaw where
  | truncatedEscape | badHexDigit | expectedString | unterminatedString | controlCharacter
  | invalidEscape | unknownEscape | expectedValue | expectedFraction | expectedExponent
  | numberOutOfRange | nestingTooDeep | expectedArrayComma | expectedColon | expectedObjectComma
  | unexpectedEnd | trailingCharacters
deriving DecidableEq, Repr

def Flaw.message : Flaw → Bytes
  | truncatedEscape => ascii "truncated unicode escape"
  | badHexDigit => ascii "invalid hex digit in unicode escape"
  | expectedString => ascii "expected '\"' at string start"
  | unterminatedString => ascii "unterminated string"
  | controlCharacter => ascii "unescaped control character in string"
  | invalidEscape => ascii "invalid escape"
  | unknownEscape => ascii "unknown escape"
  | expectedValue => ascii "expected value"
  | expectedFraction => ascii "expected digits after decimal point"
  | expectedExponent => ascii "expected exponent digits"
  | numberOutOfRange => ascii "number out of range"
  | nestingTooDeep => ascii "nesting too deep"
  | expectedArrayComma => ascii "expected ',' in array"
  | expectedColon => ascii "expected ':' after key"
  | expectedObjectComma => ascii "expected ',' in object"
  | unexpectedEnd => ascii "unexpected end of JSON"
  | trailingCharacters => ascii "trailing characters after JSON value"

structure ParseError where
  offset : Nat
  flaw : Flaw
deriving DecidableEq, Repr

def ParseError.message (e : ParseError) : Bytes :=
  ascii "JSON parse error at offset " ++ Bytes.decimal e.offset ++ ascii ": " ++ e.flaw.message

/-- What is still to be read, and how many bytes were read before it. -/
structure Cursor where
  rest : Bytes
  offset : Nat
deriving DecidableEq

/-- Reads one `α` from the front of the text. -/
abbrev Reader (α : Type) := Cursor → Except ParseError (α × Cursor)

namespace Cursor

def fail {α : Type} (c : Cursor) (flaw : Flaw) : Except ParseError α := .error ⟨c.offset, flaw⟩

/-- Moves past `n` bytes. -/
def advance (c : Cursor) (n : Nat) : Cursor := ⟨c.rest.drop n, c.offset + n⟩

/-- Space between tokens: space, tab, line feed and carriage return. -/
def isSpace (b : UInt8) : Bool := b == 32 || b == 9 || b == 13 || b == 10

def skipSpace (c : Cursor) : Cursor := c.advance (c.rest.takeWhile isSpace).length

/-- Moves past leading space and then past `b`, if that comes next. -/
def accept? (c : Cursor) (b : UInt8) : Option Cursor :=
  let c := c.skipSpace
  if c.rest.head? = some b then some (c.advance 1) else none

/-- The digits at the front, and the cursor after them. -/
def digits (c : Cursor) : Bytes × Cursor :=
  let run := c.rest.takeWhile Bytes.isDigit
  (run, c.advance run.length)

end Cursor

/-- The character that a one-letter escape denotes. -/
def shortEscape? (b : UInt8) : Option UInt8 :=
  if b = 34 then some 34
  else if b = 92 then some 92
  else if b = 47 then some 47
  else if b = 98 then some 8
  else if b = 102 then some 12
  else if b = 110 then some 10
  else if b = 114 then some 13
  else if b = 116 then some 9
  else none

/-- A flaw inside an escape, with the number of bytes read before it was noticed. -/
abbrev EscapeFlaw := Nat × Flaw

/-- The value of the four hexadecimal digits at the front. -/
def hexQuad (s : Bytes) : Except EscapeFlaw Nat :=
  if (s.take 4).length < 4 then .error (0, .truncatedEscape) else digitsFrom 4 0 0 s
where
  /-- Reads `left` more digits after `taken` that denote `code`. -/
  digitsFrom (left taken code : Nat) (s : Bytes) : Except EscapeFlaw Nat :=
    match left, s with
    | 0, _ => .ok code
    | _ + 1, [] => .error (taken, .truncatedEscape)
    | left + 1, b :: s =>
      match Bytes.hexValue? b with
      | some d => digitsFrom left (taken + 1) (16 * code + d) s
      | none => .error (taken + 1, .badHexDigit)

def isHighSurrogate (code : Nat) : Bool := 0xD800 ≤ code && code ≤ 0xDBFF

def isLowSurrogate (code : Nat) : Bool := 0xDC00 ≤ code && code ≤ 0xDFFF

/-- The code point of a surrogate pair. -/
def pairedCode (high low : Nat) : Nat := 0x10000 + (high - 0xD800) * 1024 + (low - 0xDC00)

/-- The code point of the low surrogate escape at the front, if there is one; whatever else stands
there is left to be read on its own, except that a malformed escape of sufficient length is a flaw. -/
def lowSurrogate? (s : Bytes) : Except EscapeFlaw (Option Nat) :=
  if (ascii "\\u").isPrefixOf s ∧ 6 ≤ (s.take 6).length then
    match hexQuad (s.drop 2) with
    | .error (n, flaw) => .error (n + 2, flaw)
    | .ok low => .ok (if isLowSurrogate low then some low else none)
  else .ok none

/-- Decodes what follows the two bytes that open a unicode escape: the code point, and how many bytes
the escape takes from there on. An escaped high surrogate joins with an escaped low surrogate right
after it; any other surrogate is replaced. -/
def unicodeEscape (s : Bytes) : Except EscapeFlaw (Nat × Nat) :=
  match hexQuad s with
  | .error flaw => .error flaw
  | .ok code =>
    if isHighSurrogate code then
      match lowSurrogate? (s.drop 4) with
      | .error (n, flaw) => .error (n + 4, flaw)
      | .ok (some low) => .ok (pairedCode code low, 10)
      | .ok none => .ok (Utf8.replacement, 4)
    else if isLowSurrogate code then .ok (Utf8.replacement, 4)
    else .ok (code, 4)

/-- Decodes what follows a backslash: the bytes denoted, and how many bytes were read for them. -/
def escape (s : Bytes) : Except EscapeFlaw (Bytes × Nat) :=
  match s with
  | [] => .error (0, .invalidEscape)
  | e :: rest =>
    match shortEscape? e with
    | some decoded => .ok ([decoded], 1)
    | none =>
      if e = 117 then
        match unicodeEscape rest with
        | .error (n, flaw) => .error (n + 1, flaw)
        | .ok (code, n) => .ok (Utf8.encode code, n + 1)
      else .error (1, .unknownEscape)

/-- Reads the rest of a string token, up to and with its closing quote. `done` holds the bytes
decoded so far, last one first. -/
def stringBody (rest : Bytes) (offset : Nat) (done : Bytes) :
    Except ParseError (Bytes × Cursor) :=
  match rest with
  | [] => .error ⟨offset, .unterminatedString⟩
  | b :: rest =>
    if b = 34 then .ok (done.reverse, ⟨rest, offset + 1⟩)
    else if b < 32 then .error ⟨offset + 1, .controlCharacter⟩
    else if b = 92 then
      match escape rest with
      | .error (n, flaw) => .error ⟨offset + 1 + n, flaw⟩
      | .ok (decoded, n) => stringBody (rest.drop n) (offset + 1 + n) (decoded.reverse ++ done)
    else stringBody rest (offset + 1) (b :: done)
termination_by rest.length
decreasing_by
  · rw [List.length_cons, List.length_drop]
    omega
  · exact Nat.lt_succ_self _

/-- Reads a string token. -/
def string : Reader Bytes := fun c =>
  match c.accept? 34 with
  | none => c.skipSpace.fail .expectedString
  | some c => stringBody c.rest c.offset []

/-- The digits of a fraction, if a point comes next. -/
def fractionPart (c : Cursor) : Except ParseError (Option Bytes × Cursor) :=
  if c.rest.head? = some 46 then
    let (digits, after) := (c.advance 1).digits
    if digits.isEmpty then after.fail .expectedFraction else .ok (some digits, after)
  else .ok (none, c)

/-- The exponent, if its mark comes next. -/
def exponentPart (c : Cursor) : Except ParseError (Option Int × Cursor) :=
  if c.rest.head? = some 101 ∨ c.rest.head? = some 69 then
    let c := c.advance 1
    let negative : Bool := c.rest.head? = some 45
    let c := if negative ∨ c.rest.head? = some 43 then c.advance 1 else c
    let (digits, after) := c.digits
    if digits.isEmpty then after.fail .expectedExponent
    else
      let magnitude : Int := Bytes.digitsValue digits
      .ok (some (if negative then -magnitude else magnitude), after)
  else .ok (none, c)

/-- The value of a numeral. Without fraction and exponent it is an integer when it fits 64 bits;
everything else is the nearest double, if there is one. -/
def numeral? (negative : Bool) (whole : Bytes) (fraction : Option Bytes) (exponent : Option Int) :
    Option Json :=
  let magnitude := Bytes.digitsValue whole
  let value : Int := if negative then -(magnitude : Int) else magnitude
  if fraction.isNone ∧ exponent.isNone ∧
      Int64.minValue.toInt ≤ value ∧ value ≤ Int64.maxValue.toInt then
    some (int (Int64.ofInt value))
  else
    let places := fraction.getD []
    let mantissa := Bytes.digitsValueFrom magnitude places
    (Binary64.ofDecimal? negative mantissa (exponent.getD 0 - places.length)).map real

/-- Reads a number token. -/
def number : Reader Json := fun c => do
  let negative : Bool := c.rest.head? = some 45
  let c := if negative then c.advance 1 else c
  let (whole, after) := c.digits
  if whole.isEmpty then c.fail .expectedValue
  else
    let (fraction, after) ← fractionPart after
    let (exponent, after) ← exponentPart after
    match numeral? negative whole fraction exponent with
    | some v => .ok (v, after)
    | none => after.fail .numberOutOfRange

/-- Reads array items after the opening bracket or a comma, up to and with the closing bracket; `done`
holds the items read so far, last one first. Every item takes at least one byte, so the length of the
text bounds their number. -/
def itemsFrom (item : Reader Json) : Nat → List Json → Reader Json
  | 0, _, c => c.fail .unexpectedEnd
  | fuel + 1, done, c => do
    let (v, c) ← item c
    match c.accept? 93 with
    | some c => .ok (array (v :: done).reverse, c)
    | none =>
      match c.accept? 44 with
      | some c => itemsFrom item fuel (v :: done) c
      | none => c.skipSpace.fail .expectedArrayComma

/-- Reads object members after the opening brace or a comma, up to and with the closing brace. -/
def membersFrom (value : Reader Json) : Nat → List (Bytes × Json) → Reader Json
  | 0, _, c => c.fail .unexpectedEnd
  | fuel + 1, done, c => do
    let (key, c) ← string c
    match c.accept? 58 with
    | none => c.skipSpace.fail .expectedColon
    | some c =>
      let (v, c) ← value c
      let done := Table.set key v done
      match c.accept? 125 with
      | some c => .ok (object done, c)
      | none =>
        match c.accept? 44 with
        | some c => membersFrom value fuel done c
        | none => c.skipSpace.fail .expectedObjectComma

/-- Reads an array after its opening bracket. -/
def arrayBody (item : Reader Json) : Reader Json := fun c =>
  match c.accept? 93 with
  | some c => .ok (array [], c)
  | none => itemsFrom item (c.rest.length + 1) [] c

/-- Reads an object after its opening brace. -/
def objectBody (value : Reader Json) : Reader Json := fun c =>
  match c.accept? 125 with
  | some c => .ok (object [], c)
  | none => membersFrom value (c.rest.length + 1) [] c

/-- Reads a value; `nested` reads the values inside a container, and its absence means that no
container may open here. -/
def valueWith (nested : Option (Reader Json)) : Reader Json := fun c =>
  let c := c.skipSpace
  match c.rest with
  | [] => c.fail .unexpectedEnd
  | b :: _ =>
    if b = 34 then do
      let (s, c) ← string c
      .ok (text s, c)
    else if b = 123 then
      match nested with
      | none => (c.advance 1).fail .nestingTooDeep
      | some nested => objectBody nested (c.advance 1)
    else if b = 91 then
      match nested with
      | none => (c.advance 1).fail .nestingTooDeep
      | some nested => arrayBody nested (c.advance 1)
    else if (ascii "true").isPrefixOf c.rest then .ok (bool true, c.advance 4)
    else if (ascii "false").isPrefixOf c.rest then .ok (bool false, c.advance 5)
    else if (ascii "null").isPrefixOf c.rest then .ok (null, c.advance 4)
    else number c

/-- Reads a value with at most `depth` containers inside one another. -/
def value : Nat → Reader Json
  | 0 => valueWith none
  | depth + 1 => valueWith (some (value depth))

/-- How many containers may stand inside one another. -/
def maxDepth : Nat := 512

/-- Reads a whole text: one value with nothing but space around it. -/
def parse (s : Bytes) : Except ParseError Json := do
  let (v, c) ← value maxDepth ⟨s, 0⟩
  let c := c.skipSpace
  if c.rest.isEmpty then .ok v else c.fail .trailingCharacters

end EditorSession.Json
