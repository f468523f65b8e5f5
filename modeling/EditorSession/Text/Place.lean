import EditorSession.Lsp.Basic
import EditorSession.Text.Utf8

/-! Offsets into a text and the places they stand for. A line ends at a line feed, a carriage return
or both together; within a line a place counts UTF-16 code units. Malformed sequences are stepped over
by the length their lead byte announces, cut at the end of the text. -/

namespace EditorSession.Text

/-- A line and a column in code units, both from zero. -/
structure Place where
  line : Nat := 0
  column : Nat := 0
deriving DecidableEq, Repr

/-- Negative members count as zero. -/
def Place.ofPosition (p : Lsp.Position) : Place := ⟨p.line.toInt.toNat, p.character.toInt.toNat⟩

def isBreak (b : UInt8) : Bool := b == 10 || b == 13

/-- Whether `b`, followed by `rest`, is the last byte of a line. A carriage return before a line feed
is not. -/
def endsLine (b : UInt8) (rest : Bytes) : Bool := b == 10 || (b == 13 && rest.head? != some 10)

/-- The start of the line that is `lines` further on, counted from a line start at `offset`; nothing
when the text has fewer lines. -/
def lineStart? : Bytes → Nat → Nat → Option Nat
  | _, 0, offset => some offset
  | [], _ + 1, _ => none
  | b :: rest, lines + 1, offset =>
    if endsLine b rest then lineStart? rest lines (offset + 1)
    else lineStart? rest (lines + 1) (offset + 1)

/-- The byte sequence that starts a non-empty text, as far as the text goes. -/
def sequence (lead : UInt8) (rest : Bytes) : Bytes :=
  (lead :: rest).take (Utf8.sequenceLength lead)

/-- Code units of a sequence: two when it is four bytes long, else one. -/
def units (length : Nat) : Nat := if length = 4 then 2 else 1

theorem sequence_length_pos (lead : UInt8) (rest : Bytes) : 0 < (sequence lead rest).length := by
  have := Utf8.sequenceLength_pos lead
  simp only [sequence, List.length_take, List.length_cons]
  omega

/-- The offset of column `columns` on a line that starts the text, counted from `offset`. A column
past the end of the line means its end, one inside a surrogate pair the start of the pair. -/
def columnOffset (text : Bytes) (columns offset : Nat) : Nat :=
  match text with
  | [] => offset
  | b :: rest =>
    if columns = 0 ∨ isBreak b then offset
    else
      let length := (sequence b rest).length
      if columns < units length then offset
      else columnOffset ((b :: rest).drop length) (columns - units length) (offset + length)
termination_by text.length
decreasing_by
  have := sequence_length_pos b rest
  simp only [List.length_drop, List.length_cons]
  omega

/-- The offset of a place. A line past the end of the text means that end. -/
def offsetOf (text : Bytes) (place : Place) : Nat :=
  match lineStart? text place.line 0 with
  | none => text.length
  | some start => columnOffset (text.drop start) place.column start

/-- The offset of a wire position. -/
def offsetAt (text : Bytes) (p : Lsp.Position) : Nat := offsetOf text (.ofPosition p)

/-- The place `left` bytes into the text, which itself starts at `here`. An offset between the two
bytes of a carriage return and line feed belongs to the line they end. -/
def placeFrom (text : Bytes) (left : Nat) (here : Place) : Place :=
  match text with
  | [] => here
  | b :: rest =>
    if left = 0 then here
    else if b = 13 ∧ rest.head? = some 10 then
      if left = 1 then here else placeFrom (rest.drop 1) (left - 2) ⟨here.line + 1, 0⟩
    else if isBreak b then placeFrom rest (left - 1) ⟨here.line + 1, 0⟩
    else
      let length := (sequence b rest).length
      placeFrom ((b :: rest).drop length) (left - length)
        ⟨here.line, here.column + units length⟩
termination_by text.length
decreasing_by
  · simp only [List.length_drop, List.length_cons]; omega
  · simp
  · have := sequence_length_pos b rest
    simp only [List.length_drop, List.length_cons]
    omega

/-- The place of an offset; one past the end means the end. -/
def placeAt (text : Bytes) (offset : Nat) : Place := placeFrom text (min offset text.length) {}

end EditorSession.Text
