import EditorSession.Proofs.Text.Encoding

/-! Places and edits as an editor understands them, on the UTF-16 form of a text. Lines and columns
are read off the code units alone. -/

namespace EditorSession.Text

/-! ### Lines and columns of code units -/

def isUnitBreak (u : UInt16) : Bool := u == 10 || u == 13

def isHigh (u : UInt16) : Bool := 0xD800 ≤ u.toNat && u.toNat < 0xDC00

def isLow (u : UInt16) : Bool := 0xDC00 ≤ u.toNat && u.toNat < 0xE000

/-- What follows the first line, if something ends it. -/
def nextLine? : List UInt16 → Option (List UInt16)
  | [] => none
  | 13 :: 10 :: rest => some rest
  | u :: rest => if isUnitBreak u then some rest else nextLine? rest

/-- The text from the start of the line that is `lines` further on. -/
def fromLine? (text : List UInt16) : Nat → Option (List UInt16)
  | 0 => some text
  | lines + 1 => (nextLine? text).bind (fromLine? · lines)

/-- Code units of the first line, without what ends it. -/
def lineLength (text : List UInt16) : Nat := (text.takeWhile fun u => !isUnitBreak u).length

/-- The offset lies between the halves of a surrogate pair. -/
def splitsPair (text : List UInt16) (offset : Nat) : Bool :=
  0 < offset && text[offset - 1]?.any isHigh && text[offset]?.any isLow

/-- The offset of a column on the first line. -/
def unitColumn (text : List UInt16) (column : Nat) : Nat :=
  let offset := min column (lineLength text)
  if splitsPair text offset then offset - 1 else offset

/-- The offset of a place. -/
def unitOffset (text : List UInt16) (place : Place) : Nat :=
  match fromLine? text place.line with
  | none => text.length
  | some rest => text.length - rest.length + unitColumn rest place.column

/-- A change in code units. -/
structure UnitChange where
  range : Option (Place × Place)
  text : List UInt16

/-- The reference edit. -/
def UnitChange.apply (text : List UInt16) (change : UnitChange) : List UInt16 :=
  match change.range with
  | none => change.text
  | some (start, stop) =>
    let a := unitOffset text start
    let b := unitOffset text stop
    text.take (min a b) ++ change.text ++ text.drop (max a b)

/-! ### The code units of a character -/

/-- A character is one unit that is no surrogate, or a surrogate pair. -/
inductive Units (c : Char) : Prop where
  | single (u : UInt16) (hu : codeUnits c = [u]) (hh : isHigh u = false) (hl : isLow u = false)
      (hf : u = 10 ↔ c = '\n') (hr : u = 13 ↔ c = '\r')
  | pair (h l : UInt16) (hu : codeUnits c = [h, l]) (hh : isHigh h = true) (hl : isLow l = true)

theorem units_cases (c : Char) : Units c := by
  have hv : c.toNat < 0xD800 ∨ 0xDFFF < c.toNat ∧ c.toNat < 0x110000 := c.valid
  by_cases hc : c.toNat < 0x10000
  · have hn : (UInt16.ofNat c.toNat).toNat = c.toNat := UInt16.toNat_ofNat_of_lt hc
    refine .single _ (if_pos hc) ?_ ?_ ?_ ?_
    · rw [isHigh, hn]
      simp only [Bool.and_eq_false_iff, decide_eq_false_iff_not]
      omega
    · rw [isLow, hn]
      simp only [Bool.and_eq_false_iff, decide_eq_false_iff_not]
      omega
    · rw [eq_feed_iff, ← UInt16.toNat_inj, hn]
      rfl
    · rw [eq_return_iff, ← UInt16.toNat_inj, hn]
      rfl
  · have hh : (UInt16.ofNat (0xD800 + (c.toNat - 0x10000) / 1024)).toNat =
        0xD800 + (c.toNat - 0x10000) / 1024 := UInt16.toNat_ofNat_of_lt (by rw [UInt16.size]; omega)
    have hl : (UInt16.ofNat (0xDC00 + (c.toNat - 0x10000) % 1024)).toNat =
        0xDC00 + (c.toNat - 0x10000) % 1024 := UInt16.toNat_ofNat_of_lt (by rw [UInt16.size]; omega)
    refine .pair _ _ (if_neg hc) ?_ ?_
    · rw [isHigh, hh]
      simp only [Bool.and_eq_true, decide_eq_true_eq]
      omega
    · rw [isLow, hl]
      simp only [Bool.and_eq_true, decide_eq_true_eq]
      omega

end EditorSession.Text
