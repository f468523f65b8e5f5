import EditorSession.Proofs.Text.Pieces

/-! Offsets and places are inverse to each other on well-formed text. An offset leads to a place and
the place back to the offset, unless the offset parts a carriage return from its line feed; a place
leads to an offset and the offset back to the place, moved into the text if it was not in it. Both
scans read the text in the same pieces, so each result is one induction over these. -/

namespace EditorSession.Text

/-! ### Places moved into a text -/

theorem nextLine?_length {text rest : List UInt16} (h : nextLine? text = some rest) :
    rest.length < text.length := by
  induction text using nextLine?.induct with
  | case1 => cases h
  | case2 tail =>
    obtain rfl : tail = rest := Option.some.inj h
    simp only [List.length_cons]
    omega
  | case3 u tail hr hb =>
    rw [nextLine?, if_pos hb, Option.some.injEq] at h
    · subst h
      simp
    · exact hr
  | case4 u tail hr hb ih =>
    rw [nextLine?, if_neg hb] at h
    · exact Nat.lt_succ_of_lt (ih h)
    · exact hr

/-- The place where a text ends. -/
def endPlace (text : List UInt16) : Place :=
  match h : nextLine? text with
  | none => ⟨0, text.length⟩
  | some rest => ⟨(endPlace rest).line + 1, (endPlace rest).column⟩
termination_by text.length
decreasing_by all_goals exact nextLine?_length h

/-- A place moved into a text: a line past the end becomes the end of the text, a column past the end
of its line the end of the line, and one inside a surrogate pair the start of the pair. -/
def clamp (text : List UInt16) (place : Place) : Place :=
  match fromLine? text place.line with
  | some rest => ⟨place.line, unitColumn rest place.column⟩
  | none => endPlace text

/-- The place is in a text: its line exists, and its column is on the line and parts no surrogate
pair. -/
def Place.Within (text : List UInt16) (place : Place) : Prop :=
  ∃ rest, fromLine? text place.line = some rest ∧ place.column ≤ lineLength rest ∧
    splitsPair rest place.column = false

theorem endPlace_last {text : List UInt16} (h : nextLine? text = none) :
    endPlace text = ⟨0, text.length⟩ := by
  rw [endPlace]
  split
  case h_1 => rfl
  case h_2 hs =>
    rw [h] at hs
    cases hs

theorem endPlace_next {text rest : List UInt16} (h : nextLine? text = some rest) :
    endPlace text = (endPlace rest).after ⟨1, 0⟩ := by
  rw [endPlace, Place.after_nextLine]
  split
  case h_1 hs =>
    rw [h] at hs
    cases hs
  case h_2 hs =>
    rw [h, Option.some.injEq] at hs
    rw [hs]

theorem endPlace_append {units : List UInt16} (hu : ∀ u ∈ units, isUnitBreak u = false)
    (rest : List UInt16) : endPlace (units ++ rest) = (endPlace rest).after ⟨0, units.length⟩ := by
  have hn := nextLine?_append hu rest
  cases h : nextLine? rest with
  | none =>
    rw [endPlace_last (hn.trans h), endPlace_last h, List.length_append]
    rfl
  | some next =>
    rw [endPlace_next (hn.trans h), endPlace_next h, Place.after_nextLine]
    simp [Place.after]

theorem clamp_next {text rest : List UInt16} (h : nextLine? text = some rest)
    (lines column : Nat) : clamp text ⟨lines + 1, column⟩ = (clamp rest ⟨lines, column⟩).after ⟨1, 0⟩ := by
  have hf : fromLine? text (lines + 1) = fromLine? rest lines := by rw [fromLine?, h, Option.bind_some]
  rw [clamp, clamp]
  simp only [hf]
  cases fromLine? rest lines with
  | none => exact endPlace_next h
  | some start => rw [Place.after_nextLine]

theorem clamp_append {units : List UInt16} (hu : ∀ u ∈ units, isUnitBreak u = false)
    (rest : List UInt16) (lines column : Nat) :
    clamp (units ++ rest) ⟨lines + 1, column⟩ =
      (clamp rest ⟨lines + 1, column⟩).after ⟨0, units.length⟩ := by
  have hf : fromLine? (units ++ rest) (lines + 1) = fromLine? rest (lines + 1) := by
    rw [fromLine?, nextLine?_append hu, fromLine?]
  rw [clamp, clamp]
  simp only [hf]
  cases fromLine? rest (lines + 1) with
  | none => exact endPlace_append hu rest
  | some start => simp [Place.after]

/-- A place that is in the text already stays where it is. -/
theorem Place.Within.clamp_eq {text : List UInt16} {place : Place} (h : place.Within text) :
    clamp text place = place := by
  obtain ⟨rest, hf, hc, hs⟩ := h
  rw [clamp, hf]
  simp only [unitColumn, Nat.min_eq_left hc, hs]
  rfl

/-! ### Places beyond a piece -/

namespace Piece

variable {front rest : List Char} {here : Place}

/-- A place moved into the text beyond a piece. -/
theorem clamp_after (h : Piece rest front here) (place : Place) :
    clamp (utf16 (front ++ rest)) (place.after here) = (clamp (utf16 rest) place).after here := by
  have hend (hl : nextLine? (utf16 (front ++ rest)) = some (utf16 rest)) :
      clamp (utf16 (front ++ rest)) (place.after ⟨1, 0⟩) =
        (clamp (utf16 rest) place).after ⟨1, 0⟩ := by
    rw [Place.after_nextLine]
    exact clamp_next hl place.line place.column
  cases h with
  | feed => exact hend rfl
  | both => exact hend rfl
  | carriage h => exact hend (nextLine?_return h)
  | char c hn hr =>
    have hc : utf16 [c] = codeUnits c := List.append_nil _
    rw [utf16_append, hc]
    obtain ⟨line, column⟩ := place
    cases line with
    | succ line =>
      simpa [Place.after] using
        clamp_append (not_isUnitBreak_codeUnits hn hr) (utf16 rest) line column
    | zero =>
      have hu := codeUnits_length_pos c
      have hw : ¬(codeUnits c).length + column < (codeUnits c).length := by omega
      simp [Place.after, clamp, fromLine?,
        unitColumn_codeUnits hn hr (utf16 rest) (Nat.ne_of_gt (Nat.add_pos_left hu column)), hw]

/-- A place that is not beyond a piece is read as the start of the text. -/
theorem eq_after_or_start (h : Piece rest front here) (place : Place) :
    (∃ q : Place, place = q.after here) ∨
      offsetOf (utf8 (front ++ rest)) place = 0 ∧ clamp (utf16 (front ++ rest)) place = {} := by
  obtain ⟨line, column⟩ := place
  have hend {b : UInt8} {bytes : Bytes} {u : UInt16} {units : List UInt16} (hb : isBreak b = true)
      (hu : isUnitBreak u = true) : (∃ q : Place, ⟨line, column⟩ = q.after ⟨1, 0⟩) ∨
        offsetOf (b :: bytes) ⟨line, column⟩ = 0 ∧ clamp (u :: units) ⟨line, column⟩ = {} := by
    cases line with
    | succ line => exact .inl ⟨⟨line, column⟩, (Place.after_nextLine ⟨line, column⟩).symm⟩
    | zero =>
      refine .inr ⟨(offsetOf_zero _ _).trans (columnOffset_break hb bytes column 0), ?_⟩
      simp [clamp, fromLine?, unitColumn_break hu]
  cases h with
  | feed => exact hend rfl rfl
  | both => exact hend rfl rfl
  | carriage h => exact hend rfl rfl
  | char c hn hr =>
    cases line with
    | succ line => exact .inl ⟨⟨line + 1, column⟩, by simp [Place.after]⟩
    | zero =>
      by_cases hw : (codeUnits c).length ≤ column
      · refine .inl ⟨⟨0, column - (codeUnits c).length⟩, ?_⟩
        simp [Place.after, Nat.add_sub_cancel' hw]
      · rw [List.singleton_append, utf8_cons, utf16_cons, offsetOf_zero]
        have hw : column < (codeUnits c).length := Nat.lt_of_not_le hw
        by_cases hc : column = 0
        · subst hc
          exact .inr ⟨columnOffset_zero _ 0, by simp [clamp, fromLine?, unitColumn_zero]⟩
        · refine .inr ⟨by rw [columnOffset_utf8EncodeChar hn hr _ hc, if_pos hw], ?_⟩
          simp [clamp, fromLine?, unitColumn_codeUnits hn hr _ hc, hw]

end Piece

/-! ### From places to offsets and back -/

theorem placeFrom_offsetOf (text : List Char) (place : Place) :
    placeFrom (utf8 text) (offsetOf (utf8 text) place) {} = clamp (utf16 text) place := by
  induction text using pieceInduction generalizing place with
  | nil =>
    have ho : offsetOf (utf8 []) place = 0 := Nat.le_zero.mp (offsetOf_le _ _)
    have hc : clamp (utf16 []) place = {} := by
      obtain ⟨line, column⟩ := place
      cases line with
      | zero => simp [clamp, fromLine?, unitColumn, lineLength, splitsPair]
      | succ line => exact endPlace_last rfl
    rw [ho, hc, placeFrom_zero]
  | piece front here rest h ih =>
    rcases h.eq_after_or_start place with ⟨q, rfl⟩ | ⟨ho, hc⟩
    · rw [h.offsetOf_after, h.placeFrom_add, h.clamp_after, ih]
    · rw [ho, hc, placeFrom_zero]

theorem placeAt_offsetOf (text : List Char) (place : Place) :
    placeAt (utf8 text) (offsetOf (utf8 text) place) = clamp (utf16 text) place := by
  rw [placeAt, Nat.min_eq_left (offsetOf_le _ _), placeFrom_offsetOf]

/-! ### From offsets to places and back -/

/-- The offset lies before the first character of a text, between two or behind the last. -/
def IsBoundary (text : List Char) (offset : Nat) : Prop :=
  ∃ before after, text = before ++ after ∧ offset = (utf8 before).length

/-- The offset lies between a carriage return and the line feed that follows it. -/
def PartsBreak (text : List Char) (offset : Nat) : Prop :=
  ∃ before after, text = before ++ '\r' :: '\n' :: after ∧ offset = (utf8 before).length + 1

/-- Only a piece that ends a line has two characters. -/
theorem Piece.eq_both {rest tail : List Char} {a b : Char} {here : Place}
    (h : Piece rest (a :: b :: tail) here) : a = '\r' ∧ b = '\n' ∧ tail = [] := by
  cases h with
  | both => exact ⟨rfl, rfl, rfl⟩

theorem Piece.boundary_cases {front rest : List Char} {here : Place} (h : Piece rest front here)
    {offset : Nat} (hb : IsBoundary (front ++ rest) offset) :
    offset = 0 ∨ PartsBreak (front ++ rest) offset ∨
      ∃ n, IsBoundary rest n ∧ offset = n + (utf8 front).length := by
  obtain ⟨before, after, ht, rfl⟩ := hb
  rcases List.append_eq_append_iff.mp ht with ⟨x, rfl, rfl⟩ | ⟨x, rfl, rfl⟩
  · refine .inr (.inr ⟨(utf8 x).length, ⟨x, after, rfl, rfl⟩, ?_⟩)
    rw [utf8_append, List.length_append, Nat.add_comm]
  · cases before with
    | nil => exact .inl rfl
    | cons a before =>
      cases x with
      | nil => exact .inr (.inr ⟨0, ⟨[], rest, rfl, rfl⟩, by simp⟩)
      | cons b x =>
        cases before with
        | nil =>
          obtain ⟨rfl, rfl, rfl⟩ := h.eq_both
          exact .inr (.inl ⟨[], rest, rfl, rfl⟩)
        | cons c before => simpa using h.eq_both.2.2

theorem PartsBreak.prepend {rest : List Char} {n : Nat} (h : PartsBreak rest n)
    (front : List Char) : PartsBreak (front ++ rest) (n + (utf8 front).length) := by
  obtain ⟨before, after, rfl, rfl⟩ := h
  refine ⟨front ++ before, after, by rw [List.append_assoc], ?_⟩
  rw [utf8_append, List.length_append]
  omega

theorem PartsBreak.lt {text : List Char} {offset : Nat} (h : PartsBreak text offset) :
    offset < (utf8 text).length := by
  obtain ⟨before, after, rfl, rfl⟩ := h
  rw [utf8_append, List.length_append]
  exact Nat.add_lt_add_left (Nat.succ_lt_succ (Nat.succ_pos _)) _

/-- A break that is parted is a piece, or lies beyond the first piece. -/
theorem Piece.partsBreak_cases {front rest : List Char} {here : Place} (h : Piece rest front here)
    {offset : Nat} (hp : PartsBreak (front ++ rest) offset) :
    offset = 1 ∧ front = ['\r', '\n'] ∨ ∃ n, PartsBreak rest n ∧ offset = n + (utf8 front).length := by
  obtain ⟨before, after, ht, rfl⟩ := hp
  rcases List.append_eq_append_iff.mp ht with ⟨x, rfl, rfl⟩ | ⟨x, rfl, hx⟩
  · refine .inr ⟨(utf8 x).length + 1, ⟨x, after, rfl, rfl⟩, ?_⟩
    rw [utf8_append, List.length_append]
    omega
  · cases x with
    | nil => exact .inr ⟨1, ⟨[], after, hx.symm, rfl⟩, by simp [Nat.add_comm]⟩
    | cons c x =>
      obtain ⟨rfl, hrest⟩ := List.cons.inj hx
      cases before with
      | nil =>
        cases h with
        | both => exact .inl ⟨rfl, rfl⟩
        | carriage h => exact absurd hrest.symm (h after)
        | char _ _ hr => exact absurd rfl hr
      | cons a before =>
        cases before with
        | nil => exact absurd h.eq_both.2.1 (by decide)
        | cons b before => simpa using h.eq_both.2.2

theorem offsetOf_placeFrom {text : List Char} {offset : Nat} (hb : IsBoundary text offset)
    (hp : ¬PartsBreak text offset) :
    offsetOf (utf8 text) (placeFrom (utf8 text) offset {}) = offset := by
  induction text using pieceInduction generalizing offset with
  | nil =>
    obtain ⟨before, after, ht, rfl⟩ := hb
    obtain ⟨rfl, -⟩ := List.append_eq_nil_iff.mp ht.symm
    exact Nat.le_zero.mp (offsetOf_le _ _)
  | piece front here rest h ih =>
    rcases h.boundary_cases hb with rfl | hp' | ⟨n, hn, rfl⟩
    · rw [placeFrom_zero]
      exact (offsetOf_zero _ _).trans (columnOffset_zero _ 0)
    · exact absurd hp' hp
    · rw [h.placeFrom_add, h.offsetOf_after, ih hn fun hn => hp (hn.prepend front)]

/-- An offset that parts a break is read as the end of the line. -/
theorem PartsBreak.offsetOf_placeFrom {text : List Char} {offset : Nat}
    (hp : PartsBreak text offset) :
    offsetOf (utf8 text) (placeFrom (utf8 text) offset {}) + 1 = offset := by
  induction text using pieceInduction generalizing offset with
  | nil =>
    obtain ⟨before, after, ht, -⟩ := hp
    simp at ht
  | piece front here rest h ih =>
    rcases h.partsBreak_cases hp with ⟨rfl, rfl⟩ | ⟨n, hn, rfl⟩
    · rw [show utf8 (['\r', '\n'] ++ rest) = 13 :: 10 :: utf8 rest from rfl, placeFrom_parted,
        offsetOf_zero, columnOffset_zero]
    · rw [h.placeFrom_add, h.offsetOf_after, Nat.add_right_comm, ih hn]

/-! ### Both ways -/

/-- What offsets and places of a text promise of each other. -/
structure Invertible (text : List Char) : Prop where
  clamps : ∀ p : Lsp.Position,
    placeAt (utf8 text) (offsetAt (utf8 text) p) = clamp (utf16 text) (.ofPosition p)
  keeps : ∀ place : Place, place.Within (utf16 text) →
    placeAt (utf8 text) (offsetOf (utf8 text) place) = place
  restores : ∀ offset, IsBoundary text offset ∨ (utf8 text).length ≤ offset →
    ¬PartsBreak text offset →
    offsetOf (utf8 text) (placeAt (utf8 text) offset) = min offset (utf8 text).length
  parted : ∀ before after, text = before ++ '\r' :: '\n' :: after →
    offsetOf (utf8 text) (placeAt (utf8 text) ((utf8 before).length + 1)) = (utf8 before).length

end EditorSession.Text
