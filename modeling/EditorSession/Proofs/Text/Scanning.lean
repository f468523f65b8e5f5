import EditorSession.Text.Place

/-! How a byte text is scanned. The offset of a place is found one byte after another as long as
lines are skipped, and both an offset and a place that were reached further on can be counted from
where the scan began. All of this holds of any bytes, well formed or not. -/

namespace EditorSession.Text

/-! ### Offsets -/

theorem lineStart?_add (text : Bytes) (lines offset n : Nat) :
    lineStart? text lines (offset + n) = (lineStart? text lines offset).map (· + n) := by
  induction text generalizing lines offset with
  | nil => cases lines <;> rfl
  | cons b rest ih =>
    cases lines with
    | zero => rfl
    | succ lines =>
      have hn : offset + n + 1 = offset + 1 + n := by omega
      rw [lineStart?, lineStart?, hn, ih, ih]
      split <;> rfl

theorem columnOffset_add (text : Bytes) (columns offset n : Nat) :
    columnOffset text columns (offset + n) = columnOffset text columns offset + n := by
  induction text, columns, offset using columnOffset.induct with
  | case1 columns offset => rw [columnOffset, columnOffset]
  | case2 columns offset b rest h => rw [columnOffset, if_pos h, columnOffset, if_pos h]
  | case3 columns offset b rest h length hl =>
    rw [columnOffset, if_neg h, columnOffset, if_neg h]
    simp only [if_pos hl, length]
  | case4 columns offset b rest h length hl ih =>
    have hn : offset + n + length = offset + length + n := by omega
    rw [columnOffset, if_neg h, columnOffset, if_neg h]
    simp only [if_neg hl, length] at ih hn ⊢
    rw [hn, ih]

theorem columnOffset_eq_add (text : Bytes) (columns offset : Nat) :
    columnOffset text columns offset = columnOffset text columns 0 + offset := by
  rw [← columnOffset_add, Nat.zero_add]

theorem offsetOf_zero (text : Bytes) (column : Nat) :
    offsetOf text ⟨0, column⟩ = columnOffset text column 0 := by
  cases text <;> rfl

/-- While lines are skipped, one byte is read after another. -/
theorem offsetOf_cons (b : UInt8) (rest : Bytes) (lines column : Nat) :
    offsetOf (b :: rest) ⟨lines + 1, column⟩ =
      offsetOf rest ⟨if endsLine b rest then lines else lines + 1, column⟩ + 1 := by
  have hs : lineStart? (b :: rest) (lines + 1) 0 =
      (lineStart? rest (if endsLine b rest then lines else lines + 1) 0).map (· + 1) := by
    rw [lineStart?, ← lineStart?_add]
    split <;> rfl
  rw [offsetOf, offsetOf, hs]
  cases lineStart? rest (if endsLine b rest then lines else lines + 1) 0 with
  | none => rfl
  | some start => exact columnOffset_add _ _ _ _

/-- Bytes that end no line are skipped with their line. -/
theorem offsetOf_append {bytes : Bytes} (hb : ∀ b ∈ bytes, isBreak b = false) (rest : Bytes)
    (lines column : Nat) :
    offsetOf (bytes ++ rest) ⟨lines + 1, column⟩ =
      offsetOf rest ⟨lines + 1, column⟩ + bytes.length := by
  induction bytes with
  | nil => rfl
  | cons b bytes ih =>
    obtain ⟨h, hb⟩ := List.forall_mem_cons.mp hb
    simp only [isBreak, Bool.or_eq_false_iff] at h
    have he : endsLine b (bytes ++ rest) = false := by simp [endsLine, h]
    rw [List.cons_append, offsetOf_cons, he, if_neg Bool.false_ne_true, ih hb, List.length_cons,
      Nat.add_assoc]

theorem columnOffset_le (text : Bytes) (columns offset : Nat) :
    columnOffset text columns offset ≤ text.length + offset := by
  induction text, columns, offset using columnOffset.induct with
  | case1 columns offset =>
    rw [columnOffset]
    exact Nat.le_add_left _ _
  | case2 columns offset b rest h =>
    rw [columnOffset, if_pos h]
    exact Nat.le_add_left _ _
  | case3 columns offset b rest h length hl =>
    rw [columnOffset, if_neg h]
    simp only [if_pos hl, length]
    exact Nat.le_add_left _ _
  | case4 columns offset b rest h length hl ih =>
    have hlen : length ≤ (b :: rest).length := List.length_take_le' _ _
    rw [List.length_drop] at ih
    rw [columnOffset, if_neg h]
    simp only [if_neg hl, length] at hlen ih ⊢
    omega

theorem offsetOf_le (text : Bytes) (place : Place) : offsetOf text place ≤ text.length := by
  obtain ⟨lines, column⟩ := place
  induction text generalizing lines with
  | nil => cases lines <;> simp [offsetOf, lineStart?, columnOffset]
  | cons b rest ih =>
    cases lines with
    | zero =>
      rw [offsetOf_zero]
      exact columnOffset_le _ _ 0
    | succ lines =>
      rw [offsetOf_cons]
      exact Nat.succ_le_succ (ih _)

/-! ### Places -/

/-- The place `q` counted from a text that starts at `here`. -/
def Place.after (q here : Place) : Place :=
  if q.line = 0 then ⟨here.line, here.column + q.column⟩ else ⟨here.line + q.line, q.column⟩

theorem Place.after_line (q here : Place) : (q.after here).line = here.line + q.line := by
  by_cases h : q.line = 0 <;> simp [after, h]

/-- The start of the next line. -/
theorem Place.nextLine_after (q here : Place) :
    Place.after ⟨q.line + 1, 0⟩ here = ⟨(q.after here).line + 1, 0⟩ := by
  rw [after_line]
  simp [after, Nat.add_assoc]

/-- Some columns further on the same line. -/
theorem Place.further_after (q here : Place) (n : Nat) :
    Place.after ⟨q.line, q.column + n⟩ here =
      ⟨(q.after here).line, (q.after here).column + n⟩ := by
  by_cases h : q.line = 0 <;> simp [after, h, Nat.add_assoc]

theorem Place.after_nextLine (q : Place) : q.after ⟨1, 0⟩ = ⟨q.line + 1, q.column⟩ := by
  obtain ⟨line, column⟩ := q
  by_cases h : line = 0 <;> simp [after, h, Nat.add_comm]

theorem placeFrom_zero (text : Bytes) (here : Place) : placeFrom text 0 here = here := by
  cases text <;> rw [placeFrom]
  exact if_pos rfl

theorem placeFrom_both (rest : Bytes) (n : Nat) (here : Place) :
    placeFrom (13 :: 10 :: rest) (n + 2) here = placeFrom rest n ⟨here.line + 1, 0⟩ := by
  rw [placeFrom, if_neg (by omega), if_pos ⟨rfl, rfl⟩, if_neg (by omega)]
  rfl

theorem placeFrom_parted (rest : Bytes) (here : Place) :
    placeFrom (13 :: 10 :: rest) 1 here = here := by
  rw [placeFrom, if_neg (by omega), if_pos ⟨rfl, rfl⟩, if_pos rfl]

theorem placeFrom_break {b : UInt8} {rest : Bytes} (hb : isBreak b = true)
    (h : ¬(b = 13 ∧ rest.head? = some 10)) (n : Nat) (here : Place) :
    placeFrom (b :: rest) (n + 1) here = placeFrom rest n ⟨here.line + 1, 0⟩ := by
  rw [placeFrom, if_neg (by omega), if_neg h, if_pos hb]
  rfl

/-- What was read before only moves the place. -/
theorem placeFrom_after (text : Bytes) (left : Nat) (here start : Place) :
    placeFrom text left (here.after start) = (placeFrom text left here).after start := by
  induction text, left, here using placeFrom.induct with
  | case1 => rw [placeFrom, placeFrom]
  | case2 => rw [placeFrom_zero, placeFrom_zero]
  | case3 here b rest h hl =>
    rw [placeFrom, if_neg hl, if_pos h, if_pos rfl, placeFrom, if_neg hl, if_pos h, if_pos rfl]
  | case4 left here b rest hl h h1 ih =>
    rw [placeFrom, if_neg hl, if_pos h, if_neg h1, placeFrom, if_neg hl, if_pos h, if_neg h1, ← ih,
      Place.nextLine_after]
  | case5 left here b rest hl h hb ih =>
    rw [placeFrom, if_neg hl, if_neg h, if_pos hb, placeFrom, if_neg hl, if_neg h, if_pos hb, ← ih,
      Place.nextLine_after]
  | case6 left here b rest hl h hb length ih =>
    rw [placeFrom, if_neg hl, if_neg h, if_neg hb, placeFrom, if_neg hl, if_neg h, if_neg hb]
    simp only [length] at ih
    rw [← ih, Place.further_after]

theorem placeFrom_eq_after (text : Bytes) (left : Nat) (here : Place) :
    placeFrom text left here = (placeFrom text left {}).after here :=
  placeFrom_after text left {} here

end EditorSession.Text
