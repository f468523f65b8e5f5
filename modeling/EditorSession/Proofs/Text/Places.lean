import EditorSession.Proofs.Text.CodeUnits

/-! Bytes and code units agree on places. Going through a text character by character, both forms
find a line at the same character or not at all, and reach a column of it at the same character. -/

namespace EditorSession.Text

/-! ### Bytes that end a line -/

theorem not_isBreak_utf8 {c : Char} (hn : c ≠ '\n') (hr : c ≠ '\r') :
    ∀ b ∈ String.utf8EncodeChar c, isBreak b = false := by
  obtain ⟨lead, tail, h⟩ := exists_encoded c
  have hlead : isBreak lead = false := by
    simp only [isBreak, Bool.or_eq_false_iff, beq_eq_false_iff_ne, ne_eq, h.feed, h.carriage]
    exact ⟨hn, hr⟩
  rw [h.bytes]
  exact List.forall_mem_cons.mpr ⟨hlead, h.rest⟩

theorem head?_utf8_eq_feed_iff (text : List Char) :
    (utf8 text).head? = some 10 ↔ ∃ rest, text = '\n' :: rest := by
  cases text with
  | nil => simp
  | cons c rest =>
    obtain ⟨lead, tail, h⟩ := exists_encoded c
    simp [h.bytes, h.feed]

/-- Bytes that end no line are stepped over. -/
theorem lineStart?_append {bytes : Bytes} (hb : ∀ b ∈ bytes, isBreak b = false) (rest : Bytes)
    (lines offset : Nat) :
    lineStart? (bytes ++ rest) (lines + 1) offset =
      lineStart? rest (lines + 1) (offset + bytes.length) := by
  induction bytes generalizing offset with
  | nil => rfl
  | cons b bytes ih =>
    obtain ⟨h, hb⟩ := List.forall_mem_cons.mp hb
    simp only [isBreak, Bool.or_eq_false_iff] at h
    have he : endsLine b (bytes ++ rest) = false := by simp [endsLine, h]
    rw [List.cons_append, lineStart?, he, if_neg Bool.false_ne_true, ih hb, List.length_cons,
      Nat.add_assoc, Nat.add_comm 1]

/-! ### Code units that end a line -/

theorem nextLine?_cons {u : UInt16} {rest : List UInt16} (h : isUnitBreak u = false) :
    nextLine? (u :: rest) = nextLine? rest := by
  have hr : u ≠ 13 := by
    rintro rfl
    cases h
  rw [nextLine?]
  · rw [h, if_neg Bool.false_ne_true]
  · exact fun _ he _ => hr he

theorem isUnitBreak_of_high {u : UInt16} (h : isHigh u = true) : isUnitBreak u = false := by
  simp only [isHigh, Bool.and_eq_true, decide_eq_true_eq] at h
  simp only [isUnitBreak, Bool.or_eq_false_iff, beq_eq_false_iff_ne]
  constructor <;> rintro rfl <;> simp at h

theorem isUnitBreak_of_low {u : UInt16} (h : isLow u = true) : isUnitBreak u = false := by
  simp only [isLow, Bool.and_eq_true, decide_eq_true_eq] at h
  simp only [isUnitBreak, Bool.or_eq_false_iff, beq_eq_false_iff_ne]
  constructor <;> rintro rfl <;> simp at h

theorem not_isUnitBreak_codeUnits {c : Char} (hn : c ≠ '\n') (hr : c ≠ '\r') :
    ∀ u ∈ codeUnits c, isUnitBreak u = false := by
  cases units_cases c with
  | single u hu _ _ hf hc =>
    have hb : isUnitBreak u = false := by
      simp only [isUnitBreak, Bool.or_eq_false_iff, beq_eq_false_iff_ne, ne_eq, hf, hc]
      exact ⟨hn, hr⟩
    simp [hu, hb]
  | pair h l hu hh hl => simp [hu, isUnitBreak_of_high hh, isUnitBreak_of_low hl]

theorem nextLine?_append {units : List UInt16} (hu : ∀ u ∈ units, isUnitBreak u = false)
    (rest : List UInt16) : nextLine? (units ++ rest) = nextLine? rest := by
  induction units with
  | nil => rfl
  | cons u units ih =>
    obtain ⟨h, hu⟩ := List.forall_mem_cons.mp hu
    rw [List.cons_append, nextLine?_cons h, ih hu]

/-- After a lone carriage return the next line starts. -/
theorem nextLine?_return {text : List Char} (h : ∀ rest, text ≠ '\n' :: rest) :
    nextLine? (13 :: utf16 text) = some (utf16 text) := by
  have hne : ∀ rest, utf16 text ≠ 10 :: rest := by
    intro rest he
    cases text with
    | nil => cases he
    | cons c tail =>
      rw [utf16_cons] at he
      cases units_cases c with
      | single u hu _ _ hf _ =>
        rw [hu] at he
        obtain rfl : u = 10 := List.head_eq_of_cons_eq he
        exact h tail (by rw [hf.mp rfl])
      | pair a b hu ha _ =>
        rw [hu] at he
        obtain rfl : a = 10 := List.head_eq_of_cons_eq he
        cases ha
  rw [nextLine?]
  · rfl
  · exact fun rest _ he => hne rest he

/-! ### Lines -/

/-- Both forms of a text have the line that starts at the same character, or neither has it. -/
inductive LineAgrees (text : List Char) (offset : Nat) :
    Option Nat → Option (List UInt16) → Prop where
  | absent : LineAgrees text offset none none
  | found (before after : List Char) (h : text = before ++ after) :
      LineAgrees text offset (some (offset + (utf8 before).length)) (some (utf16 after))

theorem LineAgrees.prepend {text : List Char} {offset : Nat} {start? : Option Nat}
    {rest? : Option (List UInt16)} (front : List Char)
    (h : LineAgrees text (offset + (utf8 front).length) start? rest?) :
    LineAgrees (front ++ text) offset start? rest? := by
  cases h with
  | absent => exact .absent
  | found before after h =>
    have hs := @LineAgrees.found (front ++ text) offset (front ++ before) after
      (by rw [h, List.append_assoc])
    rwa [utf8_append, List.length_append, ← Nat.add_assoc] at hs

theorem lineAgrees : ∀ (text : List Char) (lines offset : Nat),
    LineAgrees text offset (lineStart? (utf8 text) lines offset) (fromLine? (utf16 text) lines)
  | text, 0, offset => by
    rw [lineStart?, fromLine?]
    exact .found [] text rfl
  | [], lines + 1, offset => .absent
  | c :: text, lines + 1, offset => by
    by_cases hn : c = '\n'
    · subst hn
      exact (lineAgrees text lines (offset + 1)).prepend ['\n']
    · by_cases hr : c = '\r'
      · subst hr
        have hb : utf8 ('\r' :: text) = 13 :: utf8 text := rfl
        by_cases hf : ∃ rest, text = '\n' :: rest
        · -- both characters end one line
          obtain ⟨rest, rfl⟩ := hf
          exact (lineAgrees rest lines (offset + 2)).prepend ['\r', '\n']
        · have he : endsLine 13 (utf8 text) = true := by
            simpa [endsLine, head?_utf8_eq_feed_iff] using hf
          have hu : utf16 ('\r' :: text) = 13 :: utf16 text := rfl
          rw [hb, lineStart?, if_pos he, hu, fromLine?, nextLine?_return (by simpa using hf)]
          exact (lineAgrees text lines (offset + 1)).prepend ['\r']
      · have hc : utf8 [c] = String.utf8EncodeChar c := List.append_nil _
        have hu : fromLine? (utf16 (c :: text)) (lines + 1) = fromLine? (utf16 text) (lines + 1) := by
          rw [utf16_cons, fromLine?, fromLine?, nextLine?_append (not_isUnitBreak_codeUnits hn hr)]
        rw [utf8_cons, lineStart?_append (not_isBreak_utf8 hn hr), hu, ← hc]
        exact (lineAgrees text (lines + 1) _).prepend [c]

/-! ### Columns -/

theorem sequence_append {c : Char} {lead : UInt8} {tail : Bytes} (h : Encoded c lead tail)
    (rest : Bytes) : sequence lead (tail ++ rest) = lead :: tail := by
  rw [sequence, h.announced, ← List.length_cons, ← List.cons_append, List.take_left]

/-- At a break a column is the end of the line. -/
theorem columnOffset_break {b : UInt8} (hb : isBreak b = true) (rest : Bytes) (column offset : Nat) :
    columnOffset (b :: rest) column offset = offset := by
  rw [columnOffset, if_pos (.inr hb)]

theorem columnOffset_zero (text : Bytes) (offset : Nat) : columnOffset text 0 offset = offset := by
  cases text with
  | nil => rw [columnOffset]
  | cons b rest => rw [columnOffset, if_pos (.inl rfl)]

/-- A character before the column is stepped over, unless the column lies inside it. -/
theorem columnOffset_utf8EncodeChar {c : Char} (hn : c ≠ '\n') (hr : c ≠ '\r') (rest : Bytes)
    {column : Nat} (hc : column ≠ 0) (offset : Nat) :
    columnOffset (String.utf8EncodeChar c ++ rest) column offset =
      if column < (codeUnits c).length then offset
      else columnOffset rest (column - (codeUnits c).length)
        (offset + (String.utf8EncodeChar c).length) := by
  obtain ⟨lead, tail, h⟩ := exists_encoded c
  have hb : isBreak lead = false := not_isBreak_utf8 hn hr lead (by simp [h.bytes])
  have hl : units (sequence lead (tail ++ rest)).length = (codeUnits c).length := by
    rw [sequence_append h, h.width, List.length_cons]
  rw [h.bytes, List.cons_append, columnOffset, if_neg (by simp [hc, hb])]
  simp only [hl]
  rw [sequence_append h, ← List.cons_append, List.drop_left]

theorem lineLength_append {units : List UInt16} (hu : ∀ u ∈ units, isUnitBreak u = false)
    (rest : List UInt16) : lineLength (units ++ rest) = units.length + lineLength rest := by
  have hp : ∀ u ∈ units, (!isUnitBreak u) = true := by simpa using hu
  rw [lineLength, List.takeWhile_append_of_pos hp, List.length_append, lineLength]

theorem isHigh_of_low {u : UInt16} (h : isLow u = true) : isHigh u = false := by
  simp only [isLow, Bool.and_eq_true, decide_eq_true_eq] at h
  simp only [isHigh, Bool.and_eq_false_iff, decide_eq_false_iff_not]
  omega

/-- No surrogate pair begins in one character and ends in the next. -/
theorem splitsPair_append (c : Char) (rest : List UInt16) (offset : Nat) :
    splitsPair (codeUnits c ++ rest) ((codeUnits c).length + offset) = splitsPair rest offset := by
  have hlast : ∀ u, (codeUnits c)[(codeUnits c).length - 1]? = some u → isHigh u = false := by
    cases units_cases c with
    | single u hu hh _ _ _ => simp [hu, hh]
    | pair h l hu _ hl => simp [hu, isHigh_of_low hl]
  have hpos : 0 < (codeUnits c).length := by rw [length_codeUnits]; split <;> omega
  cases offset with
  | zero =>
    have hh : (codeUnits c ++ rest)[(codeUnits c).length - 1]?.any isHigh = false := by
      rw [List.getElem?_append_left (by omega)]
      cases hu : (codeUnits c)[(codeUnits c).length - 1]? with
      | none => rfl
      | some u => exact hlast u hu
    simp [splitsPair, hh]
  | succ offset =>
    have hi : (codeUnits c).length + (offset + 1) - 1 = (codeUnits c).length + offset := by omega
    have hp : 0 < (codeUnits c).length + (offset + 1) := by omega
    simp [splitsPair, hi, hp, List.getElem?_append_right]

theorem unitColumn_zero (text : List UInt16) : unitColumn text 0 = 0 := by
  simp [unitColumn, splitsPair]

theorem unitColumn_break {u : UInt16} (hu : isUnitBreak u = true) (rest : List UInt16)
    (column : Nat) : unitColumn (u :: rest) column = 0 := by
  have hl : lineLength (u :: rest) = 0 := by simp [lineLength, hu]
  simp [unitColumn, hl, splitsPair]

theorem unitColumn_codeUnits {c : Char} (hn : c ≠ '\n') (hr : c ≠ '\r') (rest : List UInt16)
    {column : Nat} (hc : column ≠ 0) :
    unitColumn (codeUnits c ++ rest) column =
      if column < (codeUnits c).length then 0
      else (codeUnits c).length + unitColumn rest (column - (codeUnits c).length) := by
  have hl := lineLength_append (not_isUnitBreak_codeUnits hn hr) rest
  by_cases hw : column < (codeUnits c).length
  · -- the column lies between the halves of a surrogate pair
    cases units_cases c with
    | single u hu _ _ _ _ =>
      rw [hu, List.length_singleton] at hw
      omega
    | pair a b hu ha hb =>
      rw [hu, List.length_cons, List.length_singleton] at hw
      obtain rfl : column = 1 := by omega
      have hm : min 1 (lineLength (codeUnits c ++ rest)) = 1 := by
        rw [hl, hu, List.length_cons]
        omega
      have hs : splitsPair (codeUnits c ++ rest) 1 = true := by simp [splitsPair, hu, ha, hb]
      rw [unitColumn, hm, if_pos hs, if_pos (by simp [hu])]
  · have hm : min column (lineLength (codeUnits c ++ rest)) =
        (codeUnits c).length + min (column - (codeUnits c).length) (lineLength rest) := by
      rw [hl]
      omega
    rw [if_neg hw, unitColumn, hm, splitsPair_append, unitColumn]
    by_cases hs : splitsPair rest (min (column - (codeUnits c).length) (lineLength rest)) = true
    · have hp : 0 < min (column - (codeUnits c).length) (lineLength rest) := by
        simp only [splitsPair, Bool.and_eq_true, decide_eq_true_eq] at hs
        exact hs.1.1
      rw [if_pos hs, if_pos hs]
      omega
    · rw [if_neg hs, if_neg hs]

/-- Both forms reach a column at the same character. -/
inductive ColumnAgrees (text : List Char) (offset : Nat) : Nat → Nat → Prop where
  | found (before after : List Char) (h : text = before ++ after) :
      ColumnAgrees text offset (offset + (utf8 before).length) (utf16 before).length

theorem ColumnAgrees.here (text : List Char) (offset : Nat) : ColumnAgrees text offset offset 0 :=
  .found [] text rfl

theorem ColumnAgrees.cons {text : List Char} {offset i j : Nat} (c : Char)
    (h : ColumnAgrees text (offset + (String.utf8EncodeChar c).length) i j) :
    ColumnAgrees (c :: text) offset i ((codeUnits c).length + j) := by
  obtain ⟨before, after, h⟩ := h
  have hs := @ColumnAgrees.found (c :: text) offset (c :: before) after (by rw [h, List.cons_append])
  rwa [utf8_cons, utf16_cons, List.length_append, List.length_append, ← Nat.add_assoc] at hs

theorem columnAgrees (text : List Char) (column offset : Nat) :
    ColumnAgrees text offset (columnOffset (utf8 text) column offset)
      (unitColumn (utf16 text) column) := by
  induction text generalizing column offset with
  | nil =>
    have hu : unitColumn (utf16 []) column = 0 := by simp [unitColumn, lineLength, splitsPair]
    rw [hu, utf8_nil, columnOffset]
    exact .here [] offset
  | cons c text ih =>
    by_cases hn : c = '\n'
    · subst hn
      rw [show utf8 ('\n' :: text) = 10 :: utf8 text from rfl, columnOffset_break rfl,
        show utf16 ('\n' :: text) = 10 :: utf16 text from rfl, unitColumn_break rfl]
      exact .here _ offset
    · by_cases hr : c = '\r'
      · subst hr
        rw [show utf8 ('\r' :: text) = 13 :: utf8 text from rfl, columnOffset_break rfl,
          show utf16 ('\r' :: text) = 13 :: utf16 text from rfl, unitColumn_break rfl]
        exact .here _ offset
      · by_cases hc : column = 0
        · subst hc
          rw [columnOffset_zero, unitColumn_zero]
          exact .here _ offset
        · rw [utf8_cons, columnOffset_utf8EncodeChar hn hr _ hc, utf16_cons,
            unitColumn_codeUnits hn hr _ hc]
          by_cases hw : column < (codeUnits c).length
          · rw [if_pos hw, if_pos hw]
            exact .here _ offset
          · rw [if_neg hw, if_neg hw]
            exact (ih _ _).cons c

/-! ### Offsets -/

/-- The offsets stand before the same character of a text. -/
def Aligned (text : List Char) (bytes units : Nat) : Prop :=
  ∃ i, bytes = (utf8 (text.take i)).length ∧ units = (utf16 (text.take i)).length

theorem aligned_offsetOf (text : List Char) (place : Place) :
    Aligned text (offsetOf (utf8 text) place) (unitOffset (utf16 text) place) := by
  have h := lineAgrees text place.line 0
  rw [offsetOf, unitOffset]
  generalize lineStart? (utf8 text) place.line 0 = start? at h
  generalize fromLine? (utf16 text) place.line = rest? at h
  cases h with
  | absent => exact ⟨text.length, by rw [List.take_length], by rw [List.take_length]⟩
  | found before after h =>
    subst h
    simp only [Nat.zero_add, utf8_append, List.drop_left, utf16_append, List.length_append,
      Nat.add_sub_cancel]
    have hc := columnAgrees after place.column (utf8 before).length
    generalize columnOffset (utf8 after) place.column (utf8 before).length = i at hc
    generalize unitColumn (utf16 after) place.column = j at hc
    obtain ⟨front, back, rfl⟩ := hc
    refine ⟨(before ++ front).length, ?_, ?_⟩
    · rw [← List.append_assoc, List.take_left, utf8_append, List.length_append]
    · rw [← List.append_assoc, List.take_left, utf16_append, List.length_append]

end EditorSession.Text
