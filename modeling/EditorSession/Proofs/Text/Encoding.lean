import EditorSession.Text.Place

/-! The two forms of a text. A text is a list of characters; the bytes in which it is kept are its
UTF-8 form, and an editor counts along its UTF-16 form. -/

namespace EditorSession.Text

/-- The UTF-8 form of a text. Well-formed are the byte strings that are the form of some text. -/
def utf8 (text : List Char) : Bytes := text.flatMap String.utf8EncodeChar

/-- The code units of a character: beyond the basic plane they are a surrogate pair. -/
def codeUnits (c : Char) : List UInt16 :=
  if c.toNat < 0x10000 then [UInt16.ofNat c.toNat]
  else
    [UInt16.ofNat (0xD800 + (c.toNat - 0x10000) / 1024),
      UInt16.ofNat (0xDC00 + (c.toNat - 0x10000) % 1024)]

/-- The UTF-16 form of a text. -/
def utf16 (text : List Char) : List UInt16 := text.flatMap codeUnits

@[simp] theorem utf8_nil : utf8 [] = [] := rfl

@[simp] theorem utf8_cons (c : Char) (text : List Char) :
    utf8 (c :: text) = String.utf8EncodeChar c ++ utf8 text := rfl

@[simp] theorem utf8_append (s t : List Char) : utf8 (s ++ t) = utf8 s ++ utf8 t :=
  List.flatMap_append

@[simp] theorem utf16_nil : utf16 [] = [] := rfl

@[simp] theorem utf16_cons (c : Char) (text : List Char) :
    utf16 (c :: text) = codeUnits c ++ utf16 text := rfl

@[simp] theorem utf16_append (s t : List Char) : utf16 (s ++ t) = utf16 s ++ utf16 t :=
  List.flatMap_append

/-- A text is determined by its UTF-8 form. -/
theorem utf8_injective {s t : List Char} (h : utf8 s = utf8 t) : s = t := by
  have hb : (String.ofList s).toByteArray = (String.ofList t).toByteArray := by
    simp only [String.toByteArray_ofList, List.utf8Encode]
    exact congrArg List.toByteArray h
  exact String.ofList_injective (String.toByteArray_inj.mp hb)

/-! ### The bytes of a character -/

theorem sequenceLength_ascii : ∀ v < 128, Utf8.sequenceLength (UInt8.ofNat v) = 1 := by decide

theorem sequenceLength_two : ∀ v < 32, Utf8.sequenceLength (UInt8.ofNat (v + 0xC0)) = 2 := by decide

theorem sequenceLength_three : ∀ v < 16, Utf8.sequenceLength (UInt8.ofNat (v + 0xE0)) = 3 := by
  decide

theorem sequenceLength_four : ∀ v < 8, Utf8.sequenceLength (UInt8.ofNat (v + 0xF0)) = 4 := by decide

theorem isBreak_ofNat : ∀ v < 128, isBreak (UInt8.ofNat (v + 0x80)) = false := by decide

theorem ofNat_eq_feed_iff : ∀ v < 128, UInt8.ofNat v = 10 ↔ v = 10 := by decide

theorem ofNat_eq_return_iff : ∀ v < 128, UInt8.ofNat v = 13 ↔ v = 13 := by decide

/-- The bytes of a character, told by the first of them. -/
structure Encoded (c : Char) (lead : UInt8) (tail : Bytes) : Prop where
  bytes : String.utf8EncodeChar c = lead :: tail
  announced : Utf8.sequenceLength lead = tail.length + 1
  feed : lead = 10 ↔ c = '\n'
  carriage : lead = 13 ↔ c = '\r'
  rest : ∀ b ∈ tail, isBreak b = false
  width : (codeUnits c).length = units (tail.length + 1)

theorem eq_feed_iff (c : Char) : c = '\n' ↔ c.val.toNat = 10 := Char.toNat_inj.symm

theorem eq_return_iff (c : Char) : c = '\r' ↔ c.val.toNat = 13 := Char.toNat_inj.symm

theorem length_codeUnits (c : Char) :
    (codeUnits c).length = if c.val.toNat < 0x10000 then 1 else 2 := by
  rw [codeUnits, Char.toNat]
  split <;> rfl

/-- Beyond ASCII no byte of a character ends a line. -/
theorem Encoded.of_wide {c : Char} {lead : UInt8} {tail : Bytes} (hc : 0x7F < c.val.toNat)
    (hb : String.utf8EncodeChar c = lead :: tail)
    (hs : Utf8.sequenceLength lead = tail.length + 1)
    (hr : ∀ b ∈ lead :: tail, isBreak b = false)
    (hw : (codeUnits c).length = units (tail.length + 1)) : Encoded c lead tail := by
  obtain ⟨hl, hr⟩ := List.forall_mem_cons.mp hr
  simp only [isBreak, Bool.or_eq_false_iff, beq_eq_false_iff_ne, ne_eq] at hl
  refine ⟨hb, hs, ?_, ?_, hr, hw⟩
  · have hn : ¬c = '\n' := by rw [eq_feed_iff]; omega
    simp [hl.1, hn]
  · have hn : ¬c = '\r' := by rw [eq_return_iff]; omega
    simp [hl.2, hn]

theorem exists_encoded (c : Char) : ∃ lead tail, Encoded c lead tail := by
  by_cases h1 : c.val.toNat ≤ 0x7F
  · have hv : c.val.toNat < 128 := by omega
    refine ⟨_, [], by rw [String.utf8EncodeChar, if_pos h1], sequenceLength_ascii _ hv, ?_, ?_, ?_, ?_⟩
    · rw [eq_feed_iff, ofNat_eq_feed_iff _ hv]
    · rw [eq_return_iff, ofNat_eq_return_iff _ hv]
    · simp
    · rw [length_codeUnits, if_pos (by omega)]
      rfl
  · have hc : 0x7F < c.val.toNat := by omega
    have hcont : ∀ v, isBreak (UInt8.ofNat (v % 0x40 + 0x80)) = false :=
      fun v => isBreak_ofNat _ (by omega)
    by_cases h2 : c.val.toNat ≤ 0x7FF
    · refine ⟨_, _, .of_wide hc (by rw [String.utf8EncodeChar, if_neg h1, if_pos h2])
        (sequenceLength_two (c.val.toNat / 64 % 0x20) (Nat.mod_lt _ (by decide))) ?_ ?_⟩
      · have hl : isBreak (UInt8.ofNat (c.val.toNat / 64 % 0x20 + 0xC0)) = false :=
          isBreak_ofNat (c.val.toNat / 64 % 0x20 + 0x40) (by omega)
        simp only [List.forall_mem_cons, hl, hcont, List.not_mem_nil, false_imp_iff, implies_true,
          and_self]
      · rw [length_codeUnits, if_pos (by omega)]
        rfl
    · by_cases h3 : c.val.toNat ≤ 0xFFFF
      · refine ⟨_, _, .of_wide hc (by rw [String.utf8EncodeChar, if_neg h1, if_neg h2, if_pos h3])
          (sequenceLength_three (c.val.toNat / 4096 % 0x10) (Nat.mod_lt _ (by decide))) ?_ ?_⟩
        · have hl : isBreak (UInt8.ofNat (c.val.toNat / 4096 % 0x10 + 0xE0)) = false :=
            isBreak_ofNat (c.val.toNat / 4096 % 0x10 + 0x60) (by omega)
          simp only [List.forall_mem_cons, hl, hcont, List.not_mem_nil, false_imp_iff, implies_true,
            and_self]
        · rw [length_codeUnits, if_pos (by omega)]
          rfl
      · refine ⟨_, _, .of_wide hc (by rw [String.utf8EncodeChar, if_neg h1, if_neg h2, if_neg h3])
          (sequenceLength_four (c.val.toNat / 262144 % 0x08) (Nat.mod_lt _ (by decide))) ?_ ?_⟩
        · have hl : isBreak (UInt8.ofNat (c.val.toNat / 262144 % 0x08 + 0xF0)) = false :=
            isBreak_ofNat (c.val.toNat / 262144 % 0x08 + 0x70) (by omega)
          simp only [List.forall_mem_cons, hl, hcont, List.not_mem_nil, false_imp_iff, implies_true,
            and_self]
        · rw [length_codeUnits, if_neg (by omega)]
          rfl

end EditorSession.Text
