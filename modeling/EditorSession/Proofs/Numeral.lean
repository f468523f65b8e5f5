import EditorSession.Bytes
import Mathlib.Algebra.Group.Nat.Defs

/-! Decimal numerals. Writing a number and reading its digits gives the number back, so different
numbers are written differently. -/

namespace EditorSession.Bytes

theorem toNat_digit {n : Nat} (h : n < 10) : (digit n).toNat = 48 + n := by
  rw [digit, UInt8.toNat_ofNat']
  omega

theorem digitsValueFrom_append (start : Nat) (s t : Bytes) :
    digitsValueFrom start (s ++ t) = digitsValueFrom (digitsValueFrom start s) t := by
  rw [digitsValueFrom, List.foldl_append]
  rfl

theorem digitsValueFrom_digit (start : Nat) {n : Nat} (h : n < 10) :
    digitsValueFrom start [digit n] = 10 * start + n := by
  simp only [digitsValueFrom, List.foldl_cons, List.foldl_nil, toNat_digit h]
  omega

theorem digitsValue_decimal (n : Nat) : digitsValue (decimal n) = n := by
  induction n using Nat.strongRecOn with
  | ind n ih =>
    rw [decimal]
    split
    case isTrue h =>
      simpa [digitsValue] using digitsValueFrom_digit 0 h
    case isFalse h =>
      have hd : n / 10 < n := by omega
      have hq := ih (n / 10) hd
      rw [digitsValue, digitsValueFrom_append, ← digitsValue, hq,
        digitsValueFrom_digit _ (Nat.mod_lt n (by decide))]
      omega

theorem decimal_injective {m n : Nat} (h : decimal m = decimal n) : m = n := by
  rw [← digitsValue_decimal m, h, digitsValue_decimal]

theorem isDigit_digit : ∀ n < 10, isDigit (digit n) = true := by decide

/-- The bytes of a numeral are digits. -/
theorem isDigit_of_mem_decimal {n : Nat} {b : UInt8} (h : b ∈ decimal n) : isDigit b = true := by
  induction n using Nat.strongRecOn with
  | ind n ih =>
    rw [decimal] at h
    split at h
    case isTrue hn =>
      rw [List.mem_singleton.mp h]
      exact isDigit_digit n hn
    case isFalse hn =>
      rcases List.mem_append.mp h with h | h
      · exact ih (n / 10) (by omega) h
      · rw [List.mem_singleton.mp h]
        exact isDigit_digit _ (Nat.mod_lt n (by decide))

theorem decimal_ne_nil (n : Nat) : decimal n ≠ [] := by
  rw [decimal]
  split <;> simp

theorem isNumeral_decimal (n : Nat) : isNumeral (decimal n) = true := by
  simp only [isNumeral, Bool.and_eq_true, Bool.not_eq_true', List.isEmpty_eq_false_iff, List.all_eq_true]
  exact ⟨decimal_ne_nil n, fun b hb => isDigit_of_mem_decimal hb⟩

/-- A number below a power of ten has no more digits than the power. -/
theorem length_decimal_le {n k : Nat} (h : n < 10 ^ (k + 1)) : (decimal n).length ≤ k + 1 := by
  induction k generalizing n with
  | zero =>
    rw [decimal, if_pos (by omega)]
    simp
  | succ k ih =>
    rw [decimal]
    split
    case isTrue => simp
    case isFalse =>
      have hd : n / 10 < 10 ^ (k + 1) := by
        rw [Nat.div_lt_iff_lt_mul (by decide), ← Nat.pow_succ]
        exact h
      simpa using ih hd

/-- A numeral starts with a digit, which the minus sign is not. -/
theorem head?_decimal_ne (n : Nat) : (decimal n).head? ≠ some 45 := by
  intro h
  have hd := isDigit_of_mem_decimal (List.mem_of_mem_head? h)
  exact absurd hd (by decide)

theorem decimalInt_injective {m n : Int} (h : decimalInt m = decimalInt n) : m = n := by
  unfold decimalInt at h
  split at h <;> split at h
  · have hd := decimal_injective (List.cons.inj h).2
    omega
  · exact absurd (congrArg List.head? h.symm) (head?_decimal_ne _)
  · exact absurd (congrArg List.head? h) (head?_decimal_ne _)
  · have hd := decimal_injective h
    omega

/-! ### Leading zeros -/

/-- A numeral of the number, with any number of leading zeros. -/
def Denotes (text : Bytes) (n : Nat) : Prop := ∃ zeros, text = List.replicate zeros 48 ++ decimal n

theorem toNat_sub_lt_of_isDigit {b : UInt8} (h : isDigit b = true) : b.toNat - 48 < 10 := by
  simp only [isDigit, Bool.and_eq_true, decide_eq_true_eq, UInt8.le_iff_toNat_le] at h
  have := h.2
  simp at this
  omega

theorem digit_of_isDigit {b : UInt8} (h : isDigit b = true) : digit (b.toNat - 48) = b := by
  simp only [isDigit, Bool.and_eq_true, decide_eq_true_eq, UInt8.le_iff_toNat_le] at h
  have hb : 48 ≤ b.toNat := h.1
  rw [digit, Nat.add_sub_cancel' hb, UInt8.ofNat_toNat]

theorem decimal_of_isDigit {b : UInt8} (h : isDigit b = true) : decimal (b.toNat - 48) = [b] := by
  rw [decimal, if_pos (toNat_sub_lt_of_isDigit h), digit_of_isDigit h]

/-- Digits behind a number that is not zero continue its numeral. -/
theorem decimal_append {start : Nat} {s : Bytes} (hs : 0 < start) (hd : s.all isDigit = true) :
    decimal start ++ s = decimal (digitsValueFrom start s) := by
  induction s generalizing start with
  | nil => exact List.append_nil _
  | cons b s ih =>
    simp only [List.all_cons, Bool.and_eq_true] at hd
    have hb := toNat_sub_lt_of_isDigit hd.1
    have hnext : decimal start ++ [b] = decimal (10 * start + (b.toNat - 48)) := by
      rw [decimal.eq_def (10 * start + _), if_neg (by omega), Nat.mul_add_div (by decide),
        Nat.mul_add_mod, Nat.div_eq_of_lt hb, Nat.mod_eq_of_lt hb, digit_of_isDigit hd.1, Nat.add_zero]
    rw [List.append_cons, hnext, ih (by omega) hd.2]
    rfl

theorem Denotes.isNumeral {text : Bytes} {n : Nat} (h : Denotes text n) : isNumeral text = true := by
  obtain ⟨zeros, rfl⟩ := h
  simp only [Bytes.isNumeral, Bool.and_eq_true, Bool.not_eq_true', List.isEmpty_eq_false_iff,
    List.all_eq_true]
  refine ⟨List.append_ne_nil_of_right_ne_nil _ (decimal_ne_nil n), fun b hb => ?_⟩
  rcases List.mem_append.mp hb with hb | hb
  · rw [List.eq_of_mem_replicate hb]
    rfl
  · exact isDigit_of_mem_decimal hb

theorem Denotes.digitsValue {text : Bytes} {n : Nat} (h : Denotes text n) : digitsValue text = n := by
  obtain ⟨zeros, rfl⟩ := h
  induction zeros with
  | zero => exact digitsValue_decimal n
  | succ zeros ih => exact ih

/-- Every numeral denotes the value of its digits, and nothing else. -/
theorem denotes_iff {text : Bytes} {n : Nat} :
    Denotes text n ↔ isNumeral text = true ∧ digitsValue text = n := by
  refine ⟨fun h => ⟨h.isNumeral, h.digitsValue⟩, ?_⟩
  rintro ⟨h, rfl⟩
  induction text with
  | nil => cases h
  | cons b s ih =>
    have hall : (b :: s).all isDigit = true := (Bool.and_eq_true _ _ ▸ h).2
    obtain ⟨hb, hs⟩ := Bool.and_eq_true _ _ ▸ hall
    rcases Nat.eq_zero_or_pos (b.toNat - 48) with hz | hz
    · obtain rfl : b = 48 := by rw [← digit_of_isDigit hb, hz]; rfl
      cases s with
      | nil => exact ⟨0, (decimal_of_isDigit hb).symm⟩
      | cons c s =>
        obtain ⟨zeros, ht⟩ := ih hs
        exact ⟨zeros + 1, congrArg (48 :: ·) ht⟩
    · refine ⟨0, ?_⟩
      have hv : Bytes.digitsValue (b :: s) = digitsValueFrom (b.toNat - 48) s := by
        simp [Bytes.digitsValue, digitsValueFrom]
      rw [hv, ← decimal_append hz hs, decimal_of_isDigit hb]
      rfl

theorem Denotes.unique {text : Bytes} {m n : Nat} (h : Denotes text m) (h' : Denotes text n) : m = n :=
  h.digitsValue.symm.trans h'.digitsValue

end EditorSession.Bytes
