import EditorSession.Proofs.Json.Reading
import EditorSession.Proofs.Numeral

/-! Number tokens. The reader of numbers is taken apart into runs of digits behind marks and signs. A
run is cut where it cannot go on, so that the parts found are those the numeral was written from. -/

namespace EditorSession.Json

open Grammar

variable {α : Type}

/-! ### Runs of digits -/

theorem Grammar.Digits.all (d : Digits) : ∀ b ∈ d.1, Bytes.isDigit b = true := by
  have h := d.2
  simp only [Bytes.isNumeral, Bool.and_eq_true, List.all_eq_true] at h
  exact h.2

theorem Grammar.Digits.isEmpty (d : Digits) : d.1.isEmpty = false := by
  have h := d.2
  simp only [Bytes.isNumeral, Bool.and_eq_true, Bool.not_eq_true'] at h
  exact h.1

theorem Grammar.Digits.head?_append_ne (d : Digits) {b : UInt8} (hb : Bytes.isDigit b = false)
    (rest : Bytes) : (d.1 ++ rest).head? ≠ some b := by
  obtain ⟨a, s, hs⟩ := List.exists_cons_of_ne_nil (List.isEmpty_eq_false_iff.mp d.isEmpty)
  have ha := d.all a (by simp [hs])
  rw [hs, List.cons_append, List.head?_cons]
  rintro ⟨⟩
  simp [ha] at hb

/-- Reads digits, at least one. -/
def someDigits (flaw : Flaw) (f : Bytes → α) : Reader α := fun c =>
  if c.digits.1.isEmpty then c.digits.2.fail flaw else .ok (f c.digits.1, c.digits.2)

theorem reads_someDigits (flaw : Flaw) (f : Bytes → α) :
    Reads (someDigits flaw f) fun t v => ∃ d : Digits, t = d.1 ∧ v = f d.1 where
  ok {c} v c' h := by
    unfold someDigits at h
    split at h
    case isTrue => cases h
    case isFalse he =>
      cases h
      obtain ⟨hp, hd⟩ := c.past_digits
      have hn : Bytes.isNumeral c.digits.1 = true := by simpa [Bytes.isNumeral, he] using hd
      exact ⟨_, hp, ⟨_, hn⟩, rfl, rfl⟩
  error {c} e h := by
    unfold someDigits at h
    split at h
    case isFalse => cases h
    case isTrue =>
      cases h
      rw [← c.past_digits.1.limit_eq]
      exact Cursor.offset_le_limit _

theorem someDigits_append (flaw : Flaw) (f : Bytes → α) (d : Digits) {rest : Bytes}
    (hr : ∀ b ∈ rest.head?, Bytes.isDigit b = false) (o : Nat) :
    someDigits flaw f ⟨d.1 ++ rest, o⟩ = .ok (f d.1, ⟨rest, o + d.1.length⟩) := by
  rw [someDigits, Cursor.digits_append d.all hr, if_neg (by simp [d.isEmpty])]

/-- Reads on behind `b`, or without it if it does not come next. -/
def behind (b : UInt8) (r r' : Reader α) : Reader α := fun c =>
  if c.rest.head? = some b then r (c.advance 1) else r' c

theorem Reads.behind (b : UInt8) {r r' : Reader α} {L L' : Denotation α} (h : Reads r L)
    (h' : Reads r' L') :
    Reads (behind b r r') fun t v => (∃ u, t = b :: u ∧ L u v) ∨ L' t v where
  ok {c} v c' hr := by
    unfold Json.behind at hr
    split at hr
    case isTrue hb =>
      obtain ⟨u, hp, hu⟩ := h.ok hr
      exact ⟨_, (Cursor.past_advance_one hb).trans hp, .inl ⟨u, rfl, hu⟩⟩
    case isFalse =>
      obtain ⟨t, hp, ht⟩ := h'.ok hr
      exact ⟨t, hp, .inr ht⟩
  error {c} e hr := by
    unfold Json.behind at hr
    split at hr
    case isTrue hb => exact (Cursor.past_advance_one hb).limit_eq ▸ h.error hr
    case isFalse => exact h'.error hr

@[simp] theorem behind_self (b : UInt8) (r r' : Reader α) (rest : Bytes) (o : Nat) :
    behind b r r' ⟨b :: rest, o⟩ = r ⟨rest, o + 1⟩ := by
  simp [behind, Cursor.advance]

theorem behind_of_ne {b : UInt8} {c : Cursor} (h : c.rest.head? ≠ some b) (r r' : Reader α) :
    behind b r r' c = r' c := if_neg h

/-! ### Fraction and exponent -/

theorem fractionPart_eq :
    fractionPart = behind 46 (someDigits .expectedFraction some) fun c => .ok (none, c) := rfl

theorem reads_fractionPart : Reads fractionPart fun t v =>
    ∃ f : Option Digits, t = written Numeral.fractionText f ∧ v = f.map Subtype.val := by
  rw [fractionPart_eq]
  refine ((reads_someDigits .expectedFraction some).behind 46 (.pure none)).mono ?_
  rintro t v (⟨_, rfl, d, rfl, rfl⟩ | ⟨rfl, rfl⟩)
  · exact ⟨some d, rfl, rfl⟩
  · exact ⟨none, rfl, rfl⟩

theorem fractionPart_append (f : Option Digits) {rest : Bytes}
    (hd : ∀ b ∈ rest.head?, Bytes.isDigit b = false) (hp : rest.head? ≠ some 46) (o : Nat) :
    ∃ o', fractionPart ⟨written Numeral.fractionText f ++ rest, o⟩ =
      .ok (f.map Subtype.val, ⟨rest, o'⟩) := by
  rw [fractionPart_eq]
  cases f with
  | none => exact ⟨o, behind_of_ne hp _ _⟩
  | some d =>
    have hf := someDigits_append .expectedFraction some d hd (o + 1)
    exact ⟨_, (behind_self 46 _ _ _ o).trans hf⟩

/-- The part of an exponent that follows its mark. -/
def signedDigits : Reader (Option Int) :=
  behind 45 (someDigits .expectedExponent fun d => some (-(Bytes.digitsValue d : Int)))
    (behind 43 (someDigits .expectedExponent fun d => some (Bytes.digitsValue d : Int))
      (someDigits .expectedExponent fun d => some (Bytes.digitsValue d : Int)))

theorem signedDigits_eq (c : Cursor) :
    signedDigits c =
      let negative : Bool := c.rest.head? = some 45
      someDigits .expectedExponent
        (fun d => some (if negative then -(Bytes.digitsValue d : Int) else Bytes.digitsValue d))
        (if negative ∨ c.rest.head? = some 43 then c.advance 1 else c) := by
  by_cases hm : c.rest.head? = some 45
  · simp [signedDigits, behind, hm]
  · by_cases hp : c.rest.head? = some 43 <;> simp [signedDigits, behind, hm, hp]

theorem exponentPart_eq :
    exponentPart = behind 101 signedDigits (behind 69 signedDigits fun c => .ok (none, c)) := by
  funext c
  by_cases hs : c.rest.head? = some 101
  · rw [behind, if_pos hs, signedDigits_eq, exponentPart, if_pos (.inl hs)]
    rfl
  · by_cases hc : c.rest.head? = some 69
    · rw [behind, if_neg hs, behind, if_pos hc, signedDigits_eq, exponentPart, if_pos (.inr hc)]
      rfl
    · rw [behind, if_neg hs, behind, if_neg hc, exponentPart, if_neg (by simp [hs, hc])]

theorem reads_signedDigits : Reads signedDigits fun t v => ∃ (sign : Sign) (d : Digits),
    t = sign.text ++ d.1 ∧ v = some (Exponent.value ⟨false, sign, d⟩) := by
  refine ((reads_someDigits _ _).behind 45
    ((reads_someDigits _ _).behind 43 (reads_someDigits _ _))).mono ?_
  rintro t v (⟨_, rfl, d, rfl, rfl⟩ | ⟨_, rfl, d, rfl, rfl⟩ | ⟨d, rfl, rfl⟩)
  · exact ⟨.minus, d, rfl, rfl⟩
  · exact ⟨.plus, d, rfl, rfl⟩
  · exact ⟨.none, d, rfl, rfl⟩

theorem reads_exponentPart : Reads exponentPart fun t v =>
    ∃ e : Option Exponent, t = written Exponent.text e ∧ v = e.map Exponent.value := by
  rw [exponentPart_eq]
  refine (reads_signedDigits.behind 101 (reads_signedDigits.behind 69 (.pure none))).mono ?_
  rintro t v (⟨_, rfl, sign, d, rfl, rfl⟩ | ⟨_, rfl, sign, d, rfl, rfl⟩ | ⟨rfl, rfl⟩)
  · exact ⟨some ⟨false, sign, d⟩, rfl, rfl⟩
  · exact ⟨some ⟨true, sign, d⟩, rfl, rfl⟩
  · exact ⟨none, rfl, rfl⟩

theorem signedDigits_append (sign : Sign) (d : Digits) {rest : Bytes}
    (hr : ∀ b ∈ rest.head?, Bytes.isDigit b = false) (o : Nat) :
    ∃ o', signedDigits ⟨sign.text ++ d.1 ++ rest, o⟩ =
      .ok (some (Exponent.value ⟨false, sign, d⟩), ⟨rest, o'⟩) := by
  unfold signedDigits
  cases sign with
  | minus => exact ⟨_, (behind_self 45 _ _ _ o).trans (someDigits_append _ _ d hr _)⟩
  | plus =>
    rw [behind_of_ne (by simp [Sign.text])]
    exact ⟨_, (behind_self 43 _ _ _ o).trans (someDigits_append _ _ d hr _)⟩
  | none =>
    rw [behind_of_ne (d.head?_append_ne (by decide) rest),
      behind_of_ne (d.head?_append_ne (by decide) rest)]
    exact ⟨_, someDigits_append _ _ d hr _⟩

theorem exponentPart_append (e : Option Exponent) {rest : Bytes}
    (hd : ∀ b ∈ rest.head?, Bytes.isDigit b = false)
    (hm : rest.head? ≠ some 101 ∧ rest.head? ≠ some 69) (o : Nat) :
    ∃ o', exponentPart ⟨written Exponent.text e ++ rest, o⟩ =
      .ok (e.map Exponent.value, ⟨rest, o'⟩) := by
  rw [exponentPart_eq]
  cases e with
  | none => exact ⟨o, (behind_of_ne hm.1 _ _).trans (behind_of_ne hm.2 _ _)⟩
  | some e =>
    obtain ⟨capital, sign, d⟩ := e
    obtain ⟨o', ho⟩ := signedDigits_append sign d hd (o + 1)
    refine ⟨o', ?_⟩
    cases capital with
    | false => exact (behind_self 101 _ _ _ o).trans ho
    | true =>
      rw [behind_of_ne (by simp [written, Exponent.text])]
      exact (behind_self 69 _ _ _ o).trans ho

/-! ### Values -/

theorem toInt_minValue : Int64.minValue.toInt = -2 ^ 63 := by decide

theorem toInt_maxValue : Int64.maxValue.toInt = 2 ^ 63 - 1 := by decide

namespace Grammar.Numeral

/-- The value that is read off the parts of a numeral. -/
def value? (n : Numeral) : Option Json :=
  numeral? n.negative n.whole.1 (n.fraction.map Subtype.val) (n.exponent.map Exponent.value)

theorem fits_iff (n : Numeral) :
    ((n.fraction.map Subtype.val).isNone ∧ (n.exponent.map Exponent.value).isNone ∧
      Int64.minValue.toInt ≤ n.integer ∧ n.integer ≤ Int64.maxValue.toInt) ↔ n.Fits := by
  rw [Fits, toInt_minValue, toInt_maxValue, Option.isNone_map, Option.isNone_map,
    Option.isNone_iff_eq_none, Option.isNone_iff_eq_none, Int.le_sub_one_iff]

theorem value?_of_fits {n : Numeral} (h : n.Fits) : n.value? = some (.int (Int64.ofInt n.integer)) := by
  rw [value?, numeral?]
  exact if_pos (n.fits_iff.mpr h)

theorem value?_of_not_fits {n : Numeral} (h : ¬n.Fits) :
    n.value? = (Binary64.ofDecimal? n.negative (Bytes.digitsValue (n.whole.1 ++ n.places))
      n.scale).map .real := by
  have hp : (n.fraction.map Subtype.val).getD [] = n.places := by
    rw [places]
    cases n.fraction <;> rfl
  have hm : Bytes.digitsValue (n.whole.1 ++ n.places) =
      Bytes.digitsValueFrom (Bytes.digitsValue n.whole.1) n.places := Bytes.digitsValueFrom_append ..
  rw [value?, numeral?, hm, scale, ← hp]
  exact if_neg (mt n.fits_iff.mp h)

end Grammar.Numeral

theorem Grammar.number_iff {t : Bytes} {v : Json} :
    Number t v ↔ ∃ n : Numeral, t = n.text ∧ n.value? = some v := by
  constructor
  · rintro (⟨hf, hi⟩ | ⟨hf, hx⟩)
    case int n i =>
      refine ⟨n, rfl, ?_⟩
      rw [Numeral.value?_of_fits hf, ← hi, Int64.ofInt_toInt]
    case real n x =>
      refine ⟨n, rfl, ?_⟩
      rw [Numeral.value?_of_not_fits hf, hx]
      rfl
  · rintro ⟨n, rfl, hv⟩
    by_cases hf : n.Fits
    · rw [Numeral.value?_of_fits hf] at hv
      cases hv
      exact .int hf (Int64.toInt_ofInt_of_le hf.2.2.1 hf.2.2.2)
    · rw [Numeral.value?_of_not_fits hf, Option.map_eq_some_iff] at hv
      obtain ⟨x, hx, rfl⟩ := hv
      exact .real hf hx

/-! ### Numbers -/

/-- Makes a value of the parts, if they have one. -/
def settle (value : Option Json) : Reader Json := fun c =>
  match value with
  | some v => .ok (v, c)
  | none => c.fail .numberOutOfRange

/-- The part of a number that follows its sign. -/
def unsigned (negative : Bool) : Reader Json :=
  andThen (someDigits .expectedValue id) fun whole =>
    andThen fractionPart fun fraction =>
      andThen exponentPart fun exponent => settle (numeral? negative whole fraction exponent)

theorem number_eq_unsigned (c : Cursor) :
    number c =
      unsigned (c.rest.head? = some 45) (if c.rest.head? = some 45 then c.advance 1 else c) := by
  simp only [number, unsigned, andThen, someDigits, id, decide_eq_true_eq]
  generalize (if c.rest.head? = some 45 then c.advance 1 else c) = c
  split
  case isTrue he =>
    have hd : c.digits.2.offset = c.offset := by
      rw [c.past_digits.1.offset, List.isEmpty_iff.mp he]
      rfl
    rw [Cursor.fail, Cursor.fail, hd]
    rfl
  case isFalse =>
    refine bind_congr fun p => bind_congr fun q => ?_
    cases numeral? _ c.digits.1 p.1 q.1 <;> rfl

theorem number_eq : number = behind 45 (unsigned true) (unsigned false) := by
  funext c
  rw [number_eq_unsigned, behind]
  split
  case isTrue h => simp [h]
  case isFalse h => simp [h]

theorem reads_settle (value : Option Json) :
    Reads (settle value) fun t v => t = [] ∧ value = some v := by
  cases value with
  | none => exact (Reads.fail .numberOutOfRange).mono fun _ _ h => h.elim
  | some v => exact (Reads.pure v).mono fun _ _ ⟨ht, hv⟩ => ⟨ht, by rw [hv]⟩

theorem reads_unsigned (negative : Bool) : Reads (unsigned negative) fun t v =>
    ∃ n : Numeral, n.negative = negative ∧ n.text = (if negative then [45] else []) ++ t ∧
      n.value? = some v := by
  refine ((reads_someDigits .expectedValue id).andThen fun whole =>
    reads_fractionPart.andThen fun fraction =>
      reads_exponentPart.andThen fun exponent => reads_settle _).mono ?_
  rintro t v ⟨_, _, _, rfl, ⟨d, rfl, rfl⟩, _, _, _, rfl, ⟨f, rfl, rfl⟩, _, _, _, rfl, ⟨e, rfl, rfl⟩,
    rfl, hv⟩
  exact ⟨⟨negative, d, f, e⟩, rfl, by simp [Numeral.text], hv⟩

theorem reads_number : Reads number Number := by
  rw [number_eq]
  refine ((reads_unsigned true).behind 45 (reads_unsigned false)).mono ?_
  rintro t v (⟨u, rfl, n, hn, ht, hv⟩ | ⟨n, hn, ht, hv⟩)
  · exact number_iff.mpr ⟨n, ht.symm, hv⟩
  · exact number_iff.mpr ⟨n, ht.symm, hv⟩

/-- A number cannot go on with the first byte of what follows. -/
def Ends (rest : Bytes) : Prop :=
  ∀ b ∈ rest.head?, Bytes.isDigit b = false ∧ b ≠ 46 ∧ b ≠ 101 ∧ b ≠ 69

theorem ends_nil : Ends [] := by simp [Ends]

theorem Ends.head?_ne {rest : Bytes} (h : Ends rest) :
    rest.head? ≠ some 46 ∧ rest.head? ≠ some 101 ∧ rest.head? ≠ some 69 :=
  ⟨fun hb => (h _ hb).2.1 rfl, fun hb => (h _ hb).2.2.1 rfl, fun hb => (h _ hb).2.2.2 rfl⟩

theorem Ends.digit {rest : Bytes} (h : Ends rest) : ∀ b ∈ rest.head?, Bytes.isDigit b = false :=
  fun b hb => (h b hb).1

/-- Behind the digits of a fraction. -/
theorem ends_fraction (e : Option Exponent) {rest : Bytes} (h : Ends rest) :
    (∀ b ∈ (written Exponent.text e ++ rest).head?, Bytes.isDigit b = false) ∧
      (written Exponent.text e ++ rest).head? ≠ some 46 := by
  cases e with
  | none => exact ⟨h.digit, h.head?_ne.1⟩
  | some e => cases hc : e.capital <;> simp [written, Exponent.text, hc, Bytes.isDigit]

/-- Behind the digits before the point. -/
theorem ends_whole (f : Option Digits) (e : Option Exponent) {rest : Bytes} (h : Ends rest) :
    ∀ b ∈ (written Numeral.fractionText f ++ (written Exponent.text e ++ rest)).head?,
      Bytes.isDigit b = false := by
  cases f with
  | none => exact (ends_fraction e h).1
  | some d => simp [written, Numeral.fractionText, Bytes.isDigit]

theorem unsigned_append {n : Numeral} {v : Json} {rest : Bytes} (hv : n.value? = some v)
    (hr : Ends rest) (o : Nat) :
    ∃ o', unsigned n.negative ⟨n.whole.1 ++ (written Numeral.fractionText n.fraction ++
      (written Exponent.text n.exponent ++ rest)), o⟩ = .ok (v, ⟨rest, o'⟩) := by
  have hw := someDigits_append .expectedValue id n.whole (ends_whole n.fraction n.exponent hr) o
  obtain ⟨hd, hp⟩ := ends_fraction n.exponent hr
  obtain ⟨o₁, hf⟩ := fractionPart_append n.fraction hd hp (o + n.whole.1.length)
  obtain ⟨o₂, he⟩ := exponentPart_append n.exponent hr.digit hr.head?_ne.2 o₁
  refine ⟨o₂, ?_⟩
  rw [Numeral.value?] at hv
  simp only [unsigned, andThen, hw, hf, he, id, hv, settle, bind, Except.bind]

theorem number_delivers {deep : Prop} {t rest : Bytes} {v : Json} (h : Number t v) (hr : Ends rest)
    (o : Nat) : Delivers deep v rest (number ⟨t ++ rest, o⟩) := by
  obtain ⟨n, rfl, hv⟩ := number_iff.mp h
  simp only [number_eq, Numeral.text, List.append_assoc]
  cases hn : n.negative with
  | true =>
    obtain ⟨o', ho⟩ := unsigned_append hv hr (o + 1)
    rw [hn] at ho
    simp only [↓reduceIte, List.singleton_append, behind_self, ho]
    exact .value o'
  | false =>
    obtain ⟨o', ho⟩ := unsigned_append hv hr o
    rw [hn] at ho
    simp only [Bool.false_eq_true, ↓reduceIte, List.nil_append]
    rw [behind_of_ne (n.whole.head?_append_ne (by decide) _), ho]
    exact .value o'

end EditorSession.Json
