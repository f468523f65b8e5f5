import EditorSession.Proofs.Json.Reading

/-! String tokens. The pieces of a string are found again one by one; only an escaped high surrogate
looks ahead, and what it finds there decides whether one piece is read or two. -/

namespace EditorSession.Json

open Grammar

/-! ### Hexadecimal digits -/

theorem hexValue?_lt (b : UInt8) : (Bytes.hexValue? b).getD 0 < 16 := by
  unfold Bytes.hexValue?
  split
  case isTrue h =>
    have hb : b.toNat ≤ 57 := UInt8.le_iff_toNat_le.mp h.2
    simp only [Option.getD_some]
    omega
  case isFalse =>
    split
    case isTrue h =>
      have hb : b.toNat ≤ 102 := UInt8.le_iff_toNat_le.mp h.2
      simp only [Option.getD_some]
      omega
    case isFalse =>
      split
      case isTrue h =>
        have hb : b.toNat ≤ 70 := UInt8.le_iff_toNat_le.mp h.2
        simp only [Option.getD_some]
        omega
      case isFalse => decide

theorem hexFrom_lt (start : Nat) (digits : Bytes) :
    hexFrom start digits < (start + 1) * 16 ^ digits.length := by
  induction digits generalizing start with
  | nil => simp [hexFrom]
  | cons b digits ih =>
    have hb := hexValue?_lt b
    calc hexFrom start (b :: digits)
        < (16 * start + (Bytes.hexValue? b).getD 0 + 1) * 16 ^ digits.length := ih _
      _ ≤ (16 * (start + 1)) * 16 ^ digits.length := Nat.mul_le_mul_right _ (by omega)
      _ = (start + 1) * 16 ^ (b :: digits).length := by
        rw [List.length_cons, Nat.pow_succ]
        ac_rfl

theorem Grammar.Quad.code_lt (q : Quad) : q.code < 65536 := by
  simpa [Quad.code, q.four] using hexFrom_lt 0 q.digits

theorem digitsFrom_append {digits : Bytes} (hex : ∀ b ∈ digits, (Bytes.hexValue? b).isSome)
    (taken code : Nat) (s : Bytes) :
    hexQuad.digitsFrom digits.length taken code (digits ++ s) = .ok (hexFrom code digits) := by
  induction digits generalizing taken code with
  | nil => simp [hexQuad.digitsFrom, hexFrom]
  | cons b digits ih =>
    obtain ⟨hb, hex⟩ := List.forall_mem_cons.mp hex
    obtain ⟨d, hd⟩ := Option.isSome_iff_exists.mp hb
    simp only [List.length_cons, List.cons_append, hexQuad.digitsFrom, hd, ih hex]
    simp [hexFrom, hd]

theorem exists_digits_of_digitsFrom {left taken code n : Nat} {s : Bytes}
    (h : hexQuad.digitsFrom left taken code s = .ok n) :
    ∃ digits rest, s = digits ++ rest ∧ digits.length = left ∧
      (∀ b ∈ digits, (Bytes.hexValue? b).isSome) ∧ hexFrom code digits = n := by
  fun_induction hexQuad.digitsFrom left taken code s with
  | case1 taken code s =>
    cases h
    exact ⟨[], s, rfl, rfl, by simp, rfl⟩
  | case2 => cases h
  | case3 taken code left b s d hd ih =>
    obtain ⟨digits, rest, rfl, hl, hex, hn⟩ := ih h
    refine ⟨b :: digits, rest, rfl, by simp [hl], List.forall_mem_cons.mpr ⟨by simp [hd], hex⟩, ?_⟩
    simpa [hexFrom, hd] using hn
  | case4 => cases h

theorem digitsFrom_error {left taken code n : Nat} {s : Bytes} {flaw : Flaw}
    (h : hexQuad.digitsFrom left taken code s = .error (n, flaw)) : n ≤ taken + s.length := by
  fun_induction hexQuad.digitsFrom left taken code s with
  | case1 => cases h
  | case2 =>
    cases h
    simp
  | case3 taken code left b s d hd ih =>
    have hn := ih h
    simp only [List.length_cons]
    omega
  | case4 =>
    cases h
    simp only [List.length_cons]
    omega

theorem Grammar.Quad.drop_digits (q : Quad) (s : Bytes) : (q.digits ++ s).drop 4 = s := by
  rw [← q.four, List.drop_left]

theorem hexQuad_quad (q : Quad) (s : Bytes) : hexQuad (q.digits ++ s) = .ok q.code := by
  have hd := digitsFrom_append q.hex 0 0 s
  rw [q.four] at hd
  have hl : ¬((q.digits ++ s).take 4).length < 4 := by
    rw [List.length_take, List.length_append, q.four]
    omega
  rw [hexQuad, if_neg hl, hd, Quad.code]

theorem exists_quad {s : Bytes} {code : Nat} (h : hexQuad s = .ok code) :
    ∃ q rest, s = Quad.digits q ++ rest ∧ q.code = code := by
  rw [hexQuad] at h
  split at h
  case isTrue => cases h
  case isFalse =>
    obtain ⟨digits, rest, hs, hl, hex, hn⟩ := exists_digits_of_digitsFrom h
    exact ⟨⟨digits, hl, hex⟩, rest, hs, hn⟩

theorem hexQuad_error {s : Bytes} {n : Nat} {flaw : Flaw} (h : hexQuad s = .error (n, flaw)) :
    n ≤ s.length := by
  rw [hexQuad] at h
  split at h
  case isTrue =>
    cases h
    simp
  case isFalse => simpa using digitsFrom_error h

/-! ### Surrogates -/

theorem ascii_unicodeMark : ascii "\\u" = [92, 117] := by decide

theorem lowSurrogate?_quad (q : Quad) (s : Bytes) :
    lowSurrogate? (92 :: 117 :: q.digits ++ s) =
      .ok (if isLowSurrogate q.code then some q.code else none) := by
  have hl : 6 ≤ ((92 :: 117 :: q.digits ++ s).take 6).length := by
    simp only [List.length_take, List.cons_append, List.length_cons, List.length_append, q.four]
    omega
  rw [lowSurrogate?, ascii_unicodeMark, if_pos ⟨by simp, hl⟩]
  simp [hexQuad_quad]

theorem lowSurrogate?_of_not_mark {s : Bytes} (h : ¬[92, 117].isPrefixOf s = true) :
    lowSurrogate? s = .ok none := by
  rw [lowSurrogate?, ascii_unicodeMark, if_neg fun hp => h hp.1]

theorem exists_quad_of_lowSurrogate? {s : Bytes} {low : Nat} (h : lowSurrogate? s = .ok (some low)) :
    ∃ q rest, s = 92 :: 117 :: Quad.digits q ++ rest ∧ isLowSurrogate q.code = true := by
  rw [lowSurrogate?, ascii_unicodeMark] at h
  split at h
  case isFalse => cases h
  case isTrue hs =>
    obtain ⟨s, rfl⟩ := List.isPrefixOf_iff_prefix.mp hs.1
    split at h
    next => cases h
    next code hq =>
      obtain ⟨q, rest, rfl, rfl⟩ := exists_quad (s := s) hq
      refine ⟨q, rest, by simp, ?_⟩
      by_contra hlow
      simp [hlow] at h

theorem lowSurrogate?_error {s : Bytes} {n : Nat} {flaw : Flaw}
    (h : lowSurrogate? s = .error (n, flaw)) : n ≤ s.length := by
  rw [lowSurrogate?] at h
  split at h
  case isFalse => cases h
  case isTrue hs =>
    have hl := hs.2
    rw [List.length_take] at hl
    split at h
    next m _ hq =>
      cases h
      have hm := hexQuad_error hq
      rw [List.length_drop] at hm
      omega
    next => cases h

/-! ### Escapes -/

theorem toNat_ofNat {n : Nat} (h : n.isValidChar) : (Char.ofNat n).toNat = n := by
  rw [Char.ofNat, dif_pos h]
  rfl

theorem encode_toNat (c : Char) : Utf8.encode c.toNat = String.utf8EncodeChar c := by
  have hv : c.val.toNat < 0xD800 ∨ 0xDFFF < c.val.toNat ∧ c.val.toNat < 0x110000 := c.valid
  rw [Utf8.encode, String.utf8EncodeChar, Char.toNat]
  split
  · rfl
  · split
    · rw [Nat.mod_eq_of_lt (by omega : c.val.toNat / 64 < 0x20), Nat.add_comm 0xC0, Nat.add_comm 0x80]
    · split
      · rw [Nat.mod_eq_of_lt (by omega : c.val.toNat / 4096 < 0x10)]
        simp only [Nat.add_comm]
      · rw [Nat.mod_eq_of_lt (by omega : c.val.toNat / 262144 < 0x08)]
        simp only [Nat.add_comm]

namespace Grammar

theorem isHighSurrogate_iff {code : Nat} :
    isHighSurrogate code = true ↔ 0xD800 ≤ code ∧ code < 0xDC00 := by
  simp [isHighSurrogate]
  omega

theorem isLowSurrogate_iff {code : Nat} :
    isLowSurrogate code = true ↔ 0xDC00 ≤ code ∧ code < 0xE000 := by
  simp [isLowSurrogate]
  omega

theorem Quad.toNat_char (q : Quad) :
    q.char.toNat =
      if isHighSurrogate q.code || isLowSurrogate q.code then Utf8.replacement else q.code := by
  have hc := q.code_lt
  simp only [Bool.or_eq_true, isHighSurrogate_iff, isLowSurrogate_iff, Quad.char]
  by_cases hv : q.code.isValidChar
  · rw [if_pos hv, toNat_ofNat hv, if_neg]
    unfold Nat.isValidChar at hv
    omega
  · rw [if_neg hv, if_pos]
    · rfl
    · unfold Nat.isValidChar at hv
      omega

theorem Quad.pair?_eq_none_iff {high low : Quad} :
    high.pair? low = none ↔
      ¬(isHighSurrogate high.code = true ∧ isLowSurrogate low.code = true) := by
  simp only [isHighSurrogate_iff, isLowSurrogate_iff, Quad.pair?, ite_eq_right_iff, reduceCtorEq,
    imp_false]

theorem Quad.pair?_eq_some {high low : Quad} {c : Char} (h : high.pair? low = some c) :
    c.toNat = pairedCode high.code low.code := by
  unfold Quad.pair? at h
  split at h
  case isFalse => cases h
  case isTrue hs =>
    obtain ⟨⟨hh, hh'⟩, hl, hl'⟩ := hs
    rw [← Option.some.inj h, toNat_ofNat]
    · rfl
    · unfold Nat.isValidChar
      omega

/-- No low surrogate comes next that would join with `q`. -/
def Lone (q : Quad) (pieces : List Piece) : Prop :=
  ∀ low rest, pieces = .unicode low :: rest → q.pair? low = none

theorem denoted_of_lone {q : Quad} {pieces : List Piece} (h : Lone q pieces) :
    denoted (.unicode q :: pieces) = String.utf8EncodeChar q.char ++ denoted pieces := by
  cases pieces with
  | nil => rfl
  | cons p rest =>
    cases p with
    | plain b allowed => rfl
    | short letter byte known => rfl
    | unicode low => simp [denoted, h low rest rfl]

theorem texts_cons (p : Piece) (pieces : List Piece) : texts (p :: pieces) = p.text ++ texts pieces :=
  List.flatMap_cons

theorem texts_append (front pieces : List Piece) :
    texts (front ++ pieces) = texts front ++ texts pieces :=
  List.flatMap_append

/-- Inside a string the look ahead sees what comes next. -/
theorem lone_iff (q : Quad) (pieces : List Piece) (tail : Bytes) :
    Lone q pieces ↔
      (isHighSurrogate q.code = true → lowSurrogate? (texts pieces ++ 34 :: tail) = .ok none) := by
  cases pieces with
  | nil =>
    have hl : lowSurrogate? (texts [] ++ 34 :: tail) = .ok none :=
      lowSurrogate?_of_not_mark (by simp [texts])
    simp [Lone, hl]
  | cons p pieces =>
    cases p with
    | plain b allowed =>
      have hl : lowSurrogate? (texts (.plain b allowed :: pieces) ++ 34 :: tail) = .ok none :=
        lowSurrogate?_of_not_mark (by simp [texts_cons, Piece.text, Ne.symm allowed.2.2])
      simp [Lone, hl]
    | short letter byte known =>
      have hu : ∀ entry ∈ shortEscapes, 117 ≠ entry.1 := by simp [shortEscapes]
      have hl : lowSurrogate? (texts (.short letter byte known :: pieces) ++ 34 :: tail) = .ok none :=
        lowSurrogate?_of_not_mark (by simp [texts_cons, Piece.text, hu _ known])
      simp [Lone, hl]
    | unicode low =>
      have hl := lowSurrogate?_quad low (texts pieces ++ 34 :: tail)
      rw [texts_cons, Piece.text, List.append_assoc, hl]
      simp [Lone, Quad.pair?_eq_none_iff]

end Grammar

theorem shortEscape?_eq_some_iff {letter byte : UInt8} :
    shortEscape? letter = some byte ↔ (letter, byte) ∈ shortEscapes := by
  constructor
  · intro h
    unfold shortEscape? at h
    repeat' split at h
    all_goals simp_all [shortEscapes]
  · have hs : ∀ entry ∈ shortEscapes, shortEscape? entry.1 = some entry.2 := by
      simp [shortEscapes, shortEscape?]
    exact hs (letter, byte)

theorem unicodeEscape_of_lone {q : Quad} {s : Bytes}
    (h : isHighSurrogate q.code = true → lowSurrogate? s = .ok none) :
    unicodeEscape (q.digits ++ s) = .ok (q.char.toNat, 4) := by
  rw [unicodeEscape, hexQuad_quad, q.toNat_char]
  by_cases hh : isHighSurrogate q.code = true
  · simp [hh, q.drop_digits, h hh]
  · by_cases hl : isLowSurrogate q.code = true <;> simp [hh, hl]

theorem unicodeEscape_of_pair {high low : Quad} {c : Char} (h : high.pair? low = some c) (s : Bytes) :
    unicodeEscape (high.digits ++ (92 :: 117 :: low.digits ++ s)) = .ok (c.toNat, 10) := by
  have hp : isHighSurrogate high.code = true ∧ isLowSurrogate low.code = true := by
    by_contra hn
    simp [Quad.pair?_eq_none_iff.mpr hn] at h
  rw [unicodeEscape, hexQuad_quad, Quad.pair?_eq_some h]
  simp only [hp.1, ↓reduceIte, high.drop_digits, lowSurrogate?_quad, hp.2]

/-- A unicode escape is one quad, or the two of a surrogate pair. -/
theorem unicodeEscape_cases {s : Bytes} {code n : Nat} (h : unicodeEscape s = .ok (code, n)) :
    (∃ q rest, s = Quad.digits q ++ rest ∧ code = q.char.toNat ∧ n = 4 ∧
      (isHighSurrogate q.code = true → lowSurrogate? rest = .ok none)) ∨
    ∃ high low c rest, s = Quad.digits high ++ (92 :: 117 :: low.digits ++ rest) ∧
      high.pair? low = some c ∧ code = c.toNat ∧ n = 10 := by
  cases hq : hexQuad s with
  | error e => simp [unicodeEscape, hq] at h
  | ok _ =>
    obtain ⟨q, rest, rfl, rfl⟩ := exists_quad hq
    by_cases hl : isHighSurrogate q.code = true → lowSurrogate? rest = .ok none
    · rw [unicodeEscape_of_lone hl] at h
      cases h
      exact .inl ⟨q, rest, rfl, rfl, rfl, hl⟩
    · obtain ⟨hh, hl⟩ := Classical.not_imp.mp hl
      cases hs : lowSurrogate? rest with
      | error e => simp [unicodeEscape, hexQuad_quad, hh, q.drop_digits, hs] at h
      | ok found =>
        cases found with
        | none => exact absurd hs hl
        | some _ =>
          obtain ⟨low, rest, rfl, hlow⟩ := exists_quad_of_lowSurrogate? hs
          obtain ⟨c, hc⟩ : ∃ c, q.pair? low = some c := by
            rw [← Option.isSome_iff_exists, Option.isSome_iff_ne_none]
            exact fun hn => Quad.pair?_eq_none_iff.mp hn ⟨hh, hlow⟩
          rw [unicodeEscape_of_pair hc] at h
          cases h
          exact .inr ⟨q, low, c, rest, rfl, hc, rfl, rfl⟩

theorem unicodeEscape_error {s : Bytes} {n : Nat} {flaw : Flaw}
    (h : unicodeEscape s = .error (n, flaw)) : n ≤ s.length := by
  rw [unicodeEscape] at h
  split at h
  next hq =>
    cases h
    exact hexQuad_error hq
  next code hq =>
    obtain ⟨q, rest, rfl, rfl⟩ := exists_quad hq
    split at h
    case isFalse => split at h <;> cases h
    case isTrue =>
      rw [q.drop_digits] at h
      split at h
      next m _ hs =>
        cases h
        have hm := lowSurrogate?_error hs
        rw [List.length_append, q.four]
        omega
      next => cases h
      next => cases h

/-- The text of an escape is that of whole pieces, and what these denote is settled whatever follows
in the string. -/
theorem escape_pieces {s decoded : Bytes} {n : Nat} (h : escape s = .ok (decoded, n)) :
    ∃ front rest, 92 :: s = texts front ++ rest ∧ (texts front).length = n + 1 ∧
      ∀ pieces tail, rest = texts pieces ++ 34 :: tail →
        denoted (front ++ pieces) = decoded ++ denoted pieces := by
  unfold escape at h
  split at h
  next => cases h
  next letter s =>
    split at h
    next byte hb =>
      cases h
      exact ⟨[.short letter byte (shortEscape?_eq_some_iff.mp hb)], s, rfl, rfl, fun _ _ _ => rfl⟩
    next =>
      split at h
      case isFalse => cases h
      case isTrue hu =>
        subst hu
        split at h
        next => cases h
        next code m hs =>
          cases h
          obtain ⟨q, rest, rfl, rfl, rfl, hl⟩ | ⟨high, low, c, rest, rfl, hc, rfl, rfl⟩ :=
            unicodeEscape_cases hs
          · refine ⟨[.unicode q], rest, by simp [texts, Piece.text],
              by simp [texts, Piece.text, q.four], ?_⟩
            intro pieces tail ht
            have hlone : Lone q pieces := (lone_iff q pieces tail).mpr (ht ▸ hl)
            rw [List.singleton_append, encode_toNat, denoted_of_lone hlone]
          · refine ⟨[.unicode high, .unicode low], rest, by simp [texts, Piece.text],
              by simp [texts, Piece.text, high.four, low.four], ?_⟩
            intro pieces tail ht
            simp [denoted, hc, encode_toNat]

theorem escape_error {s : Bytes} {n : Nat} {flaw : Flaw} (h : escape s = .error (n, flaw)) :
    n ≤ s.length := by
  unfold escape at h
  split at h
  next =>
    cases h
    simp
  next letter s =>
    split at h
    next => cases h
    next =>
      split at h
      case isFalse =>
        cases h
        simp
      case isTrue =>
        split at h
        next m _ hs =>
          cases h
          simpa using unicodeEscape_error hs
        next => cases h

/-! ### Strings -/

theorem stringBody_ok {rest done v : Bytes} {offset : Nat} {c' : Cursor}
    (h : stringBody rest offset done = .ok (v, c')) :
    ∃ pieces, Cursor.Past ⟨rest, offset⟩ (texts pieces ++ [34]) c' ∧
      v = done.reverse ++ denoted pieces := by
  fun_induction stringBody rest offset done with
  | case1 => cases h
  | case2 offset done rest =>
    cases h
    exact ⟨[], ⟨rfl, rfl⟩, by simp [denoted]⟩
  | case3 => cases h
  | case4 => cases h
  | case5 offset done rest decoded n he _ _ ih =>
    obtain ⟨front, rest', hs, hn, hd⟩ := escape_pieces he
    obtain rfl : rest.drop n = rest' := by
      rw [← List.drop_succ_cons, hs, ← hn, List.drop_left]
    obtain ⟨pieces, hp, rfl⟩ := ih h
    have hf : Cursor.Past ⟨92 :: rest, offset⟩ (texts front) ⟨rest.drop n, offset + 1 + n⟩ :=
      ⟨hs, by rw [hn, Nat.add_assoc, Nat.add_comm 1]⟩
    refine ⟨front ++ pieces, ?_, ?_⟩
    · rw [texts_append, List.append_assoc]
      exact hf.trans hp
    · rw [hd pieces c'.rest (by simpa using hp.rest)]
      simp
  | case6 offset done b rest hq hc hb ih =>
    obtain ⟨pieces, hp, rfl⟩ := ih h
    have hf : Cursor.Past ⟨b :: rest, offset⟩ [b] ⟨rest, offset + 1⟩ := ⟨rfl, rfl⟩
    exact ⟨.plain b ⟨UInt8.not_lt.mp hc, hq, hb⟩ :: pieces, hf.trans hp, by simp [denoted]⟩

theorem stringBody_error {rest done : Bytes} {offset : Nat} {e : ParseError}
    (h : stringBody rest offset done = .error e) : e.offset ≤ offset + rest.length := by
  fun_induction stringBody rest offset done with
  | case1 =>
    cases h
    simp
  | case2 => cases h
  | case3 =>
    cases h
    simp only [List.length_cons]
    omega
  | case4 offset done rest n flaw he =>
    cases h
    have hn := escape_error he
    simp only [List.length_cons]
    omega
  | case5 offset done rest decoded n he _ _ ih =>
    obtain ⟨front, rest', hs, hn, -⟩ := escape_pieces he
    have hl := congrArg List.length hs
    have ho := ih h
    rw [List.length_append, hn] at hl
    rw [List.length_drop] at ho
    simp only [List.length_cons] at hl ⊢
    omega
  | case6 offset done b rest hq hc hb ih =>
    have ho := ih h
    simp only [List.length_cons]
    omega

theorem string_eq :
    string = choose 34 (fun c => stringBody c.rest c.offset []) fun c =>
      c.skipSpace.fail .expectedString := by
  funext c
  unfold string choose
  cases c.accept? 34 <;> rfl

theorem reads_string : Reads string (Led Quoted) := by
  have hb : Reads (fun c => stringBody c.rest c.offset []) fun t v =>
      ∃ pieces, t = texts pieces ++ [34] ∧ v = denoted pieces :=
    ⟨fun h => by
      obtain ⟨pieces, hp, hv⟩ := stringBody_ok h
      exact ⟨_, hp, pieces, rfl, hv⟩, stringBody_error⟩
  rw [string_eq]
  refine (hb.choose 34 (.skip_fail .expectedString)).mono ?_
  rintro t v (⟨s, _, hs, rfl, pieces, rfl, rfl⟩ | h)
  · exact ⟨s, _, hs, rfl, .mk pieces⟩
  · exact h.elim

theorem escape_short {letter byte : UInt8} (h : (letter, byte) ∈ shortEscapes) (s : Bytes) :
    escape (letter :: s) = .ok ([byte], 1) := by
  simp [escape, shortEscape?_eq_some_iff.mpr h]

theorem escape_unicode {s : Bytes} {c : Char} {n : Nat} (h : unicodeEscape s = .ok (c.toNat, n)) :
    escape (117 :: s) = .ok (String.utf8EncodeChar c, n + 1) := by
  have hu : shortEscape? 117 = none := by decide
  simp [escape, hu, h, encode_toNat]

/-- Reading goes on behind an escape. -/
theorem stringBody_escape (front rest : Bytes) {decoded : Bytes} {n : Nat}
    (h : escape (front ++ rest) = .ok (decoded, n)) (hn : front.length = n) (o : Nat) (done : Bytes) :
    stringBody (92 :: (front ++ rest)) o done =
      stringBody rest (o + 1 + n) (decoded.reverse ++ done) := by
  have hd : (front ++ rest).drop n = rest := by rw [← hn, List.drop_left]
  rw [stringBody]
  simp [h, hd]

theorem stringBody_lone {q : Quad} {pieces : List Piece} (h : Lone q pieces) (tail : Bytes) (o : Nat)
    (done : Bytes) :
    stringBody (texts (.unicode q :: pieces) ++ 34 :: tail) o done =
      stringBody (texts pieces ++ 34 :: tail) (o + 1 + 5)
        ((String.utf8EncodeChar q.char).reverse ++ done) := by
  have he := escape_unicode (unicodeEscape_of_lone ((lone_iff q pieces tail).mp h))
  rw [texts_cons, Piece.text, List.append_assoc]
  exact stringBody_escape (117 :: q.digits) _ he (by simp [q.four]) o done

theorem stringBody_texts (pieces : List Piece) (tail : Bytes) (o : Nat) (done : Bytes) :
    ∃ o', stringBody (texts pieces ++ 34 :: tail) o done =
      .ok (done.reverse ++ denoted pieces, ⟨tail, o'⟩) := by
  fun_induction denoted pieces generalizing o done with
  | case1 => exact ⟨o + 1, by simp [texts, stringBody]⟩
  | case2 b allowed rest ih =>
    obtain ⟨hb, hq, he⟩ := allowed
    obtain ⟨o', ho⟩ := ih (o + 1) (b :: done)
    refine ⟨o', ?_⟩
    rw [texts_cons, Piece.text, List.singleton_append, List.cons_append, stringBody]
    simp [hq, he, UInt8.not_lt.mpr hb, ho]
  | case3 letter byte known rest ih =>
    have he := escape_short known (texts rest ++ 34 :: tail)
    obtain ⟨o', ho⟩ := ih (o + 1 + 1) (byte :: done)
    refine ⟨o', (stringBody_escape [letter] _ he rfl o done).trans ?_⟩
    simpa using ho
  | case4 high low rest c hc ih =>
    have he := escape_unicode (unicodeEscape_of_pair hc (texts rest ++ 34 :: tail))
    obtain ⟨o', ho⟩ := ih (o + 1 + 11) ((String.utf8EncodeChar c).reverse ++ done)
    refine ⟨o', ?_⟩
    have hs := stringBody_escape (117 :: high.digits ++ 92 :: 117 :: low.digits)
      (texts rest ++ 34 :: tail) (by simpa using he) (by simp [high.four, low.four]) o done
    rw [ho] at hs
    simpa [texts_cons, Piece.text] using hs
  | case5 high low rest hc ih =>
    have hl : Lone high (.unicode low :: rest) := by
      rintro _ _ ⟨rfl, rfl⟩
      exact hc
    obtain ⟨o', ho⟩ := ih (o + 1 + 5) ((String.utf8EncodeChar high.char).reverse ++ done)
    refine ⟨o', ?_⟩
    rw [stringBody_lone hl, ho]
    simp
  | case6 q rest hn ih =>
    have hl : Lone q rest := fun low rest' hr => (hn low rest' hr).elim
    obtain ⟨o', ho⟩ := ih (o + 1 + 5) ((String.utf8EncodeChar q.char).reverse ++ done)
    refine ⟨o', ?_⟩
    rw [stringBody_lone hl, ho]
    simp

theorem string_delivers {deep : Prop} {s u v rest : Bytes} (hs : Space s) (h : Quoted u v) (o : Nat) :
    Delivers deep v rest (string ⟨s ++ (u ++ rest), o⟩) := by
  obtain ⟨pieces⟩ := h
  obtain ⟨o', ho⟩ := stringBody_texts pieces rest (o + s.length + 1) []
  simp only [List.cons_append, List.append_assoc, List.nil_append]
  rw [string_eq, choose_append hs (by decide), if_pos rfl, ho]
  exact .value o'

end EditorSession.Json
