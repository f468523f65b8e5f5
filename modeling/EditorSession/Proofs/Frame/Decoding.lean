import EditorSession.Frame.Codec
import EditorSession.Proofs.Numeral

/-! What more bytes change. As soon as the front of a buffer can be told to be a frame or to be
flawed, bytes that arrive later do not matter: a header that has no end within the limit will not
get one there, and a header that has its end is read without regard to what follows. -/

namespace EditorSession.Frame

/-- No sum of sizes wraps around. -/
def Limits.Bounded (limits : Limits) : Prop :=
  limits.content.toNat + limits.header.toNat + 4 < 2 ^ 64

instance (limits : Limits) : Decidable limits.Bounded :=
  inferInstanceAs (Decidable (_ < _))

/-- What is told of the front of a buffer, without the wording of a flaw. -/
inductive Verdict where
  | frame (payload : Bytes) (consumed : Nat)
  | incomplete
  | flawed (label : Bytes)
deriving DecidableEq

def Decoded.verdict : Decoded → Verdict
  | .frame payload consumed => .frame payload consumed
  | .incomplete => .incomplete
  | .flawed flaw => .flawed flaw.label

/-! ### Where a header ends -/

/-- A terminator that more bytes have completed starts within the last three bytes. -/
theorem length_lt_of_completed {s more : Bytes} (hn : ¬terminator.isPrefixOf s = true)
    (hp : terminator.isPrefixOf (s ++ more) = true) : s.length < 4 := by
  apply Nat.lt_of_not_le
  intro hl
  have hp := List.isPrefixOf_iff_prefix.mp hp
  exact hn (List.isPrefixOf_iff_prefix.mpr
    (List.prefix_of_prefix_length_le hp (List.prefix_append s more) hl))

theorem headerEnd?_bounds {s : Bytes} {offset n : Nat} (h : headerEnd? s offset = some n) :
    offset ≤ n ∧ n + 4 ≤ offset + s.length := by
  induction s generalizing offset with
  | nil => simp [headerEnd?] at h
  | cons b rest ih =>
    rw [headerEnd?] at h
    split at h
    case isTrue hp =>
      have hl := (List.isPrefixOf_iff_prefix.mp hp).length_le
      have ht : terminator.length = 4 := rfl
      simp only [Option.some.injEq] at h
      omega
    case isFalse =>
      have := ih h
      rw [List.length_cons]
      omega

/-- The end of a header stays where it is. -/
theorem headerEnd?_append {s : Bytes} {offset n : Nat} (h : headerEnd? s offset = some n)
    (more : Bytes) : headerEnd? (s ++ more) offset = some n := by
  induction s generalizing offset with
  | nil => simp [headerEnd?] at h
  | cons b rest ih =>
    rw [headerEnd?] at h
    rw [List.cons_append, headerEnd?, ← List.cons_append]
    split at h
    case isTrue hp =>
      have hp : terminator <+: b :: rest ++ more :=
        (List.isPrefixOf_iff_prefix.mp hp).trans (List.prefix_append _ more)
      rw [if_pos (List.isPrefixOf_iff_prefix.mpr hp)]
      exact h
    case isFalse hp =>
      rw [if_neg]
      · exact ih h
      · intro hm
        have hs := length_lt_of_completed hp hm
        have hb := headerEnd?_bounds h
        rw [List.length_cons] at hs
        omega

/-- A header that ends only with more bytes ends within the last three, or later. -/
theorem headerEnd?_append_of_none {s more : Bytes} {offset n : Nat}
    (hn : headerEnd? s offset = none) (h : headerEnd? (s ++ more) offset = some n) :
    offset + s.length < n + 4 := by
  induction s generalizing offset with
  | nil =>
    have hb := headerEnd?_bounds h
    simp only [List.length_nil]
    omega
  | cons b rest ih =>
    rw [headerEnd?] at hn
    rw [List.cons_append, headerEnd?, ← List.cons_append] at h
    split at hn
    case isTrue => cases hn
    case isFalse hp =>
      split at h
      case isTrue hm =>
        have hs := length_lt_of_completed hp hm
        simp only [Option.some.injEq] at h
        omega
      case isFalse =>
        have := ih hn h
        rw [List.length_cons]
        omega

/-! ### Announced lengths -/

theorem contentLength_le {limits : Limits} {lines : List Bytes} {found : Option UInt64}
    {size : UInt64} (hf : ∀ n, found = some n → n.toNat ≤ limits.content.toNat)
    (h : contentLength limits lines found = .ok size) : size.toNat ≤ limits.content.toNat := by
  induction lines generalizing found with
  | nil =>
    cases found with
    | none => cases h
    | some n =>
      obtain rfl : n = size := by simpa [contentLength] using h
      exact hf n rfl
  | cons line rest ih =>
    rw [contentLength] at h
    split at h
    case h_1 => exact ih hf h
    case h_2 value _ =>
      split at h
      case isTrue =>
        dsimp only at h
        split at h
        case isTrue => cases h
        case isFalse hl =>
          refine ih ?_ h
          rintro n ⟨⟩
          rw [UInt64.toNat_ofNat']
          exact Nat.le_trans (Nat.mod_le _ _) (Nat.le_of_not_lt hl)
      case isFalse => cases h

/-! ### One frame at the front -/

variable {limits : Limits} {s : Bytes}

theorem Limits.Bounded.header_add (h : limits.Bounded) :
    (limits.header + 4).toNat = limits.header.toNat + 4 := by
  unfold Limits.Bounded at h
  rw [UInt64.toNat_add, Nat.mod_eq_of_lt]
  · rfl
  · change limits.header.toNat + 4 < 2 ^ 64
    omega

theorem Limits.Bounded.total (h : limits.Bounded) {n : Nat} {length : UInt64}
    (hn : n ≤ limits.header.toNat) (hl : length.toNat ≤ limits.content.toNat) :
    (UInt64.ofNat (n + 4) + length).toNat = n + 4 + length.toNat := by
  unfold Limits.Bounded at h
  rw [UInt64.toNat_add, UInt64.toNat_ofNat', Nat.mod_add_mod, Nat.mod_eq_of_lt]
  omega

/-- A buffer whose header has ended, in sizes that do not wrap around. -/
theorem decode_of_headerEnd (hl : limits.Bounded) {n : Nat} (he : headerEnd? s 0 = some n) :
    decode limits s =
      if limits.header.toNat < n then .flawed (.headerTooLarge n limits.header)
      else
        match contentLength limits (headerLines (s.take n) []) none with
        | .error flaw => .flawed flaw
        | .ok length =>
          if s.length < n + 4 + length.toNat then .incomplete
          else .frame ((s.drop (n + 4)).take length.toNat) (n + 4 + length.toNat) := by
  rw [decode, he]
  dsimp only
  split
  case isTrue => rfl
  case isFalse hn =>
    cases hc : contentLength limits (headerLines (s.take n) []) none with
    | error flaw => rfl
    | ok length =>
      dsimp only
      rw [hl.total (Nat.le_of_not_lt hn) (contentLength_le (by simp) hc)]

theorem frame_bounds (hl : limits.Bounded) {payload : Bytes} {consumed : Nat}
    (h : decode limits s = .frame payload consumed) : 4 ≤ consumed ∧ consumed ≤ s.length := by
  cases he : headerEnd? s 0 with
  | none =>
    rw [decode, he] at h
    dsimp only at h
    split at h <;> cases h
  | some n =>
    rw [decode_of_headerEnd hl he] at h
    split at h
    case isTrue => cases h
    case isFalse =>
      split at h
      case h_1 => cases h
      case h_2 length _ =>
        split at h
        case isTrue => cases h
        case isFalse =>
          cases h
          omega

/-- Once the front of a buffer is known to be a frame or to be flawed, more bytes do not change
that. -/
theorem decode_stable (hl : limits.Bounded) (h : decode limits s ≠ .incomplete) (more : Bytes) :
    (decode limits (s ++ more)).verdict = (decode limits s).verdict := by
  cases he : headerEnd? s 0 with
  | none =>
    have hs : limits.header.toNat + 4 < s.length := by
      rw [← hl.header_add]
      apply Nat.lt_of_not_le
      intro hle
      apply h
      rw [decode, he]
      exact if_neg (Nat.not_lt.mpr hle)
    have hd : decode limits s = .flawed (.headerUnterminated limits.header) := by
      rw [decode, he]
      exact if_pos (hl.header_add ▸ hs)
    rw [hd]
    cases hm : headerEnd? (s ++ more) 0 with
    | none =>
      have hlen : limits.header.toNat + 4 < (s ++ more).length := by
        rw [List.length_append]
        omega
      rw [decode, hm]
      dsimp only
      rw [if_pos (hl.header_add ▸ hlen)]
    | some n =>
      -- The end that has come is too far behind, which is a flaw of the same kind.
      have hn := headerEnd?_append_of_none he hm
      rw [decode_of_headerEnd hl hm, if_pos (by omega)]
      rfl
  | some n =>
    have hb := headerEnd?_bounds he
    have ht : (s ++ more).take n = s.take n := List.take_append_of_le_length (by omega)
    rw [decode_of_headerEnd hl he] at h ⊢
    rw [decode_of_headerEnd hl (headerEnd?_append he more), ht]
    split
    case isTrue => rfl
    case isFalse hn =>
      rw [if_neg hn] at h
      split
      case h_1 => rfl
      case h_2 length hc =>
        rw [hc] at h
        have hlen : ¬s.length < n + 4 + length.toNat := by simpa using h
        have hlen' : ¬(s ++ more).length < n + 4 + length.toNat := by
          rw [List.length_append]
          omega
        rw [if_neg hlen, if_neg hlen', List.drop_append_of_le_length (by omega),
          List.take_append_of_le_length]
        rw [List.length_drop]
        omega

/-! ### Encoded payloads -/

/-- The header of a payload, without the terminator. -/
def lengthLine (payload : Bytes) : Bytes :=
  ascii "Content-Length: " ++ Bytes.decimal payload.length

theorem encode_eq (payload : Bytes) : encode payload = lengthLine payload ++ terminator ++ payload :=
  rfl

theorem ne_of_mem_lengthLine {payload : Bytes} {b : UInt8} (h : b ∈ lengthLine payload) :
    b ≠ 13 := by
  rintro rfl
  rcases List.mem_append.mp h with h | h
  · exact absurd h (by decide)
  · exact absurd (Bytes.isDigit_of_mem_decimal h) (by decide)

theorem headerEnd?_terminator {line : Bytes} (h : ∀ b ∈ line, b ≠ 13) (rest : Bytes)
    (offset : Nat) : headerEnd? (line ++ terminator ++ rest) offset = some (offset + line.length) := by
  induction line generalizing offset with
  | nil => rfl
  | cons b line ih =>
    have hb : b ≠ 13 := h b List.mem_cons_self
    have hp : ¬terminator.isPrefixOf (b :: (line ++ terminator ++ rest)) = true := by
      intro hp
      obtain ⟨t, ht⟩ := List.isPrefixOf_iff_prefix.mp hp
      exact hb (List.cons.inj ht).1.symm
    rw [List.cons_append, List.cons_append, headerEnd?, if_neg hp,
      ih (fun b hm => h b (List.mem_cons_of_mem _ hm)), List.length_cons]
    congr 1
    omega

/-- Without a carriage return a header is one line. -/
theorem headerLines_of_ne {line : Bytes} (h : ∀ b ∈ line, b ≠ 13) (front : Bytes) :
    headerLines line front = [front.reverse ++ line] := by
  induction line generalizing front with
  | nil => simp [headerLines]
  | cons b line ih =>
    have hb : b ≠ 13 := h b List.mem_cons_self
    rw [headerLines, if_neg (by simp [hb]), ih (fun b hm => h b (List.mem_cons_of_mem _ hm))]
    simp

theorem splitOnce_append {sep : UInt8} {front : Bytes} (h : sep ∉ front) (back : Bytes) :
    Bytes.splitOnce sep (front ++ sep :: back) = some (front, back) := by
  induction front with
  | nil => simp [Bytes.splitOnce]
  | cons b front ih =>
    rw [List.mem_cons, not_or] at h
    obtain ⟨hb, hf⟩ := h
    rw [List.cons_append, Bytes.splitOnce, if_neg (Ne.symm hb), ih hf]
    rfl

theorem isBlank_of_isDigit {b : UInt8} (h : Bytes.isDigit b = true) : Bytes.isBlank b = false := by
  simp only [Bytes.isDigit, Bool.and_eq_true, decide_eq_true_eq, UInt8.le_iff_toNat_le,
    UInt8.reduceToNat] at h
  simp only [Bytes.isBlank, Bool.or_eq_false_iff, beq_eq_false_iff_ne, ne_eq, Bool.and_eq_false_iff,
    decide_eq_false_iff_not, UInt8.le_iff_toNat_le, UInt8.reduceToNat, ← UInt8.toNat_inj]
  omega

theorem trim_decimal (n : Nat) : Bytes.trim (32 :: Bytes.decimal n) = Bytes.decimal n := by
  have hn : ∀ s : Bytes, (∀ b ∈ s, b ∈ Bytes.decimal n) → s.dropWhile Bytes.isBlank = s := by
    intro s hs
    cases s with
    | nil => rfl
    | cons b s =>
      have hb := isBlank_of_isDigit (Bytes.isDigit_of_mem_decimal (hs b List.mem_cons_self))
      simp [hb]
  have h32 : Bytes.isBlank 32 = true := rfl
  rw [Bytes.trim, List.dropWhile_cons, if_pos h32, hn _ (fun _ h => h), hn _ (by simp),
    List.reverse_reverse]

theorem lengthField?_lengthLine (payload : Bytes) :
    lengthField? (lengthLine payload) = some (Bytes.decimal payload.length) := by
  have hs : Bytes.splitOnce 58 (lengthLine payload) =
      some (ascii "Content-Length", 32 :: Bytes.decimal payload.length) :=
    @splitOnce_append 58 (ascii "Content-Length") (by decide) _
  have hname : Bytes.lower (Bytes.trim (ascii "Content-Length")) = ascii "content-length" := by decide
  rw [lengthField?, hs]
  dsimp only
  rw [if_pos hname, trim_decimal]

theorem contentLength_lengthLine {payload : Bytes} (h : payload.length ≤ limits.content.toNat) :
    contentLength limits [lengthLine payload] none = .ok (UInt64.ofNat payload.length) := by
  have hlt := limits.content.toNat_lt_size
  have hmin : min payload.length (UInt64.size - 1) = payload.length := by omega
  simp only [contentLength, lengthField?_lengthLine, Bytes.isNumeral_decimal, ↓reduceIte,
    Bytes.digitsValue_decimal, hmin]
  rw [if_neg (Nat.not_lt.mpr h)]

/-- An encoded payload within the limits is decoded, whatever follows it. -/
theorem decode_encode (hl : limits.Bounded) {payload : Bytes}
    (hh : (lengthLine payload).length ≤ limits.header.toNat)
    (hc : payload.length ≤ limits.content.toNat) (rest : Bytes) :
    decode limits (encode payload ++ rest) = .frame payload (encode payload).length := by
  have he : headerEnd? (encode payload ++ rest) 0 = some (lengthLine payload).length := by
    rw [encode_eq, List.append_assoc]
    simpa using headerEnd?_terminator (fun _ h => ne_of_mem_lengthLine h) (payload ++ rest) 0
  have ht : (encode payload ++ rest).take (lengthLine payload).length = lengthLine payload := by
    rw [encode_eq, List.append_assoc, List.append_assoc, List.take_left]
  have hd : (encode payload ++ rest).drop ((lengthLine payload).length + 4) = payload ++ rest := by
    rw [encode_eq, List.append_assoc (lengthLine payload ++ terminator)]
    exact List.drop_left' (List.length_append ..)
  have hn : (UInt64.ofNat payload.length).toNat = payload.length := by
    have hlt := limits.content.toNat_lt
    rw [UInt64.toNat_ofNat', Nat.mod_eq_of_lt (by omega)]
  have htotal : (encode payload).length = (lengthLine payload).length + 4 + payload.length := by
    simp [encode_eq, terminator, ascii]
    omega
  rw [decode_of_headerEnd hl he, if_neg (Nat.not_lt.mpr hh), ht,
    headerLines_of_ne (fun _ h => ne_of_mem_lengthLine h), List.reverse_nil, List.nil_append,
    contentLength_lengthLine hc]
  dsimp only
  rw [hn, hd, List.take_left, if_neg, htotal]
  rw [List.length_append, htotal]
  omega

/-- The default limit leaves room for the header of any payload. -/
theorem length_lengthLine_le {payload : Bytes} (h : payload.length < 2 ^ 64) :
    (lengthLine payload).length ≤ 36 := by
  have hd : (Bytes.decimal payload.length).length ≤ 20 :=
    Bytes.length_decimal_le (k := 19) (by omega)
  have ha : (ascii "Content-Length: ").length = 16 := by decide
  rw [lengthLine, List.length_append]
  omega

end EditorSession.Frame
