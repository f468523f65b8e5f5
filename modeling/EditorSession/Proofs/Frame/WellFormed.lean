import EditorSession.Proofs.Frame.Header

/-! What is taken for a frame. A well-formed frame at the front of a buffer is found whatever the
limits are. The converse needs that no announced length overruns: lengths are counted in 64 bits, where
a larger number is taken for the largest one and the end of a frame wraps around. Limits whose sum
stays below that let no such length through. -/

namespace EditorSession.Frame

/-- The front of a buffer up to its first terminator, cut into lines and no longer than allowed. -/
structure Head (limits : Limits) (s header rest : Bytes) (lines : List Bytes) : Prop
    extends HeaderOf s header rest where
  size : header.length ≤ limits.header.toNat
  lines : Lines header lines

/-- The last length field among the lines has this value. -/
def Announces (lines : List Bytes) (value : Bytes) : Prop :=
  ∃ earlier line later, lines = earlier ++ line :: later ∧ LengthField line value ∧
    ∀ l ∈ later, ∀ v, ¬LengthField l v

/-- The parts of a well-formed frame. -/
structure FrameParts (limits : Limits) (s payload : Bytes) (consumed : Nat) (header rest : Bytes)
    (lines : List Bytes) : Prop where
  head : Head limits s header (payload ++ rest) lines
  fields : ∀ line ∈ lines, ∀ value, LengthField line value →
    Bytes.isNumeral value = true ∧ Bytes.digitsValue value ≤ limits.content.toNat
  length : ∃ value, Announces lines value ∧ Bytes.digitsValue value = payload.length
  total : consumed = header.length + 4 + payload.length

/-- A well-formed frame with this payload takes up so many bytes at the front of a buffer. -/
def Framed (limits : Limits) (s payload : Bytes) (consumed : Nat) : Prop :=
  ∃ header rest lines, FrameParts limits s payload consumed header rest lines

/-- The size that a value is taken for: a number beyond the sizes is taken for the largest size. -/
def counted (value : Bytes) : Nat := min (Bytes.digitsValue value) (UInt64.size - 1)

/-- Every length field is well formed, and the size it is taken for is within the limit. -/
def LetThrough (limits : Limits) (lines : List Bytes) : Prop :=
  ∀ line ∈ lines, ∀ value, LengthField line value →
    Bytes.isNumeral value = true ∧ counted value ≤ limits.content.toNat

/-- The length fields are let through, but one of them is beyond the sizes, or the frame that the last
one announces ends beyond them. -/
def Overruns (limits : Limits) (s : Bytes) : Prop :=
  ∃ header rest lines, Head limits s header rest lines ∧ LetThrough limits lines ∧
    ((∃ line ∈ lines, ∃ value, LengthField line value ∧ 2 ^ 64 ≤ Bytes.digitsValue value) ∨
      ∃ value, Announces lines value ∧ 2 ^ 64 ≤ header.length + 4 + Bytes.digitsValue value)

variable {limits : Limits} {s header rest payload : Bytes} {lines : List Bytes} {consumed : Nat}

/-! ### Announced lengths -/

theorem mem_lengthFields_iff {value : Bytes} :
    value ∈ lines.filterMap lengthField? ↔ ∃ line ∈ lines, LengthField line value := by
  simp only [List.mem_filterMap, lengthField?_eq_some_iff]

theorem lengthField?_eq_none_iff {line : Bytes} :
    lengthField? line = none ↔ ∀ v, ¬LengthField line v := by
  simp only [Option.eq_none_iff_forall_ne_some, ne_eq, lengthField?_eq_some_iff]

theorem getLast?_lengthFields_iff {value : Bytes} :
    (lines.filterMap lengthField?).getLast? = some value ↔ Announces lines value := by
  constructor
  · intro h
    obtain ⟨values, hv⟩ := List.getLast?_eq_some_iff.mp h
    obtain ⟨front, back, rfl, -, hb⟩ := List.filterMap_eq_append_iff.mp hv
    obtain ⟨between, line, later, rfl, -, hl, hn⟩ := List.filterMap_eq_cons_iff.mp hb
    refine ⟨front ++ between, line, later, by rw [List.append_assoc],
      lengthField?_eq_some_iff.mp hl, fun l hm => lengthField?_eq_none_iff.mp ?_⟩
    exact List.filterMap_eq_nil_iff.mp hn l hm
  · rintro ⟨earlier, line, later, rfl, hl, hn⟩
    have hlater : later.filterMap lengthField? = [] :=
      List.filterMap_eq_nil_iff.mpr fun l hm => lengthField?_eq_none_iff.mpr (hn l hm)
    rw [List.filterMap_append, List.filterMap_cons_some (lengthField?_eq_some_iff.mpr hl), hlater,
      List.getLast?_concat]

/-- A length is found when every length field is well formed and let through; the last one counts. -/
theorem contentLength_eq_ok_iff {found : Option UInt64} {size : UInt64} :
    contentLength limits lines found = .ok size ↔
      (∀ value ∈ lines.filterMap lengthField?,
        Bytes.isNumeral value = true ∧ counted value ≤ limits.content.toNat) ∧
      ((lines.filterMap lengthField?).getLast?.map fun value => UInt64.ofNat (counted value)).or found =
        some size := by
  induction lines generalizing found with
  | nil => cases found <;> simp [contentLength]
  | cons line lines ih =>
    cases hl : lengthField? line with
    | none => rw [contentLength, hl, List.filterMap_cons_none hl, ← ih]
    | some value =>
      rw [contentLength, hl, List.filterMap_cons_some hl, List.forall_mem_cons, List.getLast?_cons]
      dsimp only
      rw [← counted]
      by_cases hn : Bytes.isNumeral value = true
      · by_cases hc : counted value ≤ limits.content.toNat
        · rw [if_pos hn, if_neg (Nat.not_lt.mpr hc), ih]
          cases (lines.filterMap lengthField?).getLast? <;> simp [hn, hc]
        · rw [if_pos hn, if_pos (Nat.lt_of_not_le hc)]
          simp [hc]
      · rw [if_neg hn]
        simp [hn]

/-! ### What is taken -/

/-- What is taken off the front of a buffer. -/
structure Taken (limits : Limits) (s payload : Bytes) (consumed : Nat) (header rest : Bytes)
    (lines : List Bytes) (value : Bytes) : Prop where
  head : Head limits s header rest lines
  fields : LetThrough limits lines
  last : Announces lines value
  content : payload = rest.take (counted value)
  total : consumed = (header.length + 4 + counted value) % 2 ^ 64
  within : consumed ≤ s.length

theorem toNat_counted (value : Bytes) : (UInt64.ofNat (counted value)).toNat = counted value := by
  have hc : counted value ≤ UInt64.size - 1 := Nat.min_le_right _ _
  have hs : UInt64.size = 2 ^ 64 := rfl
  rw [UInt64.toNat_ofNat', Nat.mod_eq_of_lt (by omega)]

theorem toNat_total (n : Nat) (value : Bytes) :
    (UInt64.ofNat n + UInt64.ofNat (counted value)).toNat = (n + counted value) % 2 ^ 64 := by
  rw [UInt64.toNat_add, toNat_counted, UInt64.toNat_ofNat', Nat.mod_add_mod]

theorem Head.decode_eq (h : Head limits s header rest lines) :
    decode limits s =
      match contentLength limits lines none with
      | .error flaw => .flawed flaw
      | .ok length =>
        let total := UInt64.ofNat (header.length + 4) + length
        if s.length < total.toNat then .incomplete
        else .frame (rest.take length.toNat) total.toNat := by
  have he : headerEnd? s 0 = some header.length :=
    headerEnd?_eq_some_iff.mpr ⟨header, rest, rfl, h.toHeaderOf⟩
  rw [decode, he]
  dsimp only
  rw [if_neg (Nat.not_lt.mpr h.size), h.toHeaderOf.take_eq, h.toHeaderOf.drop_eq]
  obtain rfl := lines_iff.mp h.lines
  cases contentLength limits (headerLines header []) none <;> rfl

theorem exists_head (h : decode limits s = .frame payload consumed) :
    ∃ header rest lines, Head limits s header rest lines := by
  cases he : headerEnd? s 0 with
  | none =>
    rw [decode, he] at h
    dsimp only at h
    split at h <;> cases h
  | some n =>
    obtain ⟨header, rest, rfl, hh⟩ := headerEnd?_eq_some_iff.mp he
    by_cases hn : limits.header.toNat < header.length
    · rw [decode, he] at h
      dsimp only at h
      rw [if_pos hn] at h
      cases h
    · exact ⟨header, rest, _, hh, Nat.le_of_not_lt hn, lines_iff.mpr rfl⟩

/-- What is taken, whatever the limits are. -/
theorem decode_eq_frame_iff : decode limits s = .frame payload consumed ↔
    ∃ header rest lines value, Taken limits s payload consumed header rest lines value := by
  constructor
  · intro h
    obtain ⟨header, rest, lines, hh⟩ := exists_head h
    rw [hh.decode_eq] at h
    split at h
    case h_1 => cases h
    case h_2 size hc =>
      obtain ⟨hf, hl⟩ := contentLength_eq_ok_iff.mp hc
      rw [Option.or_none] at hl
      obtain ⟨value, hv, rfl⟩ := Option.map_eq_some_iff.mp hl
      dsimp only at h
      rw [toNat_total, toNat_counted] at h
      split at h
      case isTrue => cases h
      case isFalse hlen =>
        obtain ⟨rfl, rfl⟩ := Decoded.frame.inj h
        exact ⟨header, rest, lines, value, hh,
          fun line hm v hv => hf v (mem_lengthFields_iff.mpr ⟨line, hm, hv⟩),
          getLast?_lengthFields_iff.mp hv, rfl, rfl, Nat.le_of_not_lt hlen⟩
  · rintro ⟨header, rest, lines, value, h⟩
    have hc : contentLength limits lines none = .ok (UInt64.ofNat (counted value)) := by
      refine contentLength_eq_ok_iff.mpr ⟨fun v hv => ?_, ?_⟩
      · obtain ⟨line, hm, hl⟩ := mem_lengthFields_iff.mp hv
        exact h.fields line hm v hl
      · rw [getLast?_lengthFields_iff.mpr h.last]
        rfl
    have hw : ¬s.length < (header.length + 4 + counted value) % 2 ^ 64 :=
      Nat.not_lt.mpr (h.total ▸ h.within)
    rw [h.head.decode_eq, hc]
    dsimp only
    rw [toNat_total, toNat_counted, if_neg hw, ← h.content, ← h.total]

/-! ### Well-formed frames -/

theorem Announces.exists_field {value : Bytes} (h : Announces lines value) :
    ∃ line ∈ lines, LengthField line value := by
  obtain ⟨earlier, line, later, rfl, hl, -⟩ := h
  exact ⟨line, by simp, hl⟩

theorem counted_of_lt {value : Bytes} (h : Bytes.digitsValue value < 2 ^ 64) :
    counted value = Bytes.digitsValue value := by
  have hs : UInt64.size = 2 ^ 64 := rfl
  exact Nat.min_eq_left (by omega)

theorem Framed.bounds (h : Framed limits s payload consumed) : 4 ≤ consumed ∧ consumed ≤ s.length := by
  obtain ⟨header, rest, lines, h⟩ := h
  have hl := h.head.length_eq
  have hc := h.total
  rw [List.length_append] at hl
  omega

/-- A frame that is there is found; the end of it is within the buffer, so that it is a size. -/
theorem Framed.decode_eq (h : Framed limits s payload consumed) (hs : s.length < 2 ^ 64) :
    decode limits s = .frame payload consumed := by
  have hb := h.bounds
  obtain ⟨header, rest, lines, h⟩ := h
  obtain ⟨value, ha, hv⟩ := h.length
  have hlt := limits.content.toNat_lt
  have hcounted : ∀ line ∈ lines, ∀ v, LengthField line v → counted v = Bytes.digitsValue v :=
    fun line hm v hl => counted_of_lt (Nat.lt_of_le_of_lt (h.fields line hm v hl).2 hlt)
  obtain ⟨line, hm, hl⟩ := ha.exists_field
  have hcv : counted value = payload.length := (hcounted line hm value hl).trans hv
  have hc := h.total
  refine decode_eq_frame_iff.mpr ⟨header, payload ++ rest, lines, value, h.head,
    fun line hm v hl => ?_, ha, by rw [hcv, List.take_left], ?_, hb.2⟩
  · rw [hcounted line hm v hl]
    exact h.fields line hm v hl
  · rw [hcv, Nat.mod_eq_of_lt (by omega), hc]

/-- When nothing overruns, what is taken is a frame. -/
theorem Taken.framed {value : Bytes}
    (h : Taken limits s payload consumed header rest lines value) (ho : ¬Overruns limits s) :
    Framed limits s payload consumed := by
  have hcounted : ∀ line ∈ lines, ∀ v, LengthField line v → counted v = Bytes.digitsValue v :=
    fun line hm v hl => counted_of_lt (Nat.lt_of_not_le fun hv =>
      ho ⟨header, rest, lines, h.head, h.fields, .inl ⟨line, hm, v, hl, hv⟩⟩)
  obtain ⟨line, hm, hl⟩ := h.last.exists_field
  have hend : header.length + 4 + counted value < 2 ^ 64 := by
    rw [hcounted line hm value hl]
    exact Nat.lt_of_not_le fun hv =>
      ho ⟨header, rest, lines, h.head, h.fields, .inr ⟨value, h.last, hv⟩⟩
  have hc : consumed = header.length + 4 + counted value := by
    rw [h.total, Nat.mod_eq_of_lt hend]
  have hlen : payload.length = counted value := by
    have hw := h.within
    have hs := h.head.length_eq
    rw [h.content, List.length_take]
    omega
  refine ⟨header, rest.drop (counted value), lines, ?_, fun line hm v hl => ?_,
    ⟨value, h.last, by rw [hlen, hcounted line hm value hl]⟩, by rw [hlen, hc]⟩
  · rw [h.content, List.take_append_drop]
    exact h.head
  · rw [← hcounted line hm v hl]
    exact h.fields line hm v hl

theorem Head.unique {header' rest' : Bytes} {lines' : List Bytes}
    (h : Head limits s header rest lines) (h' : Head limits s header' rest' lines') :
    header = header' ∧ lines = lines' := by
  obtain ⟨rfl, -⟩ := h.toHeaderOf.unique h'.toHeaderOf
  exact ⟨rfl, (lines_iff.mp h.lines).symm.trans (lines_iff.mp h'.lines)⟩

theorem Announces.unique {v w : Bytes} (hv : Announces lines v) (hw : Announces lines w) : v = w :=
  Option.some.inj
    ((getLast?_lengthFields_iff.mpr hv).symm.trans (getLast?_lengthFields_iff.mpr hw))

/-- Where a length overruns there is no frame. -/
theorem Framed.not_overruns (h : Framed limits s payload consumed) (hs : s.length < 2 ^ 64) :
    ¬Overruns limits s := by
  have hb := h.bounds
  obtain ⟨header, rest, lines, h⟩ := h
  rintro ⟨header', rest', lines', hh, -, ho⟩
  obtain ⟨rfl, rfl⟩ := h.head.unique hh
  rcases ho with ⟨line, hm, value, hl, hv⟩ | ⟨value, ha, hv⟩
  · have hc := (h.fields line hm value hl).2
    have hlt := limits.content.toNat_lt
    omega
  · obtain ⟨value', ha', hv'⟩ := h.length
    obtain rfl := ha.unique ha'
    have hc := h.total
    omega

theorem Limits.Bounded.not_overruns (hl : limits.Bounded) (s : Bytes) : ¬Overruns limits s := by
  unfold Limits.Bounded at hl
  rintro ⟨header, rest, lines, hh, hf, ho⟩
  have hsize := hh.size
  have hlt : ∀ line ∈ lines, ∀ value, LengthField line value →
      Bytes.digitsValue value ≤ limits.content.toNat := by
    intro line hm value hv
    have hc := (hf line hm value hv).2
    have hs : UInt64.size = 2 ^ 64 := rfl
    unfold counted at hc
    omega
  rcases ho with ⟨line, hm, value, hv, ho⟩ | ⟨value, ha, ho⟩
  · have hc := hlt line hm value hv
    omega
  · obtain ⟨line, hm, hv⟩ := ha.exists_field
    have hc := hlt line hm value hv
    omega

/-- What is decoded is one well-formed frame. -/
structure DecodesFrames (limits : Limits) (s : Bytes) : Prop where
  /-- A well-formed frame is found, whatever the limits are. -/
  found : ∀ payload consumed, Framed limits s payload consumed →
    decode limits s = .frame payload consumed
  /-- What is found is a well-formed frame, when no length overruns. -/
  sound : ¬Overruns limits s → ∀ payload consumed, decode limits s = .frame payload consumed →
    Framed limits s payload consumed
  progress : ¬Overruns limits s → ∀ payload consumed, decode limits s = .frame payload consumed →
    4 ≤ consumed ∧ consumed ≤ s.length
  /-- Where a length overruns, there is no frame to be found. -/
  overrun : Overruns limits s → ∀ payload consumed, ¬Framed limits s payload consumed
  /-- In any case the payload stands right behind the header, and no more is taken than there is. -/
  within : ∀ payload consumed, decode limits s = .frame payload consumed →
    consumed ≤ s.length ∧ ∃ header rest, HeaderOf s header rest ∧ payload <+: rest
  /-- Where no frame is found, there is no payload and nothing is taken. -/
  nothing : (∀ payload consumed, decode limits s ≠ .frame payload consumed) →
    ∀ most, ∃ flaw, takeAll limits most s = ([], s, flaw)
  /-- Each frame that a loop takes off makes the buffer shorter by four bytes at least. -/
  loop : (∀ n, ¬Overruns limits (s.drop n)) → ∀ most,
    4 * (takeAll limits most s).1.length + (takeAll limits most s).2.1.length ≤ s.length
  /-- Nothing overruns where the largest frame ends within 64 bits. -/
  bounded : limits.Bounded → ∀ n, ¬Overruns limits (s.drop n)

theorem frame_progress (ho : ¬Overruns limits s) (h : decode limits s = .frame payload consumed) :
    4 ≤ consumed ∧ consumed ≤ s.length := by
  obtain ⟨header, rest, lines, value, ht⟩ := decode_eq_frame_iff.mp h
  exact (ht.framed ho).bounds

theorem takeAll_shortens (ho : ∀ n, ¬Overruns limits (s.drop n)) (most : Nat) :
    4 * (takeAll limits most s).1.length + (takeAll limits most s).2.1.length ≤ s.length := by
  induction most generalizing s with
  | zero => simp [takeAll]
  | succ most ih =>
    rw [takeAll]
    cases hd : decode limits s with
    | incomplete => simp
    | flawed flaw => simp
    | frame payload consumed =>
      have hb := frame_progress (by simpa using ho 0) hd
      have hrest := @ih (s.drop consumed) fun n => by
        rw [List.drop_drop]
        exact ho _
      dsimp only
      generalize takeAll limits most (s.drop consumed) = taken at hrest ⊢
      obtain ⟨payloads, rest, flaw⟩ := taken
      rw [List.length_drop] at hrest
      dsimp only at hrest ⊢
      rw [List.length_cons]
      omega

theorem takeAll_nothing (h : ∀ payload consumed, decode limits s ≠ .frame payload consumed)
    (most : Nat) : ∃ flaw, takeAll limits most s = ([], s, flaw) := by
  cases most with
  | zero => exact ⟨none, rfl⟩
  | succ most =>
    rw [takeAll]
    cases hd : decode limits s with
    | incomplete => exact ⟨none, rfl⟩
    | flawed flaw => exact ⟨some flaw, rfl⟩
    | frame payload consumed => exact absurd hd (h payload consumed)

/-- A buffer in memory is no longer than the largest size. -/
theorem decodesFrames (limits : Limits) {s : Bytes} (hs : s.length < 2 ^ 64) :
    DecodesFrames limits s where
  found payload consumed h := h.decode_eq hs
  sound ho payload consumed h := by
    obtain ⟨header, rest, lines, value, ht⟩ := decode_eq_frame_iff.mp h
    exact ht.framed ho
  progress ho payload consumed h := frame_progress ho h
  overrun ho payload consumed h := h.not_overruns hs ho
  within payload consumed h := by
    obtain ⟨header, rest, lines, value, ht⟩ := decode_eq_frame_iff.mp h
    exact ⟨ht.within, header, rest, ht.head.toHeaderOf, ht.content ▸ List.take_prefix _ _⟩
  nothing := takeAll_nothing
  loop := takeAll_shortens
  bounded hl n := hl.not_overruns (s.drop n)

/-- A frame of three bytes with one byte after it, under the default limits. -/
theorem decodesFrames_three :
    (encode [97, 98, 99] ++ [100]).length < 2 ^ 64 ∧
      Framed {} (encode [97, 98, 99] ++ [100]) [97, 98, 99] 24 := by
  have hl : ({} : Limits).Bounded := by decide
  have hs : (encode [97, 98, 99] ++ [100]).length < 2 ^ 64 := by
    simp [encode, ascii, Bytes.decimal]
  have hd : decode {} (encode [97, 98, 99] ++ [100]) = .frame [97, 98, 99] (encode [97, 98, 99]).length :=
    decode_encode hl (by simp [lengthLine, ascii, Bytes.decimal]) (by decide) [100]
  have hn : (encode [97, 98, 99]).length = 24 := by simp [encode, ascii, Bytes.decimal]
  have hf := decodesFrames {} hs
  exact ⟨hs, hf.sound (hf.bounded hl 0) _ _ (hn ▸ hd)⟩

/-- A length that wraps around to the start of the buffer. -/
def wrapping : Bytes := ascii "Content-Length: 18446744073709551576" ++ terminator ++ ascii "abc"

/-- The end of the frame is 2 ^ 64 bytes behind the start, so that nothing is consumed. -/
theorem decode_wrapping :
    decode { content := 18446744073709551615 } wrapping = .frame (ascii "abc") 0 ∧
      ¬∃ payload consumed, Framed { content := 18446744073709551615 } wrapping payload consumed := by
  have hne : ∀ b ∈ ascii "Content-Length: 18446744073709551576", b ≠ 13 := by decide +kernel
  have hl : (ascii "Content-Length: 18446744073709551576").length = 36 := by decide
  have he : headerEnd? wrapping 0 = some 36 := by
    rw [wrapping, headerEnd?_terminator hne, hl]
  have hd : decode { content := 18446744073709551615 } wrapping = .frame (ascii "abc") 0 := by
    have ht : wrapping.take 36 = ascii "Content-Length: 18446744073709551576" := by
      rw [wrapping, List.append_assoc]
      exact List.take_left' hl
    rw [decode, he]
    dsimp only
    rw [ht, headerLines_of_ne hne]
    decide
  refine ⟨hd, ?_⟩
  rintro ⟨payload, consumed, h⟩
  have hb := h.bounds
  rw [h.decode_eq (by decide)] at hd
  obtain ⟨-, rfl⟩ := Decoded.frame.inj hd
  exact absurd hb.1 (by decide)

end EditorSession.Frame
