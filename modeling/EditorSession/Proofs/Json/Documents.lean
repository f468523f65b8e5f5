import EditorSession.Proofs.Json.Containers

/-! Values and whole texts. The first bytes of a value tell which reader it is for. Main statement: a
text is read exactly if it is in the grammar, with the value the grammar gives it, and the offset of a
flaw lies within the text. -/

namespace EditorSession.Json

open Grammar

variable {L L' : Denotation Json} {r r' : Reader Json} {nested : Option (Reader Json)}

theorem space_nil : Space [] := by simp [Space]

theorem ascii_true : ascii "true" = [116, 114, 117, 101] := by decide

theorem ascii_false : ascii "false" = [102, 97, 108, 115, 101] := by decide

theorem ascii_null : ascii "null" = [110, 117, 108, 108] := by decide

/-! ### Readers for the first bytes -/

def word (w : Bytes) (v : Json) (r : Reader Json) : Reader Json := fun c =>
  if w.isPrefixOf c.rest then .ok (v, c.advance w.length) else r c

theorem Reads.word (w : Bytes) (v : Json) (h : Reads r L) :
    Reads (word w v r) fun t x => (t = w ∧ x = v) ∨ L t x where
  ok {c} x c' hr := by
    unfold Json.word at hr
    split at hr
    case isTrue hw =>
      cases hr
      obtain ⟨u, hu⟩ := List.isPrefixOf_iff_prefix.mp hw
      exact ⟨w, Cursor.past_advance hu.symm, .inl ⟨rfl, rfl⟩⟩
    case isFalse =>
      obtain ⟨t, hp, ht⟩ := h.ok hr
      exact ⟨t, hp, .inr ht⟩
  error {c} e hr := by
    unfold Json.word at hr
    split at hr
    case isTrue => cases hr
    case isFalse => exact h.error hr

theorem Reads.ite {p : Cursor → Prop} [DecidablePred p] (h : Reads r L) (h' : Reads r' L') :
    Reads (fun c => if p c then r c else r' c) fun t v => L t v ∨ L' t v where
  ok {c} v c' hr := by
    split at hr
    case isTrue =>
      obtain ⟨t, hp, ht⟩ := h.ok hr
      exact ⟨t, hp, .inl ht⟩
    case isFalse =>
      obtain ⟨t, hp, ht⟩ := h'.ok hr
      exact ⟨t, hp, .inr ht⟩
  error {c} e hr := by
    split at hr
    case isTrue => exact h.error hr
    case isFalse => exact h'.error hr

/-- Reads the inside of a container, if one may open here. -/
def opened (nested : Option (Reader Json)) (body : Reader Json → Reader Json) : Reader Json :=
  match nested with
  | none => fun c => c.fail .nestingTooDeep
  | some r => body r

/-- Reads a value without space in front. -/
def token (nested : Option (Reader Json)) : Reader Json := fun c =>
  if c.rest = [] then c.fail .unexpectedEnd
  else if c.rest.head? = some 34 then andThen string (fun s c => .ok (.text s, c)) c
  else behind 123 (opened nested objectBody) (behind 91 (opened nested arrayBody)
    (word (ascii "true") (.bool true) (word (ascii "false") (.bool false)
      (word (ascii "null") .null number)))) c

theorem valueWith_eq (nested : Option (Reader Json)) :
    valueWith nested = fun c => token nested c.skipSpace := by
  funext c
  simp only [valueWith, token]
  generalize c.skipSpace = c
  obtain ⟨rest, o⟩ := c
  cases rest with
  | nil => rfl
  | cons b rest =>
    by_cases hq : b = 34
    · simp [hq, andThen]
    · by_cases hb : b = 123
      · cases nested <;> simp [hb, behind, opened]
      · by_cases ha : b = 91
        · cases nested <;> simp [ha, behind, opened]
        · simp [hq, hb, ha, behind, word, ascii_true, ascii_false, ascii_null]

theorem reads_opened {body : Reader Json → Reader Json} (h : ∀ r ∈ nested, Reads r (Led L)) {b : UInt8}
    (hb : ∀ {r}, Reads r (Led L) → Reads (body r) fun t v => Container L (b :: t) v) :
    Reads (opened nested body) fun t v => nested.isSome ∧ Container L (b :: t) v := by
  cases nested with
  | none => exact (Reads.fail .nestingTooDeep).mono fun _ _ h => h.elim
  | some r => exact (hb (h r rfl)).mono fun _ _ h => ⟨rfl, h⟩

theorem reads_token (h : ∀ r ∈ nested, Reads r (Led L)) :
    Reads (token nested) (Led fun t v => Scalar t v ∨ nested.isSome ∧ Container L t v) := by
  have hs : ∀ {t v}, (Scalar t v ∨ nested.isSome ∧ Container L t v) →
      Led (fun t v => Scalar t v ∨ nested.isSome ∧ Container L t v) t v :=
    fun h => ⟨[], _, space_nil, rfl, h⟩
  refine (Reads.ite (p := fun c => c.rest = []) (.fail .unexpectedEnd)
    (.ite (p := fun c => c.rest.head? = some 34) (reads_string.andThen fun s => .pure (.text s))
    (.behind 123 (reads_opened h reads_objectBody) (.behind 91 (reads_opened h reads_arrayBody)
      (.word _ _ (.word _ _ (.word _ _ reads_number))))))).mono ?_
  rintro t v (h | ⟨_, s, _, rfl, ⟨a, u, ha, rfl, hu⟩, rfl, rfl⟩ | ⟨u, rfl, h⟩ | ⟨u, rfl, h⟩ |
    ⟨rfl, rfl⟩ | ⟨rfl, rfl⟩ | ⟨rfl, rfl⟩ | h)
  · exact h.elim
  · exact ⟨a, u, ha, by simp, .inl (.text hu)⟩
  · exact hs (.inr h)
  · exact hs (.inr h)
  · exact hs (.inl .true)
  · exact hs (.inl .false)
  · exact hs (.inl .null)
  · exact hs (.inl (.number h))

theorem Led.flatten {t : Bytes} {v : Json} (h : Led (Led L) t v) : Led L t v := by
  obtain ⟨a, _, ha, rfl, b, u, hb, rfl, hu⟩ := h
  exact ⟨a ++ b, u, fun x hx => (List.mem_append.mp hx).elim (ha x) (hb x), by simp, hu⟩

/-- What is read as a value is one, nested no deeper than allowed. -/
theorem reads_value (depth : Nat) : Reads (value depth) (Led (Value depth)) := by
  induction depth with
  | zero =>
    rw [value, valueWith_eq]
    refine (reads_token (L := Scalar) (by simp)).skip.mono fun t v h => ?_
    obtain ⟨a, u, ha, rfl, hu⟩ := h.flatten
    exact ⟨a, u, ha, rfl, hu.elim id fun h => by cases h.1⟩
  | succ depth ih =>
    rw [value, valueWith_eq]
    refine (reads_token (L := Value depth) (by simpa using ih)).skip.mono fun t v h => ?_
    obtain ⟨a, u, ha, rfl, hu⟩ := h.flatten
    exact ⟨a, u, ha, rfl, hu.imp_right And.right⟩

/-! ### Completeness -/

/-- A number starts with a digit or a minus sign. -/
theorem number_head {t : Bytes} {v : Json} (h : Number t v) :
    ∃ b u, t = b :: u ∧ ∀ x, x ≠ 45 → Bytes.isDigit x = false → b ≠ x := by
  obtain ⟨n, rfl, -⟩ := number_iff.mp h
  cases hn : n.negative with
  | true =>
    refine ⟨45, _, by simp [Numeral.text, hn]; rfl, fun x hx _ => Ne.symm hx⟩
  | false =>
    obtain ⟨b, u, hb⟩ := List.exists_cons_of_ne_nil (List.isEmpty_eq_false_iff.mp n.whole.isEmpty)
    have hd := n.whole.all b (by simp [hb])
    refine ⟨b, _, by simp [Numeral.text, hn, hb]; rfl, ?_⟩
    rintro x - hx rfl
    simp [hd] at hx

theorem begins_scalar : Begins Scalar := by
  intro t v h
  cases h with
  | null => exact ⟨110, [117, 108, 108], by decide, by decide, by decide⟩
  | true => exact ⟨116, [114, 117, 101], by decide, by decide, by decide⟩
  | false => exact ⟨102, [97, 108, 115, 101], by decide, by decide, by decide⟩
  | text h =>
    cases h
    exact ⟨34, _, rfl, by decide, by decide⟩
  | number h =>
    obtain ⟨b, u, rfl, hb⟩ := number_head h
    refine ⟨b, u, rfl, ?_, hb 93 (by decide) (by decide)⟩
    rw [← Bool.not_eq_true, Cursor.isSpace_iff]
    simp [hb 32 (by decide) (by decide), hb 9 (by decide) (by decide), hb 13 (by decide) (by decide),
      hb 10 (by decide) (by decide)]

theorem begins_value (depth : Nat) : Begins (Value depth) := by
  intro t v h
  cases depth with
  | zero => exact begins_scalar h
  | succ depth =>
    rcases h with h | h
    · exact begins_scalar h
    · cases h with
      | emptyArray => exact ⟨91, _, rfl, by decide, by decide⟩
      | array => exact ⟨91, _, rfl, by decide, by decide⟩
      | emptyObject => exact ⟨123, _, rfl, by decide, by decide⟩
      | object => exact ⟨123, _, rfl, by decide, by decide⟩

theorem token_scalar {deep : Prop} {t rest : Bytes} {v : Json} (h : Scalar t v) (hr : Ends rest)
    (o : Nat) : Delivers deep v rest (token nested ⟨t ++ rest, o⟩) := by
  cases h with
  | null =>
    have hw : token nested ⟨ascii "null" ++ rest, o⟩ = .ok (.null, ⟨rest, o + 4⟩) := by
      simp [token, behind, word, ascii_true, ascii_false, ascii_null, Cursor.advance]
    exact hw ▸ .value _
  | true =>
    have hw : token nested ⟨ascii "true" ++ rest, o⟩ = .ok (.bool true, ⟨rest, o + 4⟩) := by
      simp [token, behind, word, ascii_true, Cursor.advance]
    exact hw ▸ .value _
  | false =>
    have hw : token nested ⟨ascii "false" ++ rest, o⟩ = .ok (.bool false, ⟨rest, o + 5⟩) := by
      simp [token, behind, word, ascii_true, ascii_false, Cursor.advance]
    exact hw ▸ .value _
  | @text t s h =>
    have hw : token nested ⟨t ++ rest, o⟩ =
        andThen string (fun s c => .ok (.text s, c)) ⟨t ++ rest, o⟩ := by
      cases h
      simp [token]
    rw [hw]
    exact (string_delivers space_nil h o).andThen fun o => .value o
  | number h =>
    have hn : token nested ⟨t ++ rest, o⟩ = number ⟨t ++ rest, o⟩ := by
      obtain ⟨b, u, rfl, hb⟩ := number_head h
      simp [token, behind, word, ascii_true, ascii_false, ascii_null,
        hb 34 (by decide) (by decide), hb 123 (by decide) (by decide), hb 91 (by decide) (by decide),
        Ne.symm (hb 116 (by decide) (by decide)), Ne.symm (hb 102 (by decide) (by decide)),
        Ne.symm (hb 110 (by decide) (by decide))]
    rw [hn]
    exact number_delivers h hr o

theorem token_array (r : Reader Json) (rest : Bytes) (o : Nat) :
    token (some r) ⟨91 :: rest, o⟩ = arrayBody r ⟨rest, o + 1⟩ := by
  simp [token, behind, opened, Cursor.advance]

theorem token_object (r : Reader Json) (rest : Bytes) (o : Nat) :
    token (some r) ⟨123 :: rest, o⟩ = objectBody r ⟨rest, o + 1⟩ := by
  simp [token, behind, opened, Cursor.advance]

theorem token_container {deep : Prop} (h : Completes deep r L) (hL : Begins L) {t rest : Bytes}
    {v : Json} (hc : Container L t v) (o : Nat) :
    Delivers deep v rest (token (some r) ⟨t ++ rest, o⟩) := by
  cases hc with
  | emptyArray hs =>
    simp only [List.cons_append, List.append_assoc, List.nil_append, token_array]
    exact emptyArray_delivers hs rest _
  | array hr =>
    simp only [List.cons_append, List.append_assoc, List.nil_append, token_array]
    exact arrayBody_delivers h hL hr rest _
  | emptyObject hs =>
    simp only [List.cons_append, List.append_assoc, List.nil_append, token_object]
    exact emptyObject_delivers hs rest _
  | object hr hs =>
    simp only [List.cons_append, List.append_assoc, List.nil_append, token_object, hs.eq_ofPairs]
    exact objectBody_delivers h hr rest _

theorem token_tooDeep {t rest : Bytes} {v : Json} (hc : Container L t v) (o : Nat) :
    token none ⟨t ++ rest, o⟩ = .error ⟨o + 1, .nestingTooDeep⟩ := by
  cases hc <;> simp [token, behind, opened, Cursor.advance, Cursor.fail]

theorem Delivers.mono {α : Type} {deep deep' : Prop} {v : α} {rest : Bytes}
    {x : Except ParseError (α × Cursor)} (h : Delivers deep v rest x) (hd : deep → deep') :
    Delivers deep' v rest x := by
  cases h with
  | value o => exact .value o
  | tooDeep h o => exact .tooDeep (hd h) o

theorem valueWith_append {k : Nat} {s t : Bytes} {v : Json} (hs : Space s) (h : Value k t v)
    (rest : Bytes) (o : Nat) :
    valueWith nested ⟨s ++ (t ++ rest), o⟩ = token nested ⟨t ++ rest, o + s.length⟩ := by
  obtain ⟨b, u, rfl, hb, -⟩ := begins_value k h
  simp only [valueWith_eq]
  rw [Cursor.skipSpace_append hs (by simpa using hb)]

/-- A value of the grammar is read, unless it is nested deeper than is allowed here. -/
theorem value_completes (k d : Nat) : Completes (d < k) (value d) (Value k) := by
  induction k generalizing d with
  | zero =>
    intro s t rest v hs h hr o
    cases d with
    | zero =>
      rw [value, valueWith_append hs h]
      exact token_scalar h hr _
    | succ d =>
      rw [value, valueWith_append hs h]
      exact token_scalar h hr _
  | succ k ih =>
    intro s t rest v hs h hr o
    cases d with
    | zero =>
      rw [value, valueWith_append hs h]
      rcases h with h | h
      · exact token_scalar h hr _
      · rw [token_tooDeep h]
        exact .tooDeep (Nat.succ_pos k) _
    | succ d =>
      rw [value, valueWith_append hs h]
      rcases h with h | h
      · exact token_scalar h hr _
      · exact (token_container (ih d) (begins_value k) h _).mono Nat.succ_lt_succ

/-! ### Whole texts -/

theorem parse_ok {s : Bytes} {v : Json} (h : parse s = .ok v) : Document s v := by
  unfold parse at h
  cases hv : value maxDepth ⟨s, 0⟩ with
  | error e =>
    rw [hv] at h
    cases h
  | ok p =>
    obtain ⟨w, c⟩ := p
    simp only [hv, bind, Except.bind] at h
    split at h
    case isFalse => cases h
    case isTrue he =>
      cases h
      obtain ⟨t, hp, b, u, hb, rfl, hu⟩ := (reads_value maxDepth).ok hv
      obtain ⟨a, ha, hp'⟩ := c.past_skipSpace
      have hs : s = b ++ u ++ a ++ c.skipSpace.rest := (hp.trans hp').rest
      rw [List.isEmpty_iff.mp he, List.append_nil] at hs
      rw [hs]
      exact .mk hb hu ha

theorem parse_error {s : Bytes} {e : ParseError} (h : parse s = .error e) : e.offset ≤ s.length := by
  unfold parse at h
  have hl : Cursor.limit ⟨s, 0⟩ = s.length := Nat.zero_add _
  cases hv : value maxDepth ⟨s, 0⟩ with
  | error e =>
    rw [hv] at h
    cases h
    exact hl ▸ (reads_value maxDepth).error hv
  | ok p =>
    obtain ⟨w, c⟩ := p
    simp only [hv, bind, Except.bind] at h
    split at h
    case isTrue => cases h
    case isFalse =>
      cases h
      obtain ⟨t, hp, -⟩ := (reads_value maxDepth).ok hv
      obtain ⟨a, -, hp'⟩ := c.past_skipSpace
      rw [← hl, ← (hp.trans hp').limit_eq]
      exact Cursor.offset_le_limit _

/-- Whatever the nesting, a text of the grammar fails at nothing else. -/
theorem parse_delivers {k : Nat} {s : Bytes} {v : Json} (h : Padded (Value k) s v) :
    parse s = .ok v ∨ maxDepth < k ∧ ∃ o, parse s = .error ⟨o, .nestingTooDeep⟩ := by
  obtain ⟨a, ha, hd⟩ := (value_completes k maxDepth).padded h
  have hv := hd ends_nil 0
  simp only [List.append_nil] at hv
  unfold parse
  generalize value maxDepth ⟨s, 0⟩ = x at hv
  cases hv with
  | value o =>
    left
    simp only [bind, Except.bind, Cursor.skipSpace_all ha]
    rfl
  | tooDeep hk o => exact .inr ⟨hk, o, rfl⟩

theorem parse_document {s : Bytes} {v : Json} (h : Document s v) : parse s = .ok v := by
  rcases parse_delivers h with h | h
  · exact h
  · exact absurd h.1 (Nat.lt_irrefl 512)

/-- The texts that are read are those of the grammar, each with the value it denotes there; any other is
refused with an offset that lies within it. -/
theorem parse_document_iff (s : Bytes) :
    (∀ v, parse s = .ok v ↔ Document s v) ∧ ∀ e, parse s = .error e → e.offset ≤ s.length :=
  ⟨fun _ => ⟨parse_ok, parse_document⟩, fun _ => parse_error⟩

end EditorSession.Json
