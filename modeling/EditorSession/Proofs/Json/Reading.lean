import EditorSession.Json.Parser
import EditorSession.Proofs.Json.Grammar

/-! Readers against the grammar. A reader is sound when whatever it takes off the text in front of it
denotes what it gives out, and when it fails at no place beyond the end of the text. That it is
complete is told for one result at a time: the value comes out, with everything after its text still
to be read. -/

namespace EditorSession.Json

open Grammar

/-! ### Cursors -/

namespace Cursor

variable {c c' c'' : Cursor} {s t u rest : Bytes} {b : UInt8}

/-- Reading `t` leads from `c` to `c'`. -/
structure Past (c : Cursor) (t : Bytes) (c' : Cursor) : Prop where
  rest : c.rest = t ++ c'.rest
  offset : c'.offset = c.offset + t.length

/-- The offset at which the text ends. -/
def limit (c : Cursor) : Nat := c.offset + c.rest.length

theorem Past.refl (c : Cursor) : c.Past [] c := ⟨rfl, rfl⟩

theorem Past.trans (h : c.Past t c') (h' : c'.Past u c'') : c.Past (t ++ u) c'' where
  rest := by rw [h.rest, h'.rest, List.append_assoc]
  offset := by rw [h'.offset, h.offset, List.length_append, Nat.add_assoc]

theorem Past.limit_eq (h : c.Past t c') : c'.limit = c.limit := by
  rw [limit, limit, h.rest, h.offset, List.length_append, Nat.add_assoc]

theorem offset_le_limit (c : Cursor) : c.offset ≤ c.limit := Nat.le_add_right _ _

theorem past_advance (h : c.rest = t ++ u) : c.Past t (c.advance t.length) where
  rest := by rw [advance, h, List.drop_left]
  offset := rfl

theorem past_advance_one (h : c.rest.head? = some b) : c.Past [b] (c.advance 1) := by
  obtain ⟨u, hu⟩ := List.head?_eq_some_iff.mp h
  exact past_advance (t := [b]) hu

theorem isSpace_iff : isSpace b = true ↔ b = 32 ∨ b = 9 ∨ b = 13 ∨ b = 10 := by
  simp [isSpace, or_assoc]

theorem past_skipSpace (c : Cursor) : ∃ s, Space s ∧ c.Past s c.skipSpace := by
  refine ⟨c.rest.takeWhile isSpace, fun b hb => ?_,
    past_advance (List.takeWhile_append_dropWhile).symm⟩
  exact isSpace_iff.mp (List.all_eq_true.mp List.all_takeWhile b hb)

theorem past_accept? (h : c.accept? b = some c') : ∃ s, Space s ∧ c.Past (s ++ [b]) c' := by
  obtain ⟨s, hs, hp⟩ := past_skipSpace c
  simp only [accept?, Option.ite_none_right_eq_some, Option.some.injEq] at h
  obtain ⟨hb, rfl⟩ := h
  exact ⟨s, hs, hp.trans (past_advance_one hb)⟩

theorem past_digits (c : Cursor) :
    c.Past c.digits.1 c.digits.2 ∧ ∀ b ∈ c.digits.1, Bytes.isDigit b = true :=
  ⟨past_advance (List.takeWhile_append_dropWhile).symm, List.all_eq_true.mp List.all_takeWhile⟩

/-! A run ends where the first byte after it is of another kind. -/

theorem takeWhile_run {p : UInt8 → Bool} (ht : ∀ b ∈ t, p b = true)
    (hr : ∀ b ∈ rest.head?, p b = false) : (t ++ rest).takeWhile p = t := by
  rw [List.takeWhile_append_of_pos ht]
  cases rest with
  | nil => simp
  | cons b rest => simp [hr b rfl]

theorem skipSpace_append (hs : Space s) (hr : ∀ b ∈ rest.head?, isSpace b = false) (o : Nat) :
    skipSpace ⟨s ++ rest, o⟩ = ⟨rest, o + s.length⟩ := by
  rw [skipSpace, takeWhile_run (fun b hb => isSpace_iff.mpr (hs b hb)) hr, advance, List.drop_left]

theorem skipSpace_all (hs : Space s) (o : Nat) : skipSpace ⟨s, o⟩ = ⟨[], o + s.length⟩ := by
  have hr := @skipSpace_append s [] hs (by simp) o
  rwa [List.append_nil] at hr

theorem accept?_append (hs : Space s) (hb : isSpace b = false) (x : UInt8) (o : Nat) :
    accept? ⟨s ++ b :: rest, o⟩ x = if b = x then some ⟨rest, o + s.length + 1⟩ else none := by
  rw [accept?, skipSpace_append hs (by simpa using hb)]
  simp [advance]

theorem digits_append (ht : ∀ b ∈ t, Bytes.isDigit b = true)
    (hr : ∀ b ∈ rest.head?, Bytes.isDigit b = false) (o : Nat) :
    digits ⟨t ++ rest, o⟩ = (t, ⟨rest, o + t.length⟩) := by
  rw [digits, takeWhile_run ht hr, advance, List.drop_left]

end Cursor

/-! ### Readers put together -/

section

variable {α β : Type}

def andThen (r : Reader α) (next : α → Reader β) : Reader β := fun c => do
  let (v, c) ← r c
  next v c

/-- Goes on as `r` behind the given byte, and as `r'` where that does not come next. -/
def choose (b : UInt8) (r r' : Reader α) : Reader α := fun c =>
  match c.accept? b with
  | some c => r c
  | none => r' c

theorem choose_append {s rest : Bytes} {b : UInt8} (hs : Space s) (hb : Cursor.isSpace b = false)
    (x : UInt8) (r r' : Reader α) (o : Nat) :
    choose x r r' ⟨s ++ b :: rest, o⟩ =
      if b = x then r ⟨rest, o + s.length + 1⟩ else r' ⟨s ++ b :: rest, o⟩ := by
  rw [choose, Cursor.accept?_append hs hb]
  by_cases h : b = x <;> simp [h]

end

/-! ### Sound readers -/

/-- Space in front. -/
def Led {α : Type} (inner : Denotation α) : Denotation α :=
  fun t v => ∃ s u, Space s ∧ t = s ++ u ∧ inner u v

structure Reads {α : Type} (r : Reader α) (L : Denotation α) : Prop where
  ok : ∀ {c v c'}, r c = .ok (v, c') → ∃ t, c.Past t c' ∧ L t v
  error : ∀ {c e}, r c = .error e → e.offset ≤ c.limit

namespace Reads

variable {α β : Type} {r r' : Reader α} {L L' : Denotation α}

theorem mono (h : Reads r L) (hl : ∀ t v, L t v → L' t v) : Reads r L' where
  ok hr := by
    obtain ⟨t, hp, ht⟩ := h.ok hr
    exact ⟨t, hp, hl t _ ht⟩
  error := h.error

theorem pure (v : α) : Reads (fun c => .ok (v, c)) fun t w => t = [] ∧ w = v where
  ok h := by
    cases h
    exact ⟨[], .refl _, rfl, rfl⟩
  error h := by cases h

theorem fail (flaw : Flaw) : Reads (fun c => c.fail flaw : Reader α) fun _ _ => False where
  ok h := by cases h
  error h := by
    cases h
    exact Cursor.offset_le_limit _

theorem skip (h : Reads r L) : Reads (fun c => r c.skipSpace) (Led L) where
  ok {c} _ _ hr := by
    obtain ⟨s, hs, hp⟩ := c.past_skipSpace
    obtain ⟨u, hp', hu⟩ := h.ok hr
    exact ⟨s ++ u, hp.trans hp', s, u, hs, rfl, hu⟩
  error {c} _ hr := by
    obtain ⟨s, hs, hp⟩ := c.past_skipSpace
    exact hp.limit_eq ▸ h.error hr

theorem skip_fail (flaw : Flaw) : Reads (fun c => c.skipSpace.fail flaw : Reader α) fun _ _ => False :=
  (skip (fail flaw)).mono fun _ _ ⟨_, _, _, _, h⟩ => h

theorem andThen {next : α → Reader β} {M : α → Denotation β} (h : Reads r L)
    (hn : ∀ v, Reads (next v) (M v)) :
    Reads (andThen r next) fun t w => ∃ s v u, t = s ++ u ∧ L s v ∧ M v u w where
  ok {c} w c' hr := by
    cases hc : r c with
    | error e =>
      rw [Json.andThen, hc] at hr
      cases hr
    | ok p =>
      rw [Json.andThen, hc] at hr
      obtain ⟨s, hp, hs⟩ := h.ok hc
      obtain ⟨u, hp', hu⟩ := (hn p.1).ok hr
      exact ⟨s ++ u, hp.trans hp', s, p.1, u, rfl, hs, hu⟩
  error {c} e hr := by
    cases hc : r c with
    | error e' =>
      rw [Json.andThen, hc] at hr
      cases hr
      exact h.error hc
    | ok p =>
      rw [Json.andThen, hc] at hr
      obtain ⟨s, hp, hs⟩ := h.ok hc
      exact hp.limit_eq ▸ (hn p.1).error hr

theorem choose (b : UInt8) (h : Reads r L) (h' : Reads r' L') :
    Reads (choose b r r') fun t v => (∃ s u, Space s ∧ t = s ++ b :: u ∧ L u v) ∨ L' t v where
  ok {c} v c' hr := by
    unfold Json.choose at hr
    split at hr
    next ha =>
      obtain ⟨s, hs, hp⟩ := Cursor.past_accept? ha
      obtain ⟨u, hp', hu⟩ := h.ok hr
      exact ⟨s ++ [b] ++ u, hp.trans hp', .inl ⟨s, u, hs, by simp, hu⟩⟩
    next =>
      obtain ⟨t, hp, ht⟩ := h'.ok hr
      exact ⟨t, hp, .inr ht⟩
  error {c} e hr := by
    unfold Json.choose at hr
    split at hr
    next ha =>
      obtain ⟨s, hs, hp⟩ := Cursor.past_accept? ha
      exact hp.limit_eq ▸ h.error hr
    next => exact h'.error hr

end Reads

/-! ### Complete readers -/

/-- The value came out in front of `rest`, or the reading was given up at containers nested too deep,
which happens only if `deep` holds. -/
inductive Delivers {α : Type} (deep : Prop) (v : α) (rest : Bytes) :
    Except ParseError (α × Cursor) → Prop
  | value (o : Nat) : Delivers deep v rest (.ok (v, ⟨rest, o⟩))
  | tooDeep (h : deep) (o : Nat) : Delivers deep v rest (.error ⟨o, .nestingTooDeep⟩)

theorem Delivers.andThen {α β : Type} {deep : Prop} {v : α} {w : β} {rest rest' : Bytes} {c : Cursor}
    {r : Reader α} {next : α → Reader β} (h : Delivers deep v rest (r c))
    (hn : ∀ o, Delivers deep w rest' (next v ⟨rest, o⟩)) :
    Delivers deep w rest' (andThen r next c) := by
  unfold Json.andThen
  cases hc : r c with
  | error e =>
    rw [hc] at h
    cases h with
    | tooDeep hd o => exact .tooDeep hd o
  | ok p =>
    rw [hc] at h
    cases h with
    | value o => exact hn o

end EditorSession.Json
