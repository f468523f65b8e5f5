import EditorSession.Proofs.Json.Strings
import EditorSession.Proofs.Json.Numbers

/-! Arrays and objects. Whatever reads the values inside, a container is read by turns: an entry, and
then the closing bracket or a comma. A row of entries has one comma less than entries, so the length of
the text is enough turns for it. -/

namespace EditorSession.Json

open Grammar

variable {L : Denotation Json} {r : Reader Json}

/-! ### What is read -/

theorem itemsFrom_succ (r : Reader Json) (fuel : Nat) (done : List Json) :
    itemsFrom r (fuel + 1) done = andThen r fun v =>
      choose 93 (fun c => .ok (.array (v :: done).reverse, c))
        (choose 44 (itemsFrom r fuel (v :: done)) fun c => c.skipSpace.fail .expectedArrayComma) := by
  funext c
  rw [itemsFrom, andThen]
  refine bind_congr ?_
  rintro ⟨v, c⟩
  cases hc : c.accept? 93 with
  | some c => simp only [choose, hc]
  | none => cases hn : c.accept? 44 <;> simp only [choose, hc, hn]

theorem membersFrom_succ (r : Reader Json) (fuel : Nat) (done : List (Bytes × Json)) :
    membersFrom r (fuel + 1) done = andThen string fun k =>
      choose 58
        (andThen r fun v =>
          choose 125 (fun c => .ok (.object (Table.set k v done), c))
            (choose 44 (membersFrom r fuel (Table.set k v done)) fun c =>
              c.skipSpace.fail .expectedObjectComma))
        fun c => c.skipSpace.fail .expectedColon := by
  funext c
  rw [membersFrom, andThen]
  refine bind_congr ?_
  rintro ⟨k, c⟩
  cases hk : c.accept? 58 with
  | none => simp only [choose, hk]
  | some c =>
    simp only [choose, hk]
    refine bind_congr ?_
    rintro ⟨v, c⟩
    cases hc : c.accept? 125 with
    | some c => simp only [choose, hc]
    | none => cases hn : c.accept? 44 <;> simp only [choose, hc, hn]

theorem arrayBody_eq (r : Reader Json) :
    arrayBody r = choose 93 (fun c => .ok (.array [], c)) fun c =>
      itemsFrom r (c.rest.length + 1) [] c := by
  funext c
  unfold arrayBody choose
  cases c.accept? 93 <;> rfl

theorem objectBody_eq (r : Reader Json) :
    objectBody r = choose 125 (fun c => .ok (.object [], c)) fun c =>
      membersFrom r (c.rest.length + 1) [] c := by
  funext c
  unfold objectBody choose
  cases c.accept? 125 <;> rfl

theorem reads_itemsFrom (h : Reads r (Led L)) (fuel : Nat) (done : List Json) :
    Reads (itemsFrom r fuel done) fun t v =>
      ∃ u vs, t = u ++ [93] ∧ Row (Padded L) u vs ∧ v = .array (done.reverse ++ vs) := by
  induction fuel generalizing done with
  | zero => exact (Reads.fail .unexpectedEnd).mono fun _ _ h => h.elim
  | succ fuel ih =>
    rw [itemsFrom_succ]
    refine (h.andThen fun v => .choose 93 (.pure _) (.choose 44 (ih _) (.skip_fail _))).mono ?_
    rintro t x ⟨_, v, _, rfl, ⟨b, s, hb, rfl, hs⟩, hx⟩
    rcases hx with ⟨a, _, ha, rfl, rfl, rfl⟩ | ⟨a, _, ha, rfl, u, vs, rfl, hr, rfl⟩ | hx
    · exact ⟨b ++ s ++ a, [v], by simp, .last (.mk hb hs ha), by simp⟩
    · exact ⟨b ++ s ++ a ++ 44 :: u, v :: vs, by simp, .more (.mk hb hs ha) hr, by simp⟩
    · exact hx.elim

/-- The table after some more members. -/
def extended (table : Table Json) (ms : List (Bytes × Json)) : Table Json :=
  ms.foldl (fun table (k, v) => Table.set k v table) table

theorem reads_membersFrom (h : Reads r (Led L)) (fuel : Nat) (done : List (Bytes × Json)) :
    Reads (membersFrom r fuel done) fun t v =>
      ∃ u ms, t = u ++ [125] ∧ Row (Member L) u ms ∧ v = .object (extended done ms) := by
  induction fuel generalizing done with
  | zero => exact (Reads.fail .unexpectedEnd).mono fun _ _ h => h.elim
  | succ fuel ih =>
    rw [membersFrom_succ]
    refine (reads_string.andThen fun k => .choose 58 (h.andThen fun v =>
      .choose 125 (.pure _) (.choose 44 (ih _) (.skip_fail _))) (.skip_fail _)).mono ?_
    rintro t x ⟨_, k, _, rfl, ⟨b, s, hb, rfl, hs⟩,
      ⟨c, _, hc, rfl, _, v, _, rfl, ⟨d, w, hd, rfl, hw⟩, hx⟩ | hx⟩
    · have hk : Padded Quoted (b ++ s ++ c) k := .mk hb hs hc
      rcases hx with ⟨a, _, ha, rfl, rfl, rfl⟩ | ⟨a, _, ha, rfl, u, ms, rfl, hr, rfl⟩ | hx
      · exact ⟨_, [(k, v)], by simp, .last (.mk hk (.mk hd hw ha)), rfl⟩
      · exact ⟨_, (k, v) :: ms, by simp, .more (.mk hk (.mk hd hw ha)) hr, rfl⟩
      · exact hx.elim
    · exact hx.elim

theorem reads_arrayBody (h : Reads r (Led L)) :
    Reads (arrayBody r) fun t v => Container L (91 :: t) v := by
  have hi := fun fuel => reads_itemsFrom h fuel []
  rw [arrayBody_eq]
  refine (Reads.choose 93 (.pure _) ⟨fun hr => (hi _).ok hr, fun hr => (hi _).error hr⟩).mono ?_
  rintro t v (⟨s, _, hs, rfl, rfl, rfl⟩ | ⟨u, vs, rfl, hr, rfl⟩)
  · exact .emptyArray hs
  · exact .array hr

theorem reads_objectBody (h : Reads r (Led L)) :
    Reads (objectBody r) fun t v => Container L (123 :: t) v := by
  have hm := fun fuel => reads_membersFrom h fuel []
  rw [objectBody_eq]
  refine (Reads.choose 125 (.pure _) ⟨fun hr => (hm _).ok hr, fun hr => (hm _).error hr⟩).mono ?_
  rintro t v (⟨s, _, hs, rfl, rfl, rfl⟩ | ⟨u, ms, rfl, hr, rfl⟩)
  · exact .emptyObject hs
  · exact .object hr (Table.settles_ofPairs ms)

/-! ### What the grammar allows is read -/

section

variable {deep : Prop}

/-- Reads whatever has the denotation, before anything that does not continue a number. -/
def Completes (deep : Prop) (r : Reader Json) (L : Denotation Json) : Prop :=
  ∀ ⦃s t rest : Bytes⦄ ⦃v : Json⦄, Space s → L t v → Ends rest → ∀ o,
    Delivers deep v rest (r ⟨s ++ (t ++ rest), o⟩)

theorem Ends.append {s rest : Bytes} (hs : Space s) (hr : Ends rest) : Ends (s ++ rest) := by
  cases s with
  | nil => exact hr
  | cons b s =>
    rintro _ ⟨⟩
    rcases hs b (by simp) with rfl | rfl | rfl | rfl <;> decide

theorem ends_cons {b : UInt8} (hb : b ∈ [44, 93, 125]) (rest : Bytes) : Ends (b :: rest) := by
  rintro _ ⟨⟩
  simp only [List.mem_cons, List.not_mem_nil, or_false] at hb
  rcases hb with rfl | rfl | rfl <;> decide

theorem Completes.padded (h : Completes deep r L) {t : Bytes} {v : Json} (hp : Padded L t v) :
    ∃ a, Space a ∧ ∀ {rest}, Ends rest → ∀ o,
      Delivers deep v (a ++ rest) (r ⟨t ++ rest, o⟩) := by
  obtain ⟨hb, ht, ha⟩ := hp
  refine ⟨_, ha, fun hr o => ?_⟩
  simpa only [List.append_assoc] using h hb ht (hr.append ha) o

theorem string_padded {s k : Bytes} (hp : Padded Quoted s k) :
    ∃ a, Space a ∧ ∀ rest o, Delivers deep k (a ++ rest) (string ⟨s ++ rest, o⟩) := by
  obtain ⟨hb, hk, ha⟩ := hp
  refine ⟨_, ha, fun rest o => ?_⟩
  simpa only [List.append_assoc] using string_delivers hb hk o

theorem itemsFrom_delivers (h : Completes deep r L) {t : Bytes} {vs : List Json}
    (hr : Row (Padded L) t vs) {fuel : Nat} (hf : vs.length ≤ fuel) (done : List Json) (rest : Bytes)
    (o : Nat) :
    Delivers deep (.array (done.reverse ++ vs)) rest (itemsFrom r fuel done ⟨t ++ 93 :: rest, o⟩) := by
  induction hr generalizing fuel done o with
  | @last t v hv =>
    obtain ⟨a, ha, hd⟩ := h.padded hv
    cases fuel with
    | zero => simp at hf
    | succ fuel =>
      rw [itemsFrom_succ]
      refine (hd (ends_cons (by simp) rest) o).andThen fun o => ?_
      rw [choose_append ha (by decide), if_pos rfl, List.reverse_cons]
      exact .value _
  | @more t u v vs hv hs ih =>
    obtain ⟨a, ha, hd⟩ := h.padded hv
    cases fuel with
    | zero => simp at hf
    | succ fuel =>
      rw [itemsFrom_succ, List.append_assoc, List.cons_append]
      refine (hd (ends_cons (by simp) _) o).andThen fun o => ?_
      rw [choose_append ha (by decide), if_neg (by decide), choose_append ha (by decide), if_pos rfl]
      simpa using ih (Nat.le_of_succ_le_succ hf) (v :: done) _

theorem membersFrom_delivers (h : Completes deep r L) {t : Bytes} {ms : List (Bytes × Json)}
    (hr : Row (Member L) t ms) {fuel : Nat} (hf : ms.length ≤ fuel) (done : List (Bytes × Json))
    (rest : Bytes) (o : Nat) :
    Delivers deep (.object (extended done ms)) rest
      (membersFrom r fuel done ⟨t ++ 125 :: rest, o⟩) := by
  induction hr generalizing fuel done o with
  | last hm =>
    obtain ⟨hk, hv⟩ := hm
    obtain ⟨a, ha, hd⟩ := string_padded hk
    obtain ⟨b, hb, hd'⟩ := h.padded hv
    cases fuel with
    | zero => simp at hf
    | succ fuel =>
      rw [membersFrom_succ, List.append_assoc, List.cons_append]
      refine (hd _ o).andThen fun o => ?_
      rw [choose_append ha (by decide), if_pos rfl]
      refine (hd' (ends_cons (by simp) rest) _).andThen fun o => ?_
      rw [choose_append hb (by decide), if_pos rfl]
      exact .value _
  | more hm hs ih =>
    obtain ⟨hk, hv⟩ := hm
    obtain ⟨a, ha, hd⟩ := string_padded hk
    obtain ⟨b, hb, hd'⟩ := h.padded hv
    cases fuel with
    | zero => simp at hf
    | succ fuel =>
      rw [membersFrom_succ, List.append_assoc, List.append_assoc, List.cons_append, List.cons_append]
      refine (hd _ o).andThen fun o => ?_
      rw [choose_append ha (by decide), if_pos rfl]
      refine (hd' (ends_cons (by simp) _) _).andThen fun o => ?_
      rw [choose_append hb (by decide), if_neg (by decide), choose_append hb (by decide), if_pos rfl]
      exact ih (Nat.le_of_succ_le_succ hf) _ _

theorem Grammar.Row.length_le {α : Type} {entry : Denotation α} {t : Bytes} {xs : List α}
    (h : Row entry t xs) : xs.length ≤ t.length + 1 := by
  induction h with
  | last => simp
  | more h hs ih =>
    simp only [List.length_cons, List.length_append]
    omega

theorem Grammar.Row.front {α : Type} {entry : Denotation α} {t : Bytes} {xs : List α}
    (h : Row entry t xs) : ∃ u x more, entry u x ∧ t = u ++ more := by
  cases h with
  | last h => exact ⟨t, _, [], h, by simp⟩
  | more h hs => exact ⟨_, _, _, h, rfl⟩

/-- No text starts with space or with the closing bracket of an array. -/
def Begins (L : Denotation Json) : Prop :=
  ∀ ⦃t : Bytes⦄ ⦃v : Json⦄, L t v → ∃ b u, t = b :: u ∧ Cursor.isSpace b = false ∧ b ≠ 93

theorem arrayBody_delivers (h : Completes deep r L) (hL : Begins L) {t : Bytes} {vs : List Json}
    (hr : Row (Padded L) t vs) (rest : Bytes) (o : Nat) :
    Delivers deep (.array vs) rest (arrayBody r ⟨t ++ 93 :: rest, o⟩) := by
  have hf : vs.length ≤ (t ++ 93 :: rest).length + 1 := by
    have hl := hr.length_le
    rw [List.length_append]
    omega
  have hd := itemsFrom_delivers h hr hf [] rest o
  obtain ⟨_, v, more, ⟨hs, ht, ha⟩, rfl⟩ := hr.front
  obtain ⟨b, u, rfl, hb, hne⟩ := hL ht
  simp only [List.append_assoc, List.cons_append] at hd ⊢
  rw [arrayBody_eq, choose_append hs hb, if_neg hne]
  exact hd

theorem emptyArray_delivers {s : Bytes} (hs : Space s) (rest : Bytes) (o : Nat) :
    Delivers deep (.array []) rest (arrayBody r ⟨s ++ 93 :: rest, o⟩) := by
  rw [arrayBody_eq, choose_append hs (by decide), if_pos rfl]
  exact .value _

theorem objectBody_delivers (h : Completes deep r L) {t : Bytes} {ms : List (Bytes × Json)}
    (hr : Row (Member L) t ms) (rest : Bytes) (o : Nat) :
    Delivers deep (.object (Table.ofPairs ms)) rest (objectBody r ⟨t ++ 125 :: rest, o⟩) := by
  have hf : ms.length ≤ (t ++ 125 :: rest).length + 1 := by
    have hl := hr.length_le
    rw [List.length_append]
    omega
  have hd := membersFrom_delivers h hr hf [] rest o
  obtain ⟨_, m, more, ⟨⟨hs, ⟨pieces⟩, ha⟩, hv⟩, rfl⟩ := hr.front
  simp only [List.append_assoc, List.cons_append] at hd ⊢
  rw [objectBody_eq, choose_append hs (by decide), if_neg (by decide)]
  exact hd

theorem emptyObject_delivers {s : Bytes} (hs : Space s) (rest : Bytes) (o : Nat) :
    Delivers deep (.object []) rest (objectBody r ⟨s ++ 125 :: rest, o⟩) := by
  rw [objectBody_eq, choose_append hs (by decide), if_pos rfl]
  exact .value _

end

end EditorSession.Json
