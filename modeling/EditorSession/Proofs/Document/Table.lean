import EditorSession.Proofs.Document.Step

/-! The table of open documents. It lists every document that is not closed, under the key of its
uri, and no other. What a change does to a single entry is told apart from what it does to the
table. -/

namespace EditorSession.Document

open Analysis (Handle)

/-! ### Entries -/

/-- An entry keeps its uri, counts the changes of its text, and is left alone once it is closed. -/
structure Entry.Grows (e e' : Entry) : Prop where
  uri : e'.document.uri = e.document.uri
  generation : e.generation ≤ e'.generation
  text : e'.generation = e.generation → e'.document.text = e.document.text
  frozen : e.closed = true → e' = e

namespace Entry.Grows

theorem refl (e : Entry) : e.Grows e :=
  ⟨rfl, Nat.le_refl _, fun _ => rfl, fun _ => rfl⟩

theorem trans {e e' e'' : Entry} (h : e.Grows e') (h' : e'.Grows e'') : e.Grows e'' where
  uri := h'.uri.trans h.uri
  generation := Nat.le_trans h.generation h'.generation
  text := by
    intro hg
    have hm : e'.generation = e.generation :=
      Nat.le_antisymm (hg ▸ h'.generation) h.generation
    exact (h'.text (hg.trans hm.symm)).trans (h.text hm)
  frozen := by
    intro hc
    obtain rfl := h.frozen hc
    exact h'.frozen hc

theorem withText (e : Entry) (text : Bytes) (version : Int64) (hc : e.closed = false) :
    e.Grows { e.withText text with document := { (e.withText text).document with version } } := by
  unfold Entry.withText
  by_cases ht : text = e.document.text
  · simp only [ht, ↓reduceIte]
    exact ⟨rfl, Nat.le_refl _, fun _ => rfl, by simp [hc]⟩
  · simp only [ht, ↓reduceIte]
    exact ⟨rfl, Nat.le_succ _, fun h => absurd h (Nat.succ_ne_self _), by simp [hc]⟩

theorem close (e : Entry) : e.Grows { e with closed := true } := by
  refine ⟨rfl, Nat.le_refl _, fun _ => rfl, ?_⟩
  intro hc
  rw [← hc]

end Entry.Grows

namespace Store

theorem entry?_modifyEntry (s : Store) (id i : EntryId) (f : Entry → Entry) :
    Store.entry? (s.modifyEntry id f) i = (s.entry? i).map fun e => if id = i then f e else e :=
  List.getElem?_modify ..

theorem find?_eq_some_iff {s : Store} {uri : Bytes} {id : EntryId} {e : Entry} :
    s.find? uri = some (id, e) ↔ Table.get? (key uri) s.table = some id ∧ s.entry? id = some e := by
  simp only [find?, Option.pure_def, Option.bind_eq_bind, Option.bind_eq_some_iff, Option.some.injEq,
    Prod.mk.injEq]
  constructor
  · rintro ⟨_, hg, _, he, rfl, rfl⟩
    exact ⟨hg, he⟩
  · rintro ⟨hg, he⟩
    exact ⟨id, hg, e, he, rfl, rfl⟩

theorem document?_eq_some_iff {s : Store} {uri : Bytes} {d : OpenDocument} :
    s.document? uri = some d ↔
      ∃ id e, (Table.get? (key uri) s.table = some id ∧ s.entry? id = some e) ∧
        e.closed = false ∧ e.document = d := by
  unfold document?
  cases hf : s.find? uri with
  | none =>
    simp only [reduceCtorEq, false_iff, not_exists]
    rintro id e ⟨hg, -⟩
    rw [find?_eq_some_iff.mpr hg] at hf
    cases hf
  | some found =>
    obtain ⟨id, e⟩ := found
    have hg := find?_eq_some_iff.mp hf
    cases hc : e.closed with
    | true =>
      simp only [hc, ↓reduceIte, reduceCtorEq, false_iff, not_exists]
      rintro id' e' ⟨hg', hc', -⟩
      obtain ⟨rfl, rfl⟩ := by simpa [hf] using find?_eq_some_iff.mpr hg'
      simp [hc] at hc'
    | false =>
      simp only [hc, Bool.false_eq_true, ↓reduceIte, Option.some.injEq]
      constructor
      · intro hd
        exact ⟨id, e, hg, hc, hd⟩
      · rintro ⟨id', e', hg', -, rfl⟩
        obtain ⟨rfl, rfl⟩ := by simpa [hf] using find?_eq_some_iff.mpr hg'
        rfl

/-- The entries of the second store are those of the first, later, and perhaps new ones. -/
def Grows (s s' : Store) : Prop :=
  ∀ id e, s.entry? id = some e → ∃ e', s'.entry? id = some e' ∧ e.Grows e'

theorem Grows.of_entries {s s' : Store} (h : s'.entries = s.entries) : s.Grows s' := by
  intro id e he
  exact ⟨e, by rw [Store.entry?, h]; exact he, .refl e⟩

theorem Grows.trans {s s' s'' : Store} (h : s.Grows s') (h' : s'.Grows s'') : s.Grows s'' := by
  intro id e he
  obtain ⟨e', he', hg⟩ := h id e he
  obtain ⟨e'', he'', hg'⟩ := h' id e' he'
  exact ⟨e'', he'', hg.trans hg'⟩

theorem grows_modifyEntry {s : Store} {id : EntryId} {f : Entry → Entry}
    (hf : ∀ e, s.entry? id = some e → e.Grows (f e)) : s.Grows (s.modifyEntry id f) := by
  intro i e he
  rw [entry?_modifyEntry, he]
  by_cases hi : id = i
  · subst hi
    exact ⟨f e, by simp, hf e he⟩
  · exact ⟨e, by simp [hi], .refl e⟩

theorem retire_table (s : Store) (uri : Bytes) : (s.retire uri).table = s.table := by
  unfold retire
  split <;> rfl

theorem retire_length (s : Store) (uri : Bytes) :
    (s.retire uri).entries.length = s.entries.length := by
  unfold retire
  split
  · exact List.length_modify ..
  · rfl

theorem entry?_retire (s : Store) (uri : Bytes) (i : EntryId) :
    Store.entry? (s.retire uri) i = (s.entry? i).map fun e =>
      if Table.get? (key uri) s.table = some i then { e with closed := true } else e := by
  unfold retire
  split
  case h_1 old hg =>
    rw [entry?_modifyEntry, hg]
    simp only [Option.some.injEq]
  case h_2 hg =>
    rw [hg]
    simp

theorem entry?_opened (s : Store) (d : OpenDocument) (i : EntryId) :
    Store.entry? (s.opened d) i =
      if i = s.entries.length then some { document := d } else Store.entry? (s.retire d.uri) i := by
  rw [Store.entry?, opened, ← s.retire_length d.uri]
  by_cases hi : i = (s.retire d.uri).entries.length
  · simp [hi]
  · rw [if_neg hi, entry?]
    rcases Nat.lt_or_gt_of_ne hi with hl | hl
    · exact List.getElem?_append_left hl
    · rw [List.getElem?_append_right (Nat.le_of_lt hl), List.getElem?_eq_none (Nat.sub_pos_of_lt hl),
        List.getElem?_eq_none (Nat.le_of_lt hl)]

theorem entry?_shut (s : Store) (uri : Bytes) (id i : EntryId) :
    Store.entry? (s.shut uri id) i =
      (s.entry? i).map fun e => if id = i then { e with closed := true } else e :=
  s.entry?_modifyEntry id i _

theorem lt_length_of_entry {s : Store} {i : EntryId} {e : Entry} (h : s.entry? i = some e) :
    i < s.entries.length := by
  obtain ⟨hl, -⟩ := List.getElem?_eq_some_iff.mp h
  exact hl

theorem Change.grows {s s' : Store} (h : s.Change s') : s.Grows s' := by
  cases h with
  | still he ht => exact .of_entries he
  | opened uri languageId version text =>
    intro i e he
    have hi : i ≠ s.entries.length := Nat.ne_of_lt (lt_length_of_entry he)
    rw [entry?_opened, if_neg hi, entry?_retire, he]
    refine ⟨_, rfl, ?_⟩
    dsimp only
    split
    · exact .close e
    · exact .refl e
  | edited text version hf hc =>
    obtain ⟨-, he⟩ := find?_eq_some_iff.mp hf
    refine grows_modifyEntry ?_
    intro e' he'
    obtain rfl : _ = e' := Option.some.inj (he.symm.trans he')
    exact .withText _ text version hc
  | shut hf => exact grows_modifyEntry fun e _ => .close e

theorem grows_withHandle {s : Store} {id : EntryId} {e : Entry} (he : s.entry? id = some e)
    (hc : e.closed = false) (h : Handle) : s.Grows (s.withHandle id h) := by
  refine grows_modifyEntry ?_
  intro e' he'
  obtain rfl : e = e' := Option.some.inj (he.symm.trans he')
  exact ⟨rfl, Nat.le_refl _, fun _ => rfl, by simp [hc]⟩

theorem entry?_withHandle_self {s : Store} {id : EntryId} {e : Entry} (he : s.entry? id = some e)
    (handle : Handle) : Store.entry? (s.withHandle id handle) id =
      some { e with document := { e.document with handle := some handle } } := by
  rw [withHandle, entry?_modifyEntry, he, Option.map_some, if_pos rfl]

theorem exists_of_entry?_withHandle {s : Store} {id i : EntryId} {handle : Handle} {e' : Entry}
    (h : Store.entry? (s.withHandle id handle) i = some e') :
    ∃ e, s.entry? i = some e ∧ e.document.text = e'.document.text ∧ (id ≠ i → e = e') := by
  rw [withHandle, entry?_modifyEntry] at h
  obtain ⟨e, he, rfl⟩ := Option.map_eq_some_iff.mp h
  refine ⟨e, he, ?_, ?_⟩
  · split <;> rfl
  · intro hi
    rw [if_neg hi]

/-- A handle that is there after a change was there before it, with the same text. -/
theorem Change.handle {s s' : Store} (h : s.Change s') {i : EntryId} {e' : Entry} {handle : Handle}
    (he' : s'.entry? i = some e') (hh : e'.document.handle = some handle) :
    ∃ e, s.entry? i = some e ∧ e.document.uri = e'.document.uri ∧
      e.document.text = e'.document.text ∧ e.document.handle = some handle := by
  -- an entry that keeps its document
  have hsame : ∀ {f : Entry → Entry}, (∀ e, (f e).document = e.document) →
      (s.entry? i).map f = some e' → ∃ e, s.entry? i = some e ∧
        e.document.uri = e'.document.uri ∧ e.document.text = e'.document.text ∧
        e.document.handle = some handle := by
    intro f hf hm
    obtain ⟨e, he, rfl⟩ := Option.map_eq_some_iff.mp hm
    rw [hf] at hh
    exact ⟨e, he, by rw [hf], by rw [hf], hh⟩
  cases h with
  | still he ht =>
    rw [Store.entry?, he] at he'
    exact ⟨e', he', rfl, rfl, hh⟩
  | opened uri languageId version text =>
    rw [entry?_opened] at he'
    split at he'
    · obtain rfl := Option.some.inj he'
      cases hh
    · rw [entry?_retire] at he'
      refine hsame ?_ he'
      intro e
      split <;> rfl
  | @edited uri id e text version hf hc =>
    obtain ⟨-, he⟩ := find?_eq_some_iff.mp hf
    rw [Store.edited, entry?_modifyEntry] at he'
    by_cases hi : id = i
    · subst hi
      rw [he, Option.map_some, if_pos rfl, Option.some.injEq] at he'
      subst he'
      unfold Entry.withText at hh ⊢
      by_cases ht : text = e.document.text
      · simp only [ht, ↓reduceIte] at hh ⊢
        exact ⟨e, he, rfl, rfl, hh⟩
      · simp [ht] at hh
    · refine hsame ?_ he'
      simp [hi]
  | @shut uri id e hf =>
    refine hsame ?_ (s.entry?_shut uri id i ▸ he')
    intro e
    split <;> rfl

/-! ### The table -/

/-- The table lists the documents that are not closed, and only these. -/
structure Sound (s : Store) : Prop where
  keys : s.table.keys.Nodup
  entry : ∀ k id, (k, id) ∈ s.table →
    ∃ e, s.entry? id = some e ∧ e.closed = false ∧ key e.document.uri = k
  listed : ∀ id e, s.entry? id = some e → e.closed = false → (key e.document.uri, id) ∈ s.table

namespace Sound

variable {s s' : Store}

theorem empty : ({} : Store).Sound :=
  ⟨List.nodup_nil, by simp, by simp [Store.entry?]⟩

theorem of_eq (hs : s.Sound) (he : s'.entries = s.entries) (ht : s'.table = s.table) : s'.Sound := by
  refine ⟨ht ▸ hs.keys, ?_, ?_⟩
  · rw [ht]
    simpa only [Store.entry?, he] using hs.entry
  · rw [ht]
    simpa only [Store.entry?, he] using hs.listed

/-- Entries may change that keep their uri and whether they are closed. -/
theorem modifyEntry (hs : s.Sound) {id : EntryId} {f : Entry → Entry}
    (hf : ∀ e, s.entry? id = some e →
      (f e).document.uri = e.document.uri ∧ (f e).closed = e.closed) :
    (s.modifyEntry id f).Sound := by
  have hkeep : ∀ i e, s.entry? i = some e →
      ∃ e', Store.entry? (s.modifyEntry id f) i = some e' ∧ e'.document.uri = e.document.uri ∧
        e'.closed = e.closed := by
    intro i e he
    rw [entry?_modifyEntry, he]
    by_cases hi : id = i
    · subst hi
      exact ⟨f e, by simp, hf e he⟩
    · exact ⟨e, by simp [hi], rfl, rfl⟩
  refine ⟨hs.keys, ?_, ?_⟩
  · intro k i hm
    obtain ⟨e, he, hc, hk⟩ := hs.entry k i hm
    obtain ⟨e', he', hu, hc'⟩ := hkeep i e he
    exact ⟨e', he', hc'.trans hc, hu ▸ hk⟩
  · intro i e' he' hc'
    have hm := he'
    rw [entry?_modifyEntry] at hm
    obtain ⟨e, he, -⟩ := Option.map_eq_some_iff.mp hm
    obtain ⟨e'', he'', hu, hc⟩ := hkeep i e he
    obtain rfl := Option.some.inj (he'.symm.trans he'')
    rw [hu]
    exact hs.listed i e he (hc ▸ hc')

theorem withHandle (hs : s.Sound) (id : EntryId) (h : Handle) : (s.withHandle id h).Sound :=
  hs.modifyEntry fun _ _ => ⟨rfl, rfl⟩

theorem get?_iff (hs : s.Sound) {i : EntryId} {e : Entry} (he : s.entry? i = some e) (uri : Bytes) :
    Table.get? (key uri) s.table = some i ↔ e.closed = false ∧ key e.document.uri = key uri := by
  rw [Table.get?_eq_some_iff hs.keys]
  constructor
  · intro hm
    obtain ⟨e', he', hc, hk⟩ := hs.entry _ _ hm
    obtain rfl := Option.some.inj (he.symm.trans he')
    exact ⟨hc, hk⟩
  · rintro ⟨hc, hk⟩
    exact hk ▸ hs.listed i e he hc

theorem opened (hs : s.Sound) (d : OpenDocument) : (s.opened d).Sound := by
  have hkeys : (s.opened d).table = Table.set (key d.uri) s.entries.length s.table := by
    rw [Store.opened, s.retire_table]
  -- an older entry stays open unless it was listed under the same key
  have hold : ∀ i e, s.entry? i = some e →
      Store.entry? (s.opened d) i = some (if e.closed = false ∧ key e.document.uri = key d.uri then
        { e with closed := true } else e) := by
    intro i e he
    rw [entry?_opened, if_neg (Nat.ne_of_lt (lt_length_of_entry he)), entry?_retire, he]
    simp only [Option.map_some, hs.get?_iff he]
  have hnew : Store.entry? (s.opened d) s.entries.length = some { document := d } := by
    rw [entry?_opened, if_pos rfl]
  refine ⟨hkeys ▸ Table.nodup_keys_set _ _ hs.keys, ?_, ?_⟩
  · intro k i hm
    rw [hkeys, Table.mem_set_iff hs.keys] at hm
    obtain ⟨rfl, rfl⟩ | ⟨hk, hm⟩ := hm
    · exact ⟨_, hnew, rfl, rfl⟩
    · obtain ⟨e, he, hc, rfl⟩ := hs.entry k i hm
      exact ⟨e, by rw [hold i e he, if_neg (by simp [hk])], hc, rfl⟩
  · intro i e' he' hc'
    rw [hkeys, Table.mem_set_iff hs.keys]
    by_cases hi : i = s.entries.length
    · subst hi
      obtain rfl := Option.some.inj (hnew.symm.trans he')
      exact .inl ⟨rfl, rfl⟩
    · have hr := he'
      rw [entry?_opened, if_neg hi, entry?_retire] at hr
      obtain ⟨e, he, -⟩ := Option.map_eq_some_iff.mp hr
      rw [hold i e he, Option.some.injEq] at he'
      by_cases hk : e.closed = false ∧ key e.document.uri = key d.uri
      · rw [if_pos hk] at he'
        subst he'
        cases hc'
      · rw [if_neg hk] at he'
        subst he'
        exact .inr ⟨fun h => hk ⟨hc', h⟩, hs.listed i e he hc'⟩

theorem shut (hs : s.Sound) {uri : Bytes} {id : EntryId} {e : Entry}
    (hf : s.find? uri = some (id, e)) : (s.shut uri id).Sound := by
  obtain ⟨hg, he⟩ := find?_eq_some_iff.mp hf
  refine ⟨Table.nodup_keys_erase _ hs.keys, ?_, ?_⟩
  · intro k i hm
    obtain ⟨hm, hk⟩ := Table.mem_erase.mp hm
    obtain ⟨e', he', hc, rfl⟩ := hs.entry k i hm
    have hi : id ≠ i := by
      rintro rfl
      obtain rfl := Option.some.inj (he.symm.trans he')
      exact hk ((hs.get?_iff he uri).mp hg).2
    exact ⟨e', by rw [s.entry?_shut, he', Option.map_some, if_neg hi], hc, rfl⟩
  · intro i e' he' hc'
    rw [s.entry?_shut] at he'
    obtain ⟨e'', he'', rfl⟩ := Option.map_eq_some_iff.mp he'
    by_cases hi : id = i
    · rw [if_pos hi] at hc'
      cases hc'
    · rw [if_neg hi] at hc' ⊢
      refine Table.mem_erase.mpr ⟨hs.listed i e'' he'' hc', ?_⟩
      intro hk
      have hgi := (hs.get?_iff he'' uri).mpr ⟨hc', hk⟩
      exact hi (Option.some.inj (hg.symm.trans hgi))

theorem change (hs : s.Sound) (h : s.Change s') : s'.Sound := by
  cases h with
  | still he ht => exact hs.of_eq he ht
  | opened uri languageId version text => exact hs.opened _
  | edited text version hf hc =>
    obtain ⟨-, he⟩ := find?_eq_some_iff.mp hf
    refine hs.modifyEntry ?_
    intro e' he'
    obtain rfl := Option.some.inj (he.symm.trans he')
    unfold Entry.withText
    split <;> exact ⟨rfl, rfl⟩
  | shut hf => exact hs.shut hf

end Sound

/-! ### What operations make of both -/

theorem start_grows (s : Store) (operation : Operation) : s.Grows (s.start operation).1 := by
  obtain ⟨s', hc, hg⟩ := s.start_cases operation
  exact hc.grows.trans (.of_entries hg.entries)

theorem resumeLookup_grows (s : Store) (l : Lookup) (answer : ModelAnswer) :
    s.Grows (s.resumeLookup l answer).1 := by
  have h := s.resumeLookup_cases l answer
  generalize s.resumeLookup l answer = step at h
  cases h with
  | without hs => exact .of_entries hs.entries
  | resolved => exact .of_entries rfl
  | stored _ _ he hc _ _ hs => exact (grows_withHandle he hc _).trans (.of_entries hs.entries)

theorem Sound.start {s : Store} (hs : s.Sound) (operation : Operation) :
    (s.start operation).1.Sound := by
  obtain ⟨s', hc, hg⟩ := s.start_cases operation
  exact (hs.change hc).of_eq hg.entries hg.table

theorem Sound.resumeLookup {s : Store} (hs : s.Sound) (l : Lookup) (answer : ModelAnswer) :
    (s.resumeLookup l answer).1.Sound := by
  have h := s.resumeLookup_cases l answer
  generalize s.resumeLookup l answer = step at h
  cases h with
  | without hg => exact hs.of_eq hg.entries hg.table
  | resolved => exact hs
  | stored _ _ _ _ _ _ hg => exact (hs.withHandle _ _).of_eq hg.entries hg.table

/-- Listeners that come and go leave the documents alone. -/
theorem removeListener_keeps (s : Store) (listener : ListenerId) (running : Option ListenerId) :
    (s.removeListener listener running).1.entries = s.entries ∧
      (s.removeListener listener running).1.table = s.table := by
  unfold removeListener
  split <;> exact ⟨rfl, rfl⟩

end Store

end EditorSession.Document
