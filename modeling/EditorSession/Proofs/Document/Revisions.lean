import EditorSession.Proofs.Document.Events
import EditorSession.Proofs.Document.Run
import Mathlib.Data.List.Chain

/-! Versions and texts. A document is what its opening and the changes and saves that were accepted
since have made of it; each change that is accepted has a higher version than the document had. An
operation that is refused does nothing. -/

namespace EditorSession.Document

open Analysis (Handle)

/-- The documents differ in their handles at most. -/
structure OpenDocument.Alike (d d' : OpenDocument) : Prop where
  uri : d'.uri = d.uri
  languageId : d'.languageId = d.languageId
  version : d'.version = d.version
  text : d'.text = d.text

/-- What an operation makes of the document that it is accepted for. -/
inductive OpenDocument.Revised (d : OpenDocument) : Operation → OpenDocument → Prop where
  | changed {d' uri version} (changes) (hu : key uri = key d.uri) (hv : d.version < version)
      (h : Alike { d with version, text := Text.applyChanges d.text changes } d') :
      Revised d (.changeDocument uri version changes) d'
  | saved {d' uri} (text) (hu : key uri = key d.uri) (h : Alike { d with text } d') :
      Revised d (.saveDocument uri (some text)) d'

/-- What operations have made of a document, in the order in which they were begun. -/
inductive OpenDocument.History (d : OpenDocument) : List Operation → OpenDocument → Prop where
  | opened {d'} (h : d.Alike d') : History d [] d'
  | revised {operations operation d' d''} (h : History d operations d')
      (hr : d'.Revised operation d'') : History d (operations ++ [operation]) d''

/-- The operation that a record begins. -/
def Record.operation? : Record → Option Operation
  | began _ operation => some operation
  | replied _ _ _ => none
  | heard _ _ _ => none

/-- The version that a change gives its document. -/
def Operation.version? : Operation → Option Int64
  | changeDocument _ version _ => some version
  | _ => none

namespace OpenDocument

variable {d d' d'' : OpenDocument} {operations : List Operation}

theorem Alike.refl (d : OpenDocument) : d.Alike d := ⟨rfl, rfl, rfl, rfl⟩

theorem Alike.trans (h : d.Alike d') (h' : d'.Alike d'') : d.Alike d'' :=
  ⟨h'.uri.trans h.uri, h'.languageId.trans h.languageId, h'.version.trans h.version,
    h'.text.trans h.text⟩

theorem History.alike (h : d.History operations d') (ha : d'.Alike d'') :
    d.History operations d'' := by
  cases h with
  | opened h => exact .opened (h.trans ha)
  | revised h hr =>
    refine .revised h ?_
    cases hr with
    | changed changes hu hv h => exact .changed changes hu hv (h.trans ha)
    | saved text hu h => exact .saved text hu (h.trans ha)

/-- The versions that a document goes through strictly increase, up to the one that it has. -/
theorem History.increasing (h : d.History operations d') :
    (d.version :: operations.filterMap Operation.version?).IsChain (· < ·) ∧
      (d.version :: operations.filterMap Operation.version?).getLast? = some d'.version := by
  induction h with
  | opened h => simp [h.version]
  | @revised operations operation d' d'' _ hr ih =>
    obtain ⟨hp, hl⟩ := ih
    rw [List.filterMap_append, ← List.cons_append]
    cases hr with
    | saved text hu h =>
      rw [List.filterMap_cons_none rfl, List.filterMap_nil, List.append_nil, h.version]
      exact ⟨hp, hl⟩
    | @changed _ uri version changes hu hv h =>
      have hs : [Operation.changeDocument uri version changes].filterMap Operation.version? =
          [version] := rfl
      rw [hs, List.getLast?_concat, h.version, List.isChain_append]
      refine ⟨⟨hp, List.isChain_singleton _, ?_⟩, rfl⟩
      rintro v hm _ ⟨⟩
      rw [hl, Option.mem_some_iff] at hm
      exact hm ▸ hv

end OpenDocument

/-! ### What a step does to a document -/

namespace Store

variable {s s' : Store} {i id : EntryId} {e e' : Entry}

theorem entry?_edited (he : s.entry? id = some e) (text : Bytes) (version : Int64) :
    ∃ e', Store.entry? (s.edited id e text version) id = some e' ∧
      OpenDocument.Alike { e.document with version, text } e'.document := by
  rw [edited, entry?_modifyEntry, he, Option.map_some, if_pos rfl]
  refine ⟨_, rfl, ?_⟩
  unfold Entry.withText
  split
  case isTrue ht => exact ⟨rfl, rfl, rfl, ht.symm⟩
  case isFalse => exact ⟨rfl, rfl, rfl, rfl⟩

theorem entry?_edited_ne (hi : id ≠ i) (e : Entry) (text : Bytes) (version : Int64) :
    Store.entry? (s.edited id e text version) i = s.entry? i := by
  rw [edited, entry?_modifyEntry]
  simp [hi]

/-- The start of an operation revises the document that it is accepted for, and no other. -/
theorem Sound.revises (hs : s.Sound) {operation : Operation} {event : Option Event}
    (h : s.Effect operation s' event) (he : s.entry? i = some e) (he' : s'.entry? i = some e') :
    e.document.Alike e'.document ∨
      e.closed = false ∧ e.document.Revised operation e'.document := by
  have hsame : s.entry? i = some e' → e.document.Alike e'.document := by
    intro h
    obtain rfl := Option.some.inj (he.symm.trans h)
    exact .refl _
  cases h with
  | refused => exact .inl (hsame he')
  | reassociate => exact .inl (hsame he')
  | opened uri languageId version text =>
    rw [entry?_opened, if_neg (Nat.ne_of_lt (lt_length_of_entry he)), entry?_retire, he,
      Option.map_some, Option.some.injEq] at he'
    subst he'
    refine .inl ?_
    split <;> exact .refl _
  | @changed uri version id e₀ changes hf hc hv =>
    obtain ⟨hg, he₀⟩ := find?_eq_some_iff.mp hf
    have hu := ((hs.get?_iff he₀ uri).mp hg).2
    by_cases hi : id = i
    · subst hi
      obtain rfl := Option.some.inj (he.symm.trans he₀)
      obtain ⟨e₁, he₁, ha⟩ := entry?_edited he (Text.applyChanges e.document.text changes) version
      obtain rfl := Option.some.inj (he'.symm.trans he₁)
      exact .inr ⟨hc, .changed changes hu.symm hv ha⟩
    · rw [entry?_edited_ne hi] at he'
      exact .inl (hsame he')
  | @saved uri id e₀ text hf hc =>
    obtain ⟨hg, he₀⟩ := find?_eq_some_iff.mp hf
    have hu := ((hs.get?_iff he₀ uri).mp hg).2
    by_cases hi : id = i
    · subst hi
      obtain rfl := Option.some.inj (he.symm.trans he₀)
      obtain ⟨e₁, he₁, ha⟩ := entry?_edited he (text.getD e.document.text) e.document.version
      obtain rfl := Option.some.inj (he'.symm.trans he₁)
      cases text with
      | none => exact .inl ⟨ha.uri, ha.languageId, ha.version, ha.text⟩
      | some text => exact .inr ⟨hc, .saved text hu.symm ha⟩
    · rw [entry?_edited_ne hi] at he'
      exact .inl (hsame he')
  | closed =>
    rw [entry?_shut, he, Option.map_some, Option.some.injEq] at he'
    subst he'
    refine .inl ?_
    split <;> exact .refl _

/-- Only an opening makes a new document. -/
theorem Effect.opens {operation : Operation} {event : Option Event}
    (h : s.Effect operation s' event) (he : s.entry? i = none) (he' : s'.entry? i = some e') :
    ∃ uri languageId version text, operation = .openDocument uri languageId version text ∧
      e'.document = { uri, languageId, version, text } := by
  cases h with
  | refused => simp [he] at he'
  | reassociate => simp [he] at he'
  | opened uri languageId version text =>
    refine ⟨uri, languageId, version, text, rfl, ?_⟩
    rw [entry?_opened] at he'
    split at he'
    case isTrue =>
      obtain rfl := Option.some.inj he'
      rfl
    case isFalse => simp [entry?_retire, he] at he'
  | changed => simp [edited, entry?_modifyEntry, he] at he'
  | saved => simp [edited, entry?_modifyEntry, he] at he'
  | closed => simp [entry?_shut, he] at he'

/-- A handle that arrives changes nothing else. -/
theorem entry?_resumeLookup (s : Store) (l : Lookup) (answer : ModelAnswer)
    (he' : Store.entry? (s.resumeLookup l answer).1 i = some e') :
    ∃ e, s.entry? i = some e ∧ e.document.Alike e'.document := by
  have h := s.resumeLookup_cases l answer
  generalize s.resumeLookup l answer = step at h he'
  cases h with
  | without hs =>
    rw [hs.entry?] at he'
    exact ⟨e', he', .refl _⟩
  | resolved => exact ⟨e', he', .refl _⟩
  | stored _ _ _ _ _ _ hs =>
    rw [hs.entry?, withHandle, entry?_modifyEntry] at he'
    obtain ⟨e, he, rfl⟩ := Option.map_eq_some_iff.mp he'
    refine ⟨e, he, ?_⟩
    split <;> exact ⟨rfl, rfl, rfl, rfl⟩

end Store

namespace Scene

variable {w w' : Scene} {trace records : List Record} {i : EntryId} {e e' : Entry}

/-- What a move can do to a document: nothing but give it a handle or take it away, open it, or revise
it as the operation says that is begun. -/
inductive Fate (w : Scene) (records : List Record) (i : EntryId) (e' : Entry) : Prop where
  | kept {e : Entry} (he : w.store.entry? i = some e) (h : e.document.Alike e'.document)
  | opened (uri languageId version text) (he : w.store.entry? i = none)
      (hr : records = [.began w.begun (.openDocument uri languageId version text)])
      (h : e'.document = { uri, languageId, version, text })
  | revised {e : Entry} {operation} (he : w.store.entry? i = some e) (hc : e.closed = false)
      (hr : records = [.began w.begun operation]) (h : e.document.Revised operation e'.document)

theorem Move.fate (h : Move w records w') (hs : w.store.Sound)
    (he' : w'.store.entry? i = some e') : Fate w records i e' := by
  have hsame : ∀ {s : Store}, s.entries = w.store.entries → s.entry? i = some e' →
      Fate w records i e' := by
    intro s hs hi
    rw [Store.entry?, hs] at hi
    exact .kept hi (.refl _)
  cases h with
  | start operation =>
    obtain ⟨s, event, heff⟩ := w.store.exists_effect operation
    rw [advance_store, heff.goesOn.entry?] at he'
    cases he : w.store.entry? i with
    | none =>
      obtain ⟨uri, languageId, version, text, rfl, h⟩ := heff.opens he he'
      exact .opened uri languageId version text he rfl h
    | some e =>
      rcases hs.revises heff he he' with h | ⟨hc, h⟩
      · exact .kept he h
      · exact .revised he hc rfl h
  | answer answer hl =>
    rw [advance_store] at he'
    obtain ⟨e, he, h⟩ := w.store.entry?_resumeLookup _ answer he'
    exact .kept he h
  | @hear id d failure hd =>
    rw [advance_store] at he'
    exact hsame (@Store.GoesOn.resumeDelivery w.store d failure).entries he'
  | subscribe => exact hsame rfl he'
  | unsubscribe listener running =>
    exact hsame (w.store.removeListener_keeps listener running).1 he'

/-- The document was opened in the run, and operations that were begun after that have made of it what
it is. Its versions have increased all the time. -/
inductive Told (trace : List Record) (d : OpenDocument) : Prop where
  | intro (before id after uri languageId version text operations)
      (ht : trace = before ++ .began id (.openDocument uri languageId version text) :: after)
      (ho : operations.Sublist (after.filterMap Record.operation?))
      (h : OpenDocument.History { uri, languageId, version, text } operations d)
      (hv : (version :: operations.filterMap Operation.version?).IsChain (· < ·))
      (hl : (version :: operations.filterMap Operation.version?).getLast? = some d.version)

theorem Told.append {d d' : OpenDocument} (h : Told trace d) (more : List Record)
    (ha : d.Alike d') : Told (trace ++ more) d' := by
  obtain ⟨before, id, after, uri, languageId, version, text, operations, rfl, ho, h, hv, hl⟩ := h
  refine ⟨before, id, after ++ more, uri, languageId, version, text, operations, by simp, ?_,
    h.alike ha, hv, ha.version ▸ hl⟩
  rw [List.filterMap_append]
  exact ho.trans (List.sublist_append_left _ _)

theorem Told.revised {d d' : OpenDocument} {operation : Operation} (h : Told trace d)
    (id : OperationId) (hr : d.Revised operation d') :
    Told (trace ++ [.began id operation]) d' := by
  obtain ⟨before, first, after, uri, languageId, version, text, operations, rfl, ho, h, -⟩ := h
  obtain ⟨hv, hl⟩ := (h.revised hr).increasing
  refine ⟨before, first, after ++ [.began id operation], uri, languageId, version, text,
    operations ++ [operation], by simp, ?_, h.revised hr, hv, hl⟩
  rw [List.filterMap_append]
  exact ho.append (.refl _)

/-- Every document that was ever open has its history. -/
theorem Run.told (h : Run trace w) : ∀ i e, w.store.entry? i = some e → Told trace e.document := by
  induction h with
  | refl =>
    intro i e he
    simp [Store.entry?] at he
  | tail hr hm ih =>
    intro i e' he'
    cases hm.fate (Run.sound hr) he' with
    | kept he ha => exact (ih i _ he).append _ ha
    | opened uri languageId version text _ hrec hd =>
      subst hrec
      exact ⟨_, _, [], uri, languageId, version, text, [], rfl, .slnil, .opened (hd ▸ .refl _),
        .singleton _, by rw [hd]; rfl⟩
    | revised he _ hrec hrev =>
      subst hrec
      exact (ih i _ he).revised _ hrev

end Scene

/-! ### Accepted and refused -/

namespace Store

variable {s : Store} {uri : Bytes} {id : EntryId} {e : Entry}

theorem Sound.document?_of_find (hs : s.Sound) (hf : s.find? uri = some (id, e)) :
    s.document? uri = some e.document := by
  obtain ⟨hg, he⟩ := find?_eq_some_iff.mp hf
  exact document?_eq_some_iff.mpr ⟨id, e, ⟨hg, he⟩, ((hs.get?_iff he uri).mp hg).1, rfl⟩

theorem refuses_change {version : Int64} (h : ∀ d, s.document? uri = some d → version ≤ d.version)
    (changes : List Lsp.Change) : s.Refuses (.changeDocument uri version changes) := by
  apply Refuses.change
  intro id e hf hc
  exact h _ (document?_eq_some_iff.mpr ⟨id, e, find?_eq_some_iff.mp hf, hc, rfl⟩)

theorem Sound.find?_eq_none (hs : s.Sound) (h : s.document? uri = none) : s.find? uri = none := by
  cases hf : s.find? uri with
  | none => rfl
  | some found => simp [hs.document?_of_find hf] at h

theorem Sound.refuses_save (hs : s.Sound) (h : s.document? uri = none) (text : Option Bytes) :
    s.Refuses (.saveDocument uri text) := by
  apply Refuses.save
  intro id e hf
  simp [hs.find?_eq_none h] at hf

/-- A newer version is accepted. -/
theorem Sound.accepts_change (hs : s.Sound) {d : OpenDocument} (hd : s.document? uri = some d)
    {version : Int64} (hv : d.version < version) (changes : List Lsp.Change) :
    ∃ d', Store.document? (s.start (.changeDocument uri version changes)).1 uri = some d' ∧
      d.Revised (.changeDocument uri version changes) d' := by
  obtain ⟨id, e, ⟨hg, he⟩, hc, rfl⟩ := document?_eq_some_iff.mp hd
  have hf := find?_eq_some_iff.mpr ⟨hg, he⟩
  have hu := ((hs.get?_iff he uri).mp hg).2
  have hgo := (Effect.changed changes hf hc hv).goesOn
  obtain ⟨e', he', ha⟩ := entry?_edited he (Text.applyChanges e.document.text changes) version
  have hf' : Store.find? (s.start (.changeDocument uri version changes)).1 uri = some (id, e') := by
    rw [find?_eq_some_iff, hgo.table, hgo.entry?]
    exact ⟨hg, he'⟩
  exact ⟨e'.document, (hs.start _).document?_of_find hf', .changed changes hu.symm hv ha⟩

end Store

/-! ### The account of a run -/

/-- The account of the documents at one moment of a run. The table lists open documents only, each
under its own key and no two under one; a document is what the operations that were accepted for it
have made of what was opened, each change with a higher version than the last; and an operation that
is refused is over at once, without a call, an event or a change. -/
structure TableOrdered (trace : List Record) (w : Scene) : Prop where
  distinct : w.store.table.keys.Nodup
  unique : ∀ k id k' id', (k, id) ∈ w.store.table → (k', id') ∈ w.store.table →
    ∀ e e', w.store.entry? id = some e → w.store.entry? id' = some e' →
    key e.document.uri = key e'.document.uri → k = k' ∧ id = id'
  placed : ∀ k id, (k, id) ∈ w.store.table →
    ∃ e, w.store.entry? id = some e ∧ key e.document.uri = k ∧ e.closed = false
  fate : ∀ records w', Scene.Move w records w' → ∀ i e', w'.store.entry? i = some e' →
    Scene.Fate w records i e'
  told : ∀ i e, w.store.entry? i = some e → Scene.Told trace e.document
  accepted : ∀ uri d, w.store.document? uri = some d → ∀ version changes, d.version < version →
    ∃ d', Store.document? (w.store.start (.changeDocument uri version changes)).1 uri = some d' ∧
      d.Revised (.changeDocument uri version changes) d'
  refusedChange : ∀ uri version,
    (∀ d, w.store.document? uri = some d → version ≤ d.version) → ∀ changes, ∃ notices,
      w.store.start (.changeDocument uri version changes) =
        (w.store, .done (.handled false), notices)
  refusedClose : ∀ uri, w.store.document? uri = none → ∃ notices,
    w.store.start (.closeDocument uri) = (w.store, .done (.handled false), notices)
  refusedSave : ∀ uri, w.store.document? uri = none → ∀ text, ∃ notices,
    w.store.start (.saveDocument uri text) = (w.store, .done (.handled false), notices)

/-- In every run the table is in order, and the documents are what was made of them. -/
theorem Scene.Run.tableOrdered {trace : List Record} {w : Scene} (h : Run trace w) :
    TableOrdered trace w where
  distinct := h.sound.keys
  unique := by
    intro k id k' id' hm hm' e e' he he' hk
    obtain ⟨_, h₁, -, rfl⟩ := h.sound.entry k id hm
    obtain ⟨_, h₂, -, rfl⟩ := h.sound.entry k' id' hm'
    obtain rfl := Option.some.inj (he.symm.trans h₁)
    obtain rfl := Option.some.inj (he'.symm.trans h₂)
    refine ⟨hk, ?_⟩
    have hg := Table.get?_of_mem h.sound.keys hm
    have hg' := Table.get?_of_mem h.sound.keys hm'
    exact Option.some.inj (hg.symm.trans (hk ▸ hg'))
  placed := by
    intro k id hm
    obtain ⟨e, he, hc, hk⟩ := h.sound.entry k id hm
    exact ⟨e, he, hk, hc⟩
  fate := fun _ _ hm _ _ he' => hm.fate h.sound he'
  told := h.told
  accepted := fun _ _ hd _ changes hv => h.sound.accepts_change hd hv changes
  refusedChange := fun _ _ hv changes => (Store.refuses_change hv changes).start
  refusedClose := fun _ hd => (Store.Refuses.close (h.sound.find?_eq_none hd)).start
  refusedSave := fun _ hd text => (h.sound.refuses_save hd text).start

/-- A document is changed before it was resolved, a change that is late is refused, and the document
is saved with another text. -/
def revisedTrace : List Record :=
  [.began 0 (.openDocument (ascii "a") (ascii "vb") 1 (ascii "x")),
    .began 1 (.changeDocument (ascii "A") 3 [⟨none, ascii "y"⟩]),
    .began 2 (.changeDocument (ascii "a") 2 [⟨none, ascii "z"⟩]),
    .began 3 (.saveDocument (ascii "a") (some (ascii "w")))]

theorem Scene.Run.tableOrdered_revisedTrace :
    ∃ w, Run revisedTrace w ∧
      w.store.document? (ascii "A") = some ⟨ascii "a", ascii "vb", 3, ascii "w", none⟩ ∧
      TableOrdered revisedTrace w := by
  have h1 := Scene.Moves.refl.tail
    (.start {} (.openDocument (ascii "a") (ascii "vb") 1 (ascii "x")))
  have h2 := h1.tail (.start _ (.changeDocument (ascii "A") 3 [⟨none, ascii "y"⟩]))
  have h3 := h2.tail (.start _ (.changeDocument (ascii "a") 2 [⟨none, ascii "z"⟩]))
  have h4 := h3.tail (.start _ (.saveDocument (ascii "a") (some (ascii "w"))))
  exact ⟨_, h4, rfl, Run.tableOrdered h4⟩

end EditorSession.Document
