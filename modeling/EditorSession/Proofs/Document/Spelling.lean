import EditorSession.Proofs.Document.Revisions

/-! Spellings of a uri. A document is found under any spelling of its uri, and keeps the one that it
was opened with. Opening it again under another spelling replaces it, without an event for the old
one. -/

namespace EditorSession.Document

/-- The spelling of `uri` under which a document is open, once the operation was begun. -/
def Operation.respell (uri : Bytes) (spelling : Option Bytes) : Operation → Option Bytes
  | openDocument opened _ _ _ => if key opened = key uri then some opened else spelling
  | closeDocument closed => if key closed = key uri then none else spelling
  | changeDocument _ _ _ => spelling
  | saveDocument _ _ => spelling
  | reassociateFirst _ => spelling

/-- The spelling of `uri` under which the operations have left a document open. -/
def spelling? (uri : Bytes) (operations : List Operation) : Option Bytes :=
  operations.foldl (Operation.respell uri) none

/-- A document that was open under `uri` was opened again under another spelling, and never under
`uri` after that. -/
inductive Stranded (operations : List Operation) (uri : Bytes) : Prop where
  | intro (before other languageId version text after)
      (ho : operations = before ++ .openDocument other languageId version text :: after)
      (hs : spelling? uri before = some uri) (hk : key other = key uri) (hn : other ≠ uri)
      (ha : ∀ languageId version text,
        Operation.openDocument uri languageId version text ∉ after)

variable {operations : List Operation} {operation : Operation} {uri : Bytes}

theorem spelling?_append (uri : Bytes) (operations : List Operation) (operation : Operation) :
    spelling? uri (operations ++ [operation]) =
      operation.respell uri (spelling? uri operations) := by
  simp [spelling?]

theorem Stranded.append (h : Stranded operations uri)
    (hn : ∀ languageId version text, operation ≠ .openDocument uri languageId version text) :
    Stranded (operations ++ [operation]) uri := by
  obtain ⟨before, other, languageId, version, text, after, rfl, hs, hk, hne, ha⟩ := h
  refine ⟨before, other, languageId, version, text, after ++ [operation], by simp, hs, hk, hne, ?_⟩
  intro languageId version text hm
  rcases List.mem_append.mp hm with hm | hm
  · exact ha _ _ _ hm
  · exact hn _ _ _ (List.mem_singleton.mp hm).symm

/-- Nothing is stranded while every document that is open is opened again, if at all, under the
spelling that it has. -/
theorem Stranded.respelled (h : Stranded operations uri) :
    ∃ before other languageId version text after,
      operations = before ++ .openDocument other languageId version text :: after ∧
        ∃ spelling, spelling? other before = some spelling ∧ spelling ≠ other := by
  obtain ⟨before, other, languageId, version, text, after, ho, hs, hk, hn, -⟩ := h
  refine ⟨before, other, languageId, version, text, after, ho, uri, ?_, hn.symm⟩
  have hkey : Operation.respell other = Operation.respell uri := by
    funext spelling operation
    cases operation <;> simp only [Operation.respell, hk]
  rw [spelling?, hkey]
  exact hs

namespace Store

variable {s s' : Store}

/-- The spelling under which the document that a uri stands for was opened. -/
def spelling? (s : Store) (uri : Bytes) : Option Bytes := (s.document? uri).map (·.uri)

theorem spelling?_congr (h : s'.document? uri = s.document? uri) :
    s'.spelling? uri = s.spelling? uri :=
  congrArg (Option.map _) h

/-- An entry that changes, but not its uri, keeps its spelling. -/
theorem Sound.modifyEntry_spelling (hs : s.Sound) {id : EntryId} {e : Entry} {f : Entry → Entry}
    (he : s.entry? id = some e) (hc : e.closed = false) (hc' : (f e).closed = false)
    (hu : (f e).document.uri = e.document.uri) (hs' : (s.modifyEntry id f).Sound) (uri : Bytes) :
    Store.spelling? (s.modifyEntry id f) uri = s.spelling? uri := by
  by_cases hk : key uri = key e.document.uri
  · have hd := hs.document?_iff.mpr ⟨id, e, he, hc, rfl, rfl⟩
    rw [Store.spelling?, Store.spelling?, document?_of_key hk, document?_of_key hk, hd,
      Sound.modifyEntry_here he hc' hu hs', Option.map_some, Option.map_some, hu]
  · exact spelling?_congr (hs.modifyEntry_elsewhere he hu hs' hk)

theorem Sound.edited_spelling (hs : s.Sound) {found : Bytes} {id : EntryId} {e : Entry}
    (hf : s.find? found = some (id, e)) (hc : e.closed = false) (text : Bytes) (version : Int64)
    (uri : Bytes) : (s.edited id e text version).spelling? uri = s.spelling? uri := by
  refine hs.modifyEntry_spelling (find?_eq_some_iff.mp hf).2 hc ?_ (e.withText_uri text)
    (hs.change (.edited text version hf hc)) uri
  unfold Entry.withText
  split <;> exact hc

/-- Spellings change as the operations say. -/
theorem Sound.respell (hs : s.Sound) {event : Option Event} (h : s.Effect operation s' event)
    (uri : Bytes) : operation.respell uri (s.spelling? uri) = s'.spelling? uri := by
  cases h with
  | refused h =>
    cases h with
    | change => rfl
    | save => rfl
    | @close closed hf =>
      rw [Operation.respell]
      split
      case isTrue hk =>
        rw [Store.spelling?, ← document?_of_key hk, document?, hf]
        rfl
      case isFalse => rfl
  | reassociate => rfl
  | opened opened languageId version text =>
    rw [Operation.respell]
    split
    case isTrue hk =>
      have hd := (hs.opened { uri := opened, languageId, version, text }).document?_iff.mpr
        ⟨s.entries.length, _, by rw [entry?_opened, if_pos rfl], rfl, hk, rfl⟩
      rw [Store.spelling?, hd]
      rfl
    case isFalse hk =>
      have heff := Effect.opened (s := s) opened languageId version text
      exact (spelling?_congr (hs.effect_elsewhere heff (Ne.symm hk))).symm
  | changed changes hf hc => exact (hs.edited_spelling hf hc _ _ uri).symm
  | saved text hf hc => exact (hs.edited_spelling hf hc _ _ uri).symm
  | @closed closed id e hf =>
    have hke : key e.document.uri = key closed :=
      ((hs.get?_iff (find?_eq_some_iff.mp hf).2 closed).mp (find?_eq_some_iff.mp hf).1).2
    rcases hs.effect_here (.closed hf) with ⟨hn, -⟩ | ⟨-, hd⟩
    · exact absurd rfl hn
    · rw [Operation.respell]
      split
      case isTrue hk =>
        rw [Store.spelling?, ← document?_of_key (hke.trans hk), hd]
        rfl
      case isFalse hk =>
        have hne : key uri ≠ key e.document.uri := fun h => hk (h.trans hke).symm
        exact (spelling?_congr (hs.effect_elsewhere (.closed hf) hne)).symm

/-- The project model's answer leaves the spellings alone. -/
theorem Answered.spelling (hs : s.Sound) {l : Lookup} {step : Step} (h : s.Answered l step)
    (uri : Bytes) : Store.spelling? step.1 uri = s.spelling? uri := by
  cases h with
  | still h => exact spelling?_congr (h.document? uri)
  | @stored e handle he hc h =>
    rw [spelling?_congr (h.document? uri)]
    exact hs.modifyEntry_spelling he hc hc rfl (hs.withHandle _ _) uri

end Store

end EditorSession.Document
