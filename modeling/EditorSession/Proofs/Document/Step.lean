import EditorSession.Document.Operation
import EditorSession.Proofs.Table

/-! What a step of an operation does to the documents. It makes at most one change to the table and
its entries, at the start of the operation or when a handle arrives. Then it only goes on: it tells
listeners, or starts the next attempt at a handle from the entry as it stands. -/

namespace EditorSession.Document

open Analysis (Handle)

/-- A new text leaves the version. -/
theorem Entry.withText_version_self (e : Entry) (text : Bytes) :
    { e.withText text with
      document := { (e.withText text).document with version := e.document.version } } =
      e.withText text := by
  unfold withText
  split <;> rfl

namespace Store

theorem arrange_perm (first ids : List EntryId) : (arrange first ids).Perm ids := by
  induction first generalizing ids with
  | nil => exact .refl _
  | cons id first ih =>
    rw [arrange]
    split
    case isTrue hm => exact ((ih _).cons id).trans (List.perm_cons_erase hm).symm
    case isFalse => exact ih ids

/-- Every order is met. -/
theorem arrange_eq {order ids : List EntryId} (h : order.Perm ids) : arrange order ids = order := by
  induction order generalizing ids with
  | nil => exact h.symm.eq_nil
  | cons id order ih =>
    obtain ⟨hm, hp⟩ := List.cons_perm_iff_perm_erase.mp h
    rw [arrange, if_pos hm, ih hp]

/-- The document that a new one under `uri` replaces is marked closed. -/
def retire (s : Store) (uri : Bytes) : Store :=
  match Table.get? (key uri) s.table with
  | some old => s.modifyEntry old fun e => { e with closed := true }
  | none => s

/-- The store with a new document. -/
def opened (s : Store) (document : OpenDocument) : Store :=
  { s.retire document.uri with
    entries := (s.retire document.uri).entries ++ [{ document }]
    table := Table.set (key document.uri) s.entries.length (s.retire document.uri).table }

/-- The entry with a new text and version. -/
def edited (s : Store) (id : EntryId) (entry : Entry) (text : Bytes) (version : Int64) : Store :=
  s.modifyEntry id fun _ =>
    { entry.withText text with document := { (entry.withText text).document with version } }

theorem edited_self (s : Store) (id : EntryId) (e : Entry) (text : Bytes) :
    s.edited id e text e.document.version = s.modifyEntry id fun _ => e.withText text := by
  rw [edited, e.withText_version_self]

def shut (s : Store) (uri : Bytes) (id : EntryId) : Store :=
  { s.modifyEntry id (fun e => { e with closed := true }) with
    table := Table.erase (key uri) s.table }

/-- The changes that the start of an operation can make. -/
inductive Change (s : Store) : Store → Prop where
  | still {s'} (he : s'.entries = s.entries) (ht : s'.table = s.table) : Change s s'
  | opened (uri languageId version text) : Change s (s.opened { uri, languageId, version, text })
  | edited {uri id e} (text version) (hf : s.find? uri = some (id, e)) (hc : e.closed = false) :
      Change s (s.edited id e text version)
  | shut {uri id e} (hf : s.find? uri = some (id, e)) : Change s (s.shut uri id)

/-- The operation is about no open document, or brings it a version that is not newer. -/
inductive Refuses (s : Store) : Operation → Prop where
  | change {uri version} (changes)
      (h : ∀ id e, s.find? uri = some (id, e) → e.closed = false → version ≤ e.document.version) :
      Refuses s (.changeDocument uri version changes)
  | close {uri} (h : s.find? uri = none) : Refuses s (.closeDocument uri)
  | save {uri} (text) (h : ∀ id e, s.find? uri = some (id, e) → e.closed = true) :
      Refuses s (.saveDocument uri text)

/-- What an operation makes of the store at its start, and the event that it owes for it. -/
inductive Effect (s : Store) : Operation → Store → Option Event → Prop where
  | refused {operation} (h : s.Refuses operation) : Effect s operation s none
  | reassociate (first) : Effect s (.reassociateFirst first) s none
  | opened (uri languageId version text) :
      Effect s (.openDocument uri languageId version text)
        (s.opened { uri, languageId, version, text }) (some ⟨uri, version, .opened⟩)
  | changed {uri version id e} (changes) (hf : s.find? uri = some (id, e)) (hc : e.closed = false)
      (hv : e.document.version < version) :
      Effect s (.changeDocument uri version changes)
        (s.edited id e (Text.applyChanges e.document.text changes) version)
        (some ⟨e.document.uri, version, .changed⟩)
  | saved {uri id e} (text) (hf : s.find? uri = some (id, e)) (hc : e.closed = false) :
      Effect s (.saveDocument uri text)
        (s.edited id e (text.getD e.document.text) e.document.version)
        (some ⟨e.document.uri, e.document.version, .saved⟩)
  | closed {uri id e} (hf : s.find? uri = some (id, e)) :
      Effect s (.closeDocument uri) (s.shut uri id)
        (some ⟨e.document.uri, e.document.version, .closed⟩)

/-- A lookup that was just started for an entry, which is open and has no handle. -/
structure Fresh (s : Store) (l : Lookup) (e : Entry) : Prop where
  entry : s.entry? l.entry = some e
  closed : e.closed = false
  handle : e.document.handle = none
  uri : l.uri = e.document.uri
  text : l.text = e.document.text
  generation : l.generation = e.generation
  phase : l.phase = .resolving ∨ l.phase = .updating none

/-- The step goes on from the store without a change to the documents. -/
structure GoesOn (s : Store) (step : Step) : Prop where
  entries : step.1.entries = s.entries
  table : step.1.table = s.table
  fresh : ∀ l, step.2.1 = .suspended (.lookup l) → ∃ e, s.Fresh l e

theorem attempt?_fresh {s : Store} {id : EntryId} {resolves : Bool} {attempts : Nat}
    {errand : Errand} {l : Lookup} (h : s.attempt? id resolves attempts errand = some l) :
    ∃ e, s.Fresh l e := by
  unfold attempt? at h
  split at h
  case h_1 e attempts he =>
    by_cases hc : e.closed = true ∨ e.document.handle.isSome = true
    · simp [hc] at h
    · rw [if_neg hc] at h
      obtain rfl := Option.some.inj h
      rw [not_or, Bool.not_eq_true, Bool.not_eq_true, Option.isSome_eq_false_iff,
        Option.isNone_iff_eq_none] at hc
      refine ⟨e, he, hc.1, hc.2, rfl, rfl, rfl, ?_⟩
      cases resolves
      · exact .inr rfl
      · exact .inl rfl
  case h_2 => cases h

namespace GoesOn

variable {s s' : Store}

theorem entry? {step : Step} (h : s.GoesOn step) (i : EntryId) :
    Store.entry? step.1 i = s.entry? i := by
  rw [Store.entry?, h.entries]
  rfl

theorem done (outcome : Outcome) (notices : List Log.Notice) :
    s.GoesOn (s, .done outcome, notices) :=
  ⟨rfl, rfl, by simp⟩

theorem lookup {l : Lookup} {e : Entry} (h : s.Fresh l e) (notices : List Log.Notice) :
    s.GoesOn (s, .suspended (.lookup l), notices) := by
  refine ⟨rfl, rfl, ?_⟩
  rintro _ ⟨⟩
  exact ⟨e, h⟩

theorem saying {step : Step} (h : s.GoesOn step) (notices : List Log.Notice) :
    s.GoesOn (Store.saying notices step) :=
  ⟨h.entries, h.table, h.fresh⟩

/-- Only the listeners of the store differ. -/
theorem of_listeners {step : Step} (he : s'.entries = s.entries) (ht : s'.table = s.table)
    (h : s'.GoesOn step) : s.GoesOn step := by
  refine ⟨h.entries.trans he, h.table.trans ht, ?_⟩
  intro l hl
  obtain ⟨e, hf⟩ := h.fresh l hl
  refine ⟨e, ?_, hf.closed, hf.handle, hf.uri, hf.text, hf.generation, hf.phase⟩
  rw [Store.entry?, ← he]
  exact hf.entry

/-- A lookup that the step has started is fresh in the store that the step has left. -/
theorem fresh_here {step : Step} (h : s.GoesOn step) (l : Lookup)
    (hl : step.2.1 = .suspended (.lookup l)) : ∃ e, Store.Fresh step.1 l e := by
  obtain ⟨e, hf⟩ := h.fresh l hl
  have he : Store.entry? step.1 l.entry = some e := by
    rw [Store.entry?, h.entries]
    exact hf.entry
  exact ⟨e, he, hf.closed, hf.handle, hf.uri, hf.text, hf.generation, hf.phase⟩

theorem reassociate (ids : List EntryId) (count : Nat) : s.GoesOn (s.reassociate ids count) := by
  induction ids with
  | nil => exact done _ _
  | cons id ids ih =>
    rw [Store.reassociate]
    cases h : s.attempt? id true maxAttempts (.reassociating ids count) with
    | none => exact ih
    | some l =>
      obtain ⟨e, hf⟩ := attempt?_fresh h
      exact lookup hf _

theorem conclude (aftermath : Aftermath) : s.GoesOn (s.conclude aftermath) := by
  cases aftermath with
  | finish outcome => exact done outcome _
  | reassociate rest count => exact reassociate rest count

theorem notify (event : Event) (aftermath : Aftermath) (ids : List ListenerId) :
    s.GoesOn (s.notify event aftermath ids) := by
  induction ids with
  | nil => exact conclude aftermath
  | cons id ids ih =>
    rw [Store.notify]
    split
    · exact ⟨rfl, rfl, by simp⟩
    · exact ih

theorem raise (event : Event) (aftermath : Aftermath) : s.GoesOn (s.raise event aftermath) :=
  notify event aftermath _

theorem afterLookup (id : EntryId) (stored : Bool) (errand : Errand) :
    s.GoesOn (s.afterLookup id stored errand) := by
  cases errand with
  | opening uri version size => exact (raise _ _).saying _
  | raising event => exact raise event _
  | reassociating rest count =>
    simp only [Store.afterLookup]
    split
    · exact (raise _ _).saying _
    · exact reassociate rest count

theorem refresh (id : EntryId) (resolves : Bool) (attempts : Nat) (errand : Errand) :
    s.GoesOn (s.refresh id resolves attempts errand) := by
  unfold Store.refresh
  cases h : s.attempt? id resolves attempts errand with
  | none => exact afterLookup id false errand
  | some l =>
    obtain ⟨e, hf⟩ := attempt?_fresh h
    exact lookup hf _

theorem resumeDelivery (d : Delivery) (failure : Option Bytes) :
    s.GoesOn (s.resumeDelivery d failure) := by
  rw [Store.resumeDelivery]
  refine saying (of_listeners ?_ ?_ (notify d.event d.aftermath d.waiting)) _
  · rfl
  · rfl

end GoesOn

/-! ### Starting an operation -/

theorem update_goesOn (s : Store) (id : EntryId) (before after : Entry) (event : Event) :
    (s.modifyEntry id fun _ => after).GoesOn (s.update id before after event) := by
  unfold update
  dsimp only
  split
  · exact .refresh _ _ _ _
  · exact .raise _ _

theorem openDocument_goesOn (s : Store) (uri languageId : Bytes) (version : Int64) (text : Bytes) :
    (s.opened { uri, languageId, version, text }).GoesOn
      (s.start (.openDocument uri languageId version text)) :=
  (GoesOn.refresh _ _ _ _).saying _

theorem closeDocument_goesOn {s : Store} {uri : Bytes} {id : EntryId} {e : Entry}
    (hf : s.find? uri = some (id, e)) : (s.shut uri id).GoesOn (s.start (.closeDocument uri)) := by
  rw [start, startClose, hf]
  exact (GoesOn.raise _ _).saying _

/-- A refused operation does nothing, and is over at once. -/
theorem Refuses.start {s : Store} {operation : Operation} (h : s.Refuses operation) :
    ∃ notices, s.start operation = (s, .done (.handled false), notices) := by
  cases h with
  | change changes h =>
    rw [Store.start, startChange]
    split
    case h_1 => exact ⟨_, rfl⟩
    case h_2 id e hf =>
      by_cases hc : e.closed = true
      · exact ⟨_, if_pos hc⟩
      · rw [if_neg hc, if_pos (h id e hf (by simpa using hc))]
        exact ⟨_, rfl⟩
  | close h =>
    rw [Store.start, startClose, h]
    exact ⟨_, rfl⟩
  | save text h =>
    rw [Store.start, startSave]
    split
    case h_1 => exact ⟨_, rfl⟩
    case h_2 id e hf => exact ⟨_, if_pos (h id e hf)⟩

theorem start_changeDocument {s : Store} {uri : Bytes} {id : EntryId} {e : Entry}
    (hf : s.find? uri = some (id, e)) (hc : e.closed = false) {version : Int64}
    (hv : e.document.version < version) (changes : List Lsp.Change) :
    s.start (.changeDocument uri version changes) =
      let changed := e.withText (Text.applyChanges e.document.text changes)
      s.update id e { changed with document := { changed.document with version } }
        ⟨e.document.uri, version, .changed⟩ := by
  rw [start, startChange, hf]
  simp only [hc, Int64.not_le.mpr hv, Bool.false_eq_true, ↓reduceIte]

theorem start_saveDocument {s : Store} {uri : Bytes} {id : EntryId} {e : Entry}
    (hf : s.find? uri = some (id, e)) (hc : e.closed = false) (text : Option Bytes) :
    s.start (.saveDocument uri text) =
      s.update id e (e.withText (text.getD e.document.text))
        ⟨e.document.uri, e.document.version, .saved⟩ := by
  rw [start, startSave, hf]
  simp only [hc, Bool.false_eq_true, ↓reduceIte]

theorem exists_effect (s : Store) (operation : Operation) :
    ∃ s' event, s.Effect operation s' event := by
  cases operation with
  | openDocument uri languageId version text => exact ⟨_, _, .opened uri languageId version text⟩
  | changeDocument uri version changes =>
    by_cases h : ∃ id e, s.find? uri = some (id, e) ∧ e.closed = false ∧
        e.document.version < version
    · obtain ⟨id, e, hf, hc, hv⟩ := h
      exact ⟨_, _, .changed changes hf hc hv⟩
    · refine ⟨_, _, .refused (.change changes ?_)⟩
      intro id e hf hc
      exact Int64.not_lt.mp fun hv => h ⟨id, e, hf, hc, hv⟩
  | closeDocument uri =>
    cases hf : s.find? uri with
    | none => exact ⟨_, _, .refused (.close hf)⟩
    | some found => exact ⟨_, _, .closed hf⟩
  | saveDocument uri text =>
    by_cases h : ∃ id e, s.find? uri = some (id, e) ∧ e.closed = false
    · obtain ⟨id, e, hf, hc⟩ := h
      exact ⟨_, _, .saved text hf hc⟩
    · refine ⟨_, _, .refused (.save text ?_)⟩
      intro id e hf
      exact (Bool.not_eq_false _).mp fun hc => h ⟨id, e, hf, hc⟩
  | reassociateFirst first => exact ⟨_, _, .reassociate first⟩

/-- The start of an operation goes on from its effect. -/
theorem Effect.goesOn {s s' : Store} {operation : Operation} {event : Option Event}
    (h : s.Effect operation s' event) : s'.GoesOn (s.start operation) := by
  cases h with
  | refused h =>
    obtain ⟨notices, hs⟩ := h.start
    rw [hs]
    exact .done _ _
  | reassociate => exact .reassociate _ _
  | opened uri languageId version text => exact s.openDocument_goesOn uri languageId version text
  | changed changes hf hc hv =>
    rw [start_changeDocument hf hc hv]
    exact update_goesOn _ _ _ _ _
  | saved text hf hc =>
    rw [start_saveDocument hf hc, edited_self]
    exact update_goesOn _ _ _ _ _
  | closed hf => exact closeDocument_goesOn hf

theorem Effect.change {s s' : Store} {operation : Operation} {event : Option Event}
    (h : s.Effect operation s' event) : s.Change s' := by
  cases h with
  | refused => exact .still rfl rfl
  | reassociate => exact .still rfl rfl
  | opened uri languageId version text => exact .opened uri languageId version text
  | changed changes hf hc hv => exact .edited _ _ hf hc
  | saved text hf hc => exact .edited _ _ hf hc
  | closed hf => exact .shut hf

/-- What the start of an operation does. -/
theorem start_cases (s : Store) (operation : Operation) :
    ∃ s', s.Change s' ∧ s'.GoesOn (s.start operation) := by
  obtain ⟨s', event, h⟩ := s.exists_effect operation
  exact ⟨s', h.change, h.goesOn⟩

/-! ### Resuming a lookup -/

def withHandle (s : Store) (id : EntryId) (handle : Handle) : Store :=
  s.modifyEntry id fun e => { e with document := { e.document with handle := some handle } }

/-- What the answer of the project model leads to: the operation goes on without a handle, the lookup
goes on to the update, or the handle is stored. -/
inductive Resumption (s : Store) (l : Lookup) : ModelAnswer → Step → Prop where
  | without {answer step} (h : s.GoesOn step) : Resumption s l answer step
  | resolved {h} (hp : l.phase = .resolving) :
      Resumption s l (.ok (some h))
        (s, .suspended (.lookup { l with phase := .updating (some h) }), [])
  | stored {handle resolved h e step} (hp : l.phase = .updating resolved)
      (hh : handle.or resolved = some h) (he : s.entry? l.entry = some e) (hc : e.closed = false)
      (hn : e.document.handle = none) (hg : e.generation = l.generation)
      (hs : (s.withHandle l.entry h).GoesOn step) : Resumption s l (.ok handle) step

theorem storeHandle_cases (s : Store) (l : Lookup) (h : Handle) :
    s.GoesOn (s.storeHandle l h) ∨
      ∃ e, s.entry? l.entry = some e ∧ e.closed = false ∧ e.document.handle = none ∧
        e.generation = l.generation ∧ (s.withHandle l.entry h).GoesOn (s.storeHandle l h) := by
  unfold storeHandle
  cases he : s.entry? l.entry with
  | none => exact .inl (.afterLookup _ _ _)
  | some e =>
    by_cases hc : e.closed = true ∨ e.document.handle.isSome = true
    · simp only [hc, ↓reduceIte]
      exact .inl (.afterLookup _ _ _)
    · by_cases hg : e.generation = l.generation
      · simp only [hc, hg, ↓reduceIte]
        rw [not_or, Bool.not_eq_true, Bool.not_eq_true, Option.isSome_eq_false_iff,
          Option.isNone_iff_eq_none] at hc
        exact .inr ⟨e, rfl, hc.1, hc.2, hg, .afterLookup _ _ _⟩
      · simp only [hc, hg, ↓reduceIte]
        exact .inl ((GoesOn.refresh _ _ _ _).saying _)

theorem resumeLookup_cases (s : Store) (l : Lookup) (answer : ModelAnswer) :
    s.Resumption l answer (s.resumeLookup l answer) := by
  unfold resumeLookup
  cases answer with
  | error reason => exact .without ((GoesOn.afterLookup _ _ _).saying _)
  | ok handle =>
    cases hp : l.phase with
    | resolving =>
      cases handle with
      | none => exact .without (.afterLookup _ _ _)
      | some h => exact .resolved hp
    | updating resolved =>
      cases hh : handle.or resolved with
      | none =>
        simp only [hh]
        exact .without ((GoesOn.afterLookup _ _ _).saying _)
      | some h =>
        simp only [hh]
        obtain hs | ⟨e, he, hc, hn, hg, hs⟩ := s.storeHandle_cases l h
        · exact .without hs
        · exact .stored hp hh he hc hn hg hs

end Store

end EditorSession.Document
