import EditorSession.Proofs.Document.Table

/-! The events that operations owe. Whatever an operation makes of the documents, it tells the
listeners of it: at once, or when the lookup that it waits for has come to its end. While it waits
it carries the event with it. -/

namespace EditorSession.Document

open Analysis (Handle)

/-- The event to be raised when the lookup has come to its end, whatever the answers. -/
def Errand.event? : Errand → Option Event
  | opening uri version _ => some ⟨uri, version, .opened⟩
  | raising event => some event
  | reassociating _ _ => none

def Suspended.event? : Suspended → Option Event
  | lookup l => l.errand.event?
  | delivery d => some d.event

/-- The uri that the project model is asked about. -/
def ModelCall.uri : ModelCall → Bytes
  | resolve uri => uri
  | update uri _ => uri

def Status.event? : Status → Option Event
  | done _ => none
  | suspended t => t.event?

/-- The event is about a document with this uri, and does not close it. -/
def Errand.Fits (errand : Errand) (uri : Bytes) : Prop :=
  ∀ event, errand.event? = some event → event.uri = uri ∧ event.kind ≠ .closed

/-- The event that tells of a new handle. -/
def Entry.resolved (e : Entry) : Event := ⟨e.document.uri, e.document.version, .opened⟩

theorem Entry.withText_uri (e : Entry) (text : Bytes) :
    (e.withText text).document.uri = e.document.uri := by
  unfold withText
  split <;> rfl

namespace Store

/-- There is one listener. -/
def Sole (s : Store) : Prop := ∃ active, s.listeners = [{ id := 1, active }]

/-- The step leaves the documents alone, and an operation that owes the event, or none. -/
structure Owes (s : Store) (event : Option Event) (step : Step) : Prop where
  entries : step.1.entries = s.entries
  table : step.1.table = s.table
  sole : Sole step.1
  event : step.2.1.event? = event
  fits : ∀ l, step.2.1 = .suspended (.lookup l) → l.errand.Fits l.uri

variable {s s' : Store}

/-! ### The listener -/

theorem sole_addListener : ({} : Store).addListener.1.Sole := ⟨0, rfl⟩

theorem Sole.registered (h : s.Sole) : s.registered = [1] := by
  obtain ⟨active, h⟩ := h
  simp [Store.registered, h]

theorem Sole.listens (h : s.Sole) : s.listens 1 = true := by
  obtain ⟨active, h⟩ := h
  simp [Store.listens, h]

theorem Sole.modifyListener (h : s.Sole) (id : ListenerId) (f : Nat → Nat) :
    (s.modifyListener id fun l => { l with active := f l.active }).Sole := by
  obtain ⟨active, h⟩ := h
  simp only [Sole, Store.modifyListener, h, List.map_cons, List.map_nil]
  split
  · exact ⟨f active, rfl⟩
  · exact ⟨active, rfl⟩

theorem Sole.of_eq (h : s.Sole) (hl : s'.listeners = s.listeners) : s'.Sole := by
  obtain ⟨active, h⟩ := h
  exact ⟨active, hl.trans h⟩

theorem Effect.listeners {operation : Operation} {event : Option Event}
    (h : s.Effect operation s' event) : s'.listeners = s.listeners := by
  cases h with
  | refused => rfl
  | reassociate => rfl
  | opened =>
    unfold Store.opened retire
    split <;> rfl
  | changed => rfl
  | saved => rfl
  | closed => rfl

/-! ### Going on with an event -/

theorem attempt?_errand {id : EntryId} {resolves : Bool} {attempts : Nat} {errand : Errand}
    {l : Lookup} (h : s.attempt? id resolves attempts errand = some l) :
    l.entry = id ∧ l.errand = errand := by
  unfold attempt? at h
  split at h
  case h_1 =>
    split at h
    case isTrue => cases h
    case isFalse =>
      obtain rfl := Option.some.inj h
      exact ⟨rfl, rfl⟩
  case h_2 => cases h

theorem Owes.saying {event : Option Event} {step : Step} (h : s.Owes event step)
    (notices : List Log.Notice) : s.Owes event (Store.saying notices step) :=
  ⟨h.entries, h.table, h.sole, h.event, h.fits⟩

namespace Sole

variable (h : s.Sole)

include h

theorem done (outcome : Outcome) (notices : List Log.Notice) :
    s.Owes none (s, .done outcome, notices) :=
  ⟨rfl, rfl, h, rfl, by simp⟩

theorem lookup {id : EntryId} {resolves : Bool} {attempts : Nat} {errand : Errand} {l : Lookup}
    (ha : s.attempt? id resolves attempts errand = some l)
    (hf : ∀ e, s.entry? id = some e → errand.Fits e.document.uri) :
    s.Owes errand.event? (s, .suspended (.lookup l), []) := by
  obtain ⟨e, hl⟩ := attempt?_fresh ha
  obtain ⟨rfl, rfl⟩ := attempt?_errand ha
  refine ⟨rfl, rfl, h, rfl, ?_⟩
  rintro _ ⟨⟩
  rw [hl.uri]
  exact hf e hl.entry

/-- A reassociation owes nothing before it has found a handle. -/
theorem reassociate (ids : List EntryId) (count : Nat) :
    s.Owes none (s.reassociate ids count) := by
  induction ids with
  | nil => exact h.done _ _
  | cons id ids ih =>
    rw [Store.reassociate]
    cases ha : s.attempt? id true maxAttempts (.reassociating ids count) with
    | none => exact ih
    | some l =>
      apply h.lookup ha
      intro e _ event he
      cases he

theorem conclude (aftermath : Aftermath) : s.Owes none (s.conclude aftermath) := by
  cases aftermath with
  | finish outcome => exact h.done outcome _
  | reassociate rest count => exact h.reassociate rest count

/-- The listener is told, perhaps again. -/
theorem notify (event : Event) (aftermath : Aftermath) (ids : List ListenerId) :
    ∃ owed, (owed = none ∨ owed = some event) ∧ s.Owes owed (s.notify event aftermath ids) := by
  induction ids with
  | nil => exact ⟨none, .inl rfl, h.conclude aftermath⟩
  | cons id ids ih =>
    rw [Store.notify]
    split
    case isTrue =>
      exact ⟨some event, .inr rfl, rfl, rfl, h.modifyListener id _, rfl, by simp⟩
    case isFalse => exact ih

theorem raise (event : Event) (aftermath : Aftermath) :
    s.Owes (some event) (s.raise event aftermath) := by
  rw [Store.raise, h.registered, Store.notify, if_pos h.listens]
  exact ⟨rfl, rfl, h.modifyListener 1 _, rfl, by simp⟩

/-- An operation that was not given a handle goes on with the event that it carries. -/
theorem afterLookup_without (id : EntryId) (errand : Errand) :
    s.Owes errand.event? (s.afterLookup id false errand) := by
  cases errand with
  | opening uri version size => exact (h.raise _ _).saying _
  | raising event => exact h.raise event _
  | reassociating rest count => exact h.reassociate rest count

/-- An operation that was given a handle tells of it. -/
theorem afterLookup_stored {id : EntryId} {e : Entry} (he : s.entry? id = some e)
    (errand : Errand) :
    s.Owes (some (errand.event?.getD e.resolved)) (s.afterLookup id true errand) := by
  cases errand with
  | opening uri version size => exact (h.raise _ _).saying _
  | raising event => exact h.raise event _
  | reassociating rest count =>
    simp only [Store.afterLookup, he]
    exact (h.raise _ _).saying _

theorem refresh {id : EntryId} (errand : Errand)
    (hf : ∀ e, s.entry? id = some e → errand.Fits e.document.uri) (resolves : Bool)
    (attempts : Nat) : s.Owes errand.event? (s.refresh id resolves attempts errand) := by
  unfold Store.refresh
  cases ha : s.attempt? id resolves attempts errand with
  | none => exact h.afterLookup_without id errand
  | some l => exact h.lookup ha hf

theorem resumeDelivery (d : Delivery) (failure : Option Bytes) :
    ∃ owed, (owed = none ∨ owed = some d.event) ∧ s.Owes owed (s.resumeDelivery d failure) := by
  obtain ⟨owed, ho, hs⟩ :=
    (h.modifyListener d.listener (· - 1)).notify d.event d.aftermath d.waiting
  exact ⟨owed, ho, hs.entries, hs.table, hs.sole, hs.event, hs.fits⟩

end Sole

/-! ### Starting an operation -/

theorem Sole.update (h : s.Sole) {id : EntryId} {before after : Entry} {event : Event}
    (hu : event.uri = after.document.uri) (hk : event.kind ≠ .closed) :
    (s.modifyEntry id fun _ => after).Owes (some event) (s.update id before after event) := by
  have hs : (s.modifyEntry id fun _ => after).Sole := h.of_eq rfl
  unfold Store.update
  split
  case isTrue =>
    refine hs.refresh (.raising event) ?_ _ _
    intro e he
    rw [entry?_modifyEntry] at he
    obtain ⟨_, _, rfl⟩ := Option.map_eq_some_iff.mp he
    rintro _ ⟨⟩
    rw [if_pos rfl]
    exact ⟨hu, hk⟩
  case isFalse => exact hs.raise event _

theorem Sole.openDocument (h : s.Sole) (uri languageId : Bytes) (version : Int64) (text : Bytes) :
    (s.opened { uri, languageId, version, text }).Owes (some ⟨uri, version, .opened⟩)
      (s.start (.openDocument uri languageId version text)) := by
  have hs : (s.opened { uri, languageId, version, text }).Sole :=
    h.of_eq (Effect.opened uri languageId version text).listeners
  refine (hs.refresh (.opening uri version text.length) ?_ _ _).saying _
  intro e he
  rw [entry?_opened, if_pos rfl] at he
  obtain rfl := Option.some.inj he
  rintro _ ⟨⟩
  exact ⟨rfl, by simp⟩

theorem Sole.closeDocument (h : s.Sole) {uri : Bytes} {id : EntryId} {e : Entry}
    (hf : s.find? uri = some (id, e)) :
    (s.shut uri id).Owes (some ⟨e.document.uri, e.document.version, .closed⟩)
      (s.start (.closeDocument uri)) := by
  have hs : (s.shut uri id).Sole := h.of_eq rfl
  rw [start, startClose, hf]
  exact (hs.raise _ _).saying _

/-- Whatever the start of an operation makes of the documents, it owes the event of it. -/
theorem Effect.owes {operation : Operation} {event : Option Event}
    (h : s.Effect operation s' event) (hs : s.Sole) : s'.Owes event (s.start operation) := by
  cases h with
  | refused h =>
    obtain ⟨notices, hr⟩ := h.start
    rw [hr]
    exact hs.done _ _
  | reassociate => exact hs.reassociate _ _
  | opened uri languageId version text => exact hs.openDocument uri languageId version text
  | changed changes hf hc hv =>
    rw [start_changeDocument hf hc hv]
    exact hs.update (Entry.withText_uri _ _).symm (by simp)
  | saved text hf hc =>
    rw [start_saveDocument hf hc, edited_self]
    exact hs.update (Entry.withText_uri _ _).symm (by simp)
  | closed hf => exact hs.closeDocument hf

/-! ### Resuming a lookup -/

/-- What an answer of the project model leads to: the operation owes what it owed before, or it owes
the news of a handle that was stored. -/
inductive Answered (s : Store) (l : Lookup) (step : Step) : Prop where
  | still (h : s.Owes l.errand.event? step)
  | stored {e handle} (he : s.entry? l.entry = some e) (hc : e.closed = false)
      (h : (s.withHandle l.entry handle).Owes (some (l.errand.event?.getD e.resolved)) step)

theorem Answered.saying {l : Lookup} {step : Step} (h : s.Answered l step)
    (notices : List Log.Notice) : s.Answered l (Store.saying notices step) := by
  cases h with
  | still h => exact .still (h.saying notices)
  | stored he hc h => exact .stored he hc (h.saying notices)

section

variable {l : Lookup} (hs : s.Sole) (hl : l.errand.Fits l.uri)
  (hu : ∀ e, s.entry? l.entry = some e → l.uri = e.document.uri)

include hs hl hu

theorem Sole.storeHandle (handle : Handle) : s.Answered l (s.storeHandle l handle) := by
  unfold Store.storeHandle
  cases he : s.entry? l.entry with
  | none => exact .still (hs.afterLookup_without _ _)
  | some e =>
    by_cases hc : e.closed = true ∨ e.document.handle.isSome = true
    · simp only [hc, ↓reduceIte]
      exact .still (hs.afterLookup_without _ _)
    · simp only [hc, ↓reduceIte]
      split
      case isTrue =>
        rw [not_or, Bool.not_eq_true] at hc
        have hsole : (s.withHandle l.entry handle).Sole := hs.of_eq rfl
        exact .stored he hc.1 (hsole.afterLookup_stored (entry?_withHandle_self he handle) l.errand)
      case isFalse =>
        refine .saying (.still (hs.refresh l.errand ?_ _ _)) _
        intro e' he'
        exact hu e' he' ▸ hl

theorem Sole.resumeLookup (answer : ModelAnswer) : s.Answered l (s.resumeLookup l answer) := by
  unfold Store.resumeLookup
  cases answer with
  | error reason => exact .saying (.still (hs.afterLookup_without _ _)) _
  | ok handle =>
    cases hp : l.phase with
    | resolving =>
      cases handle with
      | none => exact .still (hs.afterLookup_without _ _)
      | some h =>
        refine .still ⟨rfl, rfl, hs, rfl, ?_⟩
        rintro _ ⟨⟩
        exact hl
    | updating resolved =>
      cases hh : handle.or resolved with
      | none =>
        simp only [hh]
        exact .saying (.still (hs.afterLookup_without _ _)) _
      | some h =>
        simp only [hh]
        exact hs.storeHandle hl hu h

end

/-! ### Which document a step is about -/

theorem document?_congr (he : s'.entries = s.entries) (ht : s'.table = s.table) (uri : Bytes) :
    s'.document? uri = s.document? uri := by
  simp only [document?, find?, Store.entry?, he, ht]

theorem document?_of_key {uri uri' : Bytes} (hk : key uri = key uri') :
    s.document? uri = s.document? uri' := by
  simp only [document?, find?, hk]

theorem Owes.document? {event : Option Event} {step : Step} (h : s.Owes event step) (uri : Bytes) :
    Store.document? step.1 uri = s.document? uri :=
  document?_congr h.entries h.table uri

theorem Sound.document?_iff (hs : s.Sound) {uri : Bytes} {d : OpenDocument} :
    s.document? uri = some d ↔
      ∃ id e, s.entry? id = some e ∧ e.closed = false ∧ key e.document.uri = key uri ∧
        e.document = d := by
  rw [document?_eq_some_iff]
  constructor
  · rintro ⟨id, e, ⟨hg, he⟩, hc, hd⟩
    exact ⟨id, e, he, hc, ((hs.get?_iff he uri).mp hg).2, hd⟩
  · rintro ⟨id, e, he, hc, hk, hd⟩
    exact ⟨id, e, ⟨(hs.get?_iff he uri).mpr ⟨hc, hk⟩, he⟩, hc, hd⟩

/-- A document stays if its entry does and no other takes its place. -/
theorem Sound.document?_eq (hs : s.Sound) (hs' : s'.Sound) {uri : Bytes}
    (h : ∀ id e, e.closed = false → key e.document.uri = key uri →
      (s'.entry? id = some e ↔ s.entry? id = some e)) : s'.document? uri = s.document? uri := by
  apply Option.ext
  intro d
  rw [hs.document?_iff, hs'.document?_iff]
  constructor
  · rintro ⟨id, e, he, hc, hk, hd⟩
    exact ⟨id, e, (h id e hc hk).mp he, hc, hk, hd⟩
  · rintro ⟨id, e, he, hc, hk, hd⟩
    exact ⟨id, e, (h id e hc hk).mpr he, hc, hk, hd⟩

/-- An entry is replaced by one with the same uri, so no other document is concerned. -/
theorem Sound.modifyEntry_elsewhere (hs : s.Sound) {id : EntryId} {e : Entry} {f : Entry → Entry}
    (he : s.entry? id = some e) (hu : (f e).document.uri = e.document.uri)
    (hs' : (s.modifyEntry id f).Sound) {uri : Bytes} (hk : key uri ≠ key e.document.uri) :
    (s.modifyEntry id f).document? uri = s.document? uri := by
  apply hs.document?_eq hs'
  intro i e' _ hk'
  rw [entry?_modifyEntry]
  by_cases hi : id = i
  · subst hi
    rw [he, Option.map_some, if_pos rfl]
    constructor
    · rintro ⟨⟩
      exact absurd (hu ▸ hk').symm hk
    · rintro ⟨⟩
      exact absurd hk'.symm hk
  · simp [hi]

theorem Sound.modifyEntry_here {id : EntryId} {e : Entry} {f : Entry → Entry}
    (he : s.entry? id = some e) (hc : (f e).closed = false)
    (hu : (f e).document.uri = e.document.uri) (hs' : (s.modifyEntry id f).Sound) :
    (s.modifyEntry id f).document? e.document.uri = some (f e).document := by
  rw [hs'.document?_iff]
  refine ⟨id, f e, ?_, hc, by rw [hu], rfl⟩
  rw [entry?_modifyEntry, he, Option.map_some, if_pos rfl]

/-- An effect without an event is none. -/
theorem Effect.eq_of_none {operation : Operation} (h : s.Effect operation s' none) : s' = s := by
  cases h with
  | refused => rfl
  | reassociate => rfl

theorem Sound.edited_elsewhere (hs : s.Sound) {uri uri' : Bytes} {id : EntryId} {e : Entry}
    (hf : s.find? uri = some (id, e)) (hc : e.closed = false) (text : Bytes) (version : Int64)
    (hk : key uri' ≠ key e.document.uri) :
    (s.edited id e text version).document? uri' = s.document? uri' :=
  hs.modifyEntry_elsewhere (find?_eq_some_iff.mp hf).2 (e.withText_uri text)
    (hs.change (.edited text version hf hc)) hk

theorem Sound.edited_here (hs : s.Sound) {uri : Bytes} {id : EntryId} {e : Entry}
    (hf : s.find? uri = some (id, e)) (hc : e.closed = false) (text : Bytes) (version : Int64) :
    ((s.edited id e text version).document? e.document.uri).isSome := by
  have hc' : (e.withText text).closed = false := by
    unfold Entry.withText
    split <;> exact hc
  have hd := Sound.modifyEntry_here (find?_eq_some_iff.mp hf).2 hc' (e.withText_uri text)
    (hs.change (.edited text version hf hc))
  rw [edited, hd]
  rfl

/-- An effect concerns no document but the one that its event is about. -/
theorem Sound.effect_elsewhere (hs : s.Sound) {operation : Operation} {event : Event}
    (h : s.Effect operation s' (some event)) {uri : Bytes} (hk : key uri ≠ key event.uri) :
    s'.document? uri = s.document? uri := by
  cases h with
  | opened u languageId version text =>
    apply hs.document?_eq (hs.opened _)
    intro id e hc hk'
    rw [entry?_opened]
    by_cases hi : id = s.entries.length
    · rw [if_pos hi]
      constructor
      · rintro ⟨⟩
        exact absurd hk'.symm hk
      · intro he
        exact absurd hi (Nat.ne_of_lt (lt_length_of_entry he))
    · rw [if_neg hi, entry?_retire]
      constructor
      · intro he
        obtain ⟨e₀, he₀, rfl⟩ := Option.map_eq_some_iff.mp he
        split at hc
        case isTrue => cases hc
        case isFalse hg =>
          rw [if_neg hg]
          exact he₀
      · intro he
        have hg : ¬Table.get? (key u) s.table = some id := by
          intro hg
          exact hk (hk'.symm.trans ((hs.get?_iff he u).mp hg).2)
        rw [he, Option.map_some, if_neg hg]
  | changed changes hf hc hv => exact hs.edited_elsewhere hf hc _ _ hk
  | saved text hf hc => exact hs.edited_elsewhere hf hc _ _ hk
  | @closed u id e hf =>
    apply hs.document?_eq (hs.shut hf)
    intro i e' hc hk'
    rw [entry?_shut]
    by_cases hi : id = i
    · subst hi
      rw [(find?_eq_some_iff.mp hf).2, Option.map_some, if_pos rfl]
      constructor
      · rintro ⟨⟩
        cases hc
      · rintro ⟨⟩
        exact absurd hk'.symm hk
    · simp [hi]

/-- An operation that closes a document leaves none behind, and every other one leaves one. -/
theorem Sound.effect_here (hs : s.Sound) {operation : Operation} {event : Event}
    (h : s.Effect operation s' (some event)) :
    event.kind ≠ .closed ∧ (s'.document? event.uri).isSome ∨
      event.kind = .closed ∧ s'.document? event.uri = none := by
  cases h with
  | opened uri languageId version text =>
    refine .inl ⟨by simp, ?_⟩
    have hd := (hs.opened { uri, languageId, version, text }).document?_iff.mpr
      ⟨s.entries.length, _, by rw [entry?_opened, if_pos rfl], rfl, rfl, rfl⟩
    rw [hd]
    rfl
  | changed changes hf hc hv => exact .inl ⟨by simp, hs.edited_here hf hc _ _⟩
  | saved text hf hc => exact .inl ⟨by simp, hs.edited_here hf hc _ _⟩
  | @closed uri id e hf =>
    obtain ⟨hg, he⟩ := find?_eq_some_iff.mp hf
    refine .inr ⟨rfl, ?_⟩
    rw [document?_of_key ((hs.get?_iff he uri).mp hg).2]
    simp [document?, find?, Store.shut]

end Store

end EditorSession.Document
