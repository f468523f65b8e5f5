import EditorSession.Proofs.Document.Events
import EditorSession.Proofs.Document.Run

/-! Whose uri is spoken of. Every entry goes back to one opening of a document, and keeps the uri of
it. What the project model is asked and what listeners are told goes by that uri, whatever the
spelling that the operation came with. -/

namespace EditorSession.Document

/-- The uri under which a document is opened. -/
def Record.opening? : Record → Option Bytes
  | began _ (.openDocument uri _ _ _) => some uri
  | began _ (.changeDocument _ _ _) => none
  | began _ (.closeDocument _) => none
  | began _ (.saveDocument _ _) => none
  | began _ (.reassociateFirst _) => none
  | replied _ _ _ => none
  | heard _ _ _ => none

/-- The uris under which documents were opened, in order. -/
def openings (trace : List Record) : List Bytes := trace.filterMap Record.opening?

theorem openings_append (trace more : List Record) :
    openings (trace ++ more) = openings trace ++ openings more :=
  List.filterMap_append

/-- The uri by which an operation finds its document. -/
def Operation.seeks? : Operation → Option Bytes
  | openDocument _ _ _ _ => none
  | changeDocument uri _ _ => some uri
  | closeDocument uri => some uri
  | saveDocument uri _ => some uri
  | reassociateFirst _ => none

/-- The uri that the project model is asked about, or that listeners are told. -/
def Suspended.uri : Suspended → Bytes
  | lookup l => l.call.uri
  | delivery d => d.event.uri

def Errand.rest : Errand → List EntryId
  | opening _ _ _ => []
  | raising _ => []
  | reassociating rest _ => rest

def Aftermath.rest : Aftermath → List EntryId
  | finish _ => []
  | reassociate rest _ => rest

theorem Lookup.uri_call (l : Lookup) : l.call.uri = l.uri := by
  unfold Lookup.call
  split <;> rfl

namespace Store

/-- The uris of all entries, as they were opened. -/
def spellings (s : Store) : List Bytes := s.entries.map (·.document.uri)

/-- The entries that an operation deals with when it is begun: the new one, the one it finds, or all
that are listed. -/
inductive Touches (s : Store) : Operation → EntryId → Prop where
  | opened (uri languageId version text) :
      Touches s (.openDocument uri languageId version text) s.entries.length
  | found {operation uri i e} (hu : operation.seeks? = some uri) (hf : s.find? uri = some (i, e)) :
      Touches s operation i
  | listed {i} (first) (hi : i ∈ s.table.map (·.2)) : Touches s (.reassociateFirst first) i

/-- What an operation asks or tells next is about an entry that is its business, by the uri of that
entry; and so are the entries that it will go on with. -/
inductive Minds (s : Store) (business : EntryId → Prop) : Status → Prop where
  | done (outcome) : Minds s business (.done outcome)
  | lookup {l e} (he : s.entry? l.entry = some e) (hb : business l.entry)
      (hu : l.uri = e.document.uri)
      (hf : ∀ event, l.errand.event? = some event → event.uri = e.document.uri)
      (hr : ∀ i ∈ l.errand.rest, business i) :
      Minds s business (.suspended (.lookup l))
  | delivery {d i e} (he : s.entry? i = some e) (hb : business i) (hu : d.event.uri = e.document.uri)
      (hr : ∀ i ∈ d.aftermath.rest, business i) :
      Minds s business (.suspended (.delivery d))

variable {s s' : Store} {business business' : EntryId → Prop} {i : EntryId} {e : Entry}

theorem Minds.mono {status : Status} (h : s.Minds business status)
    (hb : ∀ i, business i → business' i) : s.Minds business' status := by
  cases h with
  | done outcome => exact .done outcome
  | lookup he ho hu hf hr => exact .lookup he (hb _ ho) hu hf fun i hi => hb i (hr i hi)
  | delivery he ho hu hr => exact .delivery he (hb _ ho) hu fun i hi => hb i (hr i hi)

/-- Entries keep their uris. -/
theorem Minds.grows {status : Status} (h : s.Minds business status) (hg : s.Grows s') :
    s'.Minds business status := by
  cases h with
  | done outcome => exact .done outcome
  | lookup he hb hu hf hr =>
    obtain ⟨e', he', hee⟩ := hg _ _ he
    refine .lookup he' hb (hu.trans hee.uri.symm) ?_ hr
    intro event hev
    exact (hf event hev).trans hee.uri.symm
  | delivery he hb hu hr =>
    obtain ⟨e', he', hee⟩ := hg _ _ he
    exact .delivery he' hb (hu.trans hee.uri.symm) hr

theorem Minds.exists_entry {t : Suspended} (h : s.Minds business (.suspended t)) :
    ∃ i e, s.entry? i = some e ∧ business i ∧ t.uri = e.document.uri := by
  cases h with
  | @lookup l e he hb hu hf hr => exact ⟨_, e, he, hb, l.uri_call.trans hu⟩
  | @delivery d i e he hb hu hr => exact ⟨i, e, he, hb, hu⟩

/-! ### Going on -/

theorem minds_lookup {resolves : Bool} {attempts : Nat} {errand : Errand} {l : Lookup}
    (ha : s.attempt? i resolves attempts errand = some l) (hb : business i)
    (hf : ∀ e, s.entry? i = some e → ∀ event, errand.event? = some event →
      event.uri = e.document.uri)
    (hr : ∀ i ∈ errand.rest, business i) : s.Minds business (.suspended (.lookup l)) := by
  obtain ⟨e, hl⟩ := attempt?_fresh ha
  obtain ⟨rfl, rfl⟩ := attempt?_errand ha
  exact .lookup hl.entry hb hl.uri (hf e hl.entry) hr

theorem minds_reassociate {ids : List EntryId} (hb : ∀ i ∈ ids, business i) (count : Nat) :
    s.Minds business (s.reassociate ids count).2.1 := by
  induction ids with
  | nil => exact .done _
  | cons id ids ih =>
    have hr : ∀ i ∈ ids, business i := fun i hi => hb i (List.mem_cons_of_mem _ hi)
    rw [Store.reassociate]
    cases ha : s.attempt? id true maxAttempts (.reassociating ids count) with
    | none => exact ih hr
    | some l =>
      apply minds_lookup ha (hb id List.mem_cons_self) _ hr
      intro e _ event hev
      cases hev

theorem minds_conclude {aftermath : Aftermath} (hr : ∀ i ∈ aftermath.rest, business i) :
    s.Minds business (s.conclude aftermath).2.1 := by
  cases aftermath with
  | finish outcome => exact .done outcome
  | reassociate rest count => exact minds_reassociate hr count

theorem minds_notify {event : Event} {aftermath : Aftermath} (he : s.entry? i = some e)
    (hb : business i) (hu : event.uri = e.document.uri) (hr : ∀ i ∈ aftermath.rest, business i)
    (ids : List ListenerId) : s.Minds business (s.notify event aftermath ids).2.1 := by
  induction ids with
  | nil => exact minds_conclude hr
  | cons id ids ih =>
    rw [Store.notify]
    split
    case isTrue => exact .delivery he hb hu hr
    case isFalse => exact ih

theorem minds_raise {event : Event} {aftermath : Aftermath} (he : s.entry? i = some e)
    (hb : business i) (hu : event.uri = e.document.uri) (hr : ∀ i ∈ aftermath.rest, business i) :
    s.Minds business (s.raise event aftermath).2.1 :=
  minds_notify he hb hu hr _

theorem minds_afterLookup {errand : Errand} (he : s.entry? i = some e) (hb : business i)
    (hf : ∀ event, errand.event? = some event → event.uri = e.document.uri)
    (hr : ∀ i ∈ errand.rest, business i) (stored : Bool) :
    s.Minds business (s.afterLookup i stored errand).2.1 := by
  cases errand with
  | opening uri version size => exact minds_raise he hb (hf _ rfl) (by simp [Aftermath.rest])
  | raising event => exact minds_raise he hb (hf _ rfl) (by simp [Aftermath.rest])
  | reassociating rest count =>
    unfold Store.afterLookup
    rw [he]
    cases stored with
    | true => exact minds_raise he hb rfl hr
    | false => exact minds_reassociate hr count

theorem minds_refresh {errand : Errand} (he : s.entry? i = some e) (hb : business i)
    (hf : ∀ event, errand.event? = some event → event.uri = e.document.uri)
    (hr : ∀ i ∈ errand.rest, business i) (resolves : Bool) (attempts : Nat) :
    s.Minds business (s.refresh i resolves attempts errand).2.1 := by
  unfold Store.refresh
  cases ha : s.attempt? i resolves attempts errand with
  | none => exact minds_afterLookup he hb hf hr false
  | some l =>
    apply minds_lookup ha hb _ hr
    intro e' he' event hev
    obtain rfl := Option.some.inj (he.symm.trans he')
    exact hf event hev

/-! ### Starting and resuming -/

theorem minds_update {before after : Entry} {event : Event} (he : s.entry? i = some e)
    (hb : business i) (hu : event.uri = after.document.uri) :
    (s.modifyEntry i fun _ => after).Minds business (s.update i before after event).2.1 := by
  have ha : Store.entry? (s.modifyEntry i fun _ => after) i = some after := by
    rw [entry?_modifyEntry, he, Option.map_some, if_pos rfl]
  unfold Store.update
  split
  case isTrue =>
    refine minds_refresh ha hb ?_ (by simp [Errand.rest]) _ _
    intro event' hev
    cases hev
    exact hu
  case isFalse => exact minds_raise ha hb hu (by simp [Aftermath.rest])

/-- An operation that is begun deals with its own entries, by their uris. -/
theorem Effect.minds {operation : Operation} {event : Option Event}
    (h : s.Effect operation s' event) (hb : ∀ i, s.Touches operation i → business i) :
    s'.Minds business (s.start operation).2.1 := by
  cases h with
  | refused h =>
    obtain ⟨notices, hs⟩ := h.start
    rw [hs]
    exact .done _
  | reassociate first =>
    exact minds_reassociate
      (fun i hi => hb i (.listed first ((arrange_perm first _).mem_iff.mp hi))) 0
  | opened uri languageId version text =>
    have he := s.entry?_opened { uri, languageId, version, text } s.entries.length
    rw [if_pos rfl] at he
    refine minds_refresh he (hb _ (.opened uri languageId version text)) ?_ (by simp [Errand.rest])
      true maxAttempts
    intro event hev
    cases hev
    rfl
  | changed changes hf hc hv =>
    rw [start_changeDocument hf hc hv]
    exact minds_update (find?_eq_some_iff.mp hf).2 (hb _ (.found rfl hf))
      (Entry.withText_uri _ _).symm
  | saved text hf hc =>
    rw [start_saveDocument hf hc, edited_self]
    exact minds_update (find?_eq_some_iff.mp hf).2 (hb _ (.found rfl hf))
      (Entry.withText_uri _ _).symm
  | @closed uri id e hf =>
    have he : Store.entry? (s.shut uri id) id = _ := s.entry?_shut uri id id
    rw [(find?_eq_some_iff.mp hf).2, Option.map_some, if_pos rfl] at he
    rw [start, startClose, hf]
    exact minds_raise he (hb _ (.found rfl hf)) rfl (by simp [Aftermath.rest])

theorem minds_start (operation : Operation) (hb : ∀ i, s.Touches operation i → business i) :
    Minds (s.start operation).1 business (s.start operation).2.1 := by
  obtain ⟨s', event, h⟩ := s.exists_effect operation
  exact (h.minds hb).grows (.of_entries h.goesOn.entries)

theorem Minds.storeHandle {l : Lookup} (h : s.Minds business (.suspended (.lookup l)))
    (handle : Analysis.Handle) :
    Minds (s.storeHandle l handle).1 business (s.storeHandle l handle).2.1 := by
  cases h with
  | @lookup _ e he hb hu hf hr =>
    unfold Store.storeHandle
    rw [he]
    dsimp only
    split
    case isTrue =>
      exact (minds_afterLookup he hb hf hr false).grows
        (.of_entries (GoesOn.afterLookup _ _ _).entries)
    case isFalse hc =>
      split
      case isTrue =>
        have he' : Store.entry? (s.withHandle l.entry handle) l.entry = _ :=
          entry?_withHandle_self he handle
        exact (minds_afterLookup he' hb hf hr true).grows
          (.of_entries (GoesOn.afterLookup _ _ _).entries)
      case isFalse =>
        exact (minds_refresh he hb hf hr _ _).grows
          (.of_entries (GoesOn.refresh _ _ _ _).entries)

theorem Minds.resumeLookup {l : Lookup} (h : s.Minds business (.suspended (.lookup l)))
    (answer : ModelAnswer) :
    Minds (s.resumeLookup l answer).1 business (s.resumeLookup l answer).2.1 := by
  have hwithout : ∀ notices, Minds (saying notices (s.afterLookup l.entry false l.errand)).1
      business (saying notices (s.afterLookup l.entry false l.errand)).2.1 := by
    intro notices
    cases h with
    | lookup he hb hu hf hr =>
      exact (minds_afterLookup he hb hf hr false).grows
        (.of_entries (GoesOn.afterLookup _ _ _).entries)
  unfold Store.resumeLookup
  cases answer with
  | error reason => exact hwithout _
  | ok handle =>
    cases hp : l.phase with
    | resolving =>
      cases handle with
      | none => exact hwithout []
      | some handle =>
        cases h with
        | lookup he hb hu hf hr => exact .lookup he hb hu hf hr
    | updating resolved =>
      cases hh : handle.or resolved with
      | none =>
        simp only [hh]
        exact hwithout _
      | some handle =>
        simp only [hh]
        exact h.storeHandle handle

theorem Minds.resumeDelivery {d : Delivery} (h : s.Minds business (.suspended (.delivery d)))
    (failure : Option Bytes) :
    Minds (s.resumeDelivery d failure).1 business (s.resumeDelivery d failure).2.1 := by
  cases h with
  | delivery he hb hu hr =>
    have hn := minds_notify (s := s.modifyListener d.listener fun l => { l with active := l.active - 1 })
      he hb hu hr d.waiting
    exact hn.grows (.of_entries (GoesOn.notify _ _ _).entries)

/-! ### Entries and openings -/

theorem spellings_modifyEntry {f : Entry → Entry}
    (hf : ∀ e, s.entry? i = some e → (f e).document.uri = e.document.uri) :
    (s.modifyEntry i f).spellings = s.spellings := by
  apply List.ext_getElem?
  intro j
  have hj := s.entry?_modifyEntry i j f
  rw [Store.entry?, Store.entry?] at hj
  rw [spellings, spellings, List.getElem?_map, List.getElem?_map, hj, Option.map_map]
  cases he : s.entries[j]? with
  | none => rfl
  | some e =>
    by_cases hij : i = j
    · subst hij
      simp [hf e he]
    · simp [hij]

theorem Effect.spellings {operation : Operation} {event : Option Event}
    (h : s.Effect operation s' event) (id : OperationId) :
    s'.spellings = s.spellings ++ openings [.began id operation] := by
  cases h with
  | refused h =>
    cases h with
    | change => exact (List.append_nil _).symm
    | close => exact (List.append_nil _).symm
    | save => exact (List.append_nil _).symm
  | reassociate => exact (List.append_nil _).symm
  | opened uri languageId version text =>
    have hr : (s.retire uri).spellings = s.spellings := by
      unfold retire
      split
      case h_1 => exact spellings_modifyEntry fun e _ => rfl
      case h_2 => rfl
    rw [← hr]
    exact List.map_append
  | changed changes hf hc hv =>
    refine (spellings_modifyEntry ?_).trans (List.append_nil _).symm
    intro e' he'
    obtain rfl := Option.some.inj ((find?_eq_some_iff.mp hf).2.symm.trans he')
    exact Entry.withText_uri _ _
  | saved text hf hc =>
    refine (spellings_modifyEntry ?_).trans (List.append_nil _).symm
    intro e' he'
    obtain rfl := Option.some.inj ((find?_eq_some_iff.mp hf).2.symm.trans he')
    exact Entry.withText_uri _ _
  | @closed uri id e hf =>
    have hm : (s.modifyEntry id fun e => { e with closed := true }).spellings = s.spellings :=
      spellings_modifyEntry fun e _ => rfl
    exact hm.trans (List.append_nil _).symm

theorem spellings_of_entries (h : s'.entries = s.entries) : s'.spellings = s.spellings := by
  rw [spellings, spellings, h]

theorem spellings_resumeLookup (s : Store) (l : Lookup) (answer : ModelAnswer) :
    spellings (s.resumeLookup l answer).1 = s.spellings := by
  have h := s.resumeLookup_cases l answer
  generalize s.resumeLookup l answer = step at h
  cases h with
  | without hs => exact spellings_of_entries hs.entries
  | resolved => rfl
  | stored _ _ he _ _ _ hs =>
    exact (spellings_of_entries hs.entries).trans (spellings_modifyEntry fun e _ => rfl)

end Store

namespace Scene

variable {trace records : List Record} {w w' : Scene}

theorem Move.spellings (h : Move w records w') :
    w'.store.spellings = w.store.spellings ++ openings records := by
  cases h with
  | start operation =>
    obtain ⟨s', event, he⟩ := w.store.exists_effect operation
    rw [advance_store, Store.spellings_of_entries he.goesOn.entries]
    exact he.spellings w.begun
  | answer answer hl =>
    rw [advance_store, Store.spellings_resumeLookup]
    exact (List.append_nil _).symm
  | hear failure hd =>
    rw [advance_store, Store.spellings_of_entries (Store.GoesOn.resumeDelivery _ failure).entries]
    exact (List.append_nil _).symm
  | subscribe => exact (List.append_nil _).symm
  | unsubscribe listener running =>
    rw [Store.spellings_of_entries (w.store.removeListener_keeps listener running).1]
    exact (List.append_nil _).symm

/-- The entries are the openings, each under its uri. -/
theorem Run.spellings (h : Run trace w) : w.store.spellings = openings trace := by
  induction h with
  | refl => rfl
  | tail _ hm ih => rw [hm.spellings, ih, openings_append]

/-- The entry is one that the operation dealt with when it was begun. -/
inductive Concerns (trace : List Record) (w : Scene) (id : OperationId) (i : EntryId) : Prop where
  | intro (before after moment operation) (ht : trace = before ++ .began id operation :: after)
      (hb : Run before moment) (hl : Moves moment (.began id operation :: after) w)
      (hi : moment.store.Touches operation i)

theorem Concerns.tail {id : OperationId} {i : EntryId} (h : Concerns trace w id i)
    (hm : Move w records w') : Concerns (trace ++ records) w' id i := by
  obtain ⟨before, after, moment, operation, rfl, hb, hl, hi⟩ := h
  exact ⟨before, after ++ records, moment, operation, by simp, hb, hl.tail hm, hi⟩

/-- Every operation under way deals with entries that it dealt with from its beginning. -/
def Minded (trace : List Record) (w : Scene) : Prop :=
  ∀ id t, (id, t) ∈ w.operations → w.store.Minds (Concerns trace w id) (.suspended t)

theorem Minded.advance (h : Minded trace w) {id : OperationId} {step : Step}
    (hm : Move w records (w.advance id step))
    (hs : Store.Minds step.1 (Concerns trace w id) step.2.1) :
    Minded (trace ++ records) (w.advance id step) := by
  intro i t hit
  have hg := hm.grows
  rw [advance_store] at hg ⊢
  rcases mem_advance_operations.mp hit with ⟨hit, -⟩ | ⟨rfl, ht⟩
  · exact ((h i t hit).grows hg).mono fun _ hc => hc.tail hm
  · exact ht ▸ hs.mono fun _ hc => hc.tail hm

theorem Minded.move (h : Minded trace w) (hr : Run trace w) (hm : Move w records w') :
    Minded (trace ++ records) w' := by
  have hmove := hm
  cases hm with
  | start operation =>
    intro i t hit
    have hg := hmove.grows
    rw [advance_store] at hg ⊢
    rcases mem_advance_operations.mp hit with ⟨hit, -⟩ | ⟨rfl, ht⟩
    · exact ((h i t hit).grows hg).mono fun _ hc => hc.tail hmove
    · rw [← ht]
      apply w.store.minds_start operation
      intro j hj
      exact ⟨trace, [], w, operation, rfl, hr, Moves.refl.tail hmove, hj⟩
  | answer answer hl => exact h.advance hmove ((h _ _ hl).resumeLookup answer)
  | hear failure hd => exact h.advance hmove ((h _ _ hd).resumeDelivery failure)
  | subscribe =>
    intro i t hit
    exact ((h i t hit).grows hmove.grows).mono fun _ hc => hc.tail hmove
  | unsubscribe listener running =>
    intro i t hit
    exact ((h i t hit).grows hmove.grows).mono fun _ hc => hc.tail hmove

theorem Run.minded (h : Run trace w) : Minded trace w := by
  induction h with
  | refl =>
    intro id t ht
    cases ht
  | tail hr hm ih => exact ih.move hr hm

/-- What an operation asks or tells goes by the uri that an entry was opened under, and the operation
dealt with that entry when it was begun. -/
theorem Run.attributed (h : Run trace w) {id : OperationId} {t : Suspended}
    (ht : (id, t) ∈ w.operations) :
    ∃ i, Concerns trace w id i ∧ (openings trace)[i]? = some t.uri := by
  obtain ⟨i, e, he, hc, hu⟩ := (h.minded id t ht).exists_entry
  refine ⟨i, hc, ?_⟩
  rw [← h.spellings, Store.spellings, List.getElem?_map, show w.store.entries[i]? = some e from he, hu]
  rfl

end Scene

end EditorSession.Document
