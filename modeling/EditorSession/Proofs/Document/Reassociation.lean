import EditorSession.Proofs.Document.Events
import Mathlib.Data.List.Nodup

/-! What a reassociation comes to when nobody interferes. The project model answers by what it is
asked, listeners may fail, and neither starts an operation of its own. Every document that waits for a
handle is then asked about once, and in whatever order the documents are taken, the result is the
same. -/

namespace EditorSession.Document

open Analysis (Handle)

/-- What surrounds the store: a project model whose answers depend on nothing but what it is asked,
and listeners that fail or not. -/
structure World where
  model : ModelCall → ModelAnswer
  hearing : ListenerId → Event → Option Bytes

/-- What the project model is asked, and what listeners are told. -/
inductive Deed where
  | asked (call : ModelCall)
  | told (listener : ListenerId) (event : Event)
deriving DecidableEq

/-- The uri of the document that a deed is about. -/
def Deed.uri : Deed → Bytes
  | asked call => call.uri
  | told _ event => event.uri

namespace World

/-- An operation that has come to a step is taken to its end while nothing else happens. -/
inductive Plays (world : World) : Step → List Deed → Store → Outcome → Prop where
  | done (s outcome notices) : Plays world (s, .done outcome, notices) [] s outcome
  | asks {s l notices deeds s' outcome}
      (h : Plays world (s.resumeLookup l (world.model l.call)) deeds s' outcome) :
      Plays world (s, .suspended (.lookup l), notices) (.asked l.call :: deeds) s' outcome
  | tells {s d notices deeds s' outcome}
      (h : Plays world (s.resumeDelivery d (world.hearing d.listener d.event)) deeds s' outcome) :
      Plays world (s, .suspended (.delivery d), notices) (.told d.listener d.event :: deeds) s'
        outcome

/-! ### What a document is due -/

/-- The handle that the project model gives a document: that of the update, or else that of the
resolution. -/
def handle? (world : World) (d : OpenDocument) : Option Handle :=
  match world.model (.resolve d.uri) with
  | .ok (some resolved) =>
    match world.model (.update d.uri d.text) with
    | .ok updated => updated.or (some resolved)
    | .error _ => none
  | _ => none

/-- The project model knows the document, and accepts its text. -/
def Answers (world : World) (d : OpenDocument) : Prop :=
  (∃ h, world.model (.resolve d.uri) = .ok (some h)) ∧
    ∃ updated, world.model (.update d.uri d.text) = .ok updated

/-- The document has no handle yet and is given one. -/
def resolves (world : World) (d : OpenDocument) : Bool :=
  d.handle.isNone && (world.handle? d).isSome

/-- The document with its handle, or the one that it is given. -/
def resolved (world : World) (d : OpenDocument) : OpenDocument :=
  { d with handle := d.handle.or (world.handle? d) }

/-- What the project model is asked about a document that waits for a handle. -/
def calls (world : World) (d : OpenDocument) : List ModelCall :=
  match world.model (.resolve d.uri) with
  | .ok (some _) => [.resolve d.uri, .update d.uri d.text]
  | _ => [.resolve d.uri]

/-- All that is done about a document. -/
def deeds (world : World) (listeners : List ListenerId) (d : OpenDocument) : List Deed :=
  if d.handle.isSome then []
  else
    (world.calls d).map .asked ++
      if (world.handle? d).isSome then
        listeners.map fun l => .told l ⟨d.uri, d.version, .opened⟩
      else []

variable {world : World} {s s' s'' : Store} {step : Step} {todo todo' : List Deed}
  {outcome outcome' : Outcome} {d : OpenDocument}

theorem isSome_handle?_iff : (world.handle? d).isSome ↔ world.Answers d := by
  unfold handle? Answers
  split
  case h_1 resolved hr =>
    rw [hr]
    split
    case h_1 updated hu => cases updated <;> simp [hu]
    case h_2 reason hu => simp [hu]
  case h_2 hr =>
    constructor
    · intro h
      cases h
    · intro h
      obtain ⟨⟨handle, he⟩, -⟩ := h
      exact absurd he (hr handle)

theorem isSome_handle_resolved_iff :
    (world.resolved d).handle.isSome ↔ d.handle.isSome ∨ world.Answers d := by
  rw [← isSome_handle?_iff, resolved, Option.isSome_or, Bool.or_eq_true]

/-- A document that has a handle, or is given none, stays as it is. -/
theorem resolved_eq_self (h : world.resolves d = false) : world.resolved d = d := by
  have hh : d.handle.or (world.handle? d) = d.handle := by
    rw [resolves, Bool.and_eq_false_iff] at h
    cases hd : d.handle with
    | some handle => rfl
    | none => simpa [hd] using h
  rw [resolved, hh]

/-- Nobody is told of a document that has been through it. -/
theorem resolves_resolved : world.resolves (world.resolved d) = false := by
  have hh : world.handle? (world.resolved d) = world.handle? d := rfl
  rw [resolves, hh, resolved]
  cases d.handle <;> cases world.handle? d <;> rfl

/-- What listeners do has no part in it. -/
theorem resolves_congr {world' : World} (h : world'.model = world.model) (d : OpenDocument) :
    world'.resolves d = world.resolves d := by
  simp only [resolves, handle?, h]

theorem uri_of_mem_deeds {listeners : List ListenerId} {x : Deed}
    (hx : x ∈ world.deeds listeners d) : x.uri = d.uri ∧ d.handle = none := by
  unfold deeds at hx
  split at hx
  case isTrue => cases hx
  case isFalse hn =>
    refine ⟨?_, by simpa using hn⟩
    rcases List.mem_append.mp hx with hx | hx
    · obtain ⟨call, hc, rfl⟩ := List.mem_map.mp hx
      unfold calls at hc
      split at hc
      · simp only [List.mem_cons, List.not_mem_nil, or_false] at hc
        rcases hc with rfl | rfl <;> rfl
      · rw [List.mem_singleton.mp hc]
        rfl
    · split at hx
      · obtain ⟨l, -, rfl⟩ := List.mem_map.mp hx
        rfl
      · cases hx

theorem resolves_of_told {listeners : List ListenerId} {l : ListenerId} {event : Event}
    (hx : .told l event ∈ world.deeds listeners d) : world.resolves d = true := by
  unfold deeds at hx
  unfold resolves
  cases hd : d.handle with
  | some handle => simp [hd] at hx
  | none =>
    cases hh : world.handle? d with
    | some handle => rfl
    | none => simp [hd, hh] at hx

/-! ### Steps that follow one another -/

namespace Plays

theorem asks_of {l : Lookup} {answer : ModelAnswer} (ha : world.model l.call = answer)
    {notices : List Log.Notice} (h : world.Plays (s.resumeLookup l answer) todo s' outcome) :
    world.Plays (s, .suspended (.lookup l), notices) (.asked l.call :: todo) s' outcome := by
  subst ha
  exact .asks h

theorem saying (h : world.Plays step todo s' outcome) (notices : List Log.Notice) :
    world.Plays (Store.saying notices step) todo s' outcome := by
  cases h with
  | done => exact .done _ _ _
  | asks h => exact .asks h
  | tells h => exact .tells h

/-- There is only one way for it to go. -/
theorem unique (h : world.Plays step todo s' outcome) (h' : world.Plays step todo' s'' outcome') :
    todo' = todo ∧ s'' = s' ∧ outcome' = outcome := by
  induction h generalizing todo' with
  | done =>
    cases h'
    exact ⟨rfl, rfl, rfl⟩
  | asks _ ih =>
    cases h' with
    | asks h' =>
      obtain ⟨rfl, rfl, rfl⟩ := ih h'
      exact ⟨rfl, rfl, rfl⟩
  | tells _ ih =>
    cases h' with
    | tells h' =>
      obtain ⟨rfl, rfl, rfl⟩ := ih h'
      exact ⟨rfl, rfl, rfl⟩

/-- A listener that has been called and has returned is as it was before. -/
theorem modifyListener_restored (s : Store) (id : ListenerId) :
    (s.modifyListener id fun l => { l with active := l.active + 1 }).modifyListener id
      (fun l => { l with active := l.active - 1 }) = s := by
  have hl : s.listeners.map ((fun l => if l.id = id then { l with active := l.active - 1 } else l) ∘
      fun l => if l.id = id then { l with active := l.active + 1 } else l) = s.listeners := by
    apply List.map_id''
    intro l
    by_cases hi : l.id = id
    · simp [← hi]
    · simp [hi]
  simp only [Store.modifyListener, List.map_map, hl]

/-- Every listener is told, and fails or not. -/
theorem notify {event : Event} {aftermath : Aftermath} {ids : List ListenerId}
    (hl : ∀ id ∈ ids, s.listens id = true)
    (h : world.Plays (s.conclude aftermath) todo s' outcome) :
    world.Plays (s.notify event aftermath ids) (ids.map (.told · event) ++ todo) s' outcome := by
  induction ids with
  | nil => exact h
  | cons id ids ih =>
    rw [Store.notify, if_pos (hl id List.mem_cons_self)]
    apply Plays.tells
    rw [Store.resumeDelivery, modifyListener_restored]
    apply saying
    apply ih
    intro l hm
    exact hl l (List.mem_cons_of_mem _ hm)

theorem raise {event : Event} {aftermath : Aftermath}
    (h : world.Plays (s.conclude aftermath) todo s' outcome) :
    world.Plays (s.raise event aftermath) (s.registered.map (.told · event) ++ todo) s'
      outcome := by
  apply notify _ h
  intro id hm
  obtain ⟨l, hl, rfl⟩ := List.mem_map.mp hm
  obtain ⟨hl, hr⟩ := List.mem_filter.mp hl
  exact List.any_eq_true.mpr ⟨l, hl, by simpa using hr⟩

end Plays

end World

/-! ### One document after another -/

namespace Store

/-- The documents of entries. -/
def documentsAt (s : Store) (ids : List EntryId) : List OpenDocument :=
  ids.filterMap fun id => (s.entry? id).map (·.document)

/-- The open documents. -/
def documents (s : Store) : List OpenDocument := s.documentsAt (s.table.map (·.2))

/-- The store once an entry has been through it. -/
def settle (world : World) (s : Store) (id : EntryId) : Store :=
  s.modifyEntry id fun e => { e with document := world.resolved e.document }

/-- The store once every open document has been through it. -/
def settled (world : World) (s : Store) : Store :=
  (s.table.map (·.2)).foldl (Store.settle world) s

variable {world : World} {s s' : Store} {id : EntryId} {e : Entry}

theorem modifyEntry_eq_self {f : Entry → Entry} (he : s.entry? id = some e) (hf : f e = e) :
    s.modifyEntry id f = s := by
  have hm : s.entries.modify id f = s.entries := by
    apply List.ext_getElem?
    intro i
    rw [List.getElem?_modify]
    by_cases hi : id = i
    · subst hi
      rw [show s.entries[id]? = some e from he]
      simp [hf]
    · simp [hi]
  rw [modifyEntry, hm]

theorem settle_eq_self (he : s.entry? id = some e) (hn : world.resolves e.document = false) :
    s.settle world id = s := by
  apply modifyEntry_eq_self he
  rw [World.resolved_eq_self hn]

theorem settle_eq_withHandle (he : s.entry? id = some e) (hd : e.document.handle = none)
    {handle : Handle} (hh : world.handle? e.document = some handle) :
    s.settle world id = s.withHandle id handle := by
  have hm : s.entries.modify id (fun e => { e with document := world.resolved e.document }) =
      s.entries.modify id fun e => { e with document := { e.document with handle := some handle } }
      := by
    apply List.ext_getElem?
    intro i
    rw [List.getElem?_modify, List.getElem?_modify]
    by_cases hi : id = i
    · subst hi
      rw [show s.entries[id]? = some e from he]
      simp [World.resolved, hd, hh]
    · simp [hi]
  rw [settle, withHandle, modifyEntry, modifyEntry, hm]

theorem attempt?_handled (he : s.entry? id = some e) (hh : e.document.handle.isSome = true)
    (errand : Errand) : s.attempt? id true maxAttempts errand = none := by
  unfold attempt?
  rw [he]
  simp [hh, maxAttempts]

/-- The lookup that a reassociation starts for a document. -/
def firstLookup (id : EntryId) (e : Entry) (errand : Errand) : Lookup :=
  { entry := id, resolves := true, attemptsLeft := 2
    uri := e.document.uri, text := e.document.text, generation := e.generation
    phase := .resolving, errand }

theorem attempt?_waiting (he : s.entry? id = some e) (hc : e.closed = false)
    (hh : e.document.handle = none) (errand : Errand) :
    s.attempt? id true maxAttempts errand = some (firstLookup id e errand) := by
  unfold attempt?
  rw [he]
  simp [hc, hh, maxAttempts, firstLookup]

/-- A document that is given a handle is announced. -/
theorem plays_storeHandle {l : Lookup} {rest : List EntryId} {count : Nat} {handle : Handle}
    (he : s.entry? l.entry = some e) (hc : e.closed = false) (hd : e.document.handle = none)
    (hg : l.generation = e.generation) (hl : l.errand = .reassociating rest count)
    {deeds : List Deed} {outcome : Outcome}
    (h : world.Plays ((s.withHandle l.entry handle).reassociate rest (count + 1)) deeds s' outcome) :
    world.Plays (s.storeHandle l handle)
      (s.registered.map (.told · ⟨e.document.uri, e.document.version, .opened⟩) ++ deeds) s'
      outcome := by
  have hh : Store.entry? (s.withHandle l.entry handle) l.entry = _ :=
    entry?_withHandle_self he handle
  have hs : s.storeHandle l handle = (s.withHandle l.entry handle).afterLookup l.entry true
      (.reassociating rest count) := by
    rw [storeHandle, he, ← hl]
    simp [hc, hd, hg, withHandle]
  rw [hs]
  unfold afterLookup
  rw [hh]
  exact World.Plays.saying (World.Plays.raise h) _

section Waiting

variable {rest : List EntryId} {count : Nat} {deeds : List Deed} {outcome : Outcome}

/-- The project model does not know the document, or fails to tell. -/
theorem plays_unknown (id : EntryId)
    (hr : ∀ handle, world.model (.resolve e.document.uri) ≠ .ok (some handle))
    (h : world.Plays (s.reassociate rest count) deeds s' outcome) (notices : List Log.Notice) :
    world.Plays (s, .suspended (.lookup (firstLookup id e (.reassociating rest count))), notices)
      (.asked (.resolve e.document.uri) :: deeds) s' outcome := by
  cases hm : world.model (.resolve e.document.uri) with
  | error reason =>
    apply World.Plays.asks_of hm
    exact h.saying _
  | ok found =>
    cases found with
    | none =>
      apply World.Plays.asks_of hm
      exact h
    | some handle => exact absurd hm (hr handle)

/-- The project model knows the document, but does not take its text. -/
theorem plays_refused (id : EntryId) {handle : Handle} {reason : Bytes}
    (hr : world.model (.resolve e.document.uri) = .ok (some handle))
    (hu : world.model (.update e.document.uri e.document.text) = .error reason)
    (h : world.Plays (s.reassociate rest count) deeds s' outcome) (notices : List Log.Notice) :
    world.Plays (s, .suspended (.lookup (firstLookup id e (.reassociating rest count))), notices)
      (.asked (.resolve e.document.uri) ::
        .asked (.update e.document.uri e.document.text) :: deeds) s' outcome := by
  apply World.Plays.asks_of hr
  apply World.Plays.asks_of hu
  exact h.saying _

/-- The project model has a handle, and the document is announced. -/
theorem plays_known (he : s.entry? id = some e) (hc : e.closed = false)
    (hd : e.document.handle = none) {handle : Handle} {updated : Option Handle}
    (hr : world.model (.resolve e.document.uri) = .ok (some handle))
    (hu : world.model (.update e.document.uri e.document.text) = .ok updated)
    (h : world.Plays ((s.withHandle id (updated.getD handle)).reassociate rest (count + 1)) deeds s'
      outcome) (notices : List Log.Notice) :
    world.Plays (s, .suspended (.lookup (firstLookup id e (.reassociating rest count))), notices)
      (.asked (.resolve e.document.uri) :: .asked (.update e.document.uri e.document.text) ::
        (s.registered.map (.told · ⟨e.document.uri, e.document.version, .opened⟩) ++ deeds)) s'
      outcome := by
  have ho : updated.or (some handle) = some (updated.getD handle) := by
    cases updated <;> rfl
  apply World.Plays.asks_of hr
  apply World.Plays.asks_of hu
  simp only [resumeLookup, ho]
  exact plays_storeHandle he hc hd rfl rfl h

end Waiting

/-- One document is seen to, and then the rest. -/
theorem plays_cons {rest : List EntryId} {count : Nat} (he : s.entry? id = some e)
    (hc : e.closed = false) {deeds : List Deed} {outcome : Outcome}
    (h : world.Plays ((s.settle world id).reassociate rest
      (count + if world.resolves e.document then 1 else 0)) deeds s' outcome) :
    world.Plays (s.reassociate (id :: rest) count)
      (world.deeds s.registered e.document ++ deeds) s' outcome := by
  -- nothing comes of it
  have hnone : world.resolves e.document = false →
      world.Plays (s.reassociate rest count) deeds s' outcome := by
    intro hr
    rw [settle_eq_self he hr, hr] at h
    exact h
  rw [reassociate]
  cases hd : e.document.handle with
  | some handle =>
    rw [attempt?_handled he (by simp [hd])]
    simpa [World.deeds, hd] using hnone (by simp [World.resolves, hd])
  | none =>
    rw [attempt?_waiting he hc hd]
    by_cases hr : ∃ handle, world.model (.resolve e.document.uri) = .ok (some handle)
    · obtain ⟨handle, hr⟩ := hr
      cases hu : world.model (.update e.document.uri e.document.text) with
      | error reason =>
        have hh : world.handle? e.document = none := by simp [World.handle?, hr, hu]
        have hplays := plays_refused id hr hu (hnone (by simp [World.resolves, hh])) []
        simpa [World.deeds, World.calls, hd, hr, hh] using hplays
      | ok updated =>
        have hh : world.handle? e.document = some (updated.getD handle) := by
          simp only [World.handle?, hr, hu]
          cases updated <;> rfl
        have hres : world.resolves e.document = true := by simp [World.resolves, hd, hh]
        rw [settle_eq_withHandle he hd hh, hres] at h
        simpa [World.deeds, World.calls, hd, hr, hh] using plays_known he hc hd hr hu h []
    · have hr : ∀ handle, world.model (.resolve e.document.uri) ≠ .ok (some handle) := by
        simpa using hr
      have hh : world.handle? e.document = none := by
        rw [← Option.not_isSome_iff_eq_none, World.isSome_handle?_iff]
        intro ha
        obtain ⟨⟨handle, hm⟩, -⟩ := ha
        exact hr handle hm
      have hcalls : world.calls e.document = [.resolve e.document.uri] := by
        unfold World.calls
        split
        case h_1 handle hm => exact absurd hm (hr handle)
        case h_2 => rfl
      have hplays := plays_unknown id hr (hnone (by simp [World.resolves, hh])) []
      simpa [World.deeds, hd, hcalls, hh] using hplays

/-! ### All of them -/

theorem entry?_settle (s : Store) (id i : EntryId) :
    Store.entry? (s.settle world id) i = (s.entry? i).map fun e =>
      if id = i then { e with document := world.resolved e.document } else e :=
  s.entry?_modifyEntry id i _

/-- An entry does not care what is done for others. -/
theorem documentsAt_settle {ids : List EntryId} (h : id ∉ ids) :
    (s.settle world id).documentsAt ids = s.documentsAt ids := by
  apply List.filterMap_congr
  intro i hi
  have hne : id ≠ i := by
    rintro rfl
    exact h hi
  rw [entry?_settle]
  simp [hne]

/-- In whatever order they come, every document is seen to once. -/
theorem plays_reassociate (world : World) (s : Store) {ids : List EntryId} (hn : ids.Nodup)
    (ho : ∀ id ∈ ids, ∃ e, s.entry? id = some e ∧ e.closed = false) (count : Nat) :
    world.Plays (s.reassociate ids count)
      ((s.documentsAt ids).flatMap (world.deeds s.registered))
      (ids.foldl (Store.settle world) s)
      (.reassociated (count + (s.documentsAt ids).countP world.resolves)) := by
  induction ids generalizing s count with
  | nil => exact .done _ _ _
  | cons id ids ih =>
    obtain ⟨hid, hn⟩ := List.nodup_cons.mp hn
    obtain ⟨e, he, hc⟩ := ho id List.mem_cons_self
    have hs : s.documentsAt (id :: ids) = e.document :: s.documentsAt ids := by
      rw [documentsAt, List.filterMap_cons, he]
      rfl
    have hopen : ∀ i ∈ ids, ∃ e, Store.entry? (s.settle world id) i = some e ∧
        e.closed = false := by
      intro i hi
      obtain ⟨e', he', hc'⟩ := ho i (List.mem_cons_of_mem _ hi)
      rw [entry?_settle, he']
      refine ⟨_, rfl, ?_⟩
      split <;> exact hc'
    have h := ih (s.settle world id) hn hopen (count + if world.resolves e.document then 1 else 0)
    rw [documentsAt_settle hid] at h
    rw [hs, List.flatMap_cons, List.countP_cons, Nat.add_comm (List.countP _ _), ← Nat.add_assoc]
    exact plays_cons he hc h

theorem entry?_foldl_settle (world : World) (s : Store) {ids : List EntryId} (hn : ids.Nodup)
    (i : EntryId) :
    Store.entry? (ids.foldl (Store.settle world) s) i = (s.entry? i).map fun e =>
      if i ∈ ids then { e with document := world.resolved e.document } else e := by
  induction ids generalizing s with
  | nil => simp
  | cons id ids ih =>
    obtain ⟨hid, hn⟩ := List.nodup_cons.mp hn
    rw [List.foldl_cons, ih _ hn, entry?_settle, Option.map_map]
    congr 1
    funext e
    by_cases hi : id = i
    · subst hi
      simp [hid]
    · simp [hi, Ne.symm hi]

theorem foldl_settle_keeps (world : World) (s : Store) (ids : List EntryId) :
    (ids.foldl (Store.settle world) s).table = s.table ∧
      (ids.foldl (Store.settle world) s).listeners = s.listeners := by
  induction ids generalizing s with
  | nil => exact ⟨rfl, rfl⟩
  | cons id ids ih => exact ih _

/-- A store in which nothing is left to do stays as it is. -/
theorem foldl_settle_eq_self {ids : List EntryId}
    (h : ∀ id ∈ ids, ∃ e, s.entry? id = some e ∧ world.resolves e.document = false) :
    ids.foldl (Store.settle world) s = s := by
  induction ids with
  | nil => rfl
  | cons id ids ih =>
    obtain ⟨e, he, hr⟩ := h id List.mem_cons_self
    rw [List.foldl_cons, settle_eq_self he hr]
    exact ih fun i hi => h i (List.mem_cons_of_mem _ hi)

/-- It does not matter in which order the entries are settled. -/
theorem foldl_settle_perm {ids ids' : List EntryId} (hn : ids.Nodup) (h : ids'.Perm ids) :
    ids'.foldl (Store.settle world) s = ids.foldl (Store.settle world) s := by
  obtain ⟨ht, hl⟩ := foldl_settle_keeps world s ids
  obtain ⟨ht', hl'⟩ := foldl_settle_keeps world s ids'
  have he : (ids'.foldl (Store.settle world) s).entries =
      (ids.foldl (Store.settle world) s).entries := by
    apply List.ext_getElem?
    intro i
    have heq : Store.entry? (ids'.foldl (Store.settle world) s) i =
        Store.entry? (ids.foldl (Store.settle world) s) i := by
      rw [entry?_foldl_settle world s (h.nodup_iff.mpr hn), entry?_foldl_settle world s hn]
      simp only [h.mem_iff]
    exact heq
  generalize ids'.foldl (Store.settle world) s = s₁ at ht' hl' he
  generalize ids.foldl (Store.settle world) s = s₂ at ht hl he
  cases s₁
  cases s₂
  simp_all

namespace Sound

variable (hs : s.Sound)

include hs

/-- The table is a list of the open documents. -/
theorem exists_documents :
    ∀ entry ∈ s.table, ∃ e, s.entry? entry.2 = some e ∧ e.closed = false ∧
      key e.document.uri = entry.1 :=
  fun entry hm => hs.entry entry.1 entry.2 hm

theorem keys_documents : s.documents.map (fun d => key d.uri) = s.table.keys := by
  have h : ∀ t : Table EntryId, (∀ entry ∈ t, entry ∈ s.table) →
      (s.documentsAt (t.map (·.2))).map (fun d => key d.uri) = t.keys := by
    intro t ht
    induction t with
    | nil => rfl
    | cons entry t ih =>
      obtain ⟨e, he, -, hk⟩ := hs.exists_documents entry (ht entry List.mem_cons_self)
      rw [List.map_cons, documentsAt, List.filterMap_cons, he, Option.map_some, List.map_cons, hk]
      have hr := ih fun entry hm => ht entry (List.mem_cons_of_mem _ hm)
      rw [documentsAt] at hr
      rw [hr]
      rfl
  exact h s.table fun _ hm => hm

theorem nodup_uris : (s.documents.map (·.uri)).Nodup := by
  have h := hs.keys
  rw [← hs.keys_documents, show (fun d : OpenDocument => key d.uri) = key ∘ (·.uri) from rfl,
    ← List.map_map] at h
  exact List.Nodup.of_map _ h

theorem nodup_ids : (s.table.map (·.2)).Nodup := by
  have hk : (s.table.map (·.2)).map
      (fun id => ((s.entry? id).map fun e => key e.document.uri).getD []) = s.table.keys := by
    rw [List.map_map]
    apply List.map_congr_left
    intro entry hm
    obtain ⟨e, he, -, hk⟩ := hs.exists_documents entry hm
    simp [he, hk]
  have h := hs.keys
  rw [← hk] at h
  exact List.Nodup.of_map _ h

theorem mem_ids_iff {i : EntryId} {e : Entry} (he : s.entry? i = some e) :
    i ∈ s.table.map (·.2) ↔ e.closed = false := by
  constructor
  · intro hm
    obtain ⟨entry, hentry, rfl⟩ := List.mem_map.mp hm
    obtain ⟨e', he', hc, -⟩ := hs.exists_documents entry hentry
    obtain rfl := Option.some.inj (he.symm.trans he')
    exact hc
  · intro hc
    exact List.mem_map.mpr ⟨_, hs.listed i e he hc, rfl⟩

theorem mem_documents_iff {d : OpenDocument} :
    d ∈ s.documents ↔ ∃ uri, s.document? uri = some d := by
  rw [documents, documentsAt, List.mem_filterMap]
  constructor
  · intro h
    obtain ⟨i, hi, hd⟩ := h
    obtain ⟨e, he, rfl⟩ := Option.map_eq_some_iff.mp hd
    exact ⟨e.document.uri, hs.document?_iff.mpr ⟨i, e, he, (hs.mem_ids_iff he).mp hi, rfl, rfl⟩⟩
  · intro h
    obtain ⟨uri, hd⟩ := h
    obtain ⟨i, e, he, hc, -, rfl⟩ := hs.document?_iff.mp hd
    exact ⟨i, (hs.mem_ids_iff he).mpr hc, by rw [he]; rfl⟩

/-- Every open document is settled. -/
theorem entry?_settled (world : World) {id : EntryId} (hid : id ∈ s.table.map (·.2)) :
    ∃ e, s.entry? id = some e ∧ e.closed = false ∧ Store.entry? (s.settled world) id =
      some { e with document := world.resolved e.document } := by
  obtain ⟨entry, hentry, rfl⟩ := List.mem_map.mp hid
  obtain ⟨e, he, hc, -⟩ := hs.exists_documents entry hentry
  refine ⟨e, he, hc, ?_⟩
  rw [settled, entry?_foldl_settle world s hs.nodup_ids, he, Option.map_some, if_pos hid]

theorem document?_settled (world : World) (uri : Bytes) :
    (s.settled world).document? uri = (s.document? uri).map world.resolved := by
  have ht : (s.settled world).table = s.table := (foldl_settle_keeps world s _).1
  unfold document? find?
  rw [ht]
  cases hg : Table.get? (key uri) s.table with
  | none => rfl
  | some i =>
    have hm : i ∈ s.table.map (·.2) := List.mem_map.mpr ⟨_, Table.mem_of_get? hg, rfl⟩
    obtain ⟨e, hi, hc, hi'⟩ := hs.entry?_settled world hm
    simp [hi, hi', hc]

end Sound

end Store

/-! ### The account of a reassociation -/

theorem World.filter_deeds {world : World} {listeners : List ListenerId} {ds : List OpenDocument}
    (hn : (ds.map (·.uri)).Nodup) {d : OpenDocument} (hd : d ∈ ds) :
    (ds.flatMap (world.deeds listeners)).filter (fun x => x.uri = d.uri) =
      world.deeds listeners d := by
  -- what is done about a document is told from the rest by its uri
  have hself : ∀ d : OpenDocument,
      (world.deeds listeners d).filter (fun x => x.uri = d.uri) = world.deeds listeners d := by
    intro d
    apply List.filter_eq_self.mpr
    intro x hx
    simpa using (world.uri_of_mem_deeds hx).1
  have hother : ∀ d d' : OpenDocument, d.uri ≠ d'.uri →
      (world.deeds listeners d).filter (fun x => x.uri = d'.uri) = [] := by
    intro d d' hne
    apply List.filter_eq_nil_iff.mpr
    intro x hx
    simpa [(world.uri_of_mem_deeds hx).1] using hne
  induction ds with
  | nil => cases hd
  | cons d' ds ih =>
    obtain ⟨hnd, hn⟩ := List.nodup_cons.mp hn
    rw [List.flatMap_cons, List.filter_append]
    rcases List.mem_cons.mp hd with rfl | hd
    · have hr : (ds.flatMap (world.deeds listeners)).filter (fun x => x.uri = d.uri) = [] := by
        apply List.filter_eq_nil_iff.mpr
        intro x hx
        obtain ⟨d', hd', hx⟩ := List.mem_flatMap.mp hx
        have hu : d'.uri ≠ d.uri := by
          intro h
          exact hnd (List.mem_map.mpr ⟨d', hd', h⟩)
        simpa [(world.uri_of_mem_deeds hx).1] using hu
      rw [hself, hr, List.append_nil]
    · have hu : d'.uri ≠ d.uri := by
        intro h
        exact hnd (List.mem_map.mpr ⟨d, hd, h.symm⟩)
      rw [hother d' d hu, List.nil_append, ih hn hd]

/-- The account of a reassociation that takes the documents in some order. -/
structure Reassociates (world : World) (s : Store) (order : List EntryId) (deeds : List Deed)
    (s' : Store) (count : Nat) : Prop where
  starts : s.start (.reassociateFirst order) = s.reassociate order 0
  plays : world.Plays (s.reassociate order 0) deeds s' (.reassociated count)
  only : ∀ deeds' s'' outcome, world.Plays (s.reassociate order 0) deeds' s'' outcome →
    deeds' = deeds ∧ s'' = s' ∧ outcome = .reassociated count
  table : s'.table = s.table ∧ s'.listeners = s.listeners
  /-- A document changes in nothing but its handle. -/
  documents : ∀ uri d, s.document? uri = some d → ∃ handle,
    s'.document? uri = some { d with handle } ∧
      (handle.isSome ↔ d.handle.isSome ∨ world.Answers d) ∧ (d.handle.isSome → handle = d.handle)
  absent : ∀ uri, s.document? uri = none → s'.document? uri = none
  /-- What is done about a document depends on nothing but the document. -/
  about : ∀ uri d, s.document? uri = some d →
    deeds.filter (fun x => x.uri = d.uri) = world.deeds s.registered d
  others : ∀ x ∈ deeds, ∃ d, s.document? x.uri = some d ∧ d.uri = x.uri ∧ d.handle = none
  counted : count = s.documents.countP world.resolves
  unordered : ∀ order', order'.Perm order → ∃ deeds', deeds'.Perm deeds ∧
    world.Plays (s.reassociate order' 0) deeds' s' (.reassociated count)
  again : ∀ world' : World, world'.model = world.model → ∀ order', order'.Perm order →
    ∃ deeds', world'.Plays (s'.reassociate order' 0) deeds' s' (.reassociated 0) ∧
      ∀ listener event, .told listener event ∉ deeds'

theorem Store.Sound.plays {s : Store} (hs : s.Sound) {order : List EntryId}
    (ho : order.Perm (s.table.map (·.2))) (world : World) :
    world.Plays (s.reassociate order 0) ((s.documentsAt order).flatMap (world.deeds s.registered))
      (s.settled world)
      (.reassociated (s.documents.countP world.resolves)) := by
  have hopen : ∀ id ∈ order, ∃ e, s.entry? id = some e ∧ e.closed = false := by
    intro id hm
    obtain ⟨entry, hentry, rfl⟩ := List.mem_map.mp (ho.mem_iff.mp hm)
    obtain ⟨e, he, hc, -⟩ := hs.exists_documents entry hentry
    exact ⟨e, he, hc⟩
  have h := plays_reassociate world s (ho.nodup_iff.mpr hs.nodup_ids) hopen 0
  have hd : (s.documentsAt order).Perm s.documents := ho.filterMap _
  rw [foldl_settle_perm hs.nodup_ids ho, Nat.zero_add, hd.countP_eq] at h
  exact h

/-- Once every document has been seen to there is nothing left to do, and nobody is told anything. -/
theorem Store.Sound.plays_again {world world' : World} (hm : world'.model = world.model) {s : Store}
    (hs : s.Sound) {order : List EntryId} (ho : order.Perm (s.table.map (·.2))) :
    ∃ deeds, world'.Plays ((s.settled world).reassociate order 0) deeds (s.settled world)
        (.reassociated 0) ∧
      ∀ listener event, .told listener event ∉ deeds := by
  have hids : ∀ id ∈ order, ∃ e, Store.entry? (s.settled world) id = some e ∧ e.closed = false ∧
      world'.resolves e.document = false := by
    intro id hid
    obtain ⟨e, -, hc, he⟩ := hs.entry?_settled world (ho.mem_iff.mp hid)
    exact ⟨_, he, hc, (World.resolves_congr hm _).trans World.resolves_resolved⟩
  have hnone : ∀ d ∈ (s.settled world).documentsAt order, world'.resolves d = false := by
    intro d hd
    obtain ⟨id, hid, hd⟩ := List.mem_filterMap.mp hd
    obtain ⟨e, hi, -, hr⟩ := hids id hid
    rw [hi] at hd
    obtain rfl := Option.some.inj hd
    exact hr
  have hcount : ((s.settled world).documentsAt order).countP world'.resolves = 0 := by
    apply List.countP_eq_zero.mpr
    intro d hd
    rw [hnone d hd]
    exact Bool.false_ne_true
  have h := plays_reassociate world' (s.settled world) (ho.nodup_iff.mpr hs.nodup_ids)
    (fun id hid => (hids id hid).imp fun _ he => ⟨he.1, he.2.1⟩) 0
  rw [foldl_settle_eq_self fun id hid => (hids id hid).imp fun _ he => ⟨he.1, he.2.2⟩, hcount] at h
  refine ⟨_, h, ?_⟩
  intro listener event hx
  obtain ⟨d, hd, hx⟩ := List.mem_flatMap.mp hx
  exact Bool.noConfusion ((hnone d hd).symm.trans (World.resolves_of_told hx))

/-- When nobody interferes, a reassociation asks about every waiting document once and gives it the
handle that the project model has for it, whatever the order and whatever becomes of the others. -/
theorem Store.Sound.reassociates {s : Store} (hs : s.Sound) {order : List EntryId}
    (ho : order.Perm (s.table.map (·.2))) (world : World) :
    ∃ deeds s' count, Reassociates world s order deeds s' count := by
  have hplays := hs.plays ho world
  refine ⟨_, _, _, ?_, hplays, ?_, ?_, ?_, ?_, ?_, ?_, rfl, ?_, ?_⟩
  · rw [Store.start, Store.arrange_eq ho]
  · intro deeds' s'' outcome h
    exact hplays.unique h
  · exact foldl_settle_keeps world s _
  · intro uri d hd
    refine ⟨(world.resolved d).handle, ?_, World.isSome_handle_resolved_iff, ?_⟩
    · rw [hs.document?_settled, hd]
      rfl
    · intro hh
      exact Option.or_of_isSome hh
  · intro uri hd
    rw [hs.document?_settled, hd]
    rfl
  · intro uri d hd
    have hperm : (s.documentsAt order).Perm s.documents := ho.filterMap _
    apply World.filter_deeds ((hperm.map _).nodup_iff.mpr hs.nodup_uris)
    exact hperm.mem_iff.mpr (hs.mem_documents_iff.mpr ⟨uri, hd⟩)
  · intro x hx
    obtain ⟨d, hd, hx⟩ := List.mem_flatMap.mp hx
    have hperm : (s.documentsAt order).Perm s.documents := ho.filterMap _
    obtain ⟨uri, hu⟩ := hs.mem_documents_iff.mp (hperm.mem_iff.mp hd)
    obtain ⟨hxu, hn⟩ := world.uri_of_mem_deeds hx
    refine ⟨d, ?_, hxu.symm, hn⟩
    obtain ⟨i, e, he, hc, -, rfl⟩ := hs.document?_iff.mp hu
    exact hs.document?_iff.mpr ⟨i, e, he, hc, by rw [hxu], rfl⟩
  · intro order' ho'
    refine ⟨_, ?_, hs.plays (ho'.trans ho) world⟩
    have hperm : (s.documentsAt order').Perm (s.documentsAt order) := ho'.filterMap _
    exact hperm.flatMap_right _
  · intro world' hm order' ho'
    exact hs.plays_again hm (ho'.trans ho)

/-- Three documents are open: the project model knows the first, fails at the second, and the third
has a handle. -/
def waitingStore : Store :=
  ((({} : Store).addListener.1.opened ⟨ascii "a", ascii "vb", 1, ascii "x", none⟩).opened
    ⟨ascii "b", ascii "vb", 1, [], none⟩).opened ⟨ascii "c", ascii "vb", 4, [], some ⟨ascii "c", 1⟩⟩

def waitingWorld : World where
  model call := match call with
    | .resolve uri => if uri = ascii "b" then .error (ascii "gone") else .ok (some ⟨uri, 2⟩)
    | .update _ _ => .ok none
  hearing _ _ := some (ascii "deaf")

theorem Store.Sound.reassociates_waitingStore :
    ∃ s', Reassociates waitingWorld waitingStore [2, 1, 0]
      [.asked (.resolve (ascii "b")), .asked (.resolve (ascii "a")),
        .asked (.update (ascii "a") (ascii "x")), .told 1 ⟨ascii "a", 1, .opened⟩] s' 1 := by
  have hl : ({} : Store).addListener.1.Sound := Sound.empty.of_eq rfl rfl
  have hs : waitingStore.Sound := ((hl.opened _).opened _).opened _
  have ho : [2, 1, 0].Perm (waitingStore.table.map (·.2)) := by decide
  obtain ⟨deeds, s', count, h⟩ := hs.reassociates ho waitingWorld
  have hd := (h.only _ _ _ (hs.plays ho waitingWorld)).1
  refine ⟨s', ?_⟩
  have hd' : deeds = _ := hd.symm.trans (by decide : _ = [.asked (.resolve (ascii "b")),
    .asked (.resolve (ascii "a")), .asked (.update (ascii "a") (ascii "x")),
    .told 1 ⟨ascii "a", 1, .opened⟩])
  have hc : count = 1 := h.counted.trans (by decide)
  rwa [hd', hc] at h

end EditorSession.Document
