import EditorSession.Proofs.Document.Run

/-! Handles belong to texts. A lookup that is under way knows the text of its document as long as
the generation is the one it was started with; so a handle is only ever stored beside the text that
the project model was given for it, and is gone when that text goes. -/

namespace EditorSession.Document

open Analysis (Handle)

/-- The last that operation `id` heard from the project model is this answer. -/
def LastReply (trace : List Record) (id : OperationId) (call : ModelCall) (answer : ModelAnswer) :
    Prop :=
  ∃ before after, trace = before ++ .replied id call answer :: after ∧
    ∀ r ∈ after, r.caller? ≠ some id

theorem LastReply.append {trace more : List Record} {id : OperationId} {call : ModelCall}
    {answer : ModelAnswer} (h : LastReply trace id call answer)
    (hm : ∀ r ∈ more, r.caller? ≠ some id) : LastReply (trace ++ more) id call answer := by
  obtain ⟨before, after, rfl, ha⟩ := h
  refine ⟨before, after ++ more, by simp, ?_⟩
  intro r hr
  rcases List.mem_append.mp hr with hr | hr
  · exact ha r hr
  · exact hm r hr

/-- The project model gave the handle for the text: in its answer to an update to that text, or when
resolving in an attempt whose update to that text it answered with nothing. -/
inductive Given (trace : List Record) (uri text : Bytes) (handle : Handle) : Prop where
  | updated (id) (h : .replied id (.update uri text) (.ok (some handle)) ∈ trace)
  | resolved (id before after)
      (h : LastReply before id (.resolve uri) (.ok (some handle)))
      (ht : trace = before ++ .replied id (.update uri text) (.ok none) :: after)

theorem Given.append {trace : List Record} {uri text : Bytes} {handle : Handle}
    (h : Given trace uri text handle) (more : List Record) :
    Given (trace ++ more) uri text handle := by
  cases h with
  | updated id h => exact .updated id (List.mem_append_left _ h)
  | resolved id before after h ht => exact .resolved id before (after ++ more) h (by simp [ht])

/-- What a lookup under way knows of its document. -/
structure Pursued (trace : List Record) (s : Store) (id : OperationId) (l : Lookup) : Prop where
  entry : ∃ e, s.entry? l.entry = some e ∧ l.uri = e.document.uri ∧
    l.generation ≤ e.generation ∧ (e.generation = l.generation → l.text = e.document.text)
  resolved : ∀ h, l.phase = .updating (some h) →
    LastReply trace id (.resolve l.uri) (.ok (some h))

namespace Pursued

variable {trace more : List Record} {s s' : Store} {id : OperationId} {l : Lookup}

theorem of_fresh {e : Entry} (h : s.Fresh l e) : Pursued trace s id l := by
  refine ⟨⟨e, h.entry, h.uri, Nat.le_of_eq h.generation, fun _ => h.text⟩, ?_⟩
  intro handle hp
  rcases h.phase with hf | hf <;> simp [hf] at hp

/-- A change of the text counts the generation up, so the lookup notices. -/
theorem step (h : Pursued trace s id l) (hg : s.Grows s')
    (hm : ∀ r ∈ more, r.caller? ≠ some id) : Pursued (trace ++ more) s' id l := by
  obtain ⟨e, he, hu, hl, ht⟩ := h.entry
  obtain ⟨e', he', hee⟩ := hg l.entry e he
  refine ⟨⟨e', he', hu.trans hee.uri.symm, Nat.le_trans hl hee.generation, ?_⟩, ?_⟩
  · intro heq
    have hsame : e.generation = l.generation :=
      Nat.le_antisymm (heq ▸ hee.generation) hl
    rw [ht hsame, hee.text (heq.trans hsame.symm)]
  · exact fun handle hp => (h.resolved handle hp).append hm

end Pursued

/-- Every handle in the store was given for the text beside it, and every lookup knows its text. -/
structure Scene.Attested (trace : List Record) (w : Scene) : Prop where
  given : ∀ i e handle, w.store.entry? i = some e → e.document.handle = some handle →
    Given trace e.document.uri e.document.text handle
  pursued : ∀ id l, (id, .lookup l) ∈ w.operations → Pursued trace w.store id l

namespace Scene.Attested

variable {trace : List Record} {w : Scene}

/-- An operation takes a step that is attested in the longer record. -/
theorem advance (h : w.Attested trace) {id : OperationId} {record : Record} {step : Step}
    (hg : w.store.Grows step.1) (hr : ∀ i, i ≠ id → record.caller? ≠ some i)
    (hh : ∀ i e handle, Store.entry? step.1 i = some e → e.document.handle = some handle →
      Given (trace ++ [record]) e.document.uri e.document.text handle)
    (hl : ∀ l, step.2.1 = .suspended (.lookup l) → Pursued (trace ++ [record]) step.1 id l) :
    (w.advance id step).Attested (trace ++ [record]) := by
  refine ⟨?_, ?_⟩
  · rw [advance_store]
    exact hh
  · intro i l hm
    rw [advance_store]
    rcases mem_advance_operations.mp hm with ⟨hm, hi⟩ | ⟨rfl, hs⟩
    · exact (h.pursued i l hm).step hg (by simpa using hr i hi)
    · exact hl l hs

theorem pursued_of_goesOn {s : Store} {step : Step} (hs : s.GoesOn step) {id : OperationId} :
    ∀ l, step.2.1 = .suspended (.lookup l) → Pursued trace step.1 id l := by
  intro l hl
  obtain ⟨e, hf⟩ := hs.fresh_here l hl
  exact .of_fresh hf

/-- Handles that a step leaves alone stay attested. -/
theorem given_of_entries (h : w.Attested trace) {s : Store} (he : s.entries = w.store.entries)
    (more : List Record) : ∀ i e handle, s.entry? i = some e → e.document.handle = some handle →
      Given (trace ++ more) e.document.uri e.document.text handle := by
  intro i e handle hi hh
  rw [Store.entry?, he] at hi
  exact (h.given i e handle hi hh).append more

/-- The handle that is stored was given for the text that the document now has. -/
theorem given_of_stored (h : w.Attested trace) {id : OperationId} {l : Lookup}
    (hl : (id, .lookup l) ∈ w.operations) {answer resolved : Option Handle} {handle : Handle}
    {e : Entry} (hp : l.phase = .updating resolved) (hh : answer.or resolved = some handle)
    (he : w.store.entry? l.entry = some e) (hg : e.generation = l.generation) :
    Given (trace ++ [.replied id l.call (.ok answer)]) e.document.uri e.document.text handle := by
  have hk := h.pursued id l hl
  obtain ⟨e', he', hu, -, ht⟩ := hk.entry
  obtain rfl := Option.some.inj (he.symm.trans he')
  have hcall : l.call = .update e.document.uri e.document.text := by
    rw [Lookup.call, hp, hu, ht hg]
  rw [hcall]
  cases answer with
  | some given =>
    obtain rfl : given = handle := by simpa using hh
    exact .updated id (by simp)
  | none =>
    obtain rfl : resolved = some handle := by simpa using hh
    exact .resolved id trace [] (hu ▸ hk.resolved handle hp) rfl

theorem answer (h : w.Attested trace) {id : OperationId} {l : Lookup}
    (hl : (id, .lookup l) ∈ w.operations) (answer : ModelAnswer) :
    (w.advance id (w.store.resumeLookup l answer)).Attested
      (trace ++ [.replied id l.call answer]) := by
  have hg := w.store.resumeLookup_grows l answer
  have hr := w.store.resumeLookup_cases l answer
  have hid : ∀ i, i ≠ id → (Record.replied id l.call answer).caller? ≠ some i := by
    intro i hi he
    exact hi (Option.some.inj he).symm
  generalize w.store.resumeLookup l answer = step at hg hr
  cases hr with
  | without hs => exact h.advance hg hid (h.given_of_entries hs.entries _) (pursued_of_goesOn hs)
  | @resolved handle hp =>
    refine h.advance hg hid (h.given_of_entries rfl _) ?_
    rintro _ ⟨⟩
    refine ⟨(h.pursued id l hl).entry, ?_⟩
    rintro _ ⟨⟩
    have hcall : l.call = .resolve l.uri := by rw [Lookup.call, hp]
    exact ⟨trace, [], by rw [hcall], by simp⟩
  | @stored handle resolved new e _ hp hh he hc hn hgen hs =>
    refine h.advance hg hid ?_ (pursued_of_goesOn hs)
    intro i e' handle' hi hh'
    rw [Store.entry?, hs.entries] at hi
    by_cases heq : l.entry = i
    · subst heq
      have hi := (w.store.entry?_modifyEntry l.entry l.entry _).symm.trans hi
      rw [he, Option.map_some, if_pos rfl, Option.some.injEq] at hi
      subst hi
      obtain rfl : new = handle' := by simpa using hh'
      have hgiven := h.given_of_stored hl hp hh he hgen
      exact hgiven
    · obtain ⟨e'', he'', -, hsame⟩ := Store.exists_of_entry?_withHandle hi
      obtain rfl := hsame heq
      exact (h.given i e'' handle' he'' hh').append _

theorem withStore (h : w.Attested trace) {s : Store} (he : s.entries = w.store.entries) :
    ({ w with store := s } : Scene).Attested (trace ++ []) :=
  ⟨h.given_of_entries he [], fun id l hl => (h.pursued id l hl).step (.of_entries he) (by simp)⟩

theorem move (h : w.Attested trace) {records : List Record} {w' : Scene}
    (hm : Move w records w') : w'.Attested (trace ++ records) := by
  cases hm with
  | start operation =>
    obtain ⟨s, hc, hs⟩ := w.store.start_cases operation
    have h' : ({ w with begun := w.begun + 1 } : Scene).Attested trace := ⟨h.given, h.pursued⟩
    refine h'.advance (w.store.start_grows operation) (by simp [Record.caller?]) ?_
      (pursued_of_goesOn hs)
    intro i e handle hi hh
    rw [Store.entry?, hs.entries] at hi
    obtain ⟨e', he', hu, ht, hh'⟩ := hc.handle hi hh
    rw [← hu, ← ht]
    exact (h.given i e' handle he' hh').append _
  | answer answer hl => exact h.answer hl answer
  | @hear id d failure hd =>
    have hs := @Store.GoesOn.resumeDelivery w.store d failure
    exact h.advance (.of_entries hs.entries) (by simp [Record.caller?])
      (h.given_of_entries hs.entries _) (pursued_of_goesOn hs)
  | subscribe => exact h.withStore rfl
  | unsubscribe listener running =>
    exact h.withStore (w.store.removeListener_keeps listener running).1

end Scene.Attested

theorem Scene.Run.attested {trace : List Record} {w : Scene} (h : Run trace w) :
    w.Attested trace := by
  induction h with
  | refl => exact ⟨by simp [Store.entry?], by simp⟩
  | tail _ hm ih => exact ih.move hm

/-- A move that changes the text of a document leaves it without a handle. -/
theorem Scene.Move.dropped {w w' : Scene} {records : List Record} (h : Move w records w')
    {i : EntryId} {e e' : Entry} (he : w.store.entry? i = some e)
    (he' : w'.store.entry? i = some e') (ht : e'.document.text ≠ e.document.text) :
    e'.document.handle = none := by
  have hsame : ∀ {s : Store}, s.entries = w.store.entries → s.entry? i ≠ some e' := by
    intro s hs hi
    rw [Store.entry?, hs] at hi
    obtain rfl := Option.some.inj (he.symm.trans hi)
    exact ht rfl
  cases h with
  | start operation =>
    obtain ⟨s, hc, hs⟩ := w.store.start_cases operation
    rw [advance_store, Store.entry?, hs.entries] at he'
    cases hh : e'.document.handle with
    | none => rfl
    | some handle =>
      obtain ⟨e'', he'', -, ht', -⟩ := hc.handle he' hh
      obtain rfl := Option.some.inj (he.symm.trans he'')
      exact absurd ht'.symm ht
  | @answer id l answer hl =>
    rw [advance_store] at he'
    have hr := w.store.resumeLookup_cases l answer
    generalize w.store.resumeLookup l answer = step at he' hr
    cases hr with
    | without hs => exact absurd he' (hsame hs.entries)
    | resolved => exact absurd he' (hsame rfl)
    | stored _ _ _ _ _ _ hs =>
      rw [Store.entry?, hs.entries] at he'
      obtain ⟨e'', he'', ht', -⟩ := Store.exists_of_entry?_withHandle he'
      obtain rfl := Option.some.inj (he.symm.trans he'')
      exact absurd ht'.symm ht
  | @hear id d failure hd =>
    rw [advance_store] at he'
    exact absurd he' (hsame (@Store.GoesOn.resumeDelivery w.store d failure).entries)
  | subscribe => exact absurd he' (hsame rfl)
  | unsubscribe listener running =>
    exact absurd he' (hsame (w.store.removeListener_keeps listener running).1)

/-- Closing a document, or opening another under its uri, closes it for good. -/
theorem Store.closed_of_start {s : Store} {uri : Bytes} {i : EntryId} {e : Entry}
    (hf : s.find? uri = some (i, e)) {operation : Operation}
    (ho : operation = .closeDocument uri ∨
      ∃ languageId version text, operation = .openDocument uri languageId version text) :
    Store.entry? (s.start operation).1 i = some { e with closed := true } := by
  obtain ⟨hg, he⟩ := find?_eq_some_iff.mp hf
  rcases ho with rfl | ⟨languageId, version, text, rfl⟩
  · rw [Store.entry?, (closeDocument_goesOn hf).entries]
    refine (s.entry?_modifyEntry i i _).trans ?_
    rw [he, Option.map_some, if_pos rfl]
  · rw [Store.entry?, (s.openDocument_goesOn uri languageId version text).entries]
    refine (s.entry?_opened _ i).trans ?_
    rw [if_neg (Nat.ne_of_lt (lt_length_of_entry he)), entry?_retire, he, Option.map_some,
      if_pos hg]

/-! ### The account of a run -/

/-- The account of the handles in a run. An open document has a handle only if the project model gave
it for its present text; a document that gets another text has none before the project model is
called again; and a closed or replaced document is never touched again. -/
structure HandlesCurrent (trace : List Record) (w : Scene) : Prop where
  given : ∀ uri d handle, w.store.document? uri = some d → d.handle = some handle →
    Given trace d.uri d.text handle
  shown : ∀ i e, w.store.entry? i = some e → e.closed = false →
    w.store.document? e.document.uri = some e.document
  dropped : ∀ records w', Scene.Move w records w' → ∀ i e e', w.store.entry? i = some e →
    w'.store.entry? i = some e' → e'.document.text ≠ e.document.text → e'.document.handle = none
  closed : ∀ uri i e, w.store.find? uri = some (i, e) → ∀ operation,
    (operation = .closeDocument uri ∨
      ∃ languageId version text, operation = .openDocument uri languageId version text) →
    Store.entry? (w.store.start operation).1 i = some { e with closed := true }
  frozen : ∀ i e, w.store.entry? i = some e → e.closed = true →
    ∀ more w', Scene.Moves w more w' → w'.store.entry? i = some e

/-- In every run handles belong to the present texts. -/
theorem Scene.Run.handlesCurrent {trace : List Record} {w : Scene} (h : Run trace w) :
    HandlesCurrent trace w where
  given := by
    intro uri d handle hd hh
    unfold Store.document? at hd
    cases hf : w.store.find? uri with
    | none => simp [hf] at hd
    | some found =>
      obtain ⟨i, e⟩ := found
      obtain ⟨-, he⟩ := Store.find?_eq_some_iff.mp hf
      simp only [hf, Option.ite_none_left_eq_some, Option.some.injEq] at hd
      obtain ⟨-, rfl⟩ := hd
      exact h.attested.given i e handle he hh
  shown := by
    intro i e he hc
    have hg := (h.sound.get?_iff he e.document.uri).mpr ⟨hc, rfl⟩
    rw [Store.document?, Store.find?_eq_some_iff.mpr ⟨hg, he⟩]
    simp [hc]
  dropped := fun _ _ hm _ _ _ he he' ht => hm.dropped he he' ht
  closed := fun _ _ _ hf _ ho => Store.closed_of_start hf ho
  frozen := by
    intro i e he hc more w' hm
    obtain ⟨e', he', hg⟩ := hm.grows i e he
    rw [he', hg.frozen hc]

/-- A document is opened, and changed before the project model has resolved it. -/
def raceTrace : List Record :=
  [.began 0 (.openDocument (ascii "a") (ascii "vb") 1 (ascii "x")),
    .began 1 (.changeDocument (ascii "a") 2 [⟨none, ascii "y"⟩]),
    .replied 0 (.resolve (ascii "a")) (.ok (some ⟨ascii "a", 1⟩)),
    .replied 0 (.update (ascii "a") (ascii "x")) (.ok (some ⟨ascii "a", 2⟩)),
    .replied 0 (.resolve (ascii "a")) (.ok (some ⟨ascii "a", 3⟩)),
    .replied 0 (.update (ascii "a") (ascii "y")) (.ok none)]

theorem Scene.Run.handlesCurrent_raceTrace :
    ∃ w, Run raceTrace w ∧ w.store.handle? (ascii "A") = some ⟨ascii "a", 3⟩ ∧
      HandlesCurrent raceTrace w := by
  have h1 := Scene.Moves.refl.tail
    (.start {} (.openDocument (ascii "a") (ascii "vb") 1 (ascii "x")))
  have h2 := h1.tail (.start _ (.changeDocument (ascii "a") 2 [⟨none, ascii "y"⟩]))
  have h3 := h2.tail (@Move.answer _ 0 _ (.ok (some ⟨ascii "a", 1⟩)) (.head _))
  have h4 := h3.tail (@Move.answer _ 0 _ (.ok (some ⟨ascii "a", 2⟩)) (.head _))
  have h5 := h4.tail (@Move.answer _ 0 _ (.ok (some ⟨ascii "a", 3⟩)) (.head _))
  have h6 := h5.tail (@Move.answer _ 0 _ (.ok none) (.head _))
  exact ⟨_, h6, rfl, Run.handlesCurrent h6⟩

end EditorSession.Document
