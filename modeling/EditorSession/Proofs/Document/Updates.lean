import EditorSession.Proofs.Document.Handles

/-! What the project model was given last. The text of a lookup may be outdated when the project model
takes it in: the generation keeps the handle of an outdated text from being stored, but the project
model has the text. This can only be the text of a lookup that was under way when the present handle
was given, because none is started for a document that has a handle. -/

namespace EditorSession.Document

open Analysis (Handle)

/-- The text of a completed update of `uri`. -/
def Record.updated? (uri : Bytes) : Record → Option Bytes
  | replied _ (.update u text) (.ok _) => if u = uri then some text else none
  | _ => none

/-- The text that the project model was given last for `uri`. -/
def lastUpdated? (trace : List Record) (uri : Bytes) : Option Bytes :=
  (trace.filterMap (Record.updated? uri)).getLast?

/-- Another operation than `id` is about to give the project model this text for `uri`. -/
def Scene.Pursues (w : Scene) (id : OperationId) (uri text : Bytes) : Prop :=
  ∃ other l, other ≠ id ∧ (other, .lookup l) ∈ w.operations ∧ l.uri = uri ∧ l.text = text

/-- At `moment` operation `id` gave the project model the text, in the attempt that brought the handle.
The updates of `uri` that were completed since were under way then. -/
inductive Supplied (trace : List Record) (uri text : Bytes) (handle : Handle) (moment : Scene)
    (id : OperationId) : Prop where
  | intro (before answer after)
      (ht : trace = before ++ .replied id (.update uri text) (.ok answer) :: after)
      (hm : Scene.Run before moment)
      (hh : answer = some handle ∨
        answer = none ∧ LastReply before id (.resolve uri) (.ok (some handle)))
      (hl : ∀ late ∈ after.filterMap (Record.updated? uri), moment.Pursues id uri late)

theorem Supplied.append {trace more : List Record} {uri text : Bytes} {handle : Handle}
    {moment : Scene} {id : OperationId} (h : Supplied trace uri text handle moment id)
    (hm : ∀ late ∈ more.filterMap (Record.updated? uri), moment.Pursues id uri late) :
    Supplied (trace ++ more) uri text handle moment id := by
  obtain ⟨before, answer, after, rfl, hb, hh, hl⟩ := h
  refine ⟨before, answer, after ++ more, by simp, hb, hh, ?_⟩
  intro late hlate
  rw [List.filterMap_append, List.mem_append] at hlate
  exact hlate.elim (hl late) (hm late)

theorem Supplied.last {trace : List Record} {uri text : Bytes} {handle : Handle} {moment : Scene}
    {id : OperationId} (h : Supplied trace uri text handle moment id) :
    lastUpdated? trace uri = some text ∨
      ∃ late, moment.Pursues id uri late ∧ lastUpdated? trace uri = some late := by
  obtain ⟨before, answer, after, rfl, -, -, hl⟩ := h
  have hsplit : lastUpdated?
      (before ++ .replied id (.update uri text) (.ok answer) :: after) uri =
        (text :: after.filterMap (Record.updated? uri)).getLast? := by
    have hu : Record.updated? uri (.replied id (.update uri text) (.ok answer)) = some text :=
      if_pos rfl
    rw [lastUpdated?, List.filterMap_append, List.filterMap_cons_some hu, List.getLast?_append,
      List.getLast?_cons, Option.some_or]
  rw [hsplit]
  cases hg : (after.filterMap (Record.updated? uri)).getLast? with
  | none =>
    rw [List.getLast?_eq_none_iff] at hg
    exact .inl (by rw [hg]; rfl)
  | some late =>
    refine .inr ⟨late, hl late (List.mem_of_getLast? hg), ?_⟩
    rw [List.getLast?_cons, hg]
    rfl

theorem Lookup.of_call_update {l : Lookup} {uri text : Bytes} (h : l.call = .update uri text) :
    l.uri = uri ∧ l.text = text := by
  unfold Lookup.call at h
  split at h
  · cases h
  · exact ModelCall.update.inj h

/-- No lookup is started for a document that has a handle. -/
theorem Store.Sound.ne_of_fresh {s : Store} (hs : s.Sound) {i : EntryId} {e e' : Entry}
    {handle : Handle} {l : Lookup} (he : s.entry? i = some e) (hc : e.closed = false)
    (hh : e.document.handle = some handle) (hl : s.Fresh l e') : l.uri ≠ e.document.uri := by
  intro hu
  have hg := (hs.get?_iff hl.entry e.document.uri).mpr ⟨hl.closed, by rw [← hu, hl.uri]⟩
  have hg' := (hs.get?_iff he e.document.uri).mpr ⟨hc, rfl⟩
  have hi : l.entry = i := Option.some.inj (hg.symm.trans hg')
  obtain rfl := Option.some.inj ((hi ▸ hl.entry).symm.trans he)
  rw [hl.handle] at hh
  cases hh

namespace Scene

variable {w w' : Scene} {trace records : List Record}

/-! ### What a move does to lookups and handles -/

/-- Only a lookup is answered by the project model. -/
theorem Move.asked (h : Move w records w') {id : OperationId} {call : ModelCall}
    {answer : ModelAnswer} (hr : .replied id call answer ∈ records) :
    ∃ l, (id, .lookup l) ∈ w.operations ∧ l.call = call := by
  cases h with
  | answer answer hl =>
    obtain ⟨rfl, rfl, rfl⟩ := by simpa using hr
    exact ⟨_, hl, rfl⟩
  | _ => simp at hr

/-- What a move gives the project model was about to be given by a lookup. -/
theorem Move.updated (h : Move w records w') {uri late : Bytes}
    (hl : late ∈ records.filterMap (Record.updated? uri)) :
    ∃ other l, (other, .lookup l) ∈ w.operations ∧ l.uri = uri ∧ l.text = late := by
  obtain ⟨r, hr, hl⟩ := List.mem_filterMap.mp hl
  unfold Record.updated? at hl
  split at hl
  case h_1 other u text _ =>
    obtain ⟨rfl, rfl⟩ : u = uri ∧ text = late := by simpa using hl
    obtain ⟨l, hm, hcall⟩ := h.asked hr
    exact ⟨other, l, hm, l.of_call_update hcall⟩
  case h_2 => cases hl

/-- After a move a lookup is a new one, or has been under way with the same text and was not given to
the project model. -/
theorem Move.lookups (h : Move w records w') {other : OperationId} {l : Lookup}
    (hl : (other, .lookup l) ∈ w'.operations) : (∃ e, w'.store.Fresh l e) ∨
      (∃ m, (other, .lookup m) ∈ w.operations ∧ m.uri = l.uri ∧ m.text = l.text) ∧
        ∀ uri text answer, .replied other (.update uri text) answer ∉ records := by
  have hnew : ∀ {s : Store} {v : Scene} {id : OperationId} {step : Step}, s.GoesOn step →
      (other, .lookup l) ∈ (v.advance id step).operations →
      (∃ e, (v.advance id step).store.Fresh l e) ∨
        (other, .lookup l) ∈ v.operations ∧ other ≠ id := by
    intro s v id step hs hl
    rcases mem_advance_operations.mp hl with hm | ⟨-, hl⟩
    · exact .inr hm
    · rw [advance_store]
      exact .inl (hs.fresh_here l hl)
  have hold : (other, .lookup l) ∈ w.operations →
      ∃ m, (other, .lookup m) ∈ w.operations ∧ m.uri = l.uri ∧ m.text = l.text :=
    fun hm => ⟨l, hm, rfl, rfl⟩
  cases h with
  | start operation =>
    obtain ⟨s, -, hs⟩ := w.store.start_cases operation
    exact (hnew hs hl).imp_right fun hm => ⟨hold hm.1, by simp⟩
  | @answer id l' answer hl' =>
    have hr := w.store.resumeLookup_cases l' answer
    generalize w.store.resumeLookup l' answer = step at hl hr ⊢
    cases hr with
    | without hs => exact (hnew hs hl).imp_right fun hm => ⟨hold hm.1, by simp [hm.2]⟩
    | stored _ _ _ _ _ _ hs => exact (hnew hs hl).imp_right fun hm => ⟨hold hm.1, by simp [hm.2]⟩
    | @resolved handle hp =>
      rcases mem_advance_operations.mp hl with ⟨hm, hi⟩ | ⟨rfl, hm⟩
      · exact .inr ⟨hold hm, by simp [hi]⟩
      · cases hm
        exact .inr ⟨⟨l', hl', rfl, rfl⟩, by simp [Lookup.call, hp]⟩
  | @hear id d failure =>
    have hs := Store.GoesOn.resumeDelivery (s := w.store) d failure
    exact (hnew hs hl).imp_right fun hm => ⟨hold hm.1, by simp⟩
  | subscribe => exact .inr ⟨hold hl, by simp⟩
  | unsubscribe listener running => exact .inr ⟨hold hl, by simp⟩

/-- A handle that an open document has after a move was there before it, beside the same text, or was
brought by the answer to an update. -/
theorem Move.handle (h : Move w records w') {i : EntryId} {e' : Entry} {handle : Handle}
    (he' : w'.store.entry? i = some e') (hh : e'.document.handle = some handle) :
    ∃ e, w.store.entry? i = some e ∧ e.document.uri = e'.document.uri ∧
      e.document.text = e'.document.text ∧ (e.document.handle = some handle ∨
        ∃ id l answer resolved, records = [.replied id l.call (.ok answer)] ∧
          (id, .lookup l) ∈ w.operations ∧ l.phase = .updating resolved ∧
          answer.or resolved = some handle ∧ l.entry = i ∧ e.generation = l.generation) := by
  have hsame : ∀ {s : Store}, s.entries = w.store.entries → s.entry? i = some e' →
      ∃ e, w.store.entry? i = some e ∧ e.document.uri = e'.document.uri ∧
        e.document.text = e'.document.text ∧ e.document.handle = some handle := by
    intro s hs hi
    rw [Store.entry?, hs] at hi
    exact ⟨e', hi, rfl, rfl, hh⟩
  cases h with
  | start operation =>
    obtain ⟨s, hc, hs⟩ := w.store.start_cases operation
    rw [advance_store, hs.entry?] at he'
    obtain ⟨e, he, hu, ht, hh⟩ := hc.handle he' hh
    exact ⟨e, he, hu, ht, .inl hh⟩
  | @answer id l answer hl =>
    rw [advance_store] at he'
    have hr := w.store.resumeLookup_cases l answer
    generalize w.store.resumeLookup l answer = step at he' hr
    cases hr with
    | without hs =>
      obtain ⟨e, he, hu, ht, hh⟩ := hsame hs.entries he'
      exact ⟨e, he, hu, ht, .inl hh⟩
    | resolved =>
      obtain ⟨e, he, hu, ht, hh⟩ := hsame rfl he'
      exact ⟨e, he, hu, ht, .inl hh⟩
    | @stored answer resolved new e _ hp hnew he hc hn hg hs =>
      rw [hs.entry?] at he'
      by_cases hi : l.entry = i
      · subst hi
        obtain rfl := Option.some.inj ((Store.entry?_withHandle_self he new).symm.trans he')
        obtain rfl : new = handle := by simpa using hh
        exact ⟨e, he, rfl, rfl, .inr ⟨id, l, answer, resolved, rfl, hl, hp, hnew, rfl, hg⟩⟩
      · obtain ⟨e'', he'', -, hkept⟩ := Store.exists_of_entry?_withHandle he'
        obtain rfl := hkept hi
        exact ⟨e'', he'', rfl, rfl, .inl hh⟩
  | @hear id d failure hd =>
    rw [advance_store] at he'
    obtain ⟨e, he, hu, ht, hh⟩ :=
      hsame (Store.GoesOn.resumeDelivery (s := w.store) d failure).entries he'
    exact ⟨e, he, hu, ht, .inl hh⟩
  | subscribe =>
    obtain ⟨e, he, hu, ht, hh⟩ := hsame rfl he'
    exact ⟨e, he, hu, ht, .inl hh⟩
  | unsubscribe listener running =>
    obtain ⟨e, he, hu, ht, hh⟩ := hsame (w.store.removeListener_keeps listener running).1 he'
    exact ⟨e, he, hu, ht, .inl hh⟩

/-! ### Along a run -/

/-- The handle of an open document was given for its text, and whatever is about to be given for its
uri was so when the handle was given. -/
def Accounted (trace : List Record) (w : Scene) : Prop :=
  ∀ i e handle, w.store.entry? i = some e → e.closed = false → e.document.handle = some handle →
    ∃ moment id, Supplied trace e.document.uri e.document.text handle moment id ∧
      ∀ other l, (other, .lookup l) ∈ w.operations → l.uri = e.document.uri →
        moment.Pursues id e.document.uri l.text

theorem Accounted.move (h : w.Accounted trace) (hr : Run trace w) (hm : Move w records w') :
    w'.Accounted (trace ++ records) := by
  intro i e' handle he' hc' hh
  have hsound := hm.sound hr.sound
  have hfresh : ∀ l e, w'.store.Fresh l e → l.uri ≠ e'.document.uri :=
    fun _ _ hl => hsound.ne_of_fresh he' hc' hh hl
  obtain ⟨e, he, hu, ht, hkept | ⟨id, l, answer, resolved, rfl, hl, hp, hnew, rfl, hg⟩⟩ :=
    hm.handle he' hh
  · have hc : e.closed = false := by
      obtain ⟨e'', he'', hgrows⟩ := hm.grows i e he
      obtain rfl := Option.some.inj (he'.symm.trans he'')
      by_contra hc
      rw [hgrows.frozen (by simpa using hc)] at hc'
      exact hc hc'
    obtain ⟨moment, id, hs, hp⟩ := h i e handle he hc hkept
    rw [← hu, ← ht]
    refine ⟨moment, id, hs.append ?_, ?_⟩
    · intro late hlate
      obtain ⟨other, l, hl, hlu, rfl⟩ := hm.updated hlate
      exact hp other l hl hlu
    · intro other l hl hlu
      rcases hm.lookups hl with ⟨e₂, hf⟩ | ⟨⟨m, hm, hmu, hmt⟩, -⟩
      · exact absurd (hlu.trans hu) (hfresh l e₂ hf)
      · exact hmt ▸ hp other m hm (hmu.trans hlu)
  · have hk := hr.attested.pursued id l hl
    obtain ⟨e₂, he₂, hlu, -, hlt⟩ := hk.entry
    obtain rfl := Option.some.inj (he.symm.trans he₂)
    have hcall : l.call = .update e'.document.uri e'.document.text := by
      rw [Lookup.call, hp, hlu, hlt hg, hu, ht]
    have hbrought : answer = some handle ∨
        answer = none ∧ LastReply trace id (.resolve e'.document.uri) (.ok (some handle)) := by
      cases answer with
      | some given => exact .inl hnew
      | none =>
        obtain rfl : resolved = some handle := by simpa using hnew
        rw [← hu, ← hlu]
        exact .inr ⟨rfl, hk.resolved handle hp⟩
    rw [hcall]
    refine ⟨w, id, ⟨trace, answer, [], rfl, hr, hbrought, by simp⟩, ?_⟩
    intro other m hmem hmu
    rcases hm.lookups hmem with ⟨e₂, hf⟩ | ⟨⟨m', hm', hmu', hmt'⟩, hnot⟩
    · exact absurd hmu (hfresh m e₂ hf)
    · refine ⟨other, m', ?_, hm', hmu'.trans hmu, hmt'⟩
      rintro rfl
      exact hnot e'.document.uri e'.document.text (.ok answer) (by simp [hcall])

theorem Run.accounted (h : Run trace w) : w.Accounted trace := by
  induction h with
  | refl => exact fun i e handle he => by simp [Store.entry?] at he
  | tail hr hm ih => exact ih.move hr hm

end Scene

/-- In every run the handle of an open document came with an update to its present text. The text
that the project model was given last for its uri is this one, or that of another lookup that was
under way when the handle came. -/
theorem Scene.Run.suppliedLast {trace : List Record} {w : Scene} (h : Run trace w) {uri : Bytes}
    {d : OpenDocument} {handle : Handle} (hd : w.store.document? uri = some d)
    (hh : d.handle = some handle) :
    ∃ moment id, Supplied trace d.uri d.text handle moment id ∧
      (lastUpdated? trace d.uri = some d.text ∨
        ∃ late, moment.Pursues id d.uri late ∧ lastUpdated? trace d.uri = some late) := by
  obtain ⟨i, e, he, hc, rfl⟩ := Store.document?_eq_some_iff.mp hd
  obtain ⟨moment, id, hs, -⟩ := h.accounted i e handle he.2 hc hh
  exact ⟨moment, id, hs, hs.last⟩

/-- A document is opened. While the project model takes in its text, it is changed and gets a handle
for the new text. -/
def overtakenTrace : List Record :=
  [.began 0 (.openDocument (ascii "a") (ascii "vb") 1 (ascii "x")),
    .replied 0 (.resolve (ascii "a")) (.ok (some ⟨ascii "a", 1⟩)),
    .began 1 (.changeDocument (ascii "a") 2 [⟨none, ascii "y"⟩]),
    .began 2 .reassociate,
    .replied 2 (.resolve (ascii "a")) (.ok (some ⟨ascii "a", 1⟩)),
    .replied 2 (.update (ascii "a") (ascii "y")) (.ok (some ⟨ascii "a", 2⟩)),
    .replied 0 (.update (ascii "a") (ascii "x")) (.ok (some ⟨ascii "a", 3⟩))]

theorem Scene.exists_run_overtakenTrace :
    ∃ w, Run overtakenTrace w ∧ w.operations = [] ∧
      w.store.document? (ascii "A") =
        some ⟨ascii "a", ascii "vb", 2, ascii "y", some ⟨ascii "a", 2⟩⟩ := by
  have h1 := Scene.Moves.refl.tail
    (.start {} (.openDocument (ascii "a") (ascii "vb") 1 (ascii "x")))
  have h2 := h1.tail (@Move.answer _ 0 _ (.ok (some ⟨ascii "a", 1⟩)) (.head _))
  have h3 := h2.tail (.start _ (.changeDocument (ascii "a") 2 [⟨none, ascii "y"⟩]))
  have h4 := h3.tail (.start _ .reassociate)
  have h5 := h4.tail (@Move.answer _ 2 _ (.ok (some ⟨ascii "a", 1⟩)) (.tail _ (.head _)))
  have h6 := h5.tail (@Move.answer _ 2 _ (.ok (some ⟨ascii "a", 2⟩)) (.tail _ (.head _)))
  have h7 := h6.tail (@Move.answer _ 0 _ (.ok (some ⟨ascii "a", 3⟩)) (.head _))
  exact ⟨_, h7, rfl, rfl⟩

theorem Scene.Run.suppliedLast_overtakenTrace :
    ∃ w d handle, Run overtakenTrace w ∧ w.store.document? (ascii "A") = some d ∧
      d.handle = some handle ∧
      ∃ moment id, Supplied overtakenTrace d.uri d.text handle moment id ∧
        (lastUpdated? overtakenTrace d.uri = some d.text ∨
          ∃ late, moment.Pursues id d.uri late ∧
            lastUpdated? overtakenTrace d.uri = some late) := by
  obtain ⟨w, h, -, hd⟩ := exists_run_overtakenTrace
  exact ⟨w, _, _, h, hd, rfl, Run.suppliedLast h hd rfl⟩

/-- When nothing is under way, the project model may still have been given an older text last. -/
theorem Scene.not_lastUpdated_overtakenTrace :
    ¬∀ trace w, Run trace w → w.operations = [] → ∀ uri d handle,
      w.store.document? uri = some d → d.handle = some handle →
      (∃ id, .replied id (.update d.uri d.text) (.ok (some handle)) ∈ trace) →
      lastUpdated? trace d.uri = some d.text := by
  intro hall
  obtain ⟨w, h, ho, hd⟩ := exists_run_overtakenTrace
  have hlast := hall overtakenTrace w h ho (ascii "A") _ _ hd rfl ⟨2, by simp [overtakenTrace]⟩
  have hold : lastUpdated? overtakenTrace (ascii "a") = some (ascii "x") := rfl
  rw [hold] at hlast
  exact absurd hlast (by decide)

end EditorSession.Document
