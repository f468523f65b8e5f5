import EditorSession.Proofs.Document.Revisions
import EditorSession.Proofs.Workspace.Attention

/-! What goes on by itself. The project model, the engine and the clock change no document but its
handle. While the pipeline is shut, or nothing was ever begun, they start no computation and nothing
is published. -/

namespace EditorSession

namespace Document

/-- A document without its handle. -/
def OpenDocument.bare (d : OpenDocument) : OpenDocument := { d with handle := none }

def Entry.bare (e : Entry) : Entry := { e with document := e.document.bare }

namespace Store

variable {s s' s'' : Store}

/-- The stores have the same documents, but for their handles. -/
structure SameTexts (s s' : Store) : Prop where
  table : s'.table = s.table
  entries : s'.entries.map Entry.bare = s.entries.map Entry.bare

theorem SameTexts.refl (s : Store) : s.SameTexts s := ⟨rfl, rfl⟩

theorem SameTexts.trans (h : s.SameTexts s') (h' : s'.SameTexts s'') : s.SameTexts s'' :=
  ⟨h'.table.trans h.table, h'.entries.trans h.entries⟩

theorem GoesOn.sameTexts {step : Step} (h : s.GoesOn step) : s.SameTexts step.1 :=
  ⟨h.table, by rw [h.entries]⟩

theorem sameTexts_withHandle (s : Store) (id : EntryId) (h : Analysis.Handle) :
    s.SameTexts (s.withHandle id h) := by
  refine ⟨rfl, List.ext_getElem? fun i => ?_⟩
  rw [withHandle, modifyEntry, List.getElem?_map, List.getElem?_map, List.getElem?_modify]
  by_cases hi : id = i
  · cases s.entries[i]? <;> simp [hi, Entry.bare, OpenDocument.bare]
  · simp [hi]

theorem sameTexts_resumeLookup (s : Store) (l : Lookup) (answer : ModelAnswer) :
    s.SameTexts (s.resumeLookup l answer).1 := by
  have h := s.resumeLookup_cases l answer
  generalize s.resumeLookup l answer = step at h
  cases h with
  | without hs => exact hs.sameTexts
  | resolved => exact .refl s
  | stored _ _ _ _ _ _ hs => exact (s.sameTexts_withHandle _ _).trans hs.sameTexts

theorem SameTexts.document? (h : s.SameTexts s') (uri : Bytes) :
    (s'.document? uri).map OpenDocument.bare = (s.document? uri).map OpenDocument.bare := by
  have he : ∀ i, ( s'.entry? i).map Entry.bare = ( s.entry? i).map Entry.bare := by
    intro i
    unfold entry?
    rw [← List.getElem?_map, h.entries, List.getElem?_map]
  unfold Store.document? Store.find?
  rw [h.table]
  cases Table.get? (key uri) s.table with
  | none => rfl
  | some i =>
    have hi := he i
    cases hs' : s'.entry? i with
    | none =>
      rw [hs', Option.map_none, eq_comm, Option.map_eq_none_iff] at hi
      simp [hi, hs']
    | some e' =>
      rw [hs', Option.map_some, eq_comm, Option.map_eq_some_iff] at hi
      obtain ⟨e, hs, hb⟩ := hi
      have hc : e'.closed = e.closed := (congrArg Entry.closed hb).symm
      have hd : e'.document.bare = e.document.bare := (congrArg Entry.document hb).symm
      cases hcl : e.closed <;> simp [hs, hs', hc, hcl, hd]

end Store

end Document

namespace Workspace

variable {w : Workspace} {progress : Progress}

/-- A step that begins no operation of an editor. -/
inductive Onward (w : Workspace) : Progress → Prop where
  | reassociate (first) : Onward w (w.start (.reassociateFirst first))
  | answer (id answer) : Onward w (w.answer id answer)
  | tell (now id) : Onward w (w.tell now id)
  | begin : Onward w w.beginComputation
  | diagnosed (id outcome) : Onward w (w.diagnosed id outcome)
  | fire (now) : Onward w (w.fire now)

theorem advance_publications (w : Workspace) (id : OperationId) (step : Document.Step) :
    (w.advance id step).publications = [] := by
  unfold advance
  split <;> rfl

theorem answer_publications (w : Workspace) (id : OperationId) (answer : Document.ModelAnswer) :
    (w.answer id answer).publications = [] := by
  unfold Workspace.answer
  split
  · exact advance_publications _ _ _
  · rfl

theorem Onward.sameTexts (h : w.Onward progress) :
    w.store.SameTexts progress.workspace.store := by
  cases h with
  | reassociate =>
    rw [start, advance_store]
    exact (Document.Store.GoesOn.reassociate _ _).sameTexts
  | answer id answer =>
    unfold Workspace.answer
    split
    · rw [advance_store]
      exact w.store.sameTexts_resumeLookup _ _
    · exact .refl _
  | tell now id =>
    unfold Workspace.tell
    split
    · dsimp only
      rw [advance_store]
      exact (Document.Store.GoesOn.resumeDelivery _ _).sameTexts
    · exact .refl _
  | begin => exact .refl _
  | diagnosed id outcome => exact .refl _
  | fire now => exact .refl _

end Workspace

/-! ### A pipeline that is shut -/

namespace Diagnostics.Pipeline

variable {p : Pipeline}

/-- The pipeline stays shut, starts no computation and publishes nothing. -/
structure Mute (p : Pipeline) (step : Step) : Prop where
  shut : step.1.shut = true
  started : step.1.started = p.started
  publications : step.2.1 = []

theorem Mute.saying {step : Step} (h : p.Mute step) (notices : List Log.Notice) :
    p.Mute (saying notices step) := ⟨h.shut, h.started, h.publications⟩

section

variable (h : p.shut = true)

include h

theorem mute_self (notices : List Log.Notice) : p.Mute (p, [], notices) := ⟨h, rfl, rfl⟩

theorem observe_of_shut (now : Int) (event : Document.Event) : p.observe now event = (p, [], []) := by
  unfold observe
  cases event.kind <;> simp [clear, computeNow, trigger, h]

theorem mute_finish (c : Computation) (publication : Option Lsp.Publication) :
    p.Mute (p.finish c publication) := by
  have he := p.finish_ends c publication
  generalize p.finish c publication = step at he
  cases he with
  | silently hg => exact ⟨hg.shut.trans h, hg.started, rfl⟩
  | publishing _ _ _ ho => simp [h] at ho

theorem mute_beginNext (documentOf : Bytes → Option Document.OpenDocument) :
    p.Mute (p.beginNext documentOf) := by
  unfold beginNext
  split
  · unfold Pipeline.begin
    split
    · exact (mute_finish h _ _).saying _
    · exact ⟨h, rfl, rfl⟩
  · exact mute_self h _

theorem mute_answer (id : ComputationId) (outcome : Analysis.Outcome (List Lsp.Diagnostic)) :
    p.Mute (p.answer id outcome) := by
  unfold Pipeline.answer
  split
  · exact mute_self h _
  · split
    · exact mute_self h _
    · unfold complete
      split
      · exact mute_finish h _ _
      · exact (mute_finish h _ _).saying _
      · split
        · exact (mute_finish h _ _).saying _
        · exact (mute_finish h _ _).saying _

theorem mute_fireDue (now : Int) : p.Mute (p.fireDue now, [], []) := by
  unfold fireDue
  split
  · unfold fire expire
    simp only [h, ↓reduceIte]
    exact ⟨rfl, rfl, rfl⟩
  · exact mute_self h _

end

end Diagnostics.Pipeline

/-! ### Silence -/

namespace Workspace

variable {w : Workspace} {progress : Progress}

/-- No document is open, and there is nothing to be done. -/
structure Blank (w : Workspace) : Prop where
  table : w.store.table = []
  operations : w.operations = []
  timers : w.pipeline.timers = []
  computations : w.pipeline.computations = []

/-- Nothing can be computed or published. -/
def Silent (w : Workspace) : Prop := w.pipeline.shut = true ∨ w.Blank

theorem Blank.operation? (h : w.Blank) (id : OperationId) : w.operation? id = none := by
  simp [Workspace.operation?, h.operations]

theorem Blank.onward (h : w.Blank) (ho : w.Onward progress) :
    progress.workspace.Blank ∧ progress.publications = [] ∧
      progress.workspace.pipeline = w.pipeline := by
  cases ho with
  | reassociate first =>
    have hs : w.store.start (.reassociateFirst first) = (w.store, .done (.reassociated 0), []) := by
      rw [Document.Store.start, h.table, List.map_nil, (Document.Store.arrange_perm first []).eq_nil]
      rfl
    rw [start, hs, advance]
    exact ⟨⟨h.table, by simp [h.operations], h.timers, h.computations⟩, rfl, rfl⟩
  | answer id answer =>
    simp only [Workspace.answer, h.operation?]
    exact ⟨h, trivial, trivial⟩
  | tell now id =>
    simp only [Workspace.tell, h.operation?]
    exact ⟨h, trivial, trivial⟩
  | begin =>
    have hn : w.pipeline.beginNext w.store.document? = (w.pipeline, [], []) := by
      simp [Diagnostics.Pipeline.beginNext, Diagnostics.Pipeline.next?, h.computations]
    rw [beginComputation, hn]
    exact ⟨h, rfl, rfl⟩
  | diagnosed id outcome =>
    have hn : w.pipeline.answer id outcome = (w.pipeline, [], []) := by
      simp [Diagnostics.Pipeline.answer, Diagnostics.Pipeline.computation?, h.computations]
    rw [diagnosed, hn]
    exact ⟨h, rfl, rfl⟩
  | fire now =>
    have hn : w.pipeline.fireDue now = w.pipeline := by
      simp [Diagnostics.Pipeline.fireDue, Diagnostics.Pipeline.due?, h.timers]
    rw [fire, hn]
    exact ⟨h, rfl, rfl⟩

theorem onward_of_shut (h : w.pipeline.shut = true) (ho : w.Onward progress) :
    w.pipeline.Mute (progress.workspace.pipeline, progress.publications, []) := by
  cases ho with
  | reassociate =>
    rw [start, advance_pipeline, advance_publications]
    exact Diagnostics.Pipeline.mute_self h _
  | answer id answer =>
    rw [answer_publications]
    unfold Workspace.answer
    split
    · rw [advance_pipeline]
      exact Diagnostics.Pipeline.mute_self h _
    · exact Diagnostics.Pipeline.mute_self h _
  | tell now id =>
    unfold Workspace.tell
    split
    · rw [Diagnostics.Pipeline.observe_of_shut h]
      dsimp only
      rw [advance_pipeline]
      exact Diagnostics.Pipeline.mute_self h _
    · exact Diagnostics.Pipeline.mute_self h _
  | begin =>
    obtain ⟨hs, hn, hp⟩ := Diagnostics.Pipeline.mute_beginNext h w.store.document?
    exact ⟨hs, hn, hp⟩
  | diagnosed id outcome =>
    obtain ⟨hs, hn, hp⟩ := Diagnostics.Pipeline.mute_answer h id outcome
    exact ⟨hs, hn, hp⟩
  | fire now =>
    obtain ⟨hs, hn, hp⟩ := Diagnostics.Pipeline.mute_fireDue h now
    exact ⟨hs, hn, hp⟩

/-- Silence lasts until an editor begins an operation. -/
theorem Silent.onward (h : w.Silent) (ho : w.Onward progress) :
    progress.workspace.Silent ∧ progress.publications = [] ∧
      progress.workspace.pipeline.started = w.pipeline.started := by
  rcases h with h | h
  · have hm := onward_of_shut h ho
    exact ⟨.inl hm.shut, hm.publications, hm.started⟩
  · obtain ⟨hb, hp, he⟩ := h.onward ho
    exact ⟨.inr hb, hp, by rw [he]⟩

end Workspace

end EditorSession
