import EditorSession.Proofs.Document.Handles
import EditorSession.Proofs.Workspace.Attention

/-! Diagnostics at rest. In a run no document is ever forgotten, so when nothing is under way any more
the last that the client was told of an open document was computed from what it is now. -/

namespace EditorSession.Workspace

open Diagnostics (Options Pipeline)
open Document (key)

variable {options : Options}

namespace Scene

variable {w w' : Scene} {trace records : List Record}

/-- What was published, and what is on its way out. -/
def issued (trace : List Record) (w : Scene) : List Bulletin :=
  trace.filterMap Record.bulletin? ++ w.outgoing.toList

theorem issued_document (trace : List Record) (w : Scene) (r : Document.Record) :
    issued (trace ++ [.document r]) w = issued trace w := by
  simp [issued, Record.bulletin?]

/-- At most one publication goes out, and only when no other is on its way. -/
theorem issued_issue (trace : List Record) {bulletin : Lsp.Publication → Bulletin}
    {progress : Progress} (h : progress.publications = [] ∨
      w.outgoing = none ∧ ∃ publication, progress.publications = [publication]) :
    issued trace (w.issue bulletin progress) =
      issued trace w ++ progress.publications.map bulletin := by
  rcases h with hp | ⟨ho, publication, hp⟩
  · simp [issued, issue, hp]
  · simp [issued, issue, hp, ho]

theorem Move.kept (h : Move w records w') (he : options.enabled = true) (hr : Run options trace w)
    (hk : w.workspace.Kept options (issued trace w)) :
    w'.workspace.Kept options (issued (trace ++ records) w') := by
  cases h with
  | start operation hq =>
    rw [issued_document]
    exact hk.start hq operation
  | @answer id l answer hl hq =>
    rw [issued_document]
    have hp := hr.documents.attested.pursued id l (mem_operations_of_operation? hl)
    obtain ⟨e, hentry, hu, -⟩ := hp.entry
    refine hk.answer hq hl ?_ answer
    intro e' he'
    obtain rfl := Option.some.inj (hentry.symm.trans he')
    exact hu
  | @tell id d time hd ho =>
    have hpub : (w.workspace.tell time id).publications = if d.event.kind = .closed then
        [{ uri := d.event.uri }] else [] := by
      rw [Workspace.tell, hd]
      exact (hk.ready.observe he time d.event).publications
    rw [issued_document, issued_issue trace]
    · exact hk.tell he hd time
    · rw [hpub]
      split
      case isTrue hc => exact .inr ⟨ho hc, _, rfl⟩
      case isFalse => exact .inl rfl
  | fire ht =>
    rw [List.append_nil]
    exact hk.carries (hk.ready.fire ht)
  | lapse uri generation =>
    rw [List.append_nil]
    exact hk.carries (hk.ready.expire uri generation)
  | begin hc =>
    rw [List.append_nil]
    exact hk.begin hc
  | @diagnosed id c snapshot outcome hc hrun hs ho =>
    have hm := List.mem_of_find?_eq_some hc
    have heq : w.workspace.diagnosed id outcome =
        w.workspace.observed (w.workspace.pipeline.complete c snapshot outcome) := by
      rw [Workspace.diagnosed, Pipeline.answer, hc]
      dsimp only
      rw [hrun]
    rw [List.append_nil, heq, issued_issue trace]
    · exact hk.complete hm hrun hs
    · rcases hk.ready.complete w.workspace.snapshot? hm snapshot hs with
        ⟨-, hp⟩ | ⟨-, -, hp⟩
      · exact .inl hp
      · exact .inr ⟨ho, _, hp⟩
  | @publish bulletin ho =>
    have hb : issued (trace ++ [.published bulletin]) { w with outgoing := none } =
        issued trace w := by
      simp [issued, Record.bulletin?, ho]
    rw [hb]
    exact hk

theorem Run.kept (he : options.enabled = true) (h : Run options trace w) :
    w.workspace.Kept options (issued trace w) := by
  induction h with
  | refl =>
    exact ⟨Document.Store.Sound.empty.of_eq rfl rfl, orderly_empty options,
      Pipeline.ready_empty options, attended_empty options⟩
  | tail hr hm ih => exact hm.kept he hr ih

end Scene

/-! ### The account of a run -/

/-- Nothing is under way: no operation, no timer, no computation and no publication. -/
structure Scene.Still (w : Scene) : Prop where
  operations : w.workspace.operations = []
  timers : w.workspace.pipeline.timers = []
  computations : w.workspace.pipeline.computations = []
  outgoing : w.outgoing = none

/-- The diagnostics have caught up with the documents. What was published last for an open document was
computed from what it is now, and its handle, if it has one, was given for its present text; for a
document that is not open nothing was published since it was closed. -/
structure CaughtUp (options : Options) (trace : List Record) (w : Workspace) : Prop where
  current : ∀ uri d, w.store.document? uri = some d →
    ∃ b, lastBulletin? (trace.filterMap Record.bulletin?) (key uri) = some b ∧ b.Shows options d
  given : ∀ uri d handle, w.store.document? uri = some d → d.handle = some handle →
    Document.Given (trace.filterMap Record.document?) d.uri d.text handle
  absent : ∀ uri, w.store.document? uri = none →
    ∀ b, lastBulletin? (trace.filterMap Record.bulletin?) (key uri) = some b →
      b.publication.version = none

theorem Scene.Still.not_owing {w : Scene} (h : w.Still) (k : Bytes) : ¬w.workspace.Owing k := by
  rintro ⟨id, t, e, hm, -⟩
  rw [h.operations] at hm
  cases hm

theorem Scene.Still.not_closing {w : Scene} (h : w.Still) (k : Bytes) :
    ¬w.workspace.Closing k := by
  rintro ⟨id, d, hm, -⟩
  rw [h.operations] at hm
  cases hm

/-- A document is changed while it is still looked up. The change arms a timer, which the end of the
opening cancels. -/
def settledTrace : List Record :=
  [.document (.began 0 (.openDocument (ascii "a") (ascii "vb") 1 (ascii "x"))),
    .document (.began 1 (.changeDocument (ascii "A") 2 [⟨none, ascii "y"⟩])),
    .document (.heard 1 ⟨⟨ascii "a", 2, .changed⟩, 1, [], .finish (.handled true)⟩ none),
    .document (.replied 0 (.resolve (ascii "a")) (.ok none)),
    .document (.heard 0 ⟨⟨ascii "a", 1, .opened⟩, 1, [], .finish .opened⟩ none),
    .published (.computed ⟨ascii "a", 2, .standalone (ascii "a") (ascii "y")⟩ (.ok [])
      { uri := ascii "a", version := some 2 })]

end EditorSession.Workspace
