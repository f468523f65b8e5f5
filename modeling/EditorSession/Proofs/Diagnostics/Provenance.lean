import EditorSession.Proofs.Diagnostics.Stages
import EditorSession.Proofs.Document.Run

/-! Where diagnostics come from. A computation looks at its document once, when it begins. Whatever
happens to the document while the engine is at work, what is published then tells of the document as
it was, and of nothing else. -/

namespace EditorSession.Diagnostics

open Analysis (Inspection Outcome)
open Document (key OpenDocument)

/-- What the engine is asked about a document: what is behind its handle, if it has one, else its
text. -/
inductive Asks (d : OpenDocument) : Inspection → Prop where
  | handle {h} (hh : d.handle = some h) : Asks d (.handle h)
  | standalone (hh : d.handle = none) : Asks d (.standalone d.uri d.text)

/-- What is published about a document when the engine has answered. -/
inductive Reports (options : Options) (d : OpenDocument) :
    Outcome (List Lsp.Diagnostic) → Lsp.Publication → Prop where
  | found (diagnostics) :
      Reports options d (.ok diagnostics)
        { uri := d.uri
          version := some d.version
          diagnostics := diagnostics.filter fun x => x.severity.rank ≤ options.threshold.rank }
  | failed {failure} (hf : failure ≠ .cancelled) :
      Reports options d (.error failure)
        { uri := d.uri, version := some d.version, diagnostics := [] }

theorem asks_ofDocument (d : OpenDocument) : Asks d (Snapshot.ofDocument d).inspection := by
  unfold Snapshot.ofDocument
  cases hh : d.handle with
  | none => exact .standalone hh
  | some h => exact .handle hh

theorem reports_of_reply {options : Options} {p : Pipeline} (ho : p.options = options)
    {d : OpenDocument} {outcome : Outcome (List Lsp.Diagnostic)} {publication : Lsp.Publication}
    (h : p.reply (.ofDocument d) outcome = some publication) :
    Reports options d outcome publication := by
  subst ho
  unfold Pipeline.reply at h
  split at h
  case isTrue => cases h
  case isFalse hne =>
    obtain rfl := Option.some.inj h
    cases outcome with
    | ok diagnostics => exact .found diagnostics
    | error failure =>
      apply Reports.failed
      intro hf
      exact hne (congrArg Except.error hf)

namespace Scene

/-- What is called on a pipeline, what its timers do, and what goes out: every move but the beginning
and the end of a computation. -/
inductive Call : Scene → List Record → Scene → Prop where
  | trigger (w now uri) : Call w [] { w with pipeline := w.pipeline.trigger now uri }
  | computeNow (w uri) :
      Call w (w.starts uri (w.pipeline.computeNow uri))
        { w with pipeline := w.pipeline.computeNow uri }
  | fire (w timer) :
      Call w (w.starts timer.uri (w.pipeline.fire timer))
        { w with pipeline := w.pipeline.fire timer }
  | clear {w} (uri) (ho : w.outgoing = none) :
      Call w ((w.pipeline.clear uri).2.1.map fun _ => .cleared uri)
        (w.issue .clearing (w.pipeline.clear uri))
  | publish {w o} (ho : w.outgoing = some o) : Call w [o.record] { w with outgoing := none }
  | shutdown (w) :
      Call w (if w.pipeline.shutdown.2 then [.shut] else [.returned false])
        { w with
          pipeline := w.pipeline.shutdown.1
          closing := w.closing || w.pipeline.shutdown.2 }
  | leave {w} (hc : w.closing = true) (hq : w.pipeline.quiet = true)
      (ho : ∀ id publication, w.outgoing ≠ some (.result id publication)) :
      Call w [.returned true] { w with closing := false }

namespace Call

variable {w w' : Scene} {records : List Record}

theorem move (h : Call w records w') : w.Move records w' := by
  cases h with
  | trigger now uri => exact .trigger w now uri
  | computeNow uri => exact .computeNow w uri
  | fire timer => exact .fire w timer
  | clear uri ho => exact .clear uri ho
  | publish ho => exact .publish ho
  | shutdown => exact .shutdown w
  | leave hc hq ho => exact .leave hc hq ho

theorem retains (h : Call w records w') : w.pipeline.Retains w'.pipeline := by
  cases h with
  | trigger now uri => exact .trigger _ now uri
  | computeNow uri => exact .computeNow _ uri
  | fire timer => exact .fire _ timer
  | clear uri => exact .clear _ uri
  | publish => exact .refl _
  | shutdown => exact .shutdown _
  | leave => exact .refl _

/-- What goes out was on its way, and nothing else is on its way. -/
theorem outgoing (h : Call w records w') {id : ComputationId} {publication : Lsp.Publication}
    (hp : .published id publication ∈ records ∨
      w'.outgoing = some (.result id publication)) :
    w.outgoing = some (.result id publication) := by
  cases h with
  | trigger => simpa using hp
  | computeNow uri =>
    rcases hp with hp | hp
    · unfold starts at hp
      split at hp <;> simp at hp
    · exact hp
  | fire timer =>
    rcases hp with hp | hp
    · unfold starts at hp
      split at hp <;> simp at hp
    · exact hp
  | clear uri ho =>
    rcases hp with hp | hp
    · simp at hp
    · simp [issue, Option.map_eq_some_iff] at hp
  | @publish o ho =>
    rw [ho]
    rcases hp with hp | hp
    · cases o with
      | result i q =>
        obtain ⟨rfl, rfl⟩ : id = i ∧ publication = q := by simpa [Outgoing.record] using hp
        rfl
      | clearing q => simp [Outgoing.record] at hp
    · cases hp
  | shutdown =>
    rcases hp with hp | hp
    · split at hp <;> simp at hp
    · exact hp
  | leave => simpa using hp

end Call

end Scene

/-- A pipeline and the documents that it works on. -/
structure Watch where
  documents : Document.Scene := {}
  diagnostics : Scene := {}

namespace Watch

/-- What a run leaves on record. -/
inductive Record where
  | document (record : Document.Record)
  | pipeline (record : Diagnostics.Record)
  /-- A computation begins, and asks the engine. -/
  | asked (id : ComputationId) (inspection : Inspection)
  /-- A computation was to begin, but its document is not open. -/
  | skipped (id : ComputationId)
  /-- The engine has answered a computation that was asked to stop, or not. -/
  | answered (id : ComputationId) (outcome : Outcome (List Lsp.Diagnostic)) (stopped : Bool)

/-- The computation that begins or ends. -/
def Record.about? : Record → Option ComputationId
  | document _ => none
  | pipeline _ => none
  | asked id _ => some id
  | skipped id => some id
  | answered id _ _ => some id

/-- The computation that ends. -/
def Record.ends? : Record → Option ComputationId
  | document _ => none
  | pipeline _ => none
  | asked _ _ => none
  | skipped id => some id
  | answered id _ _ => some id

def pipeline (w : Watch) : Pipeline := w.diagnostics.pipeline

/-- Operations on documents and calls on the pipeline come in any order, from anywhere, and the engine
answers anything. -/
inductive Move : Watch → List Record → Watch → Prop where
  | document {w : Watch} {records documents} (h : w.documents.Move records documents) :
      Move w (records.map .document) { w with documents }
  | call {w : Watch} {records diagnostics} (h : w.diagnostics.Call records diagnostics) :
      Move w (records.map .pipeline) { w with diagnostics }
  | begin {w : Watch} {c d} (hc : c ∈ w.pipeline.computations) (hq : c.stage = .queued)
      (hd : w.documents.store.document? c.uri = some d) :
      Move w [.asked c.id (Snapshot.ofDocument d).inspection]
        { w with diagnostics.pipeline := (w.pipeline.begin c (some d)).1 }
  | skip {w : Watch} {c} (hc : c ∈ w.pipeline.computations) (hq : c.stage = .queued)
      (hd : w.documents.store.document? c.uri = none) (ho : w.diagnostics.outgoing = none) :
      Move w [.skipped c.id]
        { w with diagnostics := w.diagnostics.issue (.result c.id) (w.pipeline.begin c none) }
  | answer {w : Watch} {c snapshot} (outcome) (hc : w.pipeline.computation? c.id = some c)
      (hr : c.stage = .running snapshot) (ho : w.diagnostics.outgoing = none) :
      Move w [.answered c.id outcome c.stopped]
        { w with diagnostics := w.diagnostics.issue (.result c.id) (w.pipeline.answer c.id outcome) }

/-- Any number of moves, with their record. -/
inductive Moves (w : Watch) : List Record → Watch → Prop where
  | refl : Moves w [] w
  | tail {trace w' records w''} : Moves w trace w' → Move w' records w'' →
      Moves w (trace ++ records) w''

/-- A run from the beginning, when nothing is open and nothing has been asked of the pipeline. -/
abbrev Run (options : Options) (trace : List Record) (w : Watch) : Prop :=
  Moves { diagnostics.pipeline := { options } } trace w

variable {options : Options} {trace more records : List Record} {w w' : Watch} {id : ComputationId}

/-- The computation is for a document that is open, and is `d`. -/
def Finds (w : Watch) (id : ComputationId) (d : OpenDocument) : Prop :=
  ∃ c ∈ w.pipeline.computations, c.id = id ∧ w.documents.store.document? c.uri = some d

/-- At one moment of the run the computation found the document `d` open and asked the engine about
it; it has asked nothing else, and has not ended. -/
inductive Looked (options : Options) (trace : List Record) (w : Watch) (id : ComputationId)
    (snapshot : Snapshot) : Prop where
  | intro (before during moment d)
      (ht : trace = before ++ .asked id snapshot.inspection :: during)
      (hb : Run options before moment)
      (hl : Moves moment (.asked id snapshot.inspection :: during) w)
      (hf : moment.Finds id d) (hs : snapshot = .ofDocument d)
      (ha : ∀ r ∈ before ++ during, r.about? ≠ some id)

/-- Where a publication comes from. At one moment of the run the computation found the document `d`
open. It asked the engine about `d` as it was, and nothing else; the engine answered once, when nobody
had asked the computation to stop; and the publication tells of `d` and of the answer. -/
inductive Origin (options : Options) (trace : List Record) (w : Watch) (id : ComputationId)
    (publication : Lsp.Publication) : Prop where
  | intro (before during after moment d inspection outcome)
      (ht : trace = before ++ .asked id inspection :: during ++ .answered id outcome false :: after)
      (hb : Run options before moment)
      (hl : Moves moment (.asked id inspection :: during ++ .answered id outcome false :: after) w)
      (hf : moment.Finds id d) (hi : Asks d inspection)
      (hr : Reports options d outcome publication)
      (ha : ∀ r ∈ before ++ during ++ after, r.about? ≠ some id)

theorem Looked.append {snapshot : Snapshot} (h : Looked options trace w id snapshot)
    (hm : Move w more w') (hn : ∀ r ∈ more, r.about? ≠ some id) :
    Looked options (trace ++ more) w' id snapshot := by
  obtain ⟨before, during, moment, d, rfl, hb, hl, hf, hs, ha⟩ := h
  refine ⟨before, during ++ more, moment, d, by simp, hb, hl.tail hm, hf, hs, ?_⟩
  intro r hr
  rw [← List.append_assoc] at hr
  exact (List.mem_append.mp hr).elim (ha r) (hn r)

theorem Origin.append {publication : Lsp.Publication} (h : Origin options trace w id publication)
    (hm : Move w more w') (hn : ∀ r ∈ more, r.about? ≠ some id) :
    Origin options (trace ++ more) w' id publication := by
  obtain ⟨before, during, after, moment, d, inspection, outcome, rfl, hb, hl, hf, hi, hr, ha⟩ := h
  refine ⟨before, during, after ++ more, moment, d, inspection, outcome, by simp, hb, ?_, hf, hi, hr,
    ?_⟩
  · have htail := hl.tail hm
    rwa [List.append_assoc] at htail
  · intro r hr
    rw [← List.append_assoc] at hr
    exact (List.mem_append.mp hr).elim (ha r) (hn r)

/-- The computation has asked, and was answered. -/
theorem Origin.answered {publication : Lsp.Publication} (h : Origin options trace w id publication)
    {r : Record} (hr : r ∈ trace) (he : r.ends? = some id) :
    ∃ outcome, r = .answered id outcome false ∧ outcome ≠ .error .cancelled := by
  obtain ⟨before, during, after, moment, d, inspection, outcome, rfl, -, -, -, -, hrep, ha⟩ := h
  have habout : r.about? = some id := by
    cases r <;> first | exact he | cases he
  have hne : outcome ≠ .error .cancelled := by
    cases hrep with
    | found => simp
    | failed hf => simpa using hf
  simp only [List.mem_append, List.mem_cons] at hr ha
  rcases hr with (hr | rfl | hr) | rfl | hr
  · exact absurd habout (ha r (.inl (.inl hr)))
  · cases he
  · exact absurd habout (ha r (.inl (.inr hr)))
  · exact ⟨outcome, rfl, hne⟩
  · exact absurd habout (ha r (.inr hr))

/-! ### The account along a run -/

/-- What the record and the state have to do with each other. A queued computation is not on record,
one that is at work has looked at its document once, and whatever is published has its origin. -/
structure Account (options : Options) (trace : List Record) (w : Watch) : Prop where
  exclusive : w.pipeline.Exclusive
  configured : w.pipeline.options = options
  below : ∀ r ∈ trace, ∀ id, r.about? = some id → id < w.pipeline.started
  queued : ∀ c ∈ w.pipeline.computations, c.stage = .queued → ∀ r ∈ trace, r.about? ≠ some c.id
  running : ∀ c ∈ w.pipeline.computations, ∀ s, c.stage = .running s →
    Looked options trace w c.id s
  origin : ∀ id publication, (.pipeline (.published id publication) ∈ trace ∨
    w.diagnostics.outgoing = some (.result id publication)) → Origin options trace w id publication

namespace Account

/-- A computation that has not ended has no publication. -/
theorem ne_of_origin (h : w.Account options trace) {c : Computation}
    (hc : c ∈ w.pipeline.computations) {publication : Lsp.Publication}
    (ho : Origin options trace w id publication) : id ≠ c.id := by
  rintro rfl
  obtain ⟨before, during, after, -, -, inspection, outcome, rfl, -⟩ := ho
  cases hst : c.stage with
  | queued => exact h.queued c hc hst (.asked c.id inspection) (by simp) rfl
  | running s =>
    obtain ⟨before', during', -, -, ht, -, -, -, -, ha⟩ := h.running c hc s hst
    have hm : Record.answered c.id outcome false ∈ before' ++ .asked c.id s.inspection :: during' := by
      rw [← ht]
      simp
    simp only [List.mem_append, List.mem_cons, reduceCtorEq, false_or] at hm
    exact ha _ (List.mem_append.mpr hm) rfl

/-- A step that leaves computations at their stages, or has them look at their documents. What it puts
on record is about computations that had not ended. -/
theorem step (h : w.Account options trace) (hmove : Move w more w') (hx : w'.pipeline.Exclusive)
    (ho : w'.pipeline.options = w.pipeline.options)
    (hn : w.pipeline.started ≤ w'.pipeline.started)
    (hm : ∀ r ∈ more, ∀ id, r.about? = some id → id ∈ w.pipeline.ids)
    (hc : ∀ c' ∈ w'.pipeline.computations,
      (w.pipeline.started ≤ c'.id ∧ c'.stage = .queued) ∨
        (∃ c ∈ w.pipeline.computations, c'.id = c.id ∧ c'.stage = c.stage ∧
          ∀ r ∈ more, r.about? ≠ some c.id) ∨
        ∃ s, c'.stage = .running s ∧ Looked options (trace ++ more) w' c'.id s)
    (hp : ∀ id publication, (.pipeline (.published id publication) ∈ more ∨
        w'.diagnostics.outgoing = some (.result id publication)) →
      w.diagnostics.outgoing = some (.result id publication) ∨
        Origin options (trace ++ more) w' id publication) :
    w'.Account options (trace ++ more) where
  exclusive := hx
  configured := ho.trans h.configured
  below := by
    intro r hr id ha
    apply Nat.lt_of_lt_of_le _ hn
    rcases List.mem_append.mp hr with hr | hr
    · exact h.below r hr id ha
    · exact h.exclusive.below id (hm r hr id ha)
  queued := by
    intro c' hc' hq r hr
    rcases hc c' hc' with ⟨hl, -⟩ | ⟨c, hcm, hi, hst, hmore⟩ | ⟨s, hst, -⟩
    · intro ha
      have hlt : c'.id < w.pipeline.started := by
        rcases List.mem_append.mp hr with hr | hr
        · exact h.below r hr _ ha
        · exact h.exclusive.below _ (hm r hr _ ha)
      exact Nat.not_lt_of_le hl hlt
    · rw [hi]
      rcases List.mem_append.mp hr with hr | hr
      · exact h.queued c hcm (hst ▸ hq) r hr
      · exact hmore r hr
    · rw [hst] at hq
      cases hq
  running := by
    intro c' hc' s hs
    rcases hc c' hc' with ⟨-, hst⟩ | ⟨c, hcm, hi, hst, hmore⟩ | ⟨s', hst, hl⟩
    · rw [hst] at hs
      cases hs
    · rw [hi]
      exact (h.running c hcm s (hst ▸ hs)).append hmove hmore
    · rw [hst] at hs
      cases hs
      exact hl
  origin := by
    -- an origin is not disturbed by what is put on record about unfinished computations
    have hold : ∀ id publication, Origin options trace w id publication →
        Origin options (trace ++ more) w' id publication := by
      intro id publication hor
      apply hor.append hmove
      intro r hr ha
      obtain ⟨c, hcm, hi⟩ := List.mem_map.mp (hm r hr id ha)
      exact h.ne_of_origin hcm hor hi.symm
    intro id publication hpub
    rw [List.mem_append, or_assoc] at hpub
    rcases hpub with hpub | hpub
    · exact hold id publication (h.origin id publication (.inl hpub))
    · rcases hp id publication hpub with hout | hor
      · exact hold id publication (h.origin id publication (.inr hout))
      · exact hor

theorem starts (options : Options) :
    ({ diagnostics.pipeline := { options } } : Watch).Account options [] := by
  refine ⟨Pipeline.exclusive_empty options, rfl, by simp, ?_, ?_, by simp⟩
  · intro c hc
    cases hc
  · intro c hc
    cases hc

/-- Nothing begins and nothing ends. -/
theorem retained (h : w.Account options trace) (hmove : Move w more w') (hx : w'.pipeline.Exclusive)
    (hr : w.pipeline.Retains w'.pipeline) (hm : ∀ r ∈ more, r.about? = none)
    (hp : ∀ id publication, (.pipeline (.published id publication) ∈ more ∨
        w'.diagnostics.outgoing = some (.result id publication)) →
      w.diagnostics.outgoing = some (.result id publication)) :
    w'.Account options (trace ++ more) := by
  refine h.step hmove hx hr.options hr.started ?_ ?_ fun id publication hpub => .inl (hp _ _ hpub)
  · intro r hmem id ha
    rw [hm r hmem] at ha
    cases ha
  · intro c' hc'
    rcases hr.stages c' hc' with ⟨hl, -, hq⟩ | ⟨c, hc, hi, -, hst⟩
    · exact .inl ⟨hl, hq⟩
    · refine .inr (.inl ⟨c, hc, hi, hst, ?_⟩)
      intro r hmem
      rw [hm r hmem]
      simp

theorem begin (h : w.Account options trace) (hrun : Run options trace w) {c : Computation}
    (hc : c ∈ w.pipeline.computations) (hq : c.stage = .queued) {d : OpenDocument}
    (hd : w.documents.store.document? c.uri = some d) :
    ({ w with diagnostics.pipeline := (w.pipeline.begin c (some d)).1 } : Watch).Account options
      (trace ++ [.asked c.id (Snapshot.ofDocument d).inspection]) := by
  have hmove : Move w _ _ := .begin hc hq hd
  refine h.step hmove (h.exclusive.begin hc d).exclusive rfl (Nat.le_refl _) ?_ ?_ ?_
  · intro r hr id ha
    obtain rfl := List.mem_singleton.mp hr
    obtain rfl := Option.some.inj ha
    exact List.mem_map.mpr ⟨c, hc, rfl⟩
  · intro c' hc'
    rcases Pipeline.stage_begin hc' with ⟨hi, hst⟩ | ⟨hi, hcm⟩
    · refine .inr (.inr ⟨_, hst, ?_⟩)
      rw [hi]
      refine ⟨trace, [], w, d, rfl, hrun, Moves.refl.tail hmove, ⟨c, hc, rfl, hd⟩, rfl, ?_⟩
      rw [List.append_nil]
      exact h.queued c hc hq
    · refine .inr (.inl ⟨c', hcm, rfl, rfl, ?_⟩)
      intro r hr ha
      obtain rfl := List.mem_singleton.mp hr
      exact hi (Option.some.inj ha).symm
  · intro id publication hpub
    exact .inl (by simpa using hpub)

/-- A computation ends, and what it publishes has its origin. -/
theorem ends (h : w.Account options trace) {c : Computation} (hc : c ∈ w.pipeline.computations)
    {r : Record} (hr : r.about? = some c.id) (hnp : ∀ id p, r ≠ .pipeline (.published id p))
    {publication : Option Lsp.Publication} {step : Step}
    (hrel : w.pipeline.Releases c publication step) (hret : w.pipeline.Retains step.1)
    (hx : Pipeline.Exclusive step.1)
    (hmove : Move w [r] { w with diagnostics := w.diagnostics.issue (.result c.id) step })
    (hor : c.stopped = false → ∀ p, publication = some p → Origin options (trace ++ [r])
      { w with diagnostics := w.diagnostics.issue (.result c.id) step } c.id p) :
    ({ w with diagnostics := w.diagnostics.issue (.result c.id) step } : Watch).Account options
      (trace ++ [r]) := by
  refine h.step hmove hx hret.options hret.started ?_ ?_ ?_
  · intro r' hr' id ha
    obtain rfl := List.mem_singleton.mp hr'
    rw [hr, Option.some.injEq] at ha
    exact ha ▸ List.mem_map.mpr ⟨c, hc, rfl⟩
  · intro c' hc'
    rcases hret.stages c' hc' with ⟨hl, -, hq⟩ | ⟨x, hxm, hi, -, hst⟩
    · exact .inl ⟨hl, hq⟩
    · refine .inr (.inl ⟨x, hxm, hi, hst, ?_⟩)
      intro r' hr' ha
      obtain rfl := List.mem_singleton.mp hr'
      rw [hr, Option.some.injEq] at ha
      exact hrel.gone (List.mem_map.mpr ⟨c', hc', hi.trans ha.symm⟩)
  · intro id p hpub
    rcases hpub with hpub | hpub
    · exact absurd (List.mem_singleton.mp hpub).symm (hnp id p)
    · right
      simp only [Scene.issue, hrel.publications] at hpub
      cases hs : c.stopped with
      | true => simp [hs] at hpub
      | false =>
        cases publication with
        | none => simp [hs] at hpub
        | some q =>
          obtain ⟨rfl, rfl⟩ : c.id = id ∧ q = p := by simpa [hs] using hpub
          exact hor hs q rfl

theorem move (h : w.Account options trace) (hrun : Run options trace w)
    (hm : Move w records w') : w'.Account options (trace ++ records) := by
  have hmove := hm
  cases hm with
  | document hd =>
    refine h.retained hmove h.exclusive (.refl _) ?_ ?_
    · intro r hr
      obtain ⟨r', -, rfl⟩ := List.mem_map.mp hr
      rfl
    · intro id publication hpub
      simpa using hpub
  | call hc =>
    refine h.retained hmove (hc.move.exclusive h.exclusive) hc.retains ?_ ?_
    · intro r hr
      obtain ⟨r', -, rfl⟩ := List.mem_map.mp hr
      rfl
    · intro id publication hpub
      exact hc.outgoing (by simpa using hpub)
  | begin hc hq hd => exact h.begin hrun hc hq hd
  | @skip c hc hq hd ho =>
    refine h.ends hc rfl (by simp) (h.exclusive.skip_releases hc) (.finish _ c none)
      (h.exclusive.finish hc none).exclusive hmove ?_
    intro _ p hp
    cases hp
  | @answer c snapshot outcome hc hr ho =>
    have hcm := List.mem_of_find?_eq_some hc
    rw [Pipeline.answer_eq hc hr] at hmove ⊢
    refine h.ends hcm rfl (by simp) (h.exclusive.complete_releases hcm snapshot outcome)
      (.complete _ c snapshot outcome) (h.exclusive.complete hcm snapshot outcome) hmove ?_
    intro hs publication hp
    obtain ⟨before, during, moment, d, rfl, hb, hl, hf, rfl, ha⟩ := h.running c hcm snapshot hr
    rw [hs] at hmove ⊢
    refine ⟨before, during, [], moment, d, _, outcome, rfl, hb, hl.tail hmove, hf,
      asks_ofDocument d, reports_of_reply h.configured hp, ?_⟩
    rw [List.append_nil]
    exact ha

end Account

theorem Run.account (h : Run options trace w) : w.Account options trace := by
  induction h with
  | refl => exact .starts options
  | tail hrun hm ih => exact ih.move hrun hm

/-! ### The end of a computation -/

/-- A computation has ended. If its run was its own, the run is idle and what there is to publish is
on its way; if not, the run is left to whom it belongs, and nothing goes out. -/
structure Ended (w : Watch) (c : Computation) (r : Record) (w' : Watch) : Prop where
  gone : c.id ∉ w'.pipeline.ids
  idle : w.pipeline.Owns c → w'.pipeline.state c.uri = .idle
  left : ¬w.pipeline.Owns c → w'.pipeline.run c.uri = w.pipeline.run c.uri
  silent : ¬w.pipeline.Owns c → w'.diagnostics.outgoing = none
  reported : w.pipeline.Owns c → ∀ outcome stopped, r = .answered c.id outcome stopped →
    outcome ≠ .error .cancelled →
      ∃ publication, w'.diagnostics.outgoing = some (.result c.id publication)

theorem Ended.of_releases {c : Computation} {r : Record} {publication : Option Lsp.Publication}
    {step : Step} (hx : w.pipeline.Exclusive) (hc : c ∈ w.pipeline.computations)
    (hrel : w.pipeline.Releases c publication step)
    (hr : ∀ outcome stopped, r = .answered c.id outcome stopped → outcome ≠ .error .cancelled →
      publication.isSome) :
    w.Ended c r { w with diagnostics := w.diagnostics.issue (.result c.id) step } := by
  have hstopped : ¬w.pipeline.Owns c → c.stopped = true := by
    intro hn
    rw [hx.owns_iff hc] at hn
    exact Bool.not_eq_false _ |>.mp hn
  refine ⟨hrel.gone, ?_, ?_, ?_, ?_⟩
  · intro ho
    exact hrel.idle ((hx.owns_iff hc).mp ho)
  · intro hn
    exact hrel.left (hstopped hn)
  · intro hn
    simp [Scene.issue, hrel.publications, hstopped hn]
  · intro ho outcome stopped he hne
    obtain ⟨p, rfl⟩ := Option.isSome_iff_exists.mp (hr outcome stopped he hne)
    refine ⟨p, ?_⟩
    simp [Scene.issue, hrel.publications, (hx.owns_iff hc).mp ho]

theorem Move.ended (h : Move w records w') (hx : w.pipeline.Exclusive) {c : Computation}
    (hc : c ∈ w.pipeline.computations) {r : Record} (hr : r ∈ records)
    (he : r.ends? = some c.id) : w.Ended c r w' := by
  cases h with
  | document hd =>
    obtain ⟨r', -, rfl⟩ := List.mem_map.mp hr
    cases he
  | call hcall =>
    obtain ⟨r', -, rfl⟩ := List.mem_map.mp hr
    cases he
  | begin =>
    obtain rfl := List.mem_singleton.mp hr
    cases he
  | @skip c' hc' hq hd ho =>
    obtain rfl := List.mem_singleton.mp hr
    obtain rfl := hx.eq_of_id hc' hc (Option.some.inj he)
    refine .of_releases hx hc' (hx.skip_releases hc') ?_
    intro outcome stopped hr
    cases hr
  | @answer c' snapshot outcome hc' hrun ho =>
    have hcm := List.mem_of_find?_eq_some hc'
    obtain rfl := List.mem_singleton.mp hr
    obtain rfl := hx.eq_of_id hcm hc (Option.some.inj he)
    rw [Pipeline.answer_eq hc' hrun]
    refine .of_releases hx hcm (hx.complete_releases hcm snapshot outcome) ?_
    intro outcome' stopped hr' hne
    injection hr' with _ ho' _
    rw [ho']
    simp [Pipeline.reply, hne]

/-! ### What is published -/

/-- Whatever a computation publishes tells of one state of its document. It publishes nothing if the
document was not open, if the engine gave up because of the cancellation, or if it failed after a stop
was requested; and however a computation ends, it releases its run. -/
structure OfOneState (options : Options) (trace : List Record) (w : Watch) : Prop where
  origin : ∀ id publication, .pipeline (.published id publication) ∈ trace →
    Origin options trace w id publication
  unopened : ∀ id, .skipped id ∈ trace → ∀ publication,
    .pipeline (.published id publication) ∉ trace
  cancelled : ∀ id stopped, .answered id (.error .cancelled) stopped ∈ trace → ∀ publication,
    .pipeline (.published id publication) ∉ trace
  interrupted : ∀ id failure, .answered id (.error failure) true ∈ trace → ∀ publication,
    .pipeline (.published id publication) ∉ trace
  ended : ∀ records w', w.Move records w' → ∀ c ∈ w.pipeline.computations, ∀ r ∈ records,
    r.ends? = some c.id → w.Ended c r w'

/-- In every run, whatever happens to the documents while the engine is at work, what is published
tells of one state of one document, and of nothing else. -/
theorem Run.ofOneState (h : Run options trace w) : w.OfOneState options trace := by
  have ha := h.account
  refine ⟨?_, ?_, ?_, ?_, ?_⟩
  · intro id publication hp
    exact ha.origin id publication (.inl hp)
  · intro id hr publication hp
    obtain ⟨outcome, heq, -⟩ := (ha.origin id publication (.inl hp)).answered hr rfl
    cases heq
  · intro id stopped hr publication hp
    obtain ⟨outcome, heq, hne⟩ := (ha.origin id publication (.inl hp)).answered hr rfl
    injection heq with _ ho _
    exact hne ho.symm
  · intro id failure hr publication hp
    obtain ⟨outcome, heq, -⟩ := (ha.origin id publication (.inl hp)).answered hr rfl
    injection heq with _ _ hs
    cases hs
  · intro records w' hm c hc r hr he
    exact hm.ended ha.exclusive hc hr he

/-- A document is changed while the engine is at work on it. -/
def editedTrace : List Record :=
  [.document (.began 0 (.openDocument (ascii "a") (ascii "vb") 1 (ascii "x"))),
    .document (.replied 0 (.resolve (ascii "a")) (.ok none)),
    .pipeline (.started 0 (ascii "A")),
    .asked 0 (.standalone (ascii "a") (ascii "x")),
    .document (.began 1 (.changeDocument (ascii "A") 2 [⟨none, ascii "y"⟩])),
    .answered 0 (.ok [{ severity := .hint }, { message := ascii "x" }]) false,
    .pipeline (.published 0
      { uri := ascii "a", version := some 1, diagnostics := [{ message := ascii "x" }] })]

theorem Run.ofOneState_editedTrace :
    ∃ w, Run {} editedTrace w ∧
      w.documents.store.document? (ascii "a") = some ⟨ascii "a", ascii "vb", 2, ascii "y", none⟩ ∧
      w.OfOneState {} editedTrace := by
  have h0 : Run {} [] {} := .refl
  have h1 := h0.tail (.document (.start _ (.openDocument (ascii "a") (ascii "vb") 1 (ascii "x"))))
  have h2 := h1.tail (.document (@Document.Scene.Move.answer _ 0 _ (.ok none) (.head _)))
  have h3 := h2.tail (.call (.computeNow _ (ascii "A")))
  have h4 := h3.tail (.begin (.head _) rfl rfl)
  have h5 := h4.tail (.document (.start _ (.changeDocument (ascii "A") 2 [⟨none, ascii "y"⟩])))
  have h6 := h5.tail (@Move.answer _
    ⟨0, ascii "A", 1, false, .running ⟨ascii "a", 1, .standalone (ascii "a") (ascii "x")⟩⟩ _
    (.ok [{ severity := .hint }, { message := ascii "x" }]) rfl rfl rfl)
  have h7 := h6.tail (.call (.publish rfl))
  exact ⟨_, h7, rfl, Run.ofOneState h7⟩

end Watch

end EditorSession.Diagnostics
