import EditorSession.Proofs.Document.Spelling
import EditorSession.Proofs.Workspace.Rest

/-! What is left behind when every document is closed. Diagnostics are published under the spelling
that a document was opened with, and closing it clears that spelling. A document that is opened again
under another spelling is not closed, so nothing clears the old one. -/

namespace EditorSession.Diagnostics.Pipeline

open Document (key)

variable {options : Options} {p p' : Pipeline} {uri u : Bytes} {c : Computation}

/-- A computation that nobody has asked to stop works on a document of this uri. -/
def Computing (p : Pipeline) (uri : Bytes) : Prop :=
  ∃ c ∈ p.computations, c.stopped = false ∧ ∃ s, c.stage = .running s ∧ s.uri = uri

theorem Computing.of_subset (h : p'.Computing u)
    (hc : ∀ c ∈ p'.computations, c ∈ p.computations) : p.Computing u := by
  obtain ⟨c, hm, h⟩ := h
  exact ⟨c, hc c hm, h⟩

/-- Where work starts anew, nothing is computed yet. -/
theorem Renews.computing (h : p.Renews options uri p') (hc : p'.Computing u) :
    p.Computing u ∧ key u ≠ key uri := by
  obtain ⟨c, hm, hn, s, hs, rfl⟩ := hc
  have hne : key c.uri ≠ key uri := by
    intro hk
    cases h.reads none c hm hk hn s hs
  exact ⟨⟨c, (h.elsewhere.computations c hne).mp hm, hn, s, hs, rfl⟩,
    fun hk => hne ((h.ready.placed c hm s hs).symm.trans hk)⟩

theorem computing_of_startComputation {generation : Nat}
    (h : (p.startComputation uri generation).Computing u) : p.Computing u := by
  obtain ⟨c, hm, hn, s, hs, hu⟩ := h
  rcases List.mem_append.mp hm with hm | hm
  · exact ⟨c, hm, hn, s, hs, hu⟩
  · rw [List.mem_singleton.mp hm] at hs
    cases hs

theorem computing_of_expire (ho : p.shut = false) {generation : Nat}
    (h : (p.expire uri generation).Computing u) : p.Computing u := by
  rcases expire_cases ho uri generation with ⟨-, -, -, -, he⟩ | ⟨he, -⟩
  · exact computing_of_startComputation (he ▸ h)
  · exact he ▸ h

theorem computing_of_fire (ho : p.shut = false) {t : Timer} (h : (p.fire t).Computing u) :
    p.Computing u :=
  computing_of_expire (p := { p with timers := p.timers.filter fun other => other.id ≠ t.id }) ho h

theorem computing_of_begin {d : Document.OpenDocument}
    (h : (p.begin c (some d)).1.Computing u) : p.Computing u ∨ d.uri = u := by
  obtain ⟨x, hm, hn, s, hs, hu⟩ := h
  obtain ⟨y, hy, rfl⟩ := List.mem_map.mp hm
  by_cases hi : y.id = c.id
  · rw [if_pos hi] at hs
    cases hs
    exact .inr hu
  · rw [if_neg hi] at hn hs
    exact .inl ⟨y, hy, hn, s, hs, hu⟩

theorem mem_of_mem_finish {x : Computation} {publication : Option Lsp.Publication}
    (h : x ∈ (p.finish c publication).1.computations) : x ∈ p.computations := by
  rw [finish_eq] at h
  split at h
  · split at h
    · split at h <;> exact mem_of_mem_without h
    · exact mem_of_mem_without h
  · exact mem_of_mem_without h

/-- What the engine's answer comes to, whatever it is: at most one publication, of a computation that
nobody has asked to stop. -/
theorem Ready.completed (h : p.Ready options) (hc : c ∈ p.computations) (snapshot : Snapshot)
    (outcome : Analysis.Outcome (List Lsp.Diagnostic)) :
    Ready options (p.complete c snapshot outcome).1 ∧
      ((p.complete c snapshot outcome).2.1 = [] ∨
        c.stopped = false ∧ (p.complete c snapshot outcome).2.1 = [p.report snapshot outcome]) := by
  by_cases ho : outcome = .error .cancelled
  · subst ho
    obtain ⟨hl, hp⟩ := h.begin_none (fun _ => none) hc
    exact ⟨hl.ready, .inl hp⟩
  · rcases h.complete (fun _ => none) hc snapshot (fun he => absurd he ho) with
      ⟨hcar, hp⟩ | ⟨hn, hl, hp⟩
    · exact ⟨hcar.ready, .inl hp⟩
    · exact ⟨hl.ready, .inr ⟨hn, hp⟩⟩

end EditorSession.Diagnostics.Pipeline

namespace EditorSession.Workspace

open Diagnostics (Options Pipeline)
open Document (key spelling? Stranded Operation)

variable {options : Options} {operations : List Operation} {bulletins : List Bulletin}
  {w : Workspace} {uri : Bytes} {id : OperationId}

/-! ### What a client is shown under a uri -/

/-- The last publication under exactly this uri. -/
def lastUnder? (bulletins : List Bulletin) (uri : Bytes) : Option Bulletin :=
  (bulletins.filter fun b => b.publication.uri = uri).getLast?

theorem lastUnder?_append_self (bulletins : List Bulletin) {b : Bulletin}
    (h : b.publication.uri = uri) : lastUnder? (bulletins ++ [b]) uri = some b := by
  simp [lastUnder?, List.filter_append, h]

theorem lastUnder?_append_ne (bulletins : List Bulletin) {b : Bulletin}
    (h : b.publication.uri ≠ uri) :
    lastUnder? (bulletins ++ [b]) uri = lastUnder? bulletins uri := by
  simp [lastUnder?, List.filter_append, h]

/-- The last that was published under the uri, if anything was ever found, is that there is nothing. -/
def Cleared (bulletins : List Bulletin) (uri : Bytes) : Prop :=
  (∃ b ∈ bulletins, b.publication.uri = uri ∧ b.publication.diagnostics ≠ []) →
    ∃ b, lastUnder? bulletins uri = some b ∧ b.publication.diagnostics = []

/-- The client sees diagnostics under the uri, or is about to. -/
def Showing (bulletins : List Bulletin) (w : Workspace) (uri : Bytes) : Prop :=
  (∃ b, lastUnder? bulletins uri = some b ∧ b.publication.diagnostics ≠ []) ∨
    w.pipeline.Computing uri

theorem cleared_of_not_showing (h : ¬Showing bulletins w uri) : Cleared bulletins uri := by
  rintro ⟨b, hm, hu, -⟩
  have hb : b ∈ bulletins.filter fun b => b.publication.uri = uri :=
    List.mem_filter.mpr ⟨hm, by simpa using hu⟩
  obtain ⟨last, hlast⟩ := Option.isSome_iff_exists.mp (List.getLast?_isSome.mpr
    (List.ne_nil_of_mem hb))
  refine ⟨last, hlast, ?_⟩
  by_contra hne
  exact h (.inl ⟨last, hlast, hne⟩)

/-- Why diagnostics may be shown under a uri: a document is open under it, or the pipeline is yet to
be told that it was closed, or it was left for another spelling. -/
inductive Cared (operations : List Operation) (w : Workspace) (uri : Bytes) : Prop where
  | open (h : w.store.spelling? uri = some uri)
  | closing {id d} (hm : (id, .delivery d) ∈ w.operations) (hc : d.event.kind = .closed)
      (hu : d.event.uri = uri)
  | stranded (h : Stranded operations uri)

/-! ### Operations -/

/-- An operation begins. What was open under a uri still is, or is being closed, or is replaced by
an opening under another spelling. -/
theorem Cared.start (h : w.Cared operations uri) (hs : w.store.Sound) (ht : w.Tidy)
    (hsp : spelling? uri operations = w.store.spelling? uri) (operation : Operation) :
    (w.start operation).workspace.Cared (operations ++ [operation]) uri := by
  obtain ⟨s', event, heff⟩ := w.store.exists_effect operation
  have ho := heff.owes ht.sole
  have hspell : (w.start operation).workspace.store.spelling? uri =
      operation.respell uri (w.store.spelling? uri) := by
    rw [Workspace.start, advance_store, Document.Store.spelling?_congr (ho.document? uri),
      hs.respell heff]
  cases h with
  | closing hm hc hu =>
    refine .closing (mem_advance.mpr (.inl ⟨hm, ?_⟩)) hc hu
    exact Nat.ne_of_lt (ht.below _ _ hm)
  | stranded h =>
    by_cases hn : ∃ languageId version text,
        operation = .openDocument uri languageId version text
    · obtain ⟨languageId, version, text, rfl⟩ := hn
      exact .open (hspell.trans (if_pos rfl))
    · exact .stranded (h.append fun languageId version text he => hn ⟨_, _, _, he⟩)
  | «open» h =>
    rw [h] at hspell hsp
    cases operation with
    | openDocument other languageId version text =>
      by_cases hk : key other = key uri
      · by_cases hu : other = uri
        · subst hu
          exact .open (hspell.trans (if_pos rfl))
        · exact .stranded ⟨operations, other, languageId, version, text, [], rfl, hsp, hk, hu,
            by simp⟩
      · exact .open (hspell.trans (if_neg hk))
    | closeDocument closed =>
      by_cases hk : key closed = key uri
      · -- the document is found, so the operation owes the event that it was closed
        obtain ⟨d, hd, hu⟩ := Option.map_eq_some_iff.mp h
        rw [← Document.Store.document?_of_key hk] at hd
        cases heff with
        | refused hr =>
          cases hr with
          | close hf => simp [Document.Store.document?, hf] at hd
        | @closed _ i e hf =>
          rw [hs.document?_of_find hf, Option.some.injEq] at hd
          subst hd
          obtain ⟨t, hsus, hev⟩ := exists_of_event ho.event
          cases t with
          | lookup l => exact absurd rfl (ho.fits l hsus _ hev).2
          | delivery d =>
            obtain he := Option.some.inj hev
            exact .closing (mem_advance.mpr (.inr ⟨rfl, hsus⟩)) (by rw [he]) (by rw [he]; exact hu)
      · exact .open (hspell.trans (if_neg hk))
    | changeDocument => exact .open hspell
    | saveDocument => exact .open hspell
    | reassociateFirst => exact .open hspell

theorem Cared.answer (h : w.Cared operations uri) (hs : w.store.Sound) (ht : w.Tidy)
    {l : Document.Lookup} (hl : w.operation? id = some (.lookup l))
    {answer : Document.ModelAnswer} (ha : w.store.Answered l (w.store.resumeLookup l answer)) :
    (w.answer id answer).workspace.Cared operations uri := by
  have hm := mem_operations_of_operation? hl
  rw [Workspace.answer, hl]
  dsimp only
  cases h with
  | «open» h =>
    refine .open ?_
    rw [advance_store, ha.spelling hs]
    exact h
  | @closing i d hm' hc hu =>
    refine .closing (mem_advance.mpr (.inl ⟨hm', ?_⟩)) hc hu
    rintro rfl
    cases ht.eq_of_id hm hm'
  | stranded h => exact .stranded h

/-- Everything that is shown is cared for. -/
structure Accounted (options : Options) (operations : List Operation) (bulletins : List Bulletin)
    (w : Workspace) : Prop where
  sound : w.store.Sound
  tidy : w.Tidy
  ready : w.pipeline.Ready options
  spelled : ∀ uri, spelling? uri operations = w.store.spelling? uri
  cared : ∀ uri, Showing bulletins w uri → w.Cared operations uri

theorem accounted_empty (options : Options) : (empty options).Accounted options [] [] := by
  refine ⟨Document.Store.Sound.empty.of_eq rfl rfl, (orderly_empty options).tidy,
    Pipeline.ready_empty options, fun _ => rfl, ?_⟩
  rintro uri (⟨b, hb, -⟩ | ⟨c, hc, -⟩)
  · cases hb
  · cases hc

theorem Accounted.start (h : w.Accounted options operations bulletins) (operation : Operation) :
    (w.start operation).workspace.Accounted options (operations ++ [operation]) bulletins := by
  obtain ⟨s', event, heff⟩ := w.store.exists_effect operation
  have ho := heff.owes h.tidy.sole
  have htidy : Tidy { w with begun := w.begun + 1 } :=
    ⟨h.tidy.sole, h.tidy.distinct, fun id t hm => Nat.lt_succ_of_lt (h.tidy.below id t hm),
      h.tidy.fits⟩
  have hpipeline : (w.start operation).workspace.pipeline = w.pipeline := advance_pipeline _ _ _
  refine ⟨?_, htidy.advance (Nat.lt_succ_self _) ho, ?_, ?_, ?_⟩
  · rw [Workspace.start, advance_store]
    exact h.sound.start operation
  · rw [hpipeline]
    exact h.ready
  · intro uri
    rw [Document.spelling?_append, h.spelled, h.sound.respell heff, Workspace.start, advance_store,
      Document.Store.spelling?_congr (ho.document? uri)]
  · intro uri hshow
    rw [Showing, hpipeline] at hshow
    exact (h.cared uri hshow).start h.sound h.tidy (h.spelled uri) operation

theorem Accounted.answer (h : w.Accounted options operations bulletins) {l : Document.Lookup}
    (hl : w.operation? id = some (.lookup l))
    (hu : ∀ e, w.store.entry? l.entry = some e → l.uri = e.document.uri)
    (answer : Document.ModelAnswer) :
    (w.answer id answer).workspace.Accounted options operations bulletins := by
  have hm := mem_operations_of_operation? hl
  have ha := h.tidy.sole.resumeLookup (h.tidy.fits id l hm) hu answer
  have heq : w.answer id answer = w.advance id (w.store.resumeLookup l answer) := by
    rw [Workspace.answer, hl]
  have hpipeline : (w.answer id answer).workspace.pipeline = w.pipeline := by
    rw [heq, advance_pipeline]
  refine ⟨?_, ?_, ?_, ?_, ?_⟩
  · rw [heq, advance_store]
    exact h.sound.resumeLookup l answer
  · rw [heq]
    cases ha with
    | still ho => exact h.tidy.advance (h.tidy.below id _ hm) ho
    | stored _ _ ho => exact h.tidy.advance (h.tidy.below id _ hm) ho
  · rw [hpipeline]
    exact h.ready
  · intro uri
    rw [h.spelled, heq, advance_store, ha.spelling h.sound]
  · intro uri hshow
    rw [Showing, hpipeline] at hshow
    exact (h.cared uri hshow).answer h.sound h.tidy hl ha

/-! ### Telling the pipeline -/

theorem Accounted.tell (h : w.Accounted options operations bulletins) (he : options.enabled = true)
    {d : Document.Delivery} (hd : w.operation? id = some (.delivery d)) (time : Int) :
    (w.tell time id).workspace.Accounted options operations
      (bulletins ++ (w.tell time id).publications.map .cleared) := by
  have hm := mem_operations_of_operation? hd
  have hobs := h.ready.observe he time d.event
  obtain ⟨owed, -, ho⟩ := h.tidy.sole.resumeDelivery d none
  rw [Workspace.tell, hd]
  dsimp only
  generalize w.pipeline.observe time d.event = observed at hobs ⊢
  have htidy : Tidy { w with pipeline := observed.1 } :=
    ⟨h.tidy.sole, h.tidy.distinct, h.tidy.below, h.tidy.fits⟩
  refine ⟨?_, htidy.advance (h.tidy.below id _ hm) ho, ?_, ?_, ?_⟩
  · rw [advance_store]
    exact h.sound.of_eq ho.entries ho.table
  · rw [advance_pipeline]
    exact hobs.renews.ready
  · intro uri
    rw [h.spelled, advance_store, Document.Store.spelling?_congr (ho.document? uri)]
  · intro uri hshow
    rw [Showing, advance_pipeline] at hshow
    -- what is still shown was shown before, and not under a uri that is cleared
    have hbefore : Showing bulletins w uri ∧
        ¬(d.event.kind = .closed ∧ d.event.uri = uri) := by
      have hpub := hobs.publications
      rcases hshow with ⟨b, hb, hne⟩ | hc
      · by_cases hk : d.event.kind = .closed
        · rw [if_pos hk] at hpub
          rw [hpub, List.map_singleton] at hb
          by_cases hu : d.event.uri = uri
          · rw [lastUnder?_append_self bulletins (b := .cleared { uri := d.event.uri }) hu,
              Option.some.injEq] at hb
            subst hb
            exact absurd rfl hne
          · rw [lastUnder?_append_ne bulletins (b := .cleared { uri := d.event.uri }) hu] at hb
            exact ⟨.inl ⟨b, hb, hne⟩, fun hn => hu hn.2⟩
        · rw [if_neg hk] at hpub
          rw [hpub, List.map_nil, List.append_nil] at hb
          exact ⟨.inl ⟨b, hb, hne⟩, fun hn => hk hn.1⟩
      · obtain ⟨hc, hne⟩ := hobs.renews.computing hc
        exact ⟨.inr hc, fun hn => hne (congrArg key hn.2.symm)⟩
    obtain ⟨hshow, hother⟩ := hbefore
    cases h.cared uri hshow with
    | «open» hopen =>
      refine .open ?_
      rw [advance_store, Document.Store.spelling?_congr (ho.document? uri)]
      exact hopen
    | @closing i d' hm' hc hu =>
      refine .closing (mem_advance.mpr (.inl ⟨hm', ?_⟩)) hc hu
      rintro rfl
      cases h.tidy.eq_of_id hm hm'
      exact hother ⟨hc, hu⟩
    | stranded hstranded => exact .stranded hstranded

/-! ### Timers and computations -/

section

variable {c : Diagnostics.Computation} {pipeline : Pipeline} {bulletins' : List Bulletin}

theorem Accounted.withPipeline (h : w.Accounted options operations bulletins)
    (hr : pipeline.Ready options)
    (hshow : ∀ uri, Showing bulletins' { w with pipeline } uri →
      Showing bulletins w uri ∨ w.store.spelling? uri = some uri) :
    Accounted options operations bulletins' { w with pipeline } := by
  refine ⟨h.sound, ⟨h.tidy.sole, h.tidy.distinct, h.tidy.below, h.tidy.fits⟩, hr, h.spelled, ?_⟩
  intro uri hs
  rcases hshow uri hs with hs | hs
  · cases h.cared uri hs with
    | «open» h => exact .open h
    | closing hm hc hu => exact .closing hm hc hu
    | stranded h => exact .stranded h
  · exact .open hs

/-- Nothing is published, and nothing that was not computed is computed. -/
theorem Accounted.quietly (h : w.Accounted options operations bulletins)
    (hr : pipeline.Ready options)
    (hc : ∀ uri, pipeline.Computing uri →
      w.pipeline.Computing uri ∨ w.store.spelling? uri = some uri) :
    Accounted options operations bulletins { w with pipeline } := by
  refine h.withPipeline hr ?_
  rintro uri (hb | hp)
  · exact .inl (.inl hb)
  · exact (hc uri hp).imp_left .inr

theorem Accounted.begin (h : w.Accounted options operations bulletins)
    (hc : c ∈ w.pipeline.computations) :
    Accounted options operations bulletins
      { w with pipeline := (w.pipeline.begin c (w.store.document? c.uri)).1 } := by
  cases hd : w.store.document? c.uri with
  | some d =>
    obtain ⟨_, e, _, _, hk, rfl⟩ := h.sound.document?_iff.mp hd
    have hcar : w.pipeline.Carries options (fun _ => some (.ofDocument e.document))
        (w.pipeline.begin c (some e.document)).1 := h.ready.begin hc hk fun _ _ => rfl
    refine h.quietly hcar.ready ?_
    intro uri hp
    refine (Pipeline.computing_of_begin hp).imp_right ?_
    rintro rfl
    rw [Document.Store.spelling?, Document.Store.document?_of_key hk, hd]
    rfl
  | none =>
    refine h.quietly (h.ready.begin_none w.snapshot? hc).1.ready ?_
    exact fun uri hp => .inl (hp.of_subset fun x => Pipeline.mem_of_mem_finish)

/-- The engine has answered, so what was computed is shown. -/
theorem Accounted.complete (h : w.Accounted options operations bulletins)
    (hc : c ∈ w.pipeline.computations) {snapshot : Diagnostics.Snapshot}
    (hr : c.stage = .running snapshot) (outcome : Analysis.Outcome (List Lsp.Diagnostic)) :
    Accounted options operations (bulletins ++
        (w.pipeline.complete c snapshot outcome).2.1.map (.computed snapshot outcome))
      { w with pipeline := (w.pipeline.complete c snapshot outcome).1 } := by
  have hsub : ∀ uri, (w.pipeline.complete c snapshot outcome).1.Computing uri →
      w.pipeline.Computing uri := by
    intro uri hp
    obtain ⟨publication, heq, -⟩ := w.pipeline.complete_eq c snapshot outcome
    rw [heq] at hp
    exact hp.of_subset fun x => Pipeline.mem_of_mem_finish
  obtain ⟨hready, hp | ⟨hn, hp⟩⟩ := h.ready.completed hc snapshot outcome
  · rw [hp, List.map_nil, List.append_nil]
    exact h.quietly hready fun uri hc => .inl (hsub uri hc)
  · rw [hp, List.map_singleton]
    refine h.withPipeline hready ?_
    rintro uri (⟨b, hb, hne⟩ | hcomp)
    · by_cases hu : snapshot.uri = uri
      · exact .inl (.inr ⟨c, hc, hn, snapshot, hr, hu⟩)
      · rw [lastUnder?_append_ne bulletins (b := .computed snapshot outcome
          (w.pipeline.report snapshot outcome)) hu] at hb
        exact .inl (.inl ⟨b, hb, hne⟩)
    · exact .inl (.inr (hsub uri hcomp))

end

/-! ### Runs -/

/-- The operation that a record begins. -/
def Record.operation? (r : Record) : Option Operation := r.document?.bind (·.operation?)

namespace Scene

/-- Moves in which operations begin, and go on, also while the listener is being told, and the engine
may give up on a computation for reasons of its own. -/
inductive ConcurrentMove : Scene → List Record → Scene → Prop where
  | start {w : Scene} (operation) :
      ConcurrentMove w [.document (.began w.workspace.begun operation)]
        { w with workspace := (w.workspace.start operation).workspace }
  | answer {w : Scene} {id l} (answer) (hl : w.workspace.operation? id = some (.lookup l)) :
      ConcurrentMove w [.document (.replied id l.call answer)]
        { w with workspace := (w.workspace.answer id answer).workspace }
  | diagnosed {w : Scene} {id c snapshot} (outcome)
      (hc : w.workspace.pipeline.computation? id = some c) (hr : c.stage = .running snapshot)
      (ho : w.outgoing = none) :
      ConcurrentMove w [] (w.issue (.computed snapshot outcome) (w.workspace.diagnosed id outcome))
  | move {w w' : Scene} {records} (h : Move w records w') : ConcurrentMove w records w'

/-- Any number of such moves from the beginning, with their record. -/
inductive ConcurrentRun (options : Options) : List Record → Scene → Prop where
  | refl : ConcurrentRun options [] { workspace := .empty options }
  | tail {trace : List Record} {records} {w w' : Scene} : ConcurrentRun options trace w →
      ConcurrentMove w records w' →
      ConcurrentRun options (trace ++ records) w'

variable {w w' : Scene} {trace records : List Record}

theorem Run.concurrent (h : Run options trace w) : ConcurrentRun options trace w := by
  induction h with
  | refl => exact .refl
  | tail _ hm ih => exact ih.tail (.move hm)

theorem ConcurrentRun.documents (h : ConcurrentRun options trace w) :
    Document.Scene.Run (trace.filterMap Record.document?) w.workspace.scene := by
  induction h with
  | refl => exact Document.Scene.Moves.refl.tail (.subscribe {})
  | @tail _ _ w _ _ hm ih =>
    rw [List.filterMap_append]
    cases hm with
    | start operation => exact ih.tail (w.workspace.start_move operation)
    | answer answer hl => exact ih.tail (answer_move hl answer)
    | diagnosed =>
      rw [List.filterMap_nil, List.append_nil]
      exact ih
    | move hm =>
      rcases hm.documents with h | ⟨hr, hw⟩
      · exact ih.tail h
      · rw [hr, hw, List.append_nil]
        exact ih

/-- The operations that were begun. -/
def begun (trace : List Record) : List Operation := trace.filterMap Record.operation?

theorem begun_append (trace records : List Record) :
    begun (trace ++ records) = begun trace ++ begun records := List.filterMap_append

theorem begun_of_none {r : Document.Record} (h : r.operation? = none) (trace : List Record) :
    begun (trace ++ [.document r]) = begun trace := by
  simp [begun, Record.operation?, Record.document?, h]

section

variable (hk : w.workspace.Accounted options (begun trace) (issued trace w))

include hk

theorem accounted_start (operation : Operation) : Accounted options
    (begun (trace ++ [.document (.began w.workspace.begun operation)])) (issued trace w)
    (w.workspace.start operation).workspace := by
  rw [begun_append]
  exact hk.start operation

theorem ConcurrentRun.accounted_answer (hr : ConcurrentRun options trace w) {l : Document.Lookup}
    (hl : w.workspace.operation? id = some (.lookup l)) (answer : Document.ModelAnswer) :
    Accounted options (begun trace) (issued trace w) (w.workspace.answer id answer).workspace := by
  obtain ⟨e, hentry, hu, -⟩ :=
    (hr.documents.attested.pursued id l (mem_operations_of_operation? hl)).entry
  refine hk.answer hl ?_ answer
  intro e' he'
  obtain rfl := Option.some.inj (hentry.symm.trans he')
  exact hu

theorem accounted_diagnosed {number : Diagnostics.ComputationId} {c : Diagnostics.Computation}
    {snapshot : Diagnostics.Snapshot} (outcome : Analysis.Outcome (List Lsp.Diagnostic))
    (hc : w.workspace.pipeline.computation? number = some c) (hrun : c.stage = .running snapshot)
    (ho : w.outgoing = none) :
    Accounted options (begun trace)
      (issued trace (w.issue (.computed snapshot outcome) (w.workspace.diagnosed number outcome)))
      (w.workspace.diagnosed number outcome).workspace := by
  have hm := List.mem_of_find?_eq_some hc
  have heq : w.workspace.diagnosed number outcome =
      w.workspace.observed (w.workspace.pipeline.complete c snapshot outcome) := by
    rw [Workspace.diagnosed, Pipeline.answer, hc]
    dsimp only
    rw [hrun]
  rw [heq, issued_issue trace]
  · exact hk.complete hm hrun outcome
  · obtain ⟨-, hp | ⟨-, hp⟩⟩ := hk.ready.completed hm snapshot outcome
    · exact .inl hp
    · exact .inr ⟨ho, _, hp⟩

theorem Move.accounted (h : Move w records w') (he : options.enabled = true)
    (hr : ConcurrentRun options trace w) :
    w'.workspace.Accounted options (begun (trace ++ records)) (issued (trace ++ records) w') := by
  cases h with
  | start operation =>
    rw [issued_document]
    exact accounted_start hk operation
  | answer answer hl =>
    rw [issued_document, begun_of_none rfl]
    exact hr.accounted_answer hk hl answer
  | @tell id d time hd ho =>
    have hpub : (w.workspace.tell time id).publications = if d.event.kind = .closed then
        [{ uri := d.event.uri }] else [] := by
      rw [Workspace.tell, hd]
      exact (hk.ready.observe he time d.event).publications
    rw [issued_document, begun_of_none rfl, issued_issue trace]
    · exact hk.tell he hd time
    · rw [hpub]
      split
      case isTrue hc => exact .inr ⟨ho hc, _, rfl⟩
      case isFalse => exact .inl rfl
  | fire ht =>
    rw [List.append_nil]
    have hcar : w.workspace.pipeline.Carries options (fun _ => none) _ := hk.ready.fire ht
    refine hk.quietly hcar.ready ?_
    exact fun uri hp => .inl (Pipeline.computing_of_fire hk.ready.on hp)
  | lapse uri generation =>
    rw [List.append_nil]
    have hcar : w.workspace.pipeline.Carries options (fun _ => none) _ :=
      hk.ready.expire uri generation
    refine hk.quietly hcar.ready ?_
    exact fun uri hp => .inl (Pipeline.computing_of_expire hk.ready.on hp)
  | begin hc =>
    rw [List.append_nil]
    exact hk.begin hc
  | diagnosed outcome hc hrun hs ho =>
    rw [List.append_nil]
    exact accounted_diagnosed hk outcome hc hrun ho
  | @publish bulletin ho =>
    have hb : issued (trace ++ [.published bulletin]) { w with outgoing := none } =
        issued trace w := by
      simp [issued, Record.bulletin?, ho]
    have hg : begun (trace ++ [.published bulletin]) = begun trace := by
      simp [begun, Record.operation?, Record.document?]
    rw [hb, hg]
    exact hk

theorem ConcurrentMove.accounted (h : ConcurrentMove w records w') (he : options.enabled = true)
    (hr : ConcurrentRun options trace w) :
    w'.workspace.Accounted options (begun (trace ++ records)) (issued (trace ++ records) w') := by
  cases h with
  | start operation =>
    rw [issued_document]
    exact accounted_start hk operation
  | answer answer hl =>
    rw [issued_document, begun_of_none rfl]
    exact hr.accounted_answer hk hl answer
  | diagnosed outcome hc hrun ho =>
    rw [List.append_nil]
    exact accounted_diagnosed hk outcome hc hrun ho
  | move hm => exact hm.accounted hk he hr

end

theorem ConcurrentRun.accounted (he : options.enabled = true) (h : ConcurrentRun options trace w) :
    w.workspace.Accounted options (begun trace) (issued trace w) := by
  induction h with
  | refl => exact accounted_empty options
  | tail hr hm ih => exact hm.accounted ih he hr

/-- At rest with no document open, nothing is shown but what was left for another spelling. -/
theorem ConcurrentRun.showing (h : ConcurrentRun options trace w) (he : options.enabled = true)
    (hs : w.Still) (hn : ∀ uri, w.workspace.store.document? uri = none) {uri : Bytes}
    (hshow : Showing (trace.filterMap Record.bulletin?) w.workspace uri) :
    Stranded (begun trace) uri := by
  have hk := h.accounted he
  have hb : issued trace w = trace.filterMap Record.bulletin? := by
    rw [issued, hs.outgoing, Option.toList_none, List.append_nil]
  rw [hb] at hk
  cases hk.cared uri hshow with
  | «open» ho => simp [Document.Store.spelling?, hn] at ho
  | closing hm =>
    rw [hs.operations] at hm
    cases hm
  | stranded h => exact h

end Scene

/-! ### The account of a run -/

/-- What the client is left with when no document is open any more. Every uri under which anything
was found is cleared, unless its document was opened again under another spelling; so all of them are
if no document ever was. -/
structure ClearedUp (trace : List Record) : Prop where
  cleared : ∀ uri, ¬Stranded (Scene.begun trace) uri →
    Cleared (trace.filterMap Record.bulletin?) uri
  steady :
    (∀ before uri languageId version text after,
      Scene.begun trace = before ++ .openDocument uri languageId version text :: after →
      ∀ spelling, spelling? uri before = some spelling → spelling = uri) →
    ∀ uri, Cleared (trace.filterMap Record.bulletin?) uri

/-- In every run, once everything is closed and nothing is under way the client is left with nothing,
except for what was opened again under another spelling. -/
theorem Scene.ConcurrentRun.clearedUp {trace : List Record} {w : Scene}
    (h : ConcurrentRun options trace w) (he : options.enabled = true) (hs : w.Still)
    (hn : ∀ uri, w.workspace.store.document? uri = none) : ClearedUp trace := by
  have hcleared : ∀ uri, ¬Stranded (begun trace) uri →
      Cleared (trace.filterMap Record.bulletin?) uri :=
    fun uri hu => cleared_of_not_showing fun hshow => hu (h.showing he hs hn hshow)
  refine ⟨hcleared, ?_⟩
  intro hsteady uri
  apply hcleared
  intro hstranded
  obtain ⟨before, other, _, _, _, after, ho, spelling, hsp, hne⟩ := hstranded.respelled
  exact hne (hsteady before other _ _ _ after ho spelling hsp)

def finding : Lsp.Diagnostic := { message := ascii "x is not declared" }

/-- What is published when the finding is all that the engine has found. -/
def foundIn (uri : Bytes) (version : Int64) (text : Bytes) : Bulletin :=
  .computed ⟨uri, version, .standalone uri text⟩ (.ok [finding])
    { uri, version := some version, diagnostics := [finding] }

/-- A document is opened, and closed once something was found in it. -/
def closedTrace : List Record :=
  [.document (.began 0 (.openDocument (ascii "A") (ascii "vb") 1 (ascii "x"))),
    .document (.replied 0 (.resolve (ascii "A")) (.ok none)),
    .document (.heard 0 ⟨⟨ascii "A", 1, .opened⟩, 1, [], .finish .opened⟩ none),
    .published (foundIn (ascii "A") 1 (ascii "x")),
    .document (.began 1 (.closeDocument (ascii "a"))),
    .document (.heard 1 ⟨⟨ascii "A", 1, .closed⟩, 1, [], .finish (.handled true)⟩ none),
    .published (.cleared { uri := ascii "A" })]

theorem Scene.ConcurrentRun.clearedUp_closedTrace :
    (∃ w, ConcurrentRun {} closedTrace w ∧ w.Still ∧
        ∀ uri, w.workspace.store.document? uri = none) ∧
      foundIn (ascii "A") 1 (ascii "x") ∈ closedTrace.filterMap Record.bulletin? ∧
      ClearedUp closedTrace := by
  have h1 := ConcurrentRun.refl.tail (@ConcurrentMove.start { workspace := .empty {} }
    (.openDocument (ascii "A") (ascii "vb") 1 (ascii "x")))
  have h2 := h1.tail (@ConcurrentMove.answer _ 0 _ (.ok none) rfl)
  have h3 := h2.tail (.move (@Move.tell _ 0 _ 0 rfl (by intro h; cases h)))
  have h4 := h3.tail (.move (.begin (.head _) rfl))
  have h5 := h4.tail (@ConcurrentMove.diagnosed _ 0 _ _ (.ok [finding]) rfl rfl rfl)
  have h6 := h5.tail (.move (.publish rfl))
  have h7 := h6.tail (.start (.closeDocument (ascii "a")))
  have h8 := h7.tail (.move (@Move.tell _ 1 _ 0 rfl fun _ => rfl))
  have h9 := h8.tail (.move (.publish rfl))
  exact ⟨⟨_, h9, ⟨rfl, rfl, rfl, rfl⟩, fun _ => rfl⟩, .head _,
    ConcurrentRun.clearedUp h9 rfl ⟨rfl, rfl, rfl, rfl⟩ fun _ => rfl⟩

/-- A document in which something was found is opened again under another spelling, and closed. -/
def respelledTrace : List Record :=
  [.document (.began 0 (.openDocument (ascii "A") (ascii "vb") 1 (ascii "x"))),
    .document (.replied 0 (.resolve (ascii "A")) (.ok none)),
    .document (.heard 0 ⟨⟨ascii "A", 1, .opened⟩, 1, [], .finish .opened⟩ none),
    .published (foundIn (ascii "A") 1 (ascii "x")),
    .document (.began 1 (.openDocument (ascii "a") (ascii "vb") 2 (ascii "x"))),
    .document (.replied 1 (.resolve (ascii "a")) (.ok none)),
    .document (.heard 1 ⟨⟨ascii "a", 2, .opened⟩, 1, [], .finish .opened⟩ none),
    .published (foundIn (ascii "a") 2 (ascii "x")),
    .document (.began 2 (.closeDocument (ascii "a"))),
    .document (.heard 2 ⟨⟨ascii "a", 2, .closed⟩, 1, [], .finish (.handled true)⟩ none),
    .published (.cleared { uri := ascii "a" })]

/-- Nothing clears the spelling that the document had first. -/
theorem Scene.not_cleared_respelledTrace :
    ∃ w, ConcurrentRun {} respelledTrace w ∧ w.Still ∧
      (∀ uri, w.workspace.store.document? uri = none) ∧
      ¬Cleared (respelledTrace.filterMap Record.bulletin?) (ascii "A") := by
  have h1 := ConcurrentRun.refl.tail (@ConcurrentMove.start { workspace := .empty {} }
    (.openDocument (ascii "A") (ascii "vb") 1 (ascii "x")))
  have h2 := h1.tail (@ConcurrentMove.answer _ 0 _ (.ok none) rfl)
  have h3 := h2.tail (.move (@Move.tell _ 0 _ 0 rfl (by intro h; cases h)))
  have h4 := h3.tail (.move (.begin (.head _) rfl))
  have h5 := h4.tail (@ConcurrentMove.diagnosed _ 0 _ _ (.ok [finding]) rfl rfl rfl)
  have h6 := h5.tail (.move (.publish rfl))
  have h7 := h6.tail (.start (.openDocument (ascii "a") (ascii "vb") 2 (ascii "x")))
  have h8 := h7.tail (@ConcurrentMove.answer _ 1 _ (.ok none) rfl)
  have h9 := h8.tail (.move (@Move.tell _ 1 _ 0 rfl (by intro h; cases h)))
  have h10 := h9.tail (.move (.begin (.head _) rfl))
  have h11 := h10.tail (@ConcurrentMove.diagnosed _ 1 _ _ (.ok [finding]) rfl rfl rfl)
  have h12 := h11.tail (.move (.publish rfl))
  have h13 := h12.tail (.start (.closeDocument (ascii "a")))
  have h14 := h13.tail (.move (@Move.tell _ 2 _ 0 rfl fun _ => rfl))
  have h15 := h14.tail (.move (.publish rfl))
  refine ⟨_, h15, ⟨rfl, rfl, rfl, rfl⟩, fun _ => rfl, ?_⟩
  intro hc
  obtain ⟨b, hb, hd⟩ := hc ⟨foundIn (ascii "A") 1 (ascii "x"), .head _, rfl, by
    simp [foundIn, Bulletin.publication]⟩
  have hlast : lastUnder? (respelledTrace.filterMap Record.bulletin?) (ascii "A") =
      some (foundIn (ascii "A") 1 (ascii "x")) := rfl
  rw [hlast, Option.some.injEq] at hb
  subst hb
  cases hd

end EditorSession.Workspace
