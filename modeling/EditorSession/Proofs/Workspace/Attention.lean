import EditorSession.Proofs.Diagnostics.Upkeep
import EditorSession.Proofs.Document.Events
import EditorSession.Proofs.Workspace.Run

/-! No document is forgotten. The diagnostics of an open document may lag behind it only while an
operation owes the event of its change, or while a timer or a computation is at work for it. Each
kind of step hands a document on from one of these to the next: the operation owes the event until
the pipeline is told, the pipeline works until it publishes. -/

namespace EditorSession.Workspace

open Diagnostics (Options Snapshot Pipeline)
open Document (key OpenDocument)

variable {options : Options} {bulletins : List Bulletin} {w : Workspace} {uri k : Bytes}

/-! ### What the client was told last -/

/-- The last publication for the documents under a key. -/
def lastBulletin? (bulletins : List Bulletin) (k : Bytes) : Option Bulletin :=
  (bulletins.filter fun b => key b.publication.uri = k).getLast?

theorem lastBulletin?_append_self (bulletins : List Bulletin) {b : Bulletin}
    (h : key b.publication.uri = k) : lastBulletin? (bulletins ++ [b]) k = some b := by
  simp [lastBulletin?, List.filter_append, h]

theorem lastBulletin?_append_ne (bulletins : List Bulletin) {b : Bulletin}
    (h : key b.publication.uri ≠ k) :
    lastBulletin? (bulletins ++ [b]) k = lastBulletin? bulletins k := by
  simp [lastBulletin?, List.filter_append, h]

/-- The bulletin tells what the engine has found in the document as it is, or that it has failed. -/
inductive Bulletin.Shows (options : Options) (d : OpenDocument) : Bulletin → Prop where
  | found (diagnostics) :
      Shows options d (.computed (.ofDocument d) (.ok diagnostics)
        { uri := d.uri
          version := some d.version
          diagnostics := diagnostics.filter fun x => x.severity.rank ≤ options.threshold.rank })
  | failed (failure) :
      Shows options d (.computed (.ofDocument d) (.error failure)
        { uri := d.uri, version := some d.version, diagnostics := [] })

theorem Bulletin.shows_report {p : Pipeline} (hp : p.options = options) (d : OpenDocument)
    (outcome : Analysis.Outcome (List Lsp.Diagnostic)) :
    Shows options d (.computed (.ofDocument d) outcome (p.report (.ofDocument d) outcome)) := by
  subst hp
  cases outcome with
  | ok diagnostics => exact .found diagnostics
  | error failure => exact .failed failure

/-! ### What is under way -/

/-- An operation owes an event about the documents under a key that does not close them. -/
def Owing (w : Workspace) (k : Bytes) : Prop :=
  ∃ id t event, (id, t) ∈ w.operations ∧ t.event? = some event ∧ event.kind ≠ .closed ∧
    key event.uri = k

/-- The listener is being told that the document under a key was closed. -/
def Closing (w : Workspace) (k : Bytes) : Prop :=
  ∃ id d, (id, .delivery d) ∈ w.operations ∧ d.event.kind = .closed ∧ key d.event.uri = k

/-- What a computation would work on if it began now. -/
def snapshot? (w : Workspace) (uri : Bytes) : Option Snapshot :=
  (w.store.document? uri).map .ofDocument

/-- The diagnostics of a document are up to date or will be. -/
inductive Attended (options : Options) (bulletins : List Bulletin) (w : Workspace) (uri : Bytes) :
    Prop where
  | owing {d} (hd : w.store.document? uri = some d) (h : w.Owing (key uri))
  | working {d} (hd : w.store.document? uri = some d)
      (hr : w.pipeline.Reads (key uri) (w.snapshot? uri)) (h : w.pipeline.Working (key uri))
  | shown {d b} (hd : w.store.document? uri = some d)
      (hr : w.pipeline.Reads (key uri) (w.snapshot? uri))
      (hb : lastBulletin? bulletins (key uri) = some b) (h : b.Shows options d)
  | closing (hd : w.store.document? uri = none) (h : w.Closing (key uri))
  | absent (hd : w.store.document? uri = none)
      (hr : w.pipeline.Reads (key uri) (w.snapshot? uri))
      (h : ∀ b, lastBulletin? bulletins (key uri) = some b → b.publication.version = none)

/-- A document is attended to as before if nothing is done for it but to go on. -/
theorem Attended.mono {bulletins' : List Bulletin} {w' : Workspace}
    (h : w.Attended options bulletins uri)
    (hdoc : w'.store.document? uri = w.store.document? uri)
    (hlast : lastBulletin? bulletins' (key uri) = lastBulletin? bulletins (key uri))
    (hown : w.Owing (key uri) → w'.Owing (key uri))
    (hclosing : w.Closing (key uri) → w'.Closing (key uri))
    (hreads : w.pipeline.Reads (key uri) (w.snapshot? uri) →
      w'.pipeline.Reads (key uri) (w.snapshot? uri))
    (hworking : w.pipeline.Working (key uri) → w'.pipeline.Working (key uri)) :
    w'.Attended options bulletins' uri := by
  have hsnap : w'.snapshot? uri = w.snapshot? uri := congrArg (Option.map _) hdoc
  rw [← hsnap] at hreads
  cases h with
  | owing hd h => exact .owing (hdoc.trans hd) (hown h)
  | working hd hr h => exact .working (hdoc.trans hd) (hreads (hsnap ▸ hr)) (hworking h)
  | shown hd hr hb h => exact .shown (hdoc.trans hd) (hreads (hsnap ▸ hr)) (hlast.trans hb) h
  | closing hd h => exact .closing (hdoc.trans hd) (hclosing h)
  | absent hd hr h => exact .absent (hdoc.trans hd) (hreads (hsnap ▸ hr)) (hlast ▸ h)

/-- The operations under way. Every one knows what its event is about, and the listener is told of one
event at a time. -/
structure Orderly (w : Workspace) : Prop where
  sole : w.store.Sole
  distinct : (w.operations.map (·.1)).Nodup
  below : ∀ id t, (id, t) ∈ w.operations → id < w.begun
  fits : ∀ id l, (id, .lookup l) ∈ w.operations → l.errand.Fits l.uri
  single : ∀ id d id' d', (id, .delivery d) ∈ w.operations → (id', .delivery d') ∈ w.operations →
    id = id' ∧ d = d'
  closing : ∀ id d, (id, .delivery d) ∈ w.operations → d.event.kind = .closed →
    w.store.document? d.event.uri = none

/-- The books of the operations under way, without a bound on how many deliveries there are. -/
structure Tidy (w : Workspace) : Prop where
  sole : w.store.Sole
  distinct : (w.operations.map (·.1)).Nodup
  below : ∀ id t, (id, t) ∈ w.operations → id < w.begun
  fits : ∀ id l, (id, .lookup l) ∈ w.operations → l.errand.Fits l.uri

theorem Tidy.eq_of_id (h : w.Tidy) {id : OperationId} {t t' : Document.Suspended}
    (ht : (id, t) ∈ w.operations) (ht' : (id, t') ∈ w.operations) : t = t' :=
  congrArg Prod.snd (List.inj_on_of_nodup_map h.distinct ht ht' rfl)

theorem Orderly.tidy (h : w.Orderly) : w.Tidy :=
  ⟨h.sole, h.distinct, h.below, h.fits⟩

theorem Orderly.eq_of_id (h : w.Orderly) {id : OperationId} {t t' : Document.Suspended}
    (ht : (id, t) ∈ w.operations) (ht' : (id, t') ∈ w.operations) : t = t' :=
  h.tidy.eq_of_id ht ht'

theorem Orderly.withPipeline (h : w.Orderly) (pipeline : Pipeline) :
    Orderly { w with pipeline } :=
  ⟨h.sole, h.distinct, h.below, h.fits, h.single, h.closing⟩

theorem orderly_empty (options : Options) : (empty options).Orderly :=
  ⟨Document.Store.sole_addListener, List.nodup_nil, by simp [empty], by simp [empty],
    by simp [empty], by simp [empty]⟩

theorem attended_empty (options : Options) (uri : Bytes) :
    (empty options).Attended options [] uri :=
  .absent rfl (by simp [Pipeline.Reads, empty]) (by simp [lastBulletin?])

/-! ### A step of an operation -/

section

variable {id : OperationId} {step : Document.Step} {s : Document.Store}
  {event : Option Document.Event}

theorem mem_advance {i : OperationId} {t : Document.Suspended} :
    (i, t) ∈ (w.advance id step).workspace.operations ↔
      (i, t) ∈ w.operations ∧ i ≠ id ∨ i = id ∧ step.2.1 = .suspended t := by
  have h := @Document.Scene.mem_advance_operations w.scene id i step t
  rw [← w.scene_advance] at h
  exact h

theorem advance_store (w : Workspace) (id : OperationId) (step : Document.Step) :
    (w.advance id step).workspace.store = step.1 := by
  obtain ⟨store, status, notices⟩ := step
  cases status <;> rfl

theorem advance_pipeline (w : Workspace) (id : OperationId) (step : Document.Step) :
    (w.advance id step).workspace.pipeline = w.pipeline := by
  obtain ⟨store, status, notices⟩ := step
  cases status <;> rfl

theorem advance_begun (w : Workspace) (id : OperationId) (step : Document.Step) :
    (w.advance id step).workspace.begun = w.begun := by
  obtain ⟨store, status, notices⟩ := step
  cases status <;> rfl

theorem nodup_advance (h : (w.operations.map (·.1)).Nodup) (id : OperationId)
    (step : Document.Step) : ((w.advance id step).workspace.operations.map (·.1)).Nodup := by
  have hf : ((w.operations.filter fun entry => entry.1 ≠ id).map (·.1)).Nodup :=
    h.sublist (List.filter_sublist.map _)
  obtain ⟨store, status, notices⟩ := step
  cases status with
  | done outcome => exact hf
  | suspended t =>
    rw [advance, List.map_append, List.nodup_append]
    refine ⟨hf, List.nodup_singleton _, ?_⟩
    intro a ha b hb
    obtain ⟨entry, he, rfl⟩ := List.mem_map.mp ha
    rw [List.map_singleton, List.mem_singleton] at hb
    rw [hb]
    simpa using (List.mem_filter.mp he).2

/-- The event that a status owes is that of the operation which is suspended. -/
theorem exists_of_event {status : Document.Status} {e : Document.Event}
    (h : status.event? = some e) : ∃ t, status = .suspended t ∧ t.event? = some e := by
  cases status with
  | done outcome => cases h
  | suspended t => exact ⟨t, rfl, h⟩

/-- A step of an operation keeps the books in order. -/
theorem Tidy.advance (h : w.Tidy) (hid : id < w.begun) (ho : s.Owes event step) :
    (w.advance id step).workspace.Tidy := by
  refine ⟨?_, nodup_advance h.distinct id step, ?_, ?_⟩
  · rw [advance_store]
    exact ho.sole
  · intro i t hm
    rw [advance_begun]
    rcases mem_advance.mp hm with ⟨hm, -⟩ | ⟨rfl, -⟩
    · exact h.below i t hm
    · exact hid
  · intro i l hm
    rcases mem_advance.mp hm with ⟨hm, -⟩ | ⟨-, hs⟩
    · exact h.fits i l hm
    · exact ho.fits l hs

theorem Orderly.advance (h : w.Orderly) (hid : id < w.begun) (ho : s.Owes event step)
    (hq : ∀ i d, (i, .delivery d) ∈ w.operations → i = id)
    (hc : ∀ e, event = some e → e.kind = .closed → s.document? e.uri = none) :
    (w.advance id step).workspace.Orderly := by
  -- a delivery that is left is that of the step
  have hnew : ∀ i d, (i, .delivery d) ∈ (w.advance id step).workspace.operations →
      i = id ∧ step.2.1 = .suspended (.delivery d) := by
    intro i d hm
    rcases mem_advance.mp hm with ⟨hm, hi⟩ | hm
    · exact absurd (hq i d hm) hi
    · exact hm
  obtain ⟨hsole, hdistinct, hbelow, hfits⟩ := h.tidy.advance hid ho
  refine ⟨hsole, hdistinct, hbelow, hfits, ?_, ?_⟩
  · intro i d i' d' hm hm'
    obtain ⟨rfl, hs⟩ := hnew i d hm
    obtain ⟨rfl, hs'⟩ := hnew i' d' hm'
    rw [hs] at hs'
    cases hs'
    exact ⟨rfl, rfl⟩
  · intro i d hm hk
    obtain ⟨-, hs⟩ := hnew i d hm
    have he : event = some d.event := by
      rw [← ho.event, hs]
      rfl
    rw [advance_store, ho.document?]
    exact hc d.event he hk

/-- What a step does to the document under a uri: the event that the step owes tells of it. -/
inductive Concerns (s s' : Document.Store) (event : Option Document.Event) (uri : Bytes) : Prop where
  | changed {e} (he : event = some e) (hk : key e.uri = key uri) (hn : e.kind ≠ .closed)
      (hd : (s'.document? uri).isSome)
  | closed {e} (he : event = some e) (hk : key e.uri = key uri) (hc : e.kind = .closed)
      (hd : s'.document? uri = none)
  | elsewhere (hd : s'.document? uri = s.document? uri)

/-- An operation takes a step while the pipeline rests. A document that the step has changed is
attended to because the event is owed. -/
theorem Attended.advance (h : w.Attended options bulletins uri) (ho : s.Owes event step)
    (hq : ¬w.Telling)
    (hown : ∀ t e, (id, t) ∈ w.operations → t.event? = some e → event = some e)
    (hc : Concerns w.store s event uri) :
    (w.advance id step).workspace.Attended options bulletins uri := by
  have hdoc : (w.advance id step).workspace.store.document? uri = s.document? uri := by
    rw [advance_store, ho.document?]
  -- the event is owed by what the step has suspended
  have hnew : ∀ e, event = some e → ∃ t,
      (id, t) ∈ (w.advance id step).workspace.operations ∧ step.2.1 = .suspended t ∧
        t.event? = some e := by
    intro e he
    obtain ⟨t, hs, ht⟩ := exists_of_event (ho.event.trans he)
    exact ⟨t, mem_advance.mpr (.inr ⟨rfl, hs⟩), hs, ht⟩
  cases hc with
  | @changed e he hk hn hd =>
    obtain ⟨d, hd⟩ := Option.isSome_iff_exists.mp hd
    obtain ⟨t, hm, -, ht⟩ := hnew e he
    exact .owing (hdoc.trans hd) ⟨id, t, e, hm, ht, hn, hk⟩
  | @closed e he hk hc hd =>
    obtain ⟨t, hm, hs, ht⟩ := hnew e he
    refine .closing (hdoc.trans hd) ?_
    cases t with
    | lookup l => exact absurd hc (ho.fits l hs e ht).2
    | delivery d =>
      obtain rfl := Option.some.inj ht
      exact ⟨id, d, hm, hc, hk⟩
  | elsewhere hd =>
    apply h.mono (hdoc.trans hd) rfl
    · rintro ⟨i, t, e, hm, ht, hn, hk⟩
      by_cases hi : i = id
      · subst hi
        obtain ⟨t', hm', -, ht'⟩ := hnew e (hown t e hm ht)
        exact ⟨i, t', e, hm', ht', hn, hk⟩
      · exact ⟨i, t, e, mem_advance.mpr (.inl ⟨hm, hi⟩), ht, hn, hk⟩
    · rintro ⟨i, d, hm, -⟩
      exact absurd ⟨i, d, hm⟩ hq
    · rw [advance_pipeline]
      exact fun hr => hr
    · rw [advance_pipeline]
      exact fun hw => hw

end

/-! ### Operations -/

/-- The invariant of a workspace in service. -/
structure Kept (options : Options) (bulletins : List Bulletin) (w : Workspace) : Prop where
  sound : w.store.Sound
  orderly : w.Orderly
  ready : w.pipeline.Ready options
  attended : ∀ uri, w.Attended options bulletins uri

theorem Kept.advance {id : OperationId} {step : Document.Step} {s : Document.Store}
    {event : Option Document.Event} (h : w.Kept options bulletins) (hid : id < w.begun)
    (hq : ¬w.Telling) (hs : step.1.Sound) (ho : s.Owes event step)
    (hown : ∀ t e, (id, t) ∈ w.operations → t.event? = some e → event = some e)
    (hclosed : ∀ e, event = some e → e.kind = .closed → s.document? e.uri = none)
    (hc : ∀ uri, Concerns w.store s event uri) :
    (w.advance id step).workspace.Kept options bulletins := by
  refine ⟨?_, ?_, ?_, fun uri => (h.attended uri).advance ho hq hown (hc uri)⟩
  · rw [advance_store]
    exact hs
  · exact h.orderly.advance hid ho (fun i d hm => absurd ⟨i, d, hm⟩ hq) hclosed
  · rw [advance_pipeline]
    exact h.ready

theorem concerns_of_effect {s s' : Document.Store} (hs : s.Sound) {operation : Document.Operation}
    {event : Option Document.Event} (h : s.Effect operation s' event) (uri : Bytes) :
    Concerns s s' event uri := by
  cases event with
  | none =>
    rw [h.eq_of_none]
    exact .elsewhere rfl
  | some e =>
    by_cases hk : key e.uri = key uri
    · have hd : s'.document? e.uri = s'.document? uri := Document.Store.document?_of_key hk
      rcases hs.effect_here h with ⟨hn, hsome⟩ | ⟨hc, hnone⟩
      · exact .changed rfl hk hn (hd ▸ hsome)
      · exact .closed rfl hk hc (hd ▸ hnone)
    · exact .elsewhere (hs.effect_elsewhere h (Ne.symm hk))

/-- The beginning of an operation. -/
theorem Kept.start (h : w.Kept options bulletins) (hq : ¬w.Telling)
    (operation : Document.Operation) : (w.start operation).workspace.Kept options bulletins := by
  obtain ⟨s', event, heff⟩ := w.store.exists_effect operation
  have hw : Kept options bulletins { w with begun := w.begun + 1 } :=
    ⟨h.sound, ⟨h.orderly.sole, h.orderly.distinct,
      fun id t hm => Nat.lt_succ_of_lt (h.orderly.below id t hm), h.orderly.fits,
      h.orderly.single, h.orderly.closing⟩, h.ready,
      fun uri => (h.attended uri).mono rfl rfl id id id id⟩
  refine hw.advance (Nat.lt_succ_self _) hq (h.sound.start operation) (heff.owes h.orderly.sole)
    ?_ ?_ (concerns_of_effect h.sound heff)
  · intro t e hm
    exact absurd (h.orderly.below _ t hm) (Nat.lt_irrefl _)
  · rintro e rfl hk
    rcases h.sound.effect_here heff with ⟨hn, -⟩ | ⟨-, hd⟩
    · exact absurd hk hn
    · exact hd

theorem fits_told {errand : Document.Errand} {e : Document.Entry}
    (h : errand.Fits e.document.uri) :
    (errand.event?.getD e.resolved).uri = e.document.uri ∧
      (errand.event?.getD e.resolved).kind ≠ .closed := by
  cases he : errand.event? with
  | none => exact ⟨rfl, by simp [Document.Entry.resolved]⟩
  | some event => exact h event he

theorem concerns_of_handle {s : Document.Store} (hs : s.Sound) {i : Document.EntryId}
    {e : Document.Entry} (he : s.entry? i = some e) (hc : e.closed = false)
    {event : Document.Event} (hu : event.uri = e.document.uri) (hk : event.kind ≠ .closed)
    (handle : Analysis.Handle) (uri : Bytes) :
    Concerns s (s.withHandle i handle) (some event) uri := by
  have hs' := hs.withHandle i handle
  by_cases hku : key e.document.uri = key uri
  · refine .changed rfl (hu ▸ hku) hk ?_
    rw [← Document.Store.document?_of_key hku, Document.Store.withHandle,
      Document.Store.Sound.modifyEntry_here he hc rfl hs']
    rfl
  · exact .elsewhere (hs.modifyEntry_elsewhere he rfl hs' (Ne.symm hku))

/-- The project model's answer. -/
theorem Kept.answer (h : w.Kept options bulletins) (hq : ¬w.Telling) {id : OperationId}
    {l : Document.Lookup} (hl : w.operation? id = some (.lookup l))
    (hu : ∀ e, w.store.entry? l.entry = some e → l.uri = e.document.uri)
    (answer : Document.ModelAnswer) : (w.answer id answer).workspace.Kept options bulletins := by
  have hm : (id, .lookup l) ∈ w.operations := mem_operations_of_operation? hl
  have hid := h.orderly.below id _ hm
  have hfits := h.orderly.fits id l hm
  have hs := h.sound.resumeLookup l answer
  rw [Workspace.answer, hl]
  dsimp only
  cases h.orderly.sole.resumeLookup hfits hu answer with
  | still ho =>
    refine h.advance hid hq hs ho ?_ ?_ fun uri => .elsewhere rfl
    · intro t e ht he
      obtain rfl := h.orderly.eq_of_id hm ht
      exact he
    · intro e he hk
      exact absurd hk (hfits e he).2
  | @stored e handle he hc ho =>
    obtain ⟨hu, hk⟩ := fits_told (hu e he ▸ hfits)
    refine h.advance hid hq hs ho ?_ ?_ (concerns_of_handle h.sound he hc hu hk handle)
    · intro t e' ht he'
      obtain rfl := h.orderly.eq_of_id hm ht
      have he' : l.errand.event? = some e' := he'
      rw [he', Option.getD_some]
    · rintro _ ⟨⟩ hclosed
      exact absurd hclosed hk

/-! ### Telling the pipeline -/

section

variable {id : OperationId} {d : Document.Delivery} {step : Diagnostics.Step} {w' : Workspace}

/-- The document that the event is about. -/
theorem Kept.told_here (h : w.Kept options bulletins) (hm : (id, .delivery d) ∈ w.operations)
    (ho : w.pipeline.Observes options d.event step) (hk : key d.event.uri = key uri)
    (hp : w'.pipeline = step.1) (hdoc : w'.store.document? uri = w.store.document? uri) :
    w'.Attended options (bulletins ++ step.2.1.map .cleared) uri := by
  have hreads : w'.pipeline.Reads (key uri) (w'.snapshot? uri) := by
    rw [hp, ← hk]
    exact ho.renews.reads _
  have hpub := ho.publications
  by_cases hc : d.event.kind = .closed
  · rw [if_pos hc] at hpub
    have hnone : w.store.document? uri = none := by
      rw [← Document.Store.document?_of_key hk]
      exact h.orderly.closing id d hm hc
    refine .absent (hdoc.trans hnone) hreads ?_
    intro b hb
    have hlast := lastBulletin?_append_self bulletins (b := .cleared { uri := d.event.uri }) hk
    rw [hpub, List.map_singleton, hlast, Option.some.injEq] at hb
    subst hb
    rfl
  · rw [if_neg hc] at hpub
    rw [hpub, List.map_nil, List.append_nil]
    cases hd : w.store.document? uri with
    | some document =>
      refine .working (hdoc.trans hd) hreads ?_
      rw [hp, ← hk]
      exact ho.working hc
    | none =>
      cases h.attended uri with
      | owing hd' => simp [hd] at hd'
      | working hd' => simp [hd] at hd'
      | shown hd' => simp [hd] at hd'
      | closing _ hclosing =>
        obtain ⟨i, d', hm', hc', -⟩ := hclosing
        obtain ⟨-, rfl⟩ := h.orderly.single id d i d' hm hm'
        exact absurd hc' hc
      | absent _ _ hlast => exact .absent (hdoc.trans hd) hreads hlast

/-- The other documents. -/
theorem Kept.told_elsewhere (h : w.Kept options bulletins)
    (hm : (id, .delivery d) ∈ w.operations) (ho : w.pipeline.Observes options d.event step)
    (hk : key d.event.uri ≠ key uri) (hp : w'.pipeline = step.1)
    (hdoc : w'.store.document? uri = w.store.document? uri)
    (hops : ∀ i t, (i, t) ∈ w.operations → i ≠ id → (i, t) ∈ w'.operations) :
    w'.Attended options (bulletins ++ step.2.1.map .cleared) uri := by
  apply (h.attended uri).mono hdoc
  · rw [ho.publications]
    split
    · exact lastBulletin?_append_ne bulletins hk
    · rw [List.map_nil, List.append_nil]
  · rintro ⟨i, t, e, hm', ht, hn, hk'⟩
    refine ⟨i, t, e, hops i t hm' ?_, ht, hn, hk'⟩
    rintro rfl
    obtain rfl := h.orderly.eq_of_id hm hm'
    obtain rfl := Option.some.inj ht
    exact hk hk'
  · rintro ⟨i, d', hm', -, hk'⟩
    obtain ⟨-, rfl⟩ := h.orderly.single id d i d' hm hm'
    exact absurd hk' hk
  · rw [hp]
    exact ho.renews.elsewhere.reads (Ne.symm hk)
  · rw [hp]
    exact ho.renews.elsewhere.working (Ne.symm hk)

/-- The pipeline is told of an event, and the operation goes on. -/
theorem Kept.tell (h : w.Kept options bulletins) (he : options.enabled = true)
    (hd : w.operation? id = some (.delivery d)) (time : Int) :
    (w.tell time id).workspace.Kept options
      (bulletins ++ (w.tell time id).publications.map .cleared) := by
  have hm : (id, .delivery d) ∈ w.operations := mem_operations_of_operation? hd
  have hobs := h.ready.observe he time d.event
  obtain ⟨owed, how, ho⟩ := h.orderly.sole.resumeDelivery d none
  rw [Workspace.tell, hd]
  dsimp only
  generalize w.pipeline.observe time d.event = observed at hobs ⊢
  have hdoc : ∀ uri, (Workspace.advance { w with pipeline := observed.1 } id
      (w.store.resumeDelivery d none)).workspace.store.document? uri = w.store.document? uri := by
    intro uri
    rw [advance_store, ho.document?]
  refine ⟨?_, ?_, ?_, ?_⟩
  · rw [advance_store]
    exact h.sound.of_eq ho.entries ho.table
  · refine (h.orderly.withPipeline observed.1).advance (h.orderly.below id _ hm) ho
      (fun i d' hm' => (h.orderly.single i d' id d hm' hm).1) ?_
    intro e hev hk
    rcases how with rfl | rfl
    · cases hev
    · obtain rfl := Option.some.inj hev
      exact h.orderly.closing id d hm hk
  · rw [advance_pipeline]
    exact hobs.renews.ready
  · intro uri
    by_cases hk : key d.event.uri = key uri
    · exact h.told_here hm hobs hk (advance_pipeline _ _ _) (hdoc uri)
    · refine h.told_elsewhere hm hobs hk (advance_pipeline _ _ _) (hdoc uri) ?_
      exact fun i t ht hi => mem_advance.mpr (.inl ⟨ht, hi⟩)

end

/-! ### Timers and computations -/

section

variable {c : Diagnostics.Computation} {pipeline : Pipeline}

theorem Kept.carries (h : w.Kept options bulletins)
    (hc : w.pipeline.Carries options w.snapshot? pipeline) :
    Kept options bulletins { w with pipeline } :=
  ⟨h.sound, h.orderly.withPipeline pipeline, hc.ready,
    fun uri => (h.attended uri).mono rfl rfl id id (hc.reads uri) (hc.working _)⟩

/-- A computation that comes to its end leaves the other documents alone. -/
theorem Kept.leaves_elsewhere (h : w.Kept options bulletins)
    (hl : w.pipeline.Leaves options w.snapshot? c pipeline) (hk : key c.uri ≠ key uri)
    {bulletins' : List Bulletin}
    (hlast : lastBulletin? bulletins' (key uri) = lastBulletin? bulletins (key uri)) :
    Attended options bulletins' { w with pipeline } uri :=
  (h.attended uri).mono rfl hlast id id (hl.reads uri) (hl.elsewhere.working (Ne.symm hk))

theorem snapshot?_of_key {d : OpenDocument} (hd : w.store.document? uri = some d)
    {uri' : Bytes} (hk : key uri = key uri') : w.snapshot? uri' = some (.ofDocument d) := by
  rw [snapshot?, ← Document.Store.document?_of_key hk, hd]
  rfl

/-- A queued computation looks at its document. -/
theorem Kept.begin (h : w.Kept options bulletins) (hc : c ∈ w.pipeline.computations) :
    Kept options bulletins
      { w with pipeline := (w.pipeline.begin c (w.store.document? c.uri)).1 } := by
  cases hd : w.store.document? c.uri with
  | some d =>
    obtain ⟨_, e, _, _, hk, rfl⟩ := h.sound.document?_iff.mp hd
    exact h.carries (h.ready.begin hc hk fun uri hku => snapshot?_of_key hd hku)
  | none =>
    obtain ⟨hl, -⟩ := h.ready.begin_none w.snapshot? hc
    refine ⟨h.sound, h.orderly.withPipeline _, hl.ready, ?_⟩
    intro uri
    by_cases hk : key c.uri = key uri
    · rw [Document.Store.document?_of_key hk] at hd
      cases h.attended uri with
      | owing hd' => simp [hd] at hd'
      | working hd' => simp [hd] at hd'
      | shown hd' => simp [hd] at hd'
      | closing hd' hclosing => exact .closing hd' hclosing
      | absent hd' hr hlast => exact .absent hd' (hl.reads uri hr) hlast
    · exact h.leaves_elsewhere hl hk rfl

/-- The engine has answered. What it was asked about is the document as it is, unless an event is
owed. -/
theorem Kept.complete (h : w.Kept options bulletins) (hc : c ∈ w.pipeline.computations)
    {snapshot : Snapshot} (hr : c.stage = .running snapshot)
    {outcome : Analysis.Outcome (List Lsp.Diagnostic)}
    (hs : outcome = .error .cancelled → c.stopped = true) :
    Kept options (bulletins ++
        (w.pipeline.complete c snapshot outcome).2.1.map (.computed snapshot outcome))
      { w with pipeline := (w.pipeline.complete c snapshot outcome).1 } := by
  rcases h.ready.complete w.snapshot? hc snapshot hs with ⟨hcar, hp⟩ | ⟨hn, hl, hp⟩
  · rw [hp, List.map_nil, List.append_nil]
    exact h.carries hcar
  · rw [hp, List.map_singleton]
    have hplaced : key snapshot.uri = key c.uri := h.ready.placed c hc snapshot hr
    refine ⟨h.sound, h.orderly.withPipeline _, hl.ready, ?_⟩
    intro uri
    by_cases hk : key c.uri = key uri
    · -- the computation has worked on what its document is
      have hshown : ∀ d, w.store.document? uri = some d →
          w.pipeline.Reads (key uri) (w.snapshot? uri) →
          Attended options (bulletins ++ [.computed snapshot outcome
            (w.pipeline.report snapshot outcome)])
            { w with pipeline := (w.pipeline.complete c snapshot outcome).1 } uri := by
        intro d hd hreads
        have hsnap := hreads c hc hk hn snapshot hr
        rw [snapshot?_of_key hd rfl, Option.some.injEq] at hsnap
        subst hsnap
        exact .shown hd (hl.reads uri hreads)
          (lastBulletin?_append_self bulletins (hplaced.trans hk))
          (Bulletin.shows_report h.ready.options d outcome)
      cases h.attended uri with
      | owing hd howing => exact .owing hd howing
      | working hd hreads => exact hshown _ hd hreads
      | shown hd hreads => exact hshown _ hd hreads
      | closing hd hclosing => exact .closing hd hclosing
      | absent hd hreads =>
        have hsnap := hreads c hc hk hn snapshot hr
        simp [snapshot?, hd] at hsnap
    · refine h.leaves_elsewhere hl hk (lastBulletin?_append_ne bulletins ?_)
      exact fun hku => hk (hplaced.symm.trans hku)

end

end EditorSession.Workspace
