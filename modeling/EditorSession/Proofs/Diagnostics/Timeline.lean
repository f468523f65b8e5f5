import EditorSession.Proofs.Diagnostics.Timers

/-! A pipeline at a clock. Documents are called on while the clock goes on, and whenever the pipeline
settles, every timer that is due goes off; a timer that was cancelled never does. At any time the
timers are those of the triggers that wait: what is called on a document ends the waiting for all
documents under its key. -/

namespace EditorSession.Diagnostics

open Document (key)

/-- The open documents, each found under its own key. -/
structure Shelf where
  find : Bytes → Option Document.OpenDocument
  key_of_find : ∀ uri d, find uri = some d → key d.uri = key uri

namespace Timeline

inductive Event where
  | trigger (uri : Bytes)
  | computeNow (uri : Bytes)
  | clear (uri : Bytes)
  /-- The clock goes on. -/
  | advance (milliseconds : Nat)
  /-- Timers go off until none is due. -/
  | settle
  /-- The computation that is next begins. -/
  | begin (shelf : Shelf)
  | answer (id : ComputationId) (outcome : Analysis.Outcome (List Lsp.Diagnostic))

/-- The key of the document that is called on. -/
def Event.key? : Event → Option Bytes
  | trigger uri => some (key uri)
  | computeNow uri => some (key uri)
  | clear uri => some (key uri)
  | advance _ => none
  | settle => none
  | begin _ => none
  | answer _ _ => none

def Event.duration : Event → Nat
  | advance milliseconds => milliseconds
  | _ => 0

/-- The time that has gone by. -/
def elapsed : List Event → Int
  | [] => 0
  | e :: events => e.duration + elapsed events

/-- A computation that was started, and when. -/
structure Start where
  uri : Bytes
  time : Int

end Timeline

/-- A pipeline at a clock, with the computations that it has started. -/
structure Timeline where
  pipeline : Pipeline
  now : Int := 0
  starts : List Timeline.Start := []

namespace Timeline

/-- Takes in a step of the pipeline. -/
def take (w : Timeline) (p : Pipeline) : Timeline :=
  { w with pipeline := p, starts := w.starts ++ (w.pipeline.begun p).map (⟨·, w.now⟩) }

/-- Lets the timers that are due go off, one after the other, but no more than so many. -/
def settle : Nat → Timeline → Timeline
  | 0, w => w
  | fuel + 1, w =>
    match w.pipeline.due? w.now with
    | some t => settle fuel (w.take (w.pipeline.fire t))
    | none => w

def step (w : Timeline) : Event → Timeline
  | .trigger uri => w.take (w.pipeline.trigger w.now uri)
  | .computeNow uri => w.take (w.pipeline.computeNow uri)
  | .clear uri => w.take (w.pipeline.clear uri).1
  | .advance milliseconds => { w with now := w.now + milliseconds }
  | .settle => w.settle w.pipeline.timers.length
  | .begin shelf => w.take (w.pipeline.beginNext shelf.find).1
  | .answer id outcome => w.take (w.pipeline.answer id outcome).1

/-- A pipeline after these events. -/
def play (options : Options) (events : List Event) : Timeline :=
  events.foldl step { pipeline := { options } }

/-- What was started for the documents under a key. -/
def startsOf (w : Timeline) (k : Bytes) : List Start := w.starts.filter fun s => key s.uri = k

/-! ### When a computation is to start -/

/-- After these events a trigger still waits for the time `due`: since it was called, its key has
not been called on, and the pipeline has not settled at that time or later. -/
def Pends (delay : Int) (events : List Event) (uri : Bytes) (due : Int) : Prop :=
  ∃ before since, events = before ++ .trigger uri :: since ∧ due = elapsed before + delay ∧
    (∀ e ∈ since, e.key? ≠ some (key uri)) ∧
    ∀ early late, since = early ++ .settle :: late → elapsed before + elapsed early < due

/-- After these events, the event is to start a computation for the document. -/
inductive Begins (delay : Int) (events : List Event) : Event → Bytes → Prop where
  | now (uri) : Begins delay events (.computeNow uri) uri
  | due {uri due} (hp : Pends delay events uri due) (hd : due ≤ elapsed events) :
      Begins delay events .settle uri

variable {options : Options} {w : Timeline} {p : Pipeline} {delay due : Int} {k uri : Bytes}
  {events : List Event} {e : Event}

@[simp] theorem elapsed_nil : elapsed [] = 0 := rfl

@[simp] theorem elapsed_cons (e : Event) (events : List Event) :
    elapsed (e :: events) = e.duration + elapsed events := rfl

@[simp] theorem elapsed_append (events events' : List Event) :
    elapsed (events ++ events') = elapsed events + elapsed events' := by
  induction events with
  | nil => simp
  | cons e events ih => simp [ih, Int.add_assoc]

theorem elapsed_nonneg (events : List Event) : 0 ≤ elapsed events := by
  induction events with
  | nil => exact Int.le_refl 0
  | cons e events ih => exact Int.add_nonneg (Int.natCast_nonneg _) ih

theorem duration_of_key? (h : e.key? ≠ none) : e.duration = 0 := by
  cases e with
  | advance milliseconds => exact absurd rfl h
  | _ => rfl

theorem play_concat (options : Options) (events : List Event) (e : Event) :
    play options (events ++ [e]) = (play options events).step e := by
  rw [play, List.foldl_append]
  rfl

/-! ### Triggers that wait -/

/-- What is called is waited for from then on. -/
theorem pends_trigger (delay : Int) (events : List Event) (uri : Bytes) :
    Pends delay (events ++ [.trigger uri]) uri (elapsed events + delay) :=
  ⟨events, [], rfl, rfl, by simp, by simp⟩

theorem Pends.concat (h : Pends delay events uri due) (he : e.key? ≠ some (key uri))
    (hlast : e = .settle → elapsed events < due) : Pends delay (events ++ [e]) uri due := by
  obtain ⟨before, since, rfl, hdue, hkey, hsettle⟩ := h
  refine ⟨before, since ++ [e], by simp, hdue, ?_, ?_⟩
  · intro x hx
    rcases List.mem_append.mp hx with hx | hx
    · exact hkey x hx
    · rwa [List.mem_singleton.mp hx]
  · intro early late h
    rcases List.eq_nil_or_concat late with rfl | ⟨late, last, rfl⟩
    · obtain ⟨rfl, he⟩ := List.append_inj' h rfl
      simpa [Event.duration] using hlast (List.head_eq_of_cons_eq he)
    · rw [List.concat_eq_append, ← List.cons_append, ← List.append_assoc] at h
      exact hsettle early late (List.append_inj' h rfl).1

/-- A trigger waits since the last event, or goes on waiting. -/
theorem pends_concat : Pends delay (events ++ [e]) uri due ↔
    e = .trigger uri ∧ due = elapsed events + delay ∨
      Pends delay events uri due ∧ e.key? ≠ some (key uri) ∧
        (e = .settle → elapsed events < due) := by
  constructor
  · rintro ⟨before, since, hevents, hdue, hkey, hsettle⟩
    rcases List.eq_nil_or_concat since with rfl | ⟨since, last, rfl⟩
    · obtain ⟨rfl, he⟩ := List.append_inj' hevents rfl
      exact .inl ⟨List.head_eq_of_cons_eq he, hdue⟩
    · rw [List.concat_eq_append] at hevents hkey hsettle
      rw [← List.cons_append, ← List.append_assoc] at hevents
      obtain ⟨rfl, he⟩ := List.append_inj' hevents rfl
      obtain rfl := List.head_eq_of_cons_eq he
      refine .inr ⟨⟨before, since, rfl, hdue, ?_, ?_⟩, hkey e (by simp), ?_⟩
      · exact fun x hx => hkey x (List.mem_append_left _ hx)
      · rintro early late rfl
        exact hsettle early (late ++ [e]) (by simp)
      · rintro rfl
        simpa [Event.duration] using hsettle since [] rfl
  · rintro (⟨rfl, rfl⟩ | ⟨h, he, hlast⟩)
    · exact pends_trigger delay events uri
    · exact h.concat he hlast

theorem not_pends_nil : ¬Pends delay [] uri due := by
  rintro ⟨before, since, h, -⟩
  simp at h

/-- Of the documents under one key at most one is waited for. -/
theorem Pends.unique {uri' : Bytes} {due' : Int} (h : Pends delay events uri due)
    (h' : Pends delay events uri' due') (hk : key uri' = key uri) : uri' = uri ∧ due' = due := by
  induction events using List.reverseRecOn with
  | nil => exact absurd h not_pends_nil
  | append_singleton events e ih =>
    rcases pends_concat.mp h with ⟨rfl, rfl⟩ | ⟨h, he, -⟩
    · rcases pends_concat.mp h' with ⟨he', rfl⟩ | ⟨-, he', -⟩
      · cases he'
        exact ⟨rfl, rfl⟩
      · exact absurd (congrArg some hk.symm) he'
    · rcases pends_concat.mp h' with ⟨rfl, rfl⟩ | ⟨h', -, -⟩
      · exact absurd (congrArg some hk) he
      · exact ih h h'

/-! ### What is started -/

/-- A step that starts computations for these documents. -/
theorem startsOf_take {uris : List Bytes} (h : w.pipeline.Launches options uris p) (k : Bytes) :
    (w.take p).startsOf k =
      w.startsOf k ++ (uris.filter fun uri => key uri = k).map (⟨·, w.now⟩) := by
  simp only [startsOf, take, h.begun, List.filter_append, List.filter_map]
  rfl

/-- The pipeline has settled. -/
structure Settles (options : Options) (w w' : Timeline) : Prop where
  awaited : w'.pipeline.Awaited options
  now : w'.now = w.now
  timers : ∀ t, t ∈ w'.pipeline.timers ↔ t ∈ w.pipeline.timers ∧ w.now < t.due
  started : ∀ t ∈ w.pipeline.timers, t.due ≤ w.now →
    w'.startsOf (key t.uri) = w.startsOf (key t.uri) ++ [⟨t.uri, w.now⟩]
  still : ∀ k, (∀ t ∈ w.pipeline.timers, key t.uri = k → w.now < t.due) →
    w'.startsOf k = w.startsOf k

theorem settles_of_none (h : w.pipeline.Awaited options) (hd : w.pipeline.due? w.now = none) :
    Settles options w w := by
  have hlate : ∀ t ∈ w.pipeline.timers, w.now < t.due := fun t => Pipeline.due?_eq_none hd
  refine ⟨h, rfl, fun t => (and_iff_left_of_imp (hlate t)).symm, ?_, fun _ _ => rfl⟩
  intro t ht hdue
  exact absurd hdue (Int.not_le.mpr (hlate t ht))

/-- The first timer goes off, and no other of its key is left. -/
theorem Settles.cons {w' : Timeline} {t : Timer} (h : w.pipeline.Awaited options)
    (ht : t ∈ w.pipeline.timers) (hd : t.due ≤ w.now)
    (hs : Settles options (w.take (w.pipeline.fire t)) w') : Settles options w w' := by
  have hf := h.fire ht
  have hmem : ∀ {other}, other ∈ (w.pipeline.fire t).timers ↔
      other ∈ w.pipeline.timers ∧ key other.uri ≠ key t.uri := by simp [hf.timers]
  have hown := startsOf_take hf.toLaunches (key t.uri)
  have hother : ∀ k, key t.uri ≠ k →
      (w.take (w.pipeline.fire t)).startsOf k = w.startsOf k := by
    intro k hk
    simp [startsOf_take hf.toLaunches, hk]
  have hsame : ∀ other ∈ w.pipeline.timers, key other.uri = key t.uri → other = t :=
    fun other ho hk => h.eq_of_key ho ht hk
  refine ⟨hs.awaited, hs.now, ?_, ?_, ?_⟩
  · intro other
    rw [hs.timers]
    change other ∈ (w.pipeline.fire t).timers ∧ w.now < other.due ↔ _
    rw [hmem]
    constructor
    · rintro ⟨⟨ho, -⟩, hlate⟩
      exact ⟨ho, hlate⟩
    · rintro ⟨ho, hlate⟩
      refine ⟨⟨ho, ?_⟩, hlate⟩
      intro hk
      rw [hsame other ho hk] at hlate
      exact absurd hd (Int.not_le.mpr hlate)
  · intro other ho hdue
    by_cases hk : key other.uri = key t.uri
    · obtain rfl := hsame other ho hk
      rw [hs.still]
      · simpa using hown
      · exact fun x hx hkx => absurd hkx (hmem.mp hx).2
    · rw [hs.started other (hmem.mpr ⟨ho, hk⟩) hdue, hother _ (Ne.symm hk)]
      rfl
  · intro k hlate
    have hk : key t.uri ≠ k := fun hk => absurd hd (Int.not_le.mpr (hlate t ht hk))
    rw [hs.still, hother k hk]
    exact fun x hx hkx => hlate x (hmem.mp hx).1 hkx

theorem settles_settle (h : w.pipeline.Awaited options) {fuel : Nat}
    (hf : w.pipeline.timers.length ≤ fuel) : Settles options w (w.settle fuel) := by
  induction fuel generalizing w with
  | zero =>
    refine settles_of_none h ?_
    rw [Pipeline.due?, List.length_eq_zero_iff.mp (Nat.le_zero.mp hf)]
    rfl
  | succ fuel ih =>
    unfold settle
    cases hd : w.pipeline.due? w.now with
    | none => exact settles_of_none h hd
    | some t =>
      obtain ⟨ht, hdue⟩ := Pipeline.due?_eq_some hd
      refine .cons h ht hdue (ih (h.fire ht).awaited ?_)
      have hlt : (w.pipeline.fire t).timers.length < w.pipeline.timers.length := by
        rw [h.fire_eq ht]
        exact List.length_filter_lt_length_iff_exists.mpr ⟨t, ht, by simp⟩
      change (w.pipeline.fire t).timers.length ≤ fuel
      omega

/-! ### Runs -/

/-- The timers are those of the triggers that wait. -/
structure Follows (options : Options) (events : List Event) (w : Timeline) : Prop where
  awaited : w.pipeline.Awaited options
  now : w.now = elapsed events
  pends : ∀ uri due, (∃ t ∈ w.pipeline.timers, t.uri = uri ∧ t.due = due) ↔
    Pends options.delay.toInt events uri due

theorem follows_nil (options : Options) : Follows options [] { pipeline := { options } } := by
  refine ⟨.empty options, rfl, ?_⟩
  intro uri due
  simp [not_pends_nil]

/-- A document is called on. -/
theorem Follows.retimes (h : Follows options events w) {own : List Timer} {uris : List Bytes}
    (hr : w.pipeline.Retimes options uri own uris p) (hk : e.key? = some (key uri))
    (ho : ∀ uri due, (∃ t ∈ own, t.uri = uri ∧ t.due = due) ↔
      e = .trigger uri ∧ due = elapsed events + options.delay.toInt) :
    Follows options (events ++ [e]) (w.take p) := by
  have hsettle : e ≠ .settle := by
    rintro rfl
    cases hk
  refine ⟨hr.awaited, ?_, ?_⟩
  · rw [elapsed_append, elapsed_cons, duration_of_key? (by simp [hk])]
    simpa [take] using h.now
  · intro uri' due
    rw [pends_concat, ← h.pends, ← ho, hk]
    change (∃ t ∈ p.timers, _) ↔ _
    simp only [hr.timers, hsettle, false_imp_iff, and_true, ne_eq, Option.some.injEq]
    constructor
    · rintro ⟨t, ⟨ht, hk⟩ | ht, rfl, rfl⟩
      · exact .inr ⟨⟨t, ht, rfl, rfl⟩, fun hu => hk hu.symm⟩
      · exact .inl ⟨t, ht, rfl, rfl⟩
    · rintro (⟨t, ht, rfl, rfl⟩ | ⟨⟨t, ht, rfl, rfl⟩, hk⟩)
      · exact ⟨t, .inr ht, rfl, rfl⟩
      · exact ⟨t, .inl ⟨ht, fun hu => hk hu.symm⟩, rfl, rfl⟩

/-- Nobody calls, and the timers are kept. -/
theorem Follows.rests (h : Follows options events w) (hk : e.key? = none) (hs : e ≠ .settle)
    {w' : Timeline} (ha : w'.pipeline.Awaited options) (ht : w'.pipeline.timers = w.pipeline.timers)
    (hn : w'.now = w.now + e.duration) : Follows options (events ++ [e]) w' := by
  refine ⟨ha, ?_, ?_⟩
  · rw [hn, h.now]
    simp
  · intro uri due
    have htrigger : e ≠ .trigger uri := by
      rintro rfl
      cases hk
    rw [pends_concat, ht, h.pends]
    simp [hk, hs, htrigger]

theorem Follows.settle (h : Follows options events w) {w' : Timeline} (hs : Settles options w w') :
    Follows options (events ++ [.settle]) w' := by
  refine ⟨hs.awaited, ?_, ?_⟩
  · rw [hs.now, h.now]
    simp [Event.duration]
  · intro uri due
    rw [pends_concat, ← h.pends, ← h.now]
    simp only [hs.timers, Event.key?, ne_eq, reduceCtorEq, not_false_eq_true, forall_const,
      true_and, false_and, false_or]
    constructor
    · rintro ⟨t, ⟨ht, hlate⟩, rfl, rfl⟩
      exact ⟨⟨t, ht, rfl, rfl⟩, hlate⟩
    · rintro ⟨⟨t, ht, rfl, rfl⟩, hlate⟩
      exact ⟨t, ⟨ht, hlate⟩, rfl, rfl⟩

theorem Follows.step (h : Follows options events w) (e : Event) :
    Follows options (events ++ [e]) (w.step e) := by
  cases e with
  | trigger uri =>
    refine h.retimes (h.awaited.trigger w.now uri) rfl ?_
    intro uri' due
    simp [Pipeline.armedBy, h.now, h.awaited.options, eq_comm]
  | computeNow uri => exact h.retimes (h.awaited.computeNow uri) rfl (by simp)
  | clear uri => exact h.retimes (h.awaited.clear uri) rfl (by simp)
  | advance milliseconds => exact h.rests rfl (by simp) h.awaited rfl rfl
  | settle => exact h.settle (settles_settle h.awaited (Nat.le_refl _))
  | begin shelf =>
    have hr := h.awaited.beginNext shelf.key_of_find
    exact h.rests rfl (by simp) hr.awaited hr.timers (by simp [Timeline.step, take, Event.duration])
  | answer id outcome =>
    have hr := h.awaited.answer id outcome
    exact h.rests rfl (by simp) hr.awaited hr.timers (by simp [Timeline.step, take, Event.duration])

theorem follows_play (options : Options) (events : List Event) :
    Follows options events (play options events) := by
  induction events using List.reverseRecOn with
  | nil => exact follows_nil options
  | append_singleton events e ih =>
    rw [play_concat]
    exact ih.step e

theorem Follows.begins (h : Follows options events w) {uri : Bytes}
    (hb : Begins options.delay.toInt events e uri) :
    (w.step e).startsOf (key uri) = w.startsOf (key uri) ++ [⟨uri, elapsed events⟩] := by
  cases hb with
  | now =>
    rw [Timeline.step, startsOf_take (h.awaited.computeNow uri).toLaunches, h.now]
    simp
  | due hp hd =>
    obtain ⟨t, ht, rfl, rfl⟩ := (h.pends _ _).mpr hp
    have hs := settles_settle h.awaited (Nat.le_refl w.pipeline.timers.length)
    rw [Timeline.step, hs.started t ht (h.now ▸ hd), h.now]

theorem Follows.startsOf_step (h : Follows options events w) {k : Bytes}
    (hn : ∀ uri, key uri = k → ¬Begins options.delay.toInt events e uri) :
    (w.step e).startsOf k = w.startsOf k := by
  cases e with
  | trigger uri =>
    rw [Timeline.step, startsOf_take (h.awaited.trigger w.now uri).toLaunches]
    simp
  | computeNow uri =>
    have hk : key uri ≠ k := fun hk => hn uri hk (.now uri)
    rw [Timeline.step, startsOf_take (h.awaited.computeNow uri).toLaunches]
    simp [hk]
  | clear uri =>
    rw [Timeline.step, startsOf_take (h.awaited.clear uri).toLaunches]
    simp
  | advance milliseconds => rfl
  | settle =>
    refine (settles_settle h.awaited (Nat.le_refl _)).still k ?_
    intro t ht hk
    have hp := (h.pends _ _).mp ⟨t, ht, rfl, rfl⟩
    rw [h.now]
    exact Int.not_le.mp fun hd => hn t.uri hk (.due hp hd)
  | begin shelf =>
    rw [Timeline.step, startsOf_take (h.awaited.beginNext shelf.key_of_find).toLaunches]
    simp
  | answer id outcome =>
    rw [Timeline.step, startsOf_take (h.awaited.answer id outcome).toLaunches]
    simp

theorem Follows.runs (h : Follows options events w) {k' : Bytes} (he : e.key? = some k')
    (hk : k ≠ k') :
    Table.get? k (w.step e).pipeline.runs = Table.get? k w.pipeline.runs := by
  cases e with
  | trigger uri =>
    cases he
    exact (h.awaited.toReady.trigger w.now uri).1.elsewhere.runs k hk
  | computeNow uri =>
    cases he
    exact (h.awaited.toReady.computeNow uri).1.elsewhere.runs k hk
  | clear uri =>
    cases he
    exact (h.awaited.toReady.clear uri).1.elsewhere.runs k hk
  | _ => cases he

theorem startsOf_play_begins (hb : Begins options.delay.toInt events e uri) :
    (play options (events ++ [e])).startsOf (key uri) =
      (play options events).startsOf (key uri) ++ [⟨uri, elapsed events⟩] := by
  rw [play_concat]
  exact (follows_play options events).begins hb

theorem startsOf_play_rests
    (hn : ∀ uri, key uri = k → ¬Begins options.delay.toInt events e uri) :
    (play options (events ++ [e])).startsOf k = (play options events).startsOf k := by
  rw [play_concat]
  exact (follows_play options events).startsOf_step hn

end Timeline

end EditorSession.Diagnostics
