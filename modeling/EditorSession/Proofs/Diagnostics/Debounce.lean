import EditorSession.Proofs.Diagnostics.Timeline

/-! Debouncing. Of the calls on the documents under one key the last one wins: a trigger starts its
computation when its delay is over, unless one of these documents has been called on since. So a burst
of triggers starts one computation, and calls on documents under other keys do not matter. -/

namespace EditorSession.Diagnostics

open Document (key)

namespace Timeline

/-- Triggers of the documents under a key, of which the next always comes before the delay of the
last is over. -/
inductive Burst (delay : Int) (k : Bytes) : List Event → Prop where
  | nil : Burst delay k []
  | cons {uri pause rest} (hk : key uri = k) (hp : ∀ e ∈ pause, e.key? ≠ some k)
      (hd : elapsed pause < delay) (hr : Burst delay k rest) :
      Burst delay k (.trigger uri :: pause ++ rest)

/-- The events without the calls on the documents under other keys. -/
def only (k : Bytes) (events : List Event) : List Event :=
  events.filter fun e => e.key? = none ∨ e.key? = some k

/-- The last call wins. -/
structure Debounces (options : Options) : Prop where
  settles : ∀ events, (play options (events ++ [.settle])).pipeline.due? (elapsed events) = none
  begins : ∀ events e uri, Begins options.delay.toInt events e uri →
    (play options (events ++ [e])).startsOf (key uri) =
      (play options events).startsOf (key uri) ++ [⟨uri, elapsed events⟩]
  rests : ∀ events e k, (∀ uri, key uri = k → ¬Begins options.delay.toInt events e uri) →
    (play options (events ++ [e])).startsOf k = (play options events).startsOf k
  /-- Without a delay it is the next time the pipeline settles. -/
  atOnce : options.delay.toInt ≤ 0 → ∀ events uri,
    (play options (events ++ [.trigger uri, .settle])).startsOf (key uri) =
      (play options events).startsOf (key uri) ++ [⟨uri, elapsed events⟩]
  /-- One computation is started after a burst, when the delay of the last trigger is over. -/
  burst : ∀ before calls uri early late, Burst options.delay.toInt (key uri) calls →
    (∀ e ∈ early ++ late, e.key? ≠ some (key uri)) →
    (∀ a b, early = a ++ .settle :: b → elapsed a < options.delay.toInt) →
    options.delay.toInt ≤ elapsed early →
    (play options (before ++ calls ++ .trigger uri :: early ++ .settle :: late)).startsOf (key uri) =
      (play options before).startsOf (key uri) ++ [⟨uri, elapsed (before ++ calls ++ early)⟩]
  /-- A call leaves the runs of the documents under other keys as they are. -/
  runs : ∀ events e k k', e.key? = some k' → k' ≠ k →
    Table.get? k (play options (events ++ [e])).pipeline.runs =
      Table.get? k (play options events).pipeline.runs
  /-- Nothing starts earlier, later or otherwise for the calls on the documents under other keys. -/
  starts : ∀ events k,
    (play options events).startsOf k = (play options (only k events)).startsOf k

variable {options : Options} {delay due : Int} {k uri : Bytes} {events : List Event} {e : Event}

/-! ### Bursts -/

theorem not_begins_trigger {uri' : Bytes} : ¬Begins delay events (.trigger uri) uri' := nofun

/-- As long as the trigger waits and its key is not called on, nothing is started. -/
theorem Pends.append (h : Pends options.delay.toInt events uri due) {pause : List Event}
    (hk : ∀ e ∈ pause, e.key? ≠ some (key uri))
    (hs : ∀ a b, pause = a ++ .settle :: b → elapsed events + elapsed a < due) :
    Pends options.delay.toInt (events ++ pause) uri due ∧
      (play options (events ++ pause)).startsOf (key uri) =
        (play options events).startsOf (key uri) := by
  induction pause generalizing events with
  | nil =>
    rw [List.append_nil]
    exact ⟨h, rfl⟩
  | cons e pause ih =>
    have he := hk e List.mem_cons_self
    have hlate : e = .settle → elapsed events < due := by
      rintro rfl
      simpa using hs [] pause rfl
    have hrest := ih (h.concat he hlate) (fun x hx => hk x (List.mem_cons_of_mem e hx)) (by
      rintro a b rfl
      simpa [Int.add_assoc] using hs (e :: a) b rfl)
    rw [List.append_assoc] at hrest
    refine ⟨hrest.1, hrest.2.trans (startsOf_play_rests ?_)⟩
    intro uri' hu hb
    cases hb with
    | now => exact he (congrArg some hu)
    | due hp hd =>
      obtain ⟨-, rfl⟩ := h.unique hp hu
      exact Int.not_le.mpr (hlate rfl) hd

/-- Nothing is started while no trigger waits and the key is not called on. -/
theorem startsOf_play_append
    (hn : ∀ uri due, key uri = k → ¬Pends options.delay.toInt events uri due) {later : List Event}
    (hk : ∀ e ∈ later, e.key? ≠ some k) :
    (play options (events ++ later)).startsOf k = (play options events).startsOf k := by
  induction later generalizing events with
  | nil => rw [List.append_nil]
  | cons e later ih =>
    have he := hk e List.mem_cons_self
    rw [← List.singleton_append, ← List.append_assoc, ih, startsOf_play_rests]
    · rintro uri rfl hb
      cases hb with
      | now => exact he rfl
      | due hp => exact hn uri _ rfl hp
    · rintro uri due rfl hp
      rcases pends_concat.mp hp with ⟨rfl, -⟩ | ⟨hp, -, -⟩
      · exact he rfl
      · exact hn uri due rfl hp
    · exact fun x hx => hk x (List.mem_cons_of_mem e hx)

/-- During a burst nothing is started. -/
theorem Burst.startsOf {calls : List Event} (h : Burst options.delay.toInt k calls)
    (events : List Event) :
    (play options (events ++ calls)).startsOf k = (play options events).startsOf k := by
  induction h generalizing events with
  | nil => rw [List.append_nil]
  | @cons uri pause rest hk hp hd _ ih =>
    subst hk
    have hpause := (pends_trigger options.delay.toInt events uri).append hp (by
      rintro a b rfl
      have := elapsed_nonneg b
      simp only [elapsed_append, elapsed_cons, elapsed_nil, Event.duration] at hd ⊢
      omega)
    rw [List.cons_append, ← List.singleton_append, ← List.append_assoc, ← List.append_assoc, ih,
      hpause.2]
    exact startsOf_play_rests fun _ _ => not_begins_trigger

/-- The computation of a trigger is started the first time the pipeline settles when the delay is
over. -/
theorem startsOf_play_trigger (events : List Event) (uri : Bytes) {early late : List Event}
    (hk : ∀ e ∈ early ++ late, e.key? ≠ some (key uri))
    (hs : ∀ a b, early = a ++ .settle :: b → elapsed a < options.delay.toInt)
    (hd : options.delay.toInt ≤ elapsed early) :
    (play options (events ++ .trigger uri :: early ++ .settle :: late)).startsOf (key uri) =
      (play options events).startsOf (key uri) ++ [⟨uri, elapsed (events ++ early)⟩] := by
  obtain ⟨hp, hearly⟩ := (pends_trigger options.delay.toInt events uri).append
    (fun e he => hk e (List.mem_append_left _ he)) (by
      intro a b hab
      have := hs a b hab
      simp only [elapsed_append, elapsed_cons, elapsed_nil, Event.duration]
      omega)
  have htime : elapsed (events ++ [.trigger uri] ++ early) = elapsed (events ++ early) := by
    simp [Event.duration]
  have hbegins : Begins options.delay.toInt (events ++ [.trigger uri] ++ early) .settle uri := by
    refine .due hp ?_
    rw [htime, elapsed_append]
    omega
  rw [← List.singleton_append, ← List.append_assoc, ← List.singleton_append (l := late),
    ← List.append_assoc, startsOf_play_append, startsOf_play_begins hbegins, hearly,
    startsOf_play_rests fun _ _ => not_begins_trigger, htime]
  · intro uri' due hu hp'
    rcases pends_concat.mp hp' with ⟨he, -⟩ | ⟨hp', -, hlate⟩
    · cases he
    · obtain ⟨-, rfl⟩ := hp.unique hp' hu
      have := hlate rfl
      rw [htime, elapsed_append] at this
      omega
  · exact fun e he => hk e (List.mem_append_right _ he)

/-! ### Other documents -/

theorem only_concat (k : Bytes) (events : List Event) (e : Event) : only k (events ++ [e]) =
    if e.key? = none ∨ e.key? = some k then only k events ++ [e] else only k events := by
  rw [only, only, List.filter_append, List.filter_singleton]
  by_cases he : e.key? = none ∨ e.key? = some k <;> simp [he]

theorem elapsed_only (k : Bytes) (events : List Event) : elapsed (only k events) = elapsed events := by
  induction events using List.reverseRecOn with
  | nil => rfl
  | append_singleton events e ih =>
    rw [only_concat]
    split
    case isTrue => rw [elapsed_append, elapsed_append, ih]
    case isFalse he =>
      rw [elapsed_append, elapsed_cons, duration_of_key? fun hk => he (.inl hk), ih]
      simp

theorem pends_only : Pends delay (only (key uri) events) uri due ↔ Pends delay events uri due := by
  induction events using List.reverseRecOn with
  | nil => rfl
  | append_singleton events e ih =>
    rw [only_concat]
    split
    case isTrue => rw [pends_concat, pends_concat, ih, elapsed_only]
    case isFalse he =>
      rw [pends_concat, ih]
      have htrigger : e ≠ .trigger uri := by
        rintro rfl
        exact he (.inr rfl)
      have hsettle : e ≠ .settle := by
        rintro rfl
        exact he (.inl rfl)
      have hkey : e.key? ≠ some (key uri) := fun hk => he (.inr hk)
      simp [htrigger, hsettle, hkey]

theorem begins_only : Begins delay (only (key uri) events) e uri ↔ Begins delay events e uri := by
  constructor
  · intro h
    cases h with
    | now => exact .now uri
    | due hp hd => exact .due (pends_only.mp hp) (elapsed_only (key uri) events ▸ hd)
  · intro h
    cases h with
    | now => exact .now uri
    | due hp hd => exact .due (pends_only.mpr hp) ((elapsed_only (key uri) events).symm ▸ hd)

theorem startsOf_play_only (options : Options) (events : List Event) (k : Bytes) :
    (play options (only k events)).startsOf k = (play options events).startsOf k := by
  induction events using List.reverseRecOn with
  | nil => rfl
  | append_singleton events e ih =>
    rw [only_concat]
    by_cases hb : ∃ uri, key uri = k ∧ Begins options.delay.toInt events e uri
    · obtain ⟨uri, rfl, hb⟩ := hb
      have he : e.key? = none ∨ e.key? = some (key uri) := by
        cases hb with
        | now => exact .inr rfl
        | due => exact .inl rfl
      rw [if_pos he, startsOf_play_begins hb, startsOf_play_begins (begins_only.mpr hb), ih,
        elapsed_only]
    · have hn : ∀ uri, key uri = k → ¬Begins options.delay.toInt events e uri :=
        fun uri hk h => hb ⟨uri, hk, h⟩
      rw [startsOf_play_rests hn, ← ih]
      split
      case isTrue =>
        refine startsOf_play_rests ?_
        rintro uri rfl h
        exact hn uri rfl (begins_only.mp h)
      case isFalse => rfl

theorem debounces (options : Options) : Debounces options where
  settles events := by
    obtain ⟨ha, hnow, -⟩ := follows_play options events
    have hs := settles_settle ha (Nat.le_refl _)
    rw [play_concat, ← hnow]
    cases hd : ((play options events).step .settle).pipeline.due? (play options events).now with
    | none => rfl
    | some t =>
      obtain ⟨ht, hdue⟩ := Pipeline.due?_eq_some hd
      exact absurd hdue (Int.not_le.mpr ((hs.timers t).mp ht).2)
  begins _ _ _ := startsOf_play_begins
  rests _ _ _ := startsOf_play_rests
  atOnce hd events uri := by
    have h : (play options (events ++ .trigger uri :: [] ++ .settle :: [])).startsOf (key uri) = _ :=
      startsOf_play_trigger events uri (by simp) (by simp) hd
    simpa using h
  burst before calls uri early late hb hk hs hd := by
    rw [startsOf_play_trigger _ uri hk hs hd, hb.startsOf before]
  runs events e k k' he hk := by
    rw [play_concat]
    exact (follows_play options events).runs he (Ne.symm hk)
  starts events k := (startsOf_play_only options events k).symm

end Timeline

end EditorSession.Diagnostics
