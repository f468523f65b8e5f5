import EditorSession.Proofs.Dispatch.Bookkeeping

/-! The course of an accepted request. Its worker runs, is decided once and answered once, and the
record of the run tells how far it has come and what its response is: cancelled if a stop fell
between acceptance and the end of the handler, else what the handler made of it. -/

namespace EditorSession.Dispatch

variable {H N : Type}

/-- What the outcome of a handler makes of a request when nothing stops it. -/
def plainResponse (id : Rpc.Id) : Except Rpc.Failure Json → Rpc.Response
  | .ok result => .ofResult id result
  | .error failure => .ofError id failure.toError

def cancelledResponse (id : Rpc.Id) : Rpc.Response :=
  .ofError id ⟨Rpc.Code.requestCancelled, ascii "Request cancelled", none⟩

/-- The response to a request that was pending during the given events and whose handler then ended
with `outcome`. -/
structure Verdict (id : Rpc.Id) (during : List Event) (outcome : Except Rpc.Failure Json)
    (response : Rpc.Response) : Prop where
  stopped : (∃ e ∈ during, e.stops id) → response = cancelledResponse id
  plain : (¬∃ e ∈ during, e.stops id) → response = plainResponse id outcome

theorem Verdict.id_eq {id : Rpc.Id} {during : List Event} {outcome : Except Rpc.Failure Json}
    {response : Rpc.Response} (h : Verdict id during outcome response) : response.id = id := by
  by_cases hs : ∃ e ∈ during, e.stops id
  · rw [h.stopped hs]
    rfl
  · rw [h.plain hs]
    cases outcome <;> rfl

theorem Worker.responseTo_verdict {w : Worker H} {during : List Event}
    (hs : w.stopped = true ↔ ∃ e ∈ during, e.stops w.request.id)
    (outcome : Except Rpc.Failure Json) :
    Verdict w.request.id during outcome (w.responseTo outcome) := by
  constructor
  · intro h
    unfold responseTo
    rw [if_pos (hs.mpr h)]
    rfl
  · intro h
    unfold responseTo
    rw [if_neg (fun hst => h (hs.mp hst))]
    cases outcome <;> rfl

/-- No event concerns worker `n`. -/
def Unconcerned (n : WorkerId) (events : List Event) : Prop := ∀ e ∈ events, e.worker? ≠ some n

theorem Unconcerned.append {n : WorkerId} {events more : List Event} (h : Unconcerned n events)
    (hm : Unconcerned n more) : Unconcerned n (events ++ more) := by
  intro e he
  rcases List.mem_append.mp he with he | he
  · exact h e he
  · exact hm e he

/-- How far the request `r` of worker `n` has come in the events since it was accepted. -/
inductive Stage (workers : List (Worker H)) (n : WorkerId) (r : Rpc.Request) :
    List Event → Prop where
  | running {w during} (hm : w ∈ workers) (hi : w.id = n) (hq : w.request = r)
      (hr : w.response = none) (hs : w.stopped = true ↔ ∃ e ∈ during, e.stops r.id)
      (hu : Unconcerned n during) : Stage workers n r during
  | decided {w during outcome later response} (hm : w ∈ workers) (hi : w.id = n)
      (hr : w.response = some response) (hv : Verdict r.id during outcome response)
      (hu : Unconcerned n during) (hl : Unconcerned n later) :
      Stage workers n r (during ++ .concluded n outcome :: later)
  | answered {during outcome between response later} (hw : ∀ w ∈ workers, w.id ≠ n)
      (hv : Verdict r.id during outcome response) (hu : Unconcerned n during)
      (hb : Unconcerned n between) (hl : Unconcerned n later) :
      Stage workers n r
        (during ++ .concluded n outcome :: (between ++ .delivered n response :: later))

/-! ### A turn and the workers it does not concern -/

namespace Dispatcher.Turn

variable {d d' : Dispatcher H N} {events : List Event}

/-- A worker that a turn does not concern stays, and is asked to stop if it is undecided and an
event stops its request. -/
theorem keeps (h : d.Turn events d') {w : Worker H} (hw : w ∈ d.workers)
    (hu : Unconcerned w.id events) :
    ∃ w' ∈ d'.workers, w'.id = w.id ∧ w'.request = w.request ∧ w'.response = w.response ∧
      (w.response = none →
        (w'.stopped = true ↔ w.stopped = true ∨ ∃ e ∈ events, e.stops w.request.id)) := by
  cases h with
  | quiet p hn hs hp hw' ha =>
    refine ⟨w.stopIf p, hw' ▸ List.mem_map_of_mem hw, by simp, by simp, by simp, ?_⟩
    intro hr
    rw [w.stopIf_stopped p hr, Bool.or_eq_true, hs]
  | accepted hf hk hp hw' ha =>
    refine ⟨w, hw' ▸ List.mem_append_left _ hw, rfl, rfl, rfl, fun _ => ?_⟩
    simp [Event.stops, ← Incoming.ofFrame_eq_cancel_iff, hf]
  | @concluded v outcome _ hm hr hp hw' ha =>
    have hne : w.id ≠ v.id := fun he => hu _ List.mem_cons_self (congrArg some he.symm)
    refine ⟨w, hw' ▸ List.mem_map.mpr ⟨w, hw, by simp [hne]⟩, rfl, rfl, rfl, fun _ => ?_⟩
    simp [Event.stops]
  | @delivered v response _ hm hr hp hw' ha =>
    have hne : w.id ≠ v.id := fun he => hu _ List.mem_cons_self (congrArg some he.symm)
    refine ⟨w, hw' ▸ List.mem_filter.mpr ⟨hw, by simpa using hne⟩, rfl, rfl, rfl, fun _ => ?_⟩
    simp [Event.stops]

theorem accepted_le (h : d.Turn events d') : d.accepted ≤ d'.accepted := by
  cases h with
  | quiet p hn hs hp hw ha => exact Nat.le_of_eq ha.symm
  | accepted hf hk hp hw ha => exact ha ▸ Nat.le_succ _
  | concluded hm hr hp hw ha => exact Nat.le_of_eq ha.symm
  | delivered hm hr hp hw ha => exact Nat.le_of_eq ha.symm

/-- A turn concerns no worker but those numbered when it is over. -/
theorem numbered (hd : d.Sound) (h : d.Turn events d') {e : Event} (he : e ∈ events) {n : WorkerId}
    (hn : e.worker? = some n) : n < d'.accepted := by
  cases h with
  | quiet p hq hs hp hw ha => simp [hq e he] at hn
  | accepted hf hk hp hw ha =>
    obtain rfl := List.mem_singleton.mp he
    obtain rfl : d.accepted = n := Option.some.inj hn
    exact ha ▸ Nat.lt_succ_self _
  | @concluded w outcome _ hm hr hp hw ha =>
    obtain rfl := List.mem_singleton.mp he
    obtain rfl : w.id = n := Option.some.inj hn
    exact ha ▸ hd.bounded w hm
  | @delivered w response _ hm hr hp hw ha =>
    obtain rfl := List.mem_singleton.mp he
    obtain rfl : w.id = n := Option.some.inj hn
    exact ha ▸ hd.bounded w hm

/-- The workers after a turn are those before it, and the one it accepts. -/
theorem exists_worker (h : d.Turn events d') {w : Worker H} (hw : w ∈ d'.workers) :
    (∃ v ∈ d.workers, v.id = w.id) ∨ w.id = d.accepted := by
  cases h with
  | quiet p hn hs hp hw' ha =>
    rw [hw'] at hw
    obtain ⟨v, hv, rfl⟩ := List.mem_map.mp hw
    exact .inl ⟨v, hv, by simp⟩
  | accepted hf hk hp hw' ha =>
    rw [hw'] at hw
    rcases List.mem_append.mp hw with hw | hw
    · exact .inl ⟨w, hw, rfl⟩
    · rw [List.mem_singleton.mp hw]
      exact .inr rfl
  | @concluded u outcome _ hm hr hp hw' ha =>
    rw [hw'] at hw
    obtain ⟨v, hv, rfl⟩ := List.mem_map.mp hw
    refine .inl ⟨v, hv, ?_⟩
    split <;> rfl
  | delivered hm hr hp hw' ha =>
    rw [hw'] at hw
    exact .inl ⟨w, (List.mem_filter.mp hw).1, rfl⟩

end Dispatcher.Turn

/-! ### The course of every worker -/

namespace Stage

variable {d d' : Dispatcher H N} {events since : List Event} {n : WorkerId} {r : Rpc.Request}

/-- A turn that does not concern a worker leaves it at its stage. -/
theorem unconcerned (h : Stage d.workers n r since) (ht : d.Turn events d') (hn : n < d.accepted)
    (hu : Unconcerned n events) : Stage d'.workers n r (since ++ events) := by
  cases h with
  | @running w _ hm hi hq hr hs hud =>
    obtain ⟨w', hm', hi', hq', hr', hs'⟩ := ht.keeps hm (hi ▸ hu)
    refine .running hm' (hi'.trans hi) (hq'.trans hq) (hr'.trans hr) ?_ (hud.append hu)
    rw [hs' hr, hs, hq]
    simp only [List.mem_append, or_and_right, exists_or]
  | @decided w during outcome later response hm hi hr hv hud hl =>
    obtain ⟨w', hm', hi', -, hr', -⟩ := ht.keeps hm (hi ▸ hu)
    rw [List.append_assoc, List.cons_append]
    exact .decided hm' (hi'.trans hi) (hr'.trans hr) hv hud (hl.append hu)
  | @answered during outcome between response later hw hv hud hb hl =>
    have hw' : ∀ w ∈ d'.workers, w.id ≠ n := by
      intro w hm he
      obtain ⟨v, hv, hi⟩ | hi := ht.exists_worker hm
      · exact hw v hv (hi.trans he)
      · exact Nat.ne_of_lt hn (he.symm.trans hi)
    simp only [List.append_assoc, List.cons_append]
    exact .answered hw' hv hud hb (hl.append hu)

/-- The end of its handler decides a worker. -/
theorem concluded (hd : d.Sound) {w : Worker H} (h : Stage d.workers w.id r since)
    (hm : w ∈ d.workers) (hr : w.response = none) (outcome : Except Rpc.Failure Json)
    (hw : d'.workers = d.workers.map fun v =>
      if v.id = w.id then { v with response := some (w.responseTo outcome) } else v) :
    Stage d'.workers w.id r (since ++ [.concluded w.id outcome]) := by
  cases h with
  | @running v _ hv hi hq _ hs hu =>
    obtain rfl := hd.eq_of_id hv hm hi
    subst hq
    exact .decided (hw ▸ List.mem_map_of_mem hm) (by simp) (by simp)
      (Worker.responseTo_verdict hs outcome) hu (by simp [Unconcerned])
  | @decided v _ _ _ _ hv hi hr' _ _ _ =>
    obtain rfl := hd.eq_of_id hv hm hi
    simp [hr] at hr'
  | answered hn _ _ _ _ => exact absurd rfl (hn w hm)

/-- Writing the response of a decided worker answers its request. -/
theorem delivered (hd : d.Sound) {w : Worker H} {response : Rpc.Response}
    (h : Stage d.workers w.id r since) (hm : w ∈ d.workers) (hr : w.response = some response)
    (hw : d'.workers = d.workers.filter fun v => v.id ≠ w.id) :
    Stage d'.workers w.id r (since ++ [.delivered w.id response]) := by
  cases h with
  | @running v _ hv hi _ hr' _ _ =>
    obtain rfl := hd.eq_of_id hv hm hi
    simp [hr] at hr'
  | @decided v during outcome later response' hv hi hr' hvd hu hl =>
    obtain rfl := hd.eq_of_id hv hm hi
    obtain rfl : response = response' := by simpa [hr] using hr'
    have hgone : ∀ u ∈ d'.workers, u.id ≠ v.id := by
      intro u hu
      rw [hw, List.mem_filter] at hu
      simpa using hu.2
    rw [List.append_assoc, List.cons_append]
    exact .answered hgone hvd hu hl (by simp [Unconcerned])
  | answered hn _ _ _ _ => exact absurd rfl (hn w hm)

end Stage

/-- The place in the record where worker `n` took over the request `r`, what came before and what
has come since. -/
structure Acceptance (trace : List Event) (n : WorkerId) (before : List Event) (frame : Bytes)
    (r : Rpc.Request) (since : List Event) : Prop where
  trace_eq : trace = before ++ .received frame (.accepted n) :: since
  request : Incoming.ofFrame frame = .request r
  unconcerned : Unconcerned n before

/-- The workers on record are those numbered so far, and each has a course. -/
structure Tracked (trace : List Event) (d : Dispatcher H N) : Prop where
  numbered : ∀ e ∈ trace, ∀ n, e.worker? = some n → n < d.accepted
  course : ∀ n < d.accepted, ∃ before frame r since,
    Acceptance trace n before frame r since ∧ Stage d.workers n r since

namespace Tracked

variable {trace events : List Event} {d d' : Dispatcher H N}

theorem fresh : Tracked [] ({} : Dispatcher H N) :=
  ⟨by simp, fun n hn => absurd hn (Nat.not_lt_zero n)⟩

/-- The course of a worker goes on with a turn. -/
theorem extend (ht : Tracked trace d) {n : WorkerId} (hn : n < d.accepted)
    (h : ∀ r since, Stage d.workers n r since → Stage d'.workers n r (since ++ events)) :
    ∃ before frame r since,
      Acceptance (trace ++ events) n before frame r since ∧ Stage d'.workers n r since := by
  obtain ⟨before, frame, r, since, ha, hs⟩ := ht.course n hn
  refine ⟨before, frame, r, since ++ events, ⟨?_, ha.request, ha.unconcerned⟩, h r since hs⟩
  rw [ha.trace_eq, List.append_assoc, List.cons_append]

theorem turn (hd : d.Sound) (ht : Tracked trace d) (h : d.Turn events d') :
    Tracked (trace ++ events) d' := by
  refine ⟨?_, ?_⟩
  · intro e he n hen
    rcases List.mem_append.mp he with he | he
    · exact Nat.lt_of_lt_of_le (ht.numbered e he n hen) h.accepted_le
    · exact h.numbered hd he hen
  have hother : ∀ n < d.accepted, Unconcerned n events → ∃ before frame r since,
      Acceptance (trace ++ events) n before frame r since ∧ Stage d'.workers n r since :=
    fun n hn hu => ht.extend hn fun r since hs => hs.unconcerned h hn hu
  intro n hlt
  cases h with
  | quiet p hn hs hp hw ha =>
    exact hother n (ha ▸ hlt) fun e he hen => by simp [hn e he] at hen
  | @accepted frame r handler _ hf hk hp hw ha =>
    rw [ha] at hlt
    rcases Nat.lt_succ_iff_lt_or_eq.mp hlt with hlt | rfl
    · refine hother n hlt ?_
      intro e he hen
      obtain rfl := List.mem_singleton.mp he
      exact Nat.ne_of_gt hlt (Option.some.inj hen)
    · refine ⟨trace, frame, r, [], ⟨rfl, hf, ?_⟩, ?_⟩
      · intro e he hen
        exact Nat.lt_irrefl _ (ht.numbered e he _ hen)
      · exact .running (hw ▸ List.mem_append_right _ (List.mem_singleton_self _)) rfl rfl rfl
          (by simp) (by simp [Unconcerned])
  | @concluded w outcome _ hm hr hp hw ha =>
    rw [ha] at hlt
    by_cases he : w.id = n
    · subst he
      exact ht.extend hlt fun r since hs => hs.concluded hd hm hr outcome hw
    · exact hother n hlt (by simpa [Unconcerned, Event.worker?] using he)
  | @delivered w response _ hm hr hp hw ha =>
    rw [ha] at hlt
    by_cases he : w.id = n
    · subst he
      exact ht.extend hlt fun r since hs => hs.delivered hd hm hr hw
    · exact hother n hlt (by simpa [Unconcerned, Event.worker?] using he)

end Tracked

theorem Service.Run.tracked {trace : List Event} {s : Service H N} (h : Run trace s) :
    Tracked trace s.dispatcher :=
  h.turn_induction .fresh fun hd ht h => ht.turn hd h

end EditorSession.Dispatch
