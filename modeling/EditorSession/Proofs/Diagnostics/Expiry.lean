import EditorSession.Proofs.Diagnostics.Timers

/-! Expiries that come late. A timer may go off after it was cancelled, and all that is compared then
is its generation. The generations of a document go up until it is cleared: so long a timer starts no
run but the one it was armed for. Then they start again, and a timer from before may start a run that
another trigger has scheduled. -/

namespace EditorSession.Diagnostics

open Document (key)

/-- A pipeline with the timers that were armed. -/
structure Clockwork where
  pipeline : Pipeline
  armed : List Timer := []
  /-- Those of them whose document was not cleared since. -/
  fresh : List Timer := []

namespace Clockwork

/-- Documents are called on, and timers go off at any time, also when they were cancelled. -/
inductive Move : Clockwork → Clockwork → Prop where
  | trigger (w now uri) :
      Move w
        { pipeline := w.pipeline.trigger now uri
          armed := w.armed ++ [w.pipeline.armedBy now uri]
          fresh := w.fresh ++ [w.pipeline.armedBy now uri] }
  | computeNow (w uri) : Move w { w with pipeline := w.pipeline.computeNow uri }
  | clear (w uri) :
      Move w
        { w with
          pipeline := (w.pipeline.clear uri).1
          fresh := w.fresh.filter fun t => key t.uri ≠ key uri }
  | expire {w t} (ht : t ∈ w.armed) :
      Move w { w with pipeline := w.pipeline.expire t.uri t.generation }

inductive Reachable (options : Options) : Clockwork → Prop where
  | start : Reachable options { pipeline := { options } }
  | move {w w'} (h : Reachable options w) (hm : Move w w') : Reachable options w'

variable {options : Options} {w w' : Clockwork} {t : Timer} {p p' : Pipeline}

/-- The run of its document is of no earlier generation than the timer, and if it is of the same and
scheduled, this is the timer that it waits for. -/
def Precedes (t : Timer) (p : Pipeline) : Prop :=
  ∃ run, Table.get? (key t.uri) p.runs = some run ∧ t.generation ≤ run.generation ∧
    (run.generation = t.generation → run.state = .scheduled → run.timer = some t.id)

theorem Precedes.of_runs (h : Precedes t p)
    (hr : Table.get? (key t.uri) p'.runs = Table.get? (key t.uri) p.runs) : Precedes t p' := by
  obtain ⟨run, hg, hrun⟩ := h
  exact ⟨run, hr.trans hg, hrun⟩

/-- A run of the next generation takes the place of the run of a document. -/
theorem Precedes.renew (h : Precedes t p) {uri : Bytes} (he : p.Elsewhere uri p')
    {run : Run} (hg : Table.get? (key uri) p'.runs = some run)
    (hgen : run.generation = (p.run uri).generation + 1) : Precedes t p' := by
  by_cases hk : key t.uri = key uri
  · obtain ⟨old, hold, hle, -⟩ := h
    rw [Pipeline.run, ← hk, hold, Option.getD_some] at hgen
    refine ⟨run, hk ▸ hg, by omega, ?_⟩
    intro heq
    omega
  · exact h.of_runs (he.runs _ hk)

theorem computing_run (p : Pipeline) (uri : Bytes) (generation : Nat) :
    Table.get? (key uri) (p.startComputation uri generation).runs =
      some { state := .computing, generation, computation := some p.started } :=
  Table.get?_set_self _ _ _

theorem Precedes.expire (h : Precedes t p) (ho : p.shut = false) (uri : Bytes)
    (generation : Nat) : Precedes t (p.expire uri generation) := by
  rcases Pipeline.expire_cases ho uri generation with ⟨run, hg, rfl, -, he⟩ | ⟨he, -⟩
  · rw [he]
    by_cases hk : key t.uri = key uri
    · obtain ⟨old, hold, hle, -⟩ := h
      rw [hk, hg, Option.some.injEq] at hold
      subst hold
      have hrun := computing_run p uri run.generation
      rw [← hk] at hrun
      refine ⟨_, hrun, hle, ?_⟩
      intro _ hs
      cases hs
    · exact h.of_runs (Table.get?_set_ne hk _ _)
  · rwa [he]

/-- Timers have numbers of their own, and those whose document was not cleared precede its run. -/
structure Ordered (options : Options) (w : Clockwork) : Prop where
  ready : w.pipeline.Ready options
  subset : w.fresh ⊆ w.armed
  nodup : (w.armed.map (·.id)).Nodup
  below : ∀ t ∈ w.armed, t.id < w.pipeline.armed
  precedes : ∀ t ∈ w.fresh, Precedes t w.pipeline

theorem Ordered.trigger (h : Ordered options w) (now : Int) (uri : Bytes) :
    Ordered options
      { pipeline := w.pipeline.trigger now uri
        armed := w.armed ++ [w.pipeline.armedBy now uri]
        fresh := w.fresh ++ [w.pipeline.armedBy now uri] } := by
  obtain ⟨hr, he, -⟩ := (h.ready.trigger now uri).1
  have hp := Pipeline.trigger_of_open h.ready.on now uri
  have hrun : Table.get? (key uri) (w.pipeline.trigger now uri).runs = some
      ⟨.scheduled, (w.pipeline.run uri).generation + 1, some w.pipeline.armed, none⟩ := by
    rw [hp]
    exact Table.get?_set_self _ _ _
  refine ⟨hr, ?_, ?_, ?_, ?_⟩
  · intro t ht
    exact List.mem_append.mpr ((List.mem_append.mp ht).imp_left fun ht => h.subset ht)
  · rw [List.map_append, List.nodup_append]
    refine ⟨h.nodup, List.nodup_singleton _, ?_⟩
    rintro a ha b hb rfl
    obtain ⟨t, ht, rfl⟩ := List.mem_map.mp ha
    rw [List.map_singleton, List.mem_singleton] at hb
    exact Nat.ne_of_lt (h.below t ht) hb
  · intro t ht
    change t.id < (w.pipeline.trigger now uri).armed
    rw [hp]
    rcases List.mem_append.mp ht with ht | ht
    · exact Nat.lt_succ_of_lt (h.below t ht)
    · rw [List.mem_singleton.mp ht]
      exact Nat.lt_succ_self _
  · intro t ht
    rcases List.mem_append.mp ht with ht | ht
    · exact (h.precedes t ht).renew he hrun rfl
    · rw [List.mem_singleton.mp ht]
      exact ⟨_, hrun, Nat.le_refl _, fun _ _ => rfl⟩

theorem Ordered.move (h : Ordered options w) (hm : Move w w') : Ordered options w' := by
  have ho := h.ready.on
  cases hm with
  | trigger now uri => exact h.trigger now uri
  | computeNow uri =>
    obtain ⟨hr, he, -⟩ := (h.ready.computeNow uri).1
    rw [Pipeline.computeNow_of_open ho] at hr he ⊢
    exact ⟨hr, h.subset, h.nodup, h.below, fun t ht =>
      (h.precedes t ht).renew he (computing_run _ uri _) rfl⟩
  | clear uri =>
    obtain ⟨hr, he, -⟩ := (h.ready.clear uri).1
    rw [Pipeline.clear_of_open ho] at hr he ⊢
    refine ⟨hr, fun t ht => h.subset (List.mem_filter.mp ht).1, h.nodup, h.below, ?_⟩
    intro t ht
    obtain ⟨ht, hk⟩ := List.mem_filter.mp ht
    exact (h.precedes t ht).of_runs (he.runs _ (of_decide_eq_true hk))
  | @expire t ht =>
    have hc : w.pipeline.Carries options (fun _ => none) (w.pipeline.expire t.uri t.generation) :=
      h.ready.expire t.uri t.generation
    refine ⟨hc.ready, h.subset, h.nodup, ?_, fun x hx => (h.precedes x hx).expire ho _ _⟩
    intro x hx
    change x.id < (w.pipeline.expire t.uri t.generation).armed
    rcases Pipeline.expire_cases ho t.uri t.generation with ⟨-, -, -, -, he⟩ | ⟨he, -⟩
    · rw [he]
      exact h.below x hx
    · rw [he]
      exact h.below x hx

theorem Reachable.ordered (h : Reachable options w) : Ordered options w := by
  induction h with
  | start => exact ⟨Pipeline.ready_empty options, nofun, List.nodup_nil, nofun, nofun⟩
  | move _ hm ih => exact ih.move hm

/-- As long as its document is not cleared, a timer starts no run but the one that was scheduled when
this timer, and no other, was armed. -/
theorem Reachable.starts_own (h : Reachable options w) (ht : t ∈ w.fresh)
    (hs : w.pipeline.expire t.uri t.generation ≠ w.pipeline) :
    (w.pipeline.run t.uri).state = .scheduled ∧
      ∀ other ∈ w.armed, (w.pipeline.run t.uri).timer = some other.id ↔ other = t := by
  obtain ⟨hr, hsub, hnodup, -, hp⟩ := h.ordered
  rcases Pipeline.expire_cases hr.on t.uri t.generation with
    ⟨run, hg, hgen, hscheduled, -⟩ | ⟨he, -⟩
  · obtain ⟨run', hg', -, hown⟩ := hp t ht
    rw [hg, Option.some.injEq] at hg'
    subst hg'
    rw [Pipeline.run, hg, Option.getD_some, hown hgen hscheduled]
    refine ⟨hscheduled, fun other ho => ⟨?_, fun he => he ▸ rfl⟩⟩
    intro hi
    exact (List.inj_on_of_nodup_map hnodup (hsub ht) ho (Option.some.inj hi)).symm
  · exact absurd he hs

/-- After a clearing it may start the run of another trigger. -/
theorem exists_starts_other : ∃ w t, Reachable {} w ∧ t ∈ w.armed ∧
    (w.pipeline.expire t.uri t.generation).state t.uri = .computing ∧
    (w.pipeline.run t.uri).state = .scheduled ∧ (w.pipeline.run t.uri).timer ≠ some t.id := by
  let uri : Bytes := []
  refine ⟨_, ⟨0, uri, 1, 300⟩,
    ((Reachable.start.move (.trigger _ 0 uri)).move (.clear _ uri)).move (.trigger _ 0 uri), ?_⟩
  decide

end Clockwork

end EditorSession.Diagnostics
