import EditorSession.Proofs.Document.Rounds
import Mathlib.Data.List.Nodup

/-! Who is registered. The store keeps every listener that was ever added, under its number, and
marks those that were removed; so it can be told from the record who has a turn, and who is passed
over. -/

namespace EditorSession.Document

/-- The store keeps the listeners that have been added, and knows which were removed. -/
structure Roster (trace : List Note) (s : Store) : Prop where
  roll : s.roll = (trace.filterMap Note.added?).map fun l => (l, decide (.removed l ∈ trace))
  numbered : trace.filterMap Note.added? = List.range' 1 s.listeners.length
  known : ∀ l, .removed l ∈ trace → l ∈ trace.filterMap Note.added?

namespace Roster

variable {trace notes : List Note} {s s' : Store}

theorem empty : Roster [] {} := ⟨rfl, rfl, by simp⟩

theorem registered (h : Roster trace s) : s.registered = registeredIn trace := by
  rw [s.registered_eq, h.roll, List.filter_map, List.map_map, registeredIn]
  have hid : ((fun r : ListenerId × Bool => r.1) ∘ fun l => (l, decide (Note.removed l ∈ trace))) =
      id := rfl
  rw [hid, List.map_id]
  apply List.filter_congr
  intro l _
  simp

theorem listens_iff (h : Roster trace s) {l : ListenerId} :
    s.listens l = true ↔ l ∈ registeredIn trace := by
  rw [← Store.mem_registered_iff, h.registered]

/-- Those who were registered at an earlier moment and do not listen any more have been removed
since. -/
theorem removed_since {before since : List Note} (h : Roster (before ++ since) s) {l : ListenerId}
    (hl : l ∈ registeredIn before) (hn : s.listens l = false) : .removed l ∈ since := by
  obtain ⟨ha, hr⟩ := List.mem_filter.mp hl
  by_contra hs
  have hm : l ∈ registeredIn (before ++ since) := by
    apply List.mem_filter.mpr
    refine ⟨?_, ?_⟩
    · rw [List.filterMap_append]
      exact List.mem_append_left _ ha
    · simpa [hs] using hr
  rw [h.listens_iff.mpr hm] at hn
  cases hn

theorem nodup {before after : List Note} (h : Roster (before ++ after) s) :
    (registeredIn before).Nodup := by
  have hn : ((before ++ after).filterMap Note.added?).Nodup := by
    rw [h.numbered]
    exact List.nodup_range'
  rw [List.filterMap_append] at hn
  exact hn.of_append_left.filter _

/-- Nobody comes or goes. -/
theorem keep (h : Roster trace s) (hr : s'.roll = s.roll)
    (hn : ∀ n ∈ notes, n.added? = none ∧ ∀ l, n ≠ .removed l) : Roster (trace ++ notes) s' := by
  have ha : (trace ++ notes).filterMap Note.added? = trace.filterMap Note.added? := by
    rw [List.filterMap_append, List.filterMap_eq_nil_iff.mpr fun n hm => (hn n hm).1,
      List.append_nil]
  have hm : ∀ l, .removed l ∈ trace ++ notes ↔ .removed l ∈ trace := by
    intro l
    rw [List.mem_append, or_iff_left fun hm => (hn _ hm).2 l rfl]
  have hlen : s'.listeners.length = s.listeners.length := by
    have hl := congrArg List.length hr
    rwa [Store.roll, Store.roll, List.length_map, List.length_map] at hl
  refine ⟨?_, ?_, ?_⟩
  · rw [ha, hr, h.roll]
    simp only [hm]
  · rw [ha, hlen, h.numbered]
  · intro l hl
    rw [ha]
    exact h.known l ((hm l).mp hl)

theorem subscribe (h : Roster trace s) :
    Roster (trace ++ [.added s.addListener.2]) s.addListener.1 := by
  have hnew : .removed s.addListener.2 ∉ trace := by
    intro hr
    have hk := h.known _ hr
    rw [h.numbered, List.mem_range'_1] at hk
    exact Nat.lt_irrefl _ (Nat.lt_of_lt_of_le hk.2 (Nat.le_of_eq (Nat.add_comm _ _)))
  have ha : (trace ++ [Note.added s.addListener.2]).filterMap Note.added? =
      trace.filterMap Note.added? ++ [s.addListener.2] := List.filterMap_append
  have hm : ∀ l, .removed l ∈ trace ++ [Note.added s.addListener.2] ↔ .removed l ∈ trace := by
    simp
  refine ⟨?_, ?_, ?_⟩
  · rw [ha, List.map_append]
    simp only [hm]
    rw [← h.roll]
    simp [Store.roll, Store.addListener, show Note.removed (s.listeners.length + 1) ∉ trace from hnew]
  · rw [ha, h.numbered]
    simp [Store.addListener, List.range'_1_concat, Nat.add_comm]
  · intro l hl
    rw [ha]
    exact List.mem_append_left _ (h.known l ((hm l).mp hl))

theorem unsubscribe (h : Roster trace s) {l : ListenerId} (hl : s.listens l = true)
    (running : Option ListenerId) :
    Roster (trace ++ [.removed l]) (s.removeListener l running).1 := by
  have ha : (trace ++ [Note.removed l]).filterMap Note.added? = trace.filterMap Note.added? := by
    simp [Note.added?]
  have hs : (s.removeListener l running).1 =
      s.modifyListener l fun x => { x with removed := true } := by
    rw [Store.removeListener, if_pos hl]
  refine ⟨?_, ?_, ?_⟩
  · have hroll : Store.roll (s.removeListener l running).1 =
        s.roll.map fun r => if r.1 = l then (r.1, true) else r := by
      rw [hs, Store.roll, Store.roll, Store.modifyListener, List.map_map, List.map_map]
      apply List.map_congr_left
      intro x _
      dsimp only [Function.comp_apply]
      split <;> rfl
    rw [hroll, h.roll, ha, List.map_map]
    apply List.map_congr_left
    intro x _
    by_cases hx : x = l
    · simp [hx]
    · simp [hx]
  · rw [ha, h.numbered, hs]
    simp [Store.modifyListener]
  · intro x hx
    rw [ha]
    rcases List.mem_append.mp hx with hx | hx
    · exact h.known x hx
    · obtain rfl : x = l := by simpa using hx
      exact (List.mem_filter.mp (h.listens_iff.mp hl)).1

end Roster

/-! ### A listener returns -/

namespace Round

variable {id : OperationId} {d d' : Delivery} {before since : List Note} {s : Store} {step : Step}

/-- Those who are waiting and do not listen any more have been removed. -/
theorem removed (h : Round id d.event (registeredIn before) since d.waiting)
    (hroster : Roster (before ++ .raised id d.event :: since) s) {l : ListenerId}
    (hl : l ∈ d.waiting) (hn : s.listens l = false) : .removed l ∈ since := by
  have hm : l ∈ registeredIn before := h.sublist.mem (List.mem_append_right _ hl)
  simpa using hroster.removed_since hm hn

/-- It is the turn of the next that still listens. -/
theorem next (h : Round id d.event (registeredIn before) since d.waiting)
    (hroster : Roster (before ++ .raised id d.event :: since) s) (hc : s.Continues d step)
    (failure : Option Bytes) (hs : step.2.1 = .suspended (.delivery d')) :
    d'.event = d.event ∧ .removed d'.listener ∉ since ++ [.left id d.listener failure] ∧
      Round id d.event (registeredIn before) (since ++ [.left id d.listener failure])
        (d'.listener :: d'.waiting) := by
  cases hc with
  | ended _ _ hd => exact absurd hs (hd d')
  | next d'' skipped he hw hskip hx _ hd =>
    obtain rfl : d'' = d' := by
      rw [hd, Status.suspended.injEq, Suspended.delivery.injEq] at hs
      exact hs
    have hr : Round id d.event (registeredIn before) since (d''.listener :: d''.waiting) := by
      have hround := h
      rw [hw] at hround
      apply hround.skip
      intro l hl
      exact h.removed hroster (hw ▸ List.mem_append_left _ hl) (hskip l hl)
    refine ⟨he, ?_, hr.meanwhile (by simp [Note.round?])⟩
    have hm := (List.mem_filter.mp (hroster.listens_iff.mp hx)).2
    simp only [List.mem_append, List.mem_cons, reduceCtorEq, false_or, not_or, decide_eq_true_eq,
      List.not_mem_nil, or_false] at hm ⊢
    exact hm.2

/-- Everyone has had a turn. -/
theorem ends (h : Round id d.event (registeredIn before) since d.waiting)
    (hroster : Roster (before ++ .raised id d.event :: since) s) (hc : s.Continues d step)
    (failure : Option Bytes) (hs : ∀ d', step.2.1 ≠ .suspended (.delivery d')) :
    Round id d.event (registeredIn before) (since ++ [.left id d.listener failure]) [] := by
  cases hc with
  | ended hskip _ _ =>
    have hround : Round id d.event (registeredIn before) since (d.waiting ++ []) := by
      rw [List.append_nil]
      exact h
    have hr := hround.skip fun l hl => h.removed hroster hl (hskip l hl)
    exact hr.meanwhile (by simp [Note.round?])
  | next d'' _ _ _ _ _ _ hd => exact absurd hd (hs d'')

end Round

end EditorSession.Document
