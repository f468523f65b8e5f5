import EditorSession.Proofs.Diagnostics.Run
import Mathlib.Data.List.Basic

/-! Nothing is published late. A computation that is not stopped is the last thing that happened to
its document: nothing was started for it since, and it was not cleared. What it decides to publish
goes out before anything else is decided; so the publications for a document come in the order in
which their computations were started, and none comes after a clearing of the document. Generation
numbers do not enter: they start again when a document is cleared. -/

namespace EditorSession.Diagnostics

open Document (key)

variable {trace : List Record} {a : ComputationId}

/-- What occurs in this order in a record with one more entry occurred before, or ends with that
entry. -/
theorem sublist_snoc {l : List Record} {r x : Record} :
    (l ++ [x]).Sublist (trace ++ [r]) ↔ (l ++ [x]).Sublist trace ∨ x = r ∧ l.Sublist trace := by
  have h : (l ++ [x]).reverse.Sublist (trace ++ [r]).reverse ↔
      (l ++ [x]).reverse.Sublist trace.reverse ∨ x = r ∧ l.reverse.Sublist trace.reverse := by
    simp only [List.reverse_append, List.reverse_cons, List.reverse_nil, List.nil_append,
      List.singleton_append, List.cons_sublist_cons']
  simpa only [List.reverse_sublist] using h

theorem pair_snoc {r x y : Record} :
    [x, y].Sublist (trace ++ [r]) ↔ [x, y].Sublist trace ∨ y = r ∧ x ∈ trace := by
  rw [← List.singleton_sublist]
  exact sublist_snoc (l := [x])

theorem triple_snoc {r x y z : Record} :
    [x, y, z].Sublist (trace ++ [r]) ↔ [x, y, z].Sublist trace ∨ z = r ∧ [x, y].Sublist trace :=
  sublist_snoc (l := [x, y])

theorem quadruple_snoc {r x y z t : Record} :
    [x, y, z, t].Sublist (trace ++ [r]) ↔
      [x, y, z, t].Sublist trace ∨ t = r ∧ [x, y, z].Sublist trace :=
  sublist_snoc (l := [x, y, z])

/-- The account of what a run publishes. -/
structure NeverLate (trace : List Record) : Prop where
  /-- Every computation has a number of its own. -/
  numbered : ∀ a u v, ¬[.started a u, .started a v].Sublist trace
  /-- Only computations publish that were started. -/
  begun : ∀ a p, .published a p ∈ trace → ∃ u, .started a u ∈ trace
  once : ∀ a p q, ¬[.published a p, .published a q].Sublist trace
  /-- Nothing is published after a computation for the same document that was started later. -/
  overtaken : ∀ a u b v p q, key u = key v →
    ¬[.started a u, .started b v, .published b p, .published a q].Sublist trace
  /-- Nothing is published after the document was cleared, and so after the empty publication that
  follows a clearing. -/
  cleared : ∀ a u v p, key u = key v →
    ¬[.started a u, .cleared v, .published a p].Sublist trace
  /-- Once the pipeline is shut there is at most what had been decided before, -/
  shut : ∀ a p, [.shut, .published a p].Sublist trace → [.decided a, .shut].Sublist trace
  /-- which is a single publication. -/
  last : ∀ a p b q, ¬[.shut, .published a p, .published b q].Sublist trace
  /-- No call returns before the pipeline is shut, -/
  closed : ∀ before waited, before ++ [.returned waited] <+: trace → .shut ∈ before
  /-- and once any of them has returned nothing more is decided. -/
  undecided : ∀ waited a, ¬[.returned waited, .decided a].Sublist trace
  /-- Nothing is published after the call that has shut the pipeline has returned. One that finds it
  shut returns at once, so what had been decided may go out later, while the first call waits. -/
  returned : ∀ a p, ¬[.returned true, .published a p].Sublist trace

/-! ### What may still be published -/

/-- The document that a record takes over from the computations started for it before. -/
def Record.takes? : Record → Option Bytes
  | started _ uri => some (key uri)
  | cleared uri => some (key uri)
  | _ => none

/-- Nothing has taken over the document of a computation since it was started. -/
def Current (trace : List Record) (a : ComputationId) : Prop :=
  ∀ u r, [.started a u, r].Sublist trace → r.takes? ≠ some (key u)

/-- A computation has decided to publish and can go through with it. -/
structure Due (trace : List Record) (a : ComputationId) : Prop where
  begun : ∃ u, .started a u ∈ trace
  unpublished : ∀ p, .published a p ∉ trace
  ahead : ∀ u b v p, key u = key v →
    ¬[.started a u, .started b v, .published b p].Sublist trace
  uncleared : ∀ u v, key u = key v → ¬[.started a u, .cleared v].Sublist trace
  decided : .decided a ∈ trace
  inTime : .shut ∈ trace → [.decided a, .shut].Sublist trace
  only : ∀ b p, ¬[.shut, .published b p].Sublist trace
  awaited : .returned true ∉ trace

theorem Current.append (h : Current trace a) {r : Record}
    (hr : ∀ u, .started a u ∈ trace → r.takes? ≠ some (key u)) : Current (trace ++ [r]) a := by
  intro u x hx
  rcases pair_snoc.mp hx with hx | ⟨rfl, hs⟩
  · exact h u x hx
  · exact hr u hs

/-- A current computation that decides to publish can go through with it. -/
theorem Current.due (h : Current trace a) (hb : ∃ u, .started a u ∈ trace)
    (hu : ∀ p, .published a p ∉ trace) (hs : .shut ∉ trace) (hr : .returned true ∉ trace) :
    Due (trace ++ [.decided a]) a where
  begun := by
    obtain ⟨u, hu⟩ := hb
    exact ⟨u, List.mem_append_left _ hu⟩
  unpublished := by simpa using hu
  ahead := by
    intro u b v p hk hl
    rw [triple_snoc] at hl
    simp only [reduceCtorEq, false_and, or_false] at hl
    have hp : [Record.started a u, .started b v].Sublist
        [.started a u, .started b v, .published b p] := by simp
    exact h u _ (hp.trans hl) (by rw [Record.takes?, hk])
  uncleared := by
    intro u v hk hl
    rw [pair_snoc] at hl
    simp only [reduceCtorEq, false_and, or_false] at hl
    exact h u _ hl (by rw [Record.takes?, hk])
  decided := by simp
  inTime := by simp [hs]
  only := by
    intro b p hl
    have hm := hl.subset List.mem_cons_self
    simp [hs] at hm
  awaited := by simpa using hr

/-- While a publication is on its way out, computations may be started, the pipeline may be shut, and
a call may find it shut. -/
theorem Due.append (h : Due trace a) {r : Record}
    (hr : (∃ b v, r = .started b v) ∨ r = .shut ∨ r = .returned false) :
    Due (trace ++ [r]) a where
  begun := by
    obtain ⟨u, hu⟩ := h.begun
    exact ⟨u, List.mem_append_left _ hu⟩
  unpublished := by
    intro p hp
    rcases List.mem_append.mp hp with hp | hp
    · exact h.unpublished p hp
    · rcases hr with ⟨b, v, rfl⟩ | rfl | rfl <;> simp at hp
  ahead := by
    intro u b v p hk hl
    rcases triple_snoc.mp hl with hl | ⟨rfl, -⟩
    · exact h.ahead u b v p hk hl
    · simp at hr
  uncleared := by
    intro u v hk hl
    rcases pair_snoc.mp hl with hl | ⟨rfl, -⟩
    · exact h.uncleared u v hk hl
    · simp at hr
  decided := List.mem_append_left _ h.decided
  inTime := by
    intro hs
    rcases List.mem_append.mp hs with hs | hs
    · exact (h.inTime hs).trans (List.sublist_append_left trace [r])
    · rw [pair_snoc]
      exact .inr ⟨List.mem_singleton.mp hs, h.decided⟩
  only := by
    intro b p hl
    rcases pair_snoc.mp hl with hl | ⟨rfl, -⟩
    · exact h.only b p hl
    · simp at hr
  awaited := by
    intro hs
    rcases List.mem_append.mp hs with hs | hs
    · exact h.awaited hs
    · rcases hr with ⟨b, v, rfl⟩ | rfl | rfl <;> simp at hs

theorem NeverLate.empty : NeverLate [] := by constructor <;> simp

theorem NeverLate.shut_mem (h : NeverLate trace) {waited : Bool} (hr : .returned waited ∈ trace) :
    .shut ∈ trace := by
  obtain ⟨before, after, rfl⟩ := List.mem_iff_append.mp hr
  exact List.mem_append_left _ (h.closed before waited ⟨after, by simp⟩)

theorem NeverLate.append (h : NeverLate trace) {r : Record}
    (hs : ∀ a u, r = .started a u → ∀ v, .started a v ∉ trace)
    (hp : ∀ a p, r = .published a p → Due trace a) (hd : ∀ a, r = .decided a → .shut ∉ trace)
    (hr : ∀ waited, r = .returned waited → .shut ∈ trace) : NeverLate (trace ++ [r]) where
  numbered := by
    intro a u v hl
    rcases pair_snoc.mp hl with hl | ⟨rfl, hm⟩
    · exact h.numbered a u v hl
    · exact hs a v rfl u hm
  begun := by
    intro a p hm
    obtain ⟨u, hu⟩ : ∃ u, .started a u ∈ trace := by
      rcases List.mem_append.mp hm with hm | hm
      · exact h.begun a p hm
      · exact (hp a p (List.mem_singleton.mp hm).symm).begun
    exact ⟨u, List.mem_append_left _ hu⟩
  once := by
    intro a p q hl
    rcases pair_snoc.mp hl with hl | ⟨rfl, hm⟩
    · exact h.once a p q hl
    · exact (hp a q rfl).unpublished p hm
  overtaken := by
    intro a u b v p q hk hl
    rcases quadruple_snoc.mp hl with hl | ⟨rfl, hb⟩
    · exact h.overtaken a u b v p q hk hl
    · exact (hp a q rfl).ahead u b v p hk hb
  cleared := by
    intro a u v p hk hl
    rcases triple_snoc.mp hl with hl | ⟨rfl, hc⟩
    · exact h.cleared a u v p hk hl
    · exact (hp a p rfl).uncleared u v hk hc
  shut := by
    intro a p hl
    have hd : [Record.decided a, .shut].Sublist trace := by
      rcases pair_snoc.mp hl with hl | ⟨rfl, hm⟩
      · exact h.shut a p hl
      · exact (hp a p rfl).inTime hm
    exact hd.trans (List.sublist_append_left trace [r])
  last := by
    intro a p b q hl
    rcases triple_snoc.mp hl with hl | ⟨rfl, hm⟩
    · exact h.last a p b q hl
    · exact (hp b q rfl).only a p hm
  closed := by
    intro before waited hb
    rcases List.prefix_concat_iff.mp hb with he | hb
    · obtain ⟨rfl, hx⟩ := List.append_inj' he rfl
      exact hr waited (List.singleton_inj.mp hx).symm
    · exact h.closed before waited hb
  undecided := by
    intro waited a hl
    rcases pair_snoc.mp hl with hl | ⟨rfl, hm⟩
    · exact h.undecided waited a hl
    · exact hd a rfl (h.shut_mem hm)
  returned := by
    intro a p hl
    rcases pair_snoc.mp hl with hl | ⟨rfl, hm⟩
    · exact h.returned a p hl
    · exact (hp a p rfl).awaited hm

/-! ### The account along a run -/

/-- What the record and the state have to do with each other. -/
structure Scene.Account (trace : List Record) (w : Scene) : Prop where
  sound : w.pipeline.Sound
  below : ∀ a u, .started a u ∈ trace → a < w.pipeline.started
  unique : ∀ a u v, .started a u ∈ trace → .started a v ∈ trace → u = v
  begun : ∀ c ∈ w.pipeline.computations, .started c.id c.uri ∈ trace
  unpublished : ∀ c ∈ w.pipeline.computations, ∀ p, .published c.id p ∉ trace
  current : ∀ c ∈ w.pipeline.computations, c.stopped = false → Current trace c.id
  due : ∀ a p, w.outgoing = some (.result a p) → Due trace a
  finished : ∀ a p, w.outgoing = some (.result a p) → ∀ c ∈ w.pipeline.computations, c.id ≠ a
  closing : w.closing = true → w.pipeline.shut = true
  shut : .shut ∈ trace → w.pipeline.shut = true
  returned : .returned true ∈ trace → w.pipeline.shut = true ∧ w.pipeline.computations = []
  never : NeverLate trace

namespace Scene.Account

variable {w w' : Scene} {p' : Pipeline}

theorem continues (h : w.Account trace) (hg : w.pipeline.Continues p')
    (hsh : w.pipeline.shut = true → p'.shut = true) (hs : p'.Sound) :
    ({ w with pipeline := p' } : Scene).Account trace where
  sound := hs
  below := by
    rw [hg.started]
    exact h.below
  unique := h.unique
  begun := by
    intro c' hc'
    obtain ⟨c, hc, hi, hu, -⟩ := hg.carries c' hc'
    rw [hi, hu]
    exact h.begun c hc
  unpublished := by
    intro c' hc'
    obtain ⟨c, hc, hi, -⟩ := hg.carries c' hc'
    rw [hi]
    exact h.unpublished c hc
  current := by
    intro c' hc' hs
    obtain ⟨c, hc, hi, -, hs'⟩ := hg.carries c' hc'
    rw [hi]
    exact h.current c hc (hs' hs)
  due := h.due
  finished := by
    intro a p ho c' hc'
    obtain ⟨c, hc, hi, -⟩ := hg.carries c' hc'
    rw [hi]
    exact h.finished a p ho c hc
  closing := fun hc => hsh (h.closing hc)
  shut := fun hs => hsh (h.shut hs)
  returned := by
    intro hr
    obtain ⟨hs, hn⟩ := h.returned hr
    refine ⟨hsh hs, List.eq_nil_iff_forall_not_mem.mpr ?_⟩
    intro c' hc'
    obtain ⟨c, hc, -⟩ := hg.carries c' hc'
    rw [hn] at hc
    cases hc
  never := h.never

theorem goesOn (h : w.Account trace) (hg : w.pipeline.GoesOn p') (hs : p'.Sound) :
    ({ w with pipeline := p' } : Scene).Account trace :=
  h.continues hg.toContinues hg.shut.trans hs

/-- A computation is started. Those of its document are stopped, and a publication on its way out
stays due. -/
theorem starts (h : w.Account trace) {uri : Bytes} (hp : w.pipeline.Starts uri p')
    (hs : p'.Sound) :
    ({ w with pipeline := p' } : Scene).Account (trace ++ [.started w.pipeline.started uri]) := by
  have hnew : ∀ u, .started w.pipeline.started u ∉ trace :=
    fun u hu => Nat.lt_irrefl _ (h.below _ u hu)
  have hopen : ¬w.pipeline.shut = true := by simp [hp.before]
  constructor
  case sound => exact hs
  case below =>
    intro a u hm
    rw [hp.started]
    rcases List.mem_append.mp hm with hm | hm
    · exact Nat.lt_succ_of_lt (h.below a u hm)
    · obtain ⟨rfl, rfl⟩ : a = w.pipeline.started ∧ u = uri := by simpa using hm
      exact Nat.lt_succ_self _
  case unique =>
    intro a u v hu hv
    simp only [List.mem_append, List.mem_singleton, Record.started.injEq] at hu hv
    rcases hu with hu | ⟨rfl, rfl⟩
    · rcases hv with hv | ⟨rfl, rfl⟩
      · exact h.unique a u v hu hv
      · exact absurd hu (hnew u)
    · rcases hv with hv | ⟨-, rfl⟩
      · exact absurd hv (hnew v)
      · rfl
  case begun =>
    intro c' hc'
    rcases hp.carries c' hc' with ⟨hi, hu⟩ | ⟨c, hc, hi, hu, -⟩
    · simp [hi, hu]
    · rw [hi, hu]
      exact List.mem_append_left _ (h.begun c hc)
  case unpublished =>
    intro c' hc' p hm
    have hm : .published c'.id p ∈ trace := by simpa using hm
    rcases hp.carries c' hc' with ⟨hi, hu⟩ | ⟨c, hc, hi, -⟩
    · obtain ⟨u, hb⟩ := h.never.begun _ _ hm
      rw [hi] at hb
      exact hnew u hb
    · rw [hi] at hm
      exact h.unpublished c hc p hm
  case current =>
    intro c' hc' hn
    rcases hp.carries c' hc' with ⟨hi, -⟩ | ⟨c, hc, hi, hu, hk⟩
    · intro u r hl
      rw [hi] at hl
      rcases pair_snoc.mp hl with hl | ⟨-, hm⟩
      · exact absurd (hl.subset List.mem_cons_self) (hnew u)
      · exact absurd hm (hnew u)
    · obtain ⟨hn, hne⟩ := hk hn
      rw [hi]
      refine (h.current c hc hn).append ?_
      intro u hm he
      rw [h.unique _ _ _ hm (h.begun c hc)] at he
      exact hne (Option.some.inj he).symm
  case due => exact fun a p ho => (h.due a p ho).append (.inl ⟨_, _, rfl⟩)
  case finished =>
    intro a p ho c' hc'
    rcases hp.carries c' hc' with ⟨hi, -⟩ | ⟨c, hc, hi, -⟩
    · obtain ⟨u, hb⟩ := (h.due a p ho).begun
      rintro rfl
      rw [hi] at hb
      exact hnew u hb
    · rw [hi]
      exact h.finished a p ho c hc
  case closing => exact fun hc => absurd (h.closing hc) hopen
  case shut => exact fun hm => absurd (h.shut (by simpa using hm)) hopen
  case returned => exact fun hm => absurd (h.returned (by simpa using hm)).1 hopen
  case never =>
    refine h.never.append ?_ (by simp) (by simp) (by simp)
    rintro a u ⟨⟩
    exact hnew

/-- The pipeline stays as it is, and something other than a start goes on record. -/
theorem note (h : w.Account trace) {r : Record} (hp : w'.pipeline = w.pipeline)
    (hs : ∀ a u, r ≠ .started a u)
    (ht : ∀ c ∈ w.pipeline.computations, c.stopped = false → r.takes? ≠ some (key c.uri))
    (hd : ∀ a p, r = .published a p → w.outgoing = some (.result a p))
    (ho : ∀ a p, w'.outgoing = some (.result a p) →
      Due (trace ++ [r]) a ∧ ∀ c ∈ w.pipeline.computations, c.id ≠ a)
    (hc : w'.closing = true → w.pipeline.shut = true)
    (hn : ∀ a, r = .decided a → w.pipeline.shut = false)
    (hsh : r = .shut → w.pipeline.shut = true)
    (hr : ∀ waited, r = .returned waited → .shut ∈ trace ∧
      (waited = true → w.pipeline.shut = true ∧ w.pipeline.computations = [])) :
    w'.Account (trace ++ [r]) := by
  have hold : ∀ a u, .started a u ∈ trace ++ [r] ↔ .started a u ∈ trace := by
    intro a u
    simp [Ne.symm (hs a u)]
  constructor
  all_goals try rw [hp]
  case sound => exact h.sound
  case below => simpa only [hold] using h.below
  case unique => simpa only [hold] using h.unique
  case begun => simpa only [hold] using h.begun
  case unpublished =>
    intro c hc p hm
    rcases List.mem_append.mp hm with hm | hm
    · exact h.unpublished c hc p hm
    · exact h.finished _ p (hd _ p (List.mem_singleton.mp hm).symm) c hc rfl
  case current =>
    intro c hc hn
    refine (h.current c hc hn).append ?_
    intro u hm
    rw [h.unique _ _ _ hm (h.begun c hc)]
    exact ht c hc hn
  case due => exact fun a p hw => (ho a p hw).1
  case finished => exact fun a p hw => (ho a p hw).2
  case closing => exact hc
  case shut =>
    intro hm
    rcases List.mem_append.mp hm with hm | hm
    · exact h.shut hm
    · exact hsh (List.mem_singleton.mp hm).symm
  case returned =>
    intro hm
    rcases List.mem_append.mp hm with hm | hm
    · exact h.returned hm
    · exact (hr true (List.mem_singleton.mp hm).symm).2 rfl
  case never =>
    refine h.never.append (fun a u he => absurd he (hs a u)) (fun a p he => h.due a p (hd a p he)) ?_
      fun waited he => (hr waited he).1
    intro a he hm
    exact Bool.false_ne_true ((hn a he).symm.trans (h.shut hm))

theorem mayStart (h : w.Account trace) {uri : Bytes} (hm : w.pipeline.MayStart uri p')
    (hs : p'.Sound) : ({ w with pipeline := p' } : Scene).Account (trace ++ w.starts uri p') := by
  cases hm with
  | goesOn hg =>
    rw [Scene.starts, if_neg (by simp [hg.started]), List.append_nil]
    exact h.goesOn hg hs
  | starts hp =>
    rw [Scene.starts, if_pos (by simp [hp.started])]
    exact h.starts hp hs

theorem clear (h : w.Account trace) (ho : w.outgoing = none) (uri : Bytes) :
    (w.issue .clearing (w.pipeline.clear uri)).Account
      (trace ++ (w.pipeline.clear uri).2.1.map fun _ => .cleared uri) := by
  have hg := w.pipeline.clear_goesOn uri
  have hsound := h.sound.clear uri
  cases hs : w.pipeline.shut with
  | true =>
    have he : w.pipeline.clear uri = (w.pipeline, [], []) := by rw [Pipeline.clear, if_pos hs]
    rw [he, issue_silent ho, List.map_nil, List.append_nil]
    exact h
  | false =>
    have he := Pipeline.clear_of_open hs uri
    rw [he] at hg hsound
    rw [he]
    refine (h.goesOn hg hsound).note rfl (by simp) ?_ (by simp) ?_ ?_ (by simp) (by simp)
      (by simp)
    · intro c hc hn hk
      exact (h.sound.of_mem_cancel hc hn).2 (Option.some.inj hk).symm
    · rintro a p ⟨⟩
    · exact h.closing

/-- A computation ends. If it decides to publish, it was current. -/
theorem ended (h : w.Account trace) (ho : w.outgoing = none) {c : Computation}
    (hc : c ∈ w.pipeline.computations) {step : Step} (he : w.pipeline.Ends c step)
    (hs : Pipeline.Sound step.1) :
    (w.issue (.result c.id) step).Account (trace ++ step.2.1.map fun _ => .decided c.id) := by
  cases he with
  | silently hg hn =>
    rw [List.map_nil, List.append_nil, issue_silent ho]
    exact h.goesOn hg hs
  | @publishing p' publication notices hg hn hu hp =>
    have hd : Due (trace ++ [.decided c.id]) c.id := by
      refine (h.current c hc hu).due ⟨_, h.begun c hc⟩ (h.unpublished c hc) ?_ ?_
      · intro hm
        simp [h.shut hm] at hp
      · intro hm
        simp [(h.returned hm).1] at hp
    refine (h.goesOn hg hs).note rfl (by simp) (by simp [Record.takes?]) (by simp) ?_ ?_
      (fun _ _ => hg.shut.trans hp) (by simp) (by simp)
    · rintro a p ⟨⟩
      exact ⟨hd, hn⟩
    · exact fun hc => hg.shut.trans (h.closing hc)

theorem move (h : w.Account trace) (hn : w.pipeline.shut = true → .shut ∈ trace)
    {records : List Record} (hm : Move w records w') : w'.Account (trace ++ records) := by
  cases hm with
  | trigger now uri =>
    rw [List.append_nil]
    exact h.goesOn (w.pipeline.trigger_goesOn now uri) (h.sound.trigger now uri)
  | computeNow uri => exact h.mayStart (h.sound.computeNow uri).2 (h.sound.computeNow uri).1
  | fire timer => exact h.mayStart (h.sound.fire timer).2 (h.sound.fire timer).1
  | clear uri ho => exact h.clear ho uri
  | begin document hc hq =>
    rw [List.append_nil]
    exact h.goesOn (w.pipeline.begin_goesOn _ document) (h.sound.begin _ document)
  | skip hc hq ho =>
    exact h.ended ho hc ((w.pipeline.finish_ends _ none).saying _) (h.sound.finish hc none)
  | answer id outcome ho =>
    cases h.sound.answer id outcome with
    | nobody he =>
      rw [he, issue_silent ho, List.map_nil, List.append_nil]
      exact h
    | ended hc hi he hs =>
      subst hi
      exact h.ended ho hc he hs
  | @publish o ho =>
    refine h.note rfl ?_ ?_ ?_ (by simp) h.closing ?_ ?_ ?_
    · cases o <;> simp [Outgoing.record]
    · cases o <;> simp [Outgoing.record, Record.takes?]
    · intro a p hr
      cases o with
      | result b q =>
        cases hr
        exact ho
      | clearing q => cases hr
    all_goals cases o <;> simp [Outgoing.record]
  | shutdown =>
    have hw := h.continues w.pipeline.shutdown_continues (fun _ => w.pipeline.shutdown_shut)
      h.sound.shutdown
    cases hf : w.pipeline.shutdown.2 with
    | false =>
      have hs : w.pipeline.shut = true := by
        rw [← Bool.not_eq_false, ← Pipeline.shutdown_first_iff, hf]
        simp
      refine hw.note rfl (by simp) (by simp [Record.takes?]) (by simp) ?_
        (fun _ => w.pipeline.shutdown_shut) (by simp) (by simp) (by simpa using hn hs)
      intro a p ho
      exact ⟨(h.due a p ho).append (.inr (.inr rfl)), hw.finished a p ho⟩
    | true =>
      refine hw.note rfl (by simp) (by simp [Record.takes?]) (by simp) ?_
        (fun _ => w.pipeline.shutdown_shut) (by simp) (fun _ => w.pipeline.shutdown_shut) (by simp)
      intro a p ho
      exact ⟨(h.due a p ho).append (.inr (.inl rfl)), hw.finished a p ho⟩
  | leave hc hq ho =>
    refine h.note rfl (by simp) (by simp [Record.takes?]) (by simp) ?_ (by simp) (by simp) (by simp)
      ?_
    · intro a p hw
      exact absurd hw (ho a p)
    · rintro _ -
      exact ⟨hn (h.closing hc), fun _ => ⟨h.closing hc, List.isEmpty_iff.mp hq⟩⟩

/-- Only a call that goes on record shuts the pipeline. -/
theorem shut_or (h : w.Account trace) {records : List Record} (hm : Move w records w') :
    w'.pipeline.shut = w.pipeline.shut ∨ .shut ∈ records := by
  have hmay : ∀ {uri p'}, w.pipeline.MayStart uri p' → p'.shut = w.pipeline.shut := by
    rintro uri p' (hg | hs)
    · exact hg.shut
    · rw [hs.before, hs.after]
  have hends : ∀ {c step}, w.pipeline.Ends c step → Pipeline.shut step.1 = w.pipeline.shut := by
    rintro c step (⟨hg, -⟩ | ⟨hg, -⟩) <;> exact hg.shut
  cases hm with
  | trigger now uri => exact .inl (w.pipeline.trigger_goesOn now uri).shut
  | computeNow uri => exact .inl (hmay (h.sound.computeNow uri).2)
  | fire timer => exact .inl (hmay (h.sound.fire timer).2)
  | clear uri => exact .inl (w.pipeline.clear_goesOn uri).shut
  | begin document hc hq => exact .inl (w.pipeline.begin_goesOn _ document).shut
  | skip hc hq => exact .inl (hends ((w.pipeline.finish_ends _ none).saying _))
  | answer id outcome =>
    cases h.sound.answer id outcome with
    | nobody he => exact .inl (by rw [he]; rfl)
    | ended _ _ he => exact .inl (hends he)
  | publish => exact .inl rfl
  | shutdown =>
    cases hs : w.pipeline.shut with
    | true => exact .inl w.pipeline.shutdown_shut
    | false => exact .inr (by simp [Pipeline.shutdown_first_iff.mpr hs])
  | leave => exact .inl rfl

end Scene.Account

theorem Scene.Run.account {options : Options} {w : Scene} (h : Run options trace w) :
    w.Account trace := by
  refine And.left (b := w.pipeline.shut = true → .shut ∈ trace) ?_
  induction h with
  | refl =>
    refine ⟨?_, by simp⟩
    constructor <;> simp [Pipeline.sound_empty, NeverLate.empty]
  | tail _ hm ih =>
    obtain ⟨ha, hn⟩ := ih
    refine ⟨ha.move hn hm, ?_⟩
    intro hs
    rcases ha.shut_or hm with he | hr
    · exact List.mem_append_left _ (hn (he ▸ hs))
    · exact List.mem_append_right _ hr

/-- A document is cleared while it is computed, and computed again under the same generation number.
The second computation has decided to publish when a third is started and the pipeline is shut; its
publication goes out after a second call has found the pipeline shut, and before the first returns. -/
def restartTrace : List Record :=
  [.started 0 (ascii "a"), .cleared (ascii "A"), .emptied { uri := ascii "A" },
    .started 1 (ascii "a"), .decided 1, .started 2 (ascii "a"), .shut, .returned false,
    .published 1 { uri := ascii "a", version := some 1 }, .returned true, .returned false]

def restartDocument : Document.OpenDocument :=
  { uri := ascii "a", languageId := ascii "vb", version := 1, text := [] }

end EditorSession.Diagnostics
