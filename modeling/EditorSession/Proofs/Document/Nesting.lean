import EditorSession.Proofs.Document.Listeners

/-! Operations on one thread. What is begun within a call ends before the call returns, so that the
operations under way are a stack and only the last of them goes on. The thread knows whose callback is
running: a callback takes the place of the one around it, and puts it back in the end. A removal leaves
out that one callback when it counts what it has to wait for, and no more; so it waits for a callback
further out, which cannot return before the removal does. -/

namespace EditorSession.Document

/-! ### Callbacks in progress -/

def Suspended.listener? : Suspended → Option ListenerId
  | lookup _ => none
  | delivery d => some d.listener

def Status.listener? : Status → Option ListenerId
  | done _ => none
  | suspended t => t.listener?

theorem Suspended.tells_eq (l : ListenerId) (t : Suspended) :
    t.tells l = decide (t.listener? = some l) := by
  cases t with
  | lookup lookup => rfl
  | delivery d => simp [tells, listener?]

namespace Scene

variable {w : Scene} {id : OperationId}

/-- The listeners whose callbacks are in progress, the innermost last. -/
def callbacks (w : Scene) : List ListenerId := w.operations.filterMap fun o => o.2.listener?

theorem count_callbacks (w : Scene) (l : ListenerId) : w.callbacks.count l = w.inProgress l := by
  rw [callbacks, List.count, List.countP_filterMap, inProgress]
  apply List.countP_congr
  intro o _
  rw [Suspended.tells_eq]
  cases o.2.listener? <;> simp

theorem callbacks_advance (w : Scene) (id : OperationId) (step : Step) :
    (w.advance id step).callbacks =
      (w.operations.filter fun o => o.1 ≠ id).filterMap (fun o => o.2.listener?) ++
        step.2.1.listener?.toList := by
  obtain ⟨store, status, notices⟩ := step
  cases status with
  | done outcome => simp [advance, callbacks, Status.listener?]
  | suspended t =>
    rw [advance, callbacks, List.filterMap_append, Status.listener?, List.filterMap_cons,
      List.filterMap_nil]
    cases t.listener? <;> rfl

/-- The operation is begun by the step. -/
theorem callbacks_start (h : w.Orderly) (step : Step) :
    ({ w with begun := w.begun + 1 }.advance w.begun step).callbacks =
      w.callbacks ++ step.2.1.listener?.toList := by
  have hf : w.operations.filter (fun o => o.1 ≠ w.begun) = w.operations := by
    apply List.filter_eq_self.mpr
    intro o ho
    simpa using Nat.ne_of_lt (h.below o ho)
  rw [callbacks_advance]
  dsimp only
  rw [hf]
  rfl

/-- The operation is the last of those under way. -/
theorem callbacks_last (h : w.Orderly) {t : Suspended} (hl : w.operations.getLast? = some (id, t))
    (step : Step) : ∃ outer, w.callbacks = outer ++ t.listener?.toList ∧
      (w.advance id step).callbacks = outer ++ step.2.1.listener?.toList := by
  obtain ⟨front, ho⟩ := List.getLast?_eq_some_iff.mp hl
  have hf : w.operations.filter (fun o => o.1 ≠ id) = front := by
    have hn := h.distinct
    rw [ho, List.map_append, List.nodup_append] at hn
    rw [ho, List.filter_append, List.filter_cons_of_neg (by simp), List.filter_nil, List.append_nil]
    apply List.filter_eq_self.mpr
    intro o hm
    simpa using hn.2.2 o.1 (List.mem_map.mpr ⟨o, hm, rfl⟩) id (by simp)
  refine ⟨front.filterMap fun o => o.2.listener?, ?_, ?_⟩
  · rw [callbacks, ho, List.filterMap_append, List.filterMap_cons, List.filterMap_nil]
    cases t.listener? <;> rfl
  · rw [callbacks_advance, hf]

end Scene

/-! ### One thread -/

/-- A thread that carries out operations, and nothing else does. -/
structure Thread where
  scene : Scene := {}
  /-- The listener whose callback is running. -/
  running : Option ListenerId := none
  /-- What callbacks in progress put back when they return, the innermost first. -/
  saved : List (Option ListenerId) := []
  /-- The listener that a removal is waiting for. -/
  waiting : Option ListenerId := none

namespace Thread

/-- The invocations that a removal need not wait for. -/
def own (t : Thread) (listener : ListenerId) : Nat := if t.running = some listener then 1 else 0

/-- Takes in a step on behalf of an operation, and enters the callback that it calls. -/
def advance (t : Thread) (id : OperationId) (step : Document.Step) : Thread :=
  let t := { t with scene := t.scene.advance id step }
  match step.2.1.listener? with
  | some listener => { t with running := some listener, saved := t.running :: t.saved }
  | none => t

/-- A callback returns. -/
def leave (t : Thread) : Thread := { t with running := t.saved.headD none, saved := t.saved.tail }

/-- Begins an operation. -/
def start (t : Thread) (operation : Operation) : Thread :=
  { t with scene := { t.scene with begun := t.scene.begun + 1 } }.advance t.scene.begun
    (t.scene.store.start operation)

/-- Removes a listener, and waits if it has to. -/
def unsubscribe (t : Thread) (listener : ListenerId) : Thread :=
  let (store, waits) := t.scene.store.removeListener listener t.running
  { t with
    scene := { t.scene with store }
    waiting := if waits then some listener else none }

/-- What the thread may do next. While it waits, it can only find that there is nothing to wait for. -/
inductive Step (t : Thread) : Thread → Prop where
  | start (operation) (idle : t.waiting = none) : Step t (t.start operation)
  | answer (id l answer) (idle : t.waiting = none)
      (last : t.scene.operations.getLast? = some (id, .lookup l)) :
      Step t (t.advance id (t.scene.store.resumeLookup l answer))
  | hear (id d failure) (idle : t.waiting = none)
      (last : t.scene.operations.getLast? = some (id, .delivery d)) :
      Step t (t.leave.advance id (t.scene.store.resumeDelivery d failure))
  | subscribe (idle : t.waiting = none) :
      Step t { t with scene := { t.scene with store := t.scene.store.addListener.1 } }
  | unsubscribe (listener) (idle : t.waiting = none) : Step t (t.unsubscribe listener)
  | wake (listener) (waits : t.waiting = some listener)
      (enough : t.scene.store.activeCount listener ≤ t.own listener) : Step t { t with waiting := none }

/-- Any number of steps from the beginning. -/
inductive Run : Thread → Prop where
  | refl : Run {}
  | tail {t t'} : Run t → Step t t' → Run t'

variable {t t' : Thread}

theorem advance_scene (t : Thread) (id : OperationId) (step : Document.Step) :
    (t.advance id step).scene = t.scene.advance id step := by
  unfold advance
  split <;> rfl

theorem advance_waiting (t : Thread) (id : OperationId) (step : Document.Step) :
    (t.advance id step).waiting = t.waiting := by
  unfold advance
  split <;> rfl

/-- What one thread does is a run of operations. -/
theorem Step.turns {trace : List Note} (h : Step t t') (ht : Scene.Turns trace t.scene) :
    ∃ trace', Scene.Turns trace' t'.scene := by
  cases h with
  | start operation =>
    rw [Thread.start, advance_scene]
    exact ⟨_, ht.tail (.start _ operation)⟩
  | answer id l answer _ last =>
    rw [advance_scene]
    exact ⟨_, ht.tail (.answer answer (List.mem_of_getLast? last))⟩
  | hear id d failure _ last =>
    rw [advance_scene]
    exact ⟨_, ht.tail (.hear failure (List.mem_of_getLast? last))⟩
  | subscribe => exact ⟨_, ht.tail (.subscribe _)⟩
  | unsubscribe listener => exact ⟨_, ht.tail (.unsubscribe _ listener t.running)⟩
  | wake listener => exact ⟨_, ht⟩

theorem Run.turns (h : Run t) : ∃ trace, Scene.Turns trace t.scene := by
  induction h with
  | refl => exact ⟨[], .refl⟩
  | tail _ hs ih =>
    obtain ⟨trace, ht⟩ := ih
    exact hs.turns ht

/-! ### The callback that is running -/

/-- The running callback is the innermost, and each one puts back the one around it. -/
def Nests (t : Thread) : Prop :=
  t.running :: t.saved = (t.scene.callbacks.map some).reverse ++ [none]

theorem Nests.advance {u : Thread} {outer : List ListenerId} {id : OperationId} {step : Document.Step}
    (hu : u.running :: u.saved = (outer.map some).reverse ++ [none])
    (ho : (u.scene.advance id step).callbacks = outer ++ step.2.1.listener?.toList) :
    (u.advance id step).Nests := by
  rw [Nests, advance_scene, ho, Thread.advance]
  cases step.2.1.listener? with
  | none => simpa using hu
  | some listener => simp [hu]

theorem Nests.leave {outer : List ListenerId} {listener : ListenerId} (h : t.Nests)
    (ho : t.scene.callbacks = outer ++ [listener]) :
    t.leave.running :: t.leave.saved = (outer.map some).reverse ++ [none] := by
  rw [Nests, ho, List.map_append, List.reverse_append] at h
  have hs : t.saved = (outer.map some).reverse ++ [none] := (List.cons.inj h).2
  cases hr : (outer.map some).reverse with
  | nil => simp [Thread.leave, hs, hr]
  | cons x xs => simp [Thread.leave, hs, hr]

theorem Nests.step (h : t.Nests) (ho : t.scene.Orderly) (hs : Step t t') : t'.Nests := by
  cases hs with
  | start operation => exact .advance h (Scene.callbacks_start ho _)
  | answer id l answer _ last =>
    obtain ⟨outer, hc, hc'⟩ := Scene.callbacks_last ho last (t.scene.store.resumeLookup l answer)
    rw [Suspended.listener?, Option.toList_none, List.append_nil] at hc
    exact .advance (hc ▸ h) hc'
  | hear id d failure _ last =>
    obtain ⟨outer, hc, hc'⟩ := Scene.callbacks_last ho last (t.scene.store.resumeDelivery d failure)
    exact .advance (h.leave hc) hc'
  | subscribe => exact h
  | unsubscribe listener => exact h
  | wake listener => exact h

theorem Nests.running (h : t.Nests) : t.running = t.scene.callbacks.getLast? := by
  have hh := congrArg List.head? h
  rw [List.head?_cons, List.head?_append, List.head?_reverse, List.getLast?_map] at hh
  cases hl : t.scene.callbacks.getLast? <;> simpa [hl] using hh

/-! ### Whether a removal waits -/

theorem activeCount_of_listens {trace : List Note} (h : t.scene.Account trace) {l : ListenerId}
    (hl : t.scene.store.listens l = true) :
    t.scene.store.activeCount l = t.scene.callbacks.count l := by
  rw [Scene.count_callbacks, Store.activeCount]
  rw [Store.listens, List.any_eq_true] at hl
  cases hf : t.scene.store.listeners.find? fun x => x.id = l with
  | none =>
    obtain ⟨x, hx, hid⟩ := hl
    have hn := List.find?_eq_none.mp hf x hx
    simp_all
  | some x =>
    obtain rfl : x.id = l := by simpa using List.find?_some hf
    exact h.busy x (List.mem_of_find?_eq_some hf)

/-- The count goes beyond what is left out exactly for a callback further out. -/
theorem Nests.own_lt_count_iff (h : t.Nests) (l : ListenerId) :
    t.own l < t.scene.callbacks.count l ↔ l ∈ t.scene.callbacks.dropLast := by
  rw [own, h.running]
  cases List.eq_nil_or_concat t.scene.callbacks with
  | inl hc => simp [hc]
  | inr hc =>
    obtain ⟨outer, last, hc⟩ := hc
    rw [hc, List.concat_eq_append, List.getLast?_concat, List.dropLast_concat, List.count_append,
      List.count_singleton, ← List.count_pos_iff]
    by_cases hl : last = l
    · simp [hl]
    · simp [hl]

theorem waits_iff {trace : List Note} (h : t.scene.Account trace) (hn : t.Nests) (l : ListenerId) :
    (t.scene.store.removeListener l t.running).2 = true ↔
      t.scene.store.listens l = true ∧ l ∈ t.scene.callbacks.dropLast := by
  rw [Store.removeListener]
  by_cases hl : t.scene.store.listens l = true
  · rw [if_pos hl, ← hn.own_lt_count_iff, ← activeCount_of_listens h hl]
    simp [hl, own]
  · simp [hl]

theorem activeCount_modifyListener {s : Store} {f : Listener → Listener}
    (hf : ∀ x, (f x).id = x.id ∧ (f x).active = x.active) (l l' : ListenerId) :
    (s.modifyListener l f).activeCount l' = s.activeCount l' := by
  let g : Listener → Listener := fun x => if x.id = l then f x else x
  have hg : ∀ x, (g x).id = x.id ∧ (g x).active = x.active := by
    intro x
    dsimp only [g]
    split
    · exact hf x
    · exact ⟨rfl, rfl⟩
  have hfind : ((fun x : Listener => decide (x.id = l')) ∘ g) = fun x => decide (x.id = l') :=
    funext fun x => by simp [hg x]
  have hactive : (fun x : Listener => x.active) ∘ g = fun x => x.active := funext fun x => (hg x).2
  change ((((s.listeners.map g).find? fun x => x.id = l').map (·.active)).getD 0) = _
  rw [List.find?_map, hfind, Option.map_map, hactive]
  rfl

theorem activeCount_removeListener (s : Store) (l l' : ListenerId) (running : Option ListenerId) :
    Store.activeCount (s.removeListener l running).1 l' = s.activeCount l' := by
  rw [Store.removeListener]
  split
  · exact activeCount_modifyListener (f := fun x => { x with removed := true })
      (fun _ => ⟨rfl, rfl⟩) l l'
  · rfl

/-- A thread that waits has a callback of that listener further out. -/
def Caught (t : Thread) : Prop :=
  ∀ l, t.waiting = some l →
    t.own l < t.scene.store.activeCount l ∧ l ∈ t.scene.callbacks.dropLast

theorem Caught.of_idle (h : t.waiting = none) : t.Caught := by
  intro l hl
  rw [h] at hl
  cases hl

theorem Caught.unsubscribe {trace : List Note} (h : t.scene.Account trace) (hn : t.Nests)
    (l : ListenerId) : (t.unsubscribe l).Caught := by
  intro l' hl'
  have hw : (t.scene.store.removeListener l t.running).2 = true ∧ l = l' := by
    simpa [Thread.unsubscribe] using hl'
  obtain ⟨hw, rfl⟩ := hw
  obtain ⟨hl, hm⟩ := (waits_iff h hn l).mp hw
  refine ⟨?_, hm⟩
  have hc := (hn.own_lt_count_iff l).mpr hm
  rw [← activeCount_of_listens h hl] at hc
  exact Nat.lt_of_lt_of_eq hc (activeCount_removeListener _ _ _ _).symm

theorem Step.caught {trace : List Note} (hs : Step t t') (h : t.scene.Account trace) (hn : t.Nests) :
    t'.Caught := by
  cases hs with
  | start operation idle => exact .of_idle ((advance_waiting _ _ _).trans idle)
  | answer id l answer idle => exact .of_idle ((advance_waiting _ _ _).trans idle)
  | hear id d failure idle => exact .of_idle ((advance_waiting _ _ _).trans idle)
  | subscribe idle => exact .of_idle idle
  | unsubscribe listener => exact .unsubscribe h hn listener
  | wake listener => exact .of_idle rfl

theorem Caught.stuck (h : t.Caught) {l : ListenerId} (hw : t.waiting = some l) (t' : Thread) :
    ¬Step t t' := by
  intro hs
  cases hs with
  | start operation idle => simp [hw] at idle
  | answer id l answer idle => simp [hw] at idle
  | hear id d failure idle => simp [hw] at idle
  | subscribe idle => simp [hw] at idle
  | unsubscribe listener idle => simp [hw] at idle
  | wake listener waits enough => exact Nat.not_lt.mpr enough (h listener waits).1

theorem Run.nests (h : Run t) : t.Nests ∧ t.Caught := by
  induction h with
  | refl => exact ⟨rfl, .of_idle rfl⟩
  | tail h hs ih =>
    obtain ⟨trace, ht⟩ := h.turns
    have ha := ht.account.1
    exact ⟨ih.1.step ha.orderly hs, hs.caught ha ih.1⟩

/-- When a removal waits, on a thread of its own. -/
structure RemovalsWait (t : Thread) : Prop where
  /-- The callback that is running is the innermost. -/
  running : t.running = t.scene.callbacks.getLast?
  waits : ∀ l, (t.unsubscribe l).waiting = some l ↔
    t.scene.store.listens l = true ∧ l ∈ t.scene.callbacks.dropLast
  /-- Otherwise it returns at once; so it does as long as callbacks are not nested. -/
  returns : ∀ l, l ∉ t.scene.callbacks.dropLast → (t.unsubscribe l).waiting = none
  plain : t.scene.callbacks.length ≤ 1 → ∀ l, (t.unsubscribe l).waiting = none
  /-- It waits for a callback further out, and for good. -/
  forever : ∀ l, t.waiting = some l → l ∈ t.scene.callbacks.dropLast ∧ ∀ t', ¬Step t t'

/-- On one thread a removal waits exactly if a callback of the listener is in progress further out
than the innermost; and then it never returns. -/
theorem Run.removalsWait (h : Run t) : RemovalsWait t := by
  obtain ⟨trace, ht⟩ := h.turns
  obtain ⟨hn, hc⟩ := h.nests
  have hw := waits_iff ht.account.1 hn
  have hr : ∀ l, l ∉ t.scene.callbacks.dropLast → (t.unsubscribe l).waiting = none := by
    intro l hl
    have hf : (t.scene.store.removeListener l t.running).2 ≠ true := fun hw' => hl ((hw l).mp hw').2
    simp [Thread.unsubscribe, hf]
  refine ⟨hn.running, ?_, hr, ?_, fun l hl => ⟨(hc l hl).2, hc.stuck hl⟩⟩
  · intro l
    rw [← hw l]
    simp [Thread.unsubscribe]
  · intro hlen l
    refine hr l ?_
    have hd : t.scene.callbacks.dropLast = [] := by
      rw [← List.length_eq_zero_iff, List.length_dropLast]
      omega
    simp [hd]

/-- Two listeners. The first opens another document when it hears of one, and now the second hears of
the other. -/
theorem run_crossed : ∃ t, Run t ∧ t.waiting = none ∧ t.scene.callbacks = [1, 2] ∧
    (t.unsubscribe 1).waiting = some 1 := by
  have h1 := Run.refl.tail (.subscribe rfl)
  have h2 := h1.tail (.subscribe rfl)
  have h3 := h2.tail (.start (.openDocument (ascii "a") (ascii "vb") 1 (ascii "x")) rfl)
  have h4 := h3.tail (.answer 0 _ (.ok none) rfl rfl)
  have h5 := h4.tail (.start (.openDocument (ascii "b") (ascii "vb") 1 (ascii "y")) rfl)
  have h6 := h5.tail (.answer 1 _ (.ok none) rfl rfl)
  have h7 := h6.tail (.hear 1 _ none rfl rfl)
  exact ⟨_, h7, rfl, rfl, rfl⟩

theorem Run.removalsWait_crossed :
    ∃ t, Run t ∧ t.waiting = some 1 ∧ t.scene.callbacks = [1, 2] ∧ RemovalsWait t := by
  obtain ⟨t, h, idle, hc, hw⟩ := run_crossed
  have h' : Run (t.unsubscribe 1) := h.tail (.unsubscribe 1 idle)
  exact ⟨_, h', hw, hc, Run.removalsWait h'⟩

/-- A removal by the second listener of the first never returns, though there is no other thread. -/
theorem exists_endless_removal : ∃ t, Run t ∧ t.scene.callbacks = [1, 2] ∧
    (t.unsubscribe 1).waiting = some 1 ∧ ∀ t', ¬Step (t.unsubscribe 1) t' := by
  obtain ⟨t, h, idle, hc, hw⟩ := run_crossed
  have h' : Run (t.unsubscribe 1) := h.tail (.unsubscribe 1 idle)
  exact ⟨t, h, hc, hw, h'.nests.2.stuck hw⟩

end Thread

end EditorSession.Document
