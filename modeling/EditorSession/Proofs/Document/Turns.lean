import EditorSession.Proofs.Document.Roster
import EditorSession.Proofs.Document.Run

/-! Runs, told by what happens to listeners. Every move is one that may begin a round, one that goes on
with a round, or one with which a listener comes or goes; and at all times the count of a listener is
the number of its invocations in progress. -/

namespace EditorSession.Document

def Suspended.tells (listener : ListenerId) : Suspended → Bool
  | lookup _ => false
  | delivery d => d.listener = listener

def Status.tells (listener : ListenerId) : Status → Bool
  | done _ => false
  | suspended t => t.tells listener

namespace Scene

/-- A move, and what happens to listeners on it. -/
inductive Turn : Scene → List Note → Scene → Prop where
  | start (w operation) :
      Turn w ((w.store.start operation).2.1.begins w.begun)
        ({ w with begun := w.begun + 1 }.advance w.begun (w.store.start operation))
  | answer {w id l} (answer) (h : (id, .lookup l) ∈ w.operations) :
      Turn w ((w.store.resumeLookup l answer).2.1.begins id)
        (w.advance id (w.store.resumeLookup l answer))
  | hear {w id d} (failure) (h : (id, .delivery d) ∈ w.operations) :
      Turn w (.left id d.listener failure ::
          (w.store.resumeDelivery d failure).2.1.continues id)
        (w.advance id (w.store.resumeDelivery d failure))
  | subscribe (w) :
      Turn w [.added w.store.addListener.2] { w with store := w.store.addListener.1 }
  | unsubscribe (w listener running) :
      Turn w (if w.store.listens listener then [.removed listener] else [])
        { w with store := (w.store.removeListener listener running).1 }

/-- Any number of moves from the beginning, with what happens to listeners. -/
inductive Turns : List Note → Scene → Prop where
  | refl : Turns [] {}
  | tail {trace w notes w'} : Turns trace w → Turn w notes w' → Turns (trace ++ notes) w'

variable {trace notes : List Note} {w w' : Scene} {id : OperationId}

/-- The invocations of a listener in progress. -/
def inProgress (w : Scene) (listener : ListenerId) : Nat :=
  w.operations.countP fun o => o.2.tells listener

theorem Move.turn {records : List Record} (h : Move w records w') : ∃ notes, Turn w notes w' := by
  cases h with
  | start operation => exact ⟨_, .start w operation⟩
  | answer answer h => exact ⟨_, .answer answer h⟩
  | hear failure h => exact ⟨_, .hear failure h⟩
  | subscribe => exact ⟨_, .subscribe w⟩
  | unsubscribe listener running => exact ⟨_, .unsubscribe w listener running⟩

/-- Every run can be told by what happens to listeners. -/
theorem Run.turns {records : List Record} (h : Run records w) : ∃ trace, Turns trace w := by
  induction h with
  | refl => exact ⟨[], .refl⟩
  | tail _ hm ih =>
    obtain ⟨trace, ht⟩ := ih
    obtain ⟨notes, hn⟩ := hm.turn
    exact ⟨trace ++ notes, ht.tail hn⟩

/-! ### The operations under way -/

/-- Operations have numbers of their own, below those that are still to be begun. -/
structure Orderly (w : Scene) : Prop where
  distinct : (w.operations.map (·.1)).Nodup
  below : ∀ o ∈ w.operations, o.1 < w.begun

theorem Orderly.advance (h : w.Orderly) (hid : id < w.begun) (step : Step) :
    (w.advance id step).Orderly := by
  have hf : ((w.operations.filter fun o => o.1 ≠ id).map (·.1)).Nodup :=
    h.distinct.sublist (List.filter_sublist.map _)
  have hb : ∀ o ∈ w.operations.filter fun o => o.1 ≠ id, o.1 < w.begun :=
    fun o ho => h.below o (List.mem_filter.mp ho).1
  obtain ⟨store, status, notices⟩ := step
  cases status with
  | done outcome => exact ⟨hf, hb⟩
  | suspended t =>
    refine ⟨?_, ?_⟩
    · dsimp only [Scene.advance]
      rw [List.map_append, List.nodup_append]
      refine ⟨hf, by simp, ?_⟩
      intro i hi j hj
      obtain ⟨o, ho, rfl⟩ := List.mem_map.mp hi
      rw [List.mem_singleton.mp hj]
      simpa using (List.mem_filter.mp ho).2
    · intro o ho
      rcases List.mem_append.mp ho with ho | ho
      · exact hb o ho
      · rw [List.mem_singleton.mp ho]
        exact hid

theorem Orderly.eq_of_mem (h : w.Orderly) {t t' : Suspended} (ht : (id, t) ∈ w.operations)
    (ht' : (id, t') ∈ w.operations) : t = t' := by
  have he := List.inj_on_of_nodup_map h.distinct ht ht' rfl
  exact (Prod.mk.inj he).2

theorem inProgress_advance (w : Scene) (id : OperationId) (step : Step) (l : ListenerId) :
    (w.advance id step).inProgress l =
      (w.operations.filter fun o => o.1 ≠ id).countP (fun o => o.2.tells l) +
        (step.2.1.tells l).toNat := by
  obtain ⟨store, status, notices⟩ := step
  cases status with
  | done outcome => rfl
  | suspended t =>
    rw [inProgress, Scene.advance, List.countP_append, List.countP_singleton]
    cases ht : t.tells l <;> simp [Status.tells, ht]

/-- The operation waited for an answer, or for a listener, before the step. -/
theorem inProgress_step (h : w.Orderly) {t : Suspended} (ht : (id, t) ∈ w.operations) (step : Step)
    (l : ListenerId) :
    (w.advance id step).inProgress l + (t.tells l).toNat =
      w.inProgress l + (step.2.1.tells l).toNat := by
  have hcount : ∀ ops : List (OperationId × Suspended), (ops.map (·.1)).Nodup → (id, t) ∈ ops →
      ops.countP (fun o => o.2.tells l) =
        (ops.filter fun o => o.1 ≠ id).countP (fun o => o.2.tells l) + (t.tells l).toNat := by
    intro ops hn hm
    induction ops with
    | nil => cases hm
    | cons o ops ih =>
      obtain ⟨ho, hn⟩ := List.nodup_cons.mp hn
      rcases List.mem_cons.mp hm with rfl | hm
      · have hf : ops.filter (fun o => o.1 ≠ id) = ops := by
          apply List.filter_eq_self.mpr
          intro o hmem
          simp only [ne_eq, decide_eq_true_eq]
          rintro rfl
          exact ho (List.mem_map.mpr ⟨o, hmem, rfl⟩)
        rw [List.filter_cons_of_neg (by simp), hf, List.countP_cons]
        cases ht : t.tells l <;> simp
      · have hne : o.1 ≠ id := by
          rintro rfl
          exact ho (List.mem_map.mpr ⟨_, hm, rfl⟩)
        rw [List.filter_cons_of_pos (by simpa using hne), List.countP_cons, List.countP_cons,
          ih hn hm]
        omega
  have hw := hcount w.operations h.distinct ht
  rw [inProgress_advance]
  unfold inProgress
  omega

theorem tells_le_inProgress {t : Suspended} (ht : (id, t) ∈ w.operations) (l : ListenerId) :
    (t.tells l).toNat ≤ w.inProgress l := by
  cases hl : t.tells l with
  | false => exact Nat.zero_le _
  | true => exact List.countP_pos_iff.mpr ⟨_, ht, hl⟩

/-- The operation was begun by the step. -/
theorem inProgress_start (h : w.Orderly) (step : Step) (l : ListenerId) :
    ({ w with begun := w.begun + 1 }.advance w.begun step).inProgress l =
      w.inProgress l + (step.2.1.tells l).toNat := by
  have hf : w.operations.filter (fun o => o.1 ≠ w.begun) = w.operations := by
    apply List.filter_eq_self.mpr
    intro o ho
    simpa using Nat.ne_of_lt (h.below o ho)
  rw [inProgress_advance]
  dsimp only
  rw [hf]
  rfl

/-! ### How often listeners are called -/

theorem tells_of_quiet {status : Status} (h : ∀ d, status ≠ .suspended (.delivery d))
    (l : ListenerId) : status.tells l = false := by
  cases status with
  | done outcome => rfl
  | suspended t =>
    cases t with
    | lookup lookup => rfl
    | delivery d => exact absurd rfl (h d)

theorem countP_begins (status : Status) (id : OperationId) (l : ListenerId) :
    (status.begins id).countP (Note.calls l) = (status.tells l).toNat ∧
      (status.begins id).countP (Note.leaves l) = 0 := by
  rcases status.quiet_or_calls with hq | ⟨d, rfl⟩
  · rw [Status.begins_of_quiet hq, tells_of_quiet hq]
    exact ⟨rfl, rfl⟩
  · by_cases hd : d.listener = l
    · simp [Status.begins, Note.calls, Note.leaves, Status.tells, Suspended.tells, hd]
    · simp [Status.begins, Note.calls, Note.leaves, Status.tells, Suspended.tells, hd]

theorem countP_continues (status : Status) (id : OperationId) (l : ListenerId) :
    (status.continues id).countP (Note.calls l) = (status.tells l).toNat ∧
      (status.continues id).countP (Note.leaves l) = 0 := by
  rcases status.quiet_or_calls with hq | ⟨d, rfl⟩
  · rw [Status.continues_of_quiet hq, tells_of_quiet hq]
    exact ⟨rfl, rfl⟩
  · by_cases hd : d.listener = l
    · simp [Status.continues, Note.calls, Note.leaves, Status.tells, Suspended.tells, hd]
    · simp [Status.continues, Note.calls, Note.leaves, Status.tells, Suspended.tells, hd]

/-- Neither of them is about who is registered. -/
theorem of_mem_begins {status : Status} {n : Note} (h : n ∈ status.begins id) :
    n.added? = none ∧ ∀ l, n ≠ .removed l := by
  rcases status.quiet_or_calls with hq | ⟨d, rfl⟩
  · rw [Status.begins_of_quiet hq] at h
    cases h
  · rcases List.mem_cons.mp h with rfl | h
    · exact ⟨rfl, by simp⟩
    · rw [List.mem_singleton.mp h]
      exact ⟨rfl, by simp⟩

theorem of_mem_continues {status : Status} {n : Note} (h : n ∈ status.continues id) :
    n.added? = none ∧ ∀ l, n ≠ .removed l := by
  rcases status.quiet_or_calls with hq | ⟨d, rfl⟩
  · rw [Status.continues_of_quiet hq] at h
    rw [List.mem_singleton.mp h]
    exact ⟨rfl, by simp⟩
  · rw [List.mem_singleton.mp h]
    exact ⟨rfl, by simp⟩

/-- The store knows its listeners, and how often each is being called. -/
structure Account (trace : List Note) (w : Scene) : Prop where
  roster : Roster trace w.store
  orderly : w.Orderly
  busy : w.store.Busy w.inProgress
  balance : ∀ l,
    trace.countP (Note.calls l) = trace.countP (Note.leaves l) + w.inProgress l
  present : ∀ id d, (id, .delivery d) ∈ w.operations → d.listener ∈ trace.filterMap Note.added?

namespace Account

theorem empty : Account [] {} where
  roster := .empty
  orderly := ⟨List.nodup_nil, by simp⟩
  busy := by simp [Store.Busy]
  balance := by simp [inProgress]
  present := by simp

variable {step : Step}

theorem present_append (h : w.Account trace) {d : Delivery} (hd : (id, .delivery d) ∈ w.operations)
    (notes : List Note) : d.listener ∈ (trace ++ notes).filterMap Note.added? := by
  rw [List.filterMap_append]
  exact List.mem_append_left _ (h.present id d hd)

/-- Nobody is calling a listener that is yet to come. -/
theorem inProgress_new (h : w.Account trace) : w.inProgress w.store.addListener.2 = 0 := by
  apply List.countP_eq_zero.mpr
  intro o ho
  obtain ⟨i, t⟩ := o
  cases t with
  | lookup lookup => simp [Suspended.tells]
  | delivery d =>
    have hd := h.present i d ho
    rw [h.roster.numbered, List.mem_range'_1, Nat.add_comm 1] at hd
    have hne : d.listener ≠ w.store.addListener.2 := Nat.ne_of_lt hd.2
    simpa [Suspended.tells] using hne

/-- Somebody comes, or goes. -/
theorem balance_append (h : w.Account trace) {note : Note} (l : ListenerId)
    (hn : note.calls l = false ∧ note.leaves l = false) :
    (trace ++ [note]).countP (Note.calls l) =
      (trace ++ [note]).countP (Note.leaves l) + w.inProgress l := by
  rw [List.countP_append, List.countP_append, List.countP_singleton, List.countP_singleton, hn.1,
    hn.2]
  exact h.balance l

/-- A step that may begin a round. -/
theorem begins (h : w.Account trace) (hb : w.store.Begins step) (hs : w'.store = step.1)
    (ho : w'.Orderly) (hp : ∀ l, w'.inProgress l = w.inProgress l + (step.2.1.tells l).toNat)
    (hm : ∀ i t, (i, t) ∈ w'.operations →
      (i, t) ∈ w.operations ∧ i ≠ id ∨ i = id ∧ step.2.1 = .suspended t) :
    w'.Account (trace ++ step.2.1.begins id) where
  roster := h.roster.keep (by rw [hs]; exact hb.roll) fun _ => of_mem_begins
  orderly := ho
  busy := by
    rw [hs]
    cases hb with
    | quiet hl hd =>
      intro l hm
      rw [hl] at hm
      rw [hp, tells_of_quiet hd, h.busy l hm]
      rfl
    | raises d hr hl hd =>
      intro l hm
      rw [hl] at hm
      rw [hp, hd]
      exact h.busy.enter d.listener l hm
  balance := by
    intro l
    obtain ⟨hc, hv⟩ := countP_begins step.2.1 id l
    rw [List.countP_append, List.countP_append, h.balance, hc, hv, hp]
    omega
  present := by
    intro i d hd
    rcases hm i _ hd with ⟨hd, -⟩ | ⟨-, hs⟩
    · exact h.present_append hd _
    · cases hb with
      | quiet _ hq => exact absurd hs (hq d)
      | raises d' hr _ hd' =>
        rw [hd', Status.suspended.injEq, Suspended.delivery.injEq] at hs
        subst hs
        rw [h.roster.registered] at hr
        have hl : d'.listener ∈ registeredIn trace := hr ▸ List.mem_cons_self
        rw [List.filterMap_append]
        exact List.mem_append_left _ (List.mem_filter.mp hl).1

theorem roster_leave (h : w.Account trace) (l : ListenerId) : Roster trace (w.store.leave l) := by
  have hk : Roster (trace ++ []) (w.store.leave l) :=
    h.roster.keep (w.store.roll_leave l) (by simp)
  rwa [List.append_nil] at hk

/-- A step that goes on with a round. -/
theorem continues (h : w.Account trace) {d : Delivery} (hd : (id, .delivery d) ∈ w.operations)
    (hc : (w.store.leave d.listener).Continues d step) (failure : Option Bytes) :
    (w.advance id step).Account (trace ++ .left id d.listener failure :: step.2.1.continues id) where
  roster := by
    refine h.roster.keep ?_ ?_
    · rw [advance_store]
      exact hc.roll.trans (Store.roll_leave _)
    · intro n hn
      rcases List.mem_cons.mp hn with rfl | hn
      · exact ⟨rfl, by simp⟩
      · exact of_mem_continues hn
  orderly := h.orderly.advance (h.orderly.below _ hd) step
  busy := by
    rw [advance_store]
    have hleave := h.busy.leave d.listener
    cases hc with
    | ended _ hl hn =>
      intro l hm
      rw [hl] at hm
      have hp := inProgress_step h.orderly hd step l.id
      rw [tells_of_quiet hn] at hp
      rw [hleave l hm]
      exact Nat.sub_eq_of_eq_add hp.symm
    | next d' _ _ _ _ _ hl hn =>
      intro l hm
      rw [hl] at hm
      have hp := inProgress_step h.orderly hd step l.id
      rw [hn] at hp
      have hle := tells_le_inProgress hd l.id
      have hb : l.active = w.inProgress l.id - ((Suspended.delivery d).tells l.id).toNat +
          ((Suspended.delivery d').tells l.id).toNat := hleave.enter d'.listener l hm
      simp only [Status.tells] at hp
      omega
  balance := by
    intro l
    obtain ⟨hcalls, hleaves⟩ := countP_continues step.2.1 id l
    have hp := inProgress_step h.orderly hd step l
    rw [List.countP_append, List.countP_append, List.countP_cons, List.countP_cons, hcalls, hleaves,
      h.balance]
    have hleft : (if Note.leaves l (.left id d.listener failure) = true then 1 else 0) =
        ((Suspended.delivery d).tells l).toNat := by
      cases hl : (Suspended.delivery d).tells l with
      | false => exact if_neg (Bool.eq_false_iff.mp hl)
      | true => exact if_pos hl
    rw [hleft, if_neg (by simp [Note.calls])]
    omega
  present := by
    intro i d' hd'
    rcases mem_advance_operations.mp hd' with ⟨hd', -⟩ | ⟨-, hs⟩
    · exact h.present_append hd' _
    · have hl := (h.roster_leave d.listener).listens_iff.mp (hc.listens hs)
      rw [List.filterMap_append]
      exact List.mem_append_left _ (List.mem_filter.mp hl).1

end Account

/-! ### Along a run -/

theorem Orderly.begin (h : w.Orderly) : ({ w with begun := w.begun + 1 } : Scene).Orderly :=
  ⟨h.distinct, fun o ho => Nat.lt_succ_of_lt (h.below o ho)⟩

theorem Account.turn (h : w.Account trace) (ht : Turn w notes w') : w'.Account (trace ++ notes) := by
  cases ht with
  | start operation =>
    refine h.begins (w.store.start_begins operation) (advance_store _ _ _)
      (h.orderly.begin.advance (Nat.lt_succ_self _) _) (inProgress_start h.orderly _) ?_
    exact fun i t => mem_advance_operations.mp
  | @answer id l answer hl =>
    refine h.begins (w.store.resumeLookup_begins l answer) (advance_store _ _ _)
      (h.orderly.advance (h.orderly.below _ hl) _) ?_ ?_
    · exact inProgress_step h.orderly hl _
    · exact fun i t => mem_advance_operations.mp
  | @hear id d failure hd =>
    exact h.continues hd (w.store.resumeDelivery_continues d failure) failure
  | subscribe =>
    refine ⟨h.roster.subscribe, ⟨h.orderly.distinct, h.orderly.below⟩,
      h.busy.addListener h.inProgress_new, ?_, ?_⟩
    · intro l
      exact h.balance_append l ⟨rfl, rfl⟩
    · intro i d hd
      exact h.present_append hd _
  | unsubscribe listener running =>
    have hb : Store.Busy (w.store.removeListener listener running).1 w.inProgress :=
      h.busy.removeListener listener running
    split
    case isTrue hl =>
      refine ⟨h.roster.unsubscribe hl running, ⟨h.orderly.distinct, h.orderly.below⟩, hb, ?_, ?_⟩
      · intro l
        exact h.balance_append l ⟨rfl, rfl⟩
      · intro i d hd
        exact h.present_append hd _
    case isFalse hl =>
      rw [List.append_nil, Store.removeListener, if_neg hl]
      exact h

end Scene

end EditorSession.Document
