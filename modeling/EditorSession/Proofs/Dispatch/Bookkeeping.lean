import EditorSession.Proofs.Dispatch.Run
import EditorSession.Proofs.Rpc.Key
import EditorSession.Proofs.Table
import Mathlib.Data.List.Nodup

/-! Who is pending. In every state of a run the pending table lists exactly the undecided requests,
each under the key of its own id and with the number of its own worker. So a cancellation reaches
the undecided request with its id and no other, and a worker that ends erases its own entry. -/

namespace EditorSession.Dispatch

variable {H N : Type}

/-- The event asks the request with the given id to stop, if that is pending. -/
def Event.stops (id : Rpc.Id) : Event → Prop
  | received frame _ => Cancels frame id
  | drained => True
  | concluded _ _ => False
  | delivered _ _ => False

/-- Asks an undecided worker to stop if `p` holds of the id of its request. -/
def Worker.stopIf (p : Rpc.Id → Bool) (w : Worker H) : Worker H :=
  if w.response.isNone ∧ p w.request.id then { w with stopped := true } else w

section StopIf

variable (p : Rpc.Id → Bool) (w : Worker H)

@[simp] theorem Worker.stopIf_id : (w.stopIf p).id = w.id := by
  unfold stopIf
  split <;> rfl

@[simp] theorem Worker.stopIf_request : (w.stopIf p).request = w.request := by
  unfold stopIf
  split <;> rfl

@[simp] theorem Worker.stopIf_handler : (w.stopIf p).handler = w.handler := by
  unfold stopIf
  split <;> rfl

@[simp] theorem Worker.stopIf_response : (w.stopIf p).response = w.response := by
  unfold stopIf
  split <;> rfl

theorem Worker.stopIf_stopped (h : w.response = none) :
    (w.stopIf p).stopped = (w.stopped || p w.request.id) := by
  unfold stopIf
  by_cases hp : p w.request.id = true <;> simp [h, hp]

end StopIf

namespace Dispatcher

structure Sound (d : Dispatcher H N) : Prop where
  ids : (d.workers.map (·.id)).Nodup
  bounded : ∀ w ∈ d.workers, w.id < d.accepted
  keys : d.pending.keys.Nodup
  pending_iff : ∀ k i, (k, i) ∈ d.pending ↔
    ∃ w ∈ d.workers, w.id = i ∧ w.response = none ∧ w.request.id.key = k

namespace Sound

variable {d : Dispatcher H N}

theorem eq_of_id (h : d.Sound) {v w : Worker H} (hv : v ∈ d.workers) (hw : w ∈ d.workers)
    (he : v.id = w.id) : v = w :=
  List.inj_on_of_nodup_map h.ids hv hw he

theorem worker?_eq_some_iff (h : d.Sound) {i : WorkerId} {w : Worker H} :
    d.worker? i = some w ↔ w ∈ d.workers ∧ w.id = i := by
  constructor
  · intro hf
    exact ⟨List.mem_of_find?_eq_some hf, by simpa using List.find?_some hf⟩
  · rintro ⟨hw, rfl⟩
    cases hf : d.worker? w.id with
    | none =>
      have hn := List.find?_eq_none.mp hf w hw
      simp at hn
    | some v =>
      have hv := List.find?_some hf
      rw [h.eq_of_id (List.mem_of_find?_eq_some hf) hw (by simpa using hv)]

/-- The table gives the worker of every undecided request. -/
theorem get?_pending_iff (h : d.Sound) {w : Worker H} (hw : w ∈ d.workers) (id : Rpc.Id) :
    Table.get? id.key d.pending = some w.id ↔ w.response = none ∧ w.request.id = id := by
  rw [Table.get?_eq_some_iff h.keys, h.pending_iff]
  constructor
  · rintro ⟨v, hv, he, hr, hk⟩
    rw [h.eq_of_id hv hw he] at hr hk
    exact ⟨hr, Rpc.Id.key_injective hk⟩
  · rintro ⟨hr, rfl⟩
    exact ⟨w, hw, rfl, hr, rfl⟩

/-- No two undecided requests have the same id. -/
theorem undecided_unique (h : d.Sound) {v w : Worker H} (hv : v ∈ d.workers) (hw : w ∈ d.workers)
    (hvn : v.response = none) (hwn : w.response = none) (he : v.request.id = w.request.id) :
    v = w := by
  have hgv := (h.get?_pending_iff hv _).mpr ⟨hvn, he⟩
  have hgw := (h.get?_pending_iff hw _).mpr ⟨hwn, rfl⟩
  rw [hgv, Option.some.injEq] at hgw
  exact h.eq_of_id hv hw hgw

theorem cancel_workers (h : d.Sound) (id : Rpc.Id) :
    (d.cancel id).1.workers = d.workers.map (·.stopIf (· = id)) := by
  unfold cancel
  split
  case h_1 hg =>
    rw [List.map_congr_left (g := fun w => w), List.map_id']
    intro w hw
    have hn : ¬(w.response.isNone = true ∧ decide (w.request.id = id) = true) := by
      intro hc
      have hg' := (h.get?_pending_iff hw id).mpr ⟨by simpa using hc.1, by simpa using hc.2⟩
      simp [hg] at hg'
    simp only [Worker.stopIf, if_neg hn]
  case h_2 i hg =>
    refine List.map_congr_left ?_
    intro w hw
    have hi : w.id = i ↔ w.response.isNone = true ∧ decide (w.request.id = id) = true := by
      have hg' := h.get?_pending_iff hw id
      rw [hg, Option.some.injEq] at hg'
      simpa using eq_comm.trans hg'
    simp only [Worker.stopIf, hi]

theorem stopPending_workers (h : d.Sound) :
    d.stopPending.workers = d.workers.map (·.stopIf fun _ => true) := by
  refine List.map_congr_left ?_
  intro w hw
  have ha : (d.pending.any fun entry => entry.2 = w.id) = true ↔
      w.response.isNone = true ∧ true = true := by
    simp only [List.any_eq_true, decide_eq_true_eq, and_true, Option.isNone_iff_eq_none]
    constructor
    · rintro ⟨⟨k, i⟩, hm, rfl⟩
      obtain ⟨v, hv, he, hr, -⟩ := (h.pending_iff k w.id).mp hm
      rwa [h.eq_of_id hv hw he] at hr
    · intro hr
      exact ⟨(w.request.id.key, w.id), (h.pending_iff _ _).mpr ⟨w, hw, rfl, hr, rfl⟩, rfl⟩
  simp only [Worker.stopIf, ha]

end Sound

/-- A request that no worker could be started for leaves the books as they were. -/
theorem Sound.withdraw_enter {d : Dispatcher H N} (hd : d.Sound) {r : Rpc.Request}
    (hk : ∀ i, (r.id.key, i) ∉ d.pending) (handler : H) :
    (d.enter r handler).withdraw r d.accepted = { d with workerFlaw := none } := by
  have hfresh : ∀ w ∈ d.workers, w.id ≠ d.accepted := fun w hw => Nat.ne_of_lt (hd.bounded w hw)
  have hw : d.workers.filter (fun w => w.id ≠ d.accepted) = d.workers :=
    List.filter_eq_self.mpr (by simpa using hfresh)
  rw [enter, withdraw, Table.erase_set_of_not_mem _ hk, List.filter_append, hw]
  simp

/-- A change, told by what it does to the table and the workers. Either no worker is concerned and
the undecided ones are asked to stop that an event stops, or one worker is added, decided or
removed. -/
inductive Turn (d : Dispatcher H N) : List Event → Dispatcher H N → Prop where
  | quiet {events d'} (p : Rpc.Id → Bool) (hn : ∀ e ∈ events, e.worker? = none)
      (hs : ∀ id, p id = true ↔ ∃ e ∈ events, e.stops id) (hp : d'.pending = d.pending)
      (hw : d'.workers = d.workers.map (·.stopIf p)) (ha : d'.accepted = d.accepted) :
      Turn d events d'
  | accepted {frame r handler d'} (hf : Incoming.ofFrame frame = .request r)
      (hk : ∀ i, (r.id.key, i) ∉ d.pending) (hp : d'.pending = d.pending ++ [(r.id.key, d.accepted)])
      (hw : d'.workers = d.workers ++ [{ id := d.accepted, request := r, handler }])
      (ha : d'.accepted = d.accepted + 1) : Turn d [.received frame (.accepted d.accepted)] d'
  | concluded {w outcome d'} (hm : w ∈ d.workers) (hr : w.response = none)
      (hp : d'.pending = Table.erase w.request.id.key d.pending)
      (hw : d'.workers = d.workers.map fun v =>
        if v.id = w.id then { v with response := some (w.responseTo outcome) } else v)
      (ha : d'.accepted = d.accepted) : Turn d [.concluded w.id outcome] d'
  | delivered {w response d'} (hm : w ∈ d.workers) (hr : w.response = some response)
      (hp : d'.pending = d.pending) (hw : d'.workers = d.workers.filter fun v => v.id ≠ w.id)
      (ha : d'.accepted = d.accepted) : Turn d [.delivered w.id response] d'

/-- Nobody is asked to stop. -/
theorem Turn.still {d d' : Dispatcher H N} {events : List Event}
    (hn : ∀ e ∈ events, e.worker? = none) (hs : ∀ e ∈ events, ∀ id, ¬e.stops id)
    (hp : d'.pending = d.pending) (hw : d'.workers = d.workers) (ha : d'.accepted = d.accepted) :
    d.Turn events d' := by
  refine .quiet (fun _ => false) hn ?_ hp ?_ ha
  · intro id
    simpa using fun e he => hs e he id
  · have hf : (fun w : Worker H => w.stopIf fun _ => false) = id := by
      funext w
      simp [Worker.stopIf]
    rw [hw, hf, List.map_id]

theorem Reception.turn {d d' : Dispatcher H N} {frame : Bytes} {fate : Fate} (hd : d.Sound)
    (h : d.Reception (.ofFrame frame) fate d') : d.Turn [.received frame fate] d' := by
  have hs : (∀ id, Incoming.ofFrame frame ≠ .cancel (some id)) →
      ∀ e ∈ [Event.received frame fate], ∀ id, ¬e.stops id := by
    intro hc e he id
    obtain rfl := List.mem_singleton.mp he
    simpa [Event.stops, ← Incoming.ofFrame_eq_cancel_iff] using hc id
  generalize hm : Incoming.ofFrame frame = m at h hs
  cases h with
  | aside _ _ hc hp hw ha => exact .still (by simp [Event.worker?]) (hs hc) hp hw ha
  | invalid | unknown | duplicate =>
    exact .still (by simp [Event.worker?]) (hs (by simp)) rfl rfl rfl
  | accepted handler hk =>
    have hk' := Table.contains_eq_false_iff.mp hk
    exact .accepted hm hk' (Table.set_of_not_mem _ hk') rfl rfl
  | unstarted handler reason hk =>
    rw [hd.withdraw_enter (Table.contains_eq_false_iff.mp hk)]
    exact .still (by simp [Event.worker?]) (hs (by simp)) rfl rfl rfl
  | cancel id =>
    refine .quiet (· = id) (by simp [Event.worker?]) ?_ ?_ (hd.cancel_workers id)
      (d.cancel_accepted id)
    · intro other
      simp only [decide_eq_true_eq, List.mem_singleton, exists_eq_left, Event.stops,
        ← Incoming.ofFrame_eq_cancel_iff, hm]
      simp [eq_comm]
    · unfold Dispatcher.cancel
      split <;> rfl

theorem Change.turn {d d' : Dispatcher H N} {events : List Event} (hd : d.Sound)
    (h : d.Change events d') : d.Turn events d' := by
  cases h with
  | aside hp hw ha => exact .still (by simp) (by simp) hp hw ha
  | received frame => exact (d.receive_reception (.ofFrame frame)).turn hd
  | drained =>
    refine .quiet (fun _ => true) (by simp [Event.worker?]) ?_ rfl hd.stopPending_workers rfl
    simp [Event.stops]
  | concluded outcome hw hr =>
    obtain ⟨hm, rfl⟩ := hd.worker?_eq_some_iff.mp hw
    rw [conclude, hw]
    exact .concluded hm hr rfl rfl rfl
  | delivered hw hr =>
    obtain ⟨hm, rfl⟩ := hd.worker?_eq_some_iff.mp hw
    rw [takeResponse_of_some hw hr]
    exact .delivered hm hr rfl rfl rfl

/-! ### Every change keeps the books sound -/

namespace Sound

variable {d d' : Dispatcher H N}

theorem of_empty (hp : d.pending = []) (hw : d.workers = []) : d.Sound := by
  refine ⟨by simp [hw], by simp [hw], by simp [hp, Table.keys], ?_⟩
  simp [hp, hw]

theorem quiet (hd : d.Sound) {p : Rpc.Id → Bool} (hp : d'.pending = d.pending)
    (hw : d'.workers = d.workers.map (·.stopIf p)) (ha : d'.accepted = d.accepted) : d'.Sound := by
  have hm : ∀ w, w ∈ d'.workers ↔ ∃ v ∈ d.workers, v.stopIf p = w := by
    intro w
    rw [hw, List.mem_map]
  refine ⟨?_, ?_, hp ▸ hd.keys, ?_⟩
  · rw [hw, List.map_map]
    simpa [Function.comp_def] using hd.ids
  · intro w hw'
    obtain ⟨v, hv, rfl⟩ := (hm w).mp hw'
    simpa [ha] using hd.bounded v hv
  · intro k i
    rw [hp, hd.pending_iff]
    constructor
    · rintro ⟨v, hv, hi, hr, hk⟩
      exact ⟨v.stopIf p, (hm _).mpr ⟨v, hv, rfl⟩, by simpa using hi, by simpa using hr, by simpa using hk⟩
    · rintro ⟨w, hw', hi, hr, hk⟩
      obtain ⟨v, hv, rfl⟩ := (hm w).mp hw'
      exact ⟨v, hv, by simpa using hi, by simpa using hr, by simpa using hk⟩

theorem accepted (hd : d.Sound) {r : Rpc.Request} {handler : H}
    (hk : ∀ i, (r.id.key, i) ∉ d.pending) (hp : d'.pending = d.pending ++ [(r.id.key, d.accepted)])
    (hw : d'.workers = d.workers ++ [{ id := d.accepted, request := r, handler }])
    (ha : d'.accepted = d.accepted + 1) : d'.Sound := by
  have hfresh : ∀ w ∈ d.workers, w.id ≠ d.accepted := fun w hw => Nat.ne_of_lt (hd.bounded w hw)
  refine ⟨?_, ?_, ?_, ?_⟩
  · rw [hw, List.map_append, List.nodup_append']
    refine ⟨hd.ids, by simp, ?_⟩
    simpa [List.disjoint_singleton] using hfresh
  · intro w hm
    rw [hw, List.mem_append, List.mem_singleton] at hm
    rcases hm with hm | rfl
    · exact ha ▸ Nat.lt_succ_of_lt (hd.bounded w hm)
    · exact ha ▸ Nat.lt_succ_self _
  · rw [hp, Table.keys, List.map_append, List.nodup_append']
    exact ⟨hd.keys, by simp, by simpa [List.disjoint_singleton] using hk⟩
  · intro k i
    simp only [hp, hw, List.mem_append, List.mem_singleton, hd.pending_iff]
    constructor
    · rintro (⟨w, hm, hi⟩ | he)
      · exact ⟨w, .inl hm, hi⟩
      · cases he
        exact ⟨_, .inr rfl, rfl, rfl, rfl⟩
    · rintro ⟨w, hm | rfl, hi, hr, hk⟩
      · exact .inl ⟨w, hm, hi, hr, hk⟩
      · exact .inr (by rw [← hi, ← hk])

theorem concluded (hd : d.Sound) {w : Worker H} {response : Rpc.Response} (hm : w ∈ d.workers)
    (hr : w.response = none) (hp : d'.pending = Table.erase w.request.id.key d.pending)
    (hw : d'.workers = d.workers.map fun v =>
      if v.id = w.id then { v with response := some response } else v)
    (ha : d'.accepted = d.accepted) : d'.Sound := by
  -- a worker that is still undecided afterwards is another one and was left alone
  have hother : ∀ v, (v ∈ d'.workers ∧ v.response = none) ↔
      (v ∈ d.workers ∧ v.response = none ∧ v.id ≠ w.id) := by
    intro v
    rw [hw, List.mem_map]
    constructor
    · rintro ⟨⟨u, hu, rfl⟩, hn⟩
      by_cases he : u.id = w.id
      · simp [he] at hn
      · simp only [he, ↓reduceIte] at hn ⊢
        exact ⟨hu, hn, he⟩
    · rintro ⟨hv, hn, he⟩
      exact ⟨⟨v, hv, by simp [he]⟩, hn⟩
  have hids : d'.workers.map (·.id) = d.workers.map (·.id) := by
    rw [hw, List.map_map]
    refine List.map_congr_left ?_
    intro v _
    by_cases he : v.id = w.id <;> simp [he]
  refine ⟨hids ▸ hd.ids, ?_, hp ▸ Table.nodup_keys_erase _ hd.keys, ?_⟩
  · intro v hv
    have hi : v.id ∈ d.workers.map (·.id) := hids ▸ List.mem_map_of_mem hv
    obtain ⟨u, hu, he⟩ := List.mem_map.mp hi
    rw [← he, ha]
    exact hd.bounded u hu
  · intro k i
    rw [hp, Table.mem_erase, hd.pending_iff]
    constructor
    · rintro ⟨⟨v, hv, hi, hn, hk⟩, hne⟩
      have he : v.id ≠ w.id := by
        intro he
        rw [hd.eq_of_id hv hm he] at hk
        exact hne hk.symm
      obtain ⟨hv', hn'⟩ := (hother v).mpr ⟨hv, hn, he⟩
      exact ⟨v, hv', hi, hn', hk⟩
    · rintro ⟨v, hv, hi, hn, hk⟩
      obtain ⟨hv', hn', he⟩ := (hother v).mp ⟨hv, hn⟩
      refine ⟨⟨v, hv', hi, hn', hk⟩, ?_⟩
      intro hkw
      have hid : v.request.id = w.request.id := Rpc.Id.key_injective (hk.trans hkw)
      exact he (congrArg _ (hd.undecided_unique hv' hm hn' hr hid))

theorem delivered (hd : d.Sound) {w : Worker H} {response : Rpc.Response} (hm : w ∈ d.workers)
    (hr : w.response = some response) (hp : d'.pending = d.pending)
    (hw : d'.workers = d.workers.filter fun v => v.id ≠ w.id) (ha : d'.accepted = d.accepted) :
    d'.Sound := by
  have hmem : ∀ v, v ∈ d'.workers ↔ v ∈ d.workers ∧ v.id ≠ w.id := by
    intro v
    simp [hw]
  refine ⟨?_, ?_, hp ▸ hd.keys, ?_⟩
  · rw [hw]
    exact hd.ids.sublist (List.filter_sublist.map _)
  · intro v hv
    rw [ha]
    exact hd.bounded v ((hmem v).mp hv).1
  · intro k i
    rw [hp, hd.pending_iff]
    constructor
    · rintro ⟨v, hv, hi, hn, hk⟩
      refine ⟨v, (hmem v).mpr ⟨hv, ?_⟩, hi, hn, hk⟩
      intro he
      rw [hd.eq_of_id hv hm he, hr] at hn
      cases hn
    · rintro ⟨v, hv, hi, hn, hk⟩
      exact ⟨v, ((hmem v).mp hv).1, hi, hn, hk⟩

theorem turn {events : List Event} (hd : d.Sound) (h : d.Turn events d') : d'.Sound := by
  cases h with
  | quiet p hn hs hp hw ha => exact hd.quiet hp hw ha
  | accepted hf hk hp hw ha => exact hd.accepted hk hp hw ha
  | concluded hm hr hp hw ha => exact hd.concluded hm hr hp hw ha
  | delivered hm hr hp hw ha => exact hd.delivered hm hr hp hw ha

end Sound

end Dispatcher

theorem Service.Run.sound {trace : List Event} {s : Service H N} (h : Run trace s) :
    s.dispatcher.Sound :=
  h.dispatcher_induction (P := fun _ d => d.Sound) (.of_empty rfl rfl)
    fun hd hc => hd.turn (hc.turn hd)

/-- What holds of a new dispatcher and is kept by every turn holds along every run. -/
theorem Service.Run.turn_induction {P : List Event → Dispatcher H N → Prop} (fresh : P [] {})
    (turn : ∀ {trace d events d'}, d.Sound → P trace d → d.Turn events d' → P (trace ++ events) d')
    {trace : List Event} {s : Service H N} (h : Run trace s) : P trace s.dispatcher :=
  And.right <| h.dispatcher_induction (P := fun trace d => d.Sound ∧ P trace d)
    ⟨.of_empty rfl rfl, fresh⟩
    fun ⟨hd, hp⟩ hc => ⟨hd.turn (hc.turn hd), turn hd hp (hc.turn hd)⟩

end EditorSession.Dispatch
