import EditorSession.Proofs.Session.Step
import EditorSession.Proofs.Dispatch.Answers

/-! The requests of a server. A handler is started only for a request that is neither decided nor being
served, and what is being served is undecided. So every move is a turn of the dispatcher. -/

namespace EditorSession.Session

open Dispatch (WorkerId Worker Unconcerned)

namespace Server

variable {s s' : Server} {id j : WorkerId} {worker w : Worker RequestHandler}

/-! ### Moves that concern no request -/

/-- The requests stand as they stood. -/
structure SameRequests (s s' : Server) : Prop where
  pending : s'.service.dispatcher.pending = s.service.dispatcher.pending
  workers : s'.service.dispatcher.workers = s.service.dispatcher.workers
  accepted : s'.service.dispatcher.accepted = s.service.dispatcher.accepted
  waits : s'.waits = s.waits

theorem SameRequests.refl (s : Server) : s.SameRequests s := ⟨rfl, rfl, rfl, rfl⟩

theorem SameRequests.finishJob (h : s.SameRequests s') (failure : Option Rpc.Failure) :
    s.SameRequests (s'.finishJob failure).1 := by
  obtain ⟨hp, hw, ha⟩ := s'.service.dispatcher.finishJob_keeps failure
  exact ⟨hp.trans h.pending, hw.trans h.workers, ha.trans h.accepted, h.waits⟩

theorem SameRequests.progressed (h : s.SameRequests s') (progress : Workspace.Progress) :
    s.SameRequests (s'.progressed progress).1 := by
  apply progressed_induction (P := s.SameRequests)
  · intro s'' n h
    have hd := s''.service.notify_dispatcher n
    exact ⟨hd ▸ h.pending, hd ▸ h.workers, hd ▸ h.accepted, h.waits⟩
  · intro s'' id outcome h
    rcases s''.settleOperation_cases id outcome with ⟨changes, hs⟩ | ⟨-, hs⟩
    · rw [hs]
      exact ⟨h.pending, h.workers, h.accepted, h.waits⟩
    · rw [hs]
      exact h.finishJob none
  · exact ⟨h.pending, h.workers, h.accepted, h.waits⟩

theorem SameRequests.operate (h : s.SameRequests s') (operation : Document.Operation) :
    s.SameRequests (s'.operate operation).1 := by
  have hc : s.SameRequests { s' with chore := some (.operation s'.workspace.begun) } :=
    ⟨h.pending, h.workers, h.accepted, h.waits⟩
  exact hc.progressed _

theorem SameRequests.exit (h : s.SameRequests s') (clean : Bool) :
    s.SameRequests (s'.exit clean).1 := by
  obtain ⟨hp, hw, ha, hs⟩ := h.finishJob none
  exact ⟨hp, hw, ha, hs⟩

theorem handle_sameRequests (s : Server) : s.SameRequests s.handle.1 := by
  rcases s.handle_cases with hs | ⟨service, job, hj⟩
  · rw [hs]
    exact .refl s
  · have ht : s.SameRequests { s with service } := by
      obtain ⟨-, rest, -, rfl⟩ := Dispatch.Service.takeJob_eq_some hj
      exact ⟨rfl, rfl, rfl, rfl⟩
    rw [handle_eq hj]
    cases job.handler with
    | initialized => exact ⟨ht.pending, ht.workers, ht.accepted, ht.waits⟩
    | exit => exact ht.exit _
    | didOpen | didChange | didClose | didSave =>
      dsimp only
      unfold handleDocument
      split
      · split
        · exact ht.finishJob _
        · exact ht.finishJob _
        · exact ht.operate _
      · exact ht.finishJob _

theorem close_sameRequests (s : Server) : s.SameRequests s.close.1 := by
  unfold close
  split
  · split
    · dsimp only
      split <;> exact ⟨rfl, rfl, rfl, rfl⟩
    · exact .refl s
  · split
    · exact ⟨rfl, rfl, rfl, rfl⟩
    · exact .refl s
  · exact .refl s
  · exact .refl s

/-- The move is none of a request's, and receives none. -/
def IsAside : Move → Prop
  | .receive => False
  | .serve _ => False
  | .answer _ _ => False
  | .calm _ => False
  | .deliver _ => False
  | _ => True

theorem step_sameRequests (s : Server) (now : Int) {move : Move} (hm : IsAside move) :
    s.SameRequests (s.step now move).1 := by
  have hrefl : s.SameRequests s := .refl s
  cases move with
  | receive => exact hm.elim
  | serve id => exact hm.elim
  | answer id answers => exact hm.elim
  | calm id => exact hm.elim
  | deliver id => exact hm.elim
  | handle => exact s.handle_sameRequests
  | opened =>
    simp only [step, opened]
    split
    · exact hrefl.finishJob none
    · exact hrefl
  | modelChanged =>
    have hc : s.SameRequests { s with changes := s.changes ++ [s.workspace.begun] } :=
      ⟨rfl, rfl, rfl, rfl⟩
    exact hc.progressed _
  | resolve id answer => exact hrefl.progressed _
  | tell id => exact hrefl.progressed _
  | beginComputation => exact hrefl.progressed _
  | diagnosed id outcome => exact hrefl.progressed _
  | fire => exact hrefl.progressed _
  | close => exact s.close_sameRequests

/-! ### Requests about to be served -/

theorem SameRequests.serves (h : s.SameRequests s') : s'.Serves j w ↔ s.Serves j w := by
  have hw : s'.service.dispatcher.worker? j = s.service.dispatcher.worker? j := by
    rw [Dispatch.Dispatcher.worker?, h.workers]
    rfl
  have hj : s'.wait? j = s.wait? j := by
    rw [wait?, h.waits]
    rfl
  constructor
  · rintro ⟨hf, hu, hn⟩
    exact ⟨hw ▸ hf, hu, hj ▸ hn⟩
  · rintro ⟨hf, hu, hn⟩
    exact ⟨hw ▸ hf, hu, hj ▸ hn⟩

theorem wait?_conclude (s : Server) (id j : WorkerId) (outcome : Except Rpc.Failure Json) :
    (s.conclude id outcome).1.wait? j = if j = id then none else s.wait? j := by
  rw [wait?, conclude, served]
  dsimp only
  rw [List.find?_filter]
  by_cases hj : j = id
  · subst hj
    simp
  · rw [if_neg hj, wait?]
    congr 2
    funext entry
    by_cases he : entry.1 = j
    · simp [he, hj]
    · simp [he]

/-- The end of a handler decides its request and leaves the others. -/
theorem worker?_conclude (s : Server) (id j : WorkerId) (outcome : Except Rpc.Failure Json) :
    (s.conclude id outcome).1.service.dispatcher.worker? j =
      (s.service.dispatcher.worker? j).map fun w =>
        if j = id then { w with response := some (w.responseTo outcome) } else w := by
  rw [conclude, served, Dispatch.Service.conclude]
  dsimp only
  unfold Dispatch.Dispatcher.conclude
  cases hw : s.service.dispatcher.worker? id with
  | none =>
    dsimp only
    by_cases hj : j = id
    · rw [hj, hw]
      rfl
    · simp [hj]
  | some worker =>
    dsimp only [Dispatch.Dispatcher.worker?]
    rw [List.find?_map]
    have hp : ((fun w : Worker RequestHandler => decide (w.id = j)) ∘ fun w =>
        if w.id = id then { w with response := some (worker.responseTo outcome) } else w) =
          fun w => decide (w.id = j) := by
      funext w
      by_cases hi : w.id = id <;> simp [hi]
    rw [hp]
    refine Option.map_congr ?_
    intro w hf
    obtain rfl : w.id = j := by simpa using List.find?_some hf
    by_cases hi : w.id = id
    · rw [if_pos hi, if_pos hi]
      obtain rfl : w = worker := by
        rw [Dispatch.Dispatcher.worker?, ← hi, hf, Option.some.injEq] at hw
        exact hw
      rfl
    · rw [if_neg hi, if_neg hi]

/-- A request that has ended is not served again, and the others are to be served as before. -/
theorem serves_conclude {outcome : Except Rpc.Failure Json} :
    (s.conclude id outcome).1.Serves j w ↔ j ≠ id ∧ s.Serves j w := by
  constructor
  · rintro ⟨hf, hu, hn⟩
    rw [worker?_conclude] at hf
    obtain ⟨v, hv, rfl⟩ := Option.map_eq_some_iff.mp hf
    by_cases hj : j = id
    · simp [hj] at hu
    · rw [if_neg hj] at hu ⊢
      rw [wait?_conclude, if_neg hj] at hn
      exact ⟨hj, hv, hu, hn⟩
  · rintro ⟨hj, hf, hu, hn⟩
    refine ⟨?_, hu, ?_⟩
    · rw [worker?_conclude, hf]
      simp [hj]
    · rw [wait?_conclude, if_neg hj]
      exact hn

theorem serves_await {wait : Wait} : (s.await id wait).1.Serves j w ↔ j ≠ id ∧ s.Serves j w := by
  have hw : (s.await id wait).1.wait? j = none ↔ j ≠ id ∧ s.wait? j = none := by
    by_cases hj : id = j
    · simp [await, wait?, List.find?_append, hj]
    · simp [await, wait?, List.find?_append, hj, Ne.symm hj]
  constructor
  · rintro ⟨hf, hu, hn⟩
    exact ⟨(hw.mp hn).1, hf, hu, (hw.mp hn).2⟩
  · rintro ⟨hj, hf, hu, hn⟩
    exact ⟨hf, hu, hw.mpr ⟨hj, hn⟩⟩

theorem worker?_takeResponse (d : Dispatch.Dispatcher RequestHandler NotificationHandler)
    (hj : j ≠ id) : (d.takeResponse id).1.worker? j = d.worker? j := by
  unfold Dispatch.Dispatcher.takeResponse
  split
  · rfl
  · rw [Dispatch.Dispatcher.worker?, List.find?_filter, Dispatch.Dispatcher.worker?]
    congr 1
    funext w
    by_cases hi : w.id = j <;> simp [hi, hj]

/-- A worker whose response is taken is gone, and it was decided before. -/
theorem not_undecided_takeResponse (d : Dispatch.Dispatcher RequestHandler NotificationHandler)
    (hw : (d.takeResponse id).1.worker? id = some w) : d.worker? id = some w := by
  unfold Dispatch.Dispatcher.takeResponse at hw
  split at hw
  case h_1 => exact hw
  case h_2 =>
    have hm := List.mem_of_find?_eq_some hw
    have hi := List.find?_some hw
    simp_all

theorem serves_deliver : (s.served (s.service.deliver id)).1.Serves j w ↔ s.Serves j w := by
  have hd : (s.served (s.service.deliver id)).1.service.dispatcher =
      (s.service.dispatcher.takeResponse id).1 := s.service.deliver_dispatcher id
  by_cases hj : j = id
  · subst hj
    constructor
    · rintro ⟨hf, hu, hn⟩
      exact ⟨not_undecided_takeResponse _ (hd ▸ hf), hu, hn⟩
    · rintro ⟨hf, hu, hn⟩
      refine ⟨?_, hu, hn⟩
      rw [hd, Dispatch.Dispatcher.takeResponse, hf]
      simpa [hu] using hf
  · constructor
    · rintro ⟨hf, hu, hn⟩
      exact ⟨worker?_takeResponse _ hj ▸ hd ▸ hf, hu, hn⟩
    · rintro ⟨hf, hu, hn⟩
      exact ⟨hd ▸ (worker?_takeResponse _ hj).trans hf, hu, hn⟩

/-- A request that is served is not to be served any more. -/
theorem Serving.serves (h : s.Serving id s') : s'.Serves j w ↔ j ≠ id ∧ s.Serves j w := by
  have hs : ∀ state roots workspace,
      Serves { s with state, roots, workspace } j w ↔ s.Serves j w :=
    fun _ _ _ => ⟨fun ⟨hf, hu, hn⟩ => ⟨hf, hu, hn⟩, fun ⟨hf, hu, hn⟩ => ⟨hf, hu, hn⟩⟩
  cases h with
  | concluded state roots workspace =>
    exact serves_conclude.trans (and_congr_right fun _ => hs state roots workspace)
  | awaits state workspace =>
    exact serves_await.trans (and_congr_right fun _ => hs state s.roots workspace)

/-- What waits is not about to be served, so its end leaves what is. -/
theorem serves_conclude_of_wait {wait : Wait} (h : s.wait? id = some wait)
    {outcome : Except Rpc.Failure Json} : (s.conclude id outcome).1.Serves j w ↔ s.Serves j w := by
  refine serves_conclude.trans ⟨fun hs => hs.2, fun hs => ⟨?_, hs⟩⟩
  rintro rfl
  simp [hs.unserved] at h

/-- Only receiving and serving change what is about to be served. -/
theorem step_serves (now : Int) {move : Move} (hr : move ≠ .receive) (hs : ∀ id, move ≠ .serve id) :
    (s.step now move).1.Serves j w ↔ s.Serves j w := by
  cases move with
  | receive => exact absurd rfl hr
  | serve id => exact absurd rfl (hs id)
  | answer id answers =>
    simp only [step, answer]
    split
    case h_1 hw _ => exact serves_conclude_of_wait hw
    case h_2 => rfl
  | calm id =>
    simp only [step, calm]
    split
    case h_1 hw =>
      split
      · exact serves_conclude_of_wait hw
      · rfl
    case h_2 => rfl
  | deliver id => exact serves_deliver
  | _ =>
    refine (s.step_sameRequests now ?_).serves
    trivial

/-! ### What waits is undecided -/

/-- The books are sound, and every request that waits is undecided. -/
structure Orderly (s : Server) : Prop where
  sound : s.service.dispatcher.Sound
  waiting : ∀ entry ∈ s.waits,
    ∃ w ∈ s.service.dispatcher.workers, w.id = entry.1 ∧ w.response = none

/-- A move, told by what it does to the requests. What waits after it was undecided before, and the
move has not concerned it. -/
structure Books (s : Server) (events : List Dispatch.Event) (s' : Server) : Prop where
  turn : s.service.dispatcher.Turn events s'.service.dispatcher
  waiting : ∀ entry ∈ s'.waits, Unconcerned entry.1 events ∧
    ∃ w ∈ s.service.dispatcher.workers, w.id = entry.1 ∧ w.response = none
  delivered : Dispatch.writable s.service.channel Dispatch.Service.ownSide = true → ∀ id response,
    .delivered id response ∈ events → s'.service.sent = s.service.sent ++ [response.encode]

theorem SameRequests.books (h : s.SameRequests s') (ho : s.Orderly) : s.Books [] s' where
  turn := .still (by simp) (by simp) h.pending h.workers h.accepted
  waiting entry hm := ⟨by simp [Unconcerned], ho.waiting entry (h.waits ▸ hm)⟩
  delivered _ _ _ hm := by simp at hm

theorem Orderly.conclude (ho : s.Orderly) (hw : s.service.dispatcher.worker? id = some w)
    (hr : w.response = none) (outcome : Except Rpc.Failure Json) :
    s.Books [.concluded id outcome] (s.conclude id outcome).1 where
  turn := (Dispatch.Dispatcher.Change.concluded outcome hw hr).turn ho.sound
  waiting entry hm := by
    obtain ⟨hm, hi⟩ := List.mem_filter.mp hm
    have hi : entry.1 ≠ id := by simpa using hi
    exact ⟨by simpa [Unconcerned, Dispatch.Event.worker?] using hi.symm, ho.waiting entry hm⟩
  delivered _ _ _ hm := by simp at hm

theorem Orderly.await (ho : s.Orderly) (hw : s.service.dispatcher.worker? id = some w)
    (hr : w.response = none) (wait : Wait) : s.Books [] (s.await id wait).1 where
  turn := .still (by simp) (by simp) rfl rfl rfl
  waiting entry hm := by
    refine ⟨by simp [Unconcerned], ?_⟩
    rcases List.mem_append.mp hm with hm | hm
    · exact ho.waiting entry hm
    · obtain rfl := List.mem_singleton.mp hm
      obtain ⟨hm, hi⟩ := ho.sound.worker?_eq_some_iff.mp hw
      exact ⟨w, hm, hi, hr⟩
  delivered _ _ _ hm := by simp at hm

theorem Orderly.deliver (ho : s.Orderly) (id : WorkerId) :
    ∃ events, s.Books events (s.served (s.service.deliver id)).1 := by
  cases hd : (s.service.dispatcher.worker? id).bind (·.response) with
  | none =>
    have hd : s.service.deliver id = (s.service, []) := by
      simp [Dispatch.Service.deliver, Dispatch.Dispatcher.takeResponse, hd]
    rw [hd]
    exact ⟨_, (SameRequests.refl s).books ho⟩
  | some response =>
    obtain ⟨w, hw, hr⟩ := Option.bind_eq_some_iff.mp hd
    refine ⟨[.delivered id response], ?_, ?_, ?_⟩
    · have hc := Dispatch.Dispatcher.Change.delivered hw hr
      rw [← s.service.deliver_dispatcher id] at hc
      exact hc.turn ho.sound
    · intro entry hm
      obtain ⟨v, hv, hi, hn⟩ := ho.waiting entry hm
      refine ⟨?_, v, hv, hi, hn⟩
      simp only [Unconcerned, List.forall_mem_singleton, Dispatch.Event.worker?, ne_eq,
        Option.some.injEq]
      rintro rfl
      rw [ho.sound.worker?_eq_some_iff] at hw
      rw [ho.sound.eq_of_id hv hw.1 (hi.trans hw.2.symm), hr] at hn
      cases hn
    · intro hc id' response' hm
      obtain ⟨rfl, rfl⟩ : id' = id ∧ response' = response := by simpa using hm
      have hs := (Dispatch.Service.Move.deliver hw hr).sent_eq
      simp only [hc, ↓reduceIte, List.flatMap_singleton, Dispatch.Event.responses, List.map_cons,
        List.map_nil] at hs
      exact hs

/-- A request that the loop accepts gets a number of its own. -/
theorem loopEvents_worker? {service service' : Dispatch.Service RequestHandler NotificationHandler}
    {notices : List Log.Notice} (hn : service.next? = some (service', notices)) :
    ∀ e ∈ service.loopEvents, ∀ n, e.worker? = some n → n = service.dispatcher.accepted := by
  intro e he n hen
  obtain ⟨_, hl, -⟩ | ⟨_, hl, -⟩ | ⟨_, frame, -, hl, -⟩ := Dispatch.Service.next?_cases hn
  · simp [hl] at he
  · obtain rfl : e = .drained := by simpa [hl] using he
    cases hen
  · obtain rfl : e = _ := by simpa [hl] using he
    unfold Dispatch.Dispatcher.fate at hen
    split at hen
    · cases hen
    · split at hen
      · exact (Option.some.inj hen).symm
      · cases hen

theorem Orderly.receive (ho : s.Orderly)
    {service : Dispatch.Service RequestHandler NotificationHandler} {notices : List Log.Notice}
    (hn : s.service.next? = some (service, notices)) :
    s.Books s.service.loopEvents { s with service } where
  turn := (Dispatch.Service.Move.loop hn).change.turn ho.sound
  waiting entry hm := by
    obtain ⟨w, hw, hi, hr⟩ := ho.waiting entry hm
    refine ⟨?_, w, hw, hi, hr⟩
    intro e he hen
    have hlt := ho.sound.bounded w hw
    rw [hi, loopEvents_worker? hn e he _ hen] at hlt
    exact Nat.lt_irrefl _ hlt
  delivered _ id response hm := by
    obtain ⟨_, hl, -⟩ | ⟨_, hl, -⟩ | ⟨_, frame, -, hl, -⟩ := Dispatch.Service.next?_cases hn <;>
      simp [hl] at hm

theorem Orderly.serve (ho : s.Orderly) (hw : s.Serves id worker) (h : s.Serving id s') :
    ∃ events, s.Books events s' := by
  cases h with
  | concluded state roots workspace outcome =>
    obtain ⟨ht, hs, hd⟩ := ho.conclude hw.found hw.undecided outcome
    exact ⟨_, ht, hs, hd⟩
  | awaits state workspace wait =>
    obtain ⟨ht, hs, hd⟩ := ho.await hw.found hw.undecided wait
    exact ⟨_, ht, hs, hd⟩

/-- The end of what waits is the end of an undecided request. -/
theorem Orderly.conclude_of_wait (ho : s.Orderly) {wait : Wait} (h : s.wait? id = some wait)
    (outcome : Except Rpc.Failure Json) : ∃ events, s.Books events (s.conclude id outcome).1 := by
  obtain ⟨entry, hf, -⟩ := Option.map_eq_some_iff.mp h
  have hi : entry.1 = id := by simpa using List.find?_some hf
  obtain ⟨w, hw, hwi, hr⟩ := ho.waiting entry (List.mem_of_find?_eq_some hf)
  exact ⟨_, ho.conclude (ho.sound.worker?_eq_some_iff.mpr ⟨hw, hwi.trans hi⟩) hr outcome⟩

theorem Orderly.step_books (ho : s.Orderly) (now : Int) (move : Move) :
    ∃ events, s.Books events (s.step now move).1 := by
  have hrefl : s.Books [] s := (SameRequests.refl s).books ho
  cases move with
  | receive =>
    simp only [Server.step]
    split
    case h_1 next hn => exact ⟨_, ho.receive hn⟩
    case h_2 => exact ⟨_, hrefl⟩
  | serve id =>
    rcases s.serve_cases id with hs | ⟨worker, hw⟩
    · rw [Server.step, hs]
      exact ⟨_, hrefl⟩
    · exact ho.serve hw hw.serving
  | answer id answers =>
    simp only [Server.step, answer]
    split
    case h_1 hw _ => exact ho.conclude_of_wait hw _
    case h_2 => exact ⟨_, hrefl⟩
  | calm id =>
    simp only [Server.step, calm]
    split
    case h_1 hw =>
      split
      · exact ho.conclude_of_wait hw _
      · exact ⟨_, hrefl⟩
    case h_2 => exact ⟨_, hrefl⟩
  | deliver id => exact ho.deliver id
  | _ =>
    refine ⟨[], (s.step_sameRequests now ?_).books ho⟩
    trivial

/-- What was undecided and is not concerned stays so. -/
theorem Books.orderly {events : List Dispatch.Event} (h : s.Books events s') (ho : s.Orderly) :
    s'.Orderly where
  sound := ho.sound.turn h.turn
  waiting entry hm := by
    obtain ⟨hu, w, hw, hi, hr⟩ := h.waiting entry hm
    obtain ⟨w', hw', hi', -, hr', -⟩ := h.turn.keeps hw (hi ▸ hu)
    exact ⟨w', hw', hi'.trans hi, hr'.trans hr⟩

theorem Orderly.step (ho : s.Orderly) (now : Int) (move : Move) : (s.step now move).1.Orderly := by
  obtain ⟨events, h⟩ := ho.step_books now move
  exact h.orderly ho

/-! ### Responses that are given -/

/-- The response was written after the first `n` messages, or it is decided. -/
def Given (s : Server) (n : Nat) (r : Rpc.Response) : Prop :=
  r.encode ∈ s.service.sent.drop n ∨ ∃ w ∈ s.service.dispatcher.workers, w.response = some r

theorem mem_drop_mono {α : Type} {xs ys : List α} {x : α} {n : Nat} (h : xs <+: ys)
    (hx : x ∈ xs.drop n) : x ∈ ys.drop n := by
  obtain ⟨more, rfl⟩ := h
  rw [List.drop_append]
  exact List.mem_append_left _ hx

/-- A response that is given stays given: who is decided is not decided again, and when the response is
taken it is written. -/
theorem Books.given {events : List Dispatch.Event} (h : s.Books events s') (ho : s.Orderly)
    (hc : Dispatch.writable s.service.channel Dispatch.Service.ownSide = true)
    (hs : s.service.sent <+: s'.service.sent) {n : Nat} (hn : n ≤ s.service.sent.length)
    {r : Rpc.Response} (hg : s.Given n r) : s'.Given n r := by
  rcases hg with hg | ⟨w, hw, hr⟩
  · exact .inl (mem_drop_mono hs hg)
  · by_cases hu : Unconcerned w.id events
    · obtain ⟨w', hw', -, -, hr', -⟩ := h.turn.keeps hw hu
      exact .inr ⟨w', hw', hr'.trans hr⟩
    · have hd := h.delivered hc
      cases h.turn with
      | quiet p hq => exact absurd (fun e he => by simp [hq e he]) hu
      | accepted hf hk hp hw' =>
        exact .inr ⟨w, hw' ▸ List.mem_append_left _ hw, hr⟩
      | @concluded v outcome _ hv hn' =>
        have hi : v.id = w.id := by simpa [Unconcerned, Dispatch.Event.worker?] using hu
        rw [ho.sound.eq_of_id hv hw hi, hr] at hn'
        cases hn'
      | @delivered v response _ hv hr' =>
        have hi : v.id = w.id := by simpa [Unconcerned, Dispatch.Event.worker?] using hu
        rw [ho.sound.eq_of_id hv hw hi, hr] at hr'
        obtain rfl := Option.some.inj hr'
        refine .inl ?_
        rw [hd _ _ (List.mem_singleton_self _), List.drop_append_of_le_length hn]
        exact List.mem_append_right _ (List.mem_singleton_self _)

end Server

end EditorSession.Session
