import EditorSession.Proofs.Dispatch.Answers
import Mathlib.Data.List.Basic

/-! Cancellation is exact. What happens between acceptance and the end of the handler settles the
response; later stops, and stops of other ids, change nothing. -/

namespace EditorSession.Dispatch

variable {H N : Type}

/-! ### The moment of decision -/

/-- A frame is taken over at one place of the record. -/
theorem Acceptance.eq_of_split {trace before before' since since' : List Event} {n : WorkerId}
    {frame frame' : Bytes} {r : Rpc.Request} {workers : List (Worker H)}
    (ha : Acceptance trace n before frame r since) (hs : Stage workers n r since)
    (he : trace = before' ++ .received frame' (.accepted n) :: since') :
    frame' = frame ∧ since' = since := by
  have hb : .received frame' (.accepted n) ∉ before := fun hm => ha.unconcerned _ hm rfl
  have hsplit := ha.trace_eq.symm.trans he
  rw [List.append_cons_inj_of_notMem hb (hs.not_accepted frame')] at hsplit
  obtain ⟨-, hf, hl⟩ := hsplit
  injection hf with hf
  exact ⟨hf.symm, hl.symm⟩

theorem Unconcerned.not_concluded {n : WorkerId} {events : List Event} (h : Unconcerned n events)
    (outcome : Except Rpc.Failure Json) : .concluded n outcome ∉ events :=
  fun hm => h _ hm rfl

/-- Once its handler has ended, a request has its verdict: the response is on record, or the worker
still holds it. -/
theorem Stage.verdict {workers : List (Worker H)} {n : WorkerId} {r : Rpc.Request}
    {during after : List Event} {outcome : Except Rpc.Failure Json}
    (h : Stage workers n r (during ++ .concluded n outcome :: after)) :
    ∃ response, Verdict r.id during outcome response ∧
      ((∃ w ∈ workers, w.id = n ∧ w.response = some response) ∨ .delivered n response ∈ after) := by
  generalize he : during ++ .concluded n outcome :: after = since at h
  cases h with
  | running hm hi hq hr hs hu =>
    have hn := hu.not_concluded outcome
    simp [← he] at hn
  | @decided w during' outcome' later response hm hi hr hv hu hl =>
    rw [eq_comm, List.append_cons_inj_of_notMem (hu.not_concluded _) (hl.not_concluded _)] at he
    obtain ⟨rfl, hc, rfl⟩ := he
    cases hc
    exact ⟨response, hv, .inl ⟨w, hm, hi, hr⟩⟩
  | @answered during' outcome' between response later hw hv hu hb hl =>
    have hn : .concluded n outcome ∉ between ++ .delivered n response :: later := by
      simp [hb.not_concluded, hl.not_concluded]
    rw [eq_comm, List.append_cons_inj_of_notMem (hu.not_concluded _) hn] at he
    obtain ⟨rfl, hc, rfl⟩ := he
    cases hc
    exact ⟨response, hv, .inr (by simp)⟩

/-- A response is written only after its handler has ended. -/
theorem Stage.concluded_of_delivered {workers : List (Worker H)} {n : WorkerId} {r : Rpc.Request}
    {since : List Event} {response : Rpc.Response} (h : Stage workers n r since)
    (hm : .delivered n response ∈ since) :
    ∃ during outcome after, since = during ++ .concluded n outcome :: after ∧
      .delivered n response ∈ after ∧ Verdict r.id during outcome response := by
  have hne : ∀ {events}, Unconcerned n events → .delivered n response ∉ events :=
    fun hu he => hu _ he rfl
  cases h with
  | running _ _ _ _ _ hu => exact absurd hm (hne hu)
  | decided _ _ _ _ hu hl => simp [hne hu, hne hl] at hm
  | @answered during outcome between response' later _ hv hu hb hl =>
    obtain rfl : response = response' := by simpa [hne hu, hne hb, hne hl] using hm
    exact ⟨during, outcome, _, rfl, by simp, hv⟩

/-- The pending table lists the requests taken over whose handlers have not ended. -/
theorem Service.Run.mem_pending_iff {trace : List Event} {s : Service H N} (h : Run trace s)
    (k : Bytes) (n : WorkerId) :
    (k, n) ∈ s.dispatcher.pending ↔ ∃ before frame r since,
      trace = before ++ .received frame (.accepted n) :: since ∧
      Incoming.ofFrame frame = .request r ∧ k = r.id.key ∧
      ∀ outcome, .concluded n outcome ∉ since := by
  have hd := h.sound
  rw [hd.pending_iff]
  constructor
  · rintro ⟨w, hw, rfl, hr, rfl⟩
    obtain ⟨before, frame, r, since, ha, hs⟩ := h.tracked.course w.id (hd.bounded w hw)
    refine ⟨before, frame, r, since, ha.trace_eq, ha.request, ?_⟩
    cases hs with
    | @running v _ hm hi hq _ _ hu =>
      obtain rfl := hd.eq_of_id hm hw hi
      exact ⟨by rw [hq], hu.not_concluded⟩
    | @decided v _ _ _ _ hm hi hr' _ _ _ =>
      obtain rfl := hd.eq_of_id hm hw hi
      simp [hr] at hr'
    | answered hn _ _ _ _ => exact absurd rfl (hn w hw)
  · rintro ⟨before, frame, r, since, ht, hf, rfl, hn⟩
    have hm : .received frame (.accepted n) ∈ trace := by simp [ht]
    have hlt : n < s.dispatcher.accepted := h.tracked.numbered _ hm n rfl
    obtain ⟨before', frame', r', since', ha, hs⟩ := h.tracked.course n hlt
    obtain ⟨rfl, rfl⟩ := ha.eq_of_split hs ht
    obtain rfl : r = r' := by simpa [hf] using ha.request
    cases hs with
    | @running w _ hm hi hq hr _ _ => exact ⟨w, hm, hi, hr, by rw [hq]⟩
    | @decided _ _ outcome _ _ _ _ _ _ _ _ => exact absurd (by simp) (hn outcome)
    | @answered _ outcome _ _ _ _ _ _ _ _ => exact absurd (by simp) (hn outcome)

/-! ### What a single message does -/

namespace Service

variable {s : Service H N}

theorem receive_of_quiet {frame : Bytes}
    (h : (s.dispatcher.receive (.ofFrame frame)).2.1 = none) :
    (s.receive frame).1 = { s with dispatcher := (s.dispatcher.receive (.ofFrame frame)).1 } := by
  rw [receive_eq, h]

/-- A cancellation asks the undecided worker with its id to stop, and does nothing else. -/
theorem receive_cancel (hd : s.dispatcher.Sound) {frame : Bytes} {id : Rpc.Id}
    (hc : Cancels frame id) :
    (s.receive frame).1 = { s with dispatcher := { s.dispatcher with
      workers := s.dispatcher.workers.map (·.stopIf (· = id)) } } := by
  have hf := Incoming.ofFrame_eq_cancel_iff.mpr hc
  have hr : s.dispatcher.receive (.ofFrame frame) = s.dispatcher.cancel id := by rw [hf]; rfl
  rw [receive_of_quiet (by rw [hr, Dispatcher.cancel_response]), hr, ← hd.cancel_workers]
  unfold Dispatcher.cancel
  split <;> rfl

/-- A cancellation of an id that is not pending changes nothing. -/
theorem receive_cancel_absent {frame : Bytes} {id : Rpc.Id} (hc : Cancels frame id)
    (hn : ∀ n, (id.key, n) ∉ s.dispatcher.pending) : (s.receive frame).1 = s := by
  have hf := Incoming.ofFrame_eq_cancel_iff.mpr hc
  have hg := Table.get?_eq_none_iff.mpr hn
  have hr : s.dispatcher.receive (.ofFrame frame) =
      (s.dispatcher, none, [Notice.cancelNotPending id]) := by
    rw [hf]
    simp [Dispatcher.receive, Dispatcher.cancel, hg]
  rw [receive_of_quiet (by rw [hr]), hr]

/-- A request whose id is pending leaves the dispatcher as it is. -/
theorem receive_duplicate {frame : Bytes} {r : Rpc.Request} {n : WorkerId}
    (hf : Incoming.ofFrame frame = .request r) (hp : (r.id.key, n) ∈ s.dispatcher.pending) :
    (s.receive frame).1.dispatcher = s.dispatcher := by
  rw [receive_dispatcher]
  have hr := s.dispatcher.receive_reception (.ofFrame frame)
  generalize s.dispatcher.fate (.ofFrame frame) = fate at hr
  generalize (s.dispatcher.receive (.ofFrame frame)).1 = d at hr ⊢
  rw [hf] at hr
  cases hr with
  | aside h _ _ _ _ _ => exact absurd rfl (h r)
  | unknown | duplicate => rfl
  | accepted handler hk | unstarted handler reason hk =>
    exact absurd hp (Table.contains_eq_false_iff.mp hk n)

/-- The end of a handler takes its own entry out of the table, and no other. -/
theorem conclude_pending (hd : s.dispatcher.Sound) {w : Worker H} (hw : w ∈ s.dispatcher.workers)
    (hr : w.response = none) (outcome : Except Rpc.Failure Json) (entry : Bytes × WorkerId) :
    entry ∈ (s.conclude w.id outcome).1.dispatcher.pending ↔
      entry ∈ s.dispatcher.pending ∧ entry ≠ (w.request.id.key, w.id) := by
  have hf : s.dispatcher.worker? w.id = some w := hd.worker?_eq_some_iff.mpr ⟨hw, rfl⟩
  have hp : (s.conclude w.id outcome).1.dispatcher.pending =
      Table.erase w.request.id.key s.dispatcher.pending := by
    simp [conclude, Dispatcher.conclude, hf]
  rw [hp, Table.mem_erase]
  obtain ⟨k, n⟩ := entry
  refine and_congr_right fun hm => not_congr ?_
  constructor
  · rintro rfl
    have hg := (hd.get?_pending_iff hw _).mpr ⟨hr, rfl⟩
    have hg' := (Table.get?_eq_some_iff hd.keys).mpr hm
    rw [hg, Option.some.injEq] at hg'
    rw [hg']
  · intro he
    exact congrArg Prod.fst he

end Service

/-! ### The account of a run -/

/-- The account of cancellation in a run. A request is accepted when its worker has been started; its
response is settled when its handler ends: it was cancelled if a stop fell while it was pending, else
the outcome of the handler is all that counts. A cancellation touches no other request, and a request
is pending from its acceptance to the end of its handler. One whose worker cannot be started is
answered at once, whatever else is pending: no handler is run for it and nothing is left of it that
a cancellation could reach. -/
structure CancelsExactly (trace : List Event) (s : Service H N) : Prop where
  verdict : ∀ before frame n during outcome after,
    trace = before ++ .received frame (.accepted n) :: (during ++ .concluded n outcome :: after) →
    ∃ r response, Incoming.ofFrame frame = .request r ∧ Verdict r.id during outcome response ∧
      ((∃ w ∈ s.dispatcher.workers, w.id = n ∧ w.response = some response) ∨
        .delivered n response ∈ after)
  written : ∀ n response, .delivered n response ∈ trace →
    ∃ before frame r during outcome after,
      trace = before ++ .received frame (.accepted n) :: (during ++ .concluded n outcome :: after) ∧
      Incoming.ofFrame frame = .request r ∧ .delivered n response ∈ after ∧
      Verdict r.id during outcome response
  pending : ∀ k n, (k, n) ∈ s.dispatcher.pending ↔ ∃ before frame r since,
    trace = before ++ .received frame (.accepted n) :: since ∧
    Incoming.ofFrame frame = .request r ∧ k = r.id.key ∧ ∀ outcome, .concluded n outcome ∉ since
  cancel : ∀ frame id, Cancels frame id →
    (s.receive frame).1 = { s with dispatcher := { s.dispatcher with
      workers := s.dispatcher.workers.map (·.stopIf (· = id)) } }
  absent : ∀ frame id, Cancels frame id → (∀ n, (id.key, n) ∉ s.dispatcher.pending) →
    (s.receive frame).1 = s
  key : ∀ a b : Rpc.Id, a.key = b.key → a = b
  unique : ∀ v ∈ s.dispatcher.workers, ∀ w ∈ s.dispatcher.workers, v.response = none →
    w.response = none → v.request.id = w.request.id → v = w
  duplicate : ∀ frame r n, Incoming.ofFrame frame = .request r →
    (r.id.key, n) ∈ s.dispatcher.pending → (s.receive frame).1.dispatcher = s.dispatcher
  unstarted : ∀ frame r handler reason, Incoming.ofFrame frame = .request r →
    Table.get? r.method s.dispatcher.requestHandlers = some handler →
    (∀ n, (r.id.key, n) ∉ s.dispatcher.pending) → s.dispatcher.workerFlaw = some reason →
    s.dispatcher.fate (.ofFrame frame) =
        .answered (.ofError r.id ⟨Rpc.Code.internalError, Bytes.beforeNul reason, none⟩) ∧
      (s.receive frame).1.dispatcher = { s.dispatcher with workerFlaw := none }
  erase : ∀ w ∈ s.dispatcher.workers, w.response = none →
    (w.request.id.key, w.id) ∈ s.dispatcher.pending ∧
    ∀ outcome entry, entry ∈ (s.conclude w.id outcome).1.dispatcher.pending ↔
      entry ∈ s.dispatcher.pending ∧ entry ≠ (w.request.id.key, w.id)

/-- Cancellation is exact in every run. -/
theorem Service.Run.cancelsExactly {trace : List Event} {s : Service H N} (h : Run trace s) :
    CancelsExactly trace s where
  verdict := by
    intro before frame n during outcome after ht
    have hm : .received frame (.accepted n) ∈ trace := by simp [ht]
    obtain ⟨before', frame', r, since, ha, hs⟩ := h.tracked.course n (h.tracked.numbered _ hm n rfl)
    obtain ⟨rfl, rfl⟩ := ha.eq_of_split hs ht
    obtain ⟨response, hv, hw⟩ := hs.verdict
    exact ⟨r, response, ha.request, hv, hw⟩
  written := by
    intro n response hm
    obtain ⟨before, frame, r, since, ha, hs⟩ := h.tracked.course n (h.tracked.numbered _ hm n rfl)
    have hm' : .delivered n response ∈ since := by
      have hb : .delivered n response ∉ before := fun he => ha.unconcerned _ he rfl
      simpa [ha.trace_eq, hb] using hm
    obtain ⟨during, outcome, after, rfl, hd, hv⟩ := hs.concluded_of_delivered hm'
    exact ⟨before, frame, r, during, outcome, after, ha.trace_eq, ha.request, hd, hv⟩
  pending := h.mem_pending_iff
  cancel := fun _ _ hc => receive_cancel h.sound hc
  absent := fun _ _ hc hn => receive_cancel_absent hc hn
  key := fun _ _ he => Rpc.Id.key_injective he
  unique := fun _ hv _ hw hvn hwn he => h.sound.undecided_unique hv hw hvn hwn he
  duplicate := fun _ _ _ hf hp => receive_duplicate hf hp
  unstarted := fun _ _ _ _ hf hh hk hs => receive_unstarted h.sound hf hh hk hs
  erase := by
    intro w hw hr
    exact ⟨(h.sound.pending_iff _ _).mpr ⟨w, hw, rfl, hr, rfl⟩, conclude_pending h.sound hw hr⟩

theorem Service.Run.cancelsExactly_cancelledTrace :
    ∃ s : Service Unit Unit, Run cancelledTrace s ∧ s.phase = .finished ∧
      CancelsExactly cancelledTrace s := by
  obtain ⟨s, h, hp⟩ := exists_run_cancelledTrace
  exact ⟨s, h, hp, h.cancelsExactly⟩

end EditorSession.Dispatch
