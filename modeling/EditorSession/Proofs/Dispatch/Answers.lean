import EditorSession.Proofs.Channel.Duplex
import EditorSession.Proofs.Dispatch.Course
import EditorSession.Proofs.Dispatch.Over

/-! Every request is answered exactly once. A frame that asks for a response gets one, on arrival or
from the worker that took the request over, and no other frame gets any; so at every point the
requests received are those answered and those in flight. -/

namespace EditorSession.Dispatch

variable {H N : Type}

/-- Whether the event is the arrival of a frame that asks for a response. -/
def Event.isRequest : Event → Bool
  | received frame _ => (requestId? frame).isSome
  | _ => false

/-- The response that the event writes for worker `n`. -/
def Event.delivery? (n : WorkerId) : Event → Option Rpc.Response
  | delivered m response => if m = n then some response else none
  | _ => none

/-- The responses on record for a frame with the given fate. -/
def answers (trace : List Event) : Fate → List Rpc.Response
  | .ignored => []
  | .answered response => [response]
  | .accepted n => trace.filterMap (Event.delivery? n)

/-- A worker is still busy with the request. -/
def Dispatcher.Serves (d : Dispatcher H N) (fate : Fate) : Prop :=
  ∃ w ∈ d.workers, fate = .accepted w.id

/-! ### The fate of a frame -/

/-- The fate of a frame suits the id that its response is to carry. -/
def Fate.Suits (id? : Option Rpc.Id) : Fate → Prop
  | ignored => id? = none
  | answered response => id? = some response.id
  | accepted _ => id?.isSome

def Event.Suited : Event → Prop
  | received frame fate => fate.Suits (requestId? frame)
  | _ => True

theorem Dispatcher.Reception.suits {d d' : Dispatcher H N} {m : Incoming} {fate : Fate}
    (h : d.Reception m fate d') : fate.Suits m.requestId? := by
  cases h with
  | aside hr hi =>
    cases m with
    | invalidRequest id => exact absurd rfl (hi id)
    | request r => exact absurd rfl (hr r)
    | _ => rfl
  | invalid | unknown | duplicate | accepted | unstarted | cancel => rfl

theorem Dispatcher.Change.suited {d d' : Dispatcher H N} {events : List Event}
    (h : d.Change events d') : ∀ e ∈ events, e.Suited := by
  cases h with
  | aside => simp
  | received frame =>
    intro e he
    obtain rfl := List.mem_singleton.mp he
    have hs := (d.receive_reception (.ofFrame frame)).suits
    rwa [Incoming.requestId?_ofFrame] at hs
  | drained | concluded | delivered => simp [Event.Suited]

theorem Service.Run.suited {trace : List Event} {s : Service H N} (h : Run trace s) :
    ∀ e ∈ trace, e.Suited := by
  refine h.dispatcher_induction (P := fun trace _ => ∀ e ∈ trace, e.Suited) (by simp) ?_
  intro trace d events d' ht hc e he
  rcases List.mem_append.mp he with he | he
  · exact ht e he
  · exact hc.suited e he

/-! ### Requests and responses balance -/

/-- Events that concern no worker answer as many requests as they bring. -/
theorem countP_isRequest_of_quiet {events : List Event} (hn : ∀ e ∈ events, e.worker? = none)
    (hs : ∀ e ∈ events, e.Suited) :
    events.countP Event.isRequest = (events.flatMap Event.responses).length := by
  induction events with
  | nil => rfl
  | cons e rest ih =>
    have ih' := ih (fun e he => hn e (List.mem_cons_of_mem _ he))
      (fun e he => hs e (List.mem_cons_of_mem _ he))
    have hne := hn e List.mem_cons_self
    have hse := hs e List.mem_cons_self
    rw [List.countP_cons, List.flatMap_cons, List.length_append, ih']
    rcases e with ⟨frame, _ | response | n⟩ | _ | ⟨n, outcome⟩ | ⟨n, response⟩
    · simp only [Event.Suited, Fate.Suits] at hse
      simp [Event.isRequest, Event.responses, hse]
    · simp only [Event.Suited, Fate.Suits] at hse
      simp [Event.isRequest, Event.responses, hse, Nat.add_comm]
    · cases hne
    · simp [Event.isRequest, Event.responses]
    · cases hne
    · cases hne

theorem Dispatcher.Sound.length_filter_ne {d : Dispatcher H N} (hd : d.Sound) {w : Worker H}
    (hw : w ∈ d.workers) : (d.workers.filter fun v => v.id ≠ w.id).length + 1 = d.workers.length := by
  have hi : w.id ∈ d.workers.map (·.id) := List.mem_map_of_mem hw
  have hf : ((d.workers.filter fun v => v.id ≠ w.id).map (·.id)) = (d.workers.map (·.id)).erase w.id := by
    rw [hd.ids.erase_eq_filter, List.filter_map]
    refine congrArg _ (List.filter_congr ?_)
    intro v _
    by_cases he : v.id = w.id <;> simp [he]
  have hl := congrArg List.length hf
  rw [List.length_map, List.length_erase_of_mem hi, List.length_map] at hl
  have hpos := List.length_pos_of_mem hw
  omega

theorem Dispatcher.Turn.balance {d d' : Dispatcher H N} {events : List Event} (hd : d.Sound)
    (h : d.Turn events d') (hs : ∀ e ∈ events, e.Suited) :
    events.countP Event.isRequest + d.workers.length =
      (events.flatMap Event.responses).length + d'.workers.length := by
  cases h with
  | quiet p hn _ hp hw ha => rw [countP_isRequest_of_quiet hn hs, hw, List.length_map]
  | @accepted frame r handler _ hf hk hp hw ha =>
    have hi : (requestId? frame).isSome = true := hs _ List.mem_cons_self
    simp [Event.isRequest, Event.responses, hi, hw, Nat.add_comm]
  | concluded hm hr hp hw ha => simp [Event.isRequest, Event.responses, hw]
  | delivered hm hr hp hw ha =>
    rw [hw, ← hd.length_filter_ne hm]
    simp [Event.isRequest, Event.responses, Nat.add_comm]

theorem Service.Run.balance {trace : List Event} {s : Service H N} (h : Run trace s) :
    trace.countP Event.isRequest =
      (trace.flatMap Event.responses).length + s.dispatcher.workers.length := by
  refine h.turn_induction (P := fun trace d => (∀ e ∈ trace, e.Suited) →
    trace.countP Event.isRequest = (trace.flatMap Event.responses).length + d.workers.length)
    (by simp) ?_ h.suited
  intro trace d events d' hd ih ht hs
  have hb := ih fun e he => hs e (List.mem_append_left _ he)
  have ht' := ht.balance hd fun e he => hs e (List.mem_append_right _ he)
  rw [List.countP_append, List.flatMap_append, List.length_append]
  omega

/-! ### The responses on record for one frame -/

theorem filterMap_delivery?_of_unconcerned {n : WorkerId} {events : List Event}
    (h : Unconcerned n events) : events.filterMap (Event.delivery? n) = [] := by
  rw [List.filterMap_eq_nil_iff]
  intro e he
  have hne := h e he
  rcases e with ⟨frame, fate⟩ | _ | ⟨m, outcome⟩ | ⟨m, response⟩
  · rfl
  · rfl
  · rfl
  · have hm : m ≠ n := by simpa [Event.worker?] using hne
    simp [Event.delivery?, hm]

/-- A worker is busy until it has written its one response, which carries the id of its request. -/
theorem Stage.answers {d : Dispatcher H N} {n : WorkerId} {r : Rpc.Request} {since : List Event}
    (h : Stage d.workers n r since) :
    (∃ response, since.filterMap (Event.delivery? n) = [response] ∧ response.id = r.id ∧
      ¬d.Serves (.accepted n)) ∨
    (since.filterMap (Event.delivery? n) = [] ∧ d.Serves (.accepted n)) := by
  cases h with
  | @running w _ hm hi hq hr hs hu =>
    exact .inr ⟨filterMap_delivery?_of_unconcerned hu, w, hm, by rw [hi]⟩
  | @decided w during outcome later response hm hi hr hv hu hl =>
    refine .inr ⟨?_, w, hm, by rw [hi]⟩
    rw [List.filterMap_append, List.filterMap_cons, filterMap_delivery?_of_unconcerned hu,
      filterMap_delivery?_of_unconcerned hl]
    rfl
  | @answered during outcome between response later hw hv hu hb hl =>
    refine .inl ⟨response, ?_, hv.id_eq, ?_⟩
    · simp [List.filterMap_append, List.filterMap_cons, filterMap_delivery?_of_unconcerned hu,
        filterMap_delivery?_of_unconcerned hb, filterMap_delivery?_of_unconcerned hl,
        Event.delivery?]
    · rintro ⟨w, hm, he⟩
      cases he
      exact hw w hm rfl

/-- No later frame is taken over by the same worker. -/
theorem Stage.not_accepted {workers : List (Worker H)} {n : WorkerId} {r : Rpc.Request}
    {since : List Event} (h : Stage workers n r since) (frame : Bytes) :
    .received frame (.accepted n) ∉ since := by
  have hne : ∀ {events}, Unconcerned n events → .received frame (.accepted n) ∉ events :=
    fun hu he => hu _ he rfl
  cases h with
  | running hm hi hq hr hs hu => exact hne hu
  | decided hm hi hr hv hu hl => simp [hne hu, hne hl]
  | answered hw hv hu hb hl => simp [hne hu, hne hb, hne hl]

theorem Acceptance.frame_eq {trace before since : List Event} {n : WorkerId} {frame other : Bytes}
    {r : Rpc.Request} {workers : List (Worker H)} (ha : Acceptance trace n before frame r since)
    (hs : Stage workers n r since) (hm : .received other (.accepted n) ∈ trace) : other = frame := by
  rw [ha.trace_eq, List.mem_append, List.mem_cons] at hm
  rcases hm with hm | he | hm
  · exact absurd rfl (ha.unconcerned _ hm)
  · injection he
  · exact absurd hm (hs.not_accepted other)

/-- What is on record for a frame that a worker took over. -/
theorem Service.Run.accepted_answers {trace : List Event} {s : Service H N} (h : Run trace s)
    {frame : Bytes} {n : WorkerId} (hm : .received frame (.accepted n) ∈ trace) :
    ∃ id, requestId? frame = some id ∧
      ((∃ response, answers trace (.accepted n) = [response] ∧ response.id = id ∧
          ¬s.dispatcher.Serves (.accepted n)) ∨
        (answers trace (.accepted n) = [] ∧ s.dispatcher.Serves (.accepted n))) := by
  obtain ⟨before, frame', r, since, ha, hs⟩ := h.tracked.course n (h.tracked.numbered _ hm n rfl)
  obtain rfl := ha.frame_eq hs hm
  refine ⟨r.id, ?_, ?_⟩
  · rw [← Incoming.requestId?_ofFrame, ha.request]
    rfl
  · have he : answers trace (.accepted n) = since.filterMap (Event.delivery? n) := by
      rw [answers, ha.trace_eq, List.filterMap_append, List.filterMap_cons,
        filterMap_delivery?_of_unconcerned ha.unconcerned]
      rfl
    rw [he]
    exact hs.answers

/-- The worker that takes the request over in the event. -/
def Event.accepted? : Event → Option WorkerId
  | received _ (.accepted n) => some n
  | _ => none

theorem Event.worker?_of_accepted? {e : Event} {n : WorkerId} (h : e.accepted? = some n) :
    e.worker? = some n := by
  rcases e with ⟨frame, _ | response | m⟩ | _ | ⟨m, outcome⟩ | ⟨m, response⟩ <;> cases h
  rfl

theorem Dispatcher.Turn.accepted?_le {d d' : Dispatcher H N} {events : List Event}
    (h : d.Turn events d') :
    events.filterMap Event.accepted? = [] ∨ events.filterMap Event.accepted? = [d.accepted] := by
  cases h with
  | quiet p hn _ hp hw ha =>
    refine .inl (List.filterMap_eq_nil_iff.mpr ?_)
    intro e he
    cases ha : e.accepted? with
    | none => rfl
    | some n => cases (hn e he).symm.trans (Event.worker?_of_accepted? ha)
  | accepted => exact .inr rfl
  | concluded => exact .inl rfl
  | delivered => exact .inl rfl

/-- A request that no worker can be started for is answered at once, and changes nothing. -/
theorem Service.receive_unstarted {s : Service H N} (hd : s.dispatcher.Sound) {frame : Bytes}
    {r : Rpc.Request} {handler : H} {reason : Bytes} (hf : Incoming.ofFrame frame = .request r)
    (hh : Table.get? r.method s.dispatcher.requestHandlers = some handler)
    (hk : ∀ n, (r.id.key, n) ∉ s.dispatcher.pending) (hs : s.dispatcher.workerFlaw = some reason) :
    s.dispatcher.fate (.ofFrame frame) =
        .answered (.ofError r.id ⟨Rpc.Code.internalError, Bytes.beforeNul reason, none⟩) ∧
      (s.receive frame).1.dispatcher = { s.dispatcher with workerFlaw := none } := by
  have hr := Dispatcher.receive_unstarted hh (Table.contains_eq_false_iff.mpr hk) hs
  rw [receive_dispatcher, hf]
  exact ⟨by simp [Dispatcher.fate, hr], by rw [hr, hd.withdraw_enter hk]⟩

theorem Service.Run.nodup_accepted {trace : List Event} {s : Service H N} (h : Run trace s) :
    (trace.filterMap Event.accepted?).Nodup := by
  refine And.right <| h.turn_induction
    (P := fun trace d => Tracked trace d ∧ (trace.filterMap Event.accepted?).Nodup)
    ⟨.fresh, by simp⟩ ?_
  intro trace d events d' hd ⟨ht, hn⟩ h
  refine ⟨ht.turn hd h, ?_⟩
  rw [List.filterMap_append]
  rcases h.accepted?_le with he | he
  · simpa [he] using hn
  · have hnew : d.accepted ∉ trace.filterMap Event.accepted? := by
      intro hm
      obtain ⟨e, hm, he⟩ := List.mem_filterMap.mp hm
      exact Nat.lt_irrefl _ (ht.numbered e hm _ (Event.worker?_of_accepted? he))
    rw [he, List.nodup_append']
    exact ⟨hn, by simp, by simpa using hnew⟩

/-! ### What reaches the channel -/

/-- Messages from the given side arrive at the other. -/
def writable (channel : Channel.Duplex) (side : Channel.Side) : Bool :=
  channel.connected side && !(channel.inbox side.other).closed

/-- The messages that have arrived at the other end of the service's channel. -/
def Service.sent (s : Service H N) : List Bytes := (s.channel.inbox ownSide.other).messages

namespace Service

theorem respond_sent (s : Service H N) (r : Rpc.Response) :
    (s.respond r).1.sent = s.sent ++ if writable s.channel ownSide then [r.encode] else [] := by
  unfold respond Channel.Duplex.write Channel.Duplex.put writable
  by_cases hc : s.channel.connected ownSide = true
  · by_cases hq : (s.channel.inbox ownSide.other).closed = true
    · simp [hc, hq]
    · simp [hc, hq, sent]
  · simp [hc]

/-- The record of a frame holds the response written on its arrival. -/
theorem responses_fate (d : Dispatcher H N) (frame : Bytes) :
    (Event.received frame (d.fate (.ofFrame frame))).responses =
      (d.receive (.ofFrame frame)).2.1.toList := by
  unfold Dispatcher.fate
  rcases d.receive (.ofFrame frame) with ⟨after, _ | r, notices⟩
  · by_cases ha : d.accepted < after.accepted <;> simp [ha, Event.responses]
  · rfl

theorem receive_sent (s : Service H N) (frame : Bytes) :
    (s.receive frame).1.sent = s.sent ++
      if writable s.channel ownSide then
        ([Event.received frame (s.dispatcher.fate (.ofFrame frame))].flatMap Event.responses).map
          Rpc.Response.encode
      else [] := by
  rw [receive_eq, List.flatMap_singleton, responses_fate]
  cases (s.dispatcher.receive (.ofFrame frame)).2.1 with
  | none => simp [sent]
  | some r => exact respond_sent _ r

/-- Taking a message in leaves what was sent alone. -/
theorem read_sent {s : Service H N} {channel : Channel.Duplex} {received : Channel.Received}
    (h : s.channel.read ownSide = (channel, received)) :
    channel.inbox ownSide.other = s.channel.inbox ownSide.other ∧
      channel.connected = s.channel.connected := by
  unfold Channel.Duplex.read at h
  dsimp only at h
  split at h <;> cases h
  · exact ⟨Channel.Duplex.inbox_setInbox_of_ne _ _ ownSide.other_ne, rfl⟩
  · exact ⟨rfl, rfl⟩

/-- A move sends exactly the responses that it leaves on record, unless the channel is closed. -/
theorem Move.sent_eq {s s' : Service H N} {events : List Event} (h : Move s events s') :
    s'.sent = s.sent ++
      if writable s.channel ownSide then (events.flatMap Event.responses).map Rpc.Response.encode
      else [] := by
  cases h with
  | loop h =>
    obtain ⟨phase, he, rfl, -⟩ | ⟨readFlaw, he, rfl⟩ | ⟨channel, frame, hr, he, rfl⟩ := next?_cases h
    · simp [he, sent]
    · simp [he, sent, drain, Event.responses]
    · obtain ⟨hi, hc⟩ := read_sent hr
      rw [he, receive_sent]
      simp [sent, writable, hi, hc]
  | conclude outcome hw hr =>
    have hs : ∀ id, (s.conclude id outcome).1.sent = s.sent := fun _ => rfl
    simp [hs, Event.responses]
  | deliver hw hr =>
    rw [Service.deliver, Dispatcher.takeResponse_of_some hw hr, respond_sent]
    simp [Event.responses, sent]
  | takeJob =>
    have hs : s.takeJob.1.sent = s.sent := rfl
    simp [hs]
  | finishJob failure =>
    have hs : (s.finishJob failure).1.sent = s.sent := rfl
    simp [hs]

/-! ### The end of a run -/

/-- When the receive loop has finished, no worker is left. -/
theorem Run.workers_nil {trace : List Event} {s : Service H N} (h : Run trace s)
    (hp : s.phase = .finished) : s.dispatcher.workers = [] := (h.isOver hp).workers

theorem pending_nil_of_workers_nil {d : Dispatcher H N} (hd : d.Sound) (h : d.workers = []) :
    d.pending = [] := by
  rw [List.eq_nil_iff_forall_not_mem]
  rintro ⟨k, i⟩ hm
  obtain ⟨w, hw, -⟩ := (hd.pending_iff k i).mp hm
  simp [h] at hw

end Service

/-! ### The account of a run -/

/-- The account of a run. A frame that asks for a response has one, with the id it is to carry, or a
worker is busy with it that can come to its end; no other frame has any, and no worker serves two
frames. A request whose worker cannot be started is answered at once with the reason, and neither a
worker nor an entry is left of it. What is on record as written is what a move sends. -/
structure AnsweredOnce (trace : List Event) (s : Service H N) : Prop where
  request : ∀ frame fate id, .received frame fate ∈ trace → requestId? frame = some id →
    (∃ response, answers trace fate = [response] ∧ response.id = id ∧ ¬s.dispatcher.Serves fate) ∨
      (answers trace fate = [] ∧ s.dispatcher.Serves fate)
  other : ∀ frame fate, .received frame fate ∈ trace → requestId? frame = none →
    answers trace fate = [] ∧ ¬s.dispatcher.Serves fate
  own : (trace.filterMap Event.accepted?).Nodup
  unstarted : ∀ frame r handler reason, Incoming.ofFrame frame = .request r →
    Table.get? r.method s.dispatcher.requestHandlers = some handler →
    (∀ n, (r.id.key, n) ∉ s.dispatcher.pending) → s.dispatcher.workerFlaw = some reason →
    s.dispatcher.fate (.ofFrame frame) =
        .answered (.ofError r.id ⟨Rpc.Code.internalError, Bytes.beforeNul reason, none⟩) ∧
      (s.receive frame).1.dispatcher = { s.dispatcher with workerFlaw := none }
  cause : ∀ n response, .delivered n response ∈ trace → ∃ frame, .received frame (.accepted n) ∈ trace
  balance : trace.countP Event.isRequest =
    (trace.flatMap Event.responses).length + s.dispatcher.workers.length
  progress : ∀ w ∈ s.dispatcher.workers,
    (w.response = none → ∀ outcome, ∃ s', Service.Move s [.concluded w.id outcome] s') ∧
      ∀ response, w.response = some response → ∃ s', Service.Move s [.delivered w.id response] s'
  sent : ∀ events s', Service.Move s events s' → s'.sent = s.sent ++
    if writable s.channel Service.ownSide then (events.flatMap Event.responses).map Rpc.Response.encode
    else []
  finished : s.phase = .finished → s.dispatcher.workers = [] ∧ s.dispatcher.pending = []

/-- Every request is answered exactly once, in every run. -/
theorem Service.Run.answeredOnce {trace : List Event} {s : Service H N} (h : Run trace s) :
    AnsweredOnce trace s where
  request := by
    intro frame fate id hm hid
    have hs : fate.Suits (requestId? frame) := h.suited _ hm
    rw [hid] at hs
    cases fate with
    | ignored => cases hs
    | answered response =>
      refine .inl ⟨response, rfl, (Option.some.inj hs).symm, ?_⟩
      rintro ⟨w, -, he⟩
      cases he
    | accepted n =>
      obtain ⟨id', hid', ha⟩ := h.accepted_answers hm
      obtain rfl : id = id' := Option.some.inj (hid.symm.trans hid')
      exact ha
  other := by
    intro frame fate hm hid
    have hs : fate.Suits (requestId? frame) := h.suited _ hm
    rw [hid] at hs
    cases fate with
    | ignored =>
      refine ⟨rfl, ?_⟩
      rintro ⟨w, -, he⟩
      cases he
    | answered response => cases hs
    | accepted n => cases hs
  own := h.nodup_accepted
  unstarted := fun _ _ _ _ hf hh hk hs => receive_unstarted h.sound hf hh hk hs
  cause := by
    intro n response hm
    obtain ⟨before, frame, r, since, ha, -⟩ := h.tracked.course n (h.tracked.numbered _ hm n rfl)
    exact ⟨frame, by simp [ha.trace_eq]⟩
  balance := h.balance
  progress := by
    intro w hw
    have hw' : s.dispatcher.worker? w.id = some w := h.sound.worker?_eq_some_iff.mpr ⟨hw, rfl⟩
    exact ⟨fun hr outcome => ⟨_, .conclude outcome hw' hr⟩,
      fun response hr => ⟨_, .deliver hw' hr⟩⟩
  sent := fun _ _ hm => hm.sent_eq
  finished := fun hp => ⟨h.workers_nil hp, pending_nil_of_workers_nil h.sound (h.workers_nil hp)⟩

theorem Service.Run.answeredOnce_cancelledTrace :
    ∃ s : Service Unit Unit, Run cancelledTrace s ∧ s.phase = .finished ∧
      AnsweredOnce cancelledTrace s := by
  obtain ⟨s, h, hp⟩ := exists_run_cancelledTrace
  exact ⟨s, h, hp, h.answeredOnce⟩

end EditorSession.Dispatch
