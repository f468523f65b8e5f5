import EditorSession.Proofs.Analysis.Degradation
import EditorSession.Proofs.Rpc.Messages
import EditorSession.Proofs.Session.Requests

/-! Requests for features, from the start of the handler to the response. What is seen of one is when
it is started, when the engine is called and answers, and what the response is; between these moments
the server may do anything else. Whatever the feature, the params, the documents and the answer are,
the request goes one of few ways, and the engine is called at most once. -/

namespace EditorSession

theorem Rpc.Response.ofError_inj {id id' : Rpc.Id} {e e' : Rpc.Error}
    (h : ofError id e = ofError id' e') : e = e' := by
  have he : e.toJson = e'.toJson := Option.some.inj (congrArg Rpc.Response.error h)
  have hr := congrArg Rpc.Error.ofJson? he
  rw [Rpc.Error.ofJson?_toJson, Rpc.Error.ofJson?_toJson] at hr
  exact Option.some.inj hr

namespace Dispatch

variable {H N : Type}

/-- The response to a request, given the outcome of its handler and whether a stop was asked for. -/
def responseOf (r : Rpc.Request) (stopped : Bool) (outcome : Except Rpc.Failure Json) :
    Rpc.Response :=
  if stopped then cancelledResponse r.id else plainResponse r.id outcome

theorem Worker.responseTo_eq (w : Worker H) (outcome : Except Rpc.Failure Json) :
    w.responseTo outcome = responseOf w.request w.stopped outcome := by
  unfold responseTo responseOf
  cases outcome <;> rfl

/-- The error of a response tells of the failure of the handler, or that the request was cancelled. -/
theorem error_of_responseOf {r : Rpc.Request} {stopped : Bool} {outcome : Except Rpc.Failure Json}
    {e : Rpc.Error} (h : responseOf r stopped outcome = .ofError r.id e) :
    e.code = Rpc.Code.requestCancelled ∨
      ∃ failure, outcome = .error failure ∧ e.code = failure.code := by
  cases stopped with
  | true =>
    left
    rw [← Rpc.Response.ofError_inj h]
  | false =>
    right
    cases outcome with
    | ok result => cases h
    | error failure =>
      refine ⟨failure, rfl, ?_⟩
      rw [← Rpc.Response.ofError_inj h]
      rfl

/-- The worker of a request, whether it was asked to stop or not. -/
def Dispatcher.work? (d : Dispatcher H N) (id : WorkerId) : Option (Worker H) :=
  (d.worker? id).map fun w => { w with stopped := false }

theorem Dispatcher.work?_of_map {d d' : Dispatcher H N} {n : WorkerId} {f : Worker H → Worker H}
    (hw : d'.workers = d.workers.map f) (hid : ∀ w, (f w).id = w.id)
    (hf : ∀ w, w.id = n → { f w with stopped := false } = { w with stopped := false }) :
    d'.work? n = d.work? n := by
  have hp : ((fun w : Worker H => decide (w.id = n)) ∘ f) = fun w => decide (w.id = n) :=
    funext fun w => by simp [hid]
  unfold work? worker?
  rw [hw, List.find?_map, hp, Option.map_map]
  refine Option.map_congr fun w hm => hf w ?_
  simpa using List.find?_some hm

/-- A turn that does not concern a request leaves its work as it is. -/
theorem Dispatcher.Turn.work?_eq {d d' : Dispatcher H N} {events : List Event} {n : WorkerId}
    (h : d.Turn events d') (hn : n < d.accepted) (hu : Unconcerned n events) :
    d'.work? n = d.work? n := by
  cases h with
  | quiet p _ _ _ hw =>
    refine work?_of_map hw (fun w => by simp) fun w _ => ?_
    unfold Worker.stopIf
    split <;> rfl
  | accepted _ _ _ hw =>
    unfold work? worker?
    rw [hw, List.find?_append]
    simp [Nat.ne_of_gt hn]
  | @concluded v outcome _ _ _ _ hw =>
    have hv : v.id ≠ n := by simpa [Unconcerned, Event.worker?] using hu
    refine work?_of_map hw (fun w => by split <;> rfl) fun w hi => ?_
    rw [if_neg (hi ▸ hv.symm)]
  | @delivered v response _ _ _ _ hw =>
    have hv : v.id ≠ n := by simpa [Unconcerned, Event.worker?] using hu
    unfold work? worker?
    rw [hw, List.find?_filter]
    congr 2
    funext w
    by_cases hi : w.id = n <;> simp [hi, hv.symm]

end Dispatch

namespace Session

open Dispatch (WorkerId Worker Unconcerned responseOf)
open Analysis (Feature Query Ask Degrades)

/-- What is seen of a request. -/
inductive Note where
  /-- Its handler has been started, with the session in this state and these documents. -/
  | started (state : State) (documents : Document.Store)
  /-- The engine has been called. -/
  | asked (query : Query)
  /-- The engine has answered. The flag tells whether a stop was asked for before. -/
  | answered (stopped : Bool) (answers : Analysis.Answers)
  /-- The response has been decided, with the same flag. -/
  | settled (stopped : Bool) (response : Rpc.Response)

/-- The ways of a request for a feature. -/
inductive Story (feature : Feature) (r : Rpc.Request) : List Note → Prop where
  | waiting : Story feature r []
  /-- The session serves no requests. -/
  | denied {state documents stopped refusal}
      (hs : state.permit (featureMethod feature) = .error refusal) :
      Story feature r [.started state documents,
        .settled stopped (responseOf r stopped (.error (.refused refusal)))]
  /-- The params are refused. -/
  | flawed {documents stopped flaw} (ha : feature.ask r.params = .error flaw) :
      Story feature r [.started .running documents,
        .settled stopped
          (responseOf r stopped (.error (.refused ⟨Rpc.Code.invalidParams, flaw.message⟩)))]
  /-- The document has no handle, and the result tells an empty answer. -/
  | unknown {documents stopped uri put v} (ha : feature.ask r.params = .ok (.document uri put))
      (hd : documents.handle? uri = none) (hv : feature.Tells v (Analysis.Absent.result feature)) :
      Story feature r [.started .running documents,
        .settled stopped (responseOf r stopped (.ok v))]
  | asking {documents ask query} (ha : feature.ask r.params = .ok ask)
      (hq : ask.query? documents.handle? = some query) :
      Story feature r [.started .running documents, .asked query]
  | answered {documents ask query stopped answers outcome} (ha : feature.ask r.params = .ok ask)
      (hq : ask.query? documents.handle? = some query)
      (ho : Degrades feature stopped (answers feature) outcome) :
      Story feature r [.started .running documents, .asked query, .answered stopped answers,
        .settled stopped (responseOf r stopped outcome)]

namespace Server

/-- What is seen of a request as a move begins. -/
def begun (s : Server) (n : WorkerId) : Move → List Note
  | .serve id =>
    match s.service.dispatcher.worker? n, s.wait? n with
    | some worker, none =>
      if id = n ∧ worker.response = none then [.started s.state s.workspace.store] else []
    | _, _ => []
  | .answer id answers =>
    match s.service.dispatcher.worker? n, s.wait? n with
    | some worker, some (.engine _) => if id = n then [.answered worker.stopped answers] else []
    | _, _ => []
  | _ => []

/-- The engine is called when the request begins to wait for it. -/
def asks : Option Wait → Option Wait → List Note
  | none, some (.engine query) => [.asked query]
  | _, _ => []

/-- The response is decided when the worker gets it. -/
def settles : Option (Worker RequestHandler) → Option (Worker RequestHandler) → List Note
  | some worker, some worker' =>
    match worker.response, worker'.response with
    | none, some response => [.settled worker.stopped response]
    | _, _ => []
  | _, _ => []

/-- What is seen of it when the move is over. -/
def seen (s s' : Server) (n : WorkerId) : List Note :=
  asks (s.wait? n) (s'.wait? n) ++
    settles (s.service.dispatcher.worker? n) (s'.service.dispatcher.worker? n)

/-- A move, and what is seen of a request. Nothing is assumed of the channel, of stop requests and of
reads that fail. -/
inductive Shows (n : WorkerId) (s : Server) : List Note → Server → Prop where
  | step (now move) :
      Shows n s (s.begun n move ++ s.seen (s.step now move).1 n) (s.step now move).1
  | outside (channel stopRequested readFlaw) :
      Shows n s []
        { s with service := { s.service with channel, stopRequested, readFlaw } }

/-- Any number of moves. -/
inductive Watched (n : WorkerId) (s : Server) : List Note → Server → Prop where
  | refl : Watched n s [] s
  | tail {notes s' more s''} : Watched n s notes s' → s'.Shows n more s'' →
      Watched n s (notes ++ more) s''

variable {s s' : Server} {n : WorkerId} {w : Worker RequestHandler} {now : Int}

/-! ### Moves that spare a request -/

/-- The request stands as it stood, except that it may have been asked to stop. -/
structure Spares (s s' : Server) (n : WorkerId) : Prop where
  wait : s'.wait? n = s.wait? n
  work : s'.service.dispatcher.work? n = s.service.dispatcher.work? n
  accepted : s.service.dispatcher.accepted ≤ s'.service.dispatcher.accepted

theorem Spares.refl (s : Server) (n : WorkerId) : s.Spares s n := ⟨rfl, rfl, Nat.le_refl _⟩

theorem Spares.worker (h : s.Spares s' n) (hw : s.service.dispatcher.worker? n = some w) :
    ∃ stopped, s'.service.dispatcher.worker? n = some { w with stopped } := by
  have hk := h.work
  unfold Dispatch.Dispatcher.work? at hk
  rw [hw, Option.map_some, Option.map_eq_some_iff] at hk
  obtain ⟨w', hw', he⟩ := hk
  refine ⟨w'.stopped, ?_⟩
  rw [hw']
  cases w
  cases w'
  simp_all

theorem Spares.not_worker (h : s.Spares s' n) (hw : s.service.dispatcher.worker? n = none) :
    s'.service.dispatcher.worker? n = none := by
  have hk := h.work
  unfold Dispatch.Dispatcher.work? at hk
  simpa [hw] using hk

theorem asks_self (wait : Option Wait) : asks wait wait = [] := by
  cases wait <;> rfl

theorem Spares.seen_eq (h : s.Spares s' n) : s.seen s' n = [] := by
  rw [seen, h.wait, asks_self, List.nil_append]
  cases hw : s.service.dispatcher.worker? n with
  | none => rfl
  | some w =>
    obtain ⟨stopped, hw'⟩ := h.worker hw
    rw [hw', settles]
    cases w.response <;> rfl

theorem SameRequests.spares (h : s.SameRequests s') : s.Spares s' n where
  wait := by
    unfold wait?
    rw [h.waits]
  work := by
    unfold Dispatch.Dispatcher.work? Dispatch.Dispatcher.worker?
    rw [h.workers]
  accepted := Nat.le_of_eq h.accepted.symm

theorem Orderly.spares_receive (ho : s.Orderly) (hn : n < s.service.dispatcher.accepted) :
    s.Spares (s.step now .receive).1 n := by
  simp only [Server.step]
  split
  case h_1 next hnext =>
    obtain ⟨service, notices⟩ := next
    have ht := (Dispatch.Service.Move.loop hnext).change.turn ho.sound
    refine ⟨rfl, ht.work?_eq hn ?_, ht.accepted_le⟩
    intro e he hen
    exact Nat.ne_of_lt hn (loopEvents_worker? hnext e he n hen)
  case h_2 => exact .refl s n

theorem accepted_conclude (s : Server) (id : WorkerId) (outcome : Except Rpc.Failure Json) :
    (s.conclude id outcome).1.service.dispatcher.accepted = s.service.dispatcher.accepted := by
  rw [conclude, served, Dispatch.Service.conclude]
  dsimp only
  unfold Dispatch.Dispatcher.conclude
  split <;> rfl

theorem spares_conclude {id : WorkerId} (hi : n ≠ id) (outcome : Except Rpc.Failure Json) :
    s.Spares (s.conclude id outcome).1 n where
  wait := by rw [wait?_conclude, if_neg hi]
  work := by
    unfold Dispatch.Dispatcher.work?
    rw [worker?_conclude]
    simp [hi]
  accepted := Nat.le_of_eq (accepted_conclude s id outcome).symm

theorem wait?_await {id : WorkerId} (wait : Wait) (hw : s.wait? id = none) :
    (s.await id wait).1.wait? n = if n = id then some wait else s.wait? n := by
  have hf : (s.await id wait).1.wait? n =
      ((s.waits.find? fun entry => entry.1 = n).or
        ([(id, wait)].find? fun entry => entry.1 = n)).map (·.2) := by
    rw [← List.find?_append]
    rfl
  rw [hf]
  by_cases hi : n = id
  · subst hi
    rw [wait?, Option.map_eq_none_iff] at hw
    simp [hw]
  · simp [wait?, hi, Ne.symm hi]

theorem Serving.spares {id : WorkerId} (h : s.Serving id s') (hw : s.wait? id = none) (hi : n ≠ id) :
    s.Spares s' n := by
  cases h with
  | concluded state roots workspace outcome =>
    obtain ⟨hwait, hwork, ha⟩ :=
      @spares_conclude { s with state, roots, workspace } n id hi outcome
    exact ⟨hwait, hwork, ha⟩
  | awaits state workspace wait =>
    have hwait := @wait?_await { s with state, workspace } n id wait hw
    rw [if_neg hi] at hwait
    exact ⟨hwait, rfl, Nat.le_refl _⟩

theorem spares_deliver {id : WorkerId}
    (hd : n = id → ∀ w, s.service.dispatcher.worker? n = some w → w.response = none) :
    s.Spares (s.served (s.service.deliver id)).1 n := by
  have hservice : (s.served (s.service.deliver id)).1.service.dispatcher =
      (s.service.dispatcher.takeResponse id).1 := s.service.deliver_dispatcher id
  by_cases hi : n = id
  · subst hi
    have hr : (s.service.dispatcher.worker? n).bind (·.response) = none := by
      cases hw : s.service.dispatcher.worker? n with
      | none => rfl
      | some w => exact hd rfl w hw
    have hn : s.service.deliver n = (s.service, []) := by
      simp [Dispatch.Service.deliver, Dispatch.Dispatcher.takeResponse, hr]
    rw [hn]
    exact .refl s n
  · refine ⟨rfl, ?_, ?_⟩
    · unfold Dispatch.Dispatcher.work?
      rw [hservice, worker?_takeResponse _ hi]
    · rw [hservice, Dispatch.Dispatcher.takeResponse]
      split <;> exact Nat.le_refl _

/-- What a move has to find to do something with the request: it is to be served, or waits, or is
decided. -/
theorem Orderly.spares_step (ho : s.Orderly) (hn : n < s.service.dispatcher.accepted) (now : Int)
    {move : Move}
    (hs : move = .serve n → ∀ w, ¬s.Serves n w)
    (ha : ∀ answers, move = .answer n answers → ∀ query, s.wait? n ≠ some (.engine query))
    (hc : s.wait? n ≠ some .quiet)
    (hd : move = .deliver n → ∀ w, s.service.dispatcher.worker? n = some w → w.response = none) :
    s.Spares (s.step now move).1 n := by
  cases move with
  | receive => exact ho.spares_receive hn
  | serve id =>
    rcases s.serve_cases id with he | ⟨w, hw⟩
    · rw [Server.step, he]
      exact .refl s n
    · refine hw.serving.spares hw.unserved ?_
      rintro rfl
      exact hs rfl w hw
  | answer id answers =>
    simp only [Server.step, answer]
    split
    case h_1 query worker hw _ =>
      refine spares_conclude ?_ _
      rintro rfl
      exact ha answers rfl query hw
    case h_2 => exact .refl s n
  | calm id =>
    simp only [Server.step, calm]
    split
    case h_1 hw =>
      split
      · refine spares_conclude ?_ _
        rintro rfl
        exact hc hw
      · exact .refl s n
    case h_2 => exact .refl s n
  | deliver id =>
    refine spares_deliver ?_
    rintro rfl
    exact hd rfl
  | _ =>
    refine (s.step_sameRequests now ?_).spares
    trivial

/-- Nothing begins for a request that is neither to be served nor waiting for the engine. -/
theorem begun_eq_nil {move : Move} (hs : move = .serve n → ∀ w, ¬s.Serves n w)
    (ha : ∀ answers, move = .answer n answers → ∀ query, s.wait? n ≠ some (.engine query)) :
    s.begun n move = [] := by
  cases move with
  | serve id =>
    simp only [begun]
    split
    case h_1 w hf hu =>
      rw [if_neg]
      rintro ⟨rfl, hr⟩
      exact hs rfl w ⟨hf, hr, hu⟩
    case h_2 => rfl
  | answer id answers =>
    simp only [begun]
    split
    case h_1 w query hf hu =>
      rw [if_neg]
      rintro rfl
      exact ha answers rfl query hu
    case h_2 => rfl
  | _ => rfl

/-! ### The ways of a request -/

/-- The response is decided, or written already. -/
structure Done (s : Server) (n : WorkerId) : Prop where
  wait : s.wait? n = none
  decided : ∀ w, s.service.dispatcher.worker? n = some w → w.response ≠ none

/-- How a request stands when the given notes have been seen. -/
inductive Stands (feature : Feature) (r : Rpc.Request) (s : Server) (n : WorkerId) :
    List Note → Prop where
  | waiting {worker} (hw : s.Serves n worker) (hh : worker.handler = .feature feature)
      (hr : worker.request = r) : Stands feature r s n []
  | asking {documents ask query worker} (ha : feature.ask r.params = .ok ask)
      (hq : ask.query? documents.handle? = some query)
      (hw : s.service.dispatcher.worker? n = some worker) (hn : worker.response = none)
      (hr : worker.request = r) (hwait : s.wait? n = some (.engine query)) :
      Stands feature r s n [.started .running documents, .asked query]
  | done {notes} (hs : Story feature r notes) (hd : s.Done n) : Stands feature r s n notes

variable {feature : Feature} {r : Rpc.Request} {notes : List Note}

theorem Stands.story (h : Stands feature r s n notes) : Story feature r notes := by
  cases h with
  | waiting => exact .waiting
  | asking ha hq => exact .asking ha hq
  | done hs => exact hs

theorem Spares.done (h : s.Spares s' n) (hd : s.Done n) : s'.Done n := by
  refine ⟨h.wait.trans hd.wait, ?_⟩
  intro w' hw' hr
  cases hw : s.service.dispatcher.worker? n with
  | none => simp [h.not_worker hw] at hw'
  | some w =>
    obtain ⟨stopped, he⟩ := h.worker hw
    obtain rfl : { w with stopped } = w' := Option.some.inj (he.symm.trans hw')
    exact hd.decided w hw hr

theorem Spares.stands (h : s.Spares s' n) (hs : Stands feature r s n notes) :
    Stands feature r s' n notes := by
  cases hs with
  | waiting hw hh hr =>
    obtain ⟨stopped, he⟩ := h.worker hw.found
    exact .waiting ⟨he, hw.undecided, h.wait.trans hw.unserved⟩ hh hr
  | asking ha hq hw hn hr hwait =>
    obtain ⟨stopped, he⟩ := h.worker hw
    exact .asking ha hq he hn hr (h.wait.trans hwait)
  | done hs hd => exact .done hs (h.done hd)

/-- The end of the handler decides the response. -/
theorem conclude_settles (hw : s.service.dispatcher.worker? n = some w) (hr : w.response = none)
    (outcome : Except Rpc.Failure Json) :
    s.seen (s.conclude n outcome).1 n = [.settled w.stopped (responseOf w.request w.stopped outcome)] ∧
      (s.conclude n outcome).1.Done n := by
  have hwait : (s.conclude n outcome).1.wait? n = none := by
    rw [wait?_conclude, if_pos rfl]
  have hw' : (s.conclude n outcome).1.service.dispatcher.worker? n =
      some { w with response := some (w.responseTo outcome) } := by
    rw [worker?_conclude, hw]
    simp
  refine ⟨?_, hwait, ?_⟩
  · rw [seen, hw, hw', hwait, settles, hr, w.responseTo_eq]
    cases s.wait? n <;> rfl
  · intro w' he
    obtain rfl := Option.some.inj (hw'.symm.trans he)
    simp

/-- The handler of a request is started. -/
theorem Serves.started (hw : s.Serves n w) (hh : w.handler = .feature feature) :
    Stands feature w.request (s.step now (.serve n)).1 n
      (.started s.state s.workspace.store :: s.seen (s.step now (.serve n)).1 n) := by
  have he : s.step now (.serve n) = s.serveFeature n feature w.request.params := by
    rw [Server.step, hw.serve_eq, hh]
  have hend := conclude_settles hw.found hw.undecided
  rw [he, serveFeature]
  cases hp : s.state.permit (featureMethod feature) with
  | error refusal =>
    obtain ⟨hseen, hd⟩ := hend (.error (.refused refusal))
    dsimp only
    rw [refuse, hseen]
    exact .done (.denied hp) hd
  | ok =>
    rw [permit_eq_ok_iff.mp hp, feature.query?_eq]
    cases ha : feature.ask w.request.params with
    | error flaw =>
      obtain ⟨hseen, hd⟩ := hend (.error (.refused flaw.refusal))
      dsimp only [Except.map]
      rw [refuse, hseen]
      exact .done (.flawed ha) hd
    | ok ask =>
      dsimp only [Except.map]
      cases hq : ask.query? s.workspace.store.handle? with
      | none =>
        cases ask with
        | workspace query => cases hq
        | document uri put =>
          obtain ⟨hseen, hd⟩ := hend (.ok feature.emptyResult)
          dsimp only
          rw [hseen]
          exact .done (.unknown ha (Option.map_eq_none_iff.mp hq) feature.tells_emptyResult) hd
      | some query =>
        dsimp only
        have hwait : (s.await n (.engine query)).1.wait? n = some (.engine query) := by
          rw [wait?_await _ hw.unserved, if_pos rfl]
        have hseen : s.seen (s.await n (.engine query)).1 n = [.asked query] := by
          have hf : (s.await n (.engine query)).1.service.dispatcher.worker? n = some w := hw.found
          rw [seen, hwait, hw.unserved, hf, hw.found, settles, hw.undecided]
          rfl
        rw [hseen]
        exact .asking ha hq hw.found hw.undecided rfl hwait

/-- The engine answers a request that waits for it. -/
theorem answered {ask : Ask} {query : Query} {documents : Document.Store}
    (ha : feature.ask w.request.params = .ok ask) (hq : ask.query? documents.handle? = some query)
    (hw : s.service.dispatcher.worker? n = some w) (hr : w.response = none)
    (hwait : s.wait? n = some (.engine query)) (answers : Analysis.Answers) :
    Stands feature w.request (s.step now (.answer n answers)).1 n
      ([.started .running documents, .asked query] ++ .answered w.stopped answers ::
        s.seen (s.step now (.answer n answers)).1 n) := by
  obtain rfl := Feature.feature_of_ask ha hq
  have he : (s.step now (.answer n answers)).1 =
      (s.conclude n (query.feature.respond w.stopped (answers query.feature)).1).1 := by
    simp only [Server.step, answer, hwait, hw]
    rfl
  obtain ⟨hseen, hd⟩ :=
    conclude_settles hw hr (query.feature.respond w.stopped (answers query.feature)).1
  rw [he, hseen]
  exact .done (.answered ha hq (.respond _ _ _)) hd

/-- The response is written, and nothing more is seen. -/
theorem Done.delivered (hd : s.Done n) (now : Int) :
    s.seen (s.step now (.deliver n)).1 n = [] ∧ (s.step now (.deliver n)).1.Done n := by
  have hwait : (s.step now (.deliver n)).1.wait? n = none := hd.wait
  have hw : ∀ w, (s.step now (.deliver n)).1.service.dispatcher.worker? n = some w →
      s.service.dispatcher.worker? n = some w := by
    intro w hw
    have hf : (s.step now (.deliver n)).1.service.dispatcher =
        (s.service.dispatcher.takeResponse n).1 := s.service.deliver_dispatcher n
    rw [hf] at hw
    exact not_undecided_takeResponse _ hw
  refine ⟨?_, hwait, fun w he => hd.decided w (hw w he)⟩
  rw [seen, hwait, hd.wait, asks_self, List.nil_append]
  cases hf : s.service.dispatcher.worker? n with
  | none => rfl
  | some w =>
    cases hr : w.response with
    | none => exact absurd hr (hd.decided w hf)
    | some response =>
      cases (s.step now (.deliver n)).1.service.dispatcher.worker? n <;> simp [settles, hr]

theorem Stands.step (h : Stands feature r s n notes) (ho : s.Orderly)
    (hn : n < s.service.dispatcher.accepted) (now : Int) (move : Move) :
    Stands feature r (s.step now move).1 n
      (notes ++ (s.begun n move ++ s.seen (s.step now move).1 n)) := by
  -- whoever spares the request shows nothing of it
  have spared (hs : move = .serve n → ∀ w, ¬s.Serves n w)
      (ha : ∀ answers, move = .answer n answers → ∀ query, s.wait? n ≠ some (.engine query))
      (hc : s.wait? n ≠ some .quiet)
      (hd : move = .deliver n → ∀ w, s.service.dispatcher.worker? n = some w → w.response = none) :
      Stands feature r (s.step now move).1 n
        (notes ++ (s.begun n move ++ s.seen (s.step now move).1 n)) := by
    have hspares := ho.spares_step hn now hs ha hc hd
    rw [begun_eq_nil hs ha, hspares.seen_eq, List.append_nil, List.append_nil]
    exact hspares.stands h
  cases h with
  | @waiting w hw hh hr =>
    subst hr
    by_cases hm : move = .serve n
    · have hb : s.begun n move = [.started s.state s.workspace.store] := by
        simp [hm, begun, hw.found, hw.unserved, hw.undecided]
      rw [hb, hm]
      exact hw.started hh
    · refine spared (fun h => absurd h hm) ?_ ?_ ?_
      · simp [hw.unserved]
      · simp [hw.unserved]
      · intro _ w' hw'
        obtain rfl := Option.some.inj (hw.found.symm.trans hw')
        exact hw.undecided
  | @asking documents ask query w ha hq hw hu hr hwait =>
    subst hr
    by_cases hm : ∃ answers, move = .answer n answers
    · obtain ⟨answers, rfl⟩ := hm
      have hb : s.begun n (.answer n answers) = [.answered w.stopped answers] := by
        simp [begun, hw, hwait]
      rw [hb]
      exact answered ha hq hw hu hwait answers
    · refine spared ?_ (fun answers h => absurd ⟨answers, h⟩ hm) ?_ ?_
      · intro _ w' hs
        simp [hs.unserved] at hwait
      · simp [hwait]
      · intro _ w' hw'
        obtain rfl := Option.some.inj (hw.symm.trans hw')
        exact hu
  | done hs hd =>
    by_cases hm : move = .deliver n
    · subst hm
      obtain ⟨hseen, hd'⟩ := hd.delivered now
      have hb : s.begun n (.deliver n) = [] := rfl
      rw [hb, hseen, List.append_nil, List.append_nil]
      exact .done hs hd'
    · refine spared ?_ ?_ ?_ fun h => absurd h hm
      · intro _ w hw
        exact hd.decided w hw.found hw.undecided
      · simp [hd.wait]
      · simp [hd.wait]

/-- The books stay in order along a run, and the request stands as what is seen of it says. -/
theorem Watched.stands (h : Watched n s notes s') (ho : s.Orderly) (hw : s.Serves n w)
    (hh : w.handler = .feature feature) : s'.Orderly ∧ n < s'.service.dispatcher.accepted ∧
      Stands feature w.request s' n notes := by
  induction h with
  | refl =>
    obtain ⟨hm, hi⟩ := ho.sound.worker?_eq_some_iff.mp hw.found
    exact ⟨ho, hi ▸ ho.sound.bounded w hm, .waiting hw hh rfl⟩
  | @tail notes t _ _ _ hs ih =>
    obtain ⟨ho, hn, hst⟩ := ih
    cases hs with
    | step now move =>
      obtain ⟨events, hb⟩ := ho.step_books now move
      exact ⟨hb.orderly ho, Nat.lt_of_lt_of_le hn hb.turn.accepted_le, hst.step ho hn now move⟩
    | outside channel stopRequested readFlaw =>
      rw [List.append_nil]
      have hspares : t.Spares { t with
          service := { t.service with channel, stopRequested, readFlaw } } n :=
        ⟨rfl, rfl, Nat.le_refl _⟩
      exact ⟨⟨ho.sound, ho.waiting⟩, hn, hspares.stands hst⟩

end Server

/-! ### Internal errors -/

section Internal

variable {feature : Feature} {r : Rpc.Request} {notes : List Note}

theorem permit_code {state : State} {method : Bytes} {refusal : Rpc.Refusal}
    (h : state.permit method = .error refusal) : refusal.code ≠ Rpc.Code.internalError := by
  cases state with
  | running => cases h
  | notStarted | starting | initializing =>
    obtain rfl := Except.error.inj h
    have hc : Rpc.Code.serverNotInitialized ≠ Rpc.Code.internalError := by decide
    exact hc
  | shuttingDown | stopped =>
    obtain rfl := Except.error.inj h
    have hc : Rpc.Code.invalidRequest ≠ Rpc.Code.internalError := by decide
    exact hc

/-- A response with an internal error tells of a failure of the handler that counts as one. -/
theorem failure_of_internal {stopped : Bool} {outcome : Except Rpc.Failure Json} {e : Rpc.Error}
    (h : Rpc.Response.ofError r.id e = responseOf r stopped outcome)
    (hc : e.code = Rpc.Code.internalError) :
    ∃ failure, outcome = .error failure ∧ failure.code = Rpc.Code.internalError := by
  rcases Dispatch.error_of_responseOf h.symm with he | ⟨failure, ho, he⟩
  · rw [he] at hc
    exact absurd hc (by decide)
  · exact ⟨failure, ho, he ▸ hc⟩

theorem settled_of_mem {state : State} {documents : Document.Store} {stopped stopped' : Bool}
    {response response' : Rpc.Response}
    (h : Note.settled stopped response ∈ [.started state documents, .settled stopped' response']) :
    response = response' := by
  simp only [List.mem_cons, reduceCtorEq, false_or, List.not_mem_nil, or_false,
    Note.settled.injEq] at h
  exact h.2

/-- Only the engine can make a request for a feature end with an internal error, by refusing it as
one. -/
theorem Story.refused_of_internal (h : Story feature r notes) {stopped : Bool} {e : Rpc.Error}
    (hm : .settled stopped (.ofError r.id e) ∈ notes) (hc : e.code = Rpc.Code.internalError) :
    ∃ stopped answers refusal, .answered stopped answers ∈ notes ∧
      answers feature = .error (.refused refusal) ∧ refusal.code = Rpc.Code.internalError := by
  cases h with
  | waiting => cases hm
  | denied hs =>
    obtain ⟨failure, ho, hf⟩ := failure_of_internal (settled_of_mem hm) hc
    obtain rfl := Except.error.inj ho
    exact absurd hf (permit_code hs)
  | flawed =>
    obtain ⟨failure, ho, hf⟩ := failure_of_internal (settled_of_mem hm) hc
    obtain rfl := Except.error.inj ho
    have hi : Rpc.Code.invalidParams ≠ Rpc.Code.internalError := by decide
    exact absurd hf hi
  | unknown =>
    obtain ⟨failure, ho, -⟩ := failure_of_internal (settled_of_mem hm) hc
    cases ho
  | asking => simp at hm
  | @answered _ _ _ stopped' answers _ _ _ hd =>
    obtain ⟨-, hm⟩ : stopped = stopped' ∧ _ := by simpa using hm
    obtain ⟨failure, ho, hf⟩ := failure_of_internal hm hc
    obtain ⟨refusal, hr, rfl⟩ := hd.refused_of_internal ho hf
    exact ⟨stopped', answers, refusal, by simp, hr, hf⟩

end Internal

/-- A request for a feature goes one of the ways that all of them go. -/
structure Uniform (feature : Feature) (r : Rpc.Request) (notes : List Note) : Prop where
  /-- The engine is called once at most, and the response follows from its answer, or from why it was
  not called. -/
  story : Story feature r notes
  /-- An internal error is an engine's own refusal. -/
  internal : ∀ stopped e, .settled stopped (.ofError r.id e) ∈ notes →
    e.code = Rpc.Code.internalError →
      ∃ stopped answers refusal, .answered stopped answers ∈ notes ∧
        answers feature = .error (.refused refusal) ∧ refusal.code = Rpc.Code.internalError

/-- Whatever a server does after it has accepted a request for a feature, the request goes one of the
ways that all of them go. -/
theorem Server.Watched.uniform {s s' : Server} {n : WorkerId} {notes : List Note}
    {w : Worker RequestHandler} {feature : Feature} (h : s.Watched n notes s') (ho : s.Orderly)
    (hw : s.Serves n w) (hh : w.handler = .feature feature) : Uniform feature w.request notes := by
  have hs := (h.stands ho hw hh).2.2.story
  exact ⟨hs, fun _ _ => hs.refused_of_internal⟩

/-- A hover request for the document that is open. -/
def hoverCall : Rpc.Request :=
  { id := .text (ascii "1")
    method := featureMethod .hover
    params := some (.record [("textDocument", .record [("uri", .text (ascii "a"))]),
      ("position", .record [("line", .int 0), ("character", .int 4)])]) }

/-- A running session that has accepted it. -/
def hoverServer : Server :=
  let s := Server.create {} Channel.sessionStem
  { s with
    state := .running
    workspace := { s.workspace with
      store :=
        { entries := [{ document :=
            { uri := ascii "a", languageId := ascii "vb", version := 1, text := ascii "Dim x",
              handle := some ⟨ascii "a", 1⟩ } }]
          table := [(ascii "a", 0)] } }
    service := { s.service with
      dispatcher := { s.service.dispatcher with
        pending := [(hoverCall.id.key, 0)]
        workers := [{ id := 0, request := hoverCall, handler := .feature .hover }]
        accepted := 1 } } }

theorem orderly_hoverServer : hoverServer.Orderly where
  sound :=
    { ids := List.nodup_singleton 0
      bounded := by simp [hoverServer]
      keys := List.nodup_singleton _
      pending_iff := by
        intro k i
        simp [hoverServer, and_comm, eq_comm] }
  waiting := by simp [hoverServer, Server.create]

/-- When the engine crashes the request has an empty result, and when it returns a hover the text is in
the result. -/
theorem Server.Watched.uniform_hoverServer :
    (∃ notes s', hoverServer.Watched 0 notes s' ∧
      notes.getLast? = some (.settled false (.ofResult hoverCall.id .null)) ∧
        Uniform .hover hoverCall notes) ∧
      ∃ notes s' v, hoverServer.Watched 0 notes s' ∧
        notes.getLast? = some (.settled false (.ofResult hoverCall.id v)) ∧
          ((v.member? (ascii "contents")).bind fun c => c.textMember? (ascii "value")) =
            some (ascii "Dim x") ∧ Uniform .hover hoverCall notes := by
  have hstart := (@Watched.refl 0 hoverServer).tail (.step 0 (.serve 0))
  constructor
  · have h := hstart.tail (.step 0 (.answer 0 fun _ => .error (.crashed (ascii "lost"))))
    exact ⟨_, _, h, rfl, Server.Watched.uniform h orderly_hoverServer ⟨rfl, rfl, rfl⟩ rfl⟩
  · have h := hstart.tail (.step 0 (.answer 0 fun
      | .hover => .ok (some { markdown := ascii "Dim x" })
      | _ => .error .cancelled))
    exact ⟨_, _, _, h, rfl, rfl, Server.Watched.uniform h orderly_hoverServer ⟨rfl, rfl, rfl⟩ rfl⟩

end Session

end EditorSession
