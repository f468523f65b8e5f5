import EditorSession.Proofs.Dispatch.Padding

/-! Main statement: frames that do nothing may be inserted anywhere. A run with inserted frames does what
a run without them does, and whatever a run does can be done with any such frames inserted into what it
receives. For the latter the inserted frames come as early as they can, right behind the frame before
them, and the loop takes them as soon as it waits; so none of them is left at the head of the queue when
something else happens. -/

namespace EditorSession.Dispatch.Service

variable {H N : Type} {P : Dispatcher H N → Prop} {frames queue more : List (Bytes × Bool)}
  {bare full events : List Event} {calls : List (Job N)} {s s' : Service H N}

/-! ### Taking inserted frames -/

theorem next?_of_polling (hp : s.phase = .polling) (hs : s.stopRequested = false) :
    s.next? = some ({ s with phase := .reading }, []) := by
  simp only [next?, hp]
  rw [if_neg (Bool.eq_false_iff.mp hs)]

theorem loopEvents_of_polling (hp : s.phase = .polling) (hs : s.stopRequested = false) :
    s.loopEvents = [] := by
  simp only [loopEvents, hp]
  exact if_neg (Bool.eq_false_iff.mp hs)

theorem Padded.holds (h : Padded P frames queue bare full calls s) : P s.dispatcher := h.fed.holds

/-- When no stop is requested, the loop that waits takes an inserted frame and waits again. -/
theorem Padded.take {frame : Bytes}
    (h : Padded P frames ((frame, true) :: queue) bare full calls s) (hp : s.phase = .reading)
    (hf : s.readFlaw = none) (hs : s.stopRequested = false) (hi : Inert s.dispatcher frame) :
    Padded P frames queue bare (full ++ [.received frame .ignored]) calls
      (s.withQueue (queue.map Prod.fst) .reading) := by
  have hw := h.queue_eq.symm
  obtain ⟨notices, hn⟩ := next?_of_inert hp hf hw hi
  have hk := h.skip hp hf hi hn
  rw [loopEvents_of_inert hp hf hw hi] at hk
  -- The loop finds no stop request and waits again.
  have hs' : (s.withQueue (queue.map Prod.fst) .polling).stopRequested = false := hs
  have hm := hk.move (.loop (next?_of_polling rfl hs')) rfl h.holds
  have he := loopEvents_of_polling withQueue_phase hs'
  have hc : (s.withQueue (queue.map Prod.fst) .polling).call?
      (s.withQueue (queue.map Prod.fst) .reading) = none := call?_of_current rfl
  rw [he, List.append_nil, List.append_nil] at hm
  change Padded P _ _ _ _ (calls ++ (call? _ (s.withQueue (queue.map Prod.fst) .reading)).toList)
    (s.withQueue (queue.map Prod.fst) .reading) at hm
  rwa [hc, Option.toList_none, List.append_nil] at hm

theorem Padded.withQueue_eq (h : Padded P frames queue bare full calls s) :
    s.withQueue (queue.map Prod.fst) s.phase = s := by
  rw [h.queue_eq, withQueue_self]

theorem Padded.takeAll {inserted : List (Bytes × Bool)}
    (h : Padded P frames (inserted ++ queue) bare full calls s) (hp : s.phase = .reading)
    (hf : s.readFlaw = none) (hs : s.stopRequested = false)
    (hi : ∀ f ∈ inserted, f.2 = true ∧ Inert s.dispatcher f.1) :
    ∃ full', Padded P frames queue bare full' calls (s.withQueue (queue.map Prod.fst) .reading) := by
  induction inserted generalizing full s with
  | nil =>
    rw [List.nil_append] at h
    rw [← hp, h.withQueue_eq]
    exact ⟨full, h⟩
  | cons f inserted ih =>
    obtain ⟨frame, mark⟩ := f
    obtain ⟨⟨rfl, hframe⟩, hrest⟩ := List.forall_mem_cons.mp hi
    obtain ⟨full', h'⟩ := ih (h.take hp hf hs hframe) rfl hf hs hrest
    exact ⟨full', by rwa [withQueue_withQueue] at h'⟩

/-- A read that fails fails after the inserted frames. -/
theorem Padded.takeAll_before {inserted : List (Bytes × Bool)}
    (h : Padded P frames (inserted ++ queue) bare full calls s) (hp : s.phase = .reading)
    (hs : s.stopRequested = false)
    (hi : ∀ f ∈ inserted, f.2 = true ∧ Inert s.dispatcher f.1) :
    ∃ full', Padded P frames queue bare full' calls (s.withQueue (queue.map Prod.fst) .reading) := by
  have hready := h.intervention (.outside s s.channel s.stopRequested none) rfl h.holds
  obtain ⟨full', h'⟩ := hready.takeAll hp rfl hs hi
  exact ⟨full', h'.intervention (.outside _ _ s.stopRequested s.readFlaw) rfl h.holds⟩

/-- Frames that arrive one after the other, with nothing between them. -/
theorem Padded.arriveAll (h : Padded P frames queue bare full calls s) (more : List (Bytes × Bool)) :
    Padded P (frames ++ more) (queue ++ more) bare full calls
      (s.withQueue ((queue ++ more).map Prod.fst) s.phase) := by
  induction more generalizing frames queue s with
  | nil =>
    rw [List.append_nil, List.append_nil, h.withQueue_eq]
    exact h
  | cons f more ih =>
    have ha := ih (h.arrive f.1 f.2)
    rwa [withQueue_withQueue, List.append_assoc, List.append_assoc, List.singleton_append] at ha

/-! ### Keeping up -/

/-- Frames that are marked as inserted do nothing while the dispatcher is as `P` says. -/
def Harmless (P : Dispatcher H N → Prop) (frames : List (Bytes × Bool)) : Prop :=
  ∀ frame, (frame, true) ∈ frames → ∀ d, P d → Inert d frame

/-- A run with inserted frames is where the run without them is. While the loop waits, no inserted frame
is at the head of the queue. -/
structure KeepsUp (P : Dispatcher H N → Prop) (frames queue : List (Bytes × Bool))
    (bare full : List Event) (calls : List (Job N)) (s : Service H N) : Prop where
  padded : Padded P frames queue bare full calls (s.withQueue (queue.map Prod.fst) s.phase)
  waiting : s.waiting = kept queue
  head : s.phase = .reading → ∀ frame rest, queue ≠ (frame, true) :: rest

theorem exists_kept_snoc {fs : List Bytes} {frame : Bytes} (h : kept frames = fs ++ [frame]) :
    ∃ front more, frames = front ++ (frame, false) :: more ∧ kept front = fs ∧ kept more = [] := by
  obtain ⟨front, back, rfl, rfl, hb⟩ := List.filterMap_eq_append_iff.mp h
  obtain ⟨between, ⟨frame', inserted⟩, more, rfl, hn, hf, hm⟩ := List.filterMap_eq_cons_iff.mp hb
  cases inserted with
  | true => cases hf
  | false =>
    obtain rfl : frame' = frame := Option.some.inj hf
    refine ⟨front ++ between, more, by rw [List.append_assoc], ?_, hm⟩
    rw [kept_append, show kept between = [] from List.filterMap_eq_nil_iff.mpr hn, List.append_nil]
    rfl

/-- The frames that wait are the last ones. -/
theorem Padded.exists_taken (h : Padded P frames queue bare full calls s) :
    ∃ taken, frames = taken ++ queue := by
  induction h with
  | fresh => exact ⟨[], rfl⟩
  | arrive frame inserted _ ih =>
    obtain ⟨taken, rfl⟩ := ih
    exact ⟨taken, List.append_assoc ..⟩
  | move _ _ _ _ ih | intervention _ _ _ _ ih => exact ih
  | receive _ _ _ _ _ ih | skip _ _ _ _ _ ih =>
    obtain ⟨taken, rfl⟩ := ih
    exact ⟨taken ++ [_], by rw [List.append_assoc, List.singleton_append]⟩

theorem KeepsUp.fresh (channel session) (h : (channel.inbox ownSide).messages = []) (hP : P {})
    (hk : kept frames = []) :
    KeepsUp P frames frames [] [] [] ({ channel, session } : Service H N) where
  padded := (Padded.fresh channel session h hP).arriveAll frames
  waiting := h.trans hk.symm
  head := nofun

theorem KeepsUp.arrive (h : KeepsUp P frames queue bare full calls s) (frame : Bytes)
    (hk : kept more = []) :
    KeepsUp P (frames ++ (frame, false) :: more) (queue ++ (frame, false) :: more) bare full calls
      (s.withQueue (s.waiting ++ [frame]) s.phase) where
  padded := by
    have ha := h.padded.arriveAll ((frame, false) :: more)
    rw [withQueue_withQueue] at ha ⊢
    exact ha
  waiting := by
    rw [withQueue_waiting, h.waiting, kept_append]
    exact congrArg _ (congrArg (frame :: ·) hk.symm)
  head hp frame' rest hq := by
    cases queue with
    | nil => cases hq
    | cons f queue => exact h.head hp frame' queue (congrArg (· :: queue) (List.cons.inj hq).1)

/-- The frames in the queue when the loop waits and the first frame is not an inserted one. -/
theorem exists_of_kept_cons {frame : Bytes} {rest : List Bytes} (h : kept queue = frame :: rest)
    (hh : ∀ frame rest, queue ≠ (frame, true) :: rest) :
    ∃ queue', queue = (frame, false) :: queue' ∧ kept queue' = rest := by
  cases queue with
  | nil => cases h
  | cons f queue =>
    obtain ⟨frame', _ | _⟩ := f
    · obtain ⟨rfl, rfl⟩ := List.cons.inj (show frame' :: kept queue = frame :: rest from h)
      exact ⟨queue, rfl, rfl⟩
    · exact absurd rfl (hh frame' queue)

theorem eq_nil_of_kept (h : kept queue = []) (hh : ∀ frame rest, queue ≠ (frame, true) :: rest) :
    queue = [] := by
  cases queue with
  | nil => rfl
  | cons f queue =>
    obtain ⟨frame, _ | _⟩ := f
    · cases h
    · exact absurd rfl (hh frame queue)

/-- When the loop has begun to wait, the inserted frames at the head of the queue are taken. -/
theorem KeepsUp.of_reading (hi : Harmless P frames)
    (h : Padded P frames queue bare full calls (s.withQueue (queue.map Prod.fst) s.phase))
    (hw : s.waiting = kept queue) (hp : s.phase = .reading) (hs : s.stopRequested = false) :
    ∃ queue full, KeepsUp P frames queue bare full calls s := by
  have hsplit : queue.takeWhile Prod.snd ++ queue.dropWhile Prod.snd = queue :=
    List.takeWhile_append_dropWhile
  have hmark : ∀ f ∈ queue.takeWhile Prod.snd, f.2 = true := fun f hf =>
    List.all_eq_true.mp List.all_takeWhile f hf
  have hinert : ∀ f ∈ queue.takeWhile Prod.snd, f.2 = true ∧ Inert s.dispatcher f.1 := by
    rintro ⟨frame, mark⟩ hf
    obtain rfl : mark = true := hmark _ hf
    obtain ⟨taken, rfl⟩ := h.exists_taken
    have hm : (frame, true) ∈ taken ++ queue := List.mem_append_right _ (List.takeWhile_subset _ hf)
    exact ⟨rfl, hi frame hm _ h.holds⟩
  have hkept : kept (queue.takeWhile Prod.snd) = [] :=
    List.filterMap_eq_nil_iff.mpr fun f hf => if_pos (hmark f hf)
  rw [← hsplit] at h
  obtain ⟨full', h'⟩ := h.takeAll_before hp hs hinert
  rw [withQueue_withQueue, ← hp] at h'
  refine ⟨_, full', h', ?_, fun _ frame rest he => ?_⟩
  · rw [hw, ← hsplit, kept_append, hkept, hsplit, List.nil_append]
  · have hn := List.head?_dropWhile_not Prod.snd queue
    rw [he] at hn
    cases hn

theorem KeepsUp.receive {frame : Bytes} {rest : List Bytes} {notices : List Log.Notice}
    (h : KeepsUp P frames queue bare full calls s) (hp : s.phase = .reading) (hf : s.readFlaw = none)
    (hw : s.waiting = frame :: rest) (hn : s.next? = some (s', notices)) (hP : P s'.dispatcher) :
    ∃ queue full, KeepsUp P frames queue (bare ++ s.loopEvents) full calls s' := by
  obtain ⟨queue, rfl, rfl⟩ := exists_of_kept_cons (h.waiting.symm.trans hw) (h.head hp)
  obtain rfl := next?_eq hp hf hw hn
  obtain ⟨hn', he⟩ := @next?_withQueue_cons _ _ s frame (queue.map Prod.fst) hf
  have hpad := h.padded
  rw [hp] at hpad
  have hr : Padded P frames queue
      (bare ++ (s.withQueue (frame :: queue.map Prod.fst) .reading).loopEvents) _ calls _ :=
    hpad.receive rfl hf hn' hP
  have hs : ((s.receive frame).1.withQueue (kept queue) .polling).withQueue (queue.map Prod.fst)
      .polling = (s.receive frame).1.withQueue (queue.map Prod.fst) .polling := withQueue_withQueue ..
  rw [he, ← loopEvents_of_waiting hp hf hw, ← hs] at hr
  exact ⟨queue, _, hr, withQueue_waiting, nofun⟩

theorem KeepsUp.move (hi : Harmless P frames) (h : KeepsUp P frames queue bare full calls s)
    (hm : Move s events s') (hP : P s'.dispatcher) :
    ∃ queue full,
      KeepsUp P frames queue (bare ++ events) full (calls ++ (s.call? s').toList) s' := by
  obtain ⟨notices, hn, rfl⟩ | ⟨hphase, hw, hm⟩ := hm.loop_or_beside
  · rcases next?_waiting hn with hw | ⟨hp, hf, frame, rest, hw⟩
    · have hq : s.phase = .reading → s.waiting = [] → queue.map Prod.fst = [] := fun hp hnil => by
        rw [eq_nil_of_kept (h.waiting.symm.trans hnil) (h.head hp), List.map_nil]
      obtain ⟨hn', he⟩ := next?_withQueue hn hw hq
      have hm := h.padded.move (.loop hn') (by simp) hP
      rw [he, call?_withQueue] at hm
      by_cases hp : s'.phase = .reading
      · obtain ⟨-, hs, rfl, -⟩ := next?_reading hn hp
        exact KeepsUp.of_reading hi hm (hw.trans h.waiting) hp hs
      · exact ⟨queue, _, hm, hw.trans h.waiting, fun hp' => absurd hp' hp⟩
    · have hc : s.call? s' = none := call?_of_receive frame (by rw [next?_eq hp hf hw hn]; rfl)
      rw [hc, Option.toList_none, List.append_nil]
      exact h.receive hp hf hw hn hP
  · have hm := h.padded.move (hm _ _) (by simp) hP
    rw [call?_withQueue, ← hphase] at hm
    exact ⟨queue, _, hm, hw.trans h.waiting, fun hp => h.head (hphase ▸ hp)⟩

theorem KeepsUp.intervention (h : KeepsUp P frames queue bare full calls s)
    (hi : Intervention s s') (hw : s'.waiting = s.waiting) (hP : P s'.dispatcher) :
    KeepsUp P frames queue bare full calls s' := by
  obtain ⟨hr, rfl⟩ | ⟨hphase, hi⟩ := hi.run_or_beside
  · have hw' : (s.run.1.withQueue (queue.map Prod.fst) .polling).waiting =
        (s.withQueue (queue.map Prod.fst) s.phase).waiting := by
      rw [withQueue_waiting, withQueue_waiting]
    exact ⟨h.padded.intervention (.run hr) hw' hP, h.waiting, nofun⟩
  · refine ⟨?_, hw.trans h.waiting, fun hp => h.head (hphase ▸ hp)⟩
    rw [hphase]
    exact h.padded.intervention (hi _ _) (by simp) hP

theorem Fed.keepsUp {fs : List Bytes} (h : Fed P fs bare calls s) (hk : kept frames = fs)
    (hi : Harmless P frames) : ∃ queue full, KeepsUp P frames queue bare full calls s := by
  induction h generalizing frames with
  | fresh channel session h hP => exact ⟨_, _, .fresh channel session h hP hk⟩
  | arrive frame h ih =>
    obtain ⟨front, more, rfl, hf, hm⟩ := exists_kept_snoc hk
    obtain ⟨queue, full, h'⟩ := ih hf fun f hm => hi f (List.mem_append_left _ hm)
    exact ⟨_, _, h'.arrive frame hm⟩
  | move _ hm hP ih =>
    obtain ⟨queue, full, h'⟩ := ih hk hi
    exact h'.move hi hm hP
  | intervention _ hi' hw hP ih =>
    obtain ⟨queue, full, h'⟩ := ih hk hi
    exact ⟨_, _, h'.intervention hi' hw hP⟩

/-! ### Main statement -/

/-- What a run with inserted frames has in common with the run without them. -/
structure SameWithout (P : Dispatcher H N → Prop) (frames queue : List (Bytes × Bool))
    (bare full : List Event) (calls : List (Job N)) (s : Service H N) : Prop where
  /-- It is a run on all the frames, which are received in order. -/
  all : Fed P (frames.map Prod.fst) full calls s ∧
    full.filterMap Event.frame? ++ queue.map Prod.fst = frames.map Prod.fst
  /-- The same calls, pending requests, workers and written messages, in the same phase, come about
  without the inserted frames. -/
  without : Fed P (kept frames) bare calls (s.withQueue (kept queue) s.phase)
  /-- Requests are accepted, answered and ended in both, and the loop is left in both, in the same
  order. -/
  effects : full.filter (fun e => !Event.isIgnored e) = bare.filter (fun e => !Event.isIgnored e)
  responses : full.flatMap Event.responses = bare.flatMap Event.responses
  /-- Every run with what happens besides on record has the same pending requests. -/
  pending : ∀ other : Service H N, Run bare other → ∀ key worker,
    (key, worker) ∈ other.dispatcher.pending ↔ (key, worker) ∈ s.dispatcher.pending
  /-- The loop goes on after an inserted frame. -/
  running : ∀ frame rest, queue = (frame, true) :: rest → s.phase = .reading → s.readFlaw = none →
    Inert s.dispatcher frame →
    ∃ notices, s.next? = some (s.withQueue (rest.map Prod.fst) .polling, notices)

/-- Inserted frames have no effect. -/
structure NoEffect (P : Dispatcher H N → Prop) : Prop where
  /-- What a run with inserted frames does is done without them. -/
  same : ∀ {frames queue bare full calls} {s : Service H N},
    Padded P frames queue bare full calls s → SameWithout P frames queue bare full calls s
  /-- What a run does can be done with any harmless frames inserted anywhere into what it receives. -/
  possible : ∀ {frames bare calls} {s : Service H N}, Fed P (kept frames) bare calls s →
    Harmless P frames → ∃ queue full, kept queue = s.waiting ∧
      Padded P frames queue bare full calls (s.withQueue (queue.map Prod.fst) s.phase)

theorem Padded.sameWithout (h : Padded P frames queue bare full calls s) :
    SameWithout P frames queue bare full calls s where
  all := ⟨h.fed, h.queue_eq ▸ h.fed.received⟩
  without := h.without s.phase (.inl rfl)
  effects := h.agree (fun _ _ => List.filter_append ..) fun _ => rfl
  responses := h.agree (fun _ _ => List.flatMap_append ..) fun _ => rfl
  pending other ho key worker := by
    have hs : (key, worker) ∈ s.dispatcher.pending ↔ _ :=
      (h.without s.phase (.inl rfl)).run.mem_pending_iff key worker
    rw [ho.mem_pending_iff, hs]
  running frame rest hq hp hf hi := by
    subst hq
    exact next?_of_inert hp hf h.queue_eq.symm hi

theorem noEffect (P : Dispatcher H N → Prop) : NoEffect P where
  same := Padded.sameWithout
  possible h hi := by
    obtain ⟨queue, full, h'⟩ := h.keepsUp rfl hi
    exact ⟨queue, full, h'.waiting.symm, h'.padded⟩

theorem inert_cancelFrame {d : Dispatcher H N} (hp : d.pending = []) : Inert d cancelFrame :=
  .notPending (Incoming.ofFrame_eq_cancel_iff.mp ofFrame_cancelFrame) (by simp [hp])

/-- The call that `noteFrame` asks for. -/
def noteJob : Job Unit := ⟨(), ⟨ascii "m", none⟩⟩

theorem receive_noteFrame {s : Service Unit Unit}
    (h : s.dispatcher.notificationHandlers = [(ascii "m", ())]) :
    s.dispatcher.fate (.ofFrame noteFrame) = .ignored ∧
      s.receive noteFrame = ({ s with dispatcher := { s.dispatcher with
        jobs := s.dispatcher.jobs ++ [noteJob] } }, []) := by
  have hd : s.dispatcher.receive (.ofFrame noteFrame) = ({ s.dispatcher with
      jobs := s.dispatcher.jobs ++ [noteJob] }, none, []) := by
    simp [ofFrame_noteFrame, Dispatcher.receive, Dispatcher.receiveNotification, h, Table.get?, noteJob]
  exact ⟨by simp [Dispatcher.fate, hd], by rw [Service.receive, hd]⟩

/-- A service that accepts no request and calls a handler for one notification. -/
theorem exists_fed_noteFrame : ∃ s : Service Unit Unit,
    Fed (fun d => d.pending = []) [noteFrame] [.received noteFrame .ignored] [noteJob] s := by
  let channel : Channel.Duplex := { connected := fun _ => true }
  have h0 : Fed (fun d => d.pending = []) [] [] [] ({ channel } : Service Unit Unit) :=
    .fresh channel Channel.sessionStem rfl rfl
  have h1 := (h0.intervention (.onNotification _ (ascii "m") ()) rfl rfl).intervention (.run rfl) rfl rfl
  obtain ⟨s, h2, hp, hf, hw, hd⟩ : ∃ s : Service Unit Unit,
      Fed (fun d => d.pending = []) [] [] [] s ∧ s.phase = .reading ∧ s.readFlaw = none ∧
        s.waiting = [] ∧ s.dispatcher = { notificationHandlers := [(ascii "m", ())] } :=
    ⟨_, h1.move (.loop (next?_of_polling rfl rfl)) rfl, rfl, rfl, rfl, rfl⟩
  have h3 := h2.arrive noteFrame
  rw [hw, hp] at h3
  obtain ⟨hfate, hr⟩ := @receive_noteFrame s (by rw [hd])
  have h4 := h3.receive hf (by rw [hr, hd])
  rw [hfate, hr] at h4
  obtain ⟨dispatcher, channel', session, phase, stopRequested, readFlaw⟩ := s
  obtain rfl := hd
  exact ⟨_, h4.move (.takeJob _) rfl⟩

/-- Cancellations of nothing are inserted around a notification, whose handler is called. -/
theorem noEffect_cancelFrame : ∃ (s : Service Unit Unit) (queue : _) (full : _),
    Padded (fun d => d.pending = [])
        [(cancelFrame, true), (noteFrame, false), (cancelFrame, true)] queue
        [.received noteFrame .ignored] full [noteJob] s ∧
      SameWithout (fun d => d.pending = [])
        [(cancelFrame, true), (noteFrame, false), (cancelFrame, true)] queue
        [.received noteFrame .ignored] full [noteJob] s := by
  obtain ⟨s, h⟩ := exists_fed_noteFrame
  have hi : Harmless (fun d : Dispatcher Unit Unit => d.pending = [])
      [(cancelFrame, true), (noteFrame, false), (cancelFrame, true)] := by
    intro frame hm d hp
    obtain rfl : frame = cancelFrame := by simpa using hm
    exact inert_cancelFrame hp
  obtain ⟨queue, full, -, hpad⟩ := (noEffect fun d => d.pending = []).possible h hi
  exact ⟨_, queue, full, hpad, (noEffect fun d => d.pending = []).same hpad⟩

end EditorSession.Dispatch.Service
