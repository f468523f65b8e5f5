import EditorSession.Proofs.Dispatch.Inert
import EditorSession.Proofs.Dispatch.Queue

/-! A run on a sequence of frames some of which are marked as inserted, against a run on the others: an
inserted frame is received and forgotten, and all the rest happens in both. The loop looks for a stop
request after each frame, so after an inserted frame it is where it was before it began to wait for that
frame; the run without the frame has not begun to wait yet. -/

namespace EditorSession.Dispatch

variable {H N : Type}

/-- A frame was received, and nothing came of it. -/
def Event.isIgnored : Event → Bool
  | received _ .ignored => true
  | received _ (.answered _) => false
  | received _ (.accepted _) => false
  | drained => false
  | concluded _ _ => false
  | delivered _ _ => false

namespace Service

/-- A run on a sequence of frames, with its record and the calls of notification handlers. The frames
arrive in order and wait until the loop takes them; all else is as in any run. `P` holds of the
dispatcher throughout. -/
inductive Fed (P : Dispatcher H N → Prop) :
    List Bytes → List Event → List (Job N) → Service H N → Prop where
  | fresh (channel session) (h : (channel.inbox ownSide).messages = []) (hP : P {}) :
      Fed P [] [] [] { channel, session }
  | arrive {frames events calls s} (frame) (h : Fed P frames events calls s) :
      Fed P (frames ++ [frame]) events calls (s.withQueue (s.waiting ++ [frame]) s.phase)
  | move {frames events calls s more s'} (h : Fed P frames events calls s) (hm : Move s more s')
      (hP : P s'.dispatcher) : Fed P frames (events ++ more) (calls ++ (s.call? s').toList) s'
  | intervention {frames events calls s s'} (h : Fed P frames events calls s)
      (hi : Intervention s s') (hw : s'.waiting = s.waiting) (hP : P s'.dispatcher) :
      Fed P frames events calls s'

/-- A run on frames some of which are marked as inserted, and do nothing when they are received.
`queue` holds the frames that wait. There are two records: one of what happens besides, and one that
also tells of the inserted frames. -/
inductive Padded (P : Dispatcher H N → Prop) : List (Bytes × Bool) → List (Bytes × Bool) →
    List Event → List Event → List (Job N) → Service H N → Prop where
  | fresh (channel session) (h : (channel.inbox ownSide).messages = []) (hP : P {}) :
      Padded P [] [] [] [] [] { channel, session }
  | arrive {frames queue bare full calls s} (frame inserted)
      (h : Padded P frames queue bare full calls s) :
      Padded P (frames ++ [(frame, inserted)]) (queue ++ [(frame, inserted)]) bare full calls
        (s.withQueue (s.waiting ++ [frame]) s.phase)
  /-- A move that takes no frame. -/
  | move {frames queue bare full calls s more s'} (h : Padded P frames queue bare full calls s)
      (hm : Move s more s') (hw : s'.waiting = s.waiting) (hP : P s'.dispatcher) :
      Padded P frames queue (bare ++ more) (full ++ more) (calls ++ (s.call? s').toList) s'
  | receive {frames frame queue bare full calls s s' notices}
      (h : Padded P frames ((frame, false) :: queue) bare full calls s) (hp : s.phase = .reading)
      (hf : s.readFlaw = none) (hn : s.next? = some (s', notices)) (hP : P s'.dispatcher) :
      Padded P frames queue (bare ++ s.loopEvents) (full ++ s.loopEvents) calls s'
  | skip {frames frame queue bare full calls s s' notices}
      (h : Padded P frames ((frame, true) :: queue) bare full calls s) (hp : s.phase = .reading)
      (hf : s.readFlaw = none) (hi : Inert s.dispatcher frame) (hn : s.next? = some (s', notices)) :
      Padded P frames queue bare (full ++ s.loopEvents) calls s'
  | intervention {frames queue bare full calls s s'} (h : Padded P frames queue bare full calls s)
      (hi : Intervention s s') (hw : s'.waiting = s.waiting) (hP : P s'.dispatcher) :
      Padded P frames queue bare full calls s'

/-- The frames that are not marked as inserted. -/
def kept (frames : List (Bytes × Bool)) : List Bytes :=
  frames.filterMap fun f => if f.2 then none else some f.1

theorem kept_append (frames more : List (Bytes × Bool)) :
    kept (frames ++ more) = kept frames ++ kept more := List.filterMap_append

theorem kept_eq_nil {frames : List (Bytes × Bool)} (h : frames.map Prod.fst = []) :
    kept frames = [] := by
  rw [List.map_eq_nil_iff.mp h]
  rfl

variable {P : Dispatcher H N → Prop} {frames queue : List (Bytes × Bool)}
  {bare full events : List Event} {calls : List (Job N)} {s s' : Service H N}
  {notices : List Log.Notice}

/-! ### Runs on a sequence of frames -/

theorem Fed.run {frames : List Bytes} (h : Fed P frames events calls s) : Run events s := by
  induction h with
  | fresh channel session _ => exact .fresh channel session
  | arrive frame _ ih => exact ih.intervention (.outside _ _ _ _)
  | move _ hm _ ih => exact ih.move hm
  | intervention _ hi _ _ ih => exact ih.intervention hi

/-- The frames received, and those that wait, are the frames in order. -/
theorem Fed.received {frames : List Bytes} (h : Fed P frames events calls s) :
    events.filterMap Event.frame? ++ s.waiting = frames := by
  induction h with
  | fresh channel session h => exact h
  | arrive frame _ ih => rw [withQueue_waiting, ← List.append_assoc, ih]
  | move _ hm _ ih => rw [List.filterMap_append, List.append_assoc, ← hm.flow, ih]
  | intervention _ _ hw _ ih => rw [hw, ih]

theorem Fed.holds {frames : List Bytes} (h : Fed P frames events calls s) : P s.dispatcher := by
  induction h with
  | fresh _ _ _ hP => exact hP
  | arrive _ _ ih => exact ih
  | move _ _ hP | intervention _ _ _ hP => exact hP

/-- No handler is called when the loop receives a frame. -/
theorem call?_of_receive (frame : Bytes) (hd : s'.dispatcher = (s.receive frame).1.dispatcher) :
    s.call? s' = none := by
  refine call?_of_current ?_
  rw [hd, receive_dispatcher]
  exact (s.dispatcher.receive_queues frame).1

/-! ### One frame -/

/-- The state after a waiting frame has been received. -/
theorem next?_eq {frame : Bytes} {rest : List Bytes} (hp : s.phase = .reading)
    (hf : s.readFlaw = none) (hw : s.waiting = frame :: rest)
    (hn : s.next? = some (s', notices)) : s' = (s.receive frame).1.withQueue rest .polling := by
  have h := Option.some.inj (hn.symm.trans (next?_of_waiting hp hf hw))
  rw [receive_withQueue] at h
  exact congrArg Prod.fst h

/-- The loop that waits with these frames in the queue receives the first one. -/
theorem next?_withQueue_cons {frame : Bytes} {rest : List Bytes} (hf : s.readFlaw = none) :
    (s.withQueue (frame :: rest) .reading).next? =
        some ((s.receive frame).1.withQueue rest .polling, (s.receive frame).2) ∧
      (s.withQueue (frame :: rest) .reading).loopEvents =
        [.received frame (s.dispatcher.fate (.ofFrame frame))] := by
  have hf' : (s.withQueue (frame :: rest) .reading).readFlaw = none := hf
  have hn := next?_of_waiting rfl hf' withQueue_waiting
  rw [withQueue_withQueue, receive_withQueue] at hn
  exact ⟨hn, loopEvents_of_waiting rfl hf' withQueue_waiting⟩

theorem Fed.receive {frames rest : List Bytes} {frame : Bytes}
    (h : Fed P frames events calls (s.withQueue (frame :: rest) .reading)) (hf : s.readFlaw = none)
    (hP : P (s.receive frame).1.dispatcher) :
    Fed P frames (events ++ [.received frame (s.dispatcher.fate (.ofFrame frame))]) calls
      ((s.receive frame).1.withQueue rest .polling) := by
  obtain ⟨hn, he⟩ := next?_withQueue_cons hf
  have hm := h.move (.loop hn) hP
  rwa [he, call?_withQueue, call?_of_receive frame rfl, Option.toList_none, List.append_nil] at hm

/-- An inserted frame is taken from the queue, and nothing else happens. -/
theorem next?_of_inert {frame : Bytes} {rest : List Bytes} (hp : s.phase = .reading)
    (hf : s.readFlaw = none) (hw : s.waiting = frame :: rest) (hi : Inert s.dispatcher frame) :
    ∃ notices, s.next? = some (s.withQueue rest .polling, notices) := by
  obtain ⟨notices, hr⟩ := @Inert.service _ _ (s.withQueue rest .polling) frame hi
  exact ⟨notices, by rw [next?_of_waiting hp hf hw, hr]⟩

theorem loopEvents_of_inert {frame : Bytes} {rest : List Bytes} (hp : s.phase = .reading)
    (hf : s.readFlaw = none) (hw : s.waiting = frame :: rest) (hi : Inert s.dispatcher frame) :
    s.loopEvents = [.received frame .ignored] := by
  rw [loopEvents_of_waiting hp hf hw, hi.fate]

/-- The loop begins to wait when it has found no stop request. -/
theorem next?_reading (hn : s.next? = some (s', notices)) (hp : s'.phase = .reading) :
    s.phase = .polling ∧ s.stopRequested = false ∧ s' = { s with phase := .reading } ∧
      s.loopEvents = [] := by
  obtain ⟨phase, he, rfl, -⟩ | ⟨readFlaw, he, rfl⟩ | ⟨channel, frame, -, he, rfl⟩ := next?_cases hn
  · obtain rfl : phase = .reading := hp
    cases hs : s.phase with
    | polling =>
      cases ht : s.stopRequested with
      | false => exact ⟨rfl, rfl, rfl, he⟩
      | true => simp [loopEvents, hs, ht] at he
    | notRunning | finished => simp [next?, hs] at hn
    | draining => simp [next?, hs] at hn
    | reading =>
      simp only [loopEvents, hs] at he
      split at he <;> cases he
  · cases hp
  · rw [receive_phase] at hp
    cases hp

/-! ### With the inserted frames -/

theorem Padded.queue_eq (h : Padded P frames queue bare full calls s) :
    queue.map Prod.fst = s.waiting := by
  induction h with
  | fresh channel session h => exact h.symm
  | arrive frame inserted _ ih => rw [List.map_append, ih, withQueue_waiting]; rfl
  | move _ _ hw _ ih => rw [ih, hw]
  | receive _ hp hf hn _ ih =>
    rw [next?_eq hp hf ih.symm hn, withQueue_waiting]
  | skip _ hp hf _ hn ih =>
    rw [next?_eq hp hf ih.symm hn, withQueue_waiting]
  | intervention _ _ hw _ ih => rw [ih, hw]

/-- After an inserted frame the loop looks for a stop request. -/
theorem Padded.eq_of_skip {frame : Bytes}
    (h : Padded P frames ((frame, true) :: queue) bare full calls s) (hp : s.phase = .reading)
    (hf : s.readFlaw = none) (hi : Inert s.dispatcher frame) (hn : s.next? = some (s', notices)) :
    s' = s.withQueue (queue.map Prod.fst) .polling := by
  obtain ⟨notices', hn'⟩ := next?_of_inert hp hf h.queue_eq.symm hi
  exact congrArg Prod.fst (Option.some.inj (hn.symm.trans hn'))

/-- It is a run on all the frames. -/
theorem Padded.fed (h : Padded P frames queue bare full calls s) :
    Fed P (frames.map Prod.fst) full calls s := by
  induction h with
  | fresh channel session h hP => exact .fresh channel session h hP
  | arrive frame inserted _ ih =>
    rw [List.map_append]
    exact ih.arrive frame
  | move _ hm _ hP ih => exact ih.move hm hP
  | receive h hp hf hn hP ih =>
    have hm := ih.move (.loop hn) hP
    rwa [call?_of_receive _ (by rw [next?_eq hp hf h.queue_eq.symm hn]; rfl), Option.toList_none,
      List.append_nil] at hm
  | @skip frames frame queue bare full calls s s' notices h hp hf hi hn ih =>
    obtain rfl := h.eq_of_skip hp hf hi hn
    have hm := ih.move (.loop hn) ih.holds
    have hc : s.call? (s.withQueue (queue.map Prod.fst) .polling) = none := call?_of_current rfl
    rwa [hc, Option.toList_none, List.append_nil] at hm
  | intervention _ hi hw hP ih => exact ih.intervention hi hw hP

/-! ### Without them -/

/-- The phases in which the run without the inserted frames can be: the same one, and while the loop
waits also the one before. -/
def Meets (p phase : Phase) : Prop := p = phase ∨ phase = .reading ∧ p = .polling

section

variable {fs q : List Bytes} {more : List Event}

/-- The run without the inserted frames goes along with a move that takes no frame. -/
theorem Fed.alongside (h : ∀ p, Meets p s.phase → Fed P fs bare calls (s.withQueue q p))
    (hm : Move s more s') (hwait : s'.waiting = s.waiting) (hq : s.waiting = [] → q = [])
    (hP : P s'.dispatcher) :
    ∀ p, Meets p s'.phase →
      Fed P fs (bare ++ more) (calls ++ (s.call? s').toList) (s'.withQueue q p) := by
  obtain ⟨notices, hn, rfl⟩ | ⟨hphase, -, hm⟩ := hm.loop_or_beside
  · rintro p (rfl | ⟨hr, rfl⟩)
    · obtain ⟨hn', he⟩ := next?_withQueue hn hwait fun _ => hq
      have hm := (h _ (.inl rfl)).move (.loop hn') hP
      rw [he] at hm
      exact hm
    · -- The loop has only begun to wait; the other run has not.
      obtain ⟨hp, -, rfl, he⟩ := next?_reading hn hr
      have hc : s.call? { s with phase := .reading } = none := call?_of_current rfl
      rw [he, hc, Option.toList_none, List.append_nil, List.append_nil]
      exact h .polling (.inl hp.symm)
  · exact fun p hp => (h p (hphase ▸ hp)).move (hm q p) hP

/-- It also goes along with whatever is done to the service, the queue apart. -/
theorem Fed.alongside_intervention
    (h : ∀ p, Meets p s.phase → Fed P fs bare calls (s.withQueue q p)) (hi : Intervention s s')
    (hP : P s'.dispatcher) : ∀ p, Meets p s'.phase → Fed P fs bare calls (s'.withQueue q p) := by
  obtain ⟨hr, rfl⟩ | ⟨hphase, hi⟩ := hi.run_or_beside
  · rintro p (rfl | ⟨hp, -⟩)
    · exact (h _ (.inl rfl)).intervention (.run hr) (by simp [withQueue, waiting]) hP
    · cases hp
  · exact fun p hp => (h p (hphase ▸ hp)).intervention (hi q p) (by simp) hP

end

/-- It is a run on the other frames, in the same state but for the inserted frames that wait. -/
theorem Padded.without (h : Padded P frames queue bare full calls s) :
    ∀ p, Meets p s.phase → Fed P (kept frames) bare calls (s.withQueue (kept queue) p) := by
  induction h with
  | fresh channel session h hP =>
    rintro p (rfl | ⟨hp, -⟩)
    · have hs := @withQueue_self _ _ ({ channel, session } : Service H N)
      rw [show ({ channel, session } : Service H N).waiting = [] from h] at hs
      change Fed P [] [] [] (({ channel, session } : Service H N).withQueue [] .notRunning)
      rw [show _ = ({ channel, session } : Service H N) from hs]
      exact .fresh channel session h hP
    · cases hp
  | @arrive frames queue bare full calls s frame inserted _ ih =>
    intro p hp
    rw [withQueue_withQueue, kept_append, kept_append]
    cases inserted with
    | true => simpa [kept] using ih p hp
    | false =>
      have ha := (ih p hp).arrive frame
      rwa [withQueue_waiting, withQueue_phase, withQueue_withQueue] at ha
  | move h hm hw hP ih =>
    refine Fed.alongside ih hm hw (fun he => kept_eq_nil ?_) hP
    rw [h.queue_eq, he]
  | @receive frames frame queue bare full calls s s' notices h hp hf hn hP ih =>
    have hw := h.queue_eq.symm
    have hs := next?_eq hp hf hw hn
    have hb := (ih .reading (.inl hp.symm)).receive hf (by rwa [hs] at hP)
    rw [loopEvents_of_waiting hp hf hw, hs]
    rintro p (rfl | ⟨hr, -⟩)
    · rw [withQueue_phase, withQueue_withQueue]
      exact hb
    · cases hr
  | skip h hp hf hi hn ih =>
    obtain rfl := h.eq_of_skip hp hf hi hn
    rintro p (rfl | ⟨hr, -⟩)
    · rw [withQueue_withQueue]
      exact ih .polling (.inr ⟨hp, rfl⟩)
    · cases hr
  | intervention _ hi _ hP ih => exact Fed.alongside_intervention ih hi hP

/-- Whatever is told of a record event by event, and tells nothing of frames that were ignored, is told
of both records. -/
theorem Padded.agree {α : Type} {tell : List Event → List α}
    (happend : ∀ a b, tell (a ++ b) = tell a ++ tell b)
    (hignored : ∀ frame, tell [.received frame .ignored] = [])
    (h : Padded P frames queue bare full calls s) : tell full = tell bare := by
  induction h with
  | fresh => rfl
  | arrive _ _ _ ih | intervention _ _ _ _ ih => exact ih
  | move _ _ _ _ ih | receive _ _ _ _ _ ih => rw [happend, happend, ih]
  | skip h hp hf hi _ ih =>
    rw [happend, ih, loopEvents_of_inert hp hf h.queue_eq.symm hi, hignored, List.append_nil]

end Service

end EditorSession.Dispatch
