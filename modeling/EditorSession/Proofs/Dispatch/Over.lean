import EditorSession.Proofs.Dispatch.Run

/-! The end of a receive loop. It finishes only when nothing is left to be done, and from then on
nothing is begun any more, whatever is done to the service. -/

namespace EditorSession.Dispatch

variable {H N : Type}

theorem Dispatcher.finishJob_current (d : Dispatcher H N) (failure : Option Rpc.Failure) :
    (d.finishJob failure).1.current = none := by
  unfold finishJob
  split
  case h_1 hn => exact hn
  case h_2 => rfl

namespace Service

/-- The receive loop has finished, and nothing was left to be done. -/
structure Over (s : Service H N) : Prop where
  phase : s.phase = .finished
  workers : s.dispatcher.workers = []
  current : s.dispatcher.current = none
  jobs : s.dispatcher.jobs = []

theorem over_of_idle {s : Service H N} (hp : s.phase = .finished)
    (hi : s.dispatcher.idle = true) : s.Over := by
  simp only [Dispatcher.idle, Bool.and_eq_true, List.isEmpty_iff, Option.isNone_iff_eq_none] at hi
  exact ⟨hp, hi.1.1, hi.1.2, hi.2⟩

/-- What a server does to its service for one of its handlers keeps the property. -/
structure Bears (P : Service H N → Prop) : Prop where
  conclude : ∀ s id outcome, P s → P (s.conclude id outcome).1
  deliver : ∀ s id, P s → P (s.deliver id).1
  finishJob : ∀ s failure, P s → P (s.finishJob failure).1

/-- What a server does to its service, in whatever order, keeps the property. -/
structure Keeps (P : Service H N → Prop) : Prop extends Bears P where
  loop : ∀ s s' notices, s.next? = some (s', notices) → P s → P s'
  takeJob : ∀ s, P s → P s.takeJob.1
  notify : ∀ s n, P s → P (s.notify n).1
  stop : ∀ s, P s → P { s with stopRequested := true }
  close : ∀ s, P s → P { s with channel := s.channel.close ownSide }

theorem notify_dispatcher (s : Service H N) (n : Rpc.Notification) :
    (s.notify n).1.dispatcher = s.dispatcher := by
  unfold notify
  split <;> rfl

theorem notify_phase (s : Service H N) (n : Rpc.Notification) : (s.notify n).1.phase = s.phase := by
  unfold notify
  split <;> rfl

theorem deliver_phase (s : Service H N) (id : WorkerId) : (s.deliver id).1.phase = s.phase := by
  unfold deliver
  split
  · rfl
  · exact respond_phase _ _

namespace Over

variable {s s' : Service H N} (h : s.Over)

include h

theorem worker? (id : WorkerId) : s.dispatcher.worker? id = none := by
  simp [Dispatcher.worker?, h.workers]

theorem takeJob : s.takeJob = (s, none) := by
  simp [Service.takeJob, Dispatcher.takeJob, h.current, h.jobs]

theorem of_dispatcher (hp : s'.phase = s.phase) (hd : s'.dispatcher = s.dispatcher) : s'.Over :=
  ⟨hp.trans h.phase, hd ▸ h.workers, hd ▸ h.current, hd ▸ h.jobs⟩

end Over

/-- After the receive loop nothing is begun any more. -/
theorem keeps_over : Keeps (Over : Service H N → Prop) where
  loop s s' notices hn h := by simp [next?, h.phase] at hn
  conclude s id outcome h := by
    simpa [Service.conclude, Dispatcher.conclude, h.worker?] using h
  deliver s id h := by
    simpa [Service.deliver, Dispatcher.takeResponse, h.worker?] using h
  takeJob s h := by
    rw [h.takeJob]
    exact h
  finishJob s failure h := by
    simpa [Service.finishJob, Dispatcher.finishJob, h.current] using h
  notify s n h := h.of_dispatcher (s.notify_phase n) (s.notify_dispatcher n)
  stop s h := h.of_dispatcher rfl rfl
  close s h := h.of_dispatcher rfl rfl

/-- The receive loop does not finish before everything is done. -/
theorem keeps_finished : Keeps fun s : Service H N => s.phase = .finished → s.Over where
  loop s s' notices hn h := by
    obtain ⟨phase, -, rfl, hi⟩ | ⟨readFlaw, -, rfl⟩ | ⟨channel, frame, -, -, rfl⟩ := next?_cases hn
    · exact fun hp => over_of_idle hp (hi hp)
    · intro hp
      cases hp
    · intro hp
      rw [receive_phase] at hp
      cases hp
  conclude s id outcome h hp := keeps_over.conclude s id outcome (h hp)
  deliver s id h hp := keeps_over.deliver s id (h (s.deliver_phase id ▸ hp))
  takeJob s h hp := keeps_over.takeJob s (h hp)
  finishJob s failure h hp := keeps_over.finishJob s failure (h hp)
  notify s n h hp := keeps_over.notify s n (h (s.notify_phase n ▸ hp))
  stop s h hp := keeps_over.stop s (h hp)
  close s h hp := keeps_over.close s (h hp)

/-- A service whose loop has finished has nothing left to do. -/
theorem Run.isOver {trace : List Event} {s : Service H N} (h : Run trace s) :
    s.phase = .finished → s.Over := by
  induction h with
  | fresh => simp
  | @move _ s _ _ _ hm ih =>
    cases hm with
    | loop hn => exact keeps_finished.loop _ _ _ hn ih
    | conclude outcome => exact keeps_finished.conclude _ _ outcome ih
    | deliver => exact keeps_finished.deliver _ _ ih
    | takeJob => exact keeps_finished.takeJob _ ih
    | finishJob failure => exact keeps_finished.finishJob _ failure ih
  | intervention _ hi ih =>
    cases hi with
    | notify n => exact keeps_finished.notify _ n ih
    | run => simp [run]
    | onRequest | onNotification | workerFlaw | outside =>
      exact fun hp => ⟨hp, (ih hp).workers, (ih hp).current, (ih hp).jobs⟩

end Service

end EditorSession.Dispatch
