import EditorSession.Frame.Stream

/-! Calls on a framed stream. One reader and any number of writers use a stream at the same time: a
read may wait for its source while others write, start or close the stream, and a write that has
found the stream connected may have its frame still to hand to the sink. So a run takes the parts of
the calls in any order, and the source and the sink do what they like. -/

namespace EditorSession.Frame

def Supply.content : Supply → Bytes
  | bytes chunk => chunk
  | ended => []
  | stopped => []

/-- The bytes of some supplies. -/
def content (taken : List Supply) : Bytes := taken.flatMap Supply.content

theorem decode_nil (limits : Limits) : decode limits [] = .incomplete := by
  rw [decode, headerEnd?]
  exact if_neg (Nat.not_lt_zero _)

namespace Stream

/-! ### What a read comes to -/

/-- What a read comes to that takes some supplies, and what it leaves of the stream. -/
inductive Comes : Stream → List Supply → Received → Stream → Prop where
  | message {s payload consumed} (h : decode s.limits s.buffer = .frame payload consumed) :
      Comes s [] (.message payload) { s with buffer := s.buffer.drop consumed }
  | broken {s flaw} (h : decode s.limits s.buffer = .flawed flaw) :
      Comes s [] (.broken flaw) { s with connected := false, buffer := [] }
  /-- Stopped beforehand, or disconnected. -/
  | refused {s} (h : decode s.limits s.buffer = .incomplete) : Comes s [] .nothing s
  | waiting {s} (h : decode s.limits s.buffer = .incomplete) : Comes s [] .waiting s
  | stopped {s} (h : decode s.limits s.buffer = .incomplete) : Comes s [.stopped] .nothing s
  | ended {s} (h : decode s.limits s.buffer = .incomplete) :
      Comes s [.ended] .nothing { s with connected := false }
  | feed {s chunk taken received s'}
      (h : Comes { s with buffer := s.buffer ++ chunk } taken received s') :
      Comes s (.bytes chunk :: taken) received s'

variable {s s' : Stream} {stop : Bool} {source rest taken : List Supply} {received : Received}
  {remarks : List Remark}

theorem comes_of_read (h : s.read stop source = (s', received, remarks, rest)) :
    ∃ taken, source = taken ++ rest ∧ Comes s taken received s' := by
  fun_induction read s stop source with
  | case1 s source payload consumed hd => cases h; exact ⟨[], rfl, .message hd⟩
  | case2 s source flaw hd => cases h; exact ⟨[], rfl, .broken hd⟩
  | case3 s source hd hs => cases h; exact ⟨[], rfl, .refused hd⟩
  | case4 s hd hs => cases h; exact ⟨[], rfl, .waiting hd⟩
  | case5 s hd hs chunk rest' ih =>
    obtain ⟨taken, rfl, hc⟩ := ih h
    exact ⟨.bytes chunk :: taken, rfl, .feed hc⟩
  | case6 s hd hs rest' s'' remarks' he =>
    cases h
    cases he
    exact ⟨[.ended], rfl, .ended hd⟩
  | case7 s hd hs rest' => cases h; exact ⟨[.stopped], rfl, .stopped hd⟩

/-- A read goes on where it waits, which is where its buffer holds no whole frame. -/
theorem comes_of_resume (hd : decode s.limits s.buffer = .incomplete)
    (h : s.resume source = (s', received, remarks, rest)) :
    ∃ taken, source = taken ++ rest ∧ Comes s taken received s' := by
  cases source with
  | nil => cases h; exact ⟨[], rfl, .waiting hd⟩
  | cons supply source =>
    cases supply with
    | bytes chunk =>
      obtain ⟨taken, rfl, hc⟩ := comes_of_read (show read _ false source = _ from h)
      exact ⟨.bytes chunk :: taken, rfl, .feed hc⟩
    | ended => cases h; exact ⟨[.ended], rfl, .ended hd⟩
    | stopped => cases h; exact ⟨[.stopped], rfl, .stopped hd⟩

/-- A read that is stopped beforehand does not ask the source. -/
theorem rest_of_read_stopped (h : s.read true source = (s', received, remarks, rest)) :
    rest = source := by
  rw [read.eq_def] at h
  split at h
  · cases h; rfl
  · cases h; rfl
  · rw [if_pos (.inl rfl)] at h
    cases h
    rfl

/-- Neither does a read of a disconnected stream. -/
theorem read_of_disconnected (hc : s.connected = false) (hd : decode s.limits s.buffer = .incomplete)
    (stop : Bool) (source : List Supply) : s.read stop source = (s, .nothing, [], source) := by
  rw [read.eq_def, hd]
  simp [hc]

theorem rest_of_read_disconnected (hc : s.connected = false)
    (h : s.read stop source = (s', received, remarks, rest)) : rest = source := by
  rw [read.eq_def] at h
  split at h
  · cases h; rfl
  · cases h; rfl
  · rw [if_pos (.inr (by simp [hc]))] at h
    cases h
    rfl

theorem write_of_disconnected {ε : Type} (s : Stream) (message : ε → Bytes) (payload : Bytes)
    (taking : Taking ε) (hc : s.connected = false) :
    s.write message payload taking = (s, .notConnected, [], []) := by
  simp [write, hc]

/-- A write to a connected stream gets to the sink. -/
theorem write_of_connected {ε : Type} (s : Stream) (message : ε → Bytes) (payload : Bytes)
    (taking : Taking ε) (hc : s.connected = true) :
    (s.write message payload taking).2.1 ≠ .notConnected := by
  rw [write, if_pos hc]
  cases taking <;> exact nofun

namespace Comes

theorem limits (h : Comes s taken received s') : s'.limits = s.limits := by
  induction h with
  | feed _ ih => exact ih
  | _ => rfl

/-- A read never connects a stream. -/
theorem disconnected (h : Comes s taken received s') (hc : s.connected = false) :
    s'.connected = false := by
  induction h with
  | broken | ended => rfl
  | message | refused | waiting | stopped => exact hc
  | feed _ ih => exact ih hc

theorem of_broken {flaw : Flaw} (h : Comes s taken (.broken flaw) s') :
    s'.connected = false ∧ s'.buffer = [] := by
  generalize hr : Received.broken flaw = received at h
  induction h with
  | broken => exact ⟨rfl, rfl⟩
  | feed _ ih => exact ih hr
  | _ => cases hr

/-- At the end of the source the read returns nothing, and the unfinished frame stays where it is. -/
theorem of_ended (h : Comes s taken received s') (he : .ended ∈ taken) :
    received = .nothing ∧ s'.connected = false ∧ decode s'.limits s'.buffer = .incomplete := by
  induction h with
  | ended hd => exact ⟨rfl, rfl, hd⟩
  | feed _ ih => exact ih (by simpa using he)
  | _ => simp at he

theorem not_ended_of_stopped (h : Comes s taken received s') (hs : .stopped ∈ taken) :
    .ended ∉ taken := by
  induction h with
  | feed _ ih => simpa using ih (by simpa using hs)
  | stopped => simp
  | _ => simp at hs

/-- A read that waits or was stopped has only moved bytes into the buffer. -/
theorem of_interrupted (h : Comes s taken received s')
    (hr : received = .waiting ∨ received = .nothing ∧ .ended ∉ taken) :
    s' = { s with buffer := s.buffer ++ content taken } := by
  induction h with
  | message | broken => simp at hr
  | ended => simp at hr
  | refused | waiting | stopped => simp [content, Supply.content]
  | feed _ ih => rw [ih (by simpa using hr)]; simp [content, Supply.content]

theorem incomplete_of_waiting (h : Comes s taken .waiting s') :
    decode s'.limits s'.buffer = .incomplete := by
  generalize hr : Received.waiting = received at h
  induction h with
  | waiting h => exact h
  | feed _ ih => exact ih hr
  | _ => cases hr

/-- Without bytes from the source an unfinished frame stays unfinished. -/
theorem of_no_content (h : Comes s taken received s') (hd : decode s.limits s.buffer = .incomplete)
    (hc : content taken = []) :
    (received = .nothing ∨ received = .waiting) ∧ s'.buffer = s.buffer := by
  induction h with
  | message h => rw [hd] at h; cases h
  | broken h => rw [hd] at h; cases h
  | refused | stopped | ended => exact ⟨.inl rfl, rfl⟩
  | waiting => exact ⟨.inr rfl, rfl⟩
  | @feed s chunk taken received s' _ ih =>
    obtain ⟨rfl, hc⟩ : chunk = [] ∧ content taken = [] := by
      simpa [content, Supply.content] using hc
    have hb := List.append_nil s.buffer
    rw [hb] at ih
    exact ih hd hc

end Comes

end Stream

/-! ### Calls under way -/

/-- A stream with the calls under way on it. -/
structure Scene where
  stream : Stream
  /-- A read waits for the source. -/
  waiting : Bool := false
  /-- The message of a write that has found the stream connected. -/
  writing : Option Bytes := none

/-- What happens on a stream. A sink may fail with any `ε`. -/
inductive Event (ε : Type) where
  | started
  | closed
  /-- A read is called, and how far it gets: what it takes from the source, and what it returns
  unless it has to wait. -/
  | read (stop : Bool) (taken : List Supply) (received : Received)
  /-- The read that waits goes on. -/
  | resumed (taken : List Supply) (received : Received)
  /-- A write is called and has found the stream connected. -/
  | entered (payload : Bytes)
  /-- A write is called and throws, as the stream is not connected. -/
  | refused (payload : Bytes)
  /-- A write has handed its frame to the sink: how it ends, and what the sink has got. -/
  | emitted (payload : Bytes) (outcome : Sent ε) (given : Bytes)

namespace Event

variable {ε : Type}

def taken : Event ε → List Supply
  | read _ taken _ => taken
  | resumed taken _ => taken
  | _ => []

def received? : Event ε → Option Received
  | read _ _ received => some received
  | resumed _ received => some received
  | _ => none

end Event

namespace Scene

open Event

variable {ε : Type}

inductive Step (s : Scene) : Event ε → Scene → Prop where
  | start : Step s started { s with stream := s.stream.connect }
  | close : Step s closed { s with stream := s.stream.disconnect }
  | read (stop source) {stream received remarks taken rest} (hw : s.waiting = false)
      (h : s.stream.read stop source = (stream, received, remarks, rest))
      (hs : source = taken ++ rest) :
      Step s (.read stop taken received) { s with stream, waiting := received = .waiting }
  | resume (source) {stream received remarks taken rest} (hw : s.waiting = true)
      (h : s.stream.resume source = (stream, received, remarks, rest))
      (hs : source = taken ++ rest) :
      Step s (resumed taken received) { s with stream, waiting := received = .waiting }
  | refuse (payload) (hw : s.writing = none) (h : s.stream.connected = false) :
      Step s (refused payload) s
  | enter (payload) (hw : s.writing = none) (h : s.stream.connected = true) :
      Step s (entered payload) { s with writing := some payload }
  | emit (message taking) {payload stream outcome remarks given} (hw : s.writing = some payload)
      (h : s.stream.emit message payload taking = (stream, outcome, remarks, given)) :
      Step s (emitted payload outcome given) { s with stream, writing := none }

/-- Any number of steps, with what happens at them. -/
inductive Steps : Scene → List (Event ε) → Scene → Prop where
  | nil {s} : Steps s [] s
  | cons {s event m trace s'} (hm : Step s event m) (h : Steps m trace s') :
      Steps s (event :: trace) s'

/-- A run of a fresh stream. -/
abbrev Run (limits : Limits) (trace : List (Event ε)) (s : Scene) : Prop :=
  Steps { stream := { limits } } trace s

variable {s s' m : Scene} {trace : List (Event ε)} {event : Event ε}

/-- A write that nothing comes between. -/
theorem steps_of_write {message : ε → Bytes} {payload : Bytes} {taking : Taking ε} {stream : Stream}
    {outcome : Sent ε} {remarks : List Stream.Remark} {given : Bytes} (hw : s.writing = none)
    (h : s.stream.write message payload taking = (stream, outcome, remarks, given)) :
    ∃ trace, Steps s trace { s with stream } ∧
      (trace = [refused payload] ∧ outcome = .notConnected ∧ given = [] ∨
        trace = [entered payload, emitted payload outcome given]) := by
  cases hc : s.stream.connected with
  | false =>
    rw [s.stream.write_of_disconnected message payload taking hc] at h
    cases h
    exact ⟨_, .cons (.refuse payload hw hc) .nil, .inl ⟨rfl, rfl, rfl⟩⟩
  | true =>
    rw [Stream.write, if_pos hc] at h
    have he := Step.emit (s := { s with writing := some payload }) message taking rfl h
    refine ⟨_, .cons (.enter payload hw hc) (.cons he ?_), .inr rfl⟩
    rw [← hw]
    exact .nil

/-! ### What a step does to the stream -/

/-- A read that waits has no whole frame in its buffer. -/
def Sound (s : Scene) : Prop :=
  s.waiting = true → decode s.stream.limits s.stream.buffer = .incomplete

/-- What the reader does is what a read comes to. -/
theorem Step.comes {received : Received} (hs : s.Sound) (h : Step s event s')
    (hr : event.received? = some received) :
    Stream.Comes s.stream event.taken received s'.stream ∧
      s'.waiting = decide (received = .waiting) ∧ s'.writing = s.writing := by
  cases h with
  | read stop source hw h ht =>
    cases hr
    obtain ⟨taken, ht', hc⟩ := Stream.comes_of_read h
    obtain rfl := List.append_cancel_right (ht.symm.trans ht')
    exact ⟨hc, rfl, rfl⟩
  | resume source hw h ht =>
    cases hr
    obtain ⟨taken, ht', hc⟩ := Stream.comes_of_resume (hs hw) h
    obtain rfl := List.append_cancel_right (ht.symm.trans ht')
    exact ⟨hc, rfl, rfl⟩
  | _ => cases hr

/-- Everything else leaves the buffer alone and takes nothing from the source. -/
theorem Step.buffer_eq (h : Step s event s') (hr : event.received? = none) :
    s'.stream.limits = s.stream.limits ∧ s'.stream.buffer = s.stream.buffer ∧
      s'.waiting = s.waiting ∧ event.taken = [] := by
  cases h with
  | read | resume => cases hr
  | start | close | refuse | enter => exact ⟨rfl, rfl, rfl, rfl⟩
  | emit message taking hw h => cases taking <;> cases h <;> exact ⟨rfl, rfl, rfl, rfl⟩

theorem Step.sound (h : Step s event s') (hs : s.Sound) : s'.Sound := by
  intro hw
  cases hr : event.received? with
  | none =>
    obtain ⟨hl, hb, hw', -⟩ := h.buffer_eq hr
    rw [hl, hb]
    exact hs (hw' ▸ hw)
  | some received =>
    obtain ⟨hc, hw', -⟩ := h.comes hs hr
    obtain rfl : received = .waiting := by simpa [hw'] using hw
    exact hc.incomplete_of_waiting

theorem Steps.sound (h : Steps s trace s') (hs : s.Sound) : s'.Sound := by
  induction h with
  | nil => exact hs
  | cons hm _ ih => exact ih (hm.sound hs)

theorem Run.sound {limits : Limits} (h : Run limits trace s) : s.Sound := Steps.sound h nofun

end Scene

end EditorSession.Frame
