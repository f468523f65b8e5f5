import EditorSession.Proofs.Frame.Calls

/-! Main statement: a framing error and the end of the source are final. Until the stream is started
again nothing is taken from the source, no message is returned and no write gets to the sink, and an
unfinished frame is never returned, started again or not, unless the source goes on. A read that is
stopped loses nothing. -/

namespace EditorSession.Frame

namespace Event

variable {ε : Type}

/-- A call that finds the stream at rest: a read that returns nothing and does not ask the source, a
write that is refused, a close; or the end of a write that was under way. -/
def Idle : Event ε → Prop
  | read _ taken received => taken = [] ∧ received = .nothing
  | resumed _ _ => False
  | entered _ => False
  | started => False
  | closed => True
  | refused _ => True
  | emitted _ _ _ => True

/-- A call that finds the stream disconnected: a read that does not ask the source, a write that is
refused; or the rest of a call that was under way. -/
def Offline : Event ε → Prop
  | read _ taken _ => taken = []
  | entered _ => False
  | started => False
  | _ => True

/-- A read that waits, or that returns nothing because it was stopped. -/
def Interrupted : Event ε → Prop
  | read stop taken received =>
    received = .waiting ∨ received = .nothing ∧ (stop = true ∨ .stopped ∈ taken)
  | resumed taken received => received = .waiting ∨ received = .nothing ∧ .stopped ∈ taken
  | _ => False

end Event

namespace Scene

open Event

variable {ε : Type} {s s' : Scene} {trace : List (Event ε)} {event : Event ε} {limits : Limits}

/-! ### A stream at rest -/

/-- Disconnected, with no whole frame in the buffer and no read that waits. -/
structure Rest (s : Scene) : Prop where
  connected : s.stream.connected = false
  waiting : s.waiting = false
  incomplete : decode s.stream.limits s.stream.buffer = .incomplete

/-- What happens on a stream until it is started again. -/
structure Silent (s : Scene) (trace : List (Event ε)) (s' : Scene) : Prop where
  stream : s'.stream = s.stream
  idle : ∀ event ∈ trace, event.Idle
  /-- Only a write that was under way still gives bytes to the sink. -/
  emitted : ∀ payload outcome given, .emitted payload outcome given ∈ trace → s.writing = some payload

theorem Silent.nil (s : Scene) : Silent s ([] : List (Event ε)) s := ⟨rfl, nofun, nofun⟩

theorem Silent.cons {m : Scene} (hm : Silent s [event] m)
    (hw : ∀ payload, m.writing = some payload → s.writing = some payload) (h : Silent m trace s') :
    Silent s (event :: trace) s' where
  stream := h.stream.trans hm.stream
  idle := List.forall_mem_cons.mpr ⟨hm.idle event (by simp), h.idle⟩
  emitted payload outcome given he := by
    rcases List.mem_cons.mp he with rfl | he
    · exact hm.emitted payload outcome given (by simp)
    · exact hw payload (h.emitted payload outcome given he)

theorem disconnect_of_disconnected {stream : Stream} (h : stream.connected = false) :
    stream.disconnect = stream := by
  rw [Stream.disconnect, ← h]

/-- At rest a call comes back at once. -/
theorem Rest.step (h : s.Rest) (hm : Step s event s') (hs : event ≠ started) :
    s'.Rest ∧ Silent s [event] s' ∧ ∀ payload, s'.writing = some payload → s.writing = some payload := by
  have hd := disconnect_of_disconnected h.connected
  have hsilent (stream : s'.stream = s.stream) (idle : event.Idle)
      (emitted : ∀ payload outcome given, event = .emitted payload outcome given →
        s.writing = some payload) : Silent s [event] s' :=
    ⟨stream, by simpa using idle, fun payload outcome given he =>
      emitted payload outcome given (List.mem_singleton.mp he).symm⟩
  cases hm with
  | start => exact absurd rfl hs
  | close =>
    refine ⟨⟨rfl, h.waiting, h.incomplete⟩, hsilent hd trivial nofun, fun _ hw => hw⟩
  | read stop source hw hr ht =>
    rw [Stream.read_of_disconnected h.connected h.incomplete] at hr
    cases hr
    obtain rfl := List.self_eq_append_left.mp ht
    exact ⟨⟨h.connected, rfl, h.incomplete⟩, hsilent rfl ⟨rfl, rfl⟩ nofun, fun _ hw => hw⟩
  | resume source hw => exact absurd (h.waiting.symm.trans hw) Bool.false_ne_true
  | refuse payload => exact ⟨h, hsilent rfl trivial nofun, fun _ hw => hw⟩
  | enter payload hw hc => exact absurd (h.connected.symm.trans hc) Bool.false_ne_true
  | @emit message taking payload stream outcome remarks given hw he =>
    have hstream : stream = s.stream := by
      cases taking with
      | whole => cases he; rfl
      | failed => cases he; exact hd
    subst hstream
    refine ⟨⟨h.connected, h.waiting, h.incomplete⟩, hsilent rfl trivial ?_, nofun⟩
    rintro _ _ _ ⟨⟩
    exact hw

/-- The stream stays at rest until it is started. -/
theorem Rest.steps (h : s.Rest) (ht : Steps s trace s') (hs : started ∉ trace) :
    Silent s trace s' := by
  induction ht with
  | nil => exact .nil _
  | cons hm _ ih =>
    rw [List.mem_cons, not_or] at hs
    obtain ⟨hr, hq, hw⟩ := h.step hm (Ne.symm hs.1)
    exact hq.cons hw (ih hr hs.2)

/-- A framing error brings the stream to rest, -/
theorem rest_of_broken {flaw : Flaw} (hs : s.Sound) (h : Step s event s')
    (hr : event.received? = some (.broken flaw)) : s'.Rest ∧ s'.stream.buffer = [] := by
  obtain ⟨hc, hw, -⟩ := h.comes hs hr
  obtain ⟨hd, hb⟩ := hc.of_broken
  exact ⟨⟨hd, by simpa using hw, by rw [hb, decode_nil]⟩, hb⟩

theorem Step.exists_received {supply : Supply} (h : Step s event s') (ht : supply ∈ event.taken) :
    ∃ received, event.received? = some received := by
  refine Option.ne_none_iff_exists'.mp fun hr => ?_
  rw [(h.buffer_eq hr).2.2.2] at ht
  cases ht

/-- and so does the end of the source. -/
theorem rest_of_ended (hs : s.Sound) (h : Step s event s') (he : .ended ∈ event.taken) :
    s'.Rest ∧ event.received? = some .nothing := by
  obtain ⟨received, hr⟩ := h.exists_received he
  obtain ⟨hc, hw, -⟩ := h.comes hs hr
  obtain ⟨rfl, hd, hi⟩ := hc.of_ended he
  exact ⟨⟨hd, by simpa using hw, hi⟩, hr⟩

/-! ### An unfinished frame -/

/-- A frame that is not finished stays so, and stays in the buffer, as long as the source has no more
bytes. -/
theorem Step.unfinished (hs : s.Sound) (h : Step s event s')
    (hd : decode s.stream.limits s.stream.buffer = .incomplete) (hc : content event.taken = []) :
    decode s'.stream.limits s'.stream.buffer = .incomplete ∧ s'.stream.buffer = s.stream.buffer ∧
      ∀ received, event.received? = some received → received = .nothing ∨ received = .waiting := by
  cases hr : event.received? with
  | none =>
    obtain ⟨hl, hb, -, -⟩ := h.buffer_eq hr
    exact ⟨by rw [hl, hb, hd], hb, nofun⟩
  | some received =>
    obtain ⟨hcomes, -, -⟩ := h.comes hs hr
    obtain ⟨hn, hb⟩ := hcomes.of_no_content hd hc
    refine ⟨by rw [hcomes.limits, hb, hd], hb, ?_⟩
    rintro _ ⟨⟩
    exact hn

theorem Steps.unfinished (hs : s.Sound) (h : Steps s trace s')
    (hd : decode s.stream.limits s.stream.buffer = .incomplete)
    (hc : ∀ event ∈ trace, content event.taken = []) :
    s'.stream.buffer = s.stream.buffer ∧ ∀ event ∈ trace, ∀ received,
      event.received? = some received → received = .nothing ∨ received = .waiting := by
  induction h with
  | nil => exact ⟨rfl, nofun⟩
  | cons hm _ ih =>
    obtain ⟨he, ht⟩ := List.forall_mem_cons.mp hc
    obtain ⟨hd', hb, hr⟩ := hm.unfinished hs hd he
    obtain ⟨hb', hr'⟩ := ih (hm.sound hs) hd' ht
    exact ⟨hb'.trans hb, List.forall_mem_cons.mpr ⟨hr, hr'⟩⟩

/-! ### Interruptions and disconnections -/

/-- A read that waits or was stopped leaves the connection alone, and everything it has taken is in
the buffer. -/
theorem stream_of_interrupted (hs : s.Sound) (h : Step s event s') (hi : event.Interrupted) :
    s'.stream = { s.stream with buffer := s.stream.buffer ++ content event.taken } := by
  cases event with
  | read stop taken received =>
    obtain ⟨hc, -, -⟩ := h.comes hs rfl
    refine hc.of_interrupted (hi.imp_right fun ⟨hn, hstop⟩ => ⟨hn, ?_⟩)
    rcases hstop with rfl | hstop
    · cases h with
      | read _ source _ hr ht =>
        obtain rfl := Stream.rest_of_read_stopped hr
        rw [List.self_eq_append_left.mp ht]
        exact List.not_mem_nil
    · exact hc.not_ended_of_stopped hstop
  | resumed taken received =>
    obtain ⟨hc, -, -⟩ := h.comes hs rfl
    exact hc.of_interrupted (hi.imp_right fun ⟨hn, hstop⟩ => ⟨hn, hc.not_ended_of_stopped hstop⟩)
  | _ => cases hi

theorem Step.disconnected (hs : s.Sound) (h : Step s event s') (hc : s.stream.connected = false)
    (hn : event ≠ started) : s'.stream.connected = false ∧ event.Offline := by
  cases hr : event.received? with
  | some received =>
    obtain ⟨hcomes, -, -⟩ := h.comes hs hr
    refine ⟨hcomes.disconnected hc, ?_⟩
    cases h with
    | read stop source _ h ht =>
      obtain rfl := Stream.rest_of_read_disconnected hc h
      exact List.self_eq_append_left.mp ht
    | resume => trivial
    | _ => cases hr
  | none =>
    cases h with
    | read | resume => cases hr
    | start => exact absurd rfl hn
    | close => exact ⟨rfl, trivial⟩
    | refuse => exact ⟨hc, trivial⟩
    | enter _ _ h => exact absurd (hc.symm.trans h) Bool.false_ne_true
    | emit message taking _ h =>
      cases taking with
      | whole => cases h; exact ⟨hc, trivial⟩
      | failed => cases h; exact ⟨rfl, trivial⟩

/-- A disconnected stream stays so until it is started. -/
theorem Steps.disconnected (hs : s.Sound) (h : Steps s trace s') (hc : s.stream.connected = false)
    (hn : started ∉ trace) : s'.stream.connected = false ∧ ∀ event ∈ trace, event.Offline := by
  induction h with
  | nil => exact ⟨hc, nofun⟩
  | cons hm _ ih =>
    rw [List.mem_cons, not_or] at hn
    obtain ⟨hc', he⟩ := hm.disconnected hs hc (Ne.symm hn.1)
    obtain ⟨hc'', ht⟩ := ih (hm.sound hs) hc' hn.2
    exact ⟨hc'', List.forall_mem_cons.mpr ⟨he, ht⟩⟩

/-! ### Main statement -/

/-- What ends the use of a stream, and what does not. -/
structure Final (ε : Type) (s : Scene) : Prop where
  /-- A write that no other write comes between goes on with the run: it is refused, or it finds the
  stream connected and hands its frame to the sink. -/
  write : ∀ (message : ε → Bytes) payload taking stream outcome remarks given, s.writing = none →
    s.stream.write message payload taking = (stream, outcome, remarks, given) →
    ∃ trace : List (Event ε), Steps s trace { s with stream } ∧
      (trace = [refused payload] ∧ outcome = .notConnected ∧ given = [] ∨
        trace = [entered payload, emitted payload outcome given])
  /-- It is refused exactly when the stream is disconnected, and then the sink gets nothing. -/
  offline : ∀ (message : ε → Bytes) payload taking,
    (s.stream.connected = false →
      s.stream.write message payload taking = (s.stream, .notConnected, [], [])) ∧
    (s.stream.connected = true →
      (s.stream.write message payload taking).2.1 ≠ .notConnected)
  /-- A read that throws leaves the stream disconnected and its buffer empty, and until the stream is
  started again every read returns nothing without asking the source, and every write is refused. -/
  broken : ∀ (event : Event ε) s' flaw, Step s event s' → event.received? = some (.broken flaw) →
    s'.stream.connected = false ∧ s'.stream.buffer = [] ∧
      ∀ (trace : List (Event ε)) s'', Steps s' trace s'' → started ∉ trace → Silent s' trace s''
  /-- A read that meets the end of the source returns nothing, and from then on it is the same. -/
  ended : ∀ (event : Event ε) s', Step s event s' → .ended ∈ event.taken →
    event.received? = some .nothing ∧ s'.stream.connected = false ∧
      ∀ (trace : List (Event ε)) s'', Steps s' trace s'' → started ∉ trace → Silent s' trace s''
  /-- Even when the stream is started again no read returns a part of the frame that was left over,
  or throws because of it, unless the source goes on behind its end. -/
  leftover : ∀ (event : Event ε) s' (trace : List (Event ε)) s'', Step s event s' → .ended ∈ event.taken →
    Steps s' trace s'' → (∀ later ∈ trace, content later.taken = []) →
      s''.stream.buffer = s'.stream.buffer ∧ ∀ later ∈ trace, ∀ received,
        later.received? = some received → received = .nothing ∨ received = .waiting
  /-- A read that is stopped, while it waits or beforehand, keeps the connection, and all the bytes
  it has taken. -/
  stopped : ∀ (event : Event ε) s', Step s event s' → event.Interrupted →
    s'.stream = { s.stream with buffer := s.stream.buffer ++ content event.taken }
  /-- A write that fails disconnects the stream, and then no write gets to the sink and no read asks
  the source until the stream is started again. -/
  failed : ∀ payload (flaw : ε) given s', Step s (emitted payload (.failed flaw) given) s' →
    s'.stream = s.stream.disconnect ∧ given <+: encode payload ∧
      ∀ (trace : List (Event ε)) s'', Steps s' trace s'' → started ∉ trace →
        s''.stream.connected = false ∧ ∀ event ∈ trace, event.Offline

theorem Run.final (h : Run limits trace s) : Final ε s where
  write _ _ _ _ _ _ _ hw he := steps_of_write hw he
  offline message payload taking :=
    ⟨s.stream.write_of_disconnected message payload taking,
      s.stream.write_of_connected message payload taking⟩
  broken event s' flaw hm hr := by
    obtain ⟨hrest, hb⟩ := rest_of_broken h.sound hm hr
    exact ⟨hrest.connected, hb, fun _ _ ht hs => hrest.steps ht hs⟩
  ended event s' hm he := by
    obtain ⟨hrest, hr⟩ := rest_of_ended h.sound hm he
    exact ⟨hr, hrest.connected, fun _ _ ht hs => hrest.steps ht hs⟩
  leftover event s' trace s'' hm he ht hc :=
    ht.unfinished (hm.sound h.sound) (rest_of_ended h.sound hm he).1.incomplete hc
  stopped event s' hm hi := stream_of_interrupted h.sound hm hi
  failed payload flaw given s' hm := by
    have hs := hm.sound h.sound
    cases hm with
    | emit message taking hw he =>
      cases taking with
      | whole => cases he
      | failed front flaw =>
        cases he
        exact ⟨rfl, List.take_prefix _ _, fun _ _ ht hn => ht.disconnected hs rfl hn⟩

/-- The front of a header has come, the read waits for more, and the source ends. -/
theorem Run.final_partialFrame :
    Run {} ([started, read false [.bytes (ascii "Content-")] .waiting] : List (Event Bytes))
        ⟨{ connected := true, buffer := ascii "Content-" }, true, none⟩ ∧
      Step ⟨{ connected := true, buffer := ascii "Content-" }, true, none⟩
        (resumed [.ended] .nothing : Event Bytes) ⟨{ buffer := ascii "Content-" }, false, none⟩ ∧
      ∀ (trace : List (Event Bytes)) s,
        Steps ⟨{ buffer := ascii "Content-" }, false, none⟩ trace s → started ∉ trace →
          Silent ⟨{ buffer := ascii "Content-" }, false, none⟩ trace s := by
  have hstart : Step ⟨{}, false, none⟩ (started : Event Bytes) ⟨{ connected := true }, false, none⟩ :=
    .start
  have hfront : Stream.read { connected := true } false [.bytes (ascii "Content-")] =
      ({ connected := true, buffer := ascii "Content-" }, .waiting, [], []) := by
    rw [Stream.read.eq_def]
    change Stream.read { connected := true, buffer := ascii "Content-" } false [] = _
    rw [Stream.read.eq_def]
    rfl
  have hread : Step ⟨{ connected := true }, false, none⟩
      (read false [.bytes (ascii "Content-")] .waiting : Event Bytes)
      ⟨{ connected := true, buffer := ascii "Content-" }, true, none⟩ :=
    .read false [.bytes (ascii "Content-")] rfl hfront rfl
  have hrun := Steps.cons hstart (.cons hread .nil)
  have hended : Step ⟨{ connected := true, buffer := ascii "Content-" }, true, none⟩
      (resumed [.ended] .nothing : Event Bytes) ⟨{ buffer := ascii "Content-" }, false, none⟩ :=
    .resume [.ended] rfl rfl rfl
  exact ⟨hrun, hended, ((Run.final hrun).ended _ _ hended (by simp [taken])).2.2⟩

end Scene

end EditorSession.Frame
