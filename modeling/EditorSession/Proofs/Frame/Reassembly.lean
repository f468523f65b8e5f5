import EditorSession.Channel.Descriptor
import EditorSession.Proofs.Frame.Decoding

/-! Frames do not depend on how their bytes arrive. Between two calls a stream has in its buffer and
still to come what the whole stream has after the frames read so far; so it returns the frames of
the whole stream, whatever the pieces are and wherever the reading is interrupted and taken up
again. -/

namespace EditorSession.Frame

/-- A source that supplies a stream of bytes in some pieces, with interruptions, and then ends. -/
inductive Supplies : List Supply → Bytes → Prop where
  | ended : Supplies [.ended] []
  | bytes {source stream} (chunk) (h : Supplies source stream) :
      Supplies (.bytes chunk :: source) (chunk ++ stream)
  | stopped {source stream} (h : Supplies source stream) : Supplies (.stopped :: source) stream

/-- How reading comes to an end; the wording of a flaw is left aside. -/
inductive Conclusion where
  | ended
  | broken (label : Bytes)
deriving DecidableEq

/-- What a row of calls has returned, and the stream they leave. -/
structure Transcript where
  payloads : List Bytes
  conclusion : Option Conclusion
  stream : Stream
deriving DecidableEq

/-- Reads one message after the other. The list tells of each call whether it finds a stop requested;
a call that was interrupted is followed by the next one, and an end is final. -/
def Stream.readAll (s : Stream) : List Bool → List Supply → Transcript
  | [], _ => ⟨[], none, s⟩
  | stop :: calls, source =>
    match s.read stop source with
    | (s, .message payload, _, rest) =>
      let t := s.readAll calls rest
      { t with payloads := payload :: t.payloads }
    | (s, .broken flaw, _, _) => ⟨[], some (.broken flaw.label), s⟩
    | (s, .waiting, _, _) => ⟨[], none, s⟩
    | (s, .nothing, _, rest) =>
      if s.connected then s.readAll calls rest else ⟨[], some .ended, s⟩

/-- The frames at the front of a buffer, how they end, and what is left. -/
inductive Yields (limits : Limits) : Bytes → List Bytes → Conclusion → Bytes → Prop where
  | frame {buffer payload consumed payloads conclusion rest}
      (h : decode limits buffer = .frame payload consumed)
      (hs : Yields limits (buffer.drop consumed) payloads conclusion rest) :
      Yields limits buffer (payload :: payloads) conclusion rest
  | ended {buffer} (h : decode limits buffer = .incomplete) : Yields limits buffer [] .ended buffer
  | broken {buffer flaw} (h : decode limits buffer = .flawed flaw) :
      Yields limits buffer [] (.broken flaw.label) []

variable {limits : Limits}

theorem exists_yields (hl : limits.Bounded) (buffer : Bytes) :
    ∃ payloads conclusion rest, Yields limits buffer payloads conclusion rest := by
  induction hn : buffer.length using Nat.strongRecOn generalizing buffer with
  | ind n ih =>
    cases hd : decode limits buffer with
    | incomplete => exact ⟨[], .ended, buffer, .ended hd⟩
    | flawed flaw => exact ⟨[], .broken flaw.label, [], .broken hd⟩
    | frame payload consumed =>
      have hb := frame_bounds hl hd
      obtain ⟨payloads, conclusion, rest, hy⟩ :=
        ih (buffer.drop consumed).length (by rw [List.length_drop]; omega) _ rfl
      exact ⟨payload :: payloads, conclusion, rest, .frame hd hy⟩

/-! ### One call -/

/-- What a call makes of a stream that has `stream` still to come from its source. -/
inductive Call (s : Stream) (stop : Bool) (source : List Supply) (stream : Bytes) :
    Stream × Received × List Stream.Remark × List Supply → Prop where
  | message {payload consumed buffer source' stream' remarks}
      (hd : decode s.limits (s.buffer ++ stream) = .frame payload consumed)
      (hs : Supplies source' stream') (hb : buffer ++ stream' = (s.buffer ++ stream).drop consumed)
      (hc : source'.count .stopped ≤ source.count .stopped) :
      Call s stop source stream ({ s with buffer }, .message payload, remarks, source')
  | broken {flaw remarks source'}
      (hd : (decode s.limits (s.buffer ++ stream)).verdict = .flawed flaw.label) :
      Call s stop source stream
        ({ s with connected := false, buffer := [] }, .broken flaw, remarks, source')
  | interrupted {buffer source' stream' remarks}
      (hs : Supplies source' stream') (hb : buffer ++ stream' = s.buffer ++ stream)
      (hc : source'.count .stopped + (if stop then 0 else 1) ≤ source.count .stopped) :
      Call s stop source stream ({ s with buffer }, .nothing, remarks, source')
  | ended {remarks source'} (hd : decode s.limits (s.buffer ++ stream) = .incomplete) :
      Call s stop source stream
        ({ s with connected := false, buffer := s.buffer ++ stream }, .nothing, remarks, source')

/-- A call first looks at the buffer, which may settle it. -/
theorem call_of_decode {s : Stream} (hl : s.limits.Bounded) (stop : Bool) {source : List Supply}
    {stream : Bytes} (hs : Supplies source stream)
    (hd : decode s.limits s.buffer ≠ .incomplete) :
    Call s stop source stream (s.read stop source) := by
  have hv := decode_stable hl hd stream
  rw [Stream.read.eq_def]
  cases he : decode s.limits s.buffer with
  | incomplete => exact absurd he hd
  | flawed flaw =>
    rw [he] at hv
    exact .broken hv
  | frame payload consumed =>
    have hb := frame_bounds hl he
    have hw : decode s.limits (s.buffer ++ stream) = .frame payload consumed := by
      rw [he] at hv
      cases hw : decode s.limits (s.buffer ++ stream) <;> simp_all [Decoded.verdict]
    refine .message hw hs ?_ (Nat.le_refl _)
    rw [List.drop_append_of_le_length hb.2]

/-- A call that has to wait for more is at the mercy of the source. -/
theorem read_of_incomplete {s : Stream} (hc : s.connected = true) (stop : Bool)
    (source : List Supply) (hd : decode s.limits s.buffer = .incomplete) :
    s.read stop source =
      if stop then (s, .nothing, [], source)
      else
        match source with
        | [] => (s, .waiting, [], [])
        | .bytes chunk :: rest => { s with buffer := s.buffer ++ chunk }.read false rest
        | .ended :: rest => (s.endOfSource.1, .nothing, s.endOfSource.2, rest)
        | .stopped :: rest => (s, .nothing, [.ended], rest) := by
  rw [Stream.read.eq_def, hd]
  cases stop with
  | true => simp
  | false =>
    cases source with
    | nil => simp [hc]
    | cons supply rest => cases supply <;> simp [hc]

/-- A chunk moves from the source to the buffer; together they are what they were. -/
theorem Call.feed {s : Stream} {source : List Supply} {stream chunk : Bytes}
    {r : Stream × Received × List Stream.Remark × List Supply}
    (h : Call { s with buffer := s.buffer ++ chunk } false source stream r) :
    Call s false (.bytes chunk :: source) (chunk ++ stream) r := by
  have hn : (Supply.bytes chunk :: source).count .stopped = source.count .stopped := by simp
  cases h with
  | message hd hs hb hc =>
    rw [List.append_assoc] at hd hb
    exact .message hd hs hb (hn ▸ hc)
  | broken hd =>
    rw [List.append_assoc] at hd
    exact .broken hd
  | interrupted hs hb hc =>
    rw [List.append_assoc] at hb
    exact .interrupted hs hb (hn ▸ hc)
  | ended hd =>
    rw [List.append_assoc] at hd ⊢
    exact .ended hd

theorem read_call {s : Stream} (hl : s.limits.Bounded) (hc : s.connected = true) (stop : Bool)
    {source : List Supply} {stream : Bytes} (hs : Supplies source stream) :
    Call s stop source stream (s.read stop source) := by
  induction hs generalizing s with
  | ended =>
    by_cases hd : decode s.limits s.buffer = .incomplete
    · rw [read_of_incomplete hc stop _ hd]
      cases stop with
      | true => exact .interrupted .ended rfl (by simp)
      | false =>
        have h := @Call.ended s false [.ended] [] s.endOfSource.2 [] (by simpa using hd)
        rwa [List.append_nil] at h
    · exact call_of_decode hl stop .ended hd
  | @bytes source stream chunk hs ih =>
    by_cases hd : decode s.limits s.buffer = .incomplete
    · rw [read_of_incomplete hc stop _ hd]
      cases stop with
      | true => exact .interrupted (.bytes chunk hs) rfl (by simp)
      | false => exact (@ih { s with buffer := s.buffer ++ chunk } hl hc).feed
    · exact call_of_decode hl stop (.bytes chunk hs) hd
  | @stopped source stream hs ih =>
    by_cases hd : decode s.limits s.buffer = .incomplete
    · rw [read_of_incomplete hc stop _ hd]
      cases stop with
      | true => exact .interrupted (.stopped hs) rfl (by simp)
      | false => exact .interrupted hs rfl (by simp)
    · exact call_of_decode hl stop (.stopped hs) hd

/-! ### All calls -/

/-- Calls that find no stop requested get on: each returns a message, uses up an interruption or
ends the reading. So enough of them read the whole stream. -/
theorem readAll_of_yields {s : Stream} (hl : s.limits.Bounded) (hc : s.connected = true)
    {source : List Supply} {stream : Bytes} (hs : Supplies source stream)
    {payloads : List Bytes} {conclusion : Conclusion} {rest : Bytes}
    (hy : Yields s.limits (s.buffer ++ stream) payloads conclusion rest) {calls : List Bool}
    (hn : payloads.length + source.count .stopped < calls.count false) :
    s.readAll calls source =
      ⟨payloads, some conclusion, { limits := s.limits, connected := false, buffer := rest }⟩ := by
  induction calls generalizing s source stream payloads with
  | nil => simp at hn
  | cons stop calls ih =>
    have hr := read_call hl hc stop hs
    have hcount : calls.count false + (if stop then 0 else 1) = (stop :: calls).count false := by
      cases stop <;> simp
    have hone : (if stop then 0 else 1) ≤ 1 := by cases stop <;> simp
    rw [Stream.readAll]
    generalize s.read stop source = r at hr
    cases hr with
    | @message payload consumed buffer source' stream' remarks hd hs' hb hle =>
      cases hy with
      | ended h => rw [hd] at h; cases h
      | broken h => rw [hd] at h; cases h
      | @frame _ _ _ payloads _ _ h hy =>
        obtain ⟨rfl, rfl⟩ := Decoded.frame.inj (hd.symm.trans h)
        rw [← hb] at hy
        rw [List.length_cons] at hn
        simp only [@ih { s with buffer } hl hc source' stream' hs' payloads hy (by omega)]
    | @broken flaw remarks source' hd =>
      cases hy with
      | frame h => rw [h] at hd; cases hd
      | ended h => rw [h] at hd; cases hd
      | broken h =>
        rw [h, Decoded.verdict, Verdict.flawed.injEq] at hd
        rw [hd]
    | @interrupted buffer source' stream' remarks hs' hb hle =>
      rw [← hb] at hy
      dsimp only
      rw [if_pos hc, @ih { s with buffer } hl hc source' stream' hs' payloads hy (by omega)]
    | ended hd =>
      cases hy with
      | frame h => rw [hd] at h; cases h
      | broken h => rw [hd] at h; cases h
      | ended => rfl

/-- The frames of encoded payloads are these payloads. -/
theorem yields_encode (hl : limits.Bounded) (hh : 36 ≤ limits.header.toNat) {rest : Bytes}
    (hr : decode limits rest = .incomplete) {payloads : List Bytes}
    (hp : ∀ payload ∈ payloads, payload.length ≤ limits.content.toNat) :
    Yields limits (payloads.flatMap encode ++ rest) payloads .ended rest := by
  induction payloads with
  | nil => exact .ended hr
  | cons payload payloads ih =>
    have hc := hp payload List.mem_cons_self
    have hlt := limits.content.toNat_lt
    have hlen := @length_lengthLine_le payload (by omega)
    have hd := decode_encode hl (by omega) hc (payloads.flatMap encode ++ rest)
    rw [List.flatMap_cons, List.append_assoc]
    refine .frame hd ?_
    rw [List.drop_left]
    exact ih fun p hm => hp p (List.mem_cons_of_mem _ hm)

/-! ### Reassembly -/

/-- A connected stream that has read nothing yet. -/
def Stream.fresh (limits : Limits) : Stream := { limits, connected := true }

/-- The account of the frames read under given limits. -/
structure Reassembles (limits : Limits) : Prop where
  /-- However a stream arrives and wherever its reading is interrupted, enough calls return what they
  return when it arrives in one piece. -/
  independent : ∀ source stream, Supplies source stream →
    ∃ t : Transcript, t.conclusion.isSome = true ∧
      (∀ calls : List Bool, t.payloads.length < calls.count false →
        (Stream.fresh limits).readAll calls [.bytes stream, .ended] = t) ∧
      ∀ calls : List Bool, t.payloads.length + source.count .stopped < calls.count false →
        (Stream.fresh limits).readAll calls source = t
  /-- Encoded payloads are read back in order, and an unfinished frame stays in the buffer. -/
  encoded : limits.header = ({} : Limits).header → ∀ payloads rest,
    (∀ payload ∈ payloads, payload.length ≤ limits.content.toNat) →
    decode limits rest = .incomplete → ∀ source, Supplies source (payloads.flatMap encode ++ rest) →
    ∀ calls : List Bool, payloads.length + source.count .stopped < calls.count false →
      (Stream.fresh limits).readAll calls source =
        ⟨payloads, some .ended, { limits, connected := false, buffer := rest }⟩
  /-- More bytes do not change a verdict. -/
  stable : ∀ buffer more, decode limits buffer ≠ .incomplete →
    (decode limits (buffer ++ more)).verdict = (decode limits buffer).verdict

/-- Frames are reassembled however their bytes arrive. -/
theorem Limits.Bounded.reassembles (h : limits.Bounded) : Reassembles limits where
  independent := by
    intro source stream hs
    obtain ⟨payloads, conclusion, rest, hy⟩ := exists_yields h stream
    refine ⟨⟨payloads, some conclusion, { limits, connected := false, buffer := rest }⟩, rfl, ?_, ?_⟩
    · intro calls hn
      have hw : Supplies [.bytes stream, .ended] (stream ++ []) := .bytes stream .ended
      rw [List.append_nil] at hw
      exact readAll_of_yields (s := .fresh limits) h rfl hw hy (by simpa using hn)
    · intro calls hn
      exact readAll_of_yields (s := .fresh limits) h rfl hs hy hn
  encoded := by
    intro hh payloads rest hp hr source hs calls hn
    have hy := yields_encode h (by rw [hh]; decide) hr hp
    exact readAll_of_yields (s := .fresh limits) h rfl hs hy hn
  stable := fun _ more hd => decode_stable h hd more

theorem Limits.Bounded.reassembles_default : ({} : Limits).Bounded ∧ Reassembles {} :=
  ⟨by decide, Limits.Bounded.reassembles (by decide)⟩

end EditorSession.Frame

namespace EditorSession.Channel.Descriptor

open EditorSession.Frame (Supplies)

theorem chunks_supplies {fuel : Nat} {arrived : Bytes} (h : arrived.length ≤ fuel) :
    Supplies (chunks fuel arrived ++ [.ended]) arrived := by
  induction fuel generalizing arrived with
  | zero =>
    obtain rfl := List.eq_nil_of_length_eq_zero (Nat.le_zero.mp h)
    exact .ended
  | succ fuel ih =>
    cases arrived with
    | nil => exact .ended
    | cons b rest =>
      have hs := @ih ((b :: rest).drop chunkSize) (by
        rw [List.length_cons] at h
        rw [List.length_drop, List.length_cons, chunkSize]
        omega)
      have hs := Supplies.bytes ((b :: rest).take chunkSize) hs
      rwa [List.take_append_drop] at hs

/-- What a descriptor supplies is what has arrived, in the pieces of its reads. -/
theorem supplies_arrived {d : Descriptor} (hc : d.closed = false) (he : d.ended = true) :
    Supplies d.supplies d.arrived := by
  rw [supplies, if_neg (by simp [hc]), if_pos he]
  exact chunks_supplies (Nat.le_refl _)

end EditorSession.Channel.Descriptor
