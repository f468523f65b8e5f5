import EditorSession.Frame.Codec
import EditorSession.Log

/-! A framed message stream over a byte source and a byte sink. Bytes are buffered until a frame is
complete; a flaw, the end of the source or a sink that fails disconnects the stream, a stop request
does not. -/

namespace EditorSession.Frame

/-- What the byte source does when it is asked for more. -/
inductive Supply where
  | bytes (chunk : Bytes)
  | ended
  | stopped
deriving DecidableEq

/-- What taking frames off a buffer logs about a flaw. -/
def Flaw.notice (flaw : Flaw) : Log.Notice := .warn (ascii "ContentLengthFramer: " ++ flaw.message)

/-- What the byte sink does with a frame. One that fails may have taken the front of it. -/
inductive Taking (ε : Type) where
  | whole
  | failed (front : Nat) (flaw : ε)
deriving DecidableEq

structure Stream where
  limits : Limits := {}
  connected : Bool := false
  buffer : Bytes := []
deriving DecidableEq

/-- How reading a message ends. -/
inductive Received where
  | message (payload : Bytes)
  | broken (flaw : Flaw)
  | nothing
  /-- The source has to say more before the reading can end. -/
  | waiting
deriving DecidableEq

/-- How writing a message ends. -/
inductive Sent (ε : Type) where
  | sent
  | notConnected
  | failed (flaw : ε)
deriving DecidableEq

namespace Stream

def connect (s : Stream) : Stream := { s with connected := true }

def disconnect (s : Stream) : Stream := { s with connected := false }

/-- What the stream logs about itself, under the name of its session. -/
inductive Remark where
  | received (size : Nat)
  | sent (size : Nat)
  | broken (flaw : Flaw)
  | partialDiscarded (size : Nat)
  | ended
  | writeFailed (reason : Bytes)
deriving DecidableEq

def Remark.notice (session : Bytes) : Remark → Log.Notice
  | received size =>
    .debug (session ++ ascii ": received frame (" ++ Bytes.decimal size ++ ascii " bytes)")
  | sent size => .debug (session ++ ascii ": sent frame (" ++ Bytes.decimal size ++ ascii " bytes)")
  | broken flaw => .error (session ++ ascii ": fatal framing error: " ++ flaw.message)
  | partialDiscarded size =>
    .info (session ++ ascii ": end of stream with " ++ Bytes.decimal size ++
      ascii " bytes of partial frame discarded")
  | ended => .debug (session ++ ascii ": end of stream")
  | writeFailed reason => .error (session ++ ascii ": write failed: " ++ reason)

/-- Disconnects at the end of the source. An unfinished frame stays unread. -/
def endOfSource (s : Stream) : Stream × List Remark :=
  ({ s with connected := false },
    [if s.buffer.isEmpty then .ended else .partialDiscarded s.buffer.length])

/-- Reads one message, given what the source will do and whether a stop was requested beforehand.
Returns what is left of the source. -/
def read (s : Stream) (stop : Bool) (source : List Supply) :
    Stream × Received × List Remark × List Supply :=
  match decode s.limits s.buffer with
  | .frame payload consumed =>
    ({ s with buffer := s.buffer.drop consumed }, .message payload, [.received payload.length],
      source)
  | .flawed flaw =>
    ({ s with connected := false, buffer := [] }, .broken flaw, [.broken flaw], source)
  | .incomplete =>
    if stop ∨ ¬s.connected then (s, .nothing, [], source)
    else
      match source with
      | [] => (s, .waiting, [], [])
      | .bytes chunk :: rest => read { s with buffer := s.buffer ++ chunk } stop rest
      | .ended :: rest =>
        let (s, remarks) := s.endOfSource
        (s, .nothing, remarks, rest)
      | .stopped :: rest => (s, .nothing, [.ended], rest)
termination_by source.length

/-- Goes on with a reading that waits for the source. -/
def resume (s : Stream) (source : List Supply) :
    Stream × Received × List Remark × List Supply :=
  match source with
  | [] => (s, .waiting, [], [])
  | .bytes chunk :: rest => read { s with buffer := s.buffer ++ chunk } false rest
  | .ended :: rest =>
    let (s, remarks) := s.endOfSource
    (s, .nothing, remarks, rest)
  | .stopped :: rest => (s, .nothing, [.ended], rest)

section Writing

variable {ε : Type} (message : ε → Bytes)

/-- Hands the frame of a message to the sink. Returns what the sink has got of it. -/
def emit (s : Stream) (payload : Bytes) (taking : Taking ε) :
    Stream × Sent ε × List Remark × Bytes :=
  match taking with
  | .whole => (s, .sent, [.sent payload.length], encode payload)
  | .failed front flaw =>
    (s.disconnect, .failed flaw, [.writeFailed (message flaw)], (encode payload).take front)

/-- Writes one message, given what the sink will do with its frame. -/
def write (s : Stream) (payload : Bytes) (taking : Taking ε) :
    Stream × Sent ε × List Remark × Bytes :=
  if s.connected then s.emit message payload taking else (s, .notConnected, [], [])

end Writing

end Stream

end EditorSession.Frame
