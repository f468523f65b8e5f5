import EditorSession.Channel.Duplex
import EditorSession.Dispatch.Dispatcher

/-! A dispatcher at one end of a channel, and its receive loop. The loop ends on a stop request, at
the end of the stream or when a read fails; then all pending requests are stopped, and the loop has
finished when every request is answered and every notification handled. -/

namespace EditorSession.Dispatch

/-- Why a read failed. -/
inductive ReadFlaw where
  | framing (reason : Bytes)
  | failed (reason : Bytes)
deriving DecidableEq

inductive Phase where
  | notRunning
  /-- About to look for a stop request. -/
  | polling
  /-- Waiting for a message. -/
  | reading
  /-- Waiting for requests and notifications under way. -/
  | draining
  | finished
deriving DecidableEq, Repr

structure Service (H N : Type) where
  dispatcher : Dispatcher H N := {}
  channel : Channel.Duplex := {}
  session : Bytes := Channel.sessionStem
  phase : Phase := .notRunning
  stopRequested : Bool := false
  /-- What the next read fails with. -/
  readFlaw : Option ReadFlaw := none

namespace Notice

open Log

def loopStarted (session : Bytes) : Notice := .info (ascii "Receive loop started on " ++ session)

def loopFinished : Notice := .info (ascii "Receive loop finished")

def readFailed : ReadFlaw → Notice
  | .framing reason => .error (ascii "Fatal framing error, closing session: " ++ Bytes.beforeNul reason)
  | .failed reason => .error (ascii "Transport read failed, closing session: " ++ Bytes.beforeNul reason)

def endOfStream (session : Bytes) : Notice := .info (ascii "End of stream on " ++ session)

def responseLost (id : Rpc.Id) (flaw : Channel.WriteFlaw) : Notice :=
  .warn (ascii "Failed to write response for id=" ++ id.label ++ ascii ": " ++ flaw.message)

def notificationLost (method : Bytes) (flaw : Channel.WriteFlaw) : Notice :=
  .warn (ascii "Failed to send notification " ++ method ++ ascii ": " ++ flaw.message)

end Notice

namespace Service

variable {H N : Type}

/-- The end of the channel that the service uses. -/
def ownSide : Channel.Side := .right

/-- Writes a response; a failure is only logged. -/
def respond (s : Service H N) (response : Rpc.Response) : Service H N × List Log.Notice :=
  match s.channel.write ownSide response.encode with
  | .ok channel => ({ s with channel }, [])
  | .error flaw => (s, [Notice.responseLost response.id flaw])

/-- Sends a notification. The flag tells whether it was written. -/
def notify (s : Service H N) (n : Rpc.Notification) : Service H N × Bool × List Log.Notice :=
  match s.channel.write ownSide n.encode with
  | .ok channel => ({ s with channel }, true, [])
  | .error flaw => (s, false, [Notice.notificationLost n.method flaw])

def run (s : Service H N) : Service H N × List Log.Notice :=
  ({ s with phase := .polling }, [Notice.loopStarted s.session])

/-- Leaves the receive loop. -/
def drain (s : Service H N) : Service H N :=
  { s with phase := .draining, dispatcher := s.dispatcher.stopPending }

/-- Acts on a received frame. -/
def receive (s : Service H N) (frame : Bytes) : Service H N × List Log.Notice :=
  match s.dispatcher.receive (Incoming.ofFrame frame) with
  | (dispatcher, none, notices) => ({ s with dispatcher }, notices)
  | (dispatcher, some response, notices) =>
    let (s, more) := { s with dispatcher }.respond response
    (s, notices ++ more)

/-- Reads once. A message that has arrived goes before a stop request; nothing happens while there
is neither. -/
def read? (s : Service H N) : Option (Service H N × List Log.Notice) :=
  match s.readFlaw with
  | some flaw => some ({ s with readFlaw := none }.drain, [Notice.readFailed flaw])
  | none =>
    match s.channel.read ownSide with
    | (channel, .message frame) => some ({ s with channel, phase := .polling }.receive frame)
    | (_, .ended) => some (s.drain, [Notice.endOfStream s.session])
    | (_, .waiting) =>
      if s.stopRequested then some (s.drain, [Notice.endOfStream s.session]) else none

/-- The next step of the receive loop, if it can take one. -/
def next? (s : Service H N) : Option (Service H N × List Log.Notice) :=
  match s.phase with
  | .notRunning => none
  | .polling => some (if s.stopRequested then s.drain else { s with phase := .reading }, [])
  | .reading => s.read?
  | .draining =>
    if s.dispatcher.idle then some ({ s with phase := .finished }, [Notice.loopFinished]) else none
  | .finished => none

/-- The receive loop has been started and has not finished. -/
def isRunning (s : Service H N) : Bool :=
  match s.phase with
  | .notRunning => false
  | .polling => true
  | .reading => true
  | .draining => true
  | .finished => false

/-- Decides the outcome of a request. -/
def conclude (s : Service H N) (id : WorkerId) (outcome : Except Rpc.Failure Json) :
    Service H N × List Log.Notice :=
  let (dispatcher, notices) := s.dispatcher.conclude id outcome
  ({ s with dispatcher }, notices)

/-- Writes the decided response of a request, which ends its worker. -/
def deliver (s : Service H N) (id : WorkerId) : Service H N × List Log.Notice :=
  match s.dispatcher.takeResponse id with
  | (_, none) => (s, [])
  | (dispatcher, some response) => { s with dispatcher }.respond response

def takeJob (s : Service H N) : Service H N × Option (Job N) :=
  let (dispatcher, job) := s.dispatcher.takeJob
  ({ s with dispatcher }, job)

def finishJob (s : Service H N) (failure : Option Rpc.Failure) :
    Service H N × List Log.Notice :=
  let (dispatcher, notices) := s.dispatcher.finishJob failure
  ({ s with dispatcher }, notices)

end Service

end EditorSession.Dispatch
