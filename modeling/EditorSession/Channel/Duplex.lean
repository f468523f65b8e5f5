import EditorSession.Log

/-! Two ends joined by a message queue in each direction. Closing either end closes both queues for
writing, for good; what was written before can still be read. The parts of a call that other calls
can come between stand on their own. -/

namespace EditorSession.Channel

/-- One direction. -/
structure Mailbox where
  messages : List Bytes := []
  closed : Bool := false
deriving DecidableEq, Inhabited

inductive Side where
  | left | right
deriving DecidableEq, Repr

def Side.other : Side → Side
  | left => right
  | right => left

/-- Why a message could not be written. -/
inductive WriteFlaw where
  | notConnected
  | peerClosed
deriving DecidableEq, Repr

def WriteFlaw.message : WriteFlaw → Bytes
  | notConnected => ascii "InMemoryTransport: not connected"
  | peerClosed => ascii "InMemoryTransport: peer closed"

/-- What one end sees of its own queue. -/
inductive Received where
  | message (payload : Bytes)
  | ended
  | waiting
deriving DecidableEq

structure Duplex where
  connected : Side → Bool := fun _ => false
  /-- The queue that the given side reads from. -/
  inbox : Side → Mailbox := fun _ => {}

namespace Duplex

/-- Replaces the value at one side. -/
def atSide {α : Type} (side : Side) (value : α) (f : Side → α) : Side → α :=
  fun s => if s = side then value else f s

/-- Replaces the queue that a side reads from. -/
def setInbox (d : Duplex) (side : Side) (box : Mailbox) : Duplex :=
  { d with inbox := atSide side box d.inbox }

def start (d : Duplex) (side : Side) : Duplex :=
  { d with connected := atSide side true d.connected }

def disconnect (d : Duplex) (side : Side) : Duplex :=
  { d with connected := atSide side false d.connected }

/-- Closes the queue that a side reads from. The messages in it stay. -/
def shut (d : Duplex) (side : Side) : Duplex :=
  d.setInbox side { d.inbox side with closed := true }

/-- Closes both queues, when an end is given up. -/
def closeQueues (d : Duplex) : Duplex := (d.shut .left).shut .right

/-- Disconnects a side and closes both queues, its own first. -/
def close (d : Duplex) (side : Side) : Duplex :=
  ((d.disconnect side).shut side).shut side.other

/-- Appends a message to the queue of the other side, unless that is closed. -/
def put (d : Duplex) (side : Side) (payload : Bytes) : Except WriteFlaw Duplex :=
  let target := d.inbox side.other
  if target.closed then .error .peerClosed
  else .ok (d.setInbox side.other { target with messages := target.messages ++ [payload] })

/-- Writes a message for the other side. -/
def write (d : Duplex) (side : Side) (payload : Bytes) : Except WriteFlaw Duplex :=
  if d.connected side then d.put side payload else .error .notConnected

/-- Takes the oldest message; an empty queue has ended once it is closed or its reader is not
connected. -/
def read (d : Duplex) (side : Side) : Duplex × Received :=
  let own := d.inbox side
  match own.messages with
  | payload :: rest =>
    (d.setInbox side { own with messages := rest }, .message payload)
  | [] => (d, if own.closed ∨ ¬d.connected side then .ended else .waiting)

end Duplex

/-- The start of every session name of this kind. -/
def sessionStem : Bytes := ascii "memory-"

def startNotice (session : Bytes) : Log.Notice :=
  .debug (ascii "Starting InMemoryTransport " ++ session)

def closeNotice (session : Bytes) : Log.Notice :=
  .debug (ascii "Closing InMemoryTransport " ++ session)

/-- An end without a peer: nothing can be written to it and nothing arrives. -/
structure Solo where
  connected : Bool := false
deriving DecidableEq

namespace Solo

def start (_ : Solo) : Solo := ⟨true⟩

def close (_ : Solo) : Solo := ⟨false⟩

def write (_ : Solo) (_ : Bytes) : Except WriteFlaw Solo := .error .notConnected

end Solo

end EditorSession.Channel
