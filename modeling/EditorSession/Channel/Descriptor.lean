import EditorSession.Frame.Stream
import EditorSession.Settings.Words

/-! A framed stream over a pair of file descriptors: bytes arrive on one, frames are written to the
other. Reads take at most 4096 bytes at a time. -/

namespace EditorSession.Channel

/-- The start of every session name of this kind. -/
def descriptorStem : Bytes := ascii "stdio-"

/-- How the system refuses a write. -/
structure SystemFlaw where
  number : Nat
  text : String
deriving DecidableEq

def SystemFlaw.message (flaw : SystemFlaw) : Bytes :=
  ascii "StdioTransport: write error (errno=" ++ Bytes.decimal flaw.number ++ ascii " msg=" ++
    ascii flaw.text ++ ascii ")"

/-- The peer has stopped reading. -/
def brokenPipe : SystemFlaw := ⟨32, "Broken pipe"⟩

/-- The descriptor was given back before. -/
def badDescriptor : SystemFlaw := ⟨9, "Bad file descriptor"⟩

/-- Why a frame could not be written. -/
inductive DescriptorFlaw where
  | notConnected
  | system (flaw : SystemFlaw)
deriving DecidableEq

def DescriptorFlaw.message : DescriptorFlaw → Bytes
  | notConnected => ascii "Transport not connected"
  | system flaw => flaw.message

structure Descriptor where
  session : Bytes := descriptorStem
  stream : Frame.Stream := {}
  /-- Bytes that have arrived and were not read yet. -/
  arrived : Bytes := []
  /-- The peer sends no more. -/
  ended : Bool := false
  /-- Everything written so far. -/
  written : Bytes := []
  /-- The peer reads no more. -/
  hungUp : Bool := false
  closed : Bool := false
  /-- Closing gives back the output descriptor. -/
  ownsDescriptors : Bool := false
  inputNumber : Nat := 0
  outputNumber : Nat := 1

/-- How a read that finds too few bytes comes to its end. -/
inductive Ending where
  | stop
  | close

namespace Descriptor

def connected (d : Descriptor) : Bool := d.stream.connected

def start (d : Descriptor) : Descriptor × List Log.Notice :=
  ({ d with stream := d.stream.connect },
    [.info (ascii "Starting StdioTransport (in fd=" ++ Bytes.decimal d.inputNumber ++
      ascii " out fd=" ++ Bytes.decimal d.outputNumber ++ ascii ")")])

/-- Closing takes effect once. -/
def close (d : Descriptor) : Descriptor × List Log.Notice :=
  if d.closed then (d, [])
  else
    ({ d with closed := true, stream := d.stream.disconnect },
      [.info (ascii "Closing StdioTransport")])

def feed (d : Descriptor) (chunk : Bytes) : Descriptor := { d with arrived := d.arrived ++ chunk }

/-- How many bytes one read takes at most. -/
def chunkSize : Nat := 4096

/-- Cuts the bytes that have arrived into reads; `fuel` bounds their number. -/
def chunks : Nat → Bytes → List Frame.Supply
  | 0, _ => []
  | _ + 1, [] => []
  | fuel + 1, b :: rest =>
    .bytes ((b :: rest).take chunkSize) :: chunks fuel ((b :: rest).drop chunkSize)

/-- What the descriptor will supply from now on. -/
def supplies (d : Descriptor) : List Frame.Supply :=
  if d.closed then [.ended]
  else chunks d.arrived.length d.arrived ++ (if d.ended then [.ended] else [])

/-- The bytes of supplies that were not taken. -/
def unread (supplies : List Frame.Supply) : Bytes :=
  supplies.flatMap fun supply =>
    match supply with
    | .bytes chunk => chunk
    | .ended => []
    | .stopped => []

/-- Reads one message, given how a read that would wait comes to its end. -/
def readFrom (d : Descriptor) (stop : Bool) (extra : List Frame.Supply) :
    Descriptor × Frame.Received × List Log.Notice :=
  let (stream, received, remarks, rest) := d.stream.read stop (d.supplies ++ extra)
  let endNotices :=
    if d.ended ∧ ¬d.closed ∧ d.stream.connected ∧ ¬stream.connected ∧ received = .nothing then
      [Log.Notice.info (ascii "StdioTransport: EOF on input")]
    else []
  ({ d with stream, arrived := if d.closed then d.arrived else unread rest }, received,
    endNotices ++ remarks.map (Frame.Stream.Remark.notice d.session))

/-- Reads one message that is there already, or finds that there is none. -/
def read (d : Descriptor) (stop : Bool) : Descriptor × Frame.Received × List Log.Notice :=
  d.readFrom stop []

/-- Reads one message; a read that would wait is ended as told. -/
def readUntil (d : Descriptor) (ending : Ending) :
    Descriptor × Frame.Received × List Log.Notice :=
  match ending with
  | .stop => d.readFrom false [.stopped]
  | .close =>
    let (read, received, notices) := d.readFrom false []
    let (closed, closing) := read.close
    if received = .waiting then
      let (stream, received, remarks, _) := closed.stream.resume closed.supplies
      ({ closed with stream }, received,
        notices ++ closing ++ remarks.map (Frame.Stream.Remark.notice d.session))
    else (closed, received, notices ++ closing)

/-- What the output descriptor does with a frame. -/
def taking (d : Descriptor) : Frame.Taking SystemFlaw :=
  if d.closed ∧ d.ownsDescriptors then .failed 0 badDescriptor
  else if d.hungUp then .failed 0 brokenPipe
  else .whole

/-- Writes one frame. A failed write disconnects. -/
def write (d : Descriptor) (payload : Bytes) :
    Descriptor × Except DescriptorFlaw Unit × List Log.Notice :=
  let (stream, outcome, remarks, frame) := d.stream.write SystemFlaw.message payload d.taking
  ({ d with stream, written := d.written ++ frame },
    match outcome with
    | .sent => .ok ()
    | .notConnected => .error .notConnected
    | .failed flaw => .error (.system flaw),
    remarks.map (Frame.Stream.Remark.notice d.session))

/-- A transport over the standard descriptors, from a configuration text. -/
def ofConfiguration (configuration : Bytes) : Descriptor × List Log.Notice :=
  match Table.get? (ascii "max_content_length") (Settings.options configuration) with
  | none => ({}, [])
  | some value =>
    match Settings.size? value with
    | some size => ({ stream := { limits := { content := size } } }, [])
    | none =>
      ({}, [.warn (ascii "StdioTransportFactory: ignoring malformed max_content_length '" ++ value ++
        ascii "'")])

end Descriptor

end EditorSession.Channel
