import EditorSession.Bytes

/-! Messages framed by a header that announces their length. Sizes are 64-bit words, and their sums
wrap around. -/

namespace EditorSession.Frame

/-- The largest content and header that are accepted, in bytes. -/
structure Limits where
  content : UInt64 := 67108864
  header : UInt64 := 8192
deriving DecidableEq

/-- What is wrong with the front of a buffer. -/
inductive Flaw where
  | headerUnterminated (limit : UInt64)
  | headerTooLarge (size : Nat) (limit : UInt64)
  | lengthNotNumeric (value : Bytes)
  | lengthMissing
  | contentTooLarge (size : Nat) (limit : UInt64)
deriving DecidableEq

/-- What kind of flaw it is. -/
def Flaw.label : Flaw → Bytes
  | headerUnterminated _ => ascii "HeaderTooLarge"
  | headerTooLarge _ _ => ascii "HeaderTooLarge"
  | lengthNotNumeric _ => ascii "InvalidHeader"
  | lengthMissing => ascii "InvalidHeader"
  | contentTooLarge _ _ => ascii "BodyTooLarge"

def Flaw.message : Flaw → Bytes
  | headerUnterminated limit =>
    ascii "Header too large (no terminator within " ++ Bytes.decimal limit.toNat ++ ascii " bytes)"
  | headerTooLarge size limit =>
    ascii "Header too large (" ++ Bytes.decimal size ++ ascii " bytes, max " ++
      Bytes.decimal limit.toNat ++ ascii ")"
  | lengthNotNumeric value => ascii "Invalid Content-Length header: '" ++ value ++ ascii "'"
  | lengthMissing => ascii "Missing Content-Length header"
  | contentTooLarge size limit =>
    ascii "Content-Length " ++ Bytes.decimal size ++ ascii " exceeds limit " ++
      Bytes.decimal limit.toNat

/-- What a reader that fails on a flaw reports: its message up to the first zero byte. -/
def Flaw.reason (flaw : Flaw) : Bytes := Bytes.beforeNul flaw.message

/-- What the front of a buffer holds. -/
inductive Decoded where
  | frame (payload : Bytes) (consumed : Nat)
  | incomplete
  | flawed (flaw : Flaw)
deriving DecidableEq

/-- The frame of a payload. -/
def encode (payload : Bytes) : Bytes :=
  ascii "Content-Length: " ++ Bytes.decimal payload.length ++ ascii "\r\n\r\n" ++ payload

/-- The empty line that ends a header. -/
def terminator : Bytes := ascii "\r\n\r\n"

/-- Where the first terminator starts, counted from `offset`. -/
def headerEnd? : Bytes → Nat → Option Nat
  | [], _ => none
  | b :: rest, offset =>
    if terminator.isPrefixOf (b :: rest) then some offset else headerEnd? rest (offset + 1)

/-- The lines of a header; `front` holds the start of the first one, last byte first. -/
def headerLines (header front : Bytes) : List Bytes :=
  match header with
  | [] => [front.reverse]
  | b :: rest =>
    if b = 13 ∧ rest.head? = some 10 then front.reverse :: headerLines (rest.drop 1) []
    else headerLines rest (b :: front)
termination_by header.length
decreasing_by
  · simp only [List.length_drop, List.length_cons]; omega
  · simp

/-- The value of a header line that gives the content length. Case and blanks around name and value
do not matter. -/
def lengthField? (line : Bytes) : Option Bytes :=
  match Bytes.splitOnce 58 line with
  | some (name, value) =>
    if Bytes.lower (Bytes.trim name) = ascii "content-length" then some (Bytes.trim value) else none
  | none => none

/-- The content length that the lines announce, given the one announced before them. Every length
field has to be well formed and within the limit; the last one counts. -/
def contentLength (limits : Limits) : List Bytes → Option UInt64 → Except Flaw UInt64
  | [], none => .error .lengthMissing
  | [], some size => .ok size
  | line :: rest, found =>
    match lengthField? line with
    | none => contentLength limits rest found
    | some value =>
      if Bytes.isNumeral value then
        let size := min (Bytes.digitsValue value) (UInt64.size - 1)
        if limits.content.toNat < size then .error (.contentTooLarge size limits.content)
        else contentLength limits rest (some (UInt64.ofNat size))
      else .error (.lengthNotNumeric value)

/-- Looks for one frame at the front of a buffer. -/
def decode (limits : Limits) (buffer : Bytes) : Decoded :=
  match headerEnd? buffer 0 with
  | none =>
    if (limits.header + 4).toNat < buffer.length then .flawed (.headerUnterminated limits.header)
    else .incomplete
  | some size =>
    if limits.header.toNat < size then .flawed (.headerTooLarge size limits.header)
    else
      match contentLength limits (headerLines (buffer.take size) []) none with
      | .error flaw => .flawed flaw
      | .ok length =>
        let total := UInt64.ofNat (size + 4) + length
        if buffer.length < total.toNat then .incomplete
        else .frame ((buffer.drop (size + 4)).take length.toNat) total.toNat

/-- Takes up to `most` frames off the front of a buffer, and tells the flaw that ended the taking, if
one did. -/
def takeAll (limits : Limits) : Nat → Bytes → List Bytes × Bytes × Option Flaw
  | 0, buffer => ([], buffer, none)
  | most + 1, buffer =>
    match decode limits buffer with
    | .incomplete => ([], buffer, none)
    | .flawed flaw => ([], buffer, some flaw)
    | .frame payload consumed =>
      let (payloads, rest, flaw) := takeAll limits most (buffer.drop consumed)
      (payload :: payloads, rest, flaw)

end EditorSession.Frame
