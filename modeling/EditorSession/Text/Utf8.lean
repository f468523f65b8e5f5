import EditorSession.Bytes

/-! UTF-8 sequences: the encoding of a code point, and the length a lead byte announces. -/

namespace EditorSession.Utf8

/-- The UTF-8 sequence of a code point. -/
def encode (code : Nat) : Bytes :=
  if code ≤ 0x7F then [UInt8.ofNat code]
  else if code ≤ 0x7FF then [UInt8.ofNat (0xC0 + code / 64), UInt8.ofNat (0x80 + code % 64)]
  else if code ≤ 0xFFFF then
    [UInt8.ofNat (0xE0 + code / 4096), UInt8.ofNat (0x80 + code / 64 % 64),
      UInt8.ofNat (0x80 + code % 64)]
  else
    [UInt8.ofNat (0xF0 + code / 262144), UInt8.ofNat (0x80 + code / 4096 % 64),
      UInt8.ofNat (0x80 + code / 64 % 64), UInt8.ofNat (0x80 + code % 64)]

/-- The code point that stands for an unpaired surrogate. -/
def replacement : Nat := 0xFFFD

/-- Bytes in the sequence that `lead` announces. Continuation bytes and bytes that cannot lead count
as sequences of one. -/
def sequenceLength (lead : UInt8) : Nat :=
  if lead &&& 0xE0 = 0xC0 then 2
  else if lead &&& 0xF0 = 0xE0 then 3
  else if lead &&& 0xF8 = 0xF0 then 4
  else 1

theorem sequenceLength_pos (lead : UInt8) : 0 < sequenceLength lead := by
  unfold sequenceLength
  repeat' split
  all_goals decide

end EditorSession.Utf8
