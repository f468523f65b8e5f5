import EditorSession.Table

/-! Small texts that settings are written in: unsigned sizes, and lists of options. -/

namespace EditorSession.Settings

/-- An unsigned decimal below `2 ^ 64`, with any number of leading zeros. -/
def size? (text : Bytes) : Option UInt64 :=
  if Bytes.isNumeral text ∧ Bytes.digitsValue text < UInt64.size then
    some (UInt64.ofNat (Bytes.digitsValue text))
  else none

/-- What separates options: semicolons, spaces and tabs. -/
def isSeparator (b : UInt8) : Bool := b == 59 || b == 32 || b == 9

/-- The runs of bytes between separators; `front` holds the start of the first one, last byte
first. -/
def tokens : Bytes → Bytes → List Bytes
  | [], [] => []
  | [], b :: front => [(b :: front).reverse]
  | b :: rest, front =>
    if isSeparator b then
      match front with
      | [] => tokens rest []
      | c :: front => (c :: front).reverse :: tokens rest []
    else tokens rest (b :: front)

/-- A token with a non-empty key before its first equals sign. -/
def option? (token : Bytes) : Option (Bytes × Bytes) :=
  match Bytes.splitOnce 61 token with
  | some ([], _) => none
  | split => split

/-- The options of a configuration text. Tokens that are no options are ignored; of repeated keys
the last one wins. -/
def options (text : Bytes) : Table Bytes := Table.ofPairs ((tokens text []).filterMap option?)

end EditorSession.Settings
