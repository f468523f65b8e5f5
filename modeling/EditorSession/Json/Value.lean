import EditorSession.Table
import EditorSession.Number.Binary64

/-! JSON values. Integers are signed 64-bit words, every other number is a double; a text is any byte
string; the members of an object have distinct keys and are kept in order of first insertion. -/

namespace EditorSession

inductive Json where
  | null
  | bool (b : Bool)
  | int (n : Int64)
  | real (x : Binary64)
  | text (s : Bytes)
  | array (items : List Json)
  | object (members : List (Bytes × Json))
deriving Inhabited

namespace Json

/-- The shape of a value. -/
inductive Kind where
  | null | bool | int | real | text | array | object
deriving DecidableEq, Repr

def kind : Json → Kind
  | null => .null
  | bool _ => .bool
  | int _ => .int
  | real _ => .real
  | text _ => .text
  | array _ => .array
  | object _ => .object

def isObject (v : Json) : Bool := v.kind == .object

/-- An object from literal keys; of repeated keys the last one wins. -/
def record (members : List (String × Json)) : Json :=
  object (Table.ofPairs (members.map fun (k, v) => (ascii k, v)))

/-- The member of an object under `key`; nothing for any other value. -/
def member? (v : Json) (key : Bytes) : Option Json :=
  match v with
  | object members => Table.get? key members
  | _ => none

def textMember? (v : Json) (key : Bytes) : Option Bytes :=
  match v.member? key with
  | some (text s) => some s
  | _ => none

/-- An integer member; a double that is a whole number in range counts as one. -/
def intMember? (v : Json) (key : Bytes) : Option Int64 :=
  match v.member? key with
  | some (int n) => some n
  | some (real x) => x.toInt64?
  | _ => none

def boolMember? (v : Json) (key : Bytes) : Option Bool :=
  match v.member? key with
  | some (bool b) => some b
  | _ => none

/-- An object member that is itself an object. -/
def objectMember? (v : Json) (key : Bytes) : Option Json :=
  match v.member? key with
  | some (object members) => some (object members)
  | _ => none

/-- Sorts the members of every object by key. Only the order of members changes. -/
def sorted : Json → Json
  | array items => array (sortedItems items)
  | object members => object ((sortedMembers members).mergeSort fun a b => Bytes.le a.1 b.1)
  | v => v
where
  sortedItems : List Json → List Json
    | [] => []
    | v :: rest => v.sorted :: sortedItems rest
  sortedMembers : List (Bytes × Json) → List (Bytes × Json)
    | [] => []
    | (k, v) :: rest => (k, v.sorted) :: sortedMembers rest

end Json

end EditorSession
