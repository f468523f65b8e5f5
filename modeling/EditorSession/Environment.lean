import EditorSession.Bytes

/-! Environment variables. A variable is kept as its name, an equals sign and its value, and found by
what its entry begins with, so a name that is looked up may itself hold an equals sign. Names and
values end at their first zero byte, and a variable that is set to the empty string counts as
unset. -/

namespace EditorSession

/-- The variables of a process. -/
structure Environment where
  entries : List Bytes := []
deriving DecidableEq, Inhabited

namespace Environment

/-- The value that an entry gives to a name. -/
def valueIn? (name entry : Bytes) : Option Bytes :=
  if (name ++ [61]).isPrefixOf entry then some (entry.drop (name.length + 1)) else none

/-- The value of the first entry for a name, the empty one included. -/
def lookup? (env : Environment) (name : Bytes) : Option Bytes :=
  env.entries.findSome? (valueIn? name)

/-- Sets a variable in place of an earlier one. A name that is empty or holds an equals sign cannot
be set. -/
def set (env : Environment) (name value : Bytes) : Environment :=
  let name := Bytes.beforeNul name
  let entry := name ++ 61 :: Bytes.beforeNul value
  if name.isEmpty ∨ 61 ∈ name then env
  else ⟨env.entries.filter (fun other => (valueIn? name other).isNone) ++ [entry]⟩

/-- An environment with the given variables; of repeated names the last one wins. -/
def ofPairs (pairs : List (Bytes × Bytes)) : Environment :=
  pairs.foldl (fun env (name, value) => env.set name value) {}

/-- The non-empty value of a variable. -/
def get? (env : Environment) (name : Bytes) : Option Bytes :=
  let name := Bytes.beforeNul name
  if name.isEmpty then none else (env.lookup? name).filter (· ≠ [])

def getD (env : Environment) (name : Bytes) (default : Bytes) : Bytes := (env.get? name).getD default

def trueWords : List String := ["1", "true", "TRUE", "on", "yes"]

def falseWords : List String := ["0", "false", "FALSE", "off", "no"]

/-- A switch. Words that name neither position leave it at its default. -/
def flag (env : Environment) (name : Bytes) (default : Bool) : Bool :=
  let word := env.getD name []
  if trueWords.any fun w => ascii w = word then true
  else if falseWords.any fun w => ascii w = word then false
  else default

end Environment

end EditorSession
