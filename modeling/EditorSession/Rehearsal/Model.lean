import EditorSession.Document.Operation

/-! A project model that follows a script. It knows some uris, keeps the last text of each, and
counts the texts that it was given. -/

namespace EditorSession.Rehearsal

open Document (ModelCall ModelAnswer)

/-- What a scripted model does with a call about a uri that it knows. -/
inductive Manner where
  | answers | declines | fails
deriving DecidableEq, Repr

/-- The meaning of a word in a script; words not listed mean `default`. -/
def meaning {α : Type} (words : List (String × α)) (default : α) (word : Bytes) : α :=
  ((words.find? fun entry => ascii entry.1 = word).map (·.2)).getD default

def Manner.ofWord : Bytes → Manner := meaning [("none", declines), ("throw", fails)] answers

structure Model where
  known : List Bytes := []
  texts : Table Bytes := []
  /-- Texts stored so far, by uri. -/
  snapshots : Table Nat := []
  resolving : Manner := .answers
  updating : Manner := .answers
  /-- Opening a workspace reports a change. -/
  announces : Bool := false
  /-- The roots of the workspace opened last. -/
  roots : List Bytes := []

/-- How a call is recorded. -/
def callRecord : ModelCall → Bytes
  | .resolve uri => ascii "resolve " ++ uri
  | .update uri text => ascii "update " ++ uri ++ 32 :: text

namespace Model

def learn (m : Model) (uris : List Bytes) : Model := { m with known := m.known ++ uris }

def forget (m : Model) (uris : List Bytes) : Model :=
  { m with known := m.known.filter fun uri => uri ∉ uris }

def snapshot (m : Model) (uri : Bytes) : Nat := (Table.get? uri m.snapshots).getD 0

/-- The text stored for a uri, empty if there is none. -/
def text (m : Model) (uri : Bytes) : Bytes := (Table.get? uri m.texts).getD []

/-- Answers a call. A text is stored only when the update succeeds. -/
def answer (m : Model) : ModelCall → Model × ModelAnswer
  | .resolve uri =>
    match m.resolving with
    | .fails => (m, .error (ascii "resolve failed"))
    | .declines => (m, .ok none)
    | .answers => (m, .ok (if uri ∈ m.known then some ⟨uri, m.snapshot uri⟩ else none))
  | .update uri text =>
    match m.updating with
    | .fails => (m, .error (ascii "update failed"))
    | .declines => (m, .ok none)
    | .answers =>
      if uri ∈ m.known then
        let count := m.snapshot uri + 1
        ({ m with
            texts := Table.set uri text m.texts
            snapshots := Table.set uri count m.snapshots },
          .ok (some ⟨uri, count⟩))
      else (m, .ok none)

/-- How the opening of a workspace is recorded. -/
def openRecord (roots : List Bytes) : Bytes := ascii "workspace " ++ Bytes.decimal roots.length

end Model

end EditorSession.Rehearsal
