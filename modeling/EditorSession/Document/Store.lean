import EditorSession.Analysis.Symbol
import EditorSession.Log
import EditorSession.Table

/-! The table of open documents and the listeners to its changes. Documents are found by their uri
in lower case. An entry outlives its place in the table, so an operation that was under way when its
document was closed or replaced can still tell. -/

namespace EditorSession.Document

open Analysis (Handle)

/-- An open editor buffer. It has a handle while the project model knows its current text. -/
structure OpenDocument where
  uri : Bytes
  languageId : Bytes
  version : Int64
  text : Bytes
  handle : Option Handle := none
deriving DecidableEq, Inhabited

structure Entry where
  document : OpenDocument
  /-- Counts the changes of the text. -/
  generation : Nat := 0
  /-- The document was closed, or replaced by a later opening. -/
  closed : Bool := false
deriving DecidableEq, Inhabited

inductive ChangeKind where
  | opened | changed | closed | saved
deriving DecidableEq, Repr

def ChangeKind.name : ChangeKind → Bytes
  | opened => ascii "Opened"
  | changed => ascii "Changed"
  | closed => ascii "Closed"
  | saved => ascii "Saved"

/-- What listeners are told. -/
structure Event where
  uri : Bytes
  version : Int64
  kind : ChangeKind
deriving DecidableEq

/-- Place of an entry among all that were ever made. -/
abbrev EntryId := Nat

/-- Listeners are numbered from one, in order of registration. -/
abbrev ListenerId := Nat

structure Listener where
  id : ListenerId
  /-- Invocations in progress. -/
  active : Nat := 0
  removed : Bool := false
deriving DecidableEq

structure Store where
  entries : List Entry := []
  /-- The open documents, by key. -/
  table : Table EntryId := []
  /-- All listeners that were ever registered. -/
  listeners : List Listener := []
deriving DecidableEq, Inhabited

/-- The key of a uri. -/
def key (uri : Bytes) : Bytes := Bytes.lower uri

namespace Store

def entry? (s : Store) (id : EntryId) : Option Entry := s.entries[id]?

/-- Applies `f` to an entry. -/
def modifyEntry (s : Store) (id : EntryId) (f : Entry → Entry) : Store :=
  { s with entries := s.entries.modify id f }

/-- The entry that a uri stands for. -/
def find? (s : Store) (uri : Bytes) : Option (EntryId × Entry) := do
  let id ← Table.get? (key uri) s.table
  let entry ← s.entry? id
  return (id, entry)

/-- The open document that a uri stands for. -/
def document? (s : Store) (uri : Bytes) : Option OpenDocument :=
  match s.find? uri with
  | some (_, entry) => if entry.closed then none else some entry.document
  | none => none

def handle? (s : Store) (uri : Bytes) : Option Handle := (s.document? uri).bind (·.handle)

/-- The uris of the open documents, as they were opened. -/
def uris (s : Store) : List Bytes :=
  s.table.filterMap fun (_, id) => (s.entry? id).map (·.document.uri)

/-! ### Listeners -/

def addListener (s : Store) : Store × ListenerId :=
  let id := s.listeners.length + 1
  ({ s with listeners := s.listeners ++ [{ id }] }, id)

/-- The listeners that an event raised now will reach. -/
def registered (s : Store) : List ListenerId :=
  (s.listeners.filter fun l => ¬l.removed).map (·.id)

def modifyListener (s : Store) (id : ListenerId) (f : Listener → Listener) : Store :=
  { s with listeners := s.listeners.map fun l => if l.id = id then f l else l }

/-- Whether a listener is registered. -/
def listens (s : Store) (id : ListenerId) : Bool :=
  s.listeners.any fun l => l.id = id ∧ ¬l.removed

/-- Invocations of a listener in progress. -/
def activeCount (s : Store) (id : ListenerId) : Nat :=
  ((s.listeners.find? fun l => l.id = id).map (·.active)).getD 0

/-- Unregisters a listener. `running` is the listener whose callback makes the request, if one does;
the flag tells whether the request has to wait for invocations that are not the requester's own. -/
def removeListener (s : Store) (id : ListenerId) (running : Option ListenerId) : Store × Bool :=
  if s.listens id then
    let own := if running = some id then 1 else 0
    (s.modifyListener id fun l => { l with removed := true }, own < s.activeCount id)
  else (s, false)

end Store

end EditorSession.Document
