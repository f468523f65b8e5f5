import EditorSession.Document.Store
import EditorSession.Text.Edit

/-! Operations on open documents. An operation that needs the project model or a listener is
suspended, and resumes with the answer; anything may happen to the store in between. A handle is
stored only if the text is still the one that it was asked for. -/

namespace EditorSession.Document

open Analysis (Handle)

/-- What an editor, or the project model, does to the documents. -/
inductive Operation where
  | openDocument (uri languageId : Bytes) (version : Int64) (text : Bytes)
  | changeDocument (uri : Bytes) (version : Int64) (changes : List Lsp.Change)
  | closeDocument (uri : Bytes)
  | saveDocument (uri : Bytes) (text : Option Bytes)
  /-- Resolves every open document that has no handle, those of `first` before the others. -/
  | reassociateFirst (first : List EntryId)
deriving DecidableEq

/-- Resolves the documents in the order in which they were first opened. -/
def Operation.reassociate : Operation := .reassociateFirst []

/-- The result of an operation. -/
inductive Outcome where
  | opened
  | handled (accepted : Bool)
  | reassociated (count : Nat)
deriving DecidableEq, Repr

/-- What remains of an operation once its listeners were told. -/
inductive Aftermath where
  | finish (outcome : Outcome)
  | reassociate (rest : List EntryId) (count : Nat)
deriving DecidableEq

/-- What remains of an operation once a handle was looked up. -/
inductive Errand where
  | opening (uri : Bytes) (version : Int64) (size : Nat)
  | raising (event : Event)
  | reassociating (rest : List EntryId) (count : Nat)
deriving DecidableEq

/-- How far a lookup has come. -/
inductive Phase where
  | resolving
  /-- The handle that resolving gave stands in when the update gives none. -/
  | updating (resolved : Option Handle)
deriving DecidableEq

/-- One attempt at a handle, with the state of the document that it was started for. -/
structure Lookup where
  entry : EntryId
  /-- The project model is asked whether it knows the document before it is given the text. -/
  resolves : Bool
  attemptsLeft : Nat
  uri : Bytes
  text : Bytes
  generation : Nat
  phase : Phase
  errand : Errand
deriving DecidableEq

/-- A listener being told of an event, and those to be told after it. -/
structure Delivery where
  event : Event
  listener : ListenerId
  waiting : List ListenerId
  aftermath : Aftermath
deriving DecidableEq

/-- An operation that waits for an answer. -/
inductive Suspended where
  | lookup (l : Lookup)
  | delivery (d : Delivery)
deriving DecidableEq

inductive Status where
  | done (outcome : Outcome)
  | suspended (s : Suspended)
deriving DecidableEq

/-- What the project model is asked. -/
inductive ModelCall where
  | resolve (uri : Bytes)
  | update (uri text : Bytes)
deriving DecidableEq

def Lookup.call (l : Lookup) : ModelCall :=
  match l.phase with
  | .resolving => .resolve l.uri
  | .updating _ => .update l.uri l.text

/-- What the project model answers: a handle or none, or the reason of a failure. -/
abbrev ModelAnswer := Except Bytes (Option Handle)

/-- The store after a step, how the operation stands, and what was logged. -/
abbrev Step := Store × Status × List Log.Notice

/-- Attempts at a handle per refresh. -/
def maxAttempts : Nat := 3

namespace Notice

open Log

def replaced (uri : Bytes) : Notice :=
  .warn (ascii "didOpen for " ++ uri ++ ascii " which is already open; replacing the document")

def opened (uri : Bytes) (version : Int64) (size : Nat) (resolved : Bool) : Notice :=
  .debug (ascii "Opened " ++ uri ++ ascii " v" ++ Bytes.decimalInt version.toInt ++ ascii " (" ++
    Bytes.decimal size ++ ascii " bytes, handle " ++
    (if resolved then ascii "resolved" else ascii "pending") ++ ascii ")")

def changeNotOpen (uri : Bytes) : Notice :=
  .warn (ascii "Ignoring didChange for " ++ uri ++ ascii " which is not open")

def changeClosed (uri : Bytes) : Notice :=
  .warn (ascii "Ignoring didChange for " ++ uri ++ ascii " which was closed")

def changeStale (uri : Bytes) (version stored : Int64) : Notice :=
  .warn (ascii "Rejecting didChange for " ++ uri ++ ascii ": version " ++
    Bytes.decimalInt version.toInt ++ ascii " is not newer than " ++ Bytes.decimalInt stored.toInt)

def closeNotOpen (uri : Bytes) : Notice :=
  .warn (ascii "Ignoring didClose for " ++ uri ++ ascii " which is not open")

def closed (uri : Bytes) : Notice := .debug (ascii "Closed " ++ uri)

def saveNotOpen (uri : Bytes) : Notice :=
  .warn (ascii "Ignoring didSave for " ++ uri ++ ascii " which is not open")

def modelFailed (uri reason : Bytes) : Notice :=
  .warn (ascii "Project model failed to resolve " ++ uri ++ ascii ": " ++ Bytes.beforeNul reason)

def unknownToModel (uri : Bytes) : Notice :=
  .debug (uri ++ ascii " is no longer part of a loaded project")

def handleStale (uri : Bytes) : Notice :=
  .debug (ascii "Handle for " ++ uri ++ ascii " went stale before it was stored, retrying")

def reassociated (uri : Bytes) : Notice := .debug (ascii "Reassociated " ++ uri)

def listenerFailed (uri reason : Bytes) : Notice :=
  .error (ascii "Document listener failed for " ++ uri ++ ascii ": " ++ Bytes.beforeNul reason)

/-- Logged when a change of the project model has been worked off. -/
def modelChanged (count : Nat) : Notice :=
  .info (ascii "Project model changed; " ++ Bytes.decimal count ++
    ascii " open document(s) reassociated")

end Notice

/-- Gives an entry a new text, which drops its handle. -/
def Entry.withText (entry : Entry) (text : Bytes) : Entry :=
  if text = entry.document.text then entry
  else
    { entry with
      document := { entry.document with text, handle := none }
      generation := entry.generation + 1 }

namespace Store

/-- Starts an attempt at a handle, unless the document is closed or has one. -/
def attempt? (s : Store) (id : EntryId) (resolves : Bool) (attempts : Nat) (errand : Errand) :
    Option Lookup :=
  match s.entry? id, attempts with
  | some entry, attempts + 1 =>
    if entry.closed ∨ entry.document.handle.isSome then none
    else some
      { entry := id, resolves, attemptsLeft := attempts
        uri := entry.document.uri, text := entry.document.text, generation := entry.generation
        phase := if resolves then .resolving else .updating none
        errand }
  | _, _ => none

/-- Goes on with a reassociation at the next document that needs a handle. -/
def reassociate (s : Store) : List EntryId → Nat → Step
  | [], count => (s, .done (.reassociated count), [])
  | id :: rest, count =>
    match s.attempt? id true maxAttempts (.reassociating rest count) with
    | some lookup => (s, .suspended (.lookup lookup), [])
    | none => s.reassociate rest count

def conclude (s : Store) : Aftermath → Step
  | .finish outcome => (s, .done outcome, [])
  | .reassociate rest count => s.reassociate rest count

/-- Tells an event to the listeners in order, skipping those removed since it was raised. -/
def notify (s : Store) (event : Event) (aftermath : Aftermath) : List ListenerId → Step
  | [] => s.conclude aftermath
  | id :: rest =>
    if s.listens id then
      (s.modifyListener id fun l => { l with active := l.active + 1 },
        .suspended (.delivery ⟨event, id, rest, aftermath⟩), [])
    else s.notify event aftermath rest

/-- Raises an event for the listeners registered now. -/
def raise (s : Store) (event : Event) (aftermath : Aftermath) : Step :=
  s.notify event aftermath s.registered

/-- Puts notices in front of those of a step. -/
def saying (notices : List Log.Notice) (step : Step) : Step :=
  (step.1, step.2.1, notices ++ step.2.2)

/-- Goes on after a lookup, which has `stored` a handle or not. -/
def afterLookup (s : Store) (id : EntryId) (stored : Bool) : Errand → Step
  | .opening uri version size =>
    saying [Notice.opened uri version size stored]
      (s.raise ⟨uri, version, .opened⟩ (.finish .opened))
  | .raising event => s.raise event (.finish (.handled true))
  | .reassociating rest count =>
    match stored, s.entry? id with
    | true, some entry =>
      saying [Notice.reassociated entry.document.uri]
        (s.raise ⟨entry.document.uri, entry.document.version, .opened⟩
          (.reassociate rest (count + 1)))
    | _, _ => s.reassociate rest count

/-- Looks up a handle for an entry, or goes on without. -/
def refresh (s : Store) (id : EntryId) (resolves : Bool) (attempts : Nat) (errand : Errand) : Step :=
  match s.attempt? id resolves attempts errand with
  | some lookup => (s, .suspended (.lookup lookup), [])
  | none => s.afterLookup id false errand

/-- Stores a handle if the document is open, has none, and still has the text it was asked for; a
changed text means another attempt. -/
def storeHandle (s : Store) (l : Lookup) (handle : Handle) : Step :=
  match s.entry? l.entry with
  | none => s.afterLookup l.entry false l.errand
  | some entry =>
    if entry.closed ∨ entry.document.handle.isSome then s.afterLookup l.entry false l.errand
    else if entry.generation = l.generation then
      (s.modifyEntry l.entry fun e =>
        { e with document := { e.document with handle := some handle } }).afterLookup
        l.entry true l.errand
    else
      saying [Notice.handleStale l.uri] (s.refresh l.entry l.resolves l.attemptsLeft l.errand)

/-- Resumes a lookup with the answer of the project model. -/
def resumeLookup (s : Store) (l : Lookup) (answer : ModelAnswer) : Step :=
  match answer with
  | .error reason =>
    saying [Notice.modelFailed l.uri reason] (s.afterLookup l.entry false l.errand)
  | .ok handle =>
    match l.phase, handle with
    | .resolving, none => s.afterLookup l.entry false l.errand
    | .resolving, some h =>
      (s, .suspended (.lookup { l with phase := .updating (some h) }), [])
    | .updating resolved, handle =>
      match handle.or resolved with
      | none => saying [Notice.unknownToModel l.uri] (s.afterLookup l.entry false l.errand)
      | some h => s.storeHandle l h

/-- Resumes a delivery when the listener has returned or failed. -/
def resumeDelivery (s : Store) (d : Delivery) (failure : Option Bytes) : Step :=
  saying (failure.toList.map (Notice.listenerFailed d.event.uri))
    ((s.modifyListener d.listener fun l => { l with active := l.active - 1 }).notify
      d.event d.aftermath d.waiting)

/-- Stores the changed entry and goes on to raise `event`. A document that lost its handle gets a
new one first. -/
def update (s : Store) (id : EntryId) (before after : Entry) (event : Event) : Step :=
  let s := s.modifyEntry id fun _ => after
  if before.document.handle.isSome ∧ after.document.handle.isNone then
    s.refresh id false maxAttempts (.raising event)
  else s.raise event (.finish (.handled true))

def startOpen (s : Store) (uri languageId : Bytes) (version : Int64) (text : Bytes) : Step :=
  let id := s.entries.length
  let replaced := Table.get? (key uri) s.table
  let marked := match replaced with
    | some old => s.modifyEntry old fun e => { e with closed := true }
    | none => s
  let s : Store :=
    { marked with
      entries := marked.entries ++ [{ document := { uri, languageId, version, text } }]
      table := Table.set (key uri) id marked.table }
  saying (if replaced.isSome then [Notice.replaced uri] else [])
    (s.refresh id true maxAttempts (.opening uri version text.length))

def startChange (s : Store) (uri : Bytes) (version : Int64) (changes : List Lsp.Change) : Step :=
  match s.find? uri with
  | none => (s, .done (.handled false), [Notice.changeNotOpen uri])
  | some (id, entry) =>
    if entry.closed then (s, .done (.handled false), [Notice.changeClosed uri])
    else if version ≤ entry.document.version then
      (s, .done (.handled false), [Notice.changeStale uri version entry.document.version])
    else
      let changed := entry.withText (Text.applyChanges entry.document.text changes)
      let after := { changed with document := { changed.document with version } }
      s.update id entry after ⟨entry.document.uri, version, .changed⟩

def startSave (s : Store) (uri : Bytes) (text : Option Bytes) : Step :=
  match s.find? uri with
  | none => (s, .done (.handled false), [Notice.saveNotOpen uri])
  | some (id, entry) =>
    if entry.closed then (s, .done (.handled false), [])
    else
      s.update id entry (entry.withText (text.getD entry.document.text))
        ⟨entry.document.uri, entry.document.version, .saved⟩

def startClose (s : Store) (uri : Bytes) : Step :=
  match s.find? uri with
  | none => (s, .done (.handled false), [Notice.closeNotOpen uri])
  | some (id, entry) =>
    let s := { s.modifyEntry id (fun e => { e with closed := true }) with
      table := Table.erase (key uri) s.table }
    saying [Notice.closed entry.document.uri]
      (s.raise ⟨entry.document.uri, entry.document.version, .closed⟩ (.finish (.handled true)))

/-- The entries in the order in which a reassociation comes to them: `first` goes in front, the others
keep their order. -/
def arrange : List EntryId → List EntryId → List EntryId
  | [], ids => ids
  | id :: first, ids => if id ∈ ids then id :: arrange first (ids.erase id) else arrange first ids

/-- Starts an operation and takes it as far as it goes without an answer from elsewhere. -/
def start (s : Store) : Operation → Step
  | .openDocument uri languageId version text => s.startOpen uri languageId version text
  | .changeDocument uri version changes => s.startChange uri version changes
  | .closeDocument uri => s.startClose uri
  | .saveDocument uri text => s.startSave uri text
  | .reassociateFirst first => s.reassociate (arrange first (s.table.map (·.2))) 0

end Store

end EditorSession.Document
