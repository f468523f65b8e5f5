import EditorSession.Dispatch.Incoming
import EditorSession.Log

/-! Routing of received messages. Every request gets one response: at once when it cannot be
accepted or no worker can be started for it, else when its worker is done. The outcome of an
accepted request is decided at the moment that its entry leaves the table of pending requests; a
cancellation counts only before that. -/

namespace EditorSession.Dispatch

/-- Workers are numbered in the order their requests were accepted. -/
abbrev WorkerId := Nat

/-- An accepted request whose response has not been written. -/
structure Worker (H : Type) where
  id : WorkerId
  request : Rpc.Request
  handler : H
  /-- A stop was requested. -/
  stopped : Bool := false
  /-- The response, once the outcome is decided. -/
  response : Option Rpc.Response := none

/-- The response to a request: a stop request outweighs what the handler did. -/
def Worker.responseTo {H : Type} (w : Worker H) (outcome : Except Rpc.Failure Json) : Rpc.Response :=
  if w.stopped then .ofError w.request.id Rpc.Failure.cancelled.toError
  else
    match outcome with
    | .ok result => .ofResult w.request.id result
    | .error failure => .ofError w.request.id failure.toError

/-- A notification with the handler it found on arrival. -/
structure Job (N : Type) where
  handler : N
  notification : Rpc.Notification

structure Dispatcher (H N : Type) where
  requestHandlers : Table H := []
  notificationHandlers : Table N := []
  /-- The undecided requests, by the key of their id. -/
  pending : Table WorkerId := []
  workers : List (Worker H) := []
  /-- The notification being handled. -/
  current : Option (Job N) := none
  /-- Notifications not yet handled, in order of arrival. -/
  jobs : List (Job N) := []
  /-- Requests accepted so far. -/
  accepted : Nat := 0
  /-- What the start of the next worker fails with. -/
  workerFlaw : Option Bytes := none

namespace Notice

open Log

def malformed (size : Nat) (e : Json.ParseError) : Notice :=
  .warn (ascii "Skipping malformed frame (" ++ Bytes.decimal size ++ ascii " bytes): " ++ e.message)

def notObject : Notice := .warn (ascii "Skipping frame that is not a JSON object")

def unrecognized : Notice := .warn (ascii "Skipping unrecognized JSON-RPC message")

def response (id : Option Json) : Notice :=
  .debug (ascii "Ignoring response message for id=" ++
    match id with
    | some v => v.render
    | none => ascii "<none>")

def invalidRequest (id : Rpc.Id) : Notice := .warn (ascii "Invalid request (id=" ++ id.label ++ ascii ")")

def methodNotFound (method : Bytes) : Notice := .debug (ascii "Method not found: " ++ method)

def duplicateId (id : Rpc.Id) : Notice :=
  .warn (ascii "Duplicate request id " ++ id.label ++ ascii " while still pending")

def dispatching (r : Rpc.Request) : Notice :=
  .debug (ascii "Dispatching request id=" ++ r.id.label ++ ascii " method=" ++ r.method)

def startFailed (reason : Bytes) : Notice :=
  .error (ascii "Failed to start request worker: " ++ Bytes.beforeNul reason)

def rejected (r : Rpc.Request) (reason : Bytes) : Notice :=
  .debug (ascii "Request " ++ r.method ++ ascii " id=" ++ r.id.label ++ ascii " rejected: " ++ reason)

def failed (r : Rpc.Request) (reason : Bytes) : Notice :=
  .error (ascii "Request " ++ r.method ++ ascii " id=" ++ r.id.label ++ ascii " failed: " ++ reason)

def cancelWithoutId : Notice := .warn (ascii "$/cancelRequest without a usable id")

def cancelNotPending (id : Rpc.Id) : Notice :=
  .debug (ascii "$/cancelRequest for id=" ++ id.label ++ ascii " which is not pending")

def cancelling (id : Rpc.Id) : Notice := .debug (ascii "Cancelling request id=" ++ id.label)

def namelessNotification : Notice := .warn (ascii "Skipping notification with a non-string method")

def noHandler (method : Bytes) : Notice := .debug (ascii "No handler for notification " ++ method)

def notificationRejected (method reason : Bytes) : Notice :=
  .warn (ascii "Notification " ++ method ++ ascii " rejected: " ++ reason)

def notificationFailed (method reason : Bytes) : Notice :=
  .error (ascii "Notification " ++ method ++ ascii " handler failed: " ++ reason)

end Notice

/-- The dispatcher after a message, the response written at once, and what was logged. -/
abbrev Receipt (H N : Type) := Dispatcher H N × Option Rpc.Response × List Log.Notice

namespace Dispatcher

variable {H N : Type}

/-- Registers the handler of a request method, in place of any other. -/
def onRequest (d : Dispatcher H N) (method : Bytes) (handler : H) : Dispatcher H N :=
  { d with requestHandlers := Table.set method handler d.requestHandlers }

def onNotification (d : Dispatcher H N) (method : Bytes) (handler : N) : Dispatcher H N :=
  { d with notificationHandlers := Table.set method handler d.notificationHandlers }

def worker? (d : Dispatcher H N) (id : WorkerId) : Option (Worker H) :=
  d.workers.find? fun w => w.id = id

def pendingCount (d : Dispatcher H N) : Nat := d.pending.length

/-- Neither a request nor a notification is left. -/
def idle (d : Dispatcher H N) : Bool :=
  d.workers.isEmpty && d.current.isNone && d.jobs.isEmpty

/-- A response that needs no worker. -/
def refuse (d : Dispatcher H N) (id : Rpc.Id) (code : Int32) (message : Bytes) (n : Log.Notice) :
    Receipt H N :=
  (d, some (.ofError id ⟨code, message, none⟩), [n])

/-- Enters a request in the table, with a worker for it. -/
def enter (d : Dispatcher H N) (r : Rpc.Request) (handler : H) : Dispatcher H N :=
  { d with
      pending := Table.set r.id.key d.accepted d.pending
      workers := d.workers ++ [{ id := d.accepted, request := r, handler }]
      accepted := d.accepted + 1 }

/-- Takes a request out again whose worker could not be started. Its number is free again. -/
def withdraw (d : Dispatcher H N) (r : Rpc.Request) (id : WorkerId) : Dispatcher H N :=
  { d with
      pending := Table.erase r.id.key d.pending
      workers := d.workers.filter fun w => w.id ≠ id
      accepted := id
      workerFlaw := none }

/-- Accepts a request if its method is known, no other request with its id is pending and a worker
can be started for it. -/
def receiveRequest (d : Dispatcher H N) (r : Rpc.Request) : Receipt H N :=
  match Table.get? r.method d.requestHandlers with
  | none =>
    d.refuse r.id Rpc.Code.methodNotFound (ascii "Method not found: " ++ r.method)
      (Notice.methodNotFound r.method)
  | some handler =>
    if Table.contains r.id.key d.pending then
      d.refuse r.id Rpc.Code.invalidRequest (ascii "Duplicate request id") (Notice.duplicateId r.id)
    else
      match d.workerFlaw with
      | none => (d.enter r handler, none, [Notice.dispatching r])
      | some reason =>
        ((d.enter r handler).withdraw r d.accepted,
          some (.ofError r.id ⟨Rpc.Code.internalError, Bytes.beforeNul reason, none⟩),
          [Notice.dispatching r, Notice.startFailed reason])

/-- Asks the worker of a pending request to stop. -/
def cancel (d : Dispatcher H N) (id : Rpc.Id) : Receipt H N :=
  match Table.get? id.key d.pending with
  | none => (d, none, [Notice.cancelNotPending id])
  | some worker =>
    ({ d with workers := d.workers.map fun w =>
        if w.id = worker then { w with stopped := true } else w },
      none, [Notice.cancelling id])

/-- Queues a notification that has a handler. -/
def receiveNotification (d : Dispatcher H N) (n : Rpc.Notification) : Receipt H N :=
  match Table.get? n.method d.notificationHandlers with
  | none => (d, none, [Notice.noHandler n.method])
  | some handler => ({ d with jobs := d.jobs ++ [⟨handler, n⟩] }, none, [])

/-- Acts on a received message. -/
def receive (d : Dispatcher H N) : Incoming → Receipt H N
  | .malformed size e => (d, none, [Notice.malformed size e])
  | .notObject => (d, none, [Notice.notObject])
  | .unrecognized => (d, none, [Notice.unrecognized])
  | .response id => (d, none, [Notice.response id])
  | .invalidRequest id =>
    d.refuse id Rpc.Code.invalidRequest (ascii "Invalid request") (Notice.invalidRequest id)
  | .request r => d.receiveRequest r
  | .namelessNotification => (d, none, [Notice.namelessNotification])
  | .cancel none => (d, none, [Notice.cancelWithoutId])
  | .cancel (some id) => d.cancel id
  | .notification n => d.receiveNotification n

/-- What a failure of a request logs. -/
def failureNotices (r : Rpc.Request) (failure : Rpc.Failure) : List Log.Notice :=
  match failure with
  | .cancelled => []
  | .refused _ => [Notice.rejected r failure.message]
  | .crashed _ => [Notice.failed r failure.message]

/-- Decides the outcome of a request when its handler is done. -/
def conclude (d : Dispatcher H N) (id : WorkerId) (outcome : Except Rpc.Failure Json) :
    Dispatcher H N × List Log.Notice :=
  match d.worker? id with
  | none => (d, [])
  | some worker =>
    let response := worker.responseTo outcome
    let notices := match outcome with
      | .ok _ => []
      | .error failure => failureNotices worker.request failure
    ({ d with
        pending := Table.erase worker.request.id.key d.pending
        workers := d.workers.map fun w =>
          if w.id = id then { w with response := some response } else w },
      notices)

/-- Takes a decided response out, to be written. -/
def takeResponse (d : Dispatcher H N) (id : WorkerId) : Dispatcher H N × Option Rpc.Response :=
  match (d.worker? id).bind (·.response) with
  | none => (d, none)
  | some response => ({ d with workers := d.workers.filter fun w => w.id ≠ id }, some response)

/-- Starts the oldest notification, if none is being handled. -/
def takeJob (d : Dispatcher H N) : Dispatcher H N × Option (Job N) :=
  match d.current, d.jobs with
  | none, job :: rest => ({ d with current := some job, jobs := rest }, some job)
  | _, _ => (d, none)

/-- Ends the notification being handled. A failure is only logged. -/
def finishJob (d : Dispatcher H N) (failure : Option Rpc.Failure) :
    Dispatcher H N × List Log.Notice :=
  match d.current with
  | none => (d, [])
  | some job =>
    ({ d with current := none },
      failure.toList.map fun failure =>
        match failure with
        | .refused _ => Notice.notificationRejected job.notification.method failure.message
        | .cancelled => Notice.notificationFailed job.notification.method failure.message
        | .crashed _ => Notice.notificationFailed job.notification.method failure.message)

/-- Asks the workers of all pending requests to stop. -/
def stopPending (d : Dispatcher H N) : Dispatcher H N :=
  { d with workers := d.workers.map fun w =>
      if d.pending.any fun entry => entry.2 = w.id then { w with stopped := true } else w }

end Dispatcher

end EditorSession.Dispatch
