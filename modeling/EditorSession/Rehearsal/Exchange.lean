import EditorSession.Dispatch.Service
import EditorSession.Rehearsal.Engine
import EditorSession.Rehearsal.Trace

/-! A dispatcher rehearsed with scripted handlers and a client at the other end of the channel. -/

namespace EditorSession.Rehearsal

open Dispatch (Service WorkerId ReadFlaw)

/-- What a scripted request handler does. -/
inductive RequestPart where
  /-- Gives the params back. -/
  | echo
  | fail
  | refuse
  | cancel
  /-- Counts the pending requests. -/
  | pending
  /-- Sends a notification. -/
  | notify
  /-- Goes the way of an engine call at the gate that the params name. -/
  | call (conduct : Conduct)
deriving DecidableEq, Repr

def RequestPart.ofWord (word : Bytes) : RequestPart :=
  meaning
    [("echo", echo), ("fail", fail), ("protocol", refuse), ("cancelled", cancel),
      ("pending", pending), ("notify", notify), ("gate", call .gate), ("gateThrow", call .gateThrow),
      ("gateReturn", call .gateReturn), ("stubborn", call .stubborn)]
    (call .answers) word

/-- What a scripted notification handler does after it has recorded the call. -/
inductive NotificationPart where
  | accept | fail | refuse
  /-- Sends a notification. -/
  | notify
deriving DecidableEq, Repr

def NotificationPart.ofWord : Bytes → NotificationPart :=
  meaning [("fail", fail), ("protocol", refuse), ("notify", notify)] accept

/-- A line of the client's script. -/
inductive Cue where
  | onRequest (method : Bytes) (part : RequestPart)
  | onNotification (method : Bytes) (part : NotificationPart)
  | run
  | send (text : Bytes)
  /-- The params are JSON text. -/
  | notify (method : Bytes) (params : Option Bytes)
  | release (key : Bytes)
  | stop
  | closeClient
  | closeServer
  | breakRead (flaw : ReadFlaw)

structure Exchange where
  service : Service RequestPart NotificationPart
  calls : List Call := []
  /-- Notifications handled since the last cue. -/
  handled : List Rpc.Notification := []
  notices : List Log.Notice := []

/-- The client's end of the channel. -/
def clientSide : Channel.Side := .left

/-- Takes all messages out that have arrived at the client's end. -/
def collect (channel : Channel.Duplex) : Channel.Duplex × List Bytes :=
  let own := channel.inbox clientSide
  ({ channel with inbox := Channel.Duplex.atSide clientSide { own with messages := [] } channel.inbox },
    own.messages)

namespace Exchange

/-- Both ends are connected. -/
def start (session : Bytes) : Exchange :=
  { service :=
      { channel := (({} : Channel.Duplex).start clientSide).start Service.ownSide, session }
    notices := [Channel.startNotice session, Channel.startNotice session] }

def say (x : Exchange) (notices : List Log.Notice) : Exchange :=
  { x with notices := x.notices ++ notices }

/-- Takes in a step of the service. -/
def served (x : Exchange)
    (step : Service RequestPart NotificationPart × List Log.Notice) : Exchange :=
  { x with service := step.1 }.say step.2

/-- The notification that handlers send. -/
def noteMethod : Bytes := ascii "server/note"

def sendNote (x : Exchange) (params : Option Json) : Exchange × Bool :=
  let (service, sent, notices) := x.service.notify ⟨noteMethod, params⟩
  ({ x with service }.say notices, sent)

/-- The gate that the params of a request name. -/
def gateKey (params : Option Json) : Bytes :=
  (params.bind fun v => v.textMember? (ascii "key")).getD []

/-- The result of a request that has passed its gate. -/
def gateResult (key : Bytes) : Json := .text (ascii "finished " ++ key)

/-- The code that the params of a request ask to be refused with. -/
def refusalCode (params : Option Json) : Int32 :=
  match params.bind fun v => v.intMember? (ascii "code") with
  | some code => code.toInt32
  | none => Rpc.Code.invalidParams

def conclude (x : Exchange) (id : WorkerId) (outcome : Except Rpc.Failure Json) : Exchange :=
  x.served (x.service.conclude id outcome)

/-- Starts the handler of a request. -/
def serve (x : Exchange) (worker : Dispatch.Worker RequestPart) : Exchange :=
  let params := worker.request.params
  match worker.handler with
  | .echo => x.conclude worker.id (.ok (params.getD (.text (ascii "no params"))))
  | .fail =>
    x.conclude worker.id (.error (.crashed
      ((params.bind fun v => v.textMember? (ascii "message")).getD (ascii "boom"))))
  | .refuse =>
    x.conclude worker.id (.error (.refused ⟨refusalCode params, ascii "refused"⟩))
  | .cancel => x.conclude worker.id (.error .cancelled)
  | .pending =>
    x.conclude worker.id (.ok (.int (Int64.ofNat x.service.dispatcher.pendingCount)))
  | .notify =>
    let (x, sent) := x.sendNote params
    x.conclude worker.id (.ok (.bool sent))
  | .call conduct =>
    { x with calls := x.calls ++ [⟨.request worker.id, gateKey params, conduct, false⟩] }

/-- A request has passed its gate. -/
def finishCall (x : Exchange) (call : Call) (outcome : Analysis.Outcome Unit) : Exchange :=
  let x := { x with calls := Call.drop call.caller x.calls }
  match call.caller with
  | .request id => x.conclude id (outcome.map fun () => gateResult call.key)
  | .computation _ => x

/-- Handles a notification. -/
def handle (x : Exchange) (job : Dispatch.Job NotificationPart) : Exchange :=
  let x := { x with handled := x.handled ++ [job.notification] }
  match job.handler with
  | .accept => x.served (x.service.finishJob none)
  | .fail => x.served (x.service.finishJob (some (.crashed (ascii "note failed"))))
  | .refuse =>
    x.served (x.service.finishJob (some (.refused ⟨Rpc.Code.invalidParams, ascii "note refused"⟩)))
  | .notify =>
    let x := (x.sendNote job.notification.params).1
    x.served (x.service.finishJob none)

/-- Whether a worker was asked to stop. -/
def stopped (x : Exchange) : Caller → Bool
  | .request id => ((x.service.dispatcher.worker? id).map (·.stopped)).getD false
  | .computation _ => false

/-- The oldest request whose handler has not started. -/
def unserved? (x : Exchange) : Option (Dispatch.Worker RequestPart) :=
  x.service.dispatcher.workers.find? fun w =>
    w.response.isNone ∧ ¬x.calls.any fun c => c.caller = .request w.id

/-- The oldest request whose response is to be written. -/
def decided? (x : Exchange) : Option (Dispatch.Worker RequestPart) :=
  x.service.dispatcher.workers.find? fun w => w.response.isSome

/-- The next move of the service, its workers and its notifications. -/
def move? (x : Exchange) : Option Exchange :=
  (x.service.next?.map x.served)
    <|> (x.decided?.map fun w => x.served (x.service.deliver w.id))
    <|> (x.unserved?.map x.serve)
    <|> ((Call.ready? x.stopped x.calls).map fun (call, outcome) => x.finishCall call outcome)
    <|> (match x.service.takeJob with
      | (service, some job) => some ({ x with service }.handle job)
      | (_, none) => none)

/-- Moves on until nothing can move. -/
def settle : Nat → Exchange → Exchange
  | 0, x => x
  | fuel + 1, x =>
    match x.move? with
    | some x => settle fuel x
    | none => x

/-- A bound on the moves that can follow each other: a message is waited for and read and then
served, passed through its gate and answered; the receive loop ends once. -/
def settleFuel (x : Exchange) : Nat :=
  8 * ((x.service.channel.inbox Service.ownSide).messages.length +
    x.service.dispatcher.workers.length + x.service.dispatcher.jobs.length + 2)

def settled (x : Exchange) : Exchange := x.settle x.settleFuel

/-- Closes one end of the channel. -/
def close (x : Exchange) (side : Channel.Side) : Exchange :=
  { x with service := { x.service with channel := x.service.channel.close side } }.say
    [Channel.closeNotice x.service.session]

/-- Acts on a cue, without what follows from it. -/
def perform (x : Exchange) : Cue → Exchange × Reply
  | .onRequest method part =>
    ({ x with service :=
        { x.service with dispatcher := x.service.dispatcher.onRequest method part } }, .nothing)
  | .onNotification method part =>
    ({ x with service :=
        { x.service with dispatcher := x.service.dispatcher.onNotification method part } }, .nothing)
  | .run => if x.service.isRunning then (x, .nothing) else (x.served x.service.run, .nothing)
  | .send text =>
    match x.service.channel.write clientSide text with
    | .ok channel => ({ x with service := { x.service with channel } }, .nothing)
    | .error flaw => (x, .failure (.crashed flaw.message))
  | .notify method params =>
    match params.mapM Json.parse with
    | .error e => (x, .failure (.crashed e.message))
    | .ok params =>
      let (service, sent, notices) := x.service.notify ⟨method, params⟩
      ({ x with service }.say notices, .flag sent)
  | .release key =>
    match Call.release? key x.calls with
    | some calls => ({ x with calls }, .flag true)
    | none => (x, .flag false)
  | .stop => ({ x with service := { x.service with stopRequested := true } }, .nothing)
  | .closeClient => (x.close clientSide, .nothing)
  | .closeServer => (x.close Service.ownSide, .nothing)
  | .breakRead flaw => ({ x with service := { x.service with readFlaw := some flaw } }, .nothing)

/-- What a cue has led to once everything has settled. -/
structure CueReport where
  reply : Reply
  /-- Messages that have arrived at the client. -/
  received : List Bytes
  handled : List Rpc.Notification
  notices : List Log.Notice

/-- Acts on a cue and waits until all work has settled. -/
def play (x : Exchange) (cue : Cue) : Exchange × CueReport :=
  let (x, reply) := x.perform cue
  let x := x.settled
  let (channel, received) := collect x.service.channel
  ({ x with service := { x.service with channel }, handled := [], notices := [] },
    { reply, received, handled := x.handled, notices := x.notices })

/-- The gates at which requests wait. -/
def waiting (x : Exchange) : List Bytes := x.calls.map (·.key)

end Exchange

end EditorSession.Rehearsal
