import Resonate.Network.Listeners
import Resonate.Lib.Watch

/-!
# Handles

The subscription map of a `Resonate` instance, with the handles on it, beside the
server: `create_handle_from_id` in its phases, the unblock messages on their way, and
any other request or tick. An entry is inserted only where there is none and never
removed, so that the id names the channel of a handle, and a creation that waits for the
listener's answer is the one that inserted the entry of its id. The periodic refresh is
left out.
-/

namespace Resonate
open Lib Network

structure PromiseResult where
  state : PromiseState
  value : Json

/-- The instance: its sender, the address it registers, and whose messages reach it. -/
structure Endpoint where
  sender : Sender
  unicast : String
  hears : String → Bool
  hears_unicast : hears unicast = true

def valueToWireJson (value : Value) : Json :=
  .obj ((value.headers.map fun h => ("headers", strMapToJson h)).toList ++
    [("data", value.dataOrNull)])

def parsePromiseState (state : String) : PromiseState := (PromiseState.ofName state).getD .pending

def unblockPromise (message : Json) : Option Json :=
  if (message.get "kind").bind Json.asStr = some "unblock" then
    (message.get "data").bind (·.get "promise")
  else none

def unblockId (promise : Json) : String := ((promise.get "id").bind Json.asStr).getD ""

def unblockResult (promise : Json) : PromiseResult where
  state := parsePromiseState (((promise.get "state").bind Json.asStr).getD "pending")
  value := valueToWireJson (Value.ofJson ((promise.get "value").getD .null))

def PromiseRecord.result (promise : PromiseRecord) : PromiseResult :=
  ⟨promise.state, valueToWireJson promise.value⟩

abbrev Subscriptions := HashMap (Watch PromiseResult)

def unblock (subs : Subscriptions) (promise : Json) : Subscriptions :=
  match subs.lookup (unblockId promise) with
  | some tx => subs.insert (unblockId promise) (tx.send (unblockResult promise))
  | none => subs.insert (unblockId promise) (Watch.channel (some (unblockResult promise))).leave

/-- Where a creation that inserted its entry stands. -/
inductive Creation where
  | requesting
  | answered (answer : Except Error PromiseRecord)

structure Session where
  server : ServerState
  inFlight : List Json
  subscriptions : Subscriptions
  creating : HashMap Creation
  handles : List String

inductive Session.Event where
  | create (id : String)
  | listen (id : String) (sent now : Int)
  | answer (id : String)
  | unblock (i : ℕ)
  | drop (id : String)
  | serve (op : Op)

namespace Session

def start (server : ServerState) : Session := ⟨server, [], ∅, ∅, []⟩

def holds (x : Session) (id : String) : Option PromiseResult :=
  (x.subscriptions.lookup id).bind Watch.value

def done (x : Session) (id : String) : Bool := (x.holds id).isSome

/-- The first critical section of `create_handle_from_id`. -/
def create (x : Session) (id : String) : Session :=
  match x.subscriptions.lookup id with
  | some tx =>
    { x with subscriptions := x.subscriptions.insert id tx.subscribe, handles := id :: x.handles }
  | none =>
    { x with subscriptions := x.subscriptions.insert id (Watch.channel none)
             creating := x.creating.insert id .requesting }

def answer (x : Session) (id : String) : Session :=
  match x.creating.lookup id with
  | some (.answered (.ok promise)) =>
    { x with
      subscriptions := if promise.state ≠ .pending then
        HashMap.modify x.subscriptions id fun tx => tx.send promise.result
      else x.subscriptions
      creating := x.creating.erase id
      handles := id :: x.handles }
  | some (.answered (.error _)) =>
    { x with subscriptions := HashMap.modify x.subscriptions id Watch.leave
             creating := x.creating.erase id }
  | _ => x

def drop (x : Session) (id : String) : Session :=
  if id ∈ x.handles then
    { x with subscriptions := HashMap.modify x.subscriptions id Watch.leave
             handles := x.handles.erase id }
  else x

def arrive (x : Session) (i : ℕ) : Session :=
  match x.inFlight[i]? with
  | some promise => { x with inFlight := x.inFlight.eraseIdx i
                             subscriptions := Resonate.unblock x.subscriptions promise }
  | none => x

variable (r : Endpoint)

/-- A step of the server; the unblock messages it dispatches are on their way. -/
def serve (x : Session) (op : Op) : Session :=
  { x with
    server := x.server.deliver op
    inFlight := x.inFlight ++ (x.server.messages op).filterMap fun msg =>
      if r.hears msg.address then unblockPromise msg.message else none }

def listenerRequest (id : String) (sent : Int) : Json :=
  listenRequest (r.sender.makeHead sent) id r.unicast

def listenerAnswer (x : Session) (id : String) (sent now : Int) : Except Error PromiseRecord :=
  listenResult (r.sender.makeHead sent) (x.server.send now (listenerRequest r id sent)).2

def listen (x : Session) (id : String) (sent now : Int) : Session :=
  match x.creating.lookup id with
  | some .requesting =>
    let y := x.serve r (.apply now (unwrapRequestEnvelope (listenerRequest r id sent)))
    { y with creating := y.creating.insert id (.answered (x.listenerAnswer r id sent now)) }
  | _ => x

def step (x : Session) : Event → Session
  | .create id => x.create id
  | .listen id sent now => x.listen r id sent now
  | .answer id => x.answer id
  | .unblock i => x.arrive i
  | .drop id => x.drop id
  | .serve op => x.serve r op

end Session

end Resonate
