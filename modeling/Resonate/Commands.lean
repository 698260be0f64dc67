import Resonate.Send
import Resonate.Lib.ForkJoin

/-!
# What an execution asks of its surroundings

The commands a worker's programs issue: the clock, the user's own side effects,
the two durable operations, the calls of the sender, the heartbeat, and the report
of a panic. A durable operation names its call by its position, the path of calls
from the root, and a creation its slot in the creation sequence of its context. A
spawned task ends with the message it sent to its handle and the outcome that
flush collects, or by a panic; the handling of a task returns a status, or is
still being redirected.
-/

namespace Resonate
open Lib.ForkJoin

inductive CallKind where
  | run | remote | detached
deriving DecidableEq

/-- A call of a context: its number, and whether it was spawned or awaited inline. -/
structure Call where
  number : ℕ
  spawned : Bool
deriving DecidableEq

abbrev Position := List Call

structure Slot where
  context : Position
  index : ℕ
deriving DecidableEq

inductive Cmd where
  | now
  | user
  | panic (msg : String)
  | create (kind : CallKind) (position : Position) (slot : Slot) (req : PromiseCreateReq)
  | created (slot : Slot) (id : String)
  | execute (id : String)
  | settle (position : Position) (id : String) (result : Except Error (Except String Json))
  | acquire (id : String) (version : Int) (pid : String) (ttl : Int)
  | effects (id : String) (version : Int) (preload : List PromiseRecord)
  | fulfill (id : String) (version : Int) (action : PromiseSettleReq)
  | suspend (id : String) (version : Int) (actions : List PromiseRegisterCallbackData)
  | release (id : String) (version : Int)
  | heartbeatStart (id : String) (version : Int)
  | heartbeatStop (id : String)

def Cmd.Answer : Cmd → Type
  | now => Int
  | user => Json
  | create .. | settle .. | fulfill .. => Except Error PromiseRecord
  | created .. => Except Error String
  | acquire .. => Except Error TaskAcquireResult
  | suspend .. => Except Error SuspendResult
  | release .. => Except Error Unit
  | panic _ | execute _ | effects .. | heartbeatStart .. | heartbeatStop _ => Unit

inductive Outcome where
  | done (result : Except Error Unit)
  | suspended (remoteTodos : List String)

inductive End where
  | finished (sent : Option (Except Error Json)) (outcome : Outcome)
  | panicked
  | returned (status : Except Error Status)
  | unfinished

abbrev Prog := Proc Cmd Cmd.Answer End

abbrev Event := Lib.ForkJoin.Event Cmd Cmd.Answer

abbrev Kid := Lib.ForkJoin.Kid Cmd Cmd.Answer End

end Resonate
