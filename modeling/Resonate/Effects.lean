import Resonate.Codec
import Resonate.Send

/-!
# The durable operations

`effects.rs`: the creation and the settlement of a promise, fenced on the lease
of the task and served from a cache of decoded records. An operation is cut at
its request: what it decides before, and what it makes of the answer.
-/

namespace Resonate
open Lib

structure Effects where
  sender : Sender
  codec : Codec
  taskId : String
  taskVersion : Int
  cache : HashMap PromiseRecord

inductive Begun where
  | answered (result : Except Error PromiseRecord)
  | fence (action : Json)

namespace Effects

variable (e : Effects)

/-- A terminal entry is never overwritten. -/
def insertMonotonic (record : PromiseRecord) : Effects :=
  if (e.cache.lookup record.id).any fun r => r.state ≠ .pending then e
  else { e with cache := e.cache.insert record.id record }

/-- Undecodable records are skipped. -/
def absorb (records : List PromiseRecord) : Effects :=
  records.foldl (fun e record => match e.codec.decodePromise record with
    | .ok decoded => e.insertMonotonic decoded
    | .error _ => e) e

def new (sender : Sender) (codec : Codec) (taskId : String) (taskVersion : Int)
    (preload : List PromiseRecord) : Effects :=
  absorb ⟨sender, codec, taskId, taskVersion, ∅⟩ preload

def createPromise (req : PromiseCreateReq) : Begun :=
  match e.cache.lookup req.id with
  | some cached => .answered (.ok cached)
  | none => match e.codec.encode req.param.dataOrNull with
    | .error err => .answered (.error err)
    | .ok param => .fence { req with param }.toJson

def settlement : Except Error (Except String Json) → Except Error (SettleState × Json)
  | .ok v => (serde v).map (.resolved, ·)
  | .error err => .ok (.rejected, encodeError err)

def settlePromise (id : String) (result : Except Error (Except String Json)) : Begun :=
  match (e.cache.lookup id).filter fun r => r.state ≠ .pending with
  | some cached => .answered (.ok cached)
  | none => match settlement result with
    | .error err => .answered (.error err)
    | .ok (state, data) => match e.codec.encode data with
      | .error err => .answered (.error err)
      | .ok value => .fence (PromiseSettleReq.toJson ⟨id, state, value⟩)

/-- The request of `task_fence`; the action's head is made first. -/
def fenceRequest (subNow now : Int) (action : Json) : Json :=
  envelope "task.fence" (e.sender.makeHead now)
    (taskFenceData e.taskId e.taskVersion (e.sender.makeHead subNow) action)

def fenceResult (now : Int) (answer : Except Error Json) : Except Error TaskFenceResult := do
  let (_, data) ← Resonate.received "task.fence" (e.sender.makeHead now).corrId false answer
  parseFence data

def received (result : Except Error TaskFenceResult) : Effects × Except Error PromiseRecord :=
  match result with
  | .error err => (e, .error err)
  | .ok res =>
    let e := e.absorb res.preload
    match e.codec.decodePromise res.promise with
    | .error err => (e, .error err)
    | .ok decoded => (e.insertMonotonic decoded, .ok decoded)

end Effects

end Resonate
