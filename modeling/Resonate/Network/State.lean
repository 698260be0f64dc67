import Resonate.Types

/-!
# The local server: state and helpers

`ServerState` of `network.rs` with the helpers every handler is built from:
expiry of one promise, the settlement chain (fulfil the promise's own task,
resume its awaiters, notify its subscribers), the two timeout queues and the
outgoing messages. Hash sets are lists without repetitions.

`now + PENDING_RETRY_TTL` wraps as in a release build. A version starts at 0 and
grows by one at most once per task and step, so it is an unbounded integer.
-/

namespace Resonate.Network
open Lib

def pendingRetryTtl : Int := 30000

structure DurablePromise where
  id : String
  state : PromiseState
  param : Json
  value : Json
  tags : HashMap String
  timeoutAt : Int
  createdAt : Int
  settledAt : Option Int
  awaiters : List String
  subscribers : List String

def DurablePromise.toRecord (p : DurablePromise) : Json :=
  .obj ([("id", .str p.id), ("state", .str p.state.name), ("param", p.param), ("value", p.value),
    ("tags", strMapToJson p.tags), ("timeoutAt", .num p.timeoutAt),
    ("createdAt", .num p.createdAt)] ++
    (p.settledAt.map fun t => ("settledAt", Json.num t)).toList)

structure Task where
  id : String
  state : TaskState
  version : Int
  pid : Option String
  ttl : Option Int
  resumes : List String
deriving DecidableEq

def Task.toRecord (t : Task) : Json :=
  .obj ([("id", .str t.id), ("state", .str t.state.name), ("version", .num t.version),
    ("promiseId", .str t.id)] ++
    (t.pid.map fun pid => ("pid", Json.str pid)).toList ++
    (t.ttl.map fun ttl => ("ttl", Json.num ttl)).toList)

structure PTimeout where
  id : String
  timeout : Int
deriving DecidableEq

structure TTimeout where
  id : String
  typ : ℕ
  timeout : Int
deriving DecidableEq

structure OutgoingMessage where
  address : String
  message : Json

structure ScheduleStub where
  id : String
  cron : String
  promiseId : String
  promiseTimeout : Int
  promiseParam : Json
  promiseTags : Json
  createdAt : Int

def ScheduleStub.toRecord (s : ScheduleStub) : Json :=
  .obj [("id", .str s.id), ("cron", .str s.cron), ("promiseId", .str s.promiseId),
    ("promiseTimeout", .num s.promiseTimeout), ("promiseParam", s.promiseParam),
    ("promiseTags", s.promiseTags), ("createdAt", .num s.createdAt), ("nextRunAt", .num 0),
    ("lastRunAt", .null)]

structure ServerState where
  promises : HashMap DurablePromise
  tasks : HashMap Task
  schedules : HashMap ScheduleStub
  pTimeouts : List PTimeout
  tTimeouts : List TTimeout
  outgoing : List OutgoingMessage

namespace ServerState

def init : ServerState := ⟨∅, ∅, ∅, [], [], []⟩

def setPTimeout (s : ServerState) (id : String) (timeout : Int) : ServerState :=
  let set := fun e : PTimeout => { e with timeout := timeout }
  { s with pTimeouts := upsert (fun e => e.id == id) set ⟨id, timeout⟩ s.pTimeouts }

def delPTimeout (s : ServerState) (id : String) : ServerState :=
  { s with pTimeouts := s.pTimeouts.filter fun e => e.id ≠ id }

def setTTimeout (s : ServerState) (id : String) (typ : ℕ) (timeout : Int) : ServerState :=
  let set := fun e : TTimeout => { e with typ := typ, timeout := timeout }
  { s with tTimeouts := upsert (fun e => e.id == id) set ⟨id, typ, timeout⟩ s.tTimeouts }

def delTTimeout (s : ServerState) (id : String) : ServerState :=
  { s with tTimeouts := s.tTimeouts.filter fun e => e.id ≠ id }

def timeoutState (tags : HashMap String) : PromiseState :=
  if tags.lookup "resonate:timer" = some "true" then .resolved else .rejectedTimedout

def executeMessage (taskId : String) (version : Int) : Json :=
  .obj [("kind", .str "execute"),
    ("data", .obj [("task", .obj [("id", .str taskId), ("version", .num version)])])]

def unblockMessage (record : Json) : Json :=
  .obj [("kind", .str "unblock"), ("data", .obj [("promise", record)])]

def isExecuteFor (taskId : String) (m : OutgoingMessage) : Bool :=
  (m.message.get "kind").bind Json.asStr == some "execute" &&
    ((((m.message.get "data").bind (·.get "task")).bind (·.get "id")).bind Json.asStr) ==
      some taskId

/-- Upsert: an execute message for the same task is replaced. -/
def sendExecuteMessage (s : ServerState) (address taskId : String) (version : Int) :
    ServerState :=
  let msg : OutgoingMessage := ⟨address, executeMessage taskId version⟩
  { s with outgoing := upsert (isExecuteFor taskId) (fun _ => msg) msg s.outgoing }

def sendExecute (s : ServerState) (taskId : String) (version : Int) : ServerState :=
  match (s.promises.lookup taskId).bind (·.tags.lookup "resonate:target") with
  | some addr => s.sendExecuteMessage addr taskId version
  | none => s

def preload (s : ServerState) (promiseId : String) : List Json :=
  match (s.promises.lookup promiseId).bind (·.tags.lookup "resonate:branch") with
  | none => []
  | some branch =>
    ((HashMap.values s.promises).filter fun p =>
      p.id ≠ promiseId ∧ p.tags.lookup "resonate:branch" = some branch).map
      DurablePromise.toRecord

def fulfilledTask (id : String) : Task := ⟨id, .fulfilled, 0, none, none, []⟩

/-- When a promise settles, fulfil its task and remove it from all awaiters. -/
def enqueueSettle (s : ServerState) (promiseId : String) : ServerState :=
  match s.tasks.lookup promiseId with
  | none =>
    if (s.promises.lookup promiseId).any (fun p => (p.tags.lookup "resonate:target").isSome) then
      { s with tasks := s.tasks.insert promiseId (fulfilledTask promiseId) }
    else s
  | some t =>
    if t.state = .fulfilled then s
    else
      let s := { s with tasks := HashMap.modify s.tasks promiseId fun t =>
        { t with state := .fulfilled, pid := none, ttl := none, resumes := [] } }
      let s := s.delTTimeout promiseId
      { s with promises := HashMap.mapValues s.promises fun p =>
        { p with awaiters := p.awaiters.filter fun a => a ≠ promiseId } }

def resumeAwaiter (promiseId : String) (now : Int) (s : ServerState) (awaiterId : String) :
    ServerState :=
  match s.tasks.lookup awaiterId with
  | none => s
  | some task =>
    match task.state with
    | .suspended =>
      let version := task.version + 1
      let s := { s with tasks := HashMap.modify s.tasks awaiterId fun t =>
        { t with state := .pending, version := version, resumes := [promiseId] } }
      let s := s.setTTimeout awaiterId 0 (wrapAdd now pendingRetryTtl)
      s.sendExecute awaiterId version
    | .fulfilled => s
    | _ =>
      { s with tasks := HashMap.modify s.tasks awaiterId fun t =>
        { t with resumes := t.resumes.insert promiseId } }

def awaitersOf (s : ServerState) (promiseId : String) : List String :=
  match s.promises.lookup promiseId with
  | some p => p.awaiters
  | none => []

/-- When a promise settles, resume every task that was awaiting it. -/
def resumeAwaiters (s : ServerState) (promiseId : String) (now : Int) : ServerState :=
  let s := (s.awaitersOf promiseId).foldl (resumeAwaiter promiseId now) s
  { s with promises := HashMap.modify s.promises promiseId fun p => { p with awaiters := [] } }

def notifySubscribers (s : ServerState) (promiseId : String) : ServerState :=
  match s.promises.lookup promiseId with
  | none => s
  | some p =>
    if p.subscribers = [] then s
    else
      { s with
        outgoing := s.outgoing ++ p.subscribers.map fun address =>
          ⟨address, unblockMessage p.toRecord⟩
        promises := HashMap.modify s.promises promiseId fun p => { p with subscribers := [] } }

def isPending (s : ServerState) (id : String) : Bool :=
  (s.promises.lookup id).any fun p => p.state = .pending

/-- A promise `try_auto_timeout` expires: pending, with its deadline reached. -/
def isDue (s : ServerState) (now : Int) (id : String) : Bool :=
  (s.promises.lookup id).any fun p => p.state = .pending ∧ p.timeoutAt ≤ now

def expireRecord (p : DurablePromise) : DurablePromise :=
  { p with state := timeoutState p.tags, settledAt := some p.timeoutAt }

def expire (s : ServerState) (id : String) : ServerState :=
  { s with promises := HashMap.modify s.promises id expireRecord }.delPTimeout id

/-- The settlement chain run once a promise record has been settled. -/
def settled (s : ServerState) (id : String) (now : Int) : ServerState :=
  ((s.enqueueSettle id).resumeAwaiters id now).notifySubscribers id

def tryAutoTimeout (s : ServerState) (now : Int) (id : String) : ServerState :=
  if s.isDue now id then (s.expire id).settled id now else s

end ServerState

end Resonate.Network
