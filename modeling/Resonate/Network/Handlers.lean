import Resonate.Network.State

/-!
# The local server: requests

The fifteen request handlers, `apply` and `tick`. A handler returns the state
together with its answer, since a state change made before an error is kept.
`apply` dispatches on the request kind after expiring the due promises that the
request names; `tick` runs its five phases over work lists collected up front.
-/

namespace Resonate.Network
open Lib

inductive ReqKind where
  | promiseGet | promiseCreate | promiseSettle | promiseRegisterListener
  | taskCreate | taskAcquire | taskRelease | taskFulfill | taskFence | taskSuspend
  | taskHeartbeat | scheduleCreate | scheduleGet | scheduleDelete | scheduleSearch
deriving DecidableEq

def ReqKind.name : ReqKind → String
  | promiseGet => "promise.get"
  | promiseCreate => "promise.create"
  | promiseSettle => "promise.settle"
  | promiseRegisterListener => "promise.register_listener"
  | taskCreate => "task.create"
  | taskAcquire => "task.acquire"
  | taskRelease => "task.release"
  | taskFulfill => "task.fulfill"
  | taskFence => "task.fence"
  | taskSuspend => "task.suspend"
  | taskHeartbeat => "task.heartbeat"
  | scheduleCreate => "schedule.create"
  | scheduleGet => "schedule.get"
  | scheduleDelete => "schedule.delete"
  | scheduleSearch => "schedule.search"

def ReqKind.ofName : String → Option ReqKind
  | "promise.get" => some promiseGet
  | "promise.create" => some promiseCreate
  | "promise.settle" => some promiseSettle
  | "promise.register_listener" => some promiseRegisterListener
  | "task.create" => some taskCreate
  | "task.acquire" => some taskAcquire
  | "task.release" => some taskRelease
  | "task.fulfill" => some taskFulfill
  | "task.fence" => some taskFence
  | "task.suspend" => some taskSuspend
  | "task.heartbeat" => some taskHeartbeat
  | "schedule.create" => some scheduleCreate
  | "schedule.get" => some scheduleGet
  | "schedule.delete" => some scheduleDelete
  | "schedule.search" => some scheduleSearch
  | _ => none

@[simp] theorem ReqKind.ofName_name (k : ReqKind) : ofName k.name = some k := by
  cases k <;> rfl

abbrev Reply := Except Error Json

def reply (kind : ReqKind) (corrId : Json) (status : Int) (fields : List (String × Json)) : Reply :=
  .ok (.obj ([("kind", .str kind.name), ("corrId", corrId), ("status", .num status)] ++ fields))

def strField (obj : Json) (field : String) : Option String := (obj.get field).bind Json.asStr

def requireStr (obj : Json) (field : String) : Except Error String :=
  match strField obj field with
  | some s =>
    if s ≠ "" then .ok s
    else .error (.serverError 400 s!"missing or empty required field: {field}")
  | none => .error (.serverError 400 s!"missing or empty required field: {field}")

/-- A task TTL; a `u64` beyond `i64::MAX` is clamped. -/
def extractTtl (req : Json) : Int :=
  ((req.get "ttl").bind fun v => v.asI64.orElse fun _ =>
    v.asU64.map fun u => min u Json.i64Max).getD 60000

/-- The data of a `{ kind, head, data }` sub-envelope, or the value itself. -/
def extractActionData (val : Json) : Json :=
  if (val.get "kind").isSome ∧ (val.get "data").isSome then (val.get "data").getD val else val

def actionOf (req : Json) : Json := (req.get "action").getD .null

def extractTags (v : Json) : HashMap String :=
  (((v.get "tags").bind Json.asObject).map fun fields =>
    (fields.filterMap strEntry).toAList).getD ∅

def versionOf (req : Json) : Int := ((req.get "version").bind Json.asI64).getD 0

def settleStateOf (req : Json) : PromiseState :=
  ((req.get "state").bind PromiseState.ofJson).getD .resolved

def valueOf (req : Json) : Json := (req.get "value").getD .null

def timeoutAtOf (req : Json) : Int := ((req.get "timeoutAt").bind Json.asI64).getD Json.i64Max

def paramOf (req : Json) : Json := (req.get "param").getD .null

/-- Only a deadline still ahead defers a task. -/
def delayOf (tags : HashMap String) (now : Int) : Option Int :=
  ((tags.lookup "resonate:delay").bind parseI64).filter fun d => now < d

def expiredPromise (id : String) (req : Json) : DurablePromise :=
  { id, state := ServerState.timeoutState (extractTags req), param := paramOf req
    value := .null, tags := extractTags req, timeoutAt := timeoutAtOf req
    createdAt := timeoutAtOf req, settledAt := some (timeoutAtOf req)
    awaiters := [], subscribers := [] }

def pendingPromise (id : String) (req : Json) (now : Int) : DurablePromise :=
  { id, state := .pending, param := paramOf req, value := .null, tags := extractTags req
    timeoutAt := timeoutAtOf req, createdAt := now, settledAt := none
    awaiters := [], subscribers := [] }

def settleRecord (state : PromiseState) (value : Json) (now : Int) (p : DurablePromise) :
    DurablePromise :=
  { p with state := state, value := value, settledAt := some now }

def suspendTask (t : Task) : Task :=
  { t with state := .suspended, pid := none, ttl := none, resumes := [] }

def acquireTask (pid : String) (ttl : Int) (t : Task) : Task :=
  { t with state := .acquired, pid := some pid, ttl := some ttl, resumes := [] }

def releaseTask (t : Task) : Task :=
  { t with state := .pending, version := t.version + 1, pid := none, ttl := none }

def kindOf (req : Json) : String := (strField req "kind").getD ""

def fenceAction (req : Json) : Bool × Json :=
  let action := actionOf req
  let data := extractActionData action
  let isSettle := match (strField action "kind").bind ReqKind.ofName with
    | some .promiseSettle => true
    | some .promiseCreate => false
    | _ => (data.get "state").isSome
  let kind := if isSettle then ReqKind.promiseSettle.name else ReqKind.promiseCreate.name
  (isSettle, .obj (Json.insert (data.asObject.getD []) "kind" (.str kind)))

def callbacksOf (req : Json) : List String :=
  (((req.get "actions").bind Json.asArray).getD []).filterMap fun a =>
    strField (extractActionData a) "awaited"

/-- The promises a request names, in the order in which `apply` expires them. -/
def namedPromises (kind : Option ReqKind) (req : Json) : List String :=
  match kind with
  | some .promiseGet | some .promiseCreate | some .promiseSettle | some .taskAcquire
  | some .taskRelease | some .taskFulfill => [(strField req "id").getD ""]
  | some .promiseRegisterListener => [(strField req "awaited").getD ""]
  | some .taskCreate => [(strField (extractActionData (actionOf req)) "id").getD ""]
  | some .taskFence =>
    (strField req "id").getD "" :: (strField (extractActionData (actionOf req)) "id").toList
  | some .taskSuspend =>
    (strField req "id").getD "" :: (callbacksOf req).filter fun awaited => awaited ≠ ""
  | _ => []

namespace ServerState

def recordOf (s : ServerState) (id : String) : Json :=
  match s.promises.lookup id with
  | some p => p.toRecord
  | none => .null

def taskRecordOf (s : ServerState) (id : String) : Json :=
  match s.tasks.lookup id with
  | some t => t.toRecord
  | none => .null

def promiseGet (s : ServerState) (corrId req : Json) : ServerState × Reply :=
  match requireStr req "id" with
  | .error e => (s, .error e)
  | .ok id =>
    match s.promises.lookup id with
    | some p => (s, reply .promiseGet corrId 200 [("promise", p.toRecord)])
    | none => (s, reply .promiseGet corrId 404 [("error", .str s!"promise {id} not found")])

/-- The task of a new targeted promise: dispatched now, or deferred by its delay tag. -/
def createTargetTask (s : ServerState) (id address : String) (tags : HashMap String)
    (timeoutAt now : Int) : ServerState :=
  let s := s.setPTimeout id timeoutAt
  let s := { s with tasks := s.tasks.insert id ⟨id, .pending, 0, none, none, []⟩ }
  match delayOf tags now with
  | some delay => s.setTTimeout id 0 delay
  | none => (s.setTTimeout id 0 (wrapAdd now pendingRetryTtl)).sendExecuteMessage address id 0

def addExpired (s : ServerState) (id : String) (req : Json) : ServerState :=
  { s with promises := s.promises.insert id (expiredPromise id req) }

def addPending (s : ServerState) (id : String) (req : Json) (now : Int) : ServerState :=
  let promise := pendingPromise id req now
  let s := { s with promises := s.promises.insert id promise }
  match promise.tags.lookup "resonate:target" with
  | some address => s.createTargetTask id address promise.tags promise.timeoutAt now
  | none => s

def promiseCreate (s : ServerState) (now : Int) (corrId req : Json) : ServerState × Reply :=
  match requireStr req "id" with
  | .error e => (s, .error e)
  | .ok id =>
    match s.promises.lookup id with
    | some existing => (s, reply .promiseCreate corrId 200 [("promise", existing.toRecord)])
    | none =>
      if timeoutAtOf req ≤ now then
        ((s.addExpired id req).settled id now,
          reply .promiseCreate corrId 200 [("promise", (expiredPromise id req).toRecord)])
      else
        (s.addPending id req now,
          reply .promiseCreate corrId 201 [("promise", (pendingPromise id req now).toRecord)])

def settleAt (s : ServerState) (id : String) (state : PromiseState) (value : Json) (now : Int) :
    ServerState :=
  { s with promises := HashMap.modify s.promises id (settleRecord state value now) }.delPTimeout id

def promiseSettle (s : ServerState) (now : Int) (corrId req : Json) : ServerState × Reply :=
  match requireStr req "id" with
  | .error e => (s, .error e)
  | .ok id =>
    match s.promises.lookup id with
    | none => (s, reply .promiseSettle corrId 404 [("error", .str s!"promise {id} not found")])
    | some p =>
      if p.state ≠ .pending then (s, reply .promiseSettle corrId 200 [("promise", p.toRecord)])
      else
        let record := (settleRecord (settleStateOf req) (valueOf req) now p).toRecord
        ((s.settleAt id (settleStateOf req) (valueOf req) now).settled id now,
          reply .promiseSettle corrId 200 [("promise", record)])

def subscribe (s : ServerState) (id address : String) : ServerState :=
  { s with promises := HashMap.modify s.promises id fun p =>
    { p with subscribers := p.subscribers.insert address } }

def promiseRegisterListener (s : ServerState) (corrId req : Json) : ServerState × Reply :=
  match requireStr req "awaited" with
  | .error e => (s, .error e)
  | .ok awaited =>
    match requireStr req "address" with
    | .error e => (s, .error e)
    | .ok address =>
      match s.promises.lookup awaited with
      | some p =>
        (if p.state = .pending then s.subscribe awaited address else s,
          reply .promiseRegisterListener corrId 200 [("promise", p.toRecord)])
      | none =>
        (s, reply .promiseRegisterListener corrId 404
          [("error", .str s!"promise {awaited} not found")])

/-- The lease granted by `task.create` and `task.acquire` on a pending task. -/
def grantLease (s : ServerState) (id pid : String) (ttl now : Int) : ServerState :=
  { s with tasks := HashMap.modify s.tasks id (acquireTask pid ttl) }.setTTimeout id 1
    (saturatingAdd now ttl)

def addFulfilled (s : ServerState) (id : String) (req : Json) : ServerState :=
  { s with promises := s.promises.insert id (expiredPromise id req)
           tasks := s.tasks.insert id (fulfilledTask id) }

def addAcquired (s : ServerState) (id : String) (req : Json) (pid : String) (ttl now : Int) :
    ServerState :=
  let promise := pendingPromise id req now
  let s := { s with promises := s.promises.insert id promise }
  let s := if (promise.tags.lookup "resonate:target").isSome then
      s.setPTimeout id promise.timeoutAt
    else s
  let s := { s with tasks := s.tasks.insert id ⟨id, .acquired, 0, some pid, some ttl, []⟩ }
  s.setTTimeout id 1 (saturatingAdd now ttl)

def taskCreate (s : ServerState) (now : Int) (corrId req : Json) : ServerState × Reply :=
  match requireStr req "pid" with
  | .error e => (s, .error e)
  | .ok pid =>
    let ttl := extractTtl req
    let promiseReq := extractActionData (actionOf req)
    match requireStr promiseReq "id" with
    | .error e => (s, .error e)
    | .ok id =>
      match s.tasks.lookup id with
      | some existing =>
        let promiseRecord := s.recordOf id
        match existing.state with
        | .pending =>
          let preload := s.preload id
          let s := s.grantLease id pid ttl now
          (s, reply .taskCreate corrId 200 [("task", s.taskRecordOf id),
            ("promise", promiseRecord), ("preload", .arr preload)])
        | .fulfilled =>
          (s, reply .taskCreate corrId 200 [("task", existing.toRecord),
            ("promise", promiseRecord), ("preload", .arr (s.preload id))])
        | _ => (s, reply .taskCreate corrId 409 [("error", .str "Already exists")])
      | none =>
        if (s.promises.lookup id).isSome then
          (s, reply .taskCreate corrId 409 [("error", .str "Already exists")])
        else if timeoutAtOf promiseReq ≤ now then
          (s.addFulfilled id promiseReq, reply .taskCreate corrId 200
            [("task", (fulfilledTask id).toRecord),
              ("promise", (expiredPromise id promiseReq).toRecord), ("preload", .arr [])])
        else
          let s := s.addAcquired id promiseReq pid ttl now
          (s, reply .taskCreate corrId 201 [("task", s.taskRecordOf id),
            ("promise", s.recordOf id), ("preload", .arr (s.preload id))])

def taskAcquire (s : ServerState) (now : Int) (corrId req : Json) : ServerState × Reply :=
  match requireStr req "id" with
  | .error e => (s, .error e)
  | .ok id =>
    let pid := (strField req "pid").getD ""
    let ttl := max (extractTtl req) 1
    match s.tasks.lookup id with
    | none => (s, reply .taskAcquire corrId 404 [("error", .str s!"task {id} not found")])
    | some t =>
      if t.state ≠ .pending then
        (s, reply .taskAcquire corrId 409
          [("error", .str s!"task not in pending state (state: {t.state.debug})")])
      else
        let preload := s.preload id
        let s := s.grantLease id pid ttl now
        (s, reply .taskAcquire corrId 200 [("task", s.taskRecordOf id),
          ("promise", s.recordOf id), ("preload", .arr preload)])

/-- The end of a lease by `task.release` or by expiry: the task is pending again. -/
def endLease (s : ServerState) (id : String) (t : Task) (now : Int) : ServerState :=
  let s := { s with tasks := HashMap.modify s.tasks id releaseTask }
  (s.setTTimeout id 0 (wrapAdd now pendingRetryTtl)).sendExecute id (t.version + 1)

def taskRelease (s : ServerState) (now : Int) (corrId req : Json) : ServerState × Reply :=
  match requireStr req "id" with
  | .error e => (s, .error e)
  | .ok id =>
    match s.tasks.lookup id with
    | none => (s, reply .taskRelease corrId 404 [])
    | some t =>
      if t.state ≠ .acquired then (s, reply .taskRelease corrId 409 [])
      else (s.endLease id t now, reply .taskRelease corrId 200 [])

def taskFulfill (s : ServerState) (now : Int) (corrId req : Json) : ServerState × Reply :=
  match requireStr req "id" with
  | .error e => (s, .error e)
  | .ok id =>
    match s.tasks.lookup id with
    | none => (s, reply .taskFulfill corrId 404 [])
    | some t =>
      if t.state ≠ .acquired then (s, reply .taskFulfill corrId 409 [])
      else
        let settle := extractActionData (actionOf req)
        let promiseId := (strField settle "id").getD id
        let s := if s.isPending promiseId then
            s.settleAt promiseId (settleStateOf settle) (valueOf settle) now
          else s
        let record := s.recordOf promiseId
        let s := ((s.enqueueSettle id).resumeAwaiters promiseId now).notifySubscribers promiseId
        (s, reply .taskFulfill corrId 200 [("promise", record)])

def fenceInner (s : ServerState) (now : Int) (corrId req : Json) : ServerState × Reply :=
  let (isSettle, flat) := fenceAction req
  if isSettle then s.promiseSettle now corrId flat else s.promiseCreate now corrId flat

def taskFence (s : ServerState) (now : Int) (corrId req : Json) : ServerState × Reply :=
  match requireStr req "id" with
  | .error e => (s, .error e)
  | .ok id =>
    match s.tasks.lookup id with
    | none => (s, reply .taskFence corrId 404 [])
    | some t =>
      if t.state ≠ .acquired ∨ t.version ≠ versionOf req then
        (s, reply .taskFence corrId 409 [])
      else
        match s.fenceInner now corrId req with
        | (s, .error e) => (s, .error e)
        | (s, .ok inner) =>
          let promise := (inner.get "promise").getD .null
          (s, reply .taskFence corrId 200
            [("action", .obj [("data", .obj [("promise", promise)])]),
              ("preload", .arr (s.preload id))])

def registerAwaiter (taskId : String) (s : ServerState) (awaited : String) : ServerState :=
  if s.isPending awaited then
    { s with promises := HashMap.modify s.promises awaited fun p =>
      { p with awaiters := p.awaiters.insert taskId } }
  else s

def isSettled (s : ServerState) (id : String) : Bool :=
  (s.promises.lookup id).any fun p => p.state ≠ .pending

def clearResumes (s : ServerState) (id : String) : ServerState :=
  { s with tasks := HashMap.modify s.tasks id fun t => { t with resumes := [] } }

def suspend (s : ServerState) (id : String) : ServerState :=
  { s with tasks := HashMap.modify s.tasks id suspendTask }.delTTimeout id

def taskSuspend (s : ServerState) (corrId req : Json) : ServerState × Reply :=
  match requireStr req "id" with
  | .error e => (s, .error e)
  | .ok id =>
    match s.tasks.lookup id with
    | none => (s, reply .taskSuspend corrId 404 [])
    | some t =>
      if t.state ≠ .acquired then (s, reply .taskSuspend corrId 409 [])
      else if t.resumes ≠ [] then
        let s := s.clearResumes id
        (s, reply .taskSuspend corrId 300
          [("redirect", .bool true), ("preload", .arr (s.preload id))])
      else
        let callbacks := callbacksOf req
        let anySettled := callbacks.any s.isSettled
        let s := callbacks.foldl (registerAwaiter id) s
        if anySettled then
          (s, reply .taskSuspend corrId 300
            [("redirect", .bool true), ("preload", .arr (s.preload id))])
        else
          (s.suspend id, reply .taskSuspend corrId 200 [])

def renewLease (s : ServerState) (id : String) (t : Task) (now : Int) : ServerState :=
  s.setTTimeout id 1 (saturatingAdd now (t.ttl.getD 30000))

/-- One entry of a heartbeat: an acquired task of this process at the given
version (any version when none is given) has its lease extended. -/
def heartbeatOne (s : ServerState) (now : Int) (pid id : String) (version : Option Int) :
    ServerState :=
  match s.tasks.lookup id with
  | none => s
  | some t =>
    if t.state = .acquired ∧ t.pid = some pid ∧ version.all (· = t.version) then
      s.renewLease id t now
    else s

def heartbeatAll (s : ServerState) (now : Int) (pid : String) :
    List Json → ServerState × Except Error Unit
  | [] => (s, .ok ())
  | ref :: refs =>
    match requireStr ref "id" with
    | .error e => (s, .error e)
    | .ok id =>
      (s.heartbeatOne now pid id ((ref.get "version").bind Json.asI64)).heartbeatAll now pid refs

def taskHeartbeat (s : ServerState) (now : Int) (corrId req : Json) : ServerState × Reply :=
  match requireStr req "pid" with
  | .error e => (s, .error e)
  | .ok pid =>
    match s.heartbeatAll now pid (((req.get "tasks").bind Json.asArray).getD []) with
    | (s, .error e) => (s, .error e)
    | (s, .ok ()) => (s, reply .taskHeartbeat corrId 200 [])

def scheduleOf (req : Json) (id cron promiseId : String) (now : Int) : ScheduleStub :=
  { id, cron, promiseId, promiseTimeout := ((req.get "promiseTimeout").bind Json.asI64).getD 0
    promiseParam := (req.get "promiseParam").getD .null
    promiseTags := (req.get "promiseTags").getD (.obj []), createdAt := now }

def scheduleCreate (s : ServerState) (now : Int) (corrId req : Json) : ServerState × Reply :=
  match requireStr req "id" with
  | .error e => (s, .error e)
  | .ok id =>
    let hasTarget := (((req.get "promiseTags").bind Json.asObject).bind
      (·.lookup "resonate:target")).isSome
    if !hasTarget then
      (s, reply .scheduleCreate corrId 400
        [("error", .str "promiseTags must include a resonate:target tag")])
    else
      match s.schedules.lookup id with
      | some existing =>
        (s, reply .scheduleCreate corrId 200 [("schedule", existing.toRecord)])
      | none =>
        match requireStr req "cron" with
        | .error e => (s, .error e)
        | .ok cron =>
          match requireStr req "promiseId" with
          | .error e => (s, .error e)
          | .ok promiseId =>
            let stub := scheduleOf req id cron promiseId now
            ({ s with schedules := s.schedules.insert id stub },
              reply .scheduleCreate corrId 201 [("schedule", stub.toRecord)])

def scheduleGet (s : ServerState) (corrId req : Json) : ServerState × Reply :=
  match requireStr req "id" with
  | .error e => (s, .error e)
  | .ok id =>
    match s.schedules.lookup id with
    | some stub => (s, reply .scheduleGet corrId 200 [("schedule", stub.toRecord)])
    | none => (s, reply .scheduleGet corrId 404 [("error", .str s!"schedule {id} not found")])

def scheduleDelete (s : ServerState) (corrId req : Json) : ServerState × Reply :=
  match requireStr req "id" with
  | .error e => (s, .error e)
  | .ok id =>
    match s.schedules.lookup id with
    | some _ => ({ s with schedules := s.schedules.erase id }, reply .scheduleDelete corrId 200 [])
    | none =>
      (s, reply .scheduleDelete corrId 404 [("error", .str s!"schedule {id} not found")])

def scheduleSearch (s : ServerState) (corrId : Json) : ServerState × Reply :=
  (s, reply .scheduleSearch corrId 200
    [("schedules", .arr ((HashMap.values s.schedules).map ScheduleStub.toRecord)),
      ("cursor", .null)])

def autoTimeouts (s : ServerState) (now : Int) (ids : List String) : ServerState :=
  ids.foldl (fun s id => s.tryAutoTimeout now id) s

def dispatch (s : ServerState) (now : Int) (corrId req : Json) : ReqKind → ServerState × Reply
  | .promiseGet => s.promiseGet corrId req
  | .promiseCreate => s.promiseCreate now corrId req
  | .promiseSettle => s.promiseSettle now corrId req
  | .promiseRegisterListener => s.promiseRegisterListener corrId req
  | .taskCreate => s.taskCreate now corrId req
  | .taskAcquire => s.taskAcquire now corrId req
  | .taskRelease => s.taskRelease now corrId req
  | .taskFulfill => s.taskFulfill now corrId req
  | .taskFence => s.taskFence now corrId req
  | .taskSuspend => s.taskSuspend corrId req
  | .taskHeartbeat => s.taskHeartbeat now corrId req
  | .scheduleCreate => s.scheduleCreate now corrId req
  | .scheduleGet => s.scheduleGet corrId req
  | .scheduleDelete => s.scheduleDelete corrId req
  | .scheduleSearch => s.scheduleSearch corrId

/-- The state in which the handler of a request runs. -/
def prepared (s : ServerState) (now : Int) (req : Json) : ServerState :=
  { s with outgoing := [] }.autoTimeouts now (namedPromises (ReqKind.ofName (kindOf req)) req)

def apply (s : ServerState) (now : Int) (req : Json) : ServerState × Reply :=
  let corrId := (req.get "corrId").getD .null
  match ReqKind.ofName (kindOf req) with
  | some kind => (s.prepared now req).dispatch now corrId req kind
  | none => (s.prepared now req, .error (.serverError 400 s!"unknown request kind: {kindOf req}"))

def tickExpire (s : ServerState) (id : String) : ServerState :=
  let f := fun p => { expireRecord p with value := .null }
  { s with promises := HashMap.modify s.promises id f }.delPTimeout id

/-- Phase 1 of `tick`: settle one expired promise, without its settlement chain. -/
def tickSettle (s : ServerState) (id : String) : ServerState :=
  if s.isPending id then s.tickExpire id else s

def tickNotify (now : Int) (s : ServerState) (id : String) : ServerState :=
  (s.resumeAwaiters id now).notifySubscribers id

/-- Phase 4 of `tick`: end a lease that has expired, if it is still the same one. -/
def tickRelease (now : Int) (s : ServerState) (lease : String × Int) : ServerState :=
  match s.tasks.lookup lease.1 with
  | some t => if t.state = .acquired ∧ t.version = lease.2 then s.endLease lease.1 t now else s
  | none => s

def rearm (s : ServerState) (id : String) (t : Task) (now : Int) : ServerState :=
  (s.setTTimeout id 0 (wrapAdd now pendingRetryTtl)).sendExecute id t.version

/-- Phase 5 of `tick`: re-arm and re-send a task that is still pending. -/
def tickRetry (now : Int) (s : ServerState) (id : String) : ServerState :=
  match s.tasks.lookup id with
  | some t =>
    if t.state = .pending then s.rearm id t now else s
  | none => s

def duePromises (s : ServerState) (now : Int) : List String :=
  (s.pTimeouts.filter fun pt => pt.timeout ≤ now ∧ s.isPending pt.id).map PTimeout.id

def dueReleases (s : ServerState) (now : Int) : List (String × Int) :=
  s.tTimeouts.filterMap fun tt =>
    if tt.timeout ≤ now ∧ tt.typ = 1 then
      (s.tasks.lookup tt.id).bind fun t =>
        if t.state = .acquired then some (tt.id, t.version) else none
    else none

def dueRetries (s : ServerState) (now : Int) : List String :=
  s.tTimeouts.filterMap fun tt =>
    if tt.timeout ≤ now ∧ tt.typ = 0 then
      (s.tasks.lookup tt.id).bind fun t => if t.state = .pending then some tt.id else none
    else none

def tickPromises (s : ServerState) (now : Int) : ServerState :=
  let ids := s.duePromises now
  let s := ids.foldl tickSettle s
  let s := ids.foldl enqueueSettle s
  ids.foldl (tickNotify now) s

def tick (s : ServerState) (now : Int) : ServerState :=
  let releases := s.dueReleases now
  let retries := s.dueRetries now
  let s := s.tickPromises now
  let s := releases.foldl (tickRelease now) s
  retries.foldl (tickRetry now) s

end ServerState

end Resonate.Network
