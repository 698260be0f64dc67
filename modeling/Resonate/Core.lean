import Resonate.Context

/-!
# The handling of a task

`core.rs`: acquire the task, run its function until it is done or blocked, then
fulfil or suspend the task, and release it on any error. A suspension that the
server answers with a redirect starts the function again on the new preload;
`fuel` bounds the number of executions. The checks that a debug build asserts
are left out, as in a release build.
-/

namespace Resonate
open Lib Lib.ForkJoin

structure RegistryEntry where
  kind : DurableKind
  func : Json → Body

structure Core where
  sdk : Sdk
  registry : String → Option RegistryEntry
  pid : String
  ttl : Int

structure TaskData where
  func : String
  args : Json

def TaskData.ofJson (v : Json) : Option TaskData :=
  let v := v.asFields ["func", "args"]
  ((v.get "func").bind Json.asStr).map fun func => ⟨func, (v.get "args").getD .null⟩

def PromiseRecord.isTimer (p : PromiseRecord) : Bool :=
  p.tags.lookup "resonate:timer" = some "true"

def settledState : PromiseState → SettleState
  | .resolved => .resolved
  | _ => .rejected

namespace Core

variable (core : Core) (taskId : String) (version : Int) (promise : PromiseRecord)

def fulfillTask (state : SettleState) (value : Json) (k : Except Error PromiseRecord → Prog) :
    Prog :=
  match core.sdk.codec.encode value with
  | .error e => k (.error e)
  | .ok value => .call (.fulfill taskId version ⟨promise.id, state, value⟩) k

def suspendTask (remoteTodos : List String) (k : Except Error SuspendResult → Prog) : Prog :=
  .call (.suspend taskId version (remoteTodos.map fun awaited => ⟨awaited, taskId⟩)) k

def done (k : Except Error Status → Prog) : Except Error PromiseRecord → Prog
  | .error e => k (.error e)
  | .ok _ => k (.ok .done)

def recorded : Except Error Json → SettleState × Json
  | .ok v => (.resolved, v)
  | .error e => (.rejected, encodeError e)

def rootContext (data : TaskData) : Context :=
  .root promise.id ((promise.tags.lookup "resonate:origin").getD (originOf promise.id)) data.func
    promise.timeoutAt

def execute (entry : RegistryEntry) (data : TaskData) (preload : List PromiseRecord)
    (k : Except Error (Except Error Json × List String) → Prog) : Prog :=
  let panicked := fun msg => k (.error (.application s!"user function panicked: {msg}"))
  match entry.kind with
  | .function => (entry.func data.args).leaf panicked fun result => k (.ok (result, []))
  | .workflow => .call (.effects taskId version preload) fun _ =>
    (entry.func data.args).exec core.sdk panicked (rootContext promise data) fun c result =>
      c.collectRemoteTodos fun todos => k (todos.map fun todos => (result, todos))

/-- The loop of `execute_until_blocked_inner`. -/
def loop (entry : RegistryEntry) (data : TaskData) (k : Except Error Status → Prog) :
    ℕ → List PromiseRecord → Prog
  | 0, _ => .ret .unfinished
  | fuel + 1, preload =>
    core.execute taskId version promise entry data preload fun
    | .error e => k (.error e)
    | .ok (result, []) =>
      core.fulfillTask taskId version promise (recorded result).1 (recorded result).2 (done k)
    | .ok (_, todos) => suspendTask taskId version todos fun
      | .error e => k (.error e)
      | .ok .suspended => k (.ok .suspended)
      | .ok (.redirect preload) => loop entry data k fuel preload

def executeUntilBlockedInner (fuel : ℕ) (preload : List PromiseRecord)
    (k : Except Error Status → Prog) : Prog :=
  if promise.isTimer ∧ promise.state ≠ .pending then
    core.fulfillTask taskId version promise (settledState promise.state) .null (done k)
  else
    match TaskData.ofJson promise.param.dataOrNull with
    | none => k (.error (.decodingError "invalid task data"))
    | some data =>
      match core.registry data.func with
      | none => k (.error (.functionNotFound data.func))
      | some entry =>
        if promise.state ≠ .pending then
          core.fulfillTask taskId version promise (settledState promise.state) .null (done k)
        else core.loop taskId version promise entry data k fuel preload

def executeUntilBlocked (fuel : ℕ) (preload : List PromiseRecord) : Prog :=
  if promise.isTimer ∧ promise.state = .pending then .ret (.returned (.ok .suspended))
  else
    .call (.heartbeatStart taskId version) fun _ =>
      core.executeUntilBlockedInner taskId version promise fuel preload fun result =>
        .call (.heartbeatStop taskId) fun _ =>
          match result with
          | .ok status => .ret (.returned (.ok status))
          | .error e => .call (.release taskId version) fun _ => .ret (.returned (.error e))

def onMessage (fuel : ℕ) : Prog :=
  .call (.acquire taskId version core.pid core.ttl) fun
  | .error e => .ret (.returned (.error e))
  | .ok result =>
    match core.sdk.codec.decodePromise result.promise with
    | .error e => .ret (.returned (.error e))
    | .ok promise => core.executeUntilBlocked taskId result.task.version promise fuel result.preload

end Core

end Resonate
