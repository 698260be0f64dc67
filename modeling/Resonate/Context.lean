import Resonate.Commands
import Resonate.Codec
import Resonate.Ids

/-!
# Contexts and calls

`context.rs`. A workflow function is a `Body`: what it does next depends on the
results of its calls so far. `Body.exec` is its execution in a context, by
continuation: the code after a call is the rest of the body. A call inside a
spawned child runs on the child's own task, everything else on the task of the
context. A function that panics drops its contexts and everything after it.
-/

namespace Resonate
open Lib Lib.ForkJoin

inductive DurableKind where
  | function | workflow
deriving DecidableEq

structure Fn where
  name : String
  kind : DurableKind
  ty : Ty

/-- What the executions of a worker share: the target resolver, the hash of
detached ids, the codec. -/
structure Sdk where
  targetResolver : Option String → String
  hashId : String → String
  codec : Codec

inductive Remote where
  | rpc (ty : Ty) (func : String) (args : Except String Json) (timeout : Option ℕ)
      (target : Option String)
  | sleep (ty : Ty) (duration : ℕ)
  | promise (ty : Ty) (timeout : Option ℕ) (param : Value)

def Remote.ty : Remote → Ty
  | rpc ty .. | sleep ty _ | promise ty .. => ty

structure Handle where
  id : String
  slot : Slot
  task : ℕ

/-- A workflow function from some point on. `next` builds a call, which takes the
next call number; the other constructors are terminal operations on a call. -/
inductive Body where
  | ret (result : Except Error Json)
  | panic (msg : String)
  | user (k : Json → Body)
  | next (k : ℕ → Body)
  | run (seq : ℕ) (fn : Fn) (args : Except String Json) (timeout : Option ℕ) (child : Body)
      (k : Except Error Json → Body)
  | spawn (seq : ℕ) (fn : Fn) (args : Except String Json) (timeout : Option ℕ) (child : Body)
      (k : Except Error Handle → Body)
  | await (seq : ℕ) (call : Remote) (k : Except Error Json → Body)
  | start (seq : ℕ) (call : Remote) (k : Except Error Handle → Body)
  | detach (seq : ℕ) (func : String) (args : Except String Json) (timeout : Option ℕ)
      (target : Option String) (k : Except Error Handle → Body)
  | join (h : Handle) (k : Except Error Json → Body)
  | handleId (h : Handle) (k : Except Error String → Body)

/-- The state of a `Context`: its identity, the next call number, the number of
slots claimed, the remote todos and the spawned tasks. `position` is the path of
calls that leads to it. -/
structure Context where
  id : String
  originId : String
  branchId : String
  parentId : String
  funcName : String
  timeoutAt : Int
  position : Position
  seq : ℕ
  slots : ℕ
  remoteTodos : List String
  spawnedHandles : List (String × ℕ)

namespace Context

def root (id originId funcName : String) (timeoutAt : Int) : Context :=
  { id, originId, branchId := id, parentId := "", funcName, timeoutAt, position := []
    seq := 0, slots := 0, remoteTodos := [], spawnedHandles := [] }

variable (c : Context)

def child (id funcName : String) (timeoutAt : Int) (call : Call) : Context :=
  { id, originId := c.originId, branchId := id, parentId := c.id, funcName, timeoutAt
    position := c.position ++ [call], seq := 0, slots := 0, remoteTodos := []
    spawnedHandles := [] }

def callId (seq : ℕ) : String := joinId c.id (toString seq)

def advance : Context := { c with seq := (c.seq + 1) % 2 ^ 32 }

def slot : Slot := ⟨c.position, c.slots⟩

def claimSlot : Context := { c with slots := c.slots + 1 }

def defaultTimeout : ℕ := 86400000

/-- `as_millis() as i64`, then a saturating sum, capped by the parent's deadline. -/
def childTimeout (now : Int) (requested : Option ℕ) : Int :=
  let timeout : Int := ((requested.getD defaultTimeout : ℕ) : Int).bmod (2 ^ 64)
  min (saturatingAdd now timeout) c.timeoutAt

def childTags (scope branch parent : String) : HashMap String :=
  [⟨"resonate:scope", scope⟩, ⟨"resonate:branch", branch⟩, ⟨"resonate:parent", parent⟩,
    ⟨"resonate:origin", c.originId⟩].toAList

def localCreateReq (id : String) (args : Except String Json) (timeout : Option ℕ) (now : Int) :
    Except Error PromiseCreateReq := do
  let timeoutAt := c.childTimeout now timeout
  let param ← serde args
  return { id, timeoutAt, param := { data := some param }
           tags := c.childTags "local" c.branchId c.id }

def taskData (func : String) (args : Json) : Value :=
  { data := some (.obj [("func", .str func), ("args", args)]) }

def remoteCreateReq (sdk : Sdk) (id func parent : String) (args : Except String Json)
    (timeout : Option ℕ) (target : Option String) (now : Int) : Except Error PromiseCreateReq := do
  let tags := (c.childTags "global" id parent).insert "resonate:target" (sdk.targetResolver target)
  let timeoutAt := c.childTimeout now timeout
  let args ← serde args
  return { id, timeoutAt, param := taskData func args, tags }

def promiseCreateReq (id : String) (timeout : Option ℕ) (param : Value) (now : Int) :
    PromiseCreateReq :=
  { id, timeoutAt := c.childTimeout now timeout, param, tags := c.childTags "global" id c.id }

def sleepCreateReq (sdk : Sdk) (id : String) (duration : ℕ) (now : Int) : PromiseCreateReq :=
  { id, timeoutAt := c.childTimeout now (some duration), param := {}
    tags := ((c.childTags "global" id c.id).insert "resonate:timer" "true").insert
      "resonate:target" (sdk.targetResolver none) }

/-- An argument that does not serialize is reported by the terminal operation. -/
def checkSerialization (req : Except Error PromiseCreateReq) : Except Error PromiseCreateReq :=
  match req with
  | .ok req => .ok req
  | .error e => .error (.encodingError s!"failed to serialize args: {e.text}")

def remoteReq (sdk : Sdk) (id : String) (now : Int) : Remote → Except Error PromiseCreateReq
  | .rpc _ func args timeout target =>
    checkSerialization (c.remoteCreateReq sdk id func c.id args timeout target now)
  | .sleep _ duration => .ok (c.sleepCreateReq sdk id duration now)
  | .promise _ timeout param => .ok (c.promiseCreateReq id timeout param now)

def detachedId (sdk : Sdk) (seq : ℕ) : String :=
  joinId c.originId ("d" ++ sdk.hashId (c.callId seq))

def detachedReq (sdk : Sdk) (seq : ℕ) (func : String) (args : Except String Json)
    (timeout : Option ℕ) (target : Option String) (now : Int) : Except Error PromiseCreateReq :=
  checkSerialization
    (c.remoteCreateReq sdk (c.detachedId sdk seq) func c.originId args timeout target now)

end Context

def duplicateError (e : Error) : Error := .application e.text

/-- `flush_local_work`: every spawned task is awaited, a panic is ignored, and
the first error wins over the todos. -/
def flushLocalWork : List (String × ℕ) → List String → Option Error →
    (Except Error (List String) → Prog) → Prog
  | [], todos, none, k => k (.ok todos)
  | [], _, some e, k => k (.error e)
  | (_, h) :: hs, todos, err, k => .join h fun o =>
    match o with
    | .finished _ (.done (.ok _)) => flushLocalWork hs todos err k
    | .finished _ (.done (.error e)) => flushLocalWork hs todos (err.orElse fun _ => some e) k
    | .finished _ (.suspended childTodos) => flushLocalWork hs (todos ++ childTodos) err k
    | _ => flushLocalWork hs todos err k

def Context.collectRemoteTodos (c : Context) (k : Except Error (List String) → Prog) : Prog :=
  flushLocalWork c.spawnedHandles [] none fun spawned => k (spawned.map (c.remoteTodos ++ ·))

/-- The promise of a handle's task dropped without a result. -/
def recv (id : String) : End → Except Error Json
  | .finished (some result) _ => result
  | _ => .error (.joinError s!"task {id} was dropped")

section Calls

variable (sdk : Sdk) (ty : Ty)

def executeChild (kind : DurableKind) (id : String)
    (leaf : (Except Error Json → Prog) → Prog)
    (workflow : (Context → Except Error Json → Prog) → Prog)
    (k : Except Error Json → Except Error (List String) → Prog) : Prog :=
  .call (.execute id) fun _ =>
    match kind with
    | .function => leaf fun result => k result (.ok [])
    | .workflow => workflow fun c result => c.collectRemoteTodos (k result)

/-- `RunTask::into_future` from its slot on. The continuation is given the todos
to hoist and the result. -/
def runIntoFuture (position : Position) (slot : Slot) (req : PromiseCreateReq)
    (execute : PromiseRecord → (Except Error Json → Except Error (List String) → Prog) → Prog)
    (k : List String → Except Error Json → Prog) : Prog :=
  .call (.create .run position slot req) fun
  | .error e => k [] (.error e)
  | .ok record =>
    match record.asResult sdk.codec ty with
    | some result => k [] result
    | none => execute record fun result todos =>
      match todos with
      | .error e => k [] (.error e)
      | .ok [] => .call (.settle position req.id (result.map ty.toValue)) fun
        | .error e => k [] (.error e)
        | .ok _ => k [] result
      | .ok todos => k todos result

def isSuspended : Except Error Json → Bool
  | .error .suspended => true
  | _ => false

def finishSpawned (position : Position) (id : String) (result : Except Error Json) :
    Except Error (List String) → Prog
  | .error e => .ret (.finished (some (.error (duplicateError e))) (.done (.error e)))
  | .ok todos =>
    if isSuspended result then .ret (.finished (some (.error .suspended)) (.suspended todos))
    else match todos with
    | [] => .call (.settle position id (result.map ty.toValue)) fun _ =>
      .ret (.finished (some result) (.done (.ok ())))
    | todos => .ret (.finished (some (.error .suspended)) (.suspended todos))

/-- `spawn_sequenced`: the task of a spawned call. -/
def spawnSequenced (kind : CallKind) (position : Position) (slot : Slot) (req : PromiseCreateReq)
    (onCreated : PromiseRecord → Prog) : Prog :=
  .call (.create kind position slot req) fun
  | .error e => .ret (.finished (some (.error (duplicateError e))) (.done (.error e)))
  | .ok record => onCreated record

def spawnedRun (position : Position) (id : String)
    (execute : PromiseRecord → (Except Error Json → Except Error (List String) → Prog) → Prog)
    (record : PromiseRecord) : Prog :=
  match record.state with
  | .resolved =>
    match serde (ty.ofValue record.value.dataOrNull) with
    | .ok v => .ret (.finished (some (.ok v)) (.done (.ok ())))
    | .error e => .ret (.finished (some (.error (duplicateError e))) (.done (.error e)))
  | .pending => execute record (finishSpawned ty position id)
  | _ => .ret (.finished (some (.error (sdk.codec.deserializeError record.value.dataOrNull)))
      (.done (.ok ())))

def spawnedRemote (id : String) (record : PromiseRecord) : Prog :=
  match record.asResult sdk.codec ty with
  | some result => .ret (.finished (some result) (.done (.ok ())))
  | none => .ret (.finished (some (.error .suspended)) (.suspended [id]))

/-- `block_on_remote` from its slot on, with the todos it registers. -/
def blockOnRemote (position : Position) (slot : Slot) (req : PromiseCreateReq)
    (k : List String → Except Error Json → Prog) : Prog :=
  .call (.create .remote position slot req) fun
  | .error e => k [] (.error e)
  | .ok record =>
    match record.asResult sdk.codec ty with
    | some result => k [] result
    | none => k [req.id] (.error .suspended)

end Calls

namespace Body

/-- A leaf function: it has no context to call, and panics if it asks for one. -/
def leaf (panicked : String → Prog) : Body → (Except Error Json → Prog) → Prog
  | ret result, k => k result
  | panic msg, _ => .call (.panic msg) fun _ => panicked msg
  | user f, k => .call .user fun a => (f a).leaf panicked k
  | _, _ =>
    let msg := "expected Workflow ExecutionEnv, got Function"
    .call (.panic msg) fun _ => panicked msg

def exec (sdk : Sdk) (panicked : String → Prog) :
    Body → Context → (Context → Except Error Json → Prog) → Prog
  | ret result, c, k => k c result
  | panic msg, _, _ => .call (.panic msg) fun _ => panicked msg
  | user f, c, k => .call .user fun a => (f a).exec sdk panicked c k
  | next f, c, k => (f c.seq).exec sdk panicked c.advance k
  | run seq fn args timeout child f, c, k => .call .now fun now =>
    match c.localCreateReq (c.callId seq) args timeout now with
    | .error e => (f (.error e)).exec sdk panicked c k
    | .ok req =>
      runIntoFuture sdk fn.ty (c.position ++ [⟨seq, false⟩]) c.slot req
        (fun record => executeChild fn.kind req.id (child.leaf panicked)
          (child.exec sdk panicked (c.child req.id fn.name record.timeoutAt ⟨seq, false⟩)))
        fun todos result => (f result).exec sdk panicked
          { c.claimSlot with remoteTodos := c.remoteTodos ++ todos } k
  | spawn seq fn args timeout child f, c, k => .call .now fun now =>
    match c.localCreateReq (c.callId seq) args timeout now with
    | .error e => (f (.error e)).exec sdk panicked c k
    | .ok req =>
      .fork (spawnSequenced .run (c.position ++ [⟨seq, true⟩]) c.slot req
          (spawnedRun sdk fn.ty (c.position ++ [⟨seq, true⟩]) req.id fun record =>
            executeChild fn.kind req.id (child.leaf fun _ => .ret .panicked)
              (child.exec sdk (fun _ => .ret .panicked)
                (c.child req.id fn.name record.timeoutAt ⟨seq, true⟩))))
        fun task => (f (.ok ⟨req.id, c.slot, task⟩)).exec sdk panicked
          { c.claimSlot with spawnedHandles := c.spawnedHandles ++ [(req.id, task)] } k
  | await seq call f, c, k => .call .now fun now =>
    match c.remoteReq sdk (c.callId seq) now call with
    | .error e => (f (.error e)).exec sdk panicked c k
    | .ok req =>
      blockOnRemote sdk call.ty (c.position ++ [⟨seq, false⟩]) c.slot req
        fun todos result => (f result).exec sdk panicked
          { c.claimSlot with remoteTodos := c.remoteTodos ++ todos } k
  | start seq call f, c, k => .call .now fun now =>
    match c.remoteReq sdk (c.callId seq) now call with
    | .error e => (f (.error e)).exec sdk panicked c k
    | .ok req =>
      .fork (spawnSequenced .remote (c.position ++ [⟨seq, true⟩]) c.slot req
          (spawnedRemote sdk call.ty req.id))
        fun task => (f (.ok ⟨req.id, c.slot, task⟩)).exec sdk panicked
          { c.claimSlot with spawnedHandles := c.spawnedHandles ++ [(req.id, task)] } k
  | detach seq func args timeout target f, c, k => .call .now fun now =>
    match c.detachedReq sdk seq func args timeout target now with
    | .error e => (f (.error e)).exec sdk panicked c k
    | .ok req =>
      .fork (spawnSequenced .detached (c.position ++ [⟨seq, true⟩]) c.slot req
          fun _ => .ret (.finished none (.done (.ok ()))))
        fun task => (f (.ok ⟨req.id, c.slot, task⟩)).exec sdk panicked
          { c.claimSlot with spawnedHandles := c.spawnedHandles ++ [(req.id, task)] } k
  | join h f, c, k => .join h.task fun o => (f (recv h.id o)).exec sdk panicked c k
  | handleId h f, c, k => .call (.created h.slot h.id) fun r => (f r).exec sdk panicked c k

end Body

end Resonate
