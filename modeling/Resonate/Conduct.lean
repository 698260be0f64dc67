import Resonate.Lib.Contracts
import Resonate.Core

/-!
# How handlings conduct themselves

Whatever its functions do and whatever it is answered, the handling of a task names its own
task and lease in every request, begins an execution with a preload it was given, and executes
a child only after the creation of the child's promise was answered with a pending record.
-/

namespace Resonate
open Lib Lib.ForkJoin

def Conforms (T : Terms Cmd Cmd.Answer) (p : Prog) : Prop := ∀ known, p.Meets T known fun _ => True

def Cmd.Free : Cmd → Prop
  | now | user | panic _ | create .. | created .. | settle .. => True
  | _ => False

/-- What a handling under the lease `(taskId, version)` does, with preloads that satisfy `P`. -/
structure Conduct (T : Terms Cmd Cmd.Answer) (taskId : String) (version : Int)
    (P : List PromiseRecord → Prop) : Prop where
  free : ∀ c, c.Free → T.Pre c
  execute : ∀ kind p slot req (r : PromiseRecord),
    T.Post (.create kind p slot req) (.ok r : Except Error PromiseRecord) → r.state = .pending →
      T.Pre (.execute req.id)
  effects : ∀ preload, P preload → T.Pre (.effects taskId version preload)
  fulfill : ∀ state value, T.Pre (.fulfill taskId version ⟨taskId, state, value⟩)
  suspend : ∀ actions, T.Pre (.suspend taskId version actions)
  redirect : ∀ actions preload, T.Post (.suspend taskId version actions)
    (.ok (.redirect preload) : Except Error SuspendResult) → P preload
  release : T.Pre (.release taskId version)
  heartbeat : T.Pre (.heartbeatStart taskId version) ∧ T.Pre (.heartbeatStop taskId)

section Calls

variable {T : Terms Cmd Cmd.Answer} {taskId : String} {version : Int} {P : List PromiseRecord → Prop}
  {sdk : Sdk} {ty : Ty} {position : Position} {slot : Slot} {req : PromiseCreateReq}

theorem Conforms.free {c : Cmd} {k : c.Answer → Prog} (hT : Conduct T taskId version P) (hc : c.Free)
    (hk : ∀ a, Conforms T (k a)) : Conforms T (.call c k) :=
  fun known => ⟨hT.free c hc, fun a _ => hk a known⟩

theorem conforms_ret (o : End) : Conforms T (.ret o) := fun _ => trivial

theorem flushLocalWork_conforms {k : Except Error (List String) → Prog} (hs : List (String × ℕ))
    (todos : List String) (err : Option Error) (hk : ∀ x, Conforms T (k x)) :
    Conforms T (flushLocalWork hs todos err k) := by
  induction hs generalizing todos err with
  | nil => cases err <;> exact hk _
  | cons h hs ih =>
    intro known o _
    dsimp only
    split <;> exact ih _ _ _

theorem collectRemoteTodos_conforms {c : Context} {k : Except Error (List String) → Prog}
    (hk : ∀ x, Conforms T (k x)) : Conforms T (c.collectRemoteTodos k) :=
  flushLocalWork_conforms _ _ _ fun _ => hk _

theorem leaf_conforms (hT : Conduct T taskId version P) {panicked : String → Prog} (b : Body)
    {k : Except Error Json → Prog} (hp : ∀ msg, Conforms T (panicked msg))
    (hk : ∀ r, Conforms T (k r)) : Conforms T (b.leaf panicked k) := by
  induction b with
  | ret result => exact hk result
  | user f ih => exact .free hT trivial fun a => ih a
  | _ => exact .free hT trivial fun _ => hp _

theorem executeChild_conforms {kind : DurableKind} {id : String}
    {leaf : (Except Error Json → Prog) → Prog}
    {workflow : (Context → Except Error Json → Prog) → Prog}
    {k : Except Error Json → Except Error (List String) → Prog} (hid : T.Pre (.execute id))
    (hleaf : ∀ m, (∀ r, Conforms T (m r)) → Conforms T (leaf m))
    (hflow : ∀ m, (∀ c r, Conforms T (m c r)) → Conforms T (workflow m))
    (hk : ∀ r x, Conforms T (k r x)) : Conforms T (executeChild kind id leaf workflow k) := by
  refine fun known => ⟨hid, fun _ _ => ?_⟩
  cases kind with
  | function => exact hleaf _ (fun r => hk r _) known
  | workflow => exact hflow _ (fun c r => collectRemoteTodos_conforms (hk r)) known

def ExecutesPending (T : Terms Cmd Cmd.Answer) (id : String)
    (execute : PromiseRecord → (Except Error Json → Except Error (List String) → Prog) → Prog) :
    Prop :=
  T.Pre (.execute id) → ∀ record m, (∀ r x, Conforms T (m r x)) → Conforms T (execute record m)

theorem runIntoFuture_conforms (hT : Conduct T taskId version P)
    {execute : PromiseRecord → (Except Error Json → Except Error (List String) → Prog) → Prog}
    {k : List String → Except Error Json → Prog} (hexec : ExecutesPending T req.id execute)
    (hk : ∀ todos r, Conforms T (k todos r)) :
    Conforms T (runIntoFuture sdk ty position slot req execute k) := by
  refine fun known => ⟨hT.free _ trivial, fun a ha => ?_⟩
  cases a with
  | error e => exact hk _ _ known
  | ok record =>
    dsimp only
    split
    · exact hk _ _ known
    · rename_i hnone
      refine hexec (hT.execute _ _ _ _ record ha (PromiseRecord.asResult_eq_none.mp hnone)) record _
        (fun result todos => ?_) known
      split
      · exact hk _ _
      · refine .free hT trivial fun answer => ?_
        cases answer with
        | error e => exact hk _ _
        | ok _ => exact hk _ _
      · exact hk _ _

theorem blockOnRemote_conforms (hT : Conduct T taskId version P)
    {k : List String → Except Error Json → Prog} (hk : ∀ todos r, Conforms T (k todos r)) :
    Conforms T (blockOnRemote sdk ty position slot req k) := by
  refine .free hT trivial fun a => ?_
  cases a with
  | error e => exact hk _ _
  | ok record =>
    dsimp only
    split <;> exact hk _ _

theorem finishSpawned_conforms (hT : Conduct T taskId version P) {id : String}
    (result : Except Error Json) (todos : Except Error (List String)) :
    Conforms T (finishSpawned ty position id result todos) := by
  cases todos with
  | error e => exact conforms_ret _
  | ok todos =>
    unfold finishSpawned
    dsimp only
    split_ifs
    · exact conforms_ret _
    · split
      · exact .free hT trivial fun _ => conforms_ret _
      · exact conforms_ret _

theorem spawnSequenced_conforms (hT : Conduct T taskId version P) {kind : CallKind}
    {onCreated : PromiseRecord → Prog}
    (hk : ∀ record, (record.state = .pending → T.Pre (.execute req.id)) →
      Conforms T (onCreated record)) :
    Conforms T (spawnSequenced kind position slot req onCreated) := by
  refine fun known => ⟨hT.free _ trivial, fun a ha => ?_⟩
  cases a with
  | error e => exact conforms_ret _ known
  | ok record => exact hk record (hT.execute _ _ _ _ record ha) known

theorem spawnedRun_conforms (hT : Conduct T taskId version P)
    {execute : PromiseRecord → (Except Error Json → Except Error (List String) → Prog) → Prog}
    {record : PromiseRecord} (hexec : ExecutesPending T req.id execute)
    (hrec : record.state = .pending → T.Pre (.execute req.id)) :
    Conforms T (spawnedRun sdk ty position req.id execute record) := by
  unfold spawnedRun
  split
  · split <;> exact conforms_ret _
  · rename_i hst
    exact hexec (hrec hst) record _ (finishSpawned_conforms hT)
  · exact conforms_ret _

theorem spawnedRemote_conforms {id : String} (record : PromiseRecord) :
    Conforms T (spawnedRemote sdk ty id record) := by
  unfold spawnedRemote
  split <;> exact conforms_ret _

theorem fork_conforms {child : Prog} {k : ℕ → Prog} (hc : Conforms T child)
    (hk : ∀ n, Conforms T (k n)) : Conforms T (.fork child k) :=
  fun _ => ⟨fun _ => True, hc _, fun n _ => hk n _⟩

theorem Body.exec_conforms (hT : Conduct T taskId version P) (b : Body) {panicked : String → Prog}
    {k : Context → Except Error Json → Prog} {c : Context} (hp : ∀ msg, Conforms T (panicked msg))
    (hk : ∀ c r, Conforms T (k c r)) : Conforms T (b.exec sdk panicked c k) := by
  induction b generalizing c panicked k with
  | ret result => exact hk c result
  | panic msg => exact .free hT trivial fun _ => hp msg
  | user f ih => exact .free hT trivial fun a => ih a hp hk
  | next f ih => exact ih c.seq hp hk
  | run seq fn args timeout child f ihc ih =>
    rw [exec]
    refine .free hT trivial fun now => ?_
    dsimp only
    split
    · exact ih _ hp hk
    · refine runIntoFuture_conforms hT (fun hid record m hm => ?_) fun todos r => ih r hp hk
      exact executeChild_conforms hid (fun m' hm' => leaf_conforms hT child hp hm')
        (fun m' hm' => ihc hp hm') hm
  | spawn seq fn args timeout child f ihc ih =>
    rw [exec]
    refine .free hT trivial fun now => ?_
    dsimp only
    split
    · exact ih _ hp hk
    · refine fork_conforms (spawnSequenced_conforms hT fun record hrec =>
        spawnedRun_conforms hT (fun hid record m hm => ?_) hrec) fun n => ih _ hp hk
      exact executeChild_conforms hid (fun m' hm' => leaf_conforms hT child
        (fun _ => conforms_ret _) hm') (fun m' hm' => ihc (fun _ => conforms_ret _) hm') hm
  | await seq call f ih =>
    rw [exec]
    refine .free hT trivial fun now => ?_
    dsimp only
    split
    · exact ih _ hp hk
    · exact blockOnRemote_conforms hT fun todos r => ih r hp hk
  | start seq call f ih =>
    rw [exec]
    refine .free hT trivial fun now => ?_
    dsimp only
    split
    · exact ih _ hp hk
    · exact fork_conforms (spawnSequenced_conforms hT fun record _ => spawnedRemote_conforms record)
        fun n => ih _ hp hk
  | detach seq func args timeout target f ih =>
    rw [exec]
    refine .free hT trivial fun now => ?_
    dsimp only
    split
    · exact ih _ hp hk
    · exact fork_conforms (spawnSequenced_conforms hT fun record _ => conforms_ret _)
        fun n => ih _ hp hk
  | join h f ih => exact fun known o _ => ih _ hp hk _
  | handleId h f ih => exact .free hT trivial fun r => ih r hp hk

end Calls

namespace Core

variable {T : Terms Cmd Cmd.Answer} {P : List PromiseRecord → Prop} {core : Core} {taskId : String}
  {version : Int} {promise : PromiseRecord} {fuel : ℕ} {k : Except Error Status → Prog}
  {preload : List PromiseRecord}

theorem fulfillTask_conforms (hT : Conduct T taskId version P) (hid : promise.id = taskId)
    (state : SettleState) (value : Json) (hk : ∀ res, Conforms T (k res)) :
    Conforms T (core.fulfillTask taskId version promise state value (done k)) := by
  unfold fulfillTask
  split
  · exact hk _
  · refine fun known => ⟨by rw [hid]; exact hT.fulfill _ _, fun a _ => ?_⟩
    cases a with
    | error e => exact hk _ known
    | ok record => exact hk _ known

theorem execute_conforms (hT : Conduct T taskId version P) {entry : RegistryEntry} {data : TaskData}
    (hpre : P preload) {k : Except Error (Except Error Json × List String) → Prog}
    (hk : ∀ x, Conforms T (k x)) :
    Conforms T (core.execute taskId version promise entry data preload k) := by
  unfold execute
  dsimp only
  split
  · exact leaf_conforms hT _ (fun _ => hk _) fun _ => hk _
  · refine fun known => ⟨hT.effects preload hpre, fun _ _ => ?_⟩
    exact Body.exec_conforms hT _ (fun _ => hk _)
      (fun c r => collectRemoteTodos_conforms fun _ => hk _) known

theorem loop_conforms (hT : Conduct T taskId version P) (hid : promise.id = taskId)
    {entry : RegistryEntry} {data : TaskData} (hpre : P preload) (hk : ∀ res, Conforms T (k res)) :
    Conforms T (core.loop taskId version promise entry data k fuel preload) := by
  induction fuel generalizing preload with
  | zero => exact conforms_ret _
  | succ fuel ih =>
    rw [loop]
    refine execute_conforms hT hpre fun x => ?_
    split
    · exact hk _
    · exact fulfillTask_conforms hT hid _ _ hk
    · refine fun known => ⟨hT.suspend _, fun a ha => ?_⟩
      cases a with
      | error e => exact hk _ known
      | ok r =>
        cases r with
        | suspended => exact hk _ known
        | redirect preload => exact ih (hT.redirect _ preload ha) known

theorem executeUntilBlockedInner_conforms (hT : Conduct T taskId version P)
    (hid : promise.id = taskId) (hpre : P preload) (hk : ∀ res, Conforms T (k res)) :
    Conforms T (core.executeUntilBlockedInner taskId version promise fuel preload k) := by
  unfold executeUntilBlockedInner
  split
  · exact fulfillTask_conforms hT hid _ _ hk
  · split
    · exact hk _
    · split
      · exact hk _
      · split
        · exact fulfillTask_conforms hT hid _ _ hk
        · exact loop_conforms hT hid hpre hk

theorem executeUntilBlocked_conforms (hT : Conduct T taskId version P) (hid : promise.id = taskId)
    (hpre : P preload) :
    Conforms T (core.executeUntilBlocked taskId version promise fuel preload) := by
  unfold executeUntilBlocked
  split
  · exact conforms_ret _
  · refine fun known => ⟨hT.heartbeat.1, fun _ _ => ?_⟩
    refine executeUntilBlockedInner_conforms hT hid hpre (fun res known => ?_) known
    refine ⟨hT.heartbeat.2, fun _ _ => ?_⟩
    cases res with
    | ok status => exact conforms_ret _ known
    | error e => exact ⟨hT.release, fun _ _ => conforms_ret _ known⟩

/-- The handling of an execute message, from the acquisition on. -/
theorem onMessage_conforms (hT : ∀ version, Conduct T taskId version P)
    (hpre : T.Pre (.acquire taskId version core.pid core.ttl))
    (hpost : ∀ result, T.Post (.acquire taskId version core.pid core.ttl)
      (.ok result : Except Error TaskAcquireResult) →
        result.promise.id = taskId ∧ P result.preload) :
    Conforms T (core.onMessage taskId version fuel) := by
  refine fun known => ⟨hpre, fun a ha => ?_⟩
  cases a with
  | error e => exact conforms_ret _ known
  | ok result =>
    obtain ⟨hid, hp⟩ := hpost result ha
    dsimp only
    cases hdec : core.sdk.codec.decodePromise result.promise with
    | error e => exact conforms_ret _ known
    | ok promise =>
      have hpid : promise.id = taskId := (Codec.decodePromise_ok hdec).1.trans hid
      exact executeUntilBlocked_conforms (hT _) hpid hp known

end Core

end Resonate
