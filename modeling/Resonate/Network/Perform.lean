import Resonate.Network.Actions

/-!
# What an action does to promises and tasks

Two equations, `perform_promises` and `perform_tasks`: the record under an id
after an action, from the records before. A task that an action creates is new,
and every other action edits the task it finds.
-/

namespace Resonate.Network
open Lib

namespace ServerState

variable (now : Int) (s : ServerState)

def promiseAfter (a : String) : Act → Option DurablePromise
  | .expire id => if a = id then (s.promises.lookup a).map expireRecord else s.promises.lookup a
  | .tickExpire id =>
    if a = id then (s.promises.lookup a).map fun p => { expireRecord p with value := .null }
    else s.promises.lookup a
  | .settle id state value =>
    if a = id then (s.promises.lookup a).map (settleRecord state value now)
    else s.promises.lookup a
  | .enqueue id => (s.promises.lookup a).map fun p =>
    if s.withdraws id then { p with awaiters := p.awaiters.filter fun b => b ≠ id } else p
  | .wake id =>
    (s.promises.lookup a).map fun p =>
      if a = id then { p with awaiters := [], subscribers := [] } else p
  | .addExpired id req | .addFulfilled id req =>
    if a = id then some (expiredPromise id req) else s.promises.lookup a
  | .addPending id req | .addAcquired id req _ _ =>
    if a = id then some (pendingPromise id req now) else s.promises.lookup a
  | .register id awaited =>
    (s.promises.lookup a).map fun p =>
      if a = awaited ∧ p.state = .pending then { p with awaiters := p.awaiters.insert id } else p
  | .subscribe id address =>
    if a = id then
      (s.promises.lookup a).map fun p => { p with subscribers := p.subscribers.insert address }
    else s.promises.lookup a
  | _ => s.promises.lookup a

def taskAfter (a : String) : Act → Option Task
  | .enqueue id => if a = id then s.taskOfSettled id else s.tasks.lookup a
  | .wake id =>
    if a ∈ s.awaitersOf id then (s.tasks.lookup a).map (resumedTask id) else s.tasks.lookup a
  | .addPending id req =>
    if a = id ∧ ((extractTags req).lookup "resonate:target").isSome then
      some ⟨id, .pending, 0, none, none, []⟩
    else s.tasks.lookup a
  | .addFulfilled id _ => if a = id then some (fulfilledTask id) else s.tasks.lookup a
  | .addAcquired id _ pid ttl =>
    if a = id then some ⟨id, .acquired, 0, some pid, some ttl, []⟩ else s.tasks.lookup a
  | .grant id pid ttl =>
    if a = id then (s.tasks.lookup a).map (acquireTask pid ttl) else s.tasks.lookup a
  | .release id _ => if a = id then (s.tasks.lookup a).map releaseTask else s.tasks.lookup a
  | .clearResumes id =>
    if a = id then (s.tasks.lookup a).map fun t => { t with resumes := [] }
    else s.tasks.lookup a
  | .suspend id => if a = id then (s.tasks.lookup a).map suspendTask else s.tasks.lookup a
  | _ => s.tasks.lookup a

theorem createTargetTask_promises (id address : String) (tags : HashMap String) (t : Int) :
    (s.createTargetTask id address tags t now).promises = s.promises := by
  unfold createTargetTask
  dsimp only
  split <;> rfl

theorem createTargetTask_tasks (id address : String) (tags : HashMap String) (t : Int) :
    (s.createTargetTask id address tags t now).tasks =
      s.tasks.insert id ⟨id, .pending, 0, none, none, []⟩ := by
  unfold createTargetTask
  dsimp only
  split <;> rfl

theorem addPending_promises (id : String) (req : Json) :
    (s.addPending id req now).promises = s.promises.insert id (pendingPromise id req now) := by
  unfold addPending
  dsimp only
  split
  · rw [createTargetTask_promises]
  · rfl

theorem addPending_tasks (id : String) (req : Json) :
    (s.addPending id req now).tasks =
      if ((extractTags req).lookup "resonate:target").isSome then
        s.tasks.insert id ⟨id, .pending, 0, none, none, []⟩
      else s.tasks := by
  unfold addPending pendingPromise
  dsimp only
  split
  · rename_i h
    rw [createTargetTask_tasks]
    simp [h]
  · rename_i h
    simp [h]

theorem addAcquired_promises (id : String) (req : Json) (pid : String) (ttl : Int) :
    (s.addAcquired id req pid ttl now).promises =
      s.promises.insert id (pendingPromise id req now) := by
  unfold addAcquired
  dsimp only
  split_ifs <;> rfl

theorem addAcquired_tasks (id : String) (req : Json) (pid : String) (ttl : Int) :
    (s.addAcquired id req pid ttl now).tasks =
      s.tasks.insert id ⟨id, .acquired, 0, some pid, some ttl, []⟩ := by
  unfold addAcquired
  dsimp only
  split_ifs <;> rfl

theorem registerAwaiter_promises (id awaited a : String) :
    (registerAwaiter id s awaited).promises.lookup a = (s.promises.lookup a).map fun p =>
      if a = awaited ∧ p.state = .pending then { p with awaiters := p.awaiters.insert id }
      else p := by
  unfold registerAwaiter isPending
  by_cases h : a = awaited
  · subst h
    cases hp : s.promises.lookup a with
    | none => simp [hp]
    | some p => by_cases hs : p.state = .pending <;> simp [hs, hp]
  · split_ifs <;> simp [h]

@[simp] theorem registerAwaiter_tasks (id awaited : String) :
    (registerAwaiter id s awaited).tasks = s.tasks := by
  unfold registerAwaiter
  split_ifs <;> rfl

theorem endLease_tasks (id : String) (t : Task) :
    (s.endLease id t now).tasks = HashMap.modify s.tasks id releaseTask := by
  simp [endLease]

@[simp] theorem endLease_promises (id : String) (t : Task) :
    (s.endLease id t now).promises = s.promises := by
  simp [endLease]

theorem perform_promises (a : String) (act : Act) :
    (s.perform now act).promises.lookup a = s.promiseAfter now a act := by
  cases act with
  | expire id => simp [perform, promiseAfter, expire]
  | tickExpire id => simp [perform, promiseAfter, tickExpire]
  | settle id state value => simp [perform, promiseAfter, settleAt]
  | enqueue id => exact enqueueSettle_promises s id a
  | wake id =>
    simp only [perform, promiseAfter, tickNotify, notifySubscribers_promises,
      resumeAwaiters_promises]
    cases s.promises.lookup a with
    | none => rfl
    | some p => by_cases h : a = id <;> simp [h]
  | addExpired id req => simp [perform, promiseAfter, addExpired]
  | addFulfilled id req => simp [perform, promiseAfter, addFulfilled]
  | addPending id req => simp [perform, promiseAfter, addPending_promises]
  | addAcquired id req pid ttl => simp [perform, promiseAfter, addAcquired_promises]
  | register id awaited => exact registerAwaiter_promises s id awaited a
  | subscribe id address => simp [perform, promiseAfter, subscribe]
  | release id t => simp [perform, promiseAfter]
  | retry id t => simp [perform, promiseAfter, rearm]
  | _ => rfl

theorem perform_tasks (a : String) (act : Act) :
    (s.perform now act).tasks.lookup a = s.taskAfter a act := by
  cases act with
  | enqueue id => exact enqueueSettle_tasks s id a
  | wake id =>
    simp only [perform, taskAfter, tickNotify, notifySubscribers_tasks, resumeAwaiters_tasks]
  | addPending id req =>
    simp only [perform, taskAfter, addPending_tasks]
    split_ifs <;> simp_all
  | addFulfilled id req => simp [perform, taskAfter, addFulfilled]
  | addAcquired id req pid ttl => simp [perform, taskAfter, addAcquired_tasks]
  | grant id pid ttl => simp [perform, taskAfter, grantLease]
  | release id t => simp [perform, taskAfter, endLease_tasks]
  | clearResumes id => simp [perform, taskAfter, clearResumes]
  | suspend id => simp [perform, taskAfter, suspend]
  | register id awaited => simp [perform, taskAfter]
  | retry id t => simp [perform, taskAfter, rearm]
  | _ => rfl

end ServerState

end Resonate.Network
