import Resonate.Network.Handlers

/-!
# What the helpers do to promises and tasks

One equation for each helper and each of the two maps. The settlement chain of
a promise fulfils the promise's own task, resumes the tasks found in its
awaiters, and changes nothing else about tasks; about promises it only edits
awaiters and subscribers. Resuming is idempotent, so the equation for a whole
awaiter list needs no distinctness hypothesis.
-/

namespace Resonate.Network
open Lib

def fulfillTask (t : Task) : Task :=
  if t.state = .fulfilled then t
  else { t with state := .fulfilled, pid := none, ttl := none, resumes := [] }

def resumedTask (promiseId : String) (t : Task) : Task :=
  match t.state with
  | .suspended => { t with state := .pending, version := t.version + 1, resumes := [promiseId] }
  | .fulfilled => t
  | _ => { t with resumes := t.resumes.insert promiseId }

@[simp] theorem fulfillTask_state (t : Task) : (fulfillTask t).state = .fulfilled := by
  unfold fulfillTask
  split_ifs with h
  · exact h
  · rfl

@[simp] theorem fulfillTask_version (t : Task) : (fulfillTask t).version = t.version := by
  unfold fulfillTask
  split_ifs <;> rfl

theorem resumedTask_idem (promiseId : String) (t : Task) :
    resumedTask promiseId (resumedTask promiseId t) = resumedTask promiseId t := by
  obtain ⟨id, state, version, pid, ttl, resumes⟩ := t
  cases state <;> simp [resumedTask]

theorem resumedTask_fulfilled {promiseId : String} {t : Task} (h : t.state = .fulfilled) :
    resumedTask promiseId t = t := by
  simp [resumedTask, h]

namespace ServerState

section Frames

variable (s : ServerState) (id : String)

@[simp] theorem setPTimeout_promises (t : Int) : (s.setPTimeout id t).promises = s.promises := rfl
@[simp] theorem setPTimeout_tasks (t : Int) : (s.setPTimeout id t).tasks = s.tasks := rfl
@[simp] theorem delPTimeout_promises : (s.delPTimeout id).promises = s.promises := rfl
@[simp] theorem delPTimeout_tasks : (s.delPTimeout id).tasks = s.tasks := rfl
@[simp] theorem setTTimeout_promises (k : ℕ) (t : Int) :
    (s.setTTimeout id k t).promises = s.promises := rfl
@[simp] theorem setTTimeout_tasks (k : ℕ) (t : Int) : (s.setTTimeout id k t).tasks = s.tasks := rfl
@[simp] theorem delTTimeout_promises : (s.delTTimeout id).promises = s.promises := rfl
@[simp] theorem delTTimeout_tasks : (s.delTTimeout id).tasks = s.tasks := rfl
@[simp] theorem sendExecuteMessage_promises (a : String) (v : Int) :
    (s.sendExecuteMessage a id v).promises = s.promises := rfl
@[simp] theorem sendExecuteMessage_tasks (a : String) (v : Int) :
    (s.sendExecuteMessage a id v).tasks = s.tasks := rfl

@[simp] theorem sendExecute_promises (v : Int) :
    (s.sendExecute id v).promises = s.promises := by
  unfold sendExecute
  split <;> rfl

@[simp] theorem sendExecute_tasks (v : Int) : (s.sendExecute id v).tasks = s.tasks := by
  unfold sendExecute
  split <;> rfl

end Frames

section Chain

variable (s : ServerState) (id a : String) (now : Int)

def hasTarget : Bool :=
  (s.promises.lookup id).any fun p => (p.tags.lookup "resonate:target").isSome

theorem enqueueSettle_tasks :
    (s.enqueueSettle id).tasks.lookup a =
      if a = id then
        match s.tasks.lookup id with
        | some t => some (fulfillTask t)
        | none => if s.hasTarget id then some (fulfilledTask id) else none
      else s.tasks.lookup a := by
  unfold enqueueSettle
  by_cases h : a = id
  · subst h
    cases ht : s.tasks.lookup a with
    | none =>
      by_cases hp : s.hasTarget a
      · simp only [hasTarget] at hp
        simp [hp, hasTarget]
      · simp only [hasTarget] at hp
        simp [hp, hasTarget, ht]
    | some t =>
      by_cases hf : t.state = .fulfilled
      · simp [hf, ht, fulfillTask]
      · simp [hf, ht, fulfillTask]
  · cases ht : s.tasks.lookup id with
    | none => simp only [h, if_false]; split_ifs <;> simp [h]
    | some t => simp only [h, if_false]; split_ifs <;> simp [h]

/-- The id is withdrawn from all awaiters exactly when its task is fulfilled now. -/
def withdraws : Bool := (s.tasks.lookup id).any fun t => t.state ≠ .fulfilled

theorem enqueueSettle_promises :
    (s.enqueueSettle id).promises.lookup a =
      (s.promises.lookup a).map fun p =>
        if s.withdraws id then { p with awaiters := p.awaiters.filter fun b => b ≠ id } else p := by
  unfold enqueueSettle withdraws
  cases ht : s.tasks.lookup id with
  | none =>
    dsimp only
    split_ifs <;> simp_all
  | some t =>
    by_cases hf : t.state = .fulfilled
    · simp [hf]
    · simp [hf]

@[simp] theorem resumeAwaiter_promises : (resumeAwaiter id now s a).promises = s.promises := by
  unfold resumeAwaiter
  split
  · rfl
  · split <;> simp

theorem resumeAwaiter_tasks (b : String) :
    (resumeAwaiter id now s a).tasks.lookup b =
      if b = a then (s.tasks.lookup b).map (resumedTask id) else s.tasks.lookup b := by
  unfold resumeAwaiter
  by_cases h : b = a
  · subst h
    cases ht : s.tasks.lookup b with
    | none => simp [ht]
    | some t =>
      obtain ⟨i, state, version, pid, ttl, resumes⟩ := t
      cases state <;> simp [ht, resumedTask]
  · cases ht : s.tasks.lookup a with
    | none => simp [h]
    | some t =>
      obtain ⟨i, state, version, pid, ttl, resumes⟩ := t
      cases state <;> simp [h]

theorem foldl_resumeAwaiter_promises (l : List String) :
    (l.foldl (resumeAwaiter id now) s).promises = s.promises := by
  induction l generalizing s with
  | nil => rfl
  | cons x xs ih => simp [ih]

theorem foldl_resumeAwaiter_tasks (l : List String) :
    (l.foldl (resumeAwaiter id now) s).tasks.lookup a =
      if a ∈ l then (s.tasks.lookup a).map (resumedTask id) else s.tasks.lookup a := by
  induction l generalizing s with
  | nil => simp
  | cons x xs ih =>
    rw [List.foldl_cons, ih, resumeAwaiter_tasks]
    by_cases hx : a = x
    · subst hx
      by_cases hm : a ∈ xs
      · cases s.tasks.lookup a <;> simp [hm, resumedTask_idem]
      · simp [hm]
    · simp [hx]

theorem resumeAwaiters_tasks :
    (s.resumeAwaiters id now).tasks.lookup a =
      if a ∈ s.awaitersOf id then (s.tasks.lookup a).map (resumedTask id)
      else s.tasks.lookup a := by
  simp only [resumeAwaiters]
  exact foldl_resumeAwaiter_tasks s id a now _

theorem resumeAwaiters_promises :
    (s.resumeAwaiters id now).promises.lookup a =
      (s.promises.lookup a).map fun p => if a = id then { p with awaiters := [] } else p := by
  simp only [resumeAwaiters, HashMap.lookup_modify, foldl_resumeAwaiter_promises]
  by_cases h : a = id <;> simp [h]

@[simp] theorem notifySubscribers_tasks : (s.notifySubscribers id).tasks = s.tasks := by
  unfold notifySubscribers
  split
  · rfl
  · split_ifs <;> rfl

theorem notifySubscribers_promises :
    (s.notifySubscribers id).promises.lookup a =
      (s.promises.lookup a).map fun p => if a = id then { p with subscribers := [] } else p := by
  unfold notifySubscribers
  by_cases h : a = id
  · subst h
    cases hp : s.promises.lookup a with
    | none => simp [hp]
    | some p =>
      by_cases he : p.subscribers = []
      · have hc : { p with subscribers := [] } = p := by rw [← he]
        simp [he, hp, hc]
      · simp [he, hp]
  · split
    · simp [h]
    · split_ifs <;> simp [h]

theorem awaitersOf_enqueueSettle :
    (s.enqueueSettle id).awaitersOf id =
      if s.withdraws id then (s.awaitersOf id).filter fun b => b ≠ id else s.awaitersOf id := by
  simp only [awaitersOf, enqueueSettle_promises]
  cases s.promises.lookup id with
  | none => simp
  | some p => simp only [Option.map_some]; split_ifs <;> rfl

/-- The task of a promise that settles: fulfilled, or created fulfilled. -/
def taskOfSettled : Option Task :=
  match s.tasks.lookup id with
  | some t => some (fulfillTask t)
  | none => if s.hasTarget id then some (fulfilledTask id) else none

theorem taskOfSettled_fulfilled {t : Task} (h : t ∈ s.taskOfSettled id) : t.state = .fulfilled := by
  unfold taskOfSettled at h
  cases ht : s.tasks.lookup id with
  | some u =>
    simp only [ht, Option.mem_def, Option.some.injEq] at h
    simp [← h]
  | none =>
    simp only [ht] at h
    split_ifs at h
    · simp only [Option.mem_def, Option.some.injEq] at h
      simp [← h, fulfilledTask]
    · simp at h

theorem settled_tasks :
    (s.settled id now).tasks.lookup a =
      if a = id then s.taskOfSettled id
      else if a ∈ s.awaitersOf id then (s.tasks.lookup a).map (resumedTask id)
      else s.tasks.lookup a := by
  have he : (s.enqueueSettle id).tasks.lookup a =
      if a = id then s.taskOfSettled id else s.tasks.lookup a := enqueueSettle_tasks s id a
  rw [settled, notifySubscribers_tasks, resumeAwaiters_tasks, he, awaitersOf_enqueueSettle]
  by_cases h : a = id
  · subst h
    have hf : (s.taskOfSettled a).map (resumedTask a) = s.taskOfSettled a := by
      cases ht : s.taskOfSettled a with
      | none => rfl
      | some t => simp [resumedTask_fulfilled (s.taskOfSettled_fulfilled a ht)]
    simp [hf]
  · have hm : a ∈ (if s.withdraws id then (s.awaitersOf id).filter fun b => b ≠ id
        else s.awaitersOf id) ↔ a ∈ s.awaitersOf id := by
      split_ifs
      · simp [h]
      · rfl
    simp only [h, if_false, hm]

def chainRecord (p : DurablePromise) : DurablePromise :=
  let p := if s.withdraws id then { p with awaiters := p.awaiters.filter fun b => b ≠ id } else p
  if a = id then { p with awaiters := [], subscribers := [] } else p

theorem settled_promises :
    (s.settled id now).promises.lookup a = (s.promises.lookup a).map (s.chainRecord id a) := by
  rw [settled, notifySubscribers_promises, resumeAwaiters_promises, enqueueSettle_promises]
  cases s.promises.lookup a with
  | none => rfl
  | some p =>
    simp only [Option.map_some, chainRecord]
    by_cases h : a = id <;> simp [h]

theorem tryAutoTimeout_of_not_due (h : s.isDue now id = false) : s.tryAutoTimeout now id = s := by
  simp [tryAutoTimeout, h]

theorem tryAutoTimeout_of_due (h : s.isDue now id = true) :
    s.tryAutoTimeout now id = (s.expire id).settled id now := by
  simp [tryAutoTimeout, h]

end Chain

end ServerState

end Resonate.Network
