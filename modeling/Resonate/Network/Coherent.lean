import Resonate.Network.Wakeup
import Resonate.Network.Queues

/-!
# Coherent states

A cell is what the server holds under one id: the promise, its task and their
entries in the two queues. `Cell.Ok` is the invariant on a cell; awaiters, which
refer from one cell to another, have their own. An action outside a settlement
changes one cell, so each is a lemma on cells.
-/

namespace Resonate.Network
open Lib

structure Cell where
  promise : Option DurablePromise
  task : Option Task
  pEntries : List PTimeout
  tEntries : List TTimeout

def ServerState.cell (s : ServerState) (a : String) : Cell :=
  ⟨s.promises.lookup a, s.tasks.lookup a, s.pEntries a, s.tEntries a⟩

def DurablePromise.targeted (p : DurablePromise) : Bool :=
  (p.tags.lookup "resonate:target").isSome

/-- The queue entries a promise should have. -/
def DurablePromise.timers (p : DurablePromise) : List PTimeout :=
  if p.state = .pending ∧ p.targeted then [⟨p.id, p.timeoutAt⟩] else []

/-- The queue entries a task should have: a retry, a lease, or none. -/
def TimersOk (a : String) (task : Option Task) (entries : List TTimeout) : Prop :=
  match task.map Task.state with
  | some .pending => ∃ time, entries = [⟨a, 0, time⟩]
  | some .acquired => ∃ time, entries = [⟨a, 1, time⟩]
  | _ => entries = []

structure Task.Ok (a : String) (t : Task) : Prop where
  id : t.id = a
  pid : t.pid.isSome ↔ t.state = .acquired
  ttl : t.ttl.isSome ↔ t.state = .acquired
  not_halted : t.state ≠ .halted

structure DurablePromise.Ok (a : String) (p : DurablePromise) : Prop where
  id : p.id = a
  pending : p.state = .pending → p.value = .null ∧ p.settledAt = none
  settled : p.state ≠ .pending → p.subscribers = []
  nodup : p.subscribers.Nodup

structure Cell.Ok (a : String) (c : Cell) : Prop where
  promise : ∀ p ∈ c.promise, p.Ok a
  task : ∀ t ∈ c.task, t.Ok a
  task_promise : ∀ t ∈ c.task, ∃ p, c.promise = some p
  fulfilled_iff : ∀ p ∈ c.promise, ∀ t ∈ c.task, t.state = .fulfilled ↔ p.state ≠ .pending
  targeted : ∀ p ∈ c.promise, p.targeted = true → ∃ t, c.task = some t
  pEntries : c.pEntries = c.promise.elim [] DurablePromise.timers
  tEntries : TimersOk a c.task c.tEntries

structure Coherent (s : ServerState) : Prop where
  awaiters : AwaitersOk ⟨s, ∅⟩
  cell : ∀ a, (s.cell a).Ok a

namespace Cell.Ok

variable {a : String} {c : Cell}

theorem setTask (h : c.Ok a) {t t' : Task} {es : List TTimeout} (ht : c.task = some t)
    (ht' : t'.Ok a) (hf : t'.state = .fulfilled ↔ t.state = .fulfilled)
    (hes : TimersOk a (some t') es) : Cell.Ok a ⟨c.promise, some t', c.pEntries, es⟩ where
  promise := h.promise
  task u hu := by
    obtain rfl := Option.some.inj hu
    exact ht'
  task_promise _ _ := h.task_promise t ht
  fulfilled_iff p hp u hu := by
    obtain rfl := Option.some.inj hu
    exact hf.trans (h.fulfilled_iff p hp t ht)
  targeted _ _ _ := ⟨t', rfl⟩
  pEntries := h.pEntries
  tEntries := hes

theorem setPromise (h : c.Ok a) {p : DurablePromise} (hp : c.promise = some p)
    {awaiters subscribers : List String} (hs : p.state ≠ .pending → subscribers = [])
    (hn : subscribers.Nodup) :
    Cell.Ok a ⟨some { p with awaiters := awaiters, subscribers := subscribers }, c.task,
      c.pEntries, c.tEntries⟩ where
  promise q hq := by
    obtain rfl := Option.some.inj hq
    exact ⟨(h.promise p hp).id, (h.promise p hp).pending, hs, hn⟩
  task := h.task
  task_promise _ _ := ⟨_, rfl⟩
  fulfilled_iff q hq t ht := by
    obtain rfl := Option.some.inj hq
    exact h.fulfilled_iff p hp t ht
  targeted q hq := by
    obtain rfl := Option.some.inj hq
    exact h.targeted p hp
  pEntries := by
    have he := h.pEntries
    rw [hp] at he
    exact he
  tEntries := h.tEntries

theorem new {p : DurablePromise} {task : Option Task} {es : List TTimeout} (hp : p.Ok a)
    (ht : ∀ t ∈ task, t.Ok a) (hf : ∀ t ∈ task, t.state = .fulfilled ↔ p.state ≠ .pending)
    (htarget : p.targeted = true → ∃ t, task = some t) (hes : TimersOk a task es) :
    Cell.Ok a ⟨some p, task, p.timers, es⟩ where
  promise q hq := by
    obtain rfl := Option.some.inj hq
    exact hp
  task := ht
  task_promise _ _ := ⟨p, rfl⟩
  fulfilled_iff q hq t h := by
    obtain rfl := Option.some.inj hq
    exact hf t h
  targeted q hq := by
    obtain rfl := Option.some.inj hq
    exact htarget
  pEntries := rfl
  tEntries := hes

theorem absent (h : c.Ok a) (hp : c.promise = none) : c = ⟨none, none, [], []⟩ := by
  obtain ⟨promise, task, pEntries, tEntries⟩ := c
  obtain rfl : promise = none := hp
  have ht : task = none := by
    cases task with
    | none => rfl
    | some t =>
      obtain ⟨p, hp⟩ := h.task_promise t rfl
      cases hp
  subst ht
  have hes : tEntries = [] := h.tEntries
  have hps : pEntries = [] := h.pEntries
  rw [hes, hps]

end Cell.Ok

def Act.Plain : Act → Prop
  | expire _ | tickExpire _ | settle .. | enqueue _ | wake _ | addExpired .. => False
  | _ => True

section Plain

variable {now : Int} {s : ServerState} {act : Act}

theorem pendingPromise_ok {id : String} (req : Json) (now : Int) : (pendingPromise id req now).Ok id :=
  ⟨rfl, fun _ => ⟨rfl, rfl⟩, fun _ => rfl, List.nodup_nil⟩

theorem expiredPromise_ok {id : String} (req : Json) : (expiredPromise id req).Ok id :=
  ⟨rfl, fun h => absurd h (ServerState.timeoutState_ne_pending _), fun _ => rfl, List.nodup_nil⟩

theorem pendingPromise_timers (id : String) (req : Json) (now : Int) :
    (pendingPromise id req now).timers =
      if ((extractTags req).lookup "resonate:target").isSome then [⟨id, timeoutAtOf req⟩] else [] := by
  simp [DurablePromise.timers, DurablePromise.targeted, pendingPromise]

theorem expiredPromise_timers (id : String) (req : Json) : (expiredPromise id req).timers = [] :=
  if_neg fun h => ServerState.timeoutState_ne_pending _ h.1

theorem ServerState.cell_perform (now : Int) (s : ServerState) (act : Act) (a : String) :
    (s.perform now act).cell a = ⟨s.promiseAfter now a act, s.taskAfter a act,
      s.pEntriesAfter a act, s.tEntriesAfter now a act⟩ := by
  rw [cell, perform_promises, perform_tasks, perform_pEntries, perform_tEntries]

theorem Coherent.acquired (h : Coherent s) {id : String} (ht : s.taskIs id .acquired) :
    ∃ t, s.tasks.lookup id = some t ∧ t.state = .acquired ∧ t.Ok id ∧
      ∃ time, s.tEntries id = [⟨id, 1, time⟩] := by
  obtain ⟨t, ht, hst⟩ := ht
  have hes := (h.cell id).tEntries
  simp only [TimersOk, ServerState.cell, ht, Option.map_some, hst] at hes
  exact ⟨t, ht, hst, (h.cell id).task t ht, hes⟩

theorem Coherent.pending (h : Coherent s) {id : String} (ht : s.taskIs id .pending) :
    ∃ t, s.tasks.lookup id = some t ∧ t.state = .pending ∧ t.Ok id ∧
      ∃ time, s.tEntries id = [⟨id, 0, time⟩] := by
  obtain ⟨t, ht, hst⟩ := ht
  have hes := (h.cell id).tEntries
  simp only [TimersOk, ServerState.cell, ht, Option.map_some, hst] at hes
  exact ⟨t, ht, hst, (h.cell id).task t ht, hes⟩

theorem Coherent.absent (h : Coherent s) {id : String} (hp : s.promises.lookup id = none) :
    s.tasks.lookup id = none ∧ s.pEntries id = [] ∧ s.tEntries id = [] := by
  have hc := (h.cell id).absent hp
  exact ⟨congrArg Cell.task hc, congrArg Cell.pEntries hc, congrArg Cell.tEntries hc⟩

theorem fulfilledTask_ok (a : String) : (ServerState.fulfilledTask a).Ok a :=
  ⟨rfl, by simp [ServerState.fulfilledTask], by simp [ServerState.fulfilledTask],
    by simp [ServerState.fulfilledTask]⟩

theorem Task.Ok.releaseTask {a : String} {t : Task} (h : t.Ok a) : (releaseTask t).Ok a :=
  ⟨h.id, by simp [Network.releaseTask], by simp [Network.releaseTask], by simp [Network.releaseTask]⟩

theorem Task.Ok.acquireTask {a : String} {t : Task} (h : t.Ok a) (pid : String) (ttl : Int) :
    (acquireTask pid ttl t).Ok a :=
  ⟨h.id, by simp [Network.acquireTask], by simp [Network.acquireTask], by simp [Network.acquireTask]⟩

theorem Task.Ok.suspendTask {a : String} {t : Task} (h : t.Ok a) : (suspendTask t).Ok a :=
  ⟨h.id, by simp [Network.suspendTask], by simp [Network.suspendTask], by simp [Network.suspendTask]⟩

theorem Coherent.cell_plain (h : Coherent s) (hp : act.Plain) (hg : act.Guard now True ⟨s, ∅⟩)
    (a : String) : ((s.perform now act).cell a).Ok a := by
  have hc := h.cell a
  rw [ServerState.cell_perform]
  cases act with
  | expire id | tickExpire id | settle id state value | enqueue id | wake id | addExpired id req =>
    exact hp.elim
  | addPending id req =>
    simp only [ServerState.promiseAfter, ServerState.taskAfter, ServerState.pEntriesAfter,
      ServerState.tEntriesAfter]
    by_cases ha : a = id
    · subst ha
      obtain ⟨ht, hps, hes⟩ := h.absent hg.2.1
      simp only [true_and, if_true, ht, hps, hes, List.tail_nil]
      rw [← pendingPromise_timers a req now]
      cases hk : ((extractTags req).lookup "resonate:target").isSome with
      | false =>
        refine .new (pendingPromise_ok req now) (by simp) (by simp) ?_ rfl
        simp [pendingPromise, DurablePromise.targeted, hk]
      | true =>
        refine .new (pendingPromise_ok req now) ?_ ?_ (fun _ => ⟨_, rfl⟩) ⟨_, rfl⟩
        · rintro t ⟨⟩
          exact ⟨rfl, by simp, by simp, by simp⟩
        · rintro t ⟨⟩
          simp [pendingPromise]
    · simp only [ha, false_and, if_false]
      exact hc
  | addFulfilled id req =>
    simp only [ServerState.promiseAfter, ServerState.taskAfter, ServerState.pEntriesAfter,
      ServerState.tEntriesAfter]
    by_cases ha : a = id
    · subst ha
      obtain ⟨ht, hps, hes⟩ := h.absent hg.2.1
      simp only [if_true, hps, hes]
      rw [← expiredPromise_timers a req]
      refine .new (expiredPromise_ok req) ?_ ?_ (fun _ => ⟨_, rfl⟩) rfl
      · rintro t ⟨⟩
        exact fulfilledTask_ok a
      · rintro t ⟨⟩
        exact iff_of_true rfl (ServerState.timeoutState_ne_pending _)
    · simp only [ha, if_false]
      exact hc
  | addAcquired id req pid ttl =>
    simp only [ServerState.promiseAfter, ServerState.taskAfter, ServerState.pEntriesAfter,
      ServerState.tEntriesAfter]
    by_cases ha : a = id
    · subst ha
      obtain ⟨ht, hps, hes⟩ := h.absent hg.2.1
      simp only [true_and, if_true, hps, hes, List.tail_nil]
      rw [← pendingPromise_timers a req now]
      refine .new (pendingPromise_ok req now) ?_ ?_ (fun _ => ⟨_, rfl⟩) ⟨_, rfl⟩
      · rintro t ⟨⟩
        exact ⟨rfl, by simp, by simp, by simp⟩
      · rintro t ⟨⟩
        simp [pendingPromise]
    · simp only [ha, false_and, if_false]
      exact hc
  | grant id pid ttl =>
    obtain ⟨t, ht, hst, hok, time, hes⟩ := h.pending hg
    simp only [ServerState.promiseAfter, ServerState.taskAfter, ServerState.pEntriesAfter,
      ServerState.tEntriesAfter]
    by_cases ha : a = id
    · subst ha
      rw [if_pos rfl, if_pos rfl, ht, hes]
      exact hc.setTask ht (hok.acquireTask pid ttl) (by simp [acquireTask, hst]) ⟨_, rfl⟩
    · simp only [ha, if_false]
      exact hc
  | release id u =>
    obtain ⟨t, ht, hst, hok, time, hes⟩ := h.acquired ⟨u, hg⟩
    simp only [ServerState.promiseAfter, ServerState.taskAfter, ServerState.pEntriesAfter,
      ServerState.tEntriesAfter]
    by_cases ha : a = id
    · subst ha
      rw [if_pos rfl, if_pos rfl, ht, hes]
      exact hc.setTask ht hok.releaseTask (by simp [releaseTask, hst]) ⟨_, rfl⟩
    · simp only [ha, if_false]
      exact hc
  | clearResumes id =>
    obtain ⟨t, ht, hst, hok, time, hes⟩ := h.acquired hg
    simp only [ServerState.promiseAfter, ServerState.taskAfter, ServerState.pEntriesAfter,
      ServerState.tEntriesAfter]
    by_cases ha : a = id
    · subst ha
      rw [if_pos rfl, ht, hes]
      exact hc.setTask ht ⟨hok.id, hok.pid, hok.ttl, hok.not_halted⟩ Iff.rfl
        (by simp [TimersOk, hst])
    · simp only [ha, if_false]
      exact hc
  | register id awaited =>
    simp only [ServerState.promiseAfter, ServerState.taskAfter, ServerState.pEntriesAfter,
      ServerState.tEntriesAfter]
    cases hl : s.promises.lookup a with
    | none => simpa [ServerState.cell, hl] using hc
    | some p =>
      rw [Option.map_some]
      split_ifs with hreg
      · exact hc.setPromise hl (hc.promise p hl).settled (hc.promise p hl).nodup
      · simpa [ServerState.cell, hl] using hc
  | suspend id =>
    obtain ⟨t, ht, hst, hok, time, hes⟩ := h.acquired hg
    simp only [ServerState.promiseAfter, ServerState.taskAfter, ServerState.pEntriesAfter,
      ServerState.tEntriesAfter]
    by_cases ha : a = id
    · subst ha
      rw [if_pos rfl, if_pos rfl, ht]
      exact hc.setTask ht hok.suspendTask (by simp [suspendTask, hst]) rfl
    · simp only [ha, if_false]
      exact hc
  | subscribe id address =>
    obtain ⟨p, hl, hst⟩ := ServerState.isPending_iff.mp hg
    simp only [ServerState.promiseAfter, ServerState.taskAfter, ServerState.pEntriesAfter,
      ServerState.tEntriesAfter]
    by_cases ha : a = id
    · subst ha
      rw [if_pos rfl, hl]
      exact hc.setPromise hl (fun hne => absurd hst hne) ((hc.promise p hl).nodup.insert)
    · simp only [ha, if_false]
      exact hc
  | beat id u =>
    obtain ⟨t, ht, hst, hok, time, hes⟩ := h.acquired ⟨u, hg⟩
    simp only [ServerState.promiseAfter, ServerState.taskAfter, ServerState.pEntriesAfter,
      ServerState.tEntriesAfter]
    by_cases ha : a = id
    · subst ha
      rw [if_pos rfl, ht, hes]
      exact hc.setTask ht hok Iff.rfl (by simp [TimersOk, hst])
    · simp only [ha, if_false]
      exact hc
  | retry id u =>
    obtain ⟨t, ht, hst, hok, time, hes⟩ := h.pending ⟨u, hg⟩
    simp only [ServerState.promiseAfter, ServerState.taskAfter, ServerState.pEntriesAfter,
      ServerState.tEntriesAfter]
    by_cases ha : a = id
    · subst ha
      rw [if_pos rfl, ht, hes]
      exact hc.setTask ht hok Iff.rfl (by simp [TimersOk, hst, ServerState.retryTimer])
    · simp only [ha, if_false]
      exact hc
  | _ => exact hc

theorem Act.Plain.unwoken (hp : act.Plain) : act.unwoken ∅ = ∅ := by
  cases act <;> first | rfl | exact hp.elim

theorem Coherent.plain (h : Coherent s) (hp : act.Plain) (hg : act.Guard now True ⟨s, ∅⟩) :
    Coherent (s.perform now act) := by
  refine ⟨?_, h.cell_plain hp hg⟩
  have hstep := h.awaiters.step hg
  rwa [Ledger.step, hp.unwoken] at hstep

end Plain

end Resonate.Network
