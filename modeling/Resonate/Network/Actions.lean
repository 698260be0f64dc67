import Resonate.Network.Settlement
import Resonate.Lib.Machine
import Mathlib.Order.BooleanAlgebra.Set

/-!
# What a step of the server can do

Every request and every tick is a list of primitive actions. A settlement is
three of them: the promise record changes (`expire`, `settle`), the promise's
own task is fulfilled (`enqueue`), its awaiters are resumed and its subscribers
notified (`wake`). A ledger is a server state together with the promises whose
settlement has begun and whose awaiters are not yet woken; a tick works on many
promises at once, so this set is what its phases keep in step.
-/

namespace Resonate.Network
open Lib

inductive Act where
  | clearOutgoing
  | schedules (m : HashMap ScheduleStub)
  | expire (id : String)
  | tickExpire (id : String)
  | settle (id : String) (state : PromiseState) (value : Json)
  | enqueue (id : String)
  | wake (id : String)
  | addExpired (id : String) (req : Json)
  | addPending (id : String) (req : Json)
  | addFulfilled (id : String) (req : Json)
  | addAcquired (id : String) (req : Json) (pid : String) (ttl : Int)
  | grant (id pid : String) (ttl : Int)
  | release (id : String) (task : Task)
  | clearResumes (id : String)
  | register (id awaited : String)
  | suspend (id : String)
  | subscribe (id address : String)
  | beat (id : String) (task : Task)
  | retry (id : String) (task : Task)

namespace ServerState

def perform (now : Int) (s : ServerState) : Act → ServerState
  | .clearOutgoing => { s with outgoing := [] }
  | .schedules m => { s with schedules := m }
  | .expire id => s.expire id
  | .tickExpire id => s.tickExpire id
  | .settle id state value => s.settleAt id state value now
  | .enqueue id => s.enqueueSettle id
  | .wake id => s.tickNotify now id
  | .addExpired id req => s.addExpired id req
  | .addPending id req => s.addPending id req now
  | .addFulfilled id req => s.addFulfilled id req
  | .addAcquired id req pid ttl => s.addAcquired id req pid ttl now
  | .grant id pid ttl => s.grantLease id pid ttl now
  | .release id t => s.endLease id t now
  | .clearResumes id => s.clearResumes id
  | .register id awaited => registerAwaiter id s awaited
  | .suspend id => s.suspend id
  | .subscribe id address => s.subscribe id address
  | .beat id t => s.renewLease id t now
  | .retry id t => s.rearm id t now

def taskIs (s : ServerState) (id : String) (state : TaskState) : Prop :=
  ∃ t, s.tasks.lookup id = some t ∧ t.state = state

end ServerState

structure Ledger where
  state : ServerState
  unwoken : Set String

namespace Act

/-- When the server performs an action. A request may ask to settle a promise as
pending; `terminal` says that no such request is at work. -/
def Guard (now : Int) (terminal : Prop) (L : Ledger) : Act → Prop
  | clearOutgoing | schedules _ => True
  | expire id => L.state.isDue now id = true
  | tickExpire id => L.state.isPending id = true
  | settle id state _ => L.state.isPending id = true ∧ (terminal → state ≠ .pending)
  | enqueue id =>
    id ∈ L.unwoken ∧ (L.state.promises.lookup id).isSome ∧
        (terminal → L.state.isSettled id = true) ∨
      L.state.taskIs id .acquired
  | wake id => terminal → L.state.isPending id = false
  | addExpired id req =>
    id ≠ "" ∧ L.state.promises.lookup id = none ∧ timeoutAtOf req ≤ now
  | addPending id req =>
    id ≠ "" ∧ L.state.promises.lookup id = none ∧ now < timeoutAtOf req
  | addFulfilled id req =>
    id ≠ "" ∧ L.state.promises.lookup id = none ∧ L.state.tasks.lookup id = none ∧
      timeoutAtOf req ≤ now
  | addAcquired id req _ _ =>
    id ≠ "" ∧ L.state.promises.lookup id = none ∧ L.state.tasks.lookup id = none ∧
      now < timeoutAtOf req
  | grant id _ _ => L.state.taskIs id .pending
  | release id t => L.state.tasks.lookup id = some t ∧ t.state = .acquired
  | clearResumes id => L.state.taskIs id .acquired
  | register id _ => L.state.taskIs id .acquired
  | suspend id => L.state.taskIs id .acquired
  | subscribe id _ => L.state.isPending id = true
  | beat id t => L.state.tasks.lookup id = some t ∧ t.state = .acquired
  | retry id t => L.state.tasks.lookup id = some t ∧ t.state = .pending

def unwoken (E : Set String) : Act → Set String
  | expire id | tickExpire id | settle id _ _ | addExpired id _ => insert id E
  | wake id => E \ {id}
  | _ => E

end Act

def Ledger.step (now : Int) (L : Ledger) (act : Act) : Ledger :=
  ⟨L.state.perform now act, act.unwoken L.unwoken⟩

/-- `L'` is reached from `L` by guarded actions that all satisfy `P`. -/
def Performs (now : Int) (terminal : Prop) (P : Act → Prop) (L L' : Ledger) : Prop :=
  ∃ acts : List Act,
    Machine.Along (Ledger.step now) (fun L act => act.Guard now terminal L ∧ P act) L acts ∧
      Machine.run (Ledger.step now) L acts = L'

namespace Performs

variable {now : Int} {terminal : Prop} {P : Act → Prop} {L L' L'' : Ledger}

theorem refl (L : Ledger) : Performs now terminal P L L := ⟨[], trivial, rfl⟩

theorem one (act : Act) (h : act.Guard now terminal L) (hp : P act) :
    Performs now terminal P L (L.step now act) := ⟨[act], ⟨⟨h, hp⟩, trivial⟩, rfl⟩

theorem trans (h : Performs now terminal P L L') (h' : Performs now terminal P L' L'') :
    Performs now terminal P L L'' := by
  obtain ⟨as, ha, rfl⟩ := h
  obtain ⟨bs, hb, rfl⟩ := h'
  exact ⟨as ++ bs, Machine.along_append.mpr ⟨ha, hb⟩, Machine.run_append ..⟩

theorem mono {Q : Act → Prop} (h : Performs now terminal P L L') (hpq : ∀ act, P act → Q act) :
    Performs now terminal Q L L' := by
  obtain ⟨as, ha, rfl⟩ := h
  exact ⟨as, ha.mono fun L act h => ⟨h.1, hpq act h.2⟩, rfl⟩

theorem foldl {α : Type} {f : ServerState → α → ServerState} {xs : List α} {E : Set String}
    (h : ∀ x ∈ xs, ∀ s, Performs now terminal P ⟨s, E⟩ ⟨f s x, E⟩) (s : ServerState) :
    Performs now terminal P ⟨s, E⟩ ⟨xs.foldl f s, E⟩ := by
  induction xs generalizing s with
  | nil => exact refl _
  | cons x xs ih => exact (h x (by simp) s).trans (ih (fun y hy => h y (by simp [hy])) _)

theorem invariant {I : Ledger → Prop} (h : Performs now terminal P L L')
    (hstep : ∀ L act, act.Guard now terminal L → P act → I L → I (L.step now act))
    (hL : I L) : I L' := by
  obtain ⟨as, ha, rfl⟩ := h
  exact Machine.invariant (fun L act hg => hstep L act hg.1 hg.2) hL ha

end Performs

end Resonate.Network
