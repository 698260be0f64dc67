import Resonate.Heartbeat

/-!
# The heartbeat loop

`AsyncHeartbeat` keeps its tracked tasks and the handle of its loop under two locks. A call
of `start`, `stop` or `shutdown` has one section under the first and another under the
second, and sections of other calls come in between.
-/

namespace Resonate.Heartbeat
open Lib

/-- The section under the lock of `handle` that a call has yet to run. -/
inductive Section where
  | ensureLoopRunning | takeHandle
deriving DecidableEq

/-- The state of an `AsyncHeartbeat`. Loops are numbered as they are spawned; a call that has
run its first section is in `calls` with what is left of it, or `none` if it has returned. -/
structure AsyncHeartbeat where
  activeTasks : HashMap Int
  handle : Option ℕ
  spawned : ℕ
  aborted : List ℕ
  calls : List (Option Section)

namespace AsyncHeartbeat

inductive Event where
  | start (taskId : String) (taskVersion : Int)
  | stop (taskId : String)
  | shutdown
  | finish (i : ℕ)

def new : AsyncHeartbeat := ⟨∅, none, 0, [], []⟩

variable (w : AsyncHeartbeat)

def ensureLoopRunning : AsyncHeartbeat :=
  match w.handle with
  | some _ => w
  | none => { w with handle := some w.spawned, spawned := w.spawned + 1 }

def takeHandle : AsyncHeartbeat :=
  match w.handle with
  | some n => { w with handle := none, aborted := n :: w.aborted }
  | none => w

def enter (activeTasks : HashMap Int) (rest : Option Section) : AsyncHeartbeat :=
  { w with activeTasks := activeTasks, calls := w.calls ++ [rest] }

def runSection : Section → AsyncHeartbeat
  | .ensureLoopRunning => w.ensureLoopRunning
  | .takeHandle => w.takeHandle

def step (w : AsyncHeartbeat) : Event → AsyncHeartbeat
  | .start id v => w.enter (Heartbeat.start w.activeTasks id v) (some .ensureLoopRunning)
  | .stop id =>
    let map := Heartbeat.stop w.activeTasks id
    w.enter map (if map.keys.isEmpty then some .takeHandle else none)
  | .shutdown => w.enter ∅ (some .takeHandle)
  | .finish i => match w.calls[i]? with
    | some (some part) => { w.runSection part with calls := w.calls.set i none }
    | _ => w

def Quiescent : Prop := ∀ c ∈ w.calls, c = none

def Tracks : Prop := w.activeTasks ≠ ∅

def Running : Prop := ∃ n, w.handle = some n ∧ n ∉ w.aborted

/-- A call that takes the handle finds no task tracked, or a `start` yet to look for the loop. -/
def Timely (w : AsyncHeartbeat) : Event → Prop
  | .finish i => w.calls[i]? = some (some .takeHandle) → w.Tracks →
    some .ensureLoopRunning ∈ w.calls
  | _ => True

structure Inv : Prop where
  handle_lt : ∀ n, w.handle = some n → n < w.spawned
  aborted_lt : ∀ n ∈ w.aborted, n < w.spawned
  alive : ∀ n, w.handle = some n → n ∉ w.aborted

/-- While tasks are tracked there is a handle, or there will be one. -/
def Covered : Prop := w.Tracks → w.handle.isSome ∨ some .ensureLoopRunning ∈ w.calls

section Steps

variable {w : AsyncHeartbeat} {e : Event} {i : ℕ} {part : Section}

theorem step_finish (h : w.calls[i]? = some (some part)) :
    w.step (.finish i) = { w.runSection part with calls := w.calls.set i none } := by
  rw [step, h]

theorem finish_cases (w : AsyncHeartbeat) (i : ℕ) : w.step (.finish i) = w ∨
    ∃ part, w.calls[i]? = some (some part) ∧
      w.step (.finish i) = { w.runSection part with calls := w.calls.set i none } := by
  cases hi : w.calls[i]? with
  | none => exact Or.inl (by rw [step, hi])
  | some c =>
    cases c with
    | none => exact Or.inl (by rw [step, hi])
    | some part => exact Or.inr ⟨part, rfl, step_finish hi⟩

theorem ensureLoopRunning_handle (w : AsyncHeartbeat) : w.ensureLoopRunning.handle.isSome := by
  unfold ensureLoopRunning
  cases h : w.handle with
  | some n => simp [h]
  | none => rfl

theorem takeHandle_handle (w : AsyncHeartbeat) : w.takeHandle.handle = none := by
  unfold takeHandle
  cases h : w.handle with
  | some n => rfl
  | none => exact h

theorem takeHandle_of_none (h : w.handle = none) : w.takeHandle = w := by
  rw [takeHandle, h]

theorem runSection_activeTasks (w : AsyncHeartbeat) (part : Section) :
    (w.runSection part).activeTasks = w.activeTasks := by
  cases part with
  | ensureLoopRunning =>
    rw [runSection, ensureLoopRunning]
    cases w.handle <;> rfl
  | takeHandle =>
    rw [runSection, takeHandle]
    cases w.handle <;> rfl

theorem Inv.runSection (h : w.Inv) (part : Section) : (w.runSection part).Inv := by
  cases part with
  | ensureLoopRunning =>
    unfold AsyncHeartbeat.runSection ensureLoopRunning
    cases hw : w.handle with
    | some n => exact h
    | none =>
      refine ⟨fun n hn => ?_, fun n hn => Nat.lt_succ_of_lt (h.aborted_lt n hn), fun n hn => ?_⟩
      · obtain rfl := Option.some.inj hn
        exact Nat.lt_succ_self _
      · obtain rfl := Option.some.inj hn
        exact fun hmem => absurd (h.aborted_lt _ hmem) (Nat.lt_irrefl _)
  | takeHandle =>
    unfold AsyncHeartbeat.runSection takeHandle
    cases hw : w.handle with
    | none => exact h
    | some n =>
      refine ⟨fun m hm => (by cases hm), fun m hm => ?_, fun m hm => (by cases hm)⟩
      rcases List.mem_cons.mp hm with rfl | hm
      · exact h.handle_lt m hw
      · exact h.aborted_lt m hm

theorem Inv.step (h : w.Inv) (e : Event) : (w.step e).Inv := by
  cases e with
  | start id v | stop id | shutdown => exact ⟨h.handle_lt, h.aborted_lt, h.alive⟩
  | finish i =>
    rcases w.finish_cases i with heq | ⟨part, hi, heq⟩
    · rw [heq]
      exact h
    · rw [heq]
      have hpart := h.runSection part
      exact ⟨hpart.handle_lt, hpart.aborted_lt, hpart.alive⟩

theorem Covered.step (h : w.Covered) (ht : w.Timely e) : (w.step e).Covered := by
  cases e with
  | start id v => exact fun _ => Or.inr (List.mem_append_right _ List.mem_cons_self)
  | stop id =>
    intro htracks
    have hbefore : w.Tracks := by
      intro hempty
      apply htracks
      change Heartbeat.stop w.activeTasks id = ∅
      rw [Heartbeat.stop, hempty]
      rfl
    exact (h hbefore).imp_right (List.mem_append_left _)
  | shutdown => exact fun htracks => absurd rfl htracks
  | finish i =>
    rcases w.finish_cases i with heq | ⟨part, hi, heq⟩
    · rw [heq]
      exact h
    · rw [heq]
      intro htracks
      change (w.runSection part).activeTasks ≠ ∅ at htracks
      rw [runSection_activeTasks] at htracks
      cases part with
      | ensureLoopRunning => exact Or.inl (ensureLoopRunning_handle w)
      | takeHandle =>
        -- the `start` that is waited for is another call
        obtain ⟨j, hj⟩ := List.mem_iff_getElem?.mp (ht hi htracks)
        refine Or.inr (List.mem_iff_getElem?.mpr ⟨j, ?_⟩)
        have hij : i ≠ j := by
          rintro rfl
          cases hi.symm.trans hj
        change (w.calls.set i none)[j]? = _
        rw [List.getElem?_set_ne hij, hj]

/-- A call that takes the handle too late leaves no loop, and none on its way. -/
theorem step_untimely (h : ¬ w.Timely e) :
    (w.step e).Tracks ∧ (w.step e).handle = none ∧
      some .ensureLoopRunning ∉ (w.step e).calls := by
  cases e with
  | start id v | stop id | shutdown => exact absurd trivial h
  | finish i =>
    unfold Timely at h
    obtain ⟨hi, h⟩ := Classical.not_imp.mp h
    obtain ⟨htracks, hnone⟩ := Classical.not_imp.mp h
    rw [step_finish hi]
    refine ⟨?_, takeHandle_handle w, fun hmem => ?_⟩
    · change (w.runSection .takeHandle).activeTasks ≠ ∅
      rw [runSection_activeTasks]
      exact htracks
    · rcases List.mem_or_eq_of_mem_set hmem with hold | hnew
      · exact hnone hold
      · cases hnew

theorem exists_drain {k : ℕ} (hk : w.calls.countP Option.isSome = k) (hhandle : w.handle = none)
    (hnone : some .ensureLoopRunning ∉ w.calls) :
    ∃ rest : List ℕ, (Machine.run step w (rest.map .finish)).Quiescent ∧
      (Machine.run step w (rest.map .finish)).activeTasks = w.activeTasks ∧
      (Machine.run step w (rest.map .finish)).handle = none := by
  induction k generalizing w with
  | zero =>
    refine ⟨[], fun c hc => ?_, rfl, hhandle⟩
    have hnot := List.countP_eq_zero.mp hk c hc
    simpa using hnot
  | succ k ih =>
    have hpos : 0 < w.calls.countP Option.isSome := hk ▸ Nat.succ_pos k
    obtain ⟨c, hc, hsome⟩ := List.countP_pos_iff.mp hpos
    obtain ⟨i, hi⟩ := List.mem_iff_getElem?.mp hc
    cases c with
    | none => cases hsome
    | some part =>
      cases part with
      | ensureLoopRunning => exact absurd hc hnone
      | takeHandle =>
        have hstep : w.step (.finish i) = { w with calls := w.calls.set i none } := by
          rw [step_finish hi, runSection, takeHandle_of_none hhandle]
        obtain ⟨hlt, hget⟩ := List.getElem?_eq_some_iff.mp hi
        have hcount : (w.step (.finish i)).calls.countP Option.isSome = k := by
          rw [hstep, List.countP_set hlt, hget, hk]
          rfl
        have hnone' : some .ensureLoopRunning ∉ (w.step (.finish i)).calls := by
          rw [hstep]
          intro hmem
          rcases List.mem_or_eq_of_mem_set hmem with hold | hnew
          · exact hnone hold
          · cases hnew
        obtain ⟨rest, hq, ha, hh⟩ := ih hcount (by rw [hstep]; exact hhandle) hnone'
        refine ⟨i :: rest, hq, ha.trans ?_, hh⟩
        rw [hstep]

end Steps

/-- While no call takes the handle too late, the loop runs in every state in which tasks are
tracked and no call is in progress; and as soon as one does, the calls in progress return to such
a state without a loop. -/
theorem loop_runs_iff (es : List Event) :
    (Machine.Along step Timely new es → (Machine.run step new es).Quiescent →
      (Machine.run step new es).Tracks → (Machine.run step new es).Running) ∧
    ∀ e, Machine.Along step Timely new es → ¬ (Machine.run step new es).Timely e →
      ∃ rest : List ℕ, (Machine.run step new (es ++ e :: rest.map .finish)).Quiescent ∧
        (Machine.run step new (es ++ e :: rest.map .finish)).Tracks ∧
        ¬ (Machine.run step new (es ++ e :: rest.map .finish)).Running := by
  constructor
  · intro hes hq htracks
    have hinit : new.Inv ∧ new.Covered :=
      ⟨⟨fun n hn => (by cases hn), fun n hn => (by cases hn), fun n hn => (by cases hn)⟩,
        fun htracks => absurd rfl htracks⟩
    obtain ⟨hinv, hcovered⟩ := Machine.invariant (I := fun w => w.Inv ∧ w.Covered)
      (fun w e ht h => ⟨h.1.step e, h.2.step ht⟩) hinit hes
    rcases hcovered htracks with hsome | hmem
    · obtain ⟨n, hn⟩ := Option.isSome_iff_exists.mp hsome
      exact ⟨n, hn, hinv.alive n hn⟩
    · cases hq _ hmem
  · intro e _ hlate
    obtain ⟨htracks, hhandle, hnone⟩ := step_untimely hlate
    obtain ⟨rest, hq, hactive, hh⟩ := exists_drain rfl hhandle hnone
    refine ⟨rest, ?_⟩
    rw [Machine.run_append, Machine.run_cons]
    refine ⟨hq, ?_, fun ⟨n, hn, _⟩ => ?_⟩
    · unfold Tracks
      rw [hactive]
      exact htracks
    · rw [hh] at hn
      cases hn

/-- `b` starts after the last task has stopped, and looks for the loop when it has been aborted. -/
def restarted : List Event :=
  [.start "a" 0, .finish 0, .stop "a", .start "b" 0, .finish 1, .finish 2]

theorem loop_runs_iff_restarted : (Machine.run step new restarted).Quiescent ∧
    (Machine.run step new restarted).Tracks ∧ (Machine.run step new restarted).Running := by
  have htimely : Machine.Along step Timely new restarted := by
    refine ⟨trivial, fun h => ?_, trivial, trivial, fun _ _ => ?_, fun h => ?_, trivial⟩
    · cases h
    · exact List.mem_of_getElem? (i := 2) rfl
    · cases h
  have hq : (Machine.run step new restarted).Quiescent := by
    intro c hc
    change c ∈ [none, none, none] at hc
    simpa using hc
  have ht : (Machine.run step new restarted).Tracks := fun h => by cases h
  exact ⟨hq, ht, (loop_runs_iff restarted).1 htimely hq ht⟩

def overtaken : List Event :=
  [.start "a" 0, .finish 0, .stop "a", .start "b" 0, .finish 2, .finish 1]

theorem overtaken_without_loop : (Machine.run step new overtaken).Quiescent ∧
    (Machine.run step new overtaken).Tracks ∧ ¬ (Machine.run step new overtaken).Running := by
  refine ⟨fun c hc => ?_, fun h => (by cases h), fun ⟨n, hn, _⟩ => (by cases hn)⟩
  change c ∈ [none, none, none] at hc
  simpa using hc

end AsyncHeartbeat

end Resonate.Heartbeat
