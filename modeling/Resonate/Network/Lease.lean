import Resonate.Network.Local
import Mathlib

/-!
# Leases

A task moves through stages ordered by version, then by phase: pending,
acquired, suspended, fulfilled. No action lowers a stage, so a lease, which is
the stage `(version, acquired)`, is held during one stretch of a run and never
again. `task.fence` checks the lease it is given; the other lease-bearing
requests only check that somebody holds one.
-/

namespace Resonate
open Lib

def TaskState.phase : TaskState → ℕ
  | pending => 0
  | acquired => 1
  | suspended => 2
  | halted => 2
  | fulfilled => 3

theorem TaskState.phase_eq_one {state : TaskState} : state.phase = 1 ↔ state = acquired := by
  cases state <;> decide

theorem TaskState.phase_le (state : TaskState) : state.phase ≤ 3 := by
  cases state <;> decide

namespace Network

def Task.stage (t : Task) : Int ×ₗ ℕ := toLex (t.version, t.state.phase)

theorem Task.stage_le {t u : Task} :
    t.stage ≤ u.stage ↔
      t.version < u.version ∨ t.version = u.version ∧ t.state.phase ≤ u.state.phase :=
  Prod.Lex.toLex_le_toLex

namespace ServerState

variable {s : ServerState} {now : Int} {id : String} {v : Int}

/-- The stage of the task under an id, `⊥` before there is one. -/
def stage (s : ServerState) (id : String) : WithBot (Int ×ₗ ℕ) :=
  match s.tasks.lookup id with
  | some t => t.stage
  | none => ⊥

def Holds (s : ServerState) (id : String) (v : Int) : Prop :=
  ∃ t, s.tasks.lookup id = some t ∧ t.state = .acquired ∧ t.version = v

theorem holds_iff : s.Holds id v ↔ s.stage id = (toLex (v, 1) : Int ×ₗ ℕ) := by
  unfold Holds stage
  cases s.tasks.lookup id with
  | none => simp
  | some t =>
    simp only [Option.some.injEq, exists_eq_left', Task.stage, WithBot.coe_inj, toLex_inj,
      Prod.mk.injEq, TaskState.phase_eq_one]
    exact and_comm

theorem stage_some {t : Task} (h : s.tasks.lookup id = some t) : s.stage id = t.stage := by
  simp [stage, h]

theorem le_stage_of_none {x : WithBot (Int ×ₗ ℕ)} (h : s.tasks.lookup id = none) :
    s.stage id ≤ x := by
  simp [stage, h]

end ServerState

theorem fulfillTask_stage_le (t : Task) : t.stage ≤ (fulfillTask t).stage :=
  Task.stage_le.mpr (Or.inr ⟨(fulfillTask_version t).symm,
    by simpa [TaskState.phase] using t.state.phase_le⟩)

theorem resumedTask_stage_le (promiseId : String) (t : Task) :
    t.stage ≤ (resumedTask promiseId t).stage := by
  obtain ⟨id, state, version, pid, ttl, resumes⟩ := t
  cases state with
  | suspended => exact Task.stage_le.mpr (Or.inl (Int.lt_succ version))
  | _ => exact Task.stage_le.mpr (Or.inr ⟨rfl, le_rfl⟩)

theorem edit_stage_le {tasks : HashMap Task} {id a : String} {t : Task}
    (ht : tasks.lookup id = some t) {f : Task → Task} (hf : id = a → t.stage ≤ (f t).stage) :
    ∃ u, (if id = a then (tasks.lookup id).map f else tasks.lookup id) = some u ∧
      t.stage ≤ u.stage := by
  split_ifs with h
  · exact ⟨f t, by rw [ht]; rfl, hf h⟩
  · exact ⟨t, ht, le_rfl⟩

theorem edit_phase_le {s : ServerState} {id a : String} {t : Task} {state : TaskState}
    (ht : s.tasks.lookup id = some t) (ha : s.taskIs a state) {f : Task → Task}
    (hv : (f t).version = t.version) (hp : state.phase ≤ (f t).state.phase) (h : id = a) :
    t.stage ≤ (f t).stage := by
  subst h
  obtain ⟨u, hu, rfl⟩ := ha
  obtain rfl : t = u := by simpa [ht] using hu
  exact Task.stage_le.mpr (Or.inr ⟨hv.symm, hp⟩)

theorem step_stage_le {now : Int} {terminal : Prop} {L : Ledger} {act : Act} (hs : WF L.state)
    (hg : act.Guard now terminal L) (id : String) :
    L.state.stage id ≤ (L.step now act).state.stage id := by
  cases ht : L.state.tasks.lookup id with
  | none => exact ServerState.le_stage_of_none ht
  | some t =>
    have hnew : ∀ a, L.state.promises.lookup a = none → id ≠ a := by
      rintro a ha rfl
      obtain ⟨p, hp⟩ := hs.promise_of_task id t ht
      simp [ha] at hp
    suffices h : ∃ u, L.state.taskAfter id act = some u ∧ t.stage ≤ u.stage by
      obtain ⟨u, hu, hle⟩ := h
      rw [ServerState.stage_some ht, Ledger.step,
        ServerState.stage_some ((ServerState.perform_tasks now L.state id act).trans hu)]
      exact WithBot.coe_le_coe.mpr hle
    cases act with
    | enqueue a =>
      by_cases h : id = a
      · subst h
        exact ⟨_, by simp [ServerState.taskAfter, ServerState.taskOfSettled, ht],
          fulfillTask_stage_le t⟩
      · exact ⟨t, by simp [ServerState.taskAfter, h, ht], le_rfl⟩
    | wake a =>
      by_cases h : id ∈ L.state.awaitersOf a
      · exact ⟨_, by simp [ServerState.taskAfter, h, ht], resumedTask_stage_le a t⟩
      · exact ⟨t, by simp [ServerState.taskAfter, h, ht], le_rfl⟩
    | addPending a req => exact ⟨t, by simp [ServerState.taskAfter, hnew a hg.2.1, ht], le_rfl⟩
    | addFulfilled a req =>
      exact ⟨t, by simp [ServerState.taskAfter, hnew a hg.2.1, ht], le_rfl⟩
    | addAcquired a req pid ttl =>
      exact ⟨t, by simp [ServerState.taskAfter, hnew a hg.2.1, ht], le_rfl⟩
    | grant a pid ttl =>
      exact edit_stage_le ht (edit_phase_le ht hg (f := acquireTask pid ttl) rfl (Nat.zero_le 1))
    | release a u =>
      exact edit_stage_le ht fun _ => Task.stage_le.mpr (Or.inl (Int.lt_succ t.version))
    | clearResumes a => exact edit_stage_le ht fun _ => le_rfl
    | suspend a => exact edit_stage_le ht (edit_phase_le ht hg (f := suspendTask) rfl (Nat.le_succ 1))
    | _ => exact ⟨t, ht, le_rfl⟩

theorem Performs.stage_le {now : Int} {terminal : Prop} {P : Act → Prop} {L L' : Ledger}
    (h : Performs now terminal P L L') (hs : WF L.state) (id : String) :
    L.state.stage id ≤ L'.state.stage id := by
  obtain ⟨acts, ha, rfl⟩ := h
  exact Machine.key_le (f := fun L : Ledger => L.state.stage id) (I := fun L => WF L.state)
    (fun _ _ hg h => h.step hg.1) (fun _ _ hg h => step_stage_le h hg.1 id) hs ha

theorem ServerState.prepared_stage_le (s : ServerState) (hs : WF s) (now : Int) (req : Json)
    (id : String) : s.stage id ≤ (s.prepared now req).stage id := by
  have h : Performs now True (fun _ => True) ⟨s, ∅⟩ ⟨s.prepared now req, ∅⟩ :=
    prepared_performs trivial (fun _ _ => trivial) (fun _ => trivial) (fun _ => trivial)
  exact h.stage_le hs id

theorem exec_stage_le {s : ServerState} (hs : WF s) (op : Op) (id : String) :
    s.stage id ≤ (s.exec op).stage id :=
  (exec_performs s op).stage_le hs id

theorem run_stage_le {s : ServerState} (hs : WF s) (ops : List Op) (id : String) :
    s.stage id ≤ (s.run ops).stage id :=
  Machine.key_le (f := fun s : ServerState => s.stage id) (G := fun _ _ => True)
    (fun _ op _ h => h.exec op) (fun _ op _ h => exec_stage_le h op id) hs
    (Machine.along_of_forall fun _ _ _ => trivial)

def LeaseOver (s : ServerState) (id : String) (v : Int) : Prop :=
  ((toLex (v, 1) : Int ×ₗ ℕ) : WithBot (Int ×ₗ ℕ)) < s.stage id

theorem LeaseOver.not_holds {s : ServerState} {id : String} {v : Int} (h : LeaseOver s id v) :
    ¬ s.Holds id v := by
  rw [ServerState.holds_iff]
  exact fun he => h.ne he.symm

theorem LeaseOver.mono {s s' : ServerState} {id : String} {v : Int} (h : LeaseOver s id v)
    (hle : s.stage id ≤ s'.stage id) : LeaseOver s' id v :=
  lt_of_lt_of_le h hle

theorem LeaseOver.exists_task {s : ServerState} {id : String} {v : Int} (h : LeaseOver s id v) :
    ∃ t, s.tasks.lookup id = some t := by
  cases ht : s.tasks.lookup id with
  | none => simp [LeaseOver, ServerState.stage, ht] at h
  | some t => exact ⟨t, rfl⟩

theorem leaseOver_of_ended {s : ServerState} (hs : WF s) {ops : List Op} {id : String} {v : Int}
    (hheld : s.Holds id v) (hended : ¬ (s.run ops).Holds id v) : LeaseOver (s.run ops) id v := by
  have hle := run_stage_le hs ops id
  rw [ServerState.holds_iff] at hheld hended
  rw [hheld] at hle
  exact lt_of_le_of_ne hle (Ne.symm hended)

namespace ServerState

variable {s : ServerState} {now : Int} {id : String}

theorem taskIs_acquired_settled (a : String) :
    (s.settled a now).taskIs id .acquired ↔ s.taskIs id .acquired ∧ id ≠ a := by
  unfold taskIs
  rw [settled_tasks]
  by_cases h : id = a
  · simp only [h, if_true, ne_eq, not_true_eq_false, and_false, iff_false]
    rintro ⟨t, ht, hst⟩
    simp [s.taskOfSettled_fulfilled a ht] at hst
  · simp only [h, if_false, ne_eq, not_false_eq_true, and_true]
    split_ifs
    · cases s.tasks.lookup id with
      | none => simp
      | some t =>
        obtain ⟨i, state, version, pid, ttl, resumes⟩ := t
        cases state <;> simp [resumedTask]
    · rfl

theorem isDue_settled (a : String) : (s.settled a now).isDue now id = s.isDue now id := by
  simp only [isDue, settled_promises]
  cases s.promises.lookup id with
  | none => rfl
  | some p => simp only [Option.map_some, Option.any_some, chainRecord]; split_ifs <;> rfl

theorem isDue_expire (a : String) :
    (s.expire a).isDue now id = (s.isDue now id && decide (id ≠ a)) := by
  simp only [isDue, expire, delPTimeout_promises, HashMap.lookup_modify]
  by_cases h : id = a
  · cases s.promises.lookup id <;> simp [h, expireRecord, timeoutState_ne_pending]
  · simp [h]

/-- Expiry takes a lease away exactly from the task of a promise it expires. -/
theorem taskIs_acquired_autoTimeouts (ids : List String) :
    (s.autoTimeouts now ids).taskIs id .acquired ↔
      s.taskIs id .acquired ∧ ¬ (id ∈ ids ∧ s.isDue now id = true) := by
  unfold autoTimeouts
  induction ids generalizing s with
  | nil => simp
  | cons a ids ih =>
    rw [List.foldl_cons, ih]
    by_cases hd : s.isDue now a = true
    · rw [tryAutoTimeout_of_due _ _ _ hd, taskIs_acquired_settled, isDue_settled, isDue_expire]
      have hx : (s.expire a).taskIs id .acquired ↔ s.taskIs id .acquired := Iff.rfl
      by_cases h : id = a
      · subst h
        simp [hd]
      · simp [hx, h]
    · rw [tryAutoTimeout_of_not_due _ _ _ (by simpa using hd)]
      by_cases h : id = a
      · subst h
        simp [hd]
      · simp [h]

theorem taskIs_acquired_prepared {req : Json} :
    (s.prepared now req).taskIs id .acquired ↔
      s.taskIs id .acquired ∧
        ¬ (id ∈ namedPromises (ReqKind.ofName (kindOf req)) req ∧ s.isDue now id = true) :=
  taskIs_acquired_autoTimeouts (s := { s with outgoing := [] }) _

theorem task_of_prepared (hs : WF s) {req : Json} {t : Task} (ht : s.tasks.lookup id = some t) :
    ∃ u, (s.prepared now req).tasks.lookup id = some u := by
  have hle := s.prepared_stage_le hs now req id
  simp only [stage_some ht] at hle
  cases hu : (s.prepared now req).tasks.lookup id with
  | none => simp [stage, hu] at hle
  | some u => exact ⟨u, rfl⟩

theorem apply_eq_dispatch {kind : ReqKind} {req : Json}
    (hk : ReqKind.ofName (kindOf req) = some kind) :
    s.apply now req =
      (s.prepared now req).dispatch now ((req.get "corrId").getD .null) req kind := by
  simp [apply, hk]

theorem requireStr_of_task (hs : WF s) {req : Json} {t : Task} (hid : strField req "id" = some id)
    (ht : s.tasks.lookup id = some t) : requireStr req "id" = .ok id := by
  obtain ⟨p, hp⟩ := hs.promise_of_task id t ht
  exact requireStr_ok.mpr ⟨hid, hs.id_ne id p hp⟩

end ServerState

def statusOf : Reply → Option Int
  | .ok v => (v.get "status").bind Json.asI64
  | .error _ => none

theorem statusOf_reply {kind : ReqKind} {corrId : Json} {status : Int}
    {fields : List (String × Json)} (h : Json.i64Min ≤ status ∧ status ≤ Json.i64Max) :
    statusOf (reply kind corrId status fields) = some status := by
  simp [statusOf, reply, Json.asI64, h, List.lookup_cons]

/-- The request is refused with a conflict, and its only effect is to expire the
due promises it names. -/
def Rejected (s : ServerState) (now : Int) (req : Json) : Prop :=
  statusOf (s.apply now req).2 = some 409 ∧ (s.apply now req).1 = s.prepared now req

/-- A request to fulfil, suspend or release the task `t` under `id` that carries
another version than the task's. -/
structure StaleRequest (s : ServerState) (req : Json) (id : String) (t : Task) : Prop where
  kind : ∃ k ∈ [ReqKind.taskFulfill, .taskSuspend, .taskRelease],
    ReqKind.ofName (kindOf req) = some k
  id_eq : strField req "id" = some id
  task : s.tasks.lookup id = some t
  version_ne : versionOf req ≠ t.version

section Handlers

variable {s : ServerState} {now : Int} {corrId req : Json} {id : String} {t : Task}

theorem dispatch_not_acquired {k : ReqKind}
    (hk : k ∈ [ReqKind.taskFulfill, .taskSuspend, .taskRelease])
    (hr : requireStr req "id" = .ok id) (ht : s.tasks.lookup id = some t)
    (hst : t.state ≠ .acquired) :
    s.dispatch now corrId req k = (s, reply k corrId 409 []) := by
  simp only [List.mem_cons, List.not_mem_nil, or_false] at hk
  rcases hk with rfl | rfl | rfl
  · simp [ServerState.dispatch, ServerState.taskFulfill, hr, ht, hst]
  · simp [ServerState.dispatch, ServerState.taskSuspend, hr, ht, hst]
  · simp [ServerState.dispatch, ServerState.taskRelease, hr, ht, hst]

theorem dispatch_acquired {k : ReqKind}
    (hk : k ∈ [ReqKind.taskFulfill, .taskSuspend, .taskRelease])
    (hr : requireStr req "id" = .ok id) (ht : s.tasks.lookup id = some t)
    (hst : t.state = .acquired) :
    statusOf (s.dispatch now corrId req k).2 ∈ [some 200, some 300] := by
  have h200 : Json.i64Min ≤ (200 : Int) ∧ (200 : Int) ≤ Json.i64Max := by decide
  have h300 : Json.i64Min ≤ (300 : Int) ∧ (300 : Int) ≤ Json.i64Max := by decide
  simp only [List.mem_cons, List.not_mem_nil, or_false] at hk ⊢
  rcases hk with rfl | rfl | rfl
  · simp [ServerState.dispatch, ServerState.taskFulfill, hr, ht, hst, statusOf_reply h200]
  · simp only [ServerState.dispatch, ServerState.taskSuspend, hr, ht, hst, ne_eq,
      not_true_eq_false, if_false]
    split_ifs <;> simp [statusOf_reply h200, statusOf_reply h300]
  · simp [ServerState.dispatch, ServerState.taskRelease, hr, ht, hst, statusOf_reply h200]

theorem mem_namedPromises {k : ReqKind}
    (hk : k ∈ [ReqKind.taskFulfill, .taskSuspend, .taskRelease])
    (hid : strField req "id" = some id) : id ∈ namedPromises (some k) req := by
  simp only [List.mem_cons, List.not_mem_nil, or_false] at hk
  rcases hk with rfl | rfl | rfl <;> simp [namedPromises, hid]

end Handlers

/-- A stale fulfil, suspend or release is refused exactly when no lease is held,
or the expiry of the task's own promise ends it first. -/
theorem staleRequest_rejected_iff {s : ServerState} (hs : s.Reachable) {now : Int} {req : Json}
    {id : String} {t : Task} (hreq : StaleRequest s req id t) :
    Rejected s now req ↔ t.state ≠ .acquired ∨ s.isDue now id = true := by
  obtain ⟨⟨k, hk, hkind⟩, hid, ht, -⟩ := hreq
  have hwf := WF.of_reachable hs
  have hr := ServerState.requireStr_of_task hwf hid ht
  have hacq := @ServerState.taskIs_acquired_prepared s now id req
  have hnamed : id ∈ namedPromises (ReqKind.ofName (kindOf req)) req :=
    hkind ▸ mem_namedPromises hk hid
  have htask : s.taskIs id .acquired ↔ t.state = .acquired := by
    simp [ServerState.taskIs, ht]
  rw [htask] at hacq
  simp only [hnamed, true_and] at hacq
  obtain ⟨u, hu⟩ : ∃ u, (s.prepared now req).tasks.lookup id = some u :=
    ServerState.task_of_prepared hwf ht
  have hpre : (s.prepared now req).taskIs id .acquired ↔ u.state = .acquired := by
    simp [ServerState.taskIs, hu]
  rw [hpre] at hacq
  unfold Rejected
  rw [ServerState.apply_eq_dispatch hkind]
  by_cases hst : u.state = .acquired
  · have hmem : statusOf ((s.prepared now req).dispatch now ((req.get "corrId").getD .null) req k).2
        ∈ [some 200, some 300] := dispatch_acquired hk hr hu hst
    have hne : statusOf ((s.prepared now req).dispatch now ((req.get "corrId").getD .null) req k).2
        ≠ some 409 := by
      intro h
      simp [h] at hmem
    have hno : ¬ (t.state ≠ .acquired ∨ s.isDue now id = true) := by
      obtain ⟨h1, h2⟩ := hacq.mp hst
      simp [h1, h2]
    exact iff_of_false (fun h => hne h.1) hno
  · have hyes : t.state ≠ .acquired ∨ s.isDue now id = true := by
      by_cases h : t.state = .acquired
      · right
        by_contra hd
        exact hst (hacq.mpr ⟨h, hd⟩)
      · exact Or.inl h
    rw [dispatch_not_acquired hk hr hu hst]
    exact iff_of_true ⟨statusOf_reply (by decide), rfl⟩ hyes

theorem fence_apply {s : ServerState} (hs : WF s) {now : Int} {req : Json} {id : String}
    {v : Int} (hkind : ReqKind.ofName (kindOf req) = some .taskFence)
    (hid : strField req "id" = some id) (hv : versionOf req = v) (hover : LeaseOver s id v) :
    s.apply now req =
      (s.prepared now req, reply .taskFence ((req.get "corrId").getD .null) 409 []) := by
  obtain ⟨t, ht⟩ := hover.exists_task
  have hr := ServerState.requireStr_of_task hs hid ht
  have hover' : LeaseOver (s.prepared now req) id v := hover.mono
    (s.prepared_stage_le hs now req id)
  obtain ⟨u, hu⟩ := hover'.exists_task
  have hno : u.state ≠ .acquired ∨ u.version ≠ versionOf req := by
    by_contra h
    simp only [ne_eq, not_or, not_not] at h
    exact hover'.not_holds ⟨u, hu, h.1, h.2.trans hv⟩
  rw [ServerState.apply_eq_dispatch hkind]
  simp only [ServerState.dispatch, ServerState.taskFence, hr, hu, if_pos hno]

theorem fence_rejected {s : ServerState} (hs : WF s) {now : Int} {req : Json} {id : String}
    {v : Int} (hkind : ReqKind.ofName (kindOf req) = some .taskFence)
    (hid : strField req "id" = some id) (hv : versionOf req = v) (hover : LeaseOver s id v) :
    Rejected s now req := by
  rw [Rejected, fence_apply hs hkind hid hv hover]
  exact ⟨statusOf_reply (by decide), rfl⟩

def ServerState.Acquires (s : ServerState) (op : Op) (id : String) (v : Int) : Prop :=
  ¬ s.Holds id v ∧ (s.exec op).Holds id v

/-- Successive acquisitions of a task have increasing versions. -/
theorem acquires_lt {s : ServerState} (hs : WF s) {op op' : Op} {mid : List Op} {id : String}
    {v w : Int} (h : s.Acquires op id v) (h' : (s.run (op :: mid)).Acquires op' id w) :
    v < w := by
  have hwf : WF (s.run (op :: mid)) := hs.run _
  have h1 : (s.exec op).stage id ≤ (s.run (op :: mid)).stage id :=
    run_stage_le (hs.exec op) mid id
  have h2 := exec_stage_le hwf op' id
  have hv := ServerState.holds_iff.mp h.2
  have hw := ServerState.holds_iff.mp h'.2
  have hle : (toLex (v, 1) : Int ×ₗ ℕ) ≤ toLex (w, 1) := by
    rw [← WithBot.coe_le_coe, ← hv, ← hw]
    exact h1.trans h2
  rcases (Prod.Lex.toLex_le_toLex.mp hle) with hlt | ⟨heq, -⟩
  · exact hlt
  · obtain rfl : v = w := heq
    refine absurd (ServerState.holds_iff.mpr (le_antisymm ?_ ?_)) h'.1
    · exact hw ▸ h2
    · exact hv ▸ h1

def reacquireRun : List Op :=
  [.apply 0 (request "task.create" ⟨"c0", none⟩ (taskCreateData "w1" 60000 ⟨"c1", none⟩
      { id := "t", timeoutAt := 1000, param := {}
        tags := [⟨"resonate:target", "local://any@default"⟩].toAList })),
    .apply 1 (request "task.release" ⟨"c2", none⟩ (taskReleaseData "t" 0)),
    .apply 2 (request "task.acquire" ⟨"c3", none⟩ (taskAcquireData "t" 1 "w2" 60000))]

def staleRelease : Json := request "task.release" ⟨"c4", none⟩ (taskReleaseData "t" 0)

/-- The first worker's release still takes effect. -/
theorem staleRelease_accepted :
    (∃ t, StaleRequest (ServerState.init.run reacquireRun) staleRelease "t" t) ∧
      ¬ Rejected (ServerState.init.run reacquireRun) 3 staleRelease :=
  ⟨⟨⟨"t", .acquired, 1, some "w2", some 60000, []⟩, ⟨⟨.taskRelease, by decide, rfl⟩, rfl, rfl,
    by decide⟩⟩, fun h => absurd h.1 (by decide)⟩

theorem staleRelease_rejected_pending :
    Rejected (ServerState.init.run (reacquireRun.take 2)) 3 staleRelease :=
  have h : StaleRequest (ServerState.init.run (reacquireRun.take 2)) staleRelease "t"
      ⟨"t", .pending, 1, none, none, []⟩ := ⟨⟨.taskRelease, by decide, rfl⟩, rfl, rfl, by decide⟩
  (staleRequest_rejected_iff ⟨reacquireRun.take 2, rfl⟩ h).mpr (Or.inl (by decide))

end Network

end Resonate
