import Resonate.Network.Lease
import Resonate.Network.Local
import Resonate.Network.Queues

/-!
# Heartbeats at the server

A heartbeat names tasks with their versions. The lease of a task it names is renewed if
the process holds it at that version. As long as a lease is held, its holder is the same.
-/

namespace Resonate.Network
open Lib

theorem step_pid {now : Int} {terminal : Prop} {L : Ledger} {act : Act} (hs : WF L.state)
    (hg : act.Guard now terminal L) {id : String} {t u : Task}
    (ht : L.state.tasks.lookup id = some t) (hacq : t.state = .acquired)
    (hu : (L.step now act).state.tasks.lookup id = some u) (hacq' : u.state = .acquired) :
    u.pid = t.pid := by
  have hnew : ∀ a, L.state.promises.lookup a = none → id ≠ a := by
    rintro a ha rfl
    obtain ⟨p, hp⟩ := hs.promise_of_task id t ht
    simp [ha] at hp
  have hedit : ∀ (a : String) (f : Task → Task), (id = a → (f t).state = .acquired →
    (f t).pid = t.pid) →
      (if id = a then (L.state.tasks.lookup id).map f else L.state.tasks.lookup id) = some u →
        u.pid = t.pid := by
    intro a f hf h
    rw [ht] at h
    split_ifs at h with ha
    · obtain rfl := Option.some.inj h
      exact hf ha hacq'
    · rw [Option.some.inj h]
  rw [Ledger.step, ServerState.perform_tasks] at hu
  cases act with
  | enqueue a =>
    simp only [ServerState.taskAfter] at hu
    split_ifs at hu with h
    · rw [← h] at hu
      rw [ServerState.taskOfSettled_fulfilled _ _ hu] at hacq'
      cases hacq'
    · rw [ht] at hu
      rw [Option.some.inj hu]
  | wake a =>
    simp only [ServerState.taskAfter, ht] at hu
    split_ifs at hu
    · obtain rfl := Option.some.inj hu
      simp [resumedTask, hacq]
    · rw [Option.some.inj hu]
  | addPending a req =>
    have h := hnew a hg.2.1
    simp only [ServerState.taskAfter, h, false_and, if_false, ht] at hu
    rw [Option.some.inj hu]
  | addFulfilled a req =>
    have h := hnew a hg.2.1
    simp only [ServerState.taskAfter, h, if_false, ht] at hu
    rw [Option.some.inj hu]
  | addAcquired a req pid ttl =>
    have h := hnew a hg.2.1
    simp only [ServerState.taskAfter, h, if_false, ht] at hu
    rw [Option.some.inj hu]
  | grant a pid ttl =>
    refine hedit a (acquireTask pid ttl) (fun h _ => ?_) hu
    subst h
    obtain ⟨t', ht', hpend⟩ := hg
    obtain rfl := Option.some.inj (ht.symm.trans ht')
    rw [hacq] at hpend
    cases hpend
  | release a x => exact hedit a releaseTask (fun _ h => by cases h) hu
  | clearResumes a => exact hedit a (fun t => { t with resumes := [] }) (fun _ _ => rfl) hu
  | suspend a => exact hedit a suspendTask (fun _ h => by cases h) hu
  | _ =>
    simp only [ServerState.taskAfter, ht] at hu
    rw [Option.some.inj hu]

def ServerState.HeldBy (s : ServerState) (id : String) (v : Int) (pid : String) : Prop :=
  ∀ t, s.tasks.lookup id = some t → t.state = .acquired → t.version = v → t.pid = some pid

structure ServerState.GrantedTo (s : ServerState) (id : String) (v : Int) (pid : String) : Prop where
  stage : ((toLex (v, 1) : Int ×ₗ ℕ) : WithBot (Int ×ₗ ℕ)) ≤ s.stage id
  heldBy : s.HeldBy id v pid

theorem ServerState.GrantedTo.step {now : Int} {terminal : Prop} {L : Ledger} {act : Act}
    {id pid : String} {v : Int}
    (h : L.state.GrantedTo id v pid) (hs : WF L.state) (hg : act.Guard now terminal L) :
    (L.step now act).state.GrantedTo id v pid where
  stage := h.stage.trans (step_stage_le hs hg id)
  heldBy u hu hacq hv := by
    have hafter : (L.step now act).state.stage id = (toLex (v, 1) : Int ×ₗ ℕ) :=
      ServerState.holds_iff.mp ⟨u, hu, hacq, hv⟩
    have hbefore : L.state.Holds id v :=
      ServerState.holds_iff.mpr (le_antisymm (hafter ▸ step_stage_le hs hg id) h.stage)
    obtain ⟨t, ht, hacqt, hvt⟩ := hbefore
    rw [step_pid hs hg ht hacqt hu hacq, h.heldBy t ht hacqt hvt]

/-- The grant of a lease is kept by every request and tick. -/
theorem ServerState.GrantedTo.exec {s : ServerState} {id pid : String} {v : Int}
    (h : s.GrantedTo id v pid) (hs : WF s)
    (op : Op) : (s.exec op).GrantedTo id v pid :=
  ((exec_performs s op).invariant (I := fun L => WF L.state ∧ L.state.GrantedTo id v pid)
    (fun _ _ hg _ hI => ⟨hI.1.step hg, hI.2.step hI.1 hg⟩) ⟨hs, h⟩).2

def taskRef (task : String × Int) : Json := .obj [("id", .str task.1), ("version", .num task.2)]

def taskHeartbeatData (pid : String) (tasks : List (String × Int)) : Json :=
  .obj [("pid", .str pid), ("tasks", .arr (tasks.map taskRef))]

def heartbeatRequest (head : Head) (pid : String) (tasks : List (String × Int)) : Json :=
  request "task.heartbeat" head (taskHeartbeatData pid tasks)

section Heartbeat

variable {s s' : ServerState} {now : Int} {pid id : String} {tasks : List (String × Int)}

/-- What a heartbeat does for one task it names. -/
def ServerState.beat (now : Int) (pid : String) (s : ServerState) (task : String × Int) : ServerState :=
  s.heartbeatOne now pid task.1 (Json.asI64 (.num task.2))

theorem heartbeatAll_eq (h : ∀ task ∈ tasks, task.1 ≠ "") :
    s.heartbeatAll now pid (tasks.map taskRef) = (tasks.foldl (ServerState.beat now pid) s,
      .ok ()) := by
  induction tasks generalizing s with
  | nil => rfl
  | cons task tasks ih =>
    have hid : requireStr (taskRef task) "id" = .ok task.1 := by
      have hfield : strField (taskRef task) "id" = some task.1 := rfl
      simp [requireStr, hfield, h task (by simp)]
    have hversion : ((taskRef task).get "version").bind Json.asI64 = Json.asI64 (.num task.2) := rfl
    rw [List.map_cons, ServerState.heartbeatAll, hid]
    dsimp only
    rw [hversion]
    exact ih fun x hx => h x (by simp [hx])

theorem apply_heartbeat {head : Head} (hpid : pid ≠ "") (h : ∀ task ∈ tasks, task.1 ≠ "") :
    (s.apply now (heartbeatRequest head pid tasks)).1 =
      tasks.foldl (ServerState.beat now pid) { s with outgoing := [] } := by
  have hkind : ReqKind.ofName (kindOf (heartbeatRequest head pid tasks)) = some .taskHeartbeat := by
    rw [heartbeatRequest, taskHeartbeatData, kindOf_request]
    rfl
  have hreq : requireStr (heartbeatRequest head pid tasks) "pid" = .ok pid := by
    have hfield : strField (heartbeatRequest head pid tasks) "pid" = some pid := by
      rw [heartbeatRequest, taskHeartbeatData, strField, get_request (by decide) (by decide)]
      rfl
    simp [requireStr, hfield, hpid]
  have htasks : (((heartbeatRequest head pid tasks).get "tasks").bind Json.asArray).getD [] =
      tasks.map taskRef := by
    rw [heartbeatRequest, taskHeartbeatData, get_request (by decide) (by decide)]
    rfl
  have hprepared : s.prepared now (heartbeatRequest head pid tasks) = { s with outgoing := [] } := by
    rw [ServerState.prepared, hkind]
    rfl
  rw [ServerState.apply_eq_dispatch hkind, ServerState.dispatch, ServerState.taskHeartbeat, hreq,
    htasks,
    hprepared]
  dsimp only
  rw [heartbeatAll_eq h]

theorem beat_tasks (task : String × Int) : (s.beat now pid task).tasks = s.tasks := by
  unfold ServerState.beat ServerState.heartbeatOne
  cases s.tasks.lookup task.1 with
  | none => rfl
  | some t => dsimp only; split_ifs <;> rfl

def ServerState.Renewed (s : ServerState) (now : Int) (id : String) : Prop :=
  ∀ t, s.tasks.lookup id = some t →
    (s.tEntries id).head? = some ⟨id, 1, saturatingAdd now (t.ttl.getD 30000)⟩

theorem renewed_beat {task : String × Int} (h : s.Renewed now id) :
    (s.beat now pid task).Renewed now id := by
  intro t ht
  rw [beat_tasks] at ht
  unfold ServerState.beat ServerState.heartbeatOne
  cases hu : s.tasks.lookup task.1 with
  | none => exact h t ht
  | some u =>
    dsimp only
    split_ifs
    · rw [ServerState.renewLease, ServerState.setTTimeout_tEntries]
      by_cases hid : id = task.1
      · subst hid
        rw [hu] at ht
        rw [if_pos rfl, Option.some.inj ht]
        rfl
      · rw [if_neg hid]
        exact h t ht
    · exact h t ht

theorem renewed_heartbeat {v : Int} {head : Head} (hpid : pid ≠ "") (hids : ∀ task ∈ tasks, task.1 ≠ "")
    (hmem : (id, v) ∈ tasks) (hheld : s.Holds id v) (hby : s.HeldBy id v pid) :
    (s.apply now (heartbeatRequest head pid tasks)).1.Renewed now id := by
  obtain ⟨t, ht, hacq, hv⟩ := hheld
  obtain ⟨before, after, rfl⟩ := List.append_of_mem hmem
  have hfold : ∀ (l : List (String × Int)) (s : ServerState),
    (l.foldl (ServerState.beat now pid) s).tasks = s.tasks := by
    intro l
    induction l with
    | nil => exact fun s => rfl
    | cons x l ih => exact fun s => (ih _).trans (beat_tasks x)
  have hkeep : ∀ (l : List (String × Int)) (s : ServerState), s.Renewed now id →
      (l.foldl (ServerState.beat now pid) s).Renewed now id := by
    intro l
    induction l with
    | nil => exact fun s h => h
    | cons x l ih => exact fun s h => ih _ (renewed_beat h)
  rw [apply_heartbeat hpid hids, List.foldl_append, List.foldl_cons]
  apply hkeep
  intro u hu
  generalize hs₁ : before.foldl (ServerState.beat now pid) { s with outgoing := [] } = s₁ at hu ⊢
  have htasks : s₁.tasks.lookup id = some t := by
    rw [← hs₁, hfold]
    exact ht
  rw [beat_tasks, htasks] at hu
  obtain rfl := Option.some.inj hu
  have hversion : (Json.asI64 (.num v)).all (· = t.version) = true := by
    rw [hv]
    simp only [Json.asI64]
    split_ifs <;> simp
  have hone : s₁.beat now pid (id, v) = s₁.renewLease id t now := by
    rw [ServerState.beat, ServerState.heartbeatOne, htasks]
    exact if_pos ⟨hacq, hby t ht hacq hv, hversion⟩
  rw [hone, ServerState.renewLease, ServerState.setTTimeout_tEntries, if_pos rfl]
  rfl

end Heartbeat

end Resonate.Network
