import Resonate.Network.Renewal

/-!
# The heartbeat of a process

A process executes tasks under leases it was granted, several at a time, and tracks them
in `active_tasks` under their ids. An execution calls `start` before it runs and `stop`
when it is over. Requests of anyone and ticks of the server come in between.
-/

namespace Resonate.Heartbeat
open Lib Network

def start (activeTasks : HashMap Int) (taskId : String) (taskVersion : Int) : HashMap Int :=
  activeTasks.insert taskId taskVersion

def stop (activeTasks : HashMap Int) (taskId : String) : HashMap Int := activeTasks.erase taskId

inductive Phase where
  | acquired | started | stopped
deriving DecidableEq

structure Execution where
  taskId : String
  version : Int
  phase : Phase

def Execution.lease (x : Execution) : String × Int := (x.taskId, x.version)

structure Process where
  pid : String
  server : ServerState
  activeTasks : HashMap Int
  executions : List Execution

inductive Event where
  | serve (op : Op)
  | acquire (op : Op) (taskId : String) (version : Int)
  | start (i : ℕ)
  | stop (i : ℕ)

namespace Process

def init (pid : String) (ops : List Op) : Process := ⟨pid, ServerState.init.run ops, ∅, []⟩

def move (w : Process) (i : ℕ) (x : Execution) (phase : Phase) (activeTasks : HashMap Int) : Process :=
  { w with activeTasks := activeTasks, executions := w.executions.set i { x with phase := phase } }

def step (w : Process) : Event → Process
  | .serve op => { w with server := w.server.exec op }
  | .acquire op id v =>
    { w with server := w.server.exec op, executions := w.executions ++ [⟨id, v, .acquired⟩] }
  | .start i => match w.executions[i]? with
    | some x => w.move i x .started (Heartbeat.start w.activeTasks x.taskId x.version)
    | none => w
  | .stop i => match w.executions[i]? with
    | some x => w.move i x .stopped (Heartbeat.stop w.activeTasks x.taskId)
    | none => w

/-- An execution begins with a request that grants its lease to the process, calls `start`
once and then `stop` once. -/
def Allowed (w : Process) : Event → Prop
  | .serve _ => True
  | .acquire op id v => w.server.Acquires op id v ∧ (w.server.exec op).HeldBy id v w.pid
  | .start i => ∃ x, w.executions[i]? = some x ∧ x.phase = .acquired
  | .stop i => ∃ x, w.executions[i]? = some x ∧ x.phase = .started

/-- An execution that has called `start` and not `stop`, and holds its lease. -/
def Live (w : Process) (x : Execution) : Prop :=
  x ∈ w.executions ∧ x.phase = .started ∧ w.server.Holds x.taskId x.version

/-- Every live execution is tracked, and any heartbeat for the tracked tasks renews its lease. -/
structure Covers (w : Process) : Prop where
  tracked : ∀ x, w.Live x → w.activeTasks.lookup x.taskId = some x.version
  renewed : ∀ x, w.Live x → ∀ now head tasks,
    (∀ id v, (id, v) ∈ tasks ↔ w.activeTasks.lookup id = some v) →
      (w.server.apply now (heartbeatRequest head w.pid tasks)).1.Renewed now x.taskId

/-- An execution that calls `start` or `stop` meets no live one of its task at another version. -/
def Undisturbed (w : Process) : Event → Prop
  | .start i | .stop i => ∀ x y, w.executions[i]? = some x → w.Live y → y.taskId = x.taskId →
    y.version = x.version
  | _ => True

structure Inv (w : Process) : Prop where
  wf : WF w.server
  granted : ∀ x ∈ w.executions, w.server.GrantedTo x.taskId x.version w.pid
  distinct : (w.executions.map Execution.lease).Nodup
  ids : ∀ id v, w.activeTasks.lookup id = some v → id ≠ ""

def Tracked (w : Process) : Prop := ∀ x, w.Live x → w.activeTasks.lookup x.taskId = some x.version

section Invariant

variable {w : Process} {e : Event} {i : ℕ} {x y : Execution}

theorem Inv.id_ne (h : w.Inv) (hx : x ∈ w.executions) : x.taskId ≠ "" := by
  have hstage := (h.granted x hx).stage
  cases ht : w.server.tasks.lookup x.taskId with
  | none => simp [ServerState.stage, ht] at hstage
  | some t =>
    obtain ⟨p, hp⟩ := h.wf.promise_of_task x.taskId t ht
    exact h.wf.id_ne x.taskId p hp

theorem Inv.new_lease (h : w.Inv) {op : Op} {id : String} {v : Int} (ha : w.server.Acquires op id v)
    (hx : x ∈ w.executions) (hid : x.taskId = id) : x.version ≠ v := by
  rintro rfl
  subst hid
  have hle := exec_stage_le h.wf op x.taskId
  have hafter := ServerState.holds_iff.mp ha.2
  exact ha.1 (ServerState.holds_iff.mpr (le_antisymm (hafter ▸ hle) (h.granted x hx).stage))

theorem lease_set {l : List Execution} {phase : Phase} (h : l[i]? = some x) :
    (l.set i { x with phase := phase }).map Execution.lease = l.map Execution.lease := by
  apply List.ext_getElem?
  intro j
  rw [List.getElem?_map, List.getElem?_map]
  by_cases hj : i = j
  · subst hj
    obtain ⟨hlt, -⟩ := List.getElem?_eq_some_iff.mp h
    rw [List.getElem?_set_self hlt, h]
    rfl
  · rw [List.getElem?_set_ne hj]

theorem mem_move {phase : Phase} {m : HashMap Int} (hy : y ∈ (w.move i x phase m).executions) :
    y = { x with phase := phase } ∨ ∃ j, j ≠ i ∧ w.executions[j]? = some y := by
  obtain ⟨j, hj⟩ := List.mem_iff_getElem?.mp hy
  rw [Process.move, List.getElem?_set] at hj
  split_ifs at hj with hij hlt
  · exact Or.inl (Option.some.inj hj).symm
  · exact Or.inr ⟨j, Ne.symm hij, hj⟩

theorem mem_move_of_ne {phase : Phase} {m : HashMap Int} (hi : w.executions[i]? = some x)
    (hy : y ∈ w.executions) (hne : y ≠ x) : y ∈ (w.move i x phase m).executions := by
  obtain ⟨j, hj⟩ := List.mem_iff_getElem?.mp hy
  have hij : i ≠ j := by
    rintro rfl
    exact hne (Option.some.inj (hj.symm.trans hi))
  refine List.mem_iff_getElem?.mpr ⟨j, ?_⟩
  rw [Process.move, List.getElem?_set_ne hij, hj]

theorem Inv.move (h : w.Inv) {phase : Phase} {m : HashMap Int} (hi : w.executions[i]? = some x)
    (hm : ∀ id v, m.lookup id = some v → id ≠ "") : (w.move i x phase m).Inv where
  wf := h.wf
  granted y hy := by
    rcases mem_move hy with rfl | ⟨j, -, hj⟩
    · exact h.granted x (List.mem_of_getElem? hi)
    · exact h.granted y (List.mem_of_getElem? hj)
  distinct := by
    rw [Process.move, lease_set hi]
    exact h.distinct
  ids := hm

theorem Inv.step (h : w.Inv) (ha : w.Allowed e) : (w.step e).Inv := by
  cases e with
  | serve op =>
    exact ⟨h.wf.exec op, fun x hx => (h.granted x hx).exec h.wf op, h.distinct, h.ids⟩
  | acquire op id v =>
    refine ⟨h.wf.exec op, fun x hx => ?_, ?_, h.ids⟩
    · rcases List.mem_append.mp hx with hold | hnew
      · exact (h.granted x hold).exec h.wf op
      · rw [List.mem_singleton.mp hnew]
        exact ⟨(ServerState.holds_iff.mp ha.1.2).ge, ha.2⟩
    · have hnew : (id, v) ∉ w.executions.map Execution.lease := by
        intro hmem
        obtain ⟨x, hx, hlease⟩ := List.mem_map.mp hmem
        obtain ⟨hid, hv⟩ := Prod.ext_iff.mp hlease
        exact h.new_lease ha.1 hx hid hv
      have hmap : (w.step (.acquire op id v)).executions.map Execution.lease =
          w.executions.map Execution.lease ++ [(id, v)] := List.map_append
      rw [hmap]
      exact h.distinct.append (List.nodup_singleton _) (List.disjoint_singleton.mpr hnew)
  | start i =>
    obtain ⟨x, hi, -⟩ := ha
    simp only [Process.step, hi]
    refine h.move hi fun id v hv => ?_
    rw [Heartbeat.start, HashMap.lookup_insert_ite] at hv
    split_ifs at hv with hid
    · rw [hid]
      exact h.id_ne (List.mem_of_getElem? hi)
    · exact h.ids id v hv
  | stop i =>
    obtain ⟨x, hi, -⟩ := ha
    simp only [Process.step, hi]
    refine h.move hi fun id v hv => ?_
    rw [Heartbeat.stop, HashMap.lookup_erase_ite] at hv
    split_ifs at hv
    exact h.ids id v hv

theorem Inv.index_eq (h : w.Inv) {j : ℕ} (hi : w.executions[i]? = some x)
    (hj : w.executions[j]? = some y)
    (heq : y.lease = x.lease) : i = j := by
  have hmap : (w.executions.map Execution.lease)[i]? = (w.executions.map Execution.lease)[j]? := by
    rw [List.getElem?_map, List.getElem?_map, hi, hj, Option.map_some, Option.map_some, heq]
  obtain ⟨hlt, -⟩ := List.getElem?_eq_some_iff.mp hi
  exact (List.getElem?_inj (by simpa using hlt) h.distinct).mp hmap

theorem Inv.holds_before (h : w.Inv) {op : Op} (hx : x ∈ w.executions)
    (hafter : (w.server.exec op).Holds x.taskId x.version) : w.server.Holds x.taskId x.version := by
  have hle := exec_stage_le h.wf op x.taskId
  rw [ServerState.holds_iff.mp hafter] at hle
  exact ServerState.holds_iff.mpr (le_antisymm hle (h.granted x hx).stage)

theorem Tracked.step (h : w.Inv) (ha : w.Allowed e) (hu : w.Undisturbed e) (ht : w.Tracked) :
    (w.step e).Tracked := by
  cases e with
  | serve op => exact fun y ⟨hy, hst, hheld⟩ => ht y ⟨hy, hst, h.holds_before hy hheld⟩
  | acquire op id v =>
    rintro y ⟨hy, hst, hheld⟩
    rcases List.mem_append.mp hy with hold | hnew
    · exact ht y ⟨hold, hst, h.holds_before hold hheld⟩
    · rw [List.mem_singleton.mp hnew] at hst
      cases hst
  | start i =>
    obtain ⟨x, hi, -⟩ := ha
    simp only [Process.step, hi]
    rintro y ⟨hy, hst, hheld⟩
    change (Heartbeat.start w.activeTasks x.taskId x.version).lookup y.taskId = some y.version
    rw [Heartbeat.start, HashMap.lookup_insert_ite]
    rcases mem_move hy with rfl | ⟨j, -, hj⟩
    · exact if_pos rfl
    · have hlive : w.Live y := ⟨List.mem_of_getElem? hj, hst, hheld⟩
      split_ifs with hid
      · rw [hu x y hi hlive hid]
      · exact ht y hlive
  | stop i =>
    obtain ⟨x, hi, -⟩ := ha
    simp only [Process.step, hi]
    rintro y ⟨hy, hst, hheld⟩
    change (Heartbeat.stop w.activeTasks x.taskId).lookup y.taskId = some y.version
    rw [Heartbeat.stop, HashMap.lookup_erase_ite]
    rcases mem_move hy with rfl | ⟨j, hij, hj⟩
    · cases hst
    · have hlive : w.Live y := ⟨List.mem_of_getElem? hj, hst, hheld⟩
      split_ifs with hid
      · have heq : y.lease = x.lease := Prod.ext hid (hu x y hi hlive hid)
        exact absurd (h.index_eq hi hj heq).symm hij
      · exact ht y hlive

/-- A disturbance leaves the live execution untracked. -/
theorem undisturbed_of_tracked (ha : w.Allowed e) (ht : (w.step e).Tracked) : w.Undisturbed e := by
  cases e with
  | serve op => trivial
  | acquire op id v => trivial
  | start i =>
    obtain ⟨x, hi, hphase⟩ := ha
    simp only [Process.step, hi] at ht
    rintro x' y hi' ⟨hy, hst, hheld⟩ hid
    obtain rfl := Option.some.inj (hi.symm.trans hi')
    have hne : y ≠ x := by
      rintro rfl
      rw [hphase] at hst
      cases hst
    have hlookup : (Heartbeat.start w.activeTasks x.taskId x.version).lookup y.taskId =
        some y.version :=
      ht y ⟨mem_move_of_ne hi hy hne, hst, hheld⟩
    rw [Heartbeat.start, HashMap.lookup_insert_ite, if_pos hid] at hlookup
    exact (Option.some.inj hlookup).symm
  | stop i =>
    obtain ⟨x, hi, -⟩ := ha
    simp only [Process.step, hi] at ht
    rintro x' y hi' ⟨hy, hst, hheld⟩ hid
    obtain rfl := Option.some.inj (hi.symm.trans hi')
    by_contra hne
    have hne : y ≠ x := fun h => hne (by rw [h])
    have hlookup : (Heartbeat.stop w.activeTasks x.taskId).lookup y.taskId = some y.version :=
      ht y ⟨mem_move_of_ne hi hy hne, hst, hheld⟩
    rw [Heartbeat.stop, HashMap.lookup_erase_ite, if_pos hid] at hlookup
    cases hlookup

/-- A tracked execution that is live has its lease renewed by the next heartbeat. -/
theorem Tracked.covers (h : w.Inv) (hpid : w.pid ≠ "") (ht : w.Tracked) : w.Covers where
  tracked := ht
  renewed x hx now head tasks hmem := by
    have hids : ∀ task ∈ tasks, task.1 ≠ "" := fun task hin =>
      h.ids task.1 task.2 ((hmem task.1 task.2).mp hin)
    exact renewed_heartbeat hpid hids ((hmem _ _).mpr (ht x hx)) hx.2.2 (h.granted x hx.1).heldBy

end Invariant

theorem step_pid (w : Process) (e : Event) : (w.step e).pid = w.pid := by
  cases e with
  | serve op => rfl
  | acquire op id v => rfl
  | start i => rw [step]; split <;> rfl
  | stop i => rw [step]; split <;> rfl

theorem Inv.init (pid : String) (ops : List Op) : (init pid ops).Inv where
  wf := WF.init.run ops
  granted _ hx := absurd hx List.not_mem_nil
  distinct := List.nodup_nil
  ids _ _ hv := by cases hv

/-- The heartbeat covers every live execution throughout a run, exactly if no execution calls
`start` or `stop` while another one of its task is live. -/
theorem heartbeat_covers {pid : String} (hpid : pid ≠ "") (ops : List Op) {es : List Event}
    (h : Machine.Along step Allowed (init pid ops) es) :
    Machine.Along step Undisturbed (init pid ops) es ↔
      ∀ es₁ es₂, es = es₁ ++ es₂ → (Machine.run step (init pid ops) es₁).Covers := by
  have hstart : (init pid ops).Covers :=
    Tracked.covers (Inv.init pid ops) hpid fun x hx => absurd hx.1 List.not_mem_nil
  refine Machine.along_iff_prefixes (I := fun w => w.Inv ∧ w.pid = pid) (P := Covers) ?_ ?_
    ⟨Inv.init pid ops, rfl⟩ hstart h
  · exact fun w e ha hI => ⟨hI.1.step ha, (w.step_pid e).trans hI.2⟩
  · intro w e ha hI hcovers
    have hpid' : (w.step e).pid ≠ "" := by rwa [step_pid, hI.2]
    exact ⟨fun hu => Tracked.covers (hI.1.step ha) hpid' (Tracked.step hI.1 ha hu hcovers.tracked),
      fun hc => undisturbed_of_tracked ha hc.tracked⟩

def createT : Op := .apply 0 (request "task.create" ⟨"c0", none⟩ (taskCreateData "w1" 60000 ⟨"c1", none⟩
  { id := "t", timeoutAt := 1000, param := {}
    tags := [⟨"resonate:target", "local://any@default"⟩].toAList }))

def acquireT : Op := .apply 4 (request "task.acquire" ⟨"c5", none⟩ (taskAcquireData "t" 1 "w1" 60000))

def resumeT : List Event :=
  [.serve (.apply 1 (request "promise.create" ⟨"c2", none⟩
    (PromiseCreateReq.toJson ⟨"p", 1000, {}, ∅⟩))),
    .serve (.apply 2 (request "task.suspend" ⟨"c3", none⟩
      (taskSuspendData "t" 0 [(⟨"c4", none⟩, ⟨"p", "t"⟩)]))),
    .serve (.apply 3 (request "promise.settle" ⟨"c6", none⟩
      (PromiseSettleReq.toJson ⟨"p", .resolved, {}⟩)))]

/-- The process executes `t`, suspends it, and executes it again before the first execution
has called `stop`. -/
def overlap : List Event :=
  [.acquire createT "t" 0, .start 0] ++ resumeT ++ [.acquire acquireT "t" 1, .start 1, .stop 0]

def succession : List Event :=
  [.acquire createT "t" 0, .start 0] ++ resumeT ++ [.stop 0, .acquire acquireT "t" 1, .start 1]

theorem heartbeat_covers_succession : (Machine.run step (init "w1" []) succession).Covers := by
  have hallowed : Machine.Along step Allowed (init "w1" []) succession := by
    refine ⟨⟨⟨?_, ⟨_, rfl, rfl, rfl⟩⟩, ?_⟩, ⟨_, rfl, rfl⟩, trivial, trivial, trivial, ⟨_, rfl, rfl⟩,
      ⟨⟨?_, ⟨_, rfl, rfl, rfl⟩⟩, ?_⟩, ⟨_, rfl, rfl⟩, trivial⟩
    · rintro ⟨t, ht, -, -⟩
      cases ht
    · intro t ht _ _
      cases ht
      rfl
    · rintro ⟨t, ht, hst, -⟩
      cases ht
      cases hst
    · intro t ht _ _
      cases ht
      rfl
  have hundisturbed : Machine.Along step Undisturbed (init "w1" []) succession := by
    refine ⟨trivial, ?_, trivial, trivial, trivial, ?_, trivial, ?_, trivial⟩
    · rintro x y hx ⟨hy, hst, -⟩ -
      obtain rfl := List.mem_singleton.mp hy
      cases hst
    · rintro x y hx ⟨hy, -, -⟩ -
      obtain rfl := List.mem_singleton.mp hy
      cases hx
      rfl
    · rintro x y hx ⟨hy, hst, -⟩ -
      rcases List.mem_cons.mp hy with rfl | hy
      · cases hst
      · obtain rfl := List.mem_singleton.mp hy
        cases hst
  exact (heartbeat_covers (by decide) [] hallowed).mp hundisturbed succession []
    (by rw [List.append_nil])

/-- The late `stop` of the first execution takes the second one out of `active_tasks`. -/
theorem overlap_uncovered : Machine.Along step Allowed (init "w1" []) overlap ∧
    ¬ (Machine.run step (init "w1" []) overlap).Covers := by
  have hheld : (Machine.run step (init "w1" []) overlap).server.Holds "t" 1 := ⟨_, rfl, rfl, rfl⟩
  refine ⟨?_, fun h => ?_⟩
  · refine ⟨⟨⟨?_, ⟨_, rfl, rfl, rfl⟩⟩, ?_⟩, ⟨_, rfl, rfl⟩, trivial, trivial, trivial,
      ⟨⟨?_, ⟨_, rfl, rfl, rfl⟩⟩, ?_⟩, ⟨_, rfl, rfl⟩, ⟨_, rfl, rfl⟩, trivial⟩
    · rintro ⟨t, ht, -, -⟩
      cases ht
    · intro t ht _ _
      cases ht
      rfl
    · rintro ⟨t, ht, hst, -⟩
      cases ht
      cases hst
    · intro t ht _ _
      cases ht
      rfl
  · have hlookup := h.tracked ⟨"t", 1, .started⟩ ⟨?_, rfl, hheld⟩
    · cases hlookup
    · exact List.mem_of_getElem? (i := 1) rfl

end Process

end Resonate.Heartbeat
