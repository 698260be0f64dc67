import Resonate.Runs
import Resonate.Lib.Logic

/-!
# What an execution may wait for

A ghost state of a task holds the ids of the promises it may call pending, and those of its
children that belong to the current execution. A function execution only waits for promises
whose records it was shown pending since it began: the records of its preload, and the
answers of its creations. So the suspension that follows names such promises only, and a
redirect begins anew with what its preload shows.
-/

namespace Resonate
open Lib Lib.ForkJoin

/-- Where a task is: between two executions, in one, after the last one, or a spawned task. -/
inductive Mode where
  | idle | live | over | child
deriving DecidableEq

structure Ghost where
  seen : Set String
  mode : Mode
  kids : Set ℕ

namespace Ghost

instance : LE Ghost := ⟨fun g g' => g.seen ⊆ g'.seen ∧ g'.mode = g.mode ∧ g.kids ⊆ g'.kids⟩

variable {g g' g'' : Ghost}

theorem le_refl (g : Ghost) : g ≤ g := ⟨fun _ h => h, rfl, fun _ h => h⟩

theorem le_trans (h : g ≤ g') (h' : g' ≤ g'') : g ≤ g'' :=
  ⟨fun _ hid => h'.1 (h.1 hid), h'.2.1.trans h.2.1, fun _ hk => h'.2.2 (h.2.2 hk)⟩

def Executes (g : Ghost) : Prop := g.mode = .live ∨ g.mode = .child

theorem Executes.mono (h : g.Executes) (hg : g ≤ g') : g'.Executes := by
  rw [Executes, hg.2.1]
  exact h

end Ghost

/-- The records are of promises that may be called pending, as far as they are pending. -/
def Known (seen : Set String) (records : List PromiseRecord) : Prop :=
  ∀ r ∈ records, r.state = .pending → r.id ∈ seen

def Ghost.Allows (taskId : String) (g : Ghost) : Cmd → Prop
  | .create .. | .settle .. => g.Executes
  | .effects _ _ preload => g.mode = .idle ∧ Known g.seen preload
  | .suspend id _ actions => (g.mode = .idle ∨ g.mode = .live) ∧ id = taskId ∧
      ∀ a ∈ actions, a.awaited ∈ g.seen
  | .fulfill id _ action => g.mode ≠ .child ∧ id = taskId ∧ action.id = taskId
  | .acquire .. => False
  | .release .. | .heartbeatStart .. | .heartbeatStop .. => g.mode ≠ .child
  | _ => True

def Ghost.After (g : Ghost) : (c : Cmd) → c.Answer → Ghost → Prop
  | .create _ _ _ req, a, g' => g ≤ g' ∧ ∀ r, a = .ok r → r.state = .pending → req.id ∈ g'.seen
  | .effects .., _, g' => g.seen ⊆ g'.seen ∧ g'.mode = .live
  | .suspend .., .ok (.redirect preload), g' => g'.mode = .idle ∧ Known g'.seen preload
  | .suspend .., _, g' => g'.mode = .over
  | _, _, g' => g ≤ g'

def backing (taskId : String) : Logic Cmd Cmd.Answer End Ghost where
  Pre g c := g.Allows taskId c
  Post g c a g' := g.After c a g'
  Fork g := g.Executes
  Child g g' := g.seen ⊆ g'.seen ∧ g'.mode = .child
  Forked g n g' := g ≤ g' ∧ n ∈ g'.kids
  Joined g h o g' := g ≤ g' ∧ (h ∈ g.kids → ∀ id ∈ o.todos, id ∈ g'.seen)
  Final g o := ∀ id ∈ o.todos, id ∈ g.seen

theorem backing_monotone (taskId : String) : (backing taskId).Monotone where
  pre {g g' c} hg h := by
    cases c with
    | create kind position slot req => exact Ghost.Executes.mono h hg
    | settle position id result => exact Ghost.Executes.mono h hg
    | effects id v preload => exact ⟨hg.2.1.trans h.1, fun r hr hst => hg.1 (h.2 r hr hst)⟩
    | suspend id v actions =>
      obtain ⟨hm, hid, hseen⟩ := h
      exact ⟨by rwa [hg.2.1], hid, fun a ha => hg.1 (hseen a ha)⟩
    | fulfill id v action => exact ⟨by rw [hg.2.1]; exact h.1, h.2⟩
    | acquire id v pid ttl => exact h.elim
    | release id v | heartbeatStart id v | heartbeatStop id =>
      have hm : g.mode ≠ .child := h
      rw [← hg.2.1] at hm
      exact hm
    | _ => trivial
  post {g g' g'' c a} hg h := by
    cases c with
    | create kind position slot req => exact ⟨Ghost.le_trans hg h.1, h.2⟩
    | effects id v preload => exact ⟨fun _ hid => h.1 (hg.1 hid), h.2⟩
    | suspend id v actions =>
      cases a with
      | error e => exact h
      | ok r => cases r <;> exact h
    | _ => exact Ghost.le_trans hg h
  fork hg h := h.mono hg
  child hg h := ⟨fun _ hid => h.1 (hg.1 hid), h.2⟩
  forked hg h := ⟨Ghost.le_trans hg h.1, h.2⟩
  joined hg h := ⟨Ghost.le_trans hg h.1, fun hk => h.2 (hg.2.2 hk)⟩
  final hg h := fun id hid => hg.1 (h id hid)

def Context.Sound (c : Context) (g : Ghost) : Prop :=
  (∀ id ∈ c.remoteTodos, id ∈ g.seen) ∧ ∀ h ∈ c.spawnedHandles, h.2 ∈ g.kids

def Collected (g : Ghost) (x : Except Error (List String)) : Prop :=
  ∀ todos, x = .ok todos → ∀ id ∈ todos, id ∈ g.seen

section Calls

variable {taskId : String} {sdk : Sdk} {ty : Ty} {g g' : Ghost} {position : Position} {slot : Slot}
variable {req : PromiseCreateReq} {c : Context}

theorem Context.Sound.mono (h : c.Sound g) (hg : g ≤ g') : c.Sound g' :=
  ⟨fun id hid => hg.1 (h.1 id hid), fun t ht => hg.2.2 (h.2 t ht)⟩

theorem flushLocalWork_safe {k : Except Error (List String) → Prog} (hs : List (String × ℕ))
    (todos : List String) (err : Option Error) (hh : ∀ h ∈ hs, h.2 ∈ g.kids)
    (ht : ∀ id ∈ todos, id ∈ g.seen)
    (hk : ∀ g' x, g ≤ g' → Collected g' x → (k x).Safe (backing taskId) g') :
    (flushLocalWork hs todos err k).Safe (backing taskId) g := by
  induction hs generalizing g todos err with
  | nil =>
    have hself : flushLocalWork [] todos err k = k (verdict err todos) := by cases err <;> rfl
    rw [hself]
    refine hk g _ (Ghost.le_refl g) fun l hl id hid => ?_
    cases err with
    | some e => cases hl
    | none =>
      obtain rfl := Except.ok.inj hl
      exact ht id hid
  | cons h hs ih =>
    rw [flushLocalWork_cons]
    intro o g' hj
    obtain ⟨hg, hseen⟩ := hj
    refine ih _ _ (fun h' hh' => hg.2.2 (hh h' (List.mem_cons_of_mem _ hh'))) (fun id hid => ?_)
      fun g'' x hg' hx => hk g'' x (Ghost.le_trans hg hg') hx
    rcases List.mem_append.mp hid with hid | hid
    · exact hg.1 (ht id hid)
    · exact hseen (hh h List.mem_cons_self) id hid

theorem collectRemoteTodos_safe {k : Except Error (List String) → Prog} (hc : c.Sound g)
    (hk : ∀ g' x, g ≤ g' → Collected g' x → (k x).Safe (backing taskId) g') :
    (c.collectRemoteTodos k).Safe (backing taskId) g := by
  refine flushLocalWork_safe _ _ _ hc.2 (fun id hid => by cases hid) fun g' x hg hx => hk g' _ hg ?_
  intro todos htodos id hid
  cases x with
  | error e => cases htodos
  | ok spawned =>
    obtain rfl : c.remoteTodos ++ spawned = todos := Except.ok.inj htodos
    rcases List.mem_append.mp hid with hid | hid
    · exact hg.1 (hc.1 id hid)
    · exact hx spawned rfl id hid

def AfterChild (taskId : String) (g : Ghost)
    (k : Except Error Json → Except Error (List String) → Prog) : Prop :=
  ∀ g' result todos, g ≤ g' → Collected g' todos → (k result todos).Safe (backing taskId) g'

theorem executeChild_safe {kind : DurableKind} {id : String}
    {leaf : (Except Error Json → Prog) → Prog}
    {workflow : (Context → Except Error Json → Prog) → Prog}
    {k : Except Error Json → Except Error (List String) → Prog}
    (hleaf : ∀ g₁ m, g ≤ g₁ → (∀ g' r, g₁ ≤ g' → (m r).Safe (backing taskId) g') →
      (leaf m).Safe (backing taskId) g₁)
    (hflow : ∀ g₁ m, g ≤ g₁ → (∀ g' c r, g₁ ≤ g' → c.Sound g' → (m c r).Safe (backing taskId) g') →
      (workflow m).Safe (backing taskId) g₁)
    (hk : AfterChild taskId g k) :
    (executeChild kind id leaf workflow k).Safe (backing taskId) g := by
  refine ⟨trivial, fun _ g₁ hg => ?_⟩
  cases kind with
  | function =>
    refine hleaf g₁ _ hg fun g' r hg' => hk g' r _ (Ghost.le_trans hg hg') ?_
    intro todos htodos id hid
    obtain rfl := Except.ok.inj htodos
    cases hid
  | workflow =>
    refine hflow g₁ _ hg fun g' c r hg' hc => collectRemoteTodos_safe hc fun g'' x hg'' hx => ?_
    exact hk g'' r x (Ghost.le_trans hg (Ghost.le_trans hg' hg'')) hx

def AfterCall (taskId : String) (g : Ghost) (k : List String → Except Error Json → Prog) : Prop :=
  ∀ g' todos result, g ≤ g' → (∀ id ∈ todos, id ∈ g'.seen) → (k todos result).Safe (backing taskId) g'

theorem AfterCall.none {k : List String → Except Error Json → Prog} (hk : AfterCall taskId g k)
    (hg : g ≤ g') (result : Except Error Json) : (k [] result).Safe (backing taskId) g' :=
  hk g' [] result hg fun id hid => by cases hid

theorem runIntoFuture_safe
    {execute : PromiseRecord → (Except Error Json → Except Error (List String) → Prog) → Prog}
    {k : List String → Except Error Json → Prog} (hg : g.Executes)
    (hexec : ∀ record g₁ m, g ≤ g₁ → AfterChild taskId g₁ m →
      (execute record m).Safe (backing taskId) g₁) (hk : AfterCall taskId g k) :
    (runIntoFuture sdk ty position slot req execute k).Safe (backing taskId) g := by
  refine ⟨hg, fun a g₁ ha => ?_⟩
  cases a with
  | error e => exact hk.none ha.1 _
  | ok record =>
    dsimp only
    split
    · exact hk.none ha.1 _
    · refine hexec record g₁ _ ha.1 fun g₂ result todos hg₂ htodos => ?_
      have hle : g ≤ g₂ := Ghost.le_trans ha.1 hg₂
      split
      · exact hk.none hle _
      · refine ⟨hg.mono hle, fun a g₃ hg₃ => ?_⟩
        have hle' : g ≤ g₃ := Ghost.le_trans hle hg₃
        cases a with
        | error e => exact hk.none hle' _
        | ok _ => exact hk.none hle' _
      · exact hk g₂ _ result hle (htodos _ rfl)

theorem blockOnRemote_safe {k : List String → Except Error Json → Prog} (hg : g.Executes)
    (hk : AfterCall taskId g k) :
    (blockOnRemote sdk ty position slot req k).Safe (backing taskId) g := by
  refine ⟨hg, fun a g₁ ha => ?_⟩
  cases a with
  | error e => exact hk.none ha.1 _
  | ok record =>
    dsimp only
    split
    · exact hk.none ha.1 _
    · rename_i hnone
      refine hk g₁ _ _ ha.1 fun id hid => ?_
      rw [List.mem_singleton.mp hid]
      exact ha.2 record rfl (PromiseRecord.asResult_eq_none.mp hnone)

theorem safe_ret {o : End} (h : o.todos = []) : (Proc.ret o : Prog).Safe (backing taskId) g := by
  intro id hid
  rw [h] at hid
  cases hid

theorem spawnSequenced_safe {kind : CallKind} {onCreated : PromiseRecord → Prog} (hg : g.Executes)
    (hk : ∀ record g₁, g ≤ g₁ → (record.state = .pending → req.id ∈ g₁.seen) →
      (onCreated record).Safe (backing taskId) g₁) :
    (spawnSequenced kind position slot req onCreated).Safe (backing taskId) g := by
  refine ⟨hg, fun a g₁ ha => ?_⟩
  cases a with
  | error e => exact safe_ret rfl
  | ok record => exact hk record g₁ ha.1 (ha.2 record rfl)

theorem finishSpawned_safe {id : String} (hg : g.Executes) :
    AfterChild taskId g (finishSpawned ty position id) := by
  intro g₁ result todos hle htodos
  cases todos with
  | error e => exact safe_ret rfl
  | ok todos =>
    have hsus : (Proc.ret (.finished (some (.error .suspended)) (.suspended todos)) : Prog).Safe
        (backing taskId) g₁ := fun id hid => htodos todos rfl id hid
    unfold finishSpawned
    dsimp only
    split_ifs
    · exact hsus
    · split
      · exact ⟨hg.mono hle, fun _ _ _ => safe_ret rfl⟩
      · exact hsus

theorem spawnedRun_safe {id : String} {record : PromiseRecord}
    {execute : PromiseRecord → (Except Error Json → Except Error (List String) → Prog) → Prog}
    (hg : g.Executes)
    (hexec : ∀ record m, AfterChild taskId g m → (execute record m).Safe (backing taskId) g) :
    (spawnedRun sdk ty position id execute record).Safe (backing taskId) g := by
  unfold spawnedRun
  split
  · split <;> exact safe_ret rfl
  · exact hexec record _ (finishSpawned_safe hg)
  · exact safe_ret rfl

theorem spawnedRemote_safe {id : String} {record : PromiseRecord}
    (h : record.state = .pending → id ∈ g.seen) :
    (spawnedRemote sdk ty id record).Safe (backing taskId) g := by
  unfold spawnedRemote
  split
  · exact safe_ret rfl
  · rename_i hnone
    intro id' hid
    rw [List.mem_singleton.mp hid]
    exact h (PromiseRecord.asResult_eq_none.mp hnone)

theorem leaf_safe {panicked : String → Prog} (b : Body) {k : Except Error Json → Prog}
    (hk : ∀ g' r, g ≤ g' → (k r).Safe (backing taskId) g')
    (hpanic : ∀ g' msg, g ≤ g' → (panicked msg).Safe (backing taskId) g') :
    (b.leaf panicked k).Safe (backing taskId) g := by
  induction b generalizing g with
  | ret result => exact hk g result (Ghost.le_refl g)
  | user f ih =>
    refine ⟨trivial, fun a g₁ hg => ih a (fun g' r hg' => ?_) fun g' msg hg' => ?_⟩
    · exact hk g' r (Ghost.le_trans hg hg')
    · exact hpanic g' msg (Ghost.le_trans hg hg')
  | _ => exact ⟨trivial, fun _ g₁ hg => hpanic g₁ _ hg⟩

end Calls

section Executions

variable {taskId : String} {sdk : Sdk} {g g' : Ghost} {c : Context} {req : PromiseCreateReq}

theorem Context.Sound.awaited (hc : c.Sound g) (hg : g ≤ g') {todos : List String}
    (ht : ∀ id ∈ todos, id ∈ g'.seen) :
    Context.Sound { c.claimSlot with remoteTodos := c.remoteTodos ++ todos } g' := by
  refine ⟨fun id hid => ?_, (hc.mono hg).2⟩
  rcases List.mem_append.mp hid with hid | hid
  · exact hg.1 (hc.1 id hid)
  · exact ht id hid

theorem Context.Sound.spawned (hc : c.Sound g) (hg : g ≤ g') {id : String} {task : ℕ}
    (ht : task ∈ g'.kids) :
    Context.Sound { c.claimSlot with spawnedHandles := c.spawnedHandles ++ [(id, task)] } g' := by
  refine ⟨(hc.mono hg).1, fun h hh => ?_⟩
  rcases List.mem_append.mp hh with hh | hh
  · exact hg.2.2 (hc.2 h hh)
  · rw [List.mem_singleton.mp hh]
    exact ht

structure AfterBody (taskId : String) (g : Ghost) (panicked : String → Prog)
    (k : Context → Except Error Json → Prog) : Prop where
  returned : ∀ g' c r, g ≤ g' → c.Sound g' → (k c r).Safe (backing taskId) g'
  panicked : ∀ g' msg, g ≤ g' → (panicked msg).Safe (backing taskId) g'

theorem AfterBody.mono {panicked : String → Prog} {k : Context → Except Error Json → Prog}
    (h : AfterBody taskId g panicked k) (hg : g ≤ g') : AfterBody taskId g' panicked k where
  returned g'' c r hg' hc := h.returned g'' c r (Ghost.le_trans hg hg') hc
  panicked g'' msg hg' := h.panicked g'' msg (Ghost.le_trans hg hg')

/-- The execution of a function waits for promises it was shown pending only. -/
theorem Body.exec_safe (b : Body) {panicked : String → Prog}
    {k : Context → Except Error Json → Prog} (hg : g.Executes) (hc : c.Sound g)
    (hk : AfterBody taskId g panicked k) :
    (b.exec sdk panicked c k).Safe (backing taskId) g := by
  induction b generalizing g c panicked k with
  | ret result => exact hk.returned g c result (Ghost.le_refl g) hc
  | panic msg => exact ⟨trivial, fun _ g₁ hg₁ => hk.panicked g₁ msg hg₁⟩
  | user f ih => exact ⟨trivial, fun a g₁ hg₁ => ih a (hg.mono hg₁) (hc.mono hg₁) (hk.mono hg₁)⟩
  | next f ih => exact ih c.seq hg hc hk
  | run seq fn args timeout child f ihc ih =>
    rw [exec]
    refine ⟨trivial, fun now g₁ hg₁ => ?_⟩
    dsimp only
    split
    · exact ih _ (hg.mono hg₁) (hc.mono hg₁) (hk.mono hg₁)
    · refine runIntoFuture_safe (hg.mono hg₁) (fun record g₂ m hg₂ hm => ?_)
        fun g₂ todos result hg₂ ht =>
          ih result ((hg.mono hg₁).mono hg₂) ((hc.mono hg₁).awaited hg₂ ht) ((hk.mono hg₁).mono hg₂)
      have hpanic := ((hk.mono hg₁).mono hg₂).panicked
      refine executeChild_safe (fun g₃ m' hg₃ hm' => ?_) (fun g₃ m' hg₃ hm' => ?_) hm
      · exact leaf_safe child hm' fun g' msg hg' => hpanic g' msg (Ghost.le_trans hg₃ hg')
      · refine ihc (((hg.mono hg₁).mono hg₂).mono hg₃) ?_
          ⟨hm', fun g' msg hg' => hpanic g' msg (Ghost.le_trans hg₃ hg')⟩
        exact ⟨fun id hid => (by cases hid), fun h hh => (by cases hh)⟩
  | spawn seq fn args timeout child f ihc ih =>
    rw [exec]
    refine ⟨trivial, fun now g₁ hg₁ => ?_⟩
    dsimp only
    split
    · exact ih _ (hg.mono hg₁) (hc.mono hg₁) (hk.mono hg₁)
    · refine ⟨hg.mono hg₁, fun g₂ hg₂ => ?_, fun n g₂ hg₂ => ?_⟩
      · have hx : g₂.Executes := Or.inr hg₂.2
        refine spawnSequenced_safe hx fun record g₃ hg₃ _ => spawnedRun_safe (hx.mono hg₃) ?_
        intro record m hm
        refine executeChild_safe (fun g₄ m' hg₄ hm' => ?_) (fun g₄ m' hg₄ hm' => ?_) hm
        · exact leaf_safe child hm' fun g' msg hg' => safe_ret rfl
        · refine ihc ((hx.mono hg₃).mono hg₄) ?_ ⟨hm', fun g' msg hg' => safe_ret rfl⟩
          exact ⟨fun id hid => (by cases hid), fun h hh => (by cases hh)⟩
      · exact ih _ ((hg.mono hg₁).mono hg₂.1) ((hc.mono hg₁).spawned hg₂.1 hg₂.2)
          ((hk.mono hg₁).mono hg₂.1)
  | await seq call f ih =>
    rw [exec]
    refine ⟨trivial, fun now g₁ hg₁ => ?_⟩
    dsimp only
    split
    · exact ih _ (hg.mono hg₁) (hc.mono hg₁) (hk.mono hg₁)
    · exact blockOnRemote_safe (hg.mono hg₁) fun g₂ todos result hg₂ ht =>
        ih result ((hg.mono hg₁).mono hg₂) ((hc.mono hg₁).awaited hg₂ ht) ((hk.mono hg₁).mono hg₂)
  | start seq call f ih =>
    rw [exec]
    refine ⟨trivial, fun now g₁ hg₁ => ?_⟩
    dsimp only
    split
    · exact ih _ (hg.mono hg₁) (hc.mono hg₁) (hk.mono hg₁)
    · refine ⟨hg.mono hg₁, fun g₂ hg₂ => ?_, fun n g₂ hg₂ => ?_⟩
      · exact spawnSequenced_safe (Or.inr hg₂.2) fun record g₃ hg₃ h => spawnedRemote_safe h
      · exact ih _ ((hg.mono hg₁).mono hg₂.1) ((hc.mono hg₁).spawned hg₂.1 hg₂.2)
          ((hk.mono hg₁).mono hg₂.1)
  | detach seq func args timeout target f ih =>
    rw [exec]
    refine ⟨trivial, fun now g₁ hg₁ => ?_⟩
    dsimp only
    split
    · exact ih _ (hg.mono hg₁) (hc.mono hg₁) (hk.mono hg₁)
    · refine ⟨hg.mono hg₁, fun g₂ hg₂ => ?_, fun n g₂ hg₂ => ?_⟩
      · exact spawnSequenced_safe (Or.inr hg₂.2) fun record g₃ hg₃ _ => safe_ret rfl
      · exact ih _ ((hg.mono hg₁).mono hg₂.1) ((hc.mono hg₁).spawned hg₂.1 hg₂.2)
          ((hk.mono hg₁).mono hg₂.1)
  | join h f ih =>
    exact fun o g₁ hg₁ => ih _ (hg.mono hg₁.1) (hc.mono hg₁.1) (hk.mono hg₁.1)
  | handleId h f ih => exact ⟨trivial, fun r g₁ hg₁ => ih r (hg.mono hg₁) (hc.mono hg₁) (hk.mono hg₁)⟩

end Executions

namespace Core

variable {core : Core} {taskId : String} {version : Int} {promise : PromiseRecord} {g : Ghost}
variable {fuel : ℕ} {k : Except Error Status → Prog}

/-- The code after an execution, its fulfilment or its suspension: whatever the task knows,
it is not a spawned one. -/
def Closes (taskId : String) (k : Except Error Status → Prog) : Prop :=
  ∀ g res, g.mode ≠ .child → (k res).Safe (backing taskId) g

theorem fulfillTask_safe (state : SettleState) (value : Json) (hid : promise.id = taskId)
    (hg : g.mode ≠ .child) (hk : Closes taskId k) :
    (core.fulfillTask taskId version promise state value (done k)).Safe (backing taskId) g := by
  unfold fulfillTask
  split
  · exact hk g _ hg
  · refine ⟨⟨hg, rfl, hid⟩, fun a g₁ hg₁ => ?_⟩
    have hm : g₁.mode ≠ .child := by rwa [hg₁.2.1]
    cases a with
    | error e => exact hk g₁ _ hm
    | ok record => exact hk g₁ _ hm

theorem execute_safe {entry : RegistryEntry} {data : TaskData} {preload : List PromiseRecord}
    {k : Except Error (Except Error Json × List String) → Prog} (hg : g.mode = .idle)
    (hpre : Known g.seen preload)
    (hk : ∀ g' x, g'.mode = .idle ∨ g'.mode = .live →
      (∀ y, x = .ok y → ∀ id ∈ y.2, id ∈ g'.seen) → (k x).Safe (backing taskId) g') :
    (core.execute taskId version promise entry data preload k).Safe (backing taskId) g := by
  unfold execute
  have hpanic : ∀ (g' : Ghost) (msg : String), g'.mode = .idle ∨ g'.mode = .live →
      (k (.error (.application s!"user function panicked: {msg}"))).Safe (backing taskId) g' :=
    fun g' msg hm => hk g' _ hm fun y hy => by cases hy
  dsimp only
  split
  · refine leaf_safe _ (fun g' r hg' => hk g' _ (Or.inl (hg'.2.1.trans hg)) fun y hy => ?_)
      fun g' msg hg' => hpanic g' msg (Or.inl (hg'.2.1.trans hg))
    obtain rfl := Except.ok.inj hy
    intro id hid
    cases hid
  · refine ⟨⟨hg, hpre⟩, fun _ g₁ hg₁ => Body.exec_safe _ (Or.inl hg₁.2) ?_ ⟨fun g' c r hg' hc => ?_,
      fun g' msg hg' => hpanic g' msg (Or.inr (hg'.2.1.trans hg₁.2))⟩⟩
    · exact ⟨fun id hid => (by cases hid), fun h hh => (by cases hh)⟩
    · refine collectRemoteTodos_safe hc fun g'' x hg'' hx => hk g'' _ ?_ fun y hy => ?_
      · exact Or.inr (hg''.2.1.trans (hg'.2.1.trans hg₁.2))
      · cases x with
        | error e => cases hy
        | ok todos =>
          obtain rfl : (r, todos) = y := Except.ok.inj hy
          exact hx todos rfl

theorem loop_safe {entry : RegistryEntry} {data : TaskData} {preload : List PromiseRecord}
    (hid : promise.id = taskId) (hg : g.mode = .idle) (hpre : Known g.seen preload)
    (hk : Closes taskId k) :
    (core.loop taskId version promise entry data k fuel preload).Safe (backing taskId) g := by
  induction fuel generalizing g preload with
  | zero => exact safe_ret rfl
  | succ fuel ih =>
    rw [loop]
    refine execute_safe hg hpre fun g' x hm hx => ?_
    have hchild : g'.mode ≠ .child := by rcases hm with hm | hm <;> simp [hm]
    split
    · exact hk g' _ hchild
    · exact fulfillTask_safe _ _ hid hchild hk
    · refine ⟨⟨hm, rfl, fun a ha => ?_⟩, fun a g₁ hg₁ => ?_⟩
      · obtain ⟨awaited, hmem, rfl⟩ := List.mem_map.mp ha
        exact hx _ rfl awaited hmem
      · cases a with
        | error e =>
          have hover : g₁.mode = .over := hg₁
          exact hk g₁ _ (by simp [hover])
        | ok r =>
          cases r with
          | suspended =>
            have hover : g₁.mode = .over := hg₁
            exact hk g₁ _ (by simp [hover])
          | redirect preload => exact ih hg₁.1 hg₁.2

theorem executeUntilBlockedInner_safe {preload : List PromiseRecord} (hid : promise.id = taskId)
    (hg : g.mode = .idle) (hpre : Known g.seen preload) (hk : Closes taskId k) :
    (core.executeUntilBlockedInner taskId version promise fuel preload k).Safe (backing taskId) g := by
  have hchild : g.mode ≠ .child := by simp [hg]
  unfold executeUntilBlockedInner
  split
  · exact fulfillTask_safe _ _ hid hchild hk
  · split
    · exact hk g _ hchild
    · split
      · exact hk g _ hchild
      · split
        · exact fulfillTask_safe _ _ hid hchild hk
        · exact loop_safe hid hg hpre hk

theorem executeUntilBlocked_safe {preload : List PromiseRecord} (hid : promise.id = taskId)
    (hg : g.mode = .idle) (hpre : Known g.seen preload) :
    (core.executeUntilBlocked taskId version promise fuel preload).Safe (backing taskId) g := by
  unfold executeUntilBlocked
  split
  · exact safe_ret rfl
  · refine ⟨by simp [backing, Ghost.Allows, hg], fun _ g₁ hg₁ => ?_⟩
    refine executeUntilBlockedInner_safe hid (hg₁.2.1.trans hg)
      (fun r hr hst => hg₁.1 (hpre r hr hst)) ?_
    intro g₂ res hm
    refine ⟨hm, fun _ g₃ hg₃ => ?_⟩
    cases res with
    | ok status => exact safe_ret rfl
    | error e =>
      have hm' : g₃.mode ≠ .child := by rwa [hg₃.2.1]
      exact ⟨hm', fun _ _ _ => safe_ret rfl⟩

end Core

def Cmd.Own (taskId : String) : Cmd → Prop
  | .fulfill id _ action => id = taskId ∧ action.id = taskId
  | .acquire .. => False
  | _ => True

/-- Whatever it is answered, the handling of a task fulfils that task only. -/
theorem Core.executeUntilBlocked_only {core : Core} {taskId : String} {version : Int}
    {promise : PromiseRecord} {fuel : ℕ} {preload : List PromiseRecord} (hid : promise.id = taskId) :
    (core.executeUntilBlocked taskId version promise fuel preload).Only (Cmd.Own taskId) := by
  have hsafe : (core.executeUntilBlocked taskId version promise fuel preload).Safe (backing taskId)
      ⟨Set.univ, .idle, ∅⟩ := executeUntilBlocked_safe hid rfl fun _ _ _ => trivial
  refine hsafe.only (fun g c h => ?_) (fun g c a => ?_) (fun g => ?_) (fun g n => ?_) fun g i o => ?_
  · cases c with
    | fulfill id v action => exact h.2
    | acquire id v pid ttl => exact h.elim
    | _ => trivial
  · have hle : g ≤ ⟨Set.univ, g.mode, g.kids⟩ := ⟨fun _ _ => trivial, rfl, fun _ h => h⟩
    cases c with
    | create kind position slot req => exact ⟨_, hle, fun _ _ _ => trivial⟩
    | effects id v preload => exact ⟨⟨Set.univ, .live, ∅⟩, fun _ _ => trivial, rfl⟩
    | suspend id v actions =>
      cases a with
      | error e => exact ⟨⟨Set.univ, .over, ∅⟩, rfl⟩
      | ok r =>
        cases r with
        | suspended => exact ⟨⟨Set.univ, .over, ∅⟩, rfl⟩
        | redirect preload => exact ⟨⟨Set.univ, .idle, ∅⟩, rfl, fun _ _ _ => trivial⟩
    | _ => exact ⟨_, hle⟩
  · exact ⟨⟨Set.univ, .child, ∅⟩, fun _ _ => trivial, rfl⟩
  · exact ⟨⟨Set.univ, g.mode, Set.univ⟩, ⟨fun _ _ => trivial, rfl, fun _ _ => trivial⟩, trivial⟩
  · exact ⟨⟨Set.univ, g.mode, g.kids⟩, ⟨fun _ _ => trivial, rfl, fun _ h => h⟩, fun _ _ _ => trivial⟩

end Resonate
