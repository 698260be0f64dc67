import Resonate.Executions

/-!
# Spawned work

What flush makes of every way a spawned task can end. An end that flush takes for
an error fails the collection, and with it the task. A child that panicked, whose
settlement was refused or that suspended on nothing is not among them.
-/

namespace Resonate
open Lib Lib.ForkJoin

inductive SpawnedTask (sdk : Sdk) (kid : Kid) : Prop
  | run (ty : Ty) (position : Position) (slot : Slot) (req : PromiseCreateReq)
      (child : PromiseRecord → List Event → List Kid → Except Error Json →
        Except Error (List String) → Prop)
      (h : KidRuns (SpawnedRuns sdk ty position slot req child) kid)
  | remote (ty : Ty) (position : Position) (slot : Slot) (req : PromiseCreateReq)
      (h : KidRuns (SpawnedRemoteRuns sdk ty position slot req) kid)
  | detached (position : Position) (slot : Slot) (req : PromiseCreateReq)
      (h : KidRuns (DetachedRuns position slot req) kid)

def HandlesOk (sdk : Sdk) (ks : List Kid) (c : Context) : Prop :=
  ∀ h ∈ c.spawnedHandles, ∃ kid, ks[h.2]? = some kid ∧ SpawnedTask sdk kid

namespace HandlesOk

variable {sdk : Sdk} {ks ext : List Kid} {c c' : Context}

theorem extend (h : HandlesOk sdk ks c) (ext : List Kid) : HandlesOk sdk (ks ++ ext) c := by
  intro e he
  obtain ⟨kid, hk, ht⟩ := h e he
  exact ⟨kid, by rw [List.getElem?_append_left (List.getElem?_eq_some_iff.mp hk).1, hk], ht⟩

theorem awaited (h : HandlesOk sdk ks c) (todos : List String) : HandlesOk sdk ks (c.awaited todos) := h

theorem spawned (h : HandlesOk sdk ks c) {kid : Kid} (hk : SpawnedTask sdk kid) (id : String) :
    HandlesOk sdk (ks ++ [kid]) (c.spawned id ks.length) := by
  intro e he
  rcases List.mem_append.mp he with he | he
  · exact h.extend [kid] e he
  · obtain rfl := List.mem_singleton.mp he
    exact ⟨kid, by simp, hk⟩

theorem runs {b : Body} (h : HandlesOk sdk ks c) {own : List Event} {r : Except Error Json}
    (hr : b.Runs sdk ks c own ext c' r) : HandlesOk sdk (ks ++ ext) c' := by
  induction b generalizing ks c own ext with
  | ret result =>
    obtain ⟨-, rfl, rfl, -⟩ := hr
    simpa using h
  | panic msg => exact hr.elim
  | user f ih =>
    obtain ⟨a, own', -, hr⟩ := hr
    exact ih a h hr
  | next f ih => exact ih c.seq (show HandlesOk sdk ks c.advance from h) hr
  | run seq fn args timeout child f ihc ih =>
    rw [Body.Runs] at hr
    obtain ⟨now, own', -, hr⟩ := hr
    split at hr
    · exact ih _ h hr
    · obtain ⟨own₁, ext₁, todos, result, own₂, ext₂, -, rfl, -, hr⟩ := hr
      rw [← List.append_assoc]
      exact ih _ ((h.extend ext₁).awaited todos) hr
  | spawn seq fn args timeout child f ihc ih =>
    rw [Body.Runs] at hr
    obtain ⟨now, own', -, hr⟩ := hr
    split at hr
    · exact ih _ h hr
    · obtain ⟨kid, ext', rfl, hkid, hr⟩ := hr
      rw [List.append_cons]
      exact ih _ (h.spawned (.run _ _ _ _ _ hkid) _) hr
  | await seq call f ih =>
    rw [Body.Runs] at hr
    obtain ⟨now, own', -, hr⟩ := hr
    split at hr
    · exact ih _ h hr
    · obtain ⟨own₁, todos, result, own₂, -, -, hr⟩ := hr
      exact ih _ (h.awaited todos) hr
  | start seq call f ih =>
    rw [Body.Runs] at hr
    obtain ⟨now, own', -, hr⟩ := hr
    split at hr
    · exact ih _ h hr
    · obtain ⟨kid, ext', rfl, hkid, hr⟩ := hr
      rw [List.append_cons]
      exact ih _ (h.spawned (.remote _ _ _ _ hkid) _) hr
  | detach seq func args timeout target f ih =>
    rw [Body.Runs] at hr
    obtain ⟨now, own', -, hr⟩ := hr
    split at hr
    · exact ih _ h hr
    · obtain ⟨kid, ext', rfl, hkid, hr⟩ := hr
      rw [List.append_cons]
      exact ih _ (h.spawned (.detached _ _ _ hkid) _) hr
  | join j f ih =>
    obtain ⟨o, -, hr⟩ := hr
    exact ih _ h hr
  | handleId j f ih =>
    obtain ⟨x, own', -, hr⟩ := hr
    exact ih _ h hr

end HandlesOk

section Ends

def firstCreate : List Event → Option (CallKind × String × Except Error PromiseRecord)
  | ⟨.create kind _ _ req, answer⟩ :: _ => some (kind, req.id, answer)
  | _ => none

variable (kid : Kid)

def CreationFailed : Prop := ∃ kind id e, firstCreate kid.trace = some (kind, id, .error e)

def Unsettled : Prop :=
  ∃ id record, firstCreate kid.trace = some (.run, id, .ok record) ∧ record.state = .pending ∧
    ∀ p result answer, (⟨.settle p id result, .ok answer⟩ : Event) ∉ kid.trace

def SuspendedOnRemote : Prop :=
  ∃ sent todos, kid.result = some (.finished sent (.suspended todos)) ∧ todos ≠ []

def Lost : Prop := CreationFailed kid ∨ Unsettled kid ∧ ¬ SuspendedOnRemote kid

/-- The task failed: its creation, the collection of its own spawned work, or the
decoding of its record. -/
def Reported : Prop := ∃ sent e, kid.result = some (.finished sent (.done (.error e)))

/-- An unsettled child that panicked, that suspended on nothing, or that ended as
done though its settlement was refused. -/
def Silent : Prop :=
  Unsettled kid ∧ (kid.result = some .panicked ∨
    (∃ sent, kid.result = some (.finished sent (.suspended []))) ∨
    (∃ sent, kid.result = some (.finished sent (.done (.ok ())))) ∧
      ∃ position id result e, (⟨.settle position id result, .error e⟩ : Event) ∈ kid.trace)

end Ends

section Ended

variable {sdk : Sdk} {kid : Kid} {o : End}

theorem Silent.lost (h : Silent kid) : Lost kid := by
  refine Or.inr ⟨h.1, ?_⟩
  rintro ⟨sent, todos, ho, hne⟩
  rcases h.2 with hp | ⟨sent', hs⟩ | ⟨⟨sent', hd⟩, -⟩
  · rw [ho] at hp
    cases hp
  · rw [ho] at hs
    cases hs
    exact hne rfl
  · rw [ho] at hd
    cases hd

theorem SpawnedTask.lost (ht : SpawnedTask sdk kid) (ho : kid.result = some o) (hl : Lost kid) :
    Reported kid ∨ Silent kid := by
  cases ht with
  | run ty position slot req child h =>
    obtain ⟨own, ext, htrace, hend⟩ := h
    have hrun := hend o ho
    cases hrun with
    | failed e => exact Or.inl ⟨_, e, ho⟩
    | broken record own ext result e hp h => exact Or.inl ⟨_, e, ho⟩
    | recorded record result hres hd =>
      simp [Lost, CreationFailed, Unsettled, htrace, firstCreate,
        PromiseRecord.not_pending_of_asResult hres] at hl
    | undecodable record e hs h => exact Or.inl ⟨_, e, ho⟩
    | waiting record own ext result todos hp hw h =>
      simp only [Lost, CreationFailed, htrace, firstCreate, List.cons_append] at hl
      rcases hl with ⟨_, _, _, h⟩ | ⟨hun, hsus⟩
      · cases h
      · by_cases hne : todos = []
        · rw [hne] at ho
          exact Or.inr ⟨hun, Or.inr (Or.inl ⟨_, ho⟩)⟩
        · exact absurd ⟨_, todos, ho, hne⟩ hsus
    | settled record own ext result answer hp hs h =>
      simp only [Lost, CreationFailed, htrace, firstCreate, List.cons_append] at hl
      rcases hl with ⟨_, _, _, h⟩ | ⟨hun, -⟩
      · cases h
      · have hmem : (⟨.settle position req.id (result.map ty.toValue), answer⟩ : Event) ∈
          kid.trace := by
          simp [htrace]
        cases answer with
        | error e => exact Or.inr ⟨hun, Or.inr (Or.inr ⟨⟨_, ho⟩, _, _, _, e, hmem⟩)⟩
        | ok answer =>
          obtain ⟨id, record', hfirst, -, hno⟩ := hun
          simp only [htrace, firstCreate, List.cons_append, Option.some.injEq, Prod.mk.injEq] at hfirst
          rw [← hfirst.2.1] at hno
          exact absurd hmem (hno _ _ _)
    | panicked record own ext msg hp h =>
      simp only [Lost, CreationFailed, htrace, firstCreate, List.cons_append] at hl
      rcases hl with ⟨_, _, _, h⟩ | ⟨hun, -⟩
      · cases h
      · exact Or.inr ⟨hun, Or.inl ho⟩
  | remote ty position slot req h =>
    obtain ⟨own, ext, htrace, hend⟩ := h
    have hrun := hend o ho
    cases hrun with
    | failed e => exact Or.inl ⟨_, e, ho⟩
    | recorded record result h =>
      simp [Lost, CreationFailed, Unsettled, htrace, firstCreate] at hl
    | pending record hp =>
      simp [Lost, CreationFailed, Unsettled, htrace, firstCreate] at hl
  | detached position slot req h =>
    obtain ⟨own, ext, htrace, hend⟩ := h
    have hrun := hend o ho
    cases hrun with
    | failed e => exact Or.inl ⟨_, e, ho⟩
    | created record =>
      simp [Lost, CreationFailed, Unsettled, htrace, firstCreate] at hl

end Ended

def Context.children (ks : List Kid) (c : Context) : List Kid :=
  c.spawnedHandles.filterMap fun h => ks[h.2]?

theorem verdict_error {err : Option Error} {todos : List String} :
    (∃ e, verdict err todos = .error e) ↔ err.isSome := by
  cases err <;> simp [verdict]

theorem End.error_isSome {o : End} :
    o.error.isSome ↔ ∃ sent e, o = .finished sent (.done (.error e)) := by
  cases o with
  | finished sent outcome =>
    cases outcome with
    | done result => cases result <;> simp [error]
    | suspended todos => simp [error]
  | _ => simp [error]

theorem Ends.children {ks : List Kid} {hs : List (String × ℕ)} {ends : List End}
    (h : Ends ks hs ends) :
    (hs.filterMap fun h => ks[h.2]?).map Kid.result = ends.map some := by
  induction h with
  | nil => rfl
  | @cons h o hs ends hh _ ih =>
    obtain ⟨kid, hkid, ho⟩ := Option.bind_eq_some_iff.mp hh
    simp only [List.filterMap_cons, hkid, List.map_cons, ih, ho]

/-- Collecting fails exactly when a spawned task reports an error. -/
theorem Context.CollectsTo.error_iff {ks : List Kid} {c : Context}
    {x : Except Error (List String)} (h : c.CollectsTo ks x) :
    (∃ e, x = .error e) ↔ ∃ kid ∈ c.children ks, Reported kid := by
  obtain ⟨ends, hends, rfl⟩ := h
  rw [verdict_error, List.findSome?_isSome_iff]
  constructor
  · intro ⟨o, ho, he⟩
    obtain ⟨sent, e, rfl⟩ := End.error_isSome.mp he
    have hmem := List.mem_map_of_mem (f := some) ho
    rw [← hends.children] at hmem
    obtain ⟨kid, hkid, hres⟩ := List.mem_map.mp hmem
    exact ⟨kid, hkid, sent, e, hres⟩
  · intro ⟨kid, hkid, sent, e, hres⟩
    have hmem := List.mem_map_of_mem (f := Kid.result) hkid
    rw [show (c.children ks).map Kid.result = _ from hends.children, hres] at hmem
    obtain ⟨o, ho, heq⟩ := List.mem_map.mp hmem
    obtain rfl := Option.some.inj heq
    exact ⟨_, ho, End.error_isSome.mpr ⟨sent, e, rfl⟩⟩

theorem Context.CollectsTo.ended {ks : List Kid} {c : Context} {x : Except Error (List String)}
    (h : c.CollectsTo ks x) {kid : Kid} (hkid : kid ∈ c.children ks) : ∃ o, kid.result = some o := by
  obtain ⟨ends, hends, -⟩ := h
  have hmem := List.mem_map_of_mem (f := Kid.result) hkid
  rw [show (c.children ks).map Kid.result = _ from hends.children] at hmem
  obtain ⟨o, -, ho⟩ := List.mem_map.mp hmem
  exact ⟨o, ho.symm⟩

namespace Context

variable (c : Context) (ks : List Kid)

def FailsOnLoss (x : Except Error (List String)) : Prop :=
  (∃ kid ∈ c.children ks, Lost kid) → ∃ e, x = .error e

/-- No spawned task is silent, unless another one reports an error. -/
def LossReported : Prop :=
  (∃ kid ∈ c.children ks, Reported kid) ∨ ∀ kid ∈ c.children ks, ¬ Silent kid

variable {c ks} {sdk : Sdk}

theorem HandlesOk.child (h : HandlesOk sdk ks c) {kid : Kid} (hkid : kid ∈ c.children ks) :
    SpawnedTask sdk kid := by
  obtain ⟨e, he, hk⟩ := List.mem_filterMap.mp hkid
  obtain ⟨kid', hk', ht⟩ := h e he
  rw [hk] at hk'
  obtain rfl := Option.some.inj hk'
  exact ht

theorem failsOnLoss_iff {x : Except Error (List String)} (h : HandlesOk sdk ks c)
    (hx : c.CollectsTo ks x) : c.FailsOnLoss ks x ↔ c.LossReported ks := by
  rw [FailsOnLoss, hx.error_iff]
  constructor
  · intro hloss
    by_cases hsilent : ∀ kid ∈ c.children ks, ¬ Silent kid
    · exact Or.inr hsilent
    · push Not at hsilent
      obtain ⟨kid, hkid, hs⟩ := hsilent
      exact Or.inl (hloss ⟨kid, hkid, hs.lost⟩)
  · intro hvis ⟨kid, hkid, hlost⟩
    rcases hvis with hrep | hsilent
    · exact hrep
    · obtain ⟨o, ho⟩ := hx.ended hkid
      rcases (HandlesOk.child h hkid).lost ho hlost with hr | hs
      · exact ⟨kid, hkid, hr⟩
      · exact absurd hs (hsilent kid hkid)

end Context

/-- A workflow function in any context, up to what its collection hands on: lost
spawned work fails the collection exactly when it is reported. -/
theorem Body.exec_collects (sdk : Sdk) (b : Body) (ks : List Kid) {c₀ : Context}
    (h₀ : c₀.spawnedHandles = []) (panicked : String → Prog)
    (k : Except Error (List String) → Prog) :
    DoesOrPanics ks panicked
      (fun own ext x => ∃ c r, b.Runs sdk ks c₀ own ext c r ∧ c.CollectsTo (ks ++ ext) x ∧
        (c.FailsOnLoss (ks ++ ext) x ↔ c.LossReported (ks ++ ext)))
      (b.exec sdk panicked c₀ fun c _ => c.collectRemoteTodos k) k := by
  refine DoesOrPanics.bind (exec_does sdk b ks c₀ panicked _) fun own ext x hx => ?_
  refine DoesOrPanics.of_does (collectRemoteTodos_does x.1 k) fun own' ext' todos ht => ?_
  obtain ⟨rfl, rfl, hc⟩ := ht
  have hok : HandlesOk sdk ks c₀ := fun e he => by simp [h₀] at he
  exact DoesOrPanics.self ⟨x.1, x.2, by simpa using hx, by simpa using hc,
    by simpa using Context.failsOnLoss_iff (hok.runs hx) hc⟩

/-- The last execution of a handling: its collection fails on lost spawned work
exactly when the loss is reported, and an execution that fails ends in a release,
with no fulfil or suspend. -/
def Core.FailsOnLoss (core : Core) (taskId : String) (v : Int) (promise : PromiseRecord)
    (entry : RegistryEntry) (data : TaskData) (ls : List (Label Cmd Cmd.Answer)) : Prop :=
  ∃ own own₁ ext ext₁ x tail stop,
    (ls.flatMap Label.event).Perm (ls.flatMap Label.root ++ traces ext) ∧
    ls.flatMap Label.root = own ++ (tail ++ stop) ∧
    core.LastExecution taskId v promise entry data [] own ext own₁ ext₁ x ∧
    ((∃ msg, (⟨.panic msg, ()⟩ : Event) ∈ own₁) ∨ ∃ ext₀ own₂ c result todos, ext = ext₀ ++ ext₁ ∧
      (entry.func data.args).Runs core.sdk ext₀ (rootContext promise data) own₂ ext₁ c result ∧
      c.CollectsTo ext todos ∧ (c.FailsOnLoss ext todos ↔ c.LossReported ext) ∧
      ∀ e, todos = .error e → x = .error e) ∧
    ∀ e, x = .error e → tail = [] ∧
      ∃ answer, stop = [⟨.heartbeatStop taskId, ()⟩, ⟨.release taskId v, answer⟩]

/-- In every context, and in every handling: lost spawned work fails the collection,
and so leads to a release, exactly when the loss is reported. -/
theorem spawned_loss_fails_iff {core : Core} {taskId : String} {v : Int} {promise : PromiseRecord}
    {entry : RegistryEntry} {data : TaskData} {fuel : ℕ} {preload : List PromiseRecord}
    {ls : List (Label Cmd Cmd.Answer)} {n : Node Cmd Cmd.Answer End} {o : End}
    (h : core.Executes promise entry data) (hk : entry.kind = .workflow)
    (ho : n.result = some o) (hne : o ≠ .unfinished)
    (hs : Steps (.mk (core.executeUntilBlocked taskId v promise fuel preload) []) ls n) :
    (∀ (b : Body) (ks : List Kid) (c₀ : Context) (panicked : String → Prog)
        (k : Except Error (List String) → Prog), c₀.spawnedHandles = [] →
      DoesOrPanics ks panicked
        (fun own ext x => ∃ c r, b.Runs core.sdk ks c₀ own ext c r ∧ c.CollectsTo (ks ++ ext) x ∧
          (c.FailsOnLoss (ks ++ ext) x ↔ c.LossReported (ks ++ ext)))
        (b.exec core.sdk panicked c₀ fun c _ => c.collectRemoteTodos k) k) ∧
      core.FailsOnLoss taskId v promise entry data ls := by
  refine ⟨fun b ks c₀ panicked k h₀ => Body.exec_collects core.sdk b ks h₀ panicked k, ?_⟩
  obtain ⟨own, own₁, ext, ext₁, x, tail, status, stop, hperm, hroot, hlast, hc, hstop⟩ :=
    handling_concludes h ho hne hs
  refine ⟨own, own₁, ext, ext₁, x, tail, stop, hperm, hroot, hlast, ?_, ?_⟩
  · obtain ⟨-, preload', own₀, ext₀, -, rfl, hx⟩ := hlast
    rw [List.nil_append] at hx
    cases hx with
    | function own result hf => cases hk.symm.trans hf
    | workflow own ext c result todos _ hr hcol =>
      have hok : HandlesOk core.sdk ext₀ (Core.rootContext promise data) := fun e he => by cases he
      exact Or.inr ⟨ext₀, own, c, result, todos, rfl, hr, hcol,
        Context.failsOnLoss_iff (hok.runs hr) hcol,
        fun e he => by rw [he]; rfl⟩
    | panicked own ext msg hp => exact Or.inl ⟨msg, hp⟩
  · rintro e rfl
    cases hc
    exact ⟨rfl, hstop⟩

section Runs

def spawner (child : Body) : Body :=
  .next fun seq => .spawn seq ⟨"child", .function, ⟨.ok, .ok⟩⟩ (.ok .null) none child fun _ =>
    .ret (.ok .null)

def isPendingChild : Event → Bool
  | ⟨.create .run .., .ok record⟩ => record.state = .pending
  | _ => false

def isSettle : Event → Bool
  | ⟨.settle .., _⟩ => true
  | _ => false

end Runs

theorem spawned_loss_fails_returning : ∃ ls n,
    Steps (.mk ((workflowCore (spawner (.ret (.ok .null)))).executeUntilBlocked "t" 3 startedPromise
      1 []) []) ls n ∧
      (workflowCore (spawner (.ret (.ok .null)))).FailsOnLoss "t" 3 startedPromise
        ⟨.workflow, fun _ => spawner (.ret (.ok .null))⟩ ⟨"main", .null⟩ ls := by
  have h := Node.runAt_steps grantingReply [[], [], [], [], [0], [0], [0], [], [], []]
    (.mk ((workflowCore (spawner (.ret (.ok .null)))).executeUntilBlocked "t" 3 startedPromise 1 [])
      []) rfl
  exact ⟨_, _, h, (spawned_loss_fails_iff ⟨rfl, by decide, rfl, rfl⟩ rfl rfl (by simp) h).2⟩

/-- The spawned child panics and its promise is left pending; the workflow is fulfilled. -/
theorem panicked_child_fulfilled : ∃ ls n,
    Steps (.mk ((workflowCore (spawner (.panic "boom"))).executeUntilBlocked "t" 3 startedPromise 1
      []) []) ls n ∧
      n.result = some (.returned (.ok .done)) ∧ (ls.flatMap Label.event).any isPendingChild = true ∧
      (ls.flatMap Label.event).any isSettle = false ∧
      (ls.flatMap Label.root).any isFulfilled = true := by
  have h := Node.runAt_steps grantingReply [[], [], [], [], [0], [0], [0], [], [], []]
    (.mk ((workflowCore (spawner (.panic "boom"))).executeUntilBlocked "t" 3 startedPromise 1 [])
      []) rfl
  exact ⟨_, _, h, rfl, rfl, rfl, rfl⟩

end Resonate
