import Resonate.Discharge

/-!
# The executions of a handling

A handling executes its function once for each redirect and once more. Whatever it
sends to fulfil or suspend the task concludes an execution that was carried out to
its end; the last execution is concluded by the operation its outcome asks for, or
by the release of the task.
-/

namespace Resonate
open Lib Lib.ForkJoin

def Cmd.IsFinal (c : Cmd) : Prop :=
  (∃ id v action, c = .fulfill id v action) ∨ ∃ id v actions, c = .suspend id v actions

theorem Cmd.IsFinal.not_ofCalls {c : Cmd} (h : c.IsFinal) : ¬ c.OfCalls := by
  rcases h with ⟨_, _, _, rfl⟩ | ⟨_, _, _, rfl⟩ <;> exact id

namespace Core

structure Executes (core : Core) (promise : PromiseRecord) (entry : RegistryEntry)
    (data : TaskData) : Prop where
  pending : promise.state = .pending
  untimed : ¬ promise.isTimer
  parsed : TaskData.ofJson promise.param.dataOrNull = some data
  registered : core.registry data.func = some entry

section Conclusion

variable (core : Core) (taskId : String) (v : Int) (promise : PromiseRecord)

/-- The request that concludes an execution with this result and these todos. -/
inductive Finalizes : Except Error Json → List String → Event → Prop
  | fulfill (result : Except Error Json) (value : Value) (answer : Except Error PromiseRecord)
      (h : core.sdk.codec.encode (recorded result).2 = .ok value) :
      Finalizes result [] ⟨.fulfill taskId v ⟨promise.id, (recorded result).1, value⟩, answer⟩
  | suspend (result : Except Error Json) (todos : List String)
      (answer : Except Error SuspendResult) (h : todos ≠ []) :
      Finalizes result todos
        ⟨.suspend taskId v (todos.map fun awaited => ⟨awaited, taskId⟩), answer⟩

inductive Concludes : Except Error (Except Error Json × List String) → List Event →
    Except Error Status → Prop
  | failed (e : Error) : Concludes (.error e) [] (.error e)
  | unencoded (result : Except Error Json) (e : Error)
      (h : core.sdk.codec.encode (recorded result).2 = .error e) :
      Concludes (.ok (result, [])) [] (.error e)
  | fulfilled (result : Except Error Json) (value : Value) (answer : Except Error PromiseRecord)
      (h : core.sdk.codec.encode (recorded result).2 = .ok value) :
      Concludes (.ok (result, []))
        [⟨.fulfill taskId v ⟨promise.id, (recorded result).1, value⟩, answer⟩]
        (answer.map fun _ => .done)
  | suspended (result : Except Error Json) (todos : List String) (answer : Except Error Unit)
      (h : todos ≠ []) :
      Concludes (.ok (result, todos))
        [⟨.suspend taskId v (todos.map fun awaited => ⟨awaited, taskId⟩),
          answer.map fun _ => .suspended⟩]
        (answer.map fun _ => .suspended)

end Conclusion

section LastExecution

variable (core : Core) (taskId : String) (v : Int) (promise : PromiseRecord) (entry : RegistryEntry)
  (data : TaskData)

/-- The events `own` and the children `ext` end with those of an execution. -/
def LastExecution (ks : List Kid) (own : List Event) (ext : List Kid) (own₁ : List Event)
    (ext₁ : List Kid) (x : Except Error (Except Error Json × List String)) : Prop :=
  (∀ e ∈ own₁, e.1.OfCalls) ∧ ∃ preload own₀ ext₀, own = own₀ ++ own₁ ∧ ext = ext₀ ++ ext₁ ∧
    core.ExecuteRuns taskId v promise entry data preload (ks ++ ext₀) own₁ ext₁ x

variable {core taskId v promise entry data}

theorem LastExecution.of_runs {ks ext : List Kid} {own : List Event} {preload : List PromiseRecord}
    {x : Except Error (Except Error Json × List String)}
    (hcalls : ∀ e ∈ own, e.1.OfCalls)
    (h : core.ExecuteRuns taskId v promise entry data preload ks own ext x) :
    core.LastExecution taskId v promise entry data ks own ext own ext x :=
  ⟨hcalls, preload, [], [], rfl, rfl, by simpa using h⟩

theorem LastExecution.prepend {ks ext ext₁ : List Kid} {own own₁ : List Event}
    {x : Except Error (Except Error Json × List String)} (own₀ : List Event) (ext₀ : List Kid)
    (h : core.LastExecution taskId v promise entry data (ks ++ ext₀) own ext own₁ ext₁ x) :
    core.LastExecution taskId v promise entry data ks (own₀ ++ own) (ext₀ ++ ext) own₁ ext₁ x := by
  obtain ⟨hcalls, preload, own', ext', rfl, rfl, hx⟩ := h
  exact ⟨hcalls, preload, own₀ ++ own', ext₀ ++ ext', by simp, by simp, by simpa using hx⟩

end LastExecution

variable {core : Core} {taskId : String} {v : Int} {promise : PromiseRecord}
  {entry : RegistryEntry} {data : TaskData} {k : Except Error Status → Prog}

theorem split_at {own₁ own₂ pre post : List Event} {fin : Event} (h : own₁ ++ own₂ = pre ++ fin :: post)
    (hf : fin ∉ own₁) : ∃ pre₂, pre = own₁ ++ pre₂ ∧ own₂ = pre₂ ++ fin :: post := by
  rcases List.append_eq_append_iff.mp h with ⟨as, rfl, hown⟩ | ⟨bs, rfl, hfin⟩
  · exact ⟨as, rfl, hown⟩
  · cases bs with
    | nil => exact ⟨[], by simp, hfin.symm⟩
    | cons b bs =>
      obtain ⟨rfl, -⟩ := List.cons.inj hfin
      exact absurd (by simp) hf

theorem loop_finalizes (fuel : ℕ) {ks ext : List Kid} {preload : List PromiseRecord}
    {pre post : List Event} {fin : Event} {r : Option End} (hf : fin.1.IsFinal)
    (hk : ∀ res ks own ext r, Behav ks (k res) own ext r → ∀ e ∈ own, ¬ e.1.IsFinal)
    (hb : Behav ks (core.loop taskId v promise entry data k fuel preload) (pre ++ fin :: post) ext r) :
    ∃ own₁ ext' ext₁ ext₂ result todos, ext = ext' ++ ext₂ ∧
      core.LastExecution taskId v promise entry data ks pre ext' own₁ ext₁ (.ok (result, todos)) ∧
      core.Finalizes taskId v promise result todos fin := by
  induction fuel generalizing ks ext preload pre with
  | zero =>
    obtain ⟨h, -, -⟩ := Behav.ret_iff.mp hb
    simp at h
  | succ fuel ih =>
    rw [loop] at hb
    rcases execute_does core taskId v promise entry data preload ks _ _ _ _ hb with
      ⟨own₁, ext₁, x, own₂, ext₂, hown, rfl, hcalls, hx, hb⟩ | ⟨-, hcalls⟩
    · obtain ⟨pre₂, rfl, rfl⟩ := split_at hown.symm fun h => hf.not_ofCalls (hcalls _ h)
      have hlater : ∀ {res ks ext a pre₃}, Behav ks (k res) (pre₃ ++ fin :: post) ext a → False :=
        fun h => hk _ _ _ _ _ h fin (by simp) hf
      have hlast := LastExecution.of_runs hcalls hx
      rcases x with e | ⟨result, todos⟩
      · exact (hlater hb).elim
      · rcases todos with _ | ⟨todo, todos⟩
        · dsimp only [fulfillTask] at hb
          cases henc : core.sdk.codec.encode (recorded result).2 with
          | error e =>
            rw [henc] at hb
            exact (hlater hb).elim
          | ok value =>
            rw [henc] at hb
            generalize hq : pre₂ ++ fin :: post = own at hb
            cases hb with
            | cut => simp at hq
            | call a hb =>
              cases pre₂ with
              | nil =>
                obtain ⟨rfl, -⟩ := List.cons.inj hq
                exact ⟨own₁, ext₁, ext₁, ext₂, result, [], rfl, by simpa using hlast,
                  .fulfill result value a henc⟩
              | cons e pre₃ =>
                obtain ⟨-, rfl⟩ := List.cons.inj hq
                cases a <;> exact (hlater hb).elim
        · dsimp only [suspendTask] at hb
          generalize hq : pre₂ ++ fin :: post = own at hb
          cases hb with
          | cut => simp at hq
          | call a hb =>
            cases pre₂ with
            | nil =>
              obtain ⟨rfl, -⟩ := List.cons.inj hq
              exact ⟨own₁, ext₁, ext₁, ext₂, result, todo :: todos, rfl, by simpa using hlast,
                .suspend result (todo :: todos) a (by simp)⟩
            | cons e pre₃ =>
              obtain ⟨-, rfl⟩ := List.cons.inj hq
              rcases a with err | _ | preload'
              · exact (hlater hb).elim
              · exact (hlater hb).elim
              · obtain ⟨own₁', ext', ext₁', ext₂', result', todos', rfl, hrun, hfin⟩ := ih hb
                exact ⟨own₁', ext₁ ++ ext', ext₁', ext₂', result', todos', by simp,
                  by simpa using hrun.prepend (own₁ ++ [e]) ext₁, hfin⟩
    · exact absurd (hcalls fin (by simp)) hf.not_ofCalls

theorem loop_concludes (fuel : ℕ) {ks ext : List Kid} {preload : List PromiseRecord}
    {own : List Event} {o : End} (ho : o ≠ .unfinished)
    (hb : Behav ks (core.loop taskId v promise entry data k fuel preload) own ext (some o)) :
    ∃ own' own₁ own₂ ext' ext₁ ext₂ x tail status, own = own' ++ (tail ++ own₂) ∧
      ext = ext' ++ ext₂ ∧ core.LastExecution taskId v promise entry data ks own' ext' own₁ ext₁ x ∧
      core.Concludes taskId v promise x tail status ∧
      Behav (ks ++ ext') (k status) own₂ ext₂ (some o) := by
  induction fuel generalizing ks ext preload own with
  | zero =>
    obtain ⟨-, -, h⟩ := Behav.ret_iff.mp hb
    exact absurd (Option.some.inj h) ho
  | succ fuel ih =>
    rw [loop] at hb
    rcases execute_does core taskId v promise entry data preload ks _ _ _ _ hb with
      ⟨own₁, ext₁, x, own₂, ext₂, rfl, rfl, hcalls, hx, hb⟩ | ⟨h, -⟩
    · have hlast := LastExecution.of_runs hcalls hx
      rcases x with e | ⟨result, todos⟩
      · exact ⟨own₁, own₁, own₂, ext₁, ext₁, ext₂, _, _, _, rfl, rfl, hlast, .failed e, hb⟩
      · rcases todos with _ | ⟨todo, todos⟩
        · dsimp only [fulfillTask] at hb
          cases henc : core.sdk.codec.encode (recorded result).2 with
          | error e =>
            rw [henc] at hb
            exact ⟨own₁, own₁, own₂, ext₁, ext₁, ext₂, _, _, _, rfl, rfl, hlast,
              .unencoded result e henc, hb⟩
          | ok value =>
            rw [henc] at hb
            cases hb with
            | @call _ _ _ _ own₃ _ a hb =>
              refine ⟨own₁, own₁, own₃, ext₁, ext₁, ext₂, _, _, _, rfl, rfl, hlast,
                .fulfilled result value a henc, ?_⟩
              cases a <;> exact hb
        · dsimp only [suspendTask] at hb
          cases hb with
          | @call _ _ _ _ own₃ _ a hb =>
            rcases a with e | _ | preload'
            · exact ⟨own₁, own₁, own₃, ext₁, ext₁, ext₂, _, _, _, rfl, rfl, hlast,
                .suspended result (todo :: todos) (.error e) (by simp), hb⟩
            · exact ⟨own₁, own₁, own₃, ext₁, ext₁, ext₂, _, _, _, rfl, rfl, hlast,
                .suspended result (todo :: todos) (.ok ()) (by simp), hb⟩
            · obtain ⟨own', own₁', own₂', ext', ext₁', ext₂', x', tail, status, rfl, rfl, hrun, hc,
                hb⟩ :=
                ih hb
              exact ⟨own₁ ++ [_] ++ own', own₁', own₂', ext₁ ++ ext', ext₁', ext₂', x', tail, status,
                by simp; rfl, by simp, hrun.prepend _ ext₁, hc, by simpa using hb⟩
    · cases h

end Core

section Handling

variable {core : Core} {taskId : String} {v : Int} {promise : PromiseRecord}
  {entry : RegistryEntry} {data : TaskData}

def stopping (taskId : String) (v : Int) (result : Except Error Status) : Prog :=
  .call (.heartbeatStop taskId) fun _ =>
    match result with
    | .ok status => .ret (.returned (.ok status))
    | .error e => .call (.release taskId v) fun _ => .ret (.returned (.error e))

def Stopped (taskId : String) (v : Int) (status : Except Error Status) (stop : List Event) : Prop :=
  match status with
  | .ok _ => stop = [⟨.heartbeatStop taskId, ()⟩]
  | .error _ => ∃ answer, stop = [⟨.heartbeatStop taskId, ()⟩, ⟨.release taskId v, answer⟩]

theorem stopping_stopped {ks ext : List Kid} {own : List Event} {o : End}
    {status : Except Error Status} (hb : Behav ks (stopping taskId v status) own ext (some o)) :
    Stopped taskId v status own ∧ ext = [] := by
  cases hb with
  | call a hb =>
    cases status with
    | ok s =>
      obtain ⟨rfl, rfl, -⟩ := Behav.ret_iff.mp hb
      exact ⟨rfl, rfl⟩
    | error e =>
      cases hb with
      | call answer hb =>
        obtain ⟨rfl, rfl, -⟩ := Behav.ret_iff.mp hb
        exact ⟨⟨answer, rfl⟩, rfl⟩

theorem stopping_not_final {status : Except Error Status} {ks : List Kid} {own : List Event}
    {ext : List Kid} {r : Option End} (hb : Behav ks (stopping taskId v status) own ext r) :
    ∀ e ∈ own, ¬ e.1.IsFinal := by
  have hstop : ∀ {c : Cmd} {a : c.Answer} {own : List Event},
      c = .heartbeatStop taskId ∨ c = .release taskId v → (∀ e ∈ own, ¬ e.1.IsFinal) →
      ∀ e ∈ (⟨c, a⟩ :: own : List Event), ¬ e.1.IsFinal := by
    intro c a own hc hown e he
    rcases List.mem_cons.mp he with rfl | he
    · rcases hc with rfl | rfl <;> simp [Cmd.IsFinal]
    · exact hown e he
  cases hb with
  | cut => simp
  | call a hb =>
    refine hstop (Or.inl rfl) ?_
    cases status with
    | ok s =>
      obtain ⟨rfl, -⟩ := Behav.ret_iff.mp hb
      simp
    | error e =>
      cases hb with
      | cut => simp
      | call answer hb =>
        obtain ⟨rfl, -⟩ := Behav.ret_iff.mp hb
        exact hstop (Or.inr rfl) (by simp)

theorem Core.executeUntilBlocked_eq (h : core.Executes promise entry data) (fuel : ℕ)
    (preload : List PromiseRecord) :
    core.executeUntilBlocked taskId v promise fuel preload =
      .call (.heartbeatStart taskId v) fun _ =>
        core.loop taskId v promise entry data (stopping taskId v) fuel preload := by
  rw [executeUntilBlocked, if_neg fun ht => h.untimed ht.1]
  simp only [executeUntilBlockedInner]
  rw [if_neg fun ht => h.untimed ht.1, h.parsed]
  simp only [h.registered, h.pending, ne_eq, not_true_eq_false, if_false]
  rfl

/-- The execution that a fulfil or a suspend of a run concludes has ended before it. -/
theorem handling_finalizes (h : core.Executes promise entry data) {fuel : ℕ}
    {preload : List PromiseRecord} {ls : List (Label Cmd Cmd.Answer)} {fin : Event}
    {n : Node Cmd Cmd.Answer End} (hf : fin.1.IsFinal)
    (hs : Steps (.mk (core.executeUntilBlocked taskId v promise fuel preload) [])
      (ls ++ [.own fin]) n) :
    ∃ own₁ ext' ext₁ ext₂ result todos,
      (ls.flatMap Label.event).Perm (ls.flatMap Label.root ++ traces (ext' ++ ext₂)) ∧
      core.LastExecution taskId v promise entry data [] (ls.flatMap Label.root) ext' own₁ ext₁
        (.ok (result, todos)) ∧
      core.Finalizes taskId v promise result todos fin := by
  obtain ⟨ext, hb, hperm⟩ := hs.behav
  simp only [List.flatMap_append, List.flatMap_singleton, Label.event, Label.root] at hb hperm
  rw [Core.executeUntilBlocked_eq h] at hb
  generalize ls.flatMap Label.root = own at hb hperm
  cases own with
  | nil =>
    cases hb with
    | call a hb => rcases hf with ⟨_, _, _, hf⟩ | ⟨_, _, _, hf⟩ <;> cases hf
  | cons e own =>
    cases hb with
    | call a hb =>
      obtain ⟨own₁, ext', ext₁, ext₂, result, todos, rfl, hlast, hfin⟩ :=
        Core.loop_finalizes fuel hf (fun _ _ _ _ _ => stopping_not_final) hb
      refine ⟨own₁, ext', ext₁, ext₂, result, todos, ?_, hlast.prepend [_] [], hfin⟩
      rw [List.append_assoc] at hperm
      have hswap := hperm.trans (List.perm_append_comm.append_left _)
      rw [← List.append_assoc] at hswap
      exact (List.perm_append_right_iff _).mp hswap

/-- A handling that returns has concluded its last execution. -/
theorem handling_concludes (h : core.Executes promise entry data) {fuel : ℕ}
    {preload : List PromiseRecord} {ls : List (Label Cmd Cmd.Answer)}
    {n : Node Cmd Cmd.Answer End} {o : End} (ho : n.result = some o) (hne : o ≠ .unfinished)
    (hs : Steps (.mk (core.executeUntilBlocked taskId v promise fuel preload) []) ls n) :
    ∃ own own₁ ext ext₁ x tail status stop,
      (ls.flatMap Label.event).Perm (ls.flatMap Label.root ++ traces ext) ∧
      ls.flatMap Label.root = own ++ (tail ++ stop) ∧
      core.LastExecution taskId v promise entry data [] own ext own₁ ext₁ x ∧
      core.Concludes taskId v promise x tail status ∧ Stopped taskId v status stop := by
  obtain ⟨ext, hb, hperm⟩ := hs.behav
  rw [Core.executeUntilBlocked_eq h, ho] at hb
  generalize ls.flatMap Label.root = own at hb hperm
  cases hb with
  | call a hb =>
    obtain ⟨own', own₁, own₂, ext', ext₁, ext₂, x, tail, status, rfl, rfl, hlast, hc, hb⟩ :=
      Core.loop_concludes fuel hne hb
    obtain ⟨hstop, rfl⟩ := stopping_stopped hb
    exact ⟨_, own₁, ext', ext₁, x, tail, status, own₂, by simpa using hperm, by simp; rfl,
      hlast.prepend [_] [], hc, hstop⟩

end Handling

section Instances

def workflowCore (body : Body) : Core :=
  { bareCore with registry := fun _ => some ⟨.workflow, fun _ => body⟩ }

def startedPromise : PromiseRecord :=
  ⟨"t", .pending, { data := some (.obj [("func", .str "main")]) }, {}, ∅, 100000, 0, none⟩

def grantingReply : (c : Cmd) → c.Answer
  | .acquire .. => .ok (acquiredWith .null)
  | .now => (0 : Int)
  | .user => Json.null
  | .create _ _ _ req => .ok ⟨req.id, .pending, req.param, {}, req.tags, req.timeoutAt, 0, none⟩
  | .settle .. | .fulfill .. => .ok startedPromise
  | .suspend .. => .ok .suspended
  | .created _ id => .ok id
  | .release .. => .ok ()
  | .panic _ | .execute _ | .effects .. | .heartbeatStart .. | .heartbeatStop _ => ()

def isFulfilled : Event → Bool
  | ⟨.fulfill .., .ok _⟩ => true
  | _ => false

end Instances

end Resonate
