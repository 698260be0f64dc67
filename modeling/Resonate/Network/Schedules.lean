import Resonate.Network.Replies

/-!
# Schedules

The local network keeps schedules and never fires them. Each id is a register that the
first successful creation fills and a deletion empties; no other request and no tick
touches it, and a get shows it.
-/

namespace Resonate.Network
open Lib

section Frames

variable (s : ServerState) (now : Int) (id : String)

@[simp] theorem sendExecute_schedules (v : Int) : (s.sendExecute id v).schedules = s.schedules := by
  unfold ServerState.sendExecute
  split <;> rfl

@[simp] theorem enqueueSettle_schedules : (s.enqueueSettle id).schedules = s.schedules := by
  unfold ServerState.enqueueSettle
  split
  · split_ifs <;> rfl
  · dsimp only
    split_ifs <;> rfl

@[simp] theorem resumeAwaiter_schedules (b : String) :
    (ServerState.resumeAwaiter id now s b).schedules = s.schedules := by
  unfold ServerState.resumeAwaiter
  split
  · rfl
  · split
    · exact sendExecute_schedules _ _ _
    · rfl
    · rfl

@[simp] theorem resumeAwaiters_schedules : (s.resumeAwaiters id now).schedules = s.schedules := by
  have hfold : ∀ (l : List String) (s : ServerState),
      (l.foldl (ServerState.resumeAwaiter id now) s).schedules = s.schedules := by
    intro l
    induction l with
    | nil => exact fun _ => rfl
    | cons b l ih => exact fun s => (ih _).trans (resumeAwaiter_schedules s now id b)
  exact hfold _ s

@[simp] theorem notifySubscribers_schedules : (s.notifySubscribers id).schedules = s.schedules := by
  unfold ServerState.notifySubscribers
  split
  · rfl
  · split_ifs <;> rfl

theorem createTargetTask_schedules (address : String) (tags : HashMap String) (t : Int) :
    (s.createTargetTask id address tags t now).schedules = s.schedules := by
  unfold ServerState.createTargetTask
  dsimp only
  split <;> rfl

theorem perform_schedules {act : Act} (h : ∀ m, act ≠ .schedules m) :
    (s.perform now act).schedules = s.schedules := by
  cases act with
  | schedules m => exact absurd rfl (h m)
  | enqueue b => exact enqueueSettle_schedules s b
  | wake b => simp [ServerState.perform, ServerState.tickNotify]
  | addPending b req =>
    simp only [ServerState.perform, ServerState.addPending]
    split
    · exact createTargetTask_schedules _ _ _ _ _ _
    · rfl
  | addAcquired b req pid ttl =>
    simp only [ServerState.perform, ServerState.addAcquired]
    split_ifs <;> rfl
  | register b c =>
    simp only [ServerState.perform, ServerState.registerAwaiter]
    split_ifs <;> rfl
  | release b t => simp [ServerState.perform, ServerState.endLease, ServerState.setTTimeout]
  | retry b t => simp [ServerState.perform, ServerState.rearm, ServerState.setTTimeout]
  | _ => rfl

end Frames

theorem Performs.schedules {s s' : ServerState} {now : Int} {terminal : Prop} {P : Act → Prop}
    {E E' : Set String} (h : Performs now terminal P ⟨s, E⟩ ⟨s', E'⟩)
    (hP : ∀ act, P act → ∀ m, act ≠ .schedules m) : s'.schedules = s.schedules :=
  h.invariant (I := fun L => L.state.schedules = s.schedules)
    (fun L act _ hp hI => (perform_schedules L.state now (hP act hp)).trans hI) rfl

/-- The schedule that a creation request describes, if it is well formed. -/
def describedSchedule (now : Int) (req : Json) : Option ScheduleStub :=
  if (((req.get "promiseTags").bind Json.asObject).bind (·.lookup "resonate:target")).isSome then
    match requireStr req "id", requireStr req "cron", requireStr req "promiseId" with
    | .ok id, .ok cron, .ok promiseId => some (ServerState.scheduleOf req id cron promiseId now)
    | _, _, _ => none
  else none

/-- What an operation makes of the register of one id. -/
def Op.register (a : String) (op : Op) (held : Option ScheduleStub) : Option ScheduleStub :=
  match op with
  | .tick _ => held
  | .apply now req =>
    if strField req "id" = some a ∧ a ≠ "" then
      match ReqKind.ofName (kindOf req) with
      | some .scheduleCreate => held.or (describedSchedule now req)
      | some .scheduleDelete => none
      | _ => held
    else held

section Requests

variable {s : ServerState} {now : Int} {corrId req : Json} {a : String}

theorem scheduleCreate_register :
    (s.scheduleCreate now corrId req).1.schedules.lookup a =
      if strField req "id" = some a ∧ a ≠ "" then
        (s.schedules.lookup a).or (describedSchedule now req)
      else s.schedules.lookup a := by
  unfold ServerState.scheduleCreate describedSchedule
  cases hid : requireStr req "id" with
  | error e =>
    rw [if_neg fun h => by rw [requireStr_ok.mpr h] at hid; cases hid]
  | ok id =>
    obtain ⟨hf, hne⟩ := requireStr_ok.mp hid
    simp only [hf, Option.some.injEq]
    cases htag : (((req.get "promiseTags").bind Json.asObject).bind
        (·.lookup "resonate:target")).isSome with
    | false => simp
    | true =>
      simp only [Bool.not_true, Bool.false_eq_true, if_false, if_true]
      cases hl : s.schedules.lookup id with
      | some stub =>
        dsimp only
        split_ifs with h
        · rw [← h.1, hl]
          rfl
        · rfl
      | none =>
        dsimp only
        cases hcron : requireStr req "cron" with
        | error e => simp
        | ok cron =>
          dsimp only
          cases hpr : requireStr req "promiseId" with
          | error e => simp
          | ok promiseId =>
            dsimp only
            rw [HashMap.lookup_insert_ite]
            by_cases ha : a = id
            · subst ha
              rw [if_pos rfl, if_pos ⟨rfl, hne⟩, hl]
              rfl
            · rw [if_neg ha, if_neg fun h => ha h.1.symm]

theorem scheduleDelete_register :
    (s.scheduleDelete corrId req).1.schedules.lookup a =
      if strField req "id" = some a ∧ a ≠ "" then none else s.schedules.lookup a := by
  unfold ServerState.scheduleDelete
  cases hid : requireStr req "id" with
  | error e =>
    rw [if_neg fun h => by rw [requireStr_ok.mpr h] at hid; cases hid]
  | ok id =>
    obtain ⟨hf, hne⟩ := requireStr_ok.mp hid
    simp only [hf, Option.some.injEq]
    cases hl : s.schedules.lookup id with
    | none =>
      dsimp only
      split_ifs with h
      · rw [← h.1, hl]
      · rfl
    | some stub =>
      dsimp only
      rw [HashMap.lookup_erase_ite]
      by_cases ha : a = id
      · rw [if_pos ha, if_pos ⟨ha.symm, ha ▸ hne⟩]
      · rw [if_neg ha, if_neg fun h => ha h.1.symm]

theorem prepared_schedules (s : ServerState) (now : Int) (req : Json) :
    (s.prepared now req).schedules = s.schedules :=
  have h : Performs now False (fun act => ∀ m, act ≠ .schedules m) ⟨s, ∅⟩ ⟨s.prepared now req, ∅⟩ :=
    ServerState.prepared_performs (fun _ h => by cases h) (fun _ _ _ h => by cases h)
      (fun _ _ h => by cases h) fun _ _ h => by cases h
  h.schedules fun _ h => h

theorem dispatch_schedules {kind : ReqKind} (hc : kind ≠ .scheduleCreate)
    (hd : kind ≠ .scheduleDelete) : (s.dispatch now corrId req kind).1.schedules = s.schedules := by
  have hperf : ∀ {s' : ServerState}, Performs now False (fun act => ∀ m, act ≠ .schedules m)
      ⟨s, ∅⟩ ⟨s', ∅⟩ → s'.schedules = s.schedules := fun h => h.schedules fun _ h => h
  cases kind with
  | promiseGet => rw [ServerState.dispatch, ServerState.promiseGet_fst]
  | promiseCreate =>
    exact hperf (ServerState.promiseCreate_performs (fun _ _ => by simp) (fun _ => by simp)
      fun _ => by simp)
  | promiseSettle =>
    exact hperf (ServerState.promiseSettle_performs (fun _ _ => by simp) (fun h => h.elim)
      (fun _ => by simp) fun _ => by simp)
  | promiseRegisterListener =>
    exact hperf (ServerState.promiseRegisterListener_performs fun _ _ => by simp)
  | taskCreate =>
    exact hperf (ServerState.taskCreate_performs (fun _ _ _ _ => by simp)
      fun _ _ _ _ => by simp)
  | taskAcquire => exact hperf (ServerState.taskAcquire_performs fun _ _ _ _ => by simp)
  | taskRelease => exact hperf (ServerState.taskRelease_performs fun _ _ => by simp)
  | taskFulfill =>
    exact hperf (ServerState.taskFulfill_performs (fun _ => Or.inl (by simp)) (fun h => h.elim)
      (fun _ => by simp) fun _ => by simp)
  | taskFence =>
    exact hperf (ServerState.taskFence_performs (fun _ _ _ => by simp) (fun h => h.elim)
      (fun _ _ _ => by simp) (fun _ => by simp) fun _ => by simp)
  | taskSuspend =>
    exact hperf (ServerState.taskSuspend_performs (fun _ => by simp) (fun _ _ _ _ => by simp)
      fun _ _ => by simp)
  | taskHeartbeat => exact hperf (ServerState.taskHeartbeat_performs fun _ _ => by simp)
  | scheduleCreate => exact absurd rfl hc
  | scheduleGet => rw [ServerState.dispatch, ServerState.scheduleGet_fst]
  | scheduleDelete => exact absurd rfl hd
  | scheduleSearch => rfl

/-- One step of the register of each id. -/
theorem exec_register (s : ServerState) (op : Op) (a : String) :
    (s.exec op).schedules.lookup a = op.register a (s.schedules.lookup a) := by
  cases op with
  | tick now =>
    have htick : (s.tick now).schedules = s.schedules := by
      have hp : Performs now True Act.FromTick ⟨s, ∅⟩ ⟨s.tick now, ∅⟩ :=
        ServerState.tick_performs s now
      refine hp.schedules fun act hact m he => ?_
      subst he
      exact hact
    exact congrArg (AList.lookup a) htick
  | apply now req =>
    have hkeep : ∀ {o : Option ScheduleStub}, o = s.schedules.lookup a →
        (if strField req "id" = some a ∧ a ≠ "" then o else s.schedules.lookup a) =
          s.schedules.lookup a := by
      rintro _ rfl
      exact ite_self _
    change (s.apply now req).1.schedules.lookup a = _
    rw [Op.register]
    cases hk : ReqKind.ofName (kindOf req) with
    | none =>
      have happly : (s.apply now req).1 = s.prepared now req := by
        simp only [ServerState.apply, hk]
      rw [happly, prepared_schedules]
      exact (hkeep rfl).symm
    | some kind =>
      rw [ServerState.apply_eq_dispatch hk]
      by_cases hc : kind = .scheduleCreate
      · subst hc
        rw [← prepared_schedules s now req]
        exact scheduleCreate_register
      · by_cases hd : kind = .scheduleDelete
        · subst hd
          rw [← prepared_schedules s now req]
          exact scheduleDelete_register
        · rw [dispatch_schedules hc hd, prepared_schedules]
          cases kind <;> first | exact (hkeep rfl).symm | exact absurd rfl hc | exact absurd rfl hd

end Requests

def Op.Creates (a : String) (stub : ScheduleStub) : Op → Prop
  | .tick _ => False
  | .apply now req => ReqKind.ofName (kindOf req) = some .scheduleCreate ∧
      strField req "id" = some a ∧ a ≠ "" ∧ describedSchedule now req = some stub

def Op.Deletes (a : String) : Op → Prop
  | .tick _ => False
  | .apply _ req => ReqKind.ofName (kindOf req) = some .scheduleDelete ∧
      strField req "id" = some a ∧ a ≠ ""

theorem register_some {a : String} {op : Op} {held : Option ScheduleStub} {stub : ScheduleStub} :
    op.register a held = some stub ↔
      (held = some stub ∧ ¬ op.Deletes a) ∨ (held = none ∧ op.Creates a stub) := by
  cases op with
  | tick now => simp [Op.register, Op.Deletes, Op.Creates]
  | apply now req =>
    by_cases hn : strField req "id" = some a ∧ a ≠ ""
    · rw [Op.register, if_pos hn]
      by_cases hc : ReqKind.ofName (kindOf req) = some .scheduleCreate
      · simp only [hc, Op.Deletes, Op.Creates, Option.or_eq_some_iff]
        grind
      · by_cases hd : ReqKind.ofName (kindOf req) = some .scheduleDelete
        · simp [hd, Op.Deletes, Op.Creates, hn]
        · have hr : (match ReqKind.ofName (kindOf req) with
              | some .scheduleCreate => held.or (describedSchedule now req)
              | some .scheduleDelete => none
              | _ => held) = held := by
            split
            · exact absurd ‹_› hc
            · exact absurd ‹_› hd
            · rfl
          rw [hr]
          simp [Op.Deletes, Op.Creates, hc, hd]
    · rw [Op.register, if_neg hn]
      simp only [Op.Deletes, Op.Creates]
      grind

/-- In any run of requests and ticks, the server holds a schedule exactly if a request
created it when its id was free, and none has deleted it since. -/
theorem schedule_held_iff (ops : List Op) (a : String) (stub : ScheduleStub) :
    (ServerState.init.run ops).schedules.lookup a = some stub ↔
      ∃ pre op post, ops = pre ++ op :: post ∧ op.Creates a stub ∧
        (ServerState.init.run pre).schedules.lookup a = none ∧ ∀ later ∈ post, ¬ later.Deletes a := by
  induction ops using List.reverseRecOn generalizing stub with
  | nil =>
    constructor
    · intro h
      cases h
    · rintro ⟨pre, op, post, h, -⟩
      exact absurd h.symm (by simp)
  | append_singleton ops op ih =>
    have hstep : (ServerState.init.run (ops ++ [op])).schedules.lookup a =
        op.register a ((ServerState.init.run ops).schedules.lookup a) := by
      rw [ServerState.run, Machine.run_append]
      exact exec_register _ op a
    rw [hstep, register_some, ih]
    constructor
    · rintro (⟨⟨pre, op', post, rfl, hc, hfree, hkept⟩, hdel⟩ | ⟨hfree, hc⟩)
      · refine ⟨pre, op', post ++ [op], by simp, hc, hfree, fun later hl => ?_⟩
        rcases List.mem_append.mp hl with hl | hl
        · exact hkept later hl
        · exact List.mem_singleton.mp hl ▸ hdel
      · exact ⟨ops, op, [], rfl, hc, hfree, fun _ h => by cases h⟩
    · rintro ⟨pre, op', post, heq, hc, hfree, hkept⟩
      cases post using List.reverseRecOn with
      | nil =>
        obtain ⟨rfl, hlast⟩ := List.append_inj' heq rfl
        obtain rfl := (List.cons.inj hlast).1
        exact Or.inr ⟨hfree, hc⟩
      | append_singleton post last =>
        rw [← List.cons_append, ← List.append_assoc] at heq
        obtain ⟨rfl, hlast⟩ := List.append_inj' heq rfl
        obtain rfl := (List.cons.inj hlast).1
        exact Or.inl ⟨⟨pre, op', post, rfl, hc, hfree, fun later hl => hkept later (by simp [hl])⟩,
          hkept op (by simp)⟩

end Resonate.Network
