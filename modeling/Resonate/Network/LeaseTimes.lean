import Resonate.Network.Granting
import Resonate.Network.Queues

/-!
# When leases end

A lease is granted by `task.create` and `task.acquire` and renewed by `task.heartbeat`, each
with an end computed from a ttl. No other step touches the entry of a lease that goes on.
-/

namespace Resonate.Network
open Lib

def Act.NoLease : Act → Prop
  | grant .. | addAcquired .. | beat .. => False
  | _ => True

def Act.Expires : Act → Prop
  | clearOutgoing | expire _ | enqueue _ | wake _ => True
  | _ => False

def ServerState.LeaseKept (s s' : ServerState) (a : String) : Prop :=
  ∀ u, s'.tasks.lookup a = some u → u.state = .acquired →
    ∃ t, s.tasks.lookup a = some t ∧ t.state = .acquired ∧ u.ttl = t.ttl ∧ s'.tEntries a = s.tEntries a

section Actions

variable {now : Int} {terminal : Prop} {P : Act → Prop} {L : Ledger} {act : Act}
  {s s' s'' : ServerState}
  {a : String}

theorem ServerState.LeaseKept.refl (s : ServerState) (a : String) : s.LeaseKept s a :=
  fun u hu hst => ⟨u, hu, hst, rfl, rfl⟩

theorem ServerState.LeaseKept.trans (h : s.LeaseKept s' a) (h' : s'.LeaseKept s'' a) :
    s.LeaseKept s'' a := by
  intro u hu hst
  obtain ⟨t', ht', hst', httl', hes'⟩ := h' u hu hst
  obtain ⟨t, ht, hst, httl, hes⟩ := h t' ht' hst'
  exact ⟨t, ht, hst, httl'.trans httl, hes'.trans hes⟩

theorem resumedTask_acquired {id : String} {t : Task} (h : (resumedTask id t).state = .acquired) :
    t.state = .acquired ∧ (resumedTask id t).ttl = t.ttl := by
  unfold resumedTask at h ⊢
  cases hst : t.state with
  | acquired => simp
  | _ => simp_all

theorem perform_kept (hg : act.Guard now terminal L) (hq : act.NoLease) :
    L.state.LeaseKept (L.step now act).state a := by
  intro u hu hst
  rw [Ledger.step, ServerState.perform_tasks] at hu
  rw [Ledger.step, ServerState.perform_tEntries]
  have hsame : L.state.tasks.lookup a = some u → L.state.tEntriesAfter now a act = L.state.tEntries a →
      ∃ t, L.state.tasks.lookup a = some t ∧ t.state = .acquired ∧ u.ttl = t.ttl ∧
        L.state.tEntriesAfter now a act = L.state.tEntries a := fun hu hes => ⟨u, hu, hst, rfl, hes⟩
  cases act with
  | grant id pid ttl | addAcquired id req pid ttl | beat id t => exact hq.elim
  | enqueue id =>
    simp only [ServerState.taskAfter] at hu
    split_ifs at hu with ha
    · rw [ServerState.taskOfSettled_fulfilled _ _ hu] at hst
      cases hst
    · exact hsame hu (by simp [ServerState.tEntriesAfter, ha])
  | wake id =>
    simp only [ServerState.taskAfter] at hu
    split_ifs at hu with ha
    · obtain ⟨t, ht, rfl⟩ := Option.map_eq_some_iff.mp hu
      obtain ⟨hacq, httl⟩ := resumedTask_acquired hst
      have hno : L.state.resumeTimer a now = none := by
        simp [ServerState.resumeTimer, ht, Option.filter_some, hacq]
      exact ⟨t, ht, hacq, httl, by simp [ServerState.tEntriesAfter, ha, hno]⟩
    · exact hsame hu (by simp [ServerState.tEntriesAfter, ha])
  | addPending id req =>
    simp only [ServerState.taskAfter] at hu
    split_ifs at hu with ha
    · obtain rfl := Option.some.inj hu
      cases hst
    · exact hsame hu (by simp [ServerState.tEntriesAfter, ha])
  | addFulfilled id req =>
    simp only [ServerState.taskAfter] at hu
    split_ifs at hu with ha
    · obtain rfl := Option.some.inj hu
      cases hst
    · exact hsame hu rfl
  | release id t =>
    simp only [ServerState.taskAfter] at hu
    split_ifs at hu with ha
    · obtain ⟨t, -, rfl⟩ := Option.map_eq_some_iff.mp hu
      cases hst
    · exact hsame hu (by simp [ServerState.tEntriesAfter, ha])
  | clearResumes id =>
    simp only [ServerState.taskAfter] at hu
    split_ifs at hu with ha
    · obtain ⟨t, ht, rfl⟩ := Option.map_eq_some_iff.mp hu
      exact ⟨t, ht, hst, rfl, rfl⟩
    · exact hsame hu rfl
  | suspend id =>
    simp only [ServerState.taskAfter] at hu
    split_ifs at hu with ha
    · obtain ⟨t, -, rfl⟩ := Option.map_eq_some_iff.mp hu
      cases hst
    · exact hsame hu (by simp [ServerState.tEntriesAfter, ha])
  | retry id t =>
    simp only [ServerState.taskAfter] at hu
    refine hsame hu ?_
    have ha : a ≠ id := by
      rintro rfl
      obtain ⟨ht, hpend⟩ := hg
      obtain rfl := Option.some.inj (hu.symm.trans ht)
      rw [hst] at hpend
      cases hpend
    simp [ServerState.tEntriesAfter, ha]
  | _ => exact hsame hu rfl

theorem Performs.kept (h : Performs now terminal P L ⟨s', ∅⟩) (hP : ∀ act, P act → act.NoLease) :
    L.state.LeaseKept s' a :=
  h.invariant (I := fun L' => L.state.LeaseKept L'.state a)
    (fun _ act hg hp hI => hI.trans (perform_kept hg (hP act hp))) (.refl _ a)

theorem prepared_not_pending {req : Json} (h : s.taskIs a .acquired) :
    ¬ (s.prepared now req).taskIs a .pending := by
  have hperf : Performs now True Act.Expires ⟨s, ∅⟩ ⟨s.prepared now req, ∅⟩ :=
    ServerState.prepared_performs trivial (fun _ _ => trivial) (fun _ => trivial) (fun _ => trivial)
  have hinv := hperf.invariant (I := fun L => L.state.taskIs a .acquired ∨
    L.state.taskIs a .fulfilled) ?_
    (Or.inl h)
  · rintro ⟨t, ht, hpend⟩
    rcases hinv with ⟨u, hu, hst⟩ | ⟨u, hu, hst⟩
    · obtain rfl := Option.some.inj (ht.symm.trans hu)
      cases hpend.symm.trans hst
    · obtain rfl := Option.some.inj (ht.symm.trans hu)
      cases hpend.symm.trans hst
  · intro L act hg hp hI
    unfold ServerState.taskIs
    rw [Ledger.step, ServerState.perform_tasks]
    cases act with
    | enqueue id =>
      simp only [ServerState.taskAfter]
      split_ifs with ha
      · subst ha
        obtain ⟨t, ht⟩ : ∃ t, L.state.tasks.lookup a = some t := by
          rcases hI with ⟨t, ht, -⟩ | ⟨t, ht, -⟩ <;> exact ⟨t, ht⟩
        exact Or.inr ⟨fulfillTask t, by rw [ServerState.taskOfSettled, ht], fulfillTask_state t⟩
      · exact hI
    | wake id =>
      simp only [ServerState.taskAfter]
      split_ifs
      · rcases hI with ⟨t, ht, hst⟩ | ⟨t, ht, hst⟩
        · exact Or.inl ⟨resumedTask id t, by rw [ht]; rfl, by simp [resumedTask, hst]⟩
        · exact Or.inr ⟨resumedTask id t, by rw [ht]; rfl, by simp [resumedTask, hst]⟩
      · exact hI
    | clearOutgoing | expire id => exact hI
    | _ => exact hp.elim

end Actions

section Heartbeat

variable {s : ServerState} {now : Int} {a pid : String} {t : Task}

def beats (a : String) (version : Int) : List Json → Bool
  | [] => false
  | ref :: refs =>
    match requireStr ref "id" with
    | .error _ => false
    | .ok id => (id = a && ((ref.get "version").bind Json.asI64).all (· = version)) ||
        beats a version refs

def renewedLease (a : String) (t : Task) (now : Int) : TTimeout :=
  ⟨a, 1, saturatingAdd now (t.ttl.getD 30000)⟩

theorem heartbeatOne_tasks (id : String) (version : Option Int) :
    (s.heartbeatOne now pid id version).tasks = s.tasks := by
  unfold ServerState.heartbeatOne
  split
  · rfl
  · split_ifs <;> rfl

theorem heartbeatOne_tEntries (ht : s.tasks.lookup a = some t) (id : String) (version : Option Int) :
    (s.heartbeatOne now pid id version).tEntries a =
      if (t.state = .acquired ∧ t.pid = some pid) ∧ id = a ∧ version.all (· = t.version) = true then
        renewedLease a t now :: (s.tEntries a).tail
      else s.tEntries a := by
  unfold ServerState.heartbeatOne
  by_cases hid : id = a
  · subst hid
    rw [ht]
    dsimp only
    by_cases h : t.state = .acquired ∧ t.pid = some pid ∧ version.all (· = t.version) = true
    · rw [if_pos h, if_pos ⟨⟨h.1, h.2.1⟩, rfl, h.2.2⟩]
      exact (ServerState.setTTimeout_tEntries ..).trans (if_pos rfl)
    · rw [if_neg h, if_neg fun h' => h ⟨h'.1.1, h'.1.2, h'.2.2⟩]
  · rw [if_neg fun h' => hid h'.2.1]
    cases hu : s.tasks.lookup id with
    | none => rfl
    | some u =>
      dsimp only
      split_ifs
      · exact (ServerState.setTTimeout_tEntries ..).trans (if_neg (Ne.symm hid))
      · rfl

theorem heartbeatAll_tasks (refs : List Json) : (s.heartbeatAll now pid refs).1.tasks = s.tasks := by
  induction refs generalizing s with
  | nil => rfl
  | cons ref refs ih =>
    unfold ServerState.heartbeatAll
    cases requireStr ref "id" with
    | error e => rfl
    | ok id => exact ih.trans (heartbeatOne_tasks ..)

theorem heartbeatAll_tEntries (ht : s.tasks.lookup a = some t) (refs : List Json) :
    (s.heartbeatAll now pid refs).1.tEntries a =
      if (t.state = .acquired ∧ t.pid = some pid) ∧ beats a t.version refs = true then
        renewedLease a t now :: (s.tEntries a).tail
      else s.tEntries a := by
  induction refs generalizing s with
  | nil => simp [ServerState.heartbeatAll, beats]
  | cons ref refs ih =>
    unfold ServerState.heartbeatAll beats
    cases requireStr ref "id" with
    | error e => simp
    | ok id =>
      dsimp only
      have ht' : (s.heartbeatOne now pid id ((ref.get "version").bind Json.asI64)).tasks.lookup a =
        some t := by
        rw [heartbeatOne_tasks]
        exact ht
      rw [ih ht', heartbeatOne_tEntries ht]
      by_cases hown : t.state = .acquired ∧ t.pid = some pid
      · by_cases hrest : beats a t.version refs = true
        · simp only [hown, hrest, and_self, if_true, Bool.or_true, true_and]
          split_ifs <;> rfl
        · simp [hown, hrest]
      · simp [hown]

end Heartbeat

section Granting

variable {now : Int} {terminal : Prop} {L : Ledger} {act : Act} {s : ServerState} {a pid : String}
  {ttl : Int} {u : Task} {c req : Json}

def Act.Leases (id : String) (ttl : Int) (act : Act) : Prop :=
  (∃ pid, act = .grant id pid ttl) ∨ ∃ req pid, act = .addAcquired id req pid ttl

structure ServerState.Granted (s s' : ServerState) (now : Int) (a : String) (ttl : Int) (u : Task) :
    Prop where
  free : ¬ s.taskIs a .acquired
  ttl_eq : u.ttl = some ttl
  entries : s'.tEntries a = ⟨a, 1, saturatingAdd now ttl⟩ :: (s.tEntries a).tail

theorem perform_leases {id : String} (hg : act.Guard now terminal L) (hact : act.Leases id ttl)
    (hu : (L.step now act).state.tasks.lookup a = some u) (hst : u.state = .acquired) :
    (a = id ∧ L.state.Granted (L.step now act).state now a ttl u) ∨
      ∃ t, L.state.tasks.lookup a = some t ∧ t.state = .acquired ∧ u.ttl = t.ttl ∧
        (L.step now act).state.tEntries a = L.state.tEntries a := by
  rw [Ledger.step, ServerState.perform_tasks] at hu
  rcases hact with ⟨pid, rfl⟩ | ⟨req, pid, rfl⟩
  · simp only [ServerState.taskAfter] at hu
    split_ifs at hu with ha
    · subst ha
      obtain ⟨t, ht, rfl⟩ := Option.map_eq_some_iff.mp hu
      refine Or.inl ⟨rfl, ?_, rfl, ?_⟩
      · rintro ⟨t', ht', hacq⟩
        obtain ⟨t'', ht'', hpend⟩ := hg
        obtain rfl := Option.some.inj (ht'.symm.trans ht'')
        cases hacq.symm.trans hpend
      · simp [Ledger.step, ServerState.perform_tEntries, ServerState.tEntriesAfter]
    · refine Or.inr ⟨u, hu, hst, rfl, ?_⟩
      simp [Ledger.step, ServerState.perform_tEntries, ServerState.tEntriesAfter, ha]
  · simp only [ServerState.taskAfter] at hu
    split_ifs at hu with ha
    · subst ha
      obtain rfl := Option.some.inj hu
      refine Or.inl ⟨rfl, ?_, rfl, ?_⟩
      · rintro ⟨t, ht, -⟩
        cases ht.symm.trans hg.2.2.1
      · simp [Ledger.step, ServerState.perform_tEntries, ServerState.tEntriesAfter]
    · refine Or.inr ⟨u, hu, hst, rfl, ?_⟩
      simp [Ledger.step, ServerState.perform_tEntries, ServerState.tEntriesAfter, ha]

def OneAct (now : Int) (P : Act → Prop) (s s' : ServerState) : Prop :=
  s' = s ∨ ∃ act, act.Guard now True ⟨s, ∅⟩ ∧ P act ∧ s' = s.perform now act

theorem OneAct.lease {P : Act → Prop} {s' : ServerState} (h : OneAct now P s s')
    (hP : ∀ act, P act → act.NoLease ∨ ∃ id ttl, act.Leases id ttl)
    (hu : s'.tasks.lookup a = some u) (hst : u.state = .acquired) :
    (∃ t, s.tasks.lookup a = some t ∧ t.state = .acquired ∧ u.ttl = t.ttl ∧
      s'.tEntries a = s.tEntries a) ∨
      ∃ act ttl, act.Guard now True ⟨s, ∅⟩ ∧ P act ∧ act.Leases a ttl ∧ s.Granted s' now a ttl u := by
  rcases h with rfl | ⟨act, hg, hact, rfl⟩
  · exact Or.inl ⟨u, hu, hst, rfl, rfl⟩
  · rcases hP act hact with hq | ⟨id, ttl, hl⟩
    · exact Or.inl (perform_kept hg hq u hu hst)
    · rcases perform_leases hg hl hu hst with ⟨rfl, hgr⟩ | hkept
      · exact Or.inr ⟨act, ttl, hg, hact, hl, hgr⟩
      · exact Or.inl hkept

def CreateAct (req : Json) (act : Act) : Prop :=
  act.NoLease ∨ ∃ id pid, requireStr req "pid" = .ok pid ∧
    requireStr (extractActionData (actionOf req)) "id" = .ok id ∧
      (act = .grant id pid (extractTtl req) ∨
        act = .addAcquired id (extractActionData (actionOf req)) pid (extractTtl req))

theorem taskCreate_act (s : ServerState) (now : Int) (c req : Json) :
    OneAct now (CreateAct req) s (s.taskCreate now c req).1 := by
  unfold ServerState.taskCreate
  cases hpid : requireStr req "pid" with
  | error e => exact Or.inl rfl
  | ok pid =>
    dsimp only
    cases hr : requireStr (extractActionData (actionOf req)) "id" with
    | error e => exact Or.inl rfl
    | ok id =>
      obtain ⟨-, hne⟩ := requireStr_ok.mp hr
      cases ht : s.tasks.lookup id with
      | some t =>
        simp only [ht]
        cases hst : t.state with
        | pending =>
          exact Or.inr ⟨.grant id pid (extractTtl req), ⟨t, ht, hst⟩,
            Or.inr ⟨id, pid, hpid, hr, Or.inl rfl⟩, rfl⟩
        | fulfilled => exact Or.inl rfl
        | acquired => exact Or.inl rfl
        | suspended => exact Or.inl rfl
        | halted => exact Or.inl rfl
      | none =>
        simp only [ht]
        split_ifs with hp hdue
        · exact Or.inl rfl
        · exact Or.inr ⟨.addFulfilled id _, ⟨hne, by simpa using hp, ht, hdue⟩, Or.inl trivial, rfl⟩
        · exact Or.inr ⟨.addAcquired id _ pid (extractTtl req),
            ⟨hne, by simpa using hp, ht, lt_of_not_ge hdue⟩, Or.inr ⟨id, pid, hpid, hr, Or.inr rfl⟩,
              rfl⟩

theorem taskAcquire_act (s : ServerState) (now : Int) (c req : Json) :
    OneAct now (fun act => ∃ id pid ttl, act = .grant id pid ttl ∧ 1 ≤ ttl) s
      (s.taskAcquire now c req).1 := by
  unfold ServerState.taskAcquire
  cases requireStr req "id" with
  | error e => exact Or.inl rfl
  | ok id =>
    dsimp only
    cases ht : s.tasks.lookup id with
    | none => exact Or.inl rfl
    | some t =>
      dsimp only
      split_ifs with hs
      · exact Or.inl rfl
      · exact Or.inr ⟨.grant id _ _, ⟨t, ht, by simpa using hs⟩, ⟨id, _, _, rfl, le_max_right _ 1⟩, rfl⟩

/-- The request creates a task under a lease, or puts the task it finds under one. -/
structure ServerState.CreatesLease (s : ServerState) (now : Int) (req : Json) (a : String) : Prop where
  kind : ReqKind.ofName (kindOf req) = some .taskCreate
  pid : ∃ pid, requireStr req "pid" = .ok pid
  id : requireStr (extractActionData (actionOf req)) "id" = .ok a
  free : (s.taskIs a .pending ∧ s.isDue now a = false) ∨
    (s.promises.lookup a = none ∧ now < timeoutAtOf (extractActionData (actionOf req)))

theorem prepared_create (hk : ReqKind.ofName (kindOf req) = some .taskCreate)
    (hid : requireStr (extractActionData (actionOf req)) "id" = .ok a) :
    s.prepared now req = s.quiet.tryAutoTimeout now a := by
  refine prepared_of_named ?_
  rw [hk]
  simp [namedPromises, (requireStr_ok.mp hid).1]

theorem free_of_prepared (hprep : s.prepared now req = s.quiet.tryAutoTimeout now a)
    (h : (s.prepared now req).taskIs a .pending ∨
      (s.prepared now req).promises.lookup a = none ∧
        now < timeoutAtOf (extractActionData (actionOf req))) :
    (s.taskIs a .pending ∧ s.isDue now a = false) ∨
      (s.promises.lookup a = none ∧ now < timeoutAtOf (extractActionData (actionOf req))) := by
  rw [hprep] at h
  by_cases hdue : s.quiet.isDue now a = true
  · rw [ServerState.tryAutoTimeout_of_due _ _ _ hdue] at h
    exfalso
    rcases h with ⟨t, ht, hpend⟩ | ⟨hnone, -⟩
    · rw [ServerState.settled_tasks, if_pos rfl] at ht
      rw [ServerState.taskOfSettled_fulfilled _ _ ht] at hpend
      cases hpend
    · obtain ⟨p, hp, -⟩ := ServerState.isDue_iff.mp hdue
      rw [ServerState.settled_promises] at hnone
      simp [ServerState.expire, hp] at hnone
  · have hdue' : s.quiet.isDue now a = false := by simpa using hdue
    rw [ServerState.tryAutoTimeout_of_not_due _ _ _ hdue'] at h
    exact h.imp_left fun h => ⟨h, hdue'⟩

end Granting

section Steps

variable {s : ServerState} {now : Int} {a : String} {u : Task} {c req : Json}

theorem dispatch_noLease {kind : ReqKind}
    (hkind : kind ∉ [ReqKind.taskCreate, .taskAcquire, .taskHeartbeat]) :
    Performs now False Act.NoLease ⟨s, ∅⟩ ⟨(s.dispatch now c req kind).1, ∅⟩ := by
  have he : ∀ id, Act.NoLease (.enqueue id) := fun _ => trivial
  have hw : ∀ id, Act.NoLease (.wake id) := fun _ => trivial
  cases kind with
  | promiseGet => simp only [ServerState.dispatch, ServerState.promiseGet_fst]; exact Performs.refl _
  | promiseCreate => exact ServerState.promiseCreate_performs (fun _ _ => ⟨trivial, trivial⟩) he hw
  | promiseSettle => exact ServerState.promiseSettle_performs (fun _ _ => trivial) False.elim he hw
  | promiseRegisterListener => exact ServerState.promiseRegisterListener_performs fun _ _ => trivial
  | taskRelease => exact ServerState.taskRelease_performs fun _ _ => trivial
  | taskFulfill => exact ServerState.taskFulfill_performs (fun _ => Or.inl trivial) False.elim he hw
  | taskFence =>
    exact ServerState.taskFence_performs (fun _ _ _ => trivial) (fun h => h.elim)
      (fun _ _ _ => ⟨trivial, trivial⟩) he hw
  | taskSuspend =>
    exact ServerState.taskSuspend_performs (fun _ => trivial) (fun _ _ _ _ => trivial) fun _ _ =>
      trivial
  | scheduleCreate =>
    exact ServerState.schedules_performs ServerState.scheduleCreate_fst fun _ => trivial
  | scheduleGet => simp only [ServerState.dispatch, ServerState.scheduleGet_fst]; exact Performs.refl _
  | scheduleDelete =>
    exact ServerState.schedules_performs ServerState.scheduleDelete_fst fun _ => trivial
  | scheduleSearch => exact Performs.refl _
  | taskCreate | taskAcquire | taskHeartbeat => simp at hkind

theorem tick_noLease (s : ServerState) (now : Int) :
    Performs now False Act.NoLease ⟨s, ∅⟩ ⟨s.tick now, ∅⟩ := by
  refine (ServerState.tick_performs s now).mono fun act h => ?_
  cases act <;> trivial

theorem prepared_kept (s : ServerState) (now : Int) (req : Json) (a : String) :
    s.LeaseKept (s.prepared now req) a := by
  have h : Performs now False Act.NoLease ⟨s, ∅⟩ ⟨s.prepared now req, ∅⟩ :=
    ServerState.prepared_performs trivial (fun _ _ => trivial) (fun _ => trivial) fun _ => trivial
  exact h.kept fun _ h => h

def ServerState.LeaseRenewed (s : ServerState) (a : String) : Op → Prop
  | .apply _ req => ReqKind.ofName (kindOf req) = some .taskHeartbeat ∧
    ∃ t pid, s.tasks.lookup a = some t ∧ (t.state = .acquired ∧ t.pid = some pid) ∧
      requireStr req "pid" = .ok pid ∧
      beats a t.version (((req.get "tasks").bind Json.asArray).getD []) = true
  | .tick _ => False

def ServerState.LeaseGranted (s : ServerState) (a : String) (op : Op) : Prop :=
  ¬ s.taskIs a .acquired ∧ (s.exec op).taskIs a .acquired

/-- Where the lease of a task that is acquired after an operation comes from. -/
inductive LeaseFate (s : ServerState) (op : Op) (a : String) (u : Task) : Prop
  | kept (t : Task) (ht : s.tasks.lookup a = some t) (hst : t.state = .acquired) (httl : u.ttl = t.ttl)
      (hno : ¬ s.LeaseRenewed a op) (hes : (s.exec op).tEntries a = s.tEntries a)
  | renewed (t : Task) (ht : s.tasks.lookup a = some t) (hst : t.state = .acquired)
      (httl : u.ttl = t.ttl)
      (hyes : s.LeaseRenewed a op)
      (hes : (s.exec op).tEntries a = renewedLease a t op.now :: (s.tEntries a).tail)
  | granted (ttl : Int) (hno : ¬ s.taskIs a .acquired) (httl : u.ttl = some ttl)
      (hes : ∃ es, (s.exec op).tEntries a = ⟨a, 1, saturatingAdd op.now ttl⟩ :: es)
      (hby : 1 ≤ ttl ∨ ∃ now req, op = .apply now req ∧ s.CreatesLease now req a ∧ ttl = extractTtl req)

theorem LeaseFate.of_kept {op : Op} (h : s.LeaseKept (s.exec op) a) (hno : ¬ s.LeaseRenewed a op)
    (hu : (s.exec op).tasks.lookup a = some u) (hst : u.state = .acquired) : LeaseFate s op a u := by
  obtain ⟨t, ht, hacq, httl, hes⟩ := h u hu hst
  exact .kept t ht hacq httl hno hes

theorem not_renewed {kind : ReqKind} (hk : ReqKind.ofName (kindOf req) = some kind)
    (hne : kind ≠ .taskHeartbeat) : ¬ s.LeaseRenewed a (.apply now req) :=
  fun h => hne (Option.some.inj (hk.symm.trans h.1))

/-- A lease granted where the handler runs is granted by the request. -/
theorem LeaseFate.of_act (hs : WF s) {P : Act → Prop} (hno : ¬ s.LeaseRenewed a (.apply now req))
    (hact : OneAct now P (s.prepared now req) (s.exec (.apply now req)))
    (hP : ∀ act, P act → act.NoLease ∨ ∃ id ttl, act.Leases id ttl)
    (hby : ∀ act ttl, act.Guard now True ⟨s.prepared now req, ∅⟩ → P act → act.Leases a ttl →
      1 ≤ ttl ∨ s.CreatesLease now req a ∧ ttl = extractTtl req)
    (hu : (s.exec (.apply now req)).tasks.lookup a = some u) (hst : u.state = .acquired) :
    LeaseFate s (.apply now req) a u := by
  rcases hact.lease hP hu hst with ⟨t, ht, hacq, httl, hes⟩ | ⟨act, ttl, hg, hp, hl, hgr⟩
  · obtain ⟨t', ht', hacq', httl', hes'⟩ := prepared_kept s now req a t ht hacq
    exact .kept t' ht' hacq' (httl.trans httl') hno (hes.trans hes')
  · refine .granted ttl ?_ hgr.ttl_eq ⟨_, hgr.entries⟩ ?_
    · intro hacq
      rcases hl with ⟨pid, rfl⟩ | ⟨r, pid, rfl⟩
      · exact prepared_not_pending hacq hg
      · obtain ⟨t, ht, -⟩ := hacq
        obtain ⟨t', ht'⟩ : ∃ t', (s.prepared now req).tasks.lookup a = some t' :=
          ServerState.task_of_prepared hs ht
        cases ht'.symm.trans hg.2.2.1
    · exact (hby act ttl hg hp hl).imp_right fun h => ⟨now, req, rfl, h.1, h.2⟩

theorem taskHeartbeat_fst : (s.taskHeartbeat now c req).1 =
    match requireStr req "pid" with
    | .error _ => s
    | .ok pid => (s.heartbeatAll now pid (((req.get "tasks").bind Json.asArray).getD [])).1 := by
  unfold ServerState.taskHeartbeat
  cases requireStr req "pid" with
  | error e => rfl
  | ok pid =>
    dsimp only
    split <;> rename_i heq <;> rw [heq]

theorem LeaseFate.heartbeat (hk : ReqKind.ofName (kindOf req) = some .taskHeartbeat)
    (hu : (s.exec (.apply now req)).tasks.lookup a = some u) (hst : u.state = .acquired) :
    LeaseFate s (.apply now req) a u := by
  have hexec : s.exec (.apply now req) = (s.quiet.taskHeartbeat now ((req.get "corrId").getD .null)
    req).1 := by
    rw [ServerState.exec, ServerState.apply_eq_dispatch hk]
    have hprep : s.prepared now req = s.quiet := by
      rw [ServerState.prepared, hk]
      rfl
    rw [hprep]
    rfl
  cases hpid : requireStr req "pid" with
  | error e =>
    have hsame : s.exec (.apply now req) = s.quiet := by
      rw [hexec, taskHeartbeat_fst, hpid]
    refine .of_kept (fun v hv hvst => ?_) ?_ hu hst
    · rw [hsame] at hv ⊢
      exact ⟨v, hv, hvst, rfl, rfl⟩
    · rintro ⟨-, t, pid, -, -, hok, -⟩
      cases hpid.symm.trans hok
  | ok pid =>
    set refs := ((req.get "tasks").bind Json.asArray).getD [] with hrefs
    have hsame : s.exec (.apply now req) = (s.quiet.heartbeatAll now pid refs).1 := by
      rw [hexec, taskHeartbeat_fst, hpid]
    have ht : s.tasks.lookup a = some u := by
      rw [hsame, heartbeatAll_tasks] at hu
      exact hu
    have hes : (s.quiet.heartbeatAll now pid refs).1.tEntries a =
        if (u.state = .acquired ∧ u.pid = some pid) ∧ beats a u.version refs = true then
          renewedLease a u now :: (s.tEntries a).tail
        else s.tEntries a :=
      heartbeatAll_tEntries (s := s.quiet) ht refs
    rw [← hsame] at hes
    by_cases hyes : (u.state = .acquired ∧ u.pid = some pid) ∧ beats a u.version refs = true
    · rw [if_pos hyes] at hes
      exact .renewed u ht hst rfl ⟨hk, u, pid, ht, hyes.1, hpid, hyes.2⟩ hes
    · rw [if_neg hyes] at hes
      refine .kept u ht hst rfl ?_ hes
      rintro ⟨-, t, pid', ht', hown, hok, hbeats⟩
      obtain rfl := Option.some.inj (ht.symm.trans ht')
      obtain rfl := Except.ok.inj (hpid.symm.trans hok)
      exact hyes ⟨hown, hbeats⟩

theorem exec_of_kind {kind : ReqKind} (hk : ReqKind.ofName (kindOf req) = some kind) :
    s.exec (.apply now req) =
      ((s.prepared now req).dispatch now ((req.get "corrId").getD .null) req kind).1 :=
  congrArg Prod.fst (ServerState.apply_eq_dispatch hk)

theorem createsLease_of_act {act : Act} {ttl : Int}
    (hk : ReqKind.ofName (kindOf req) = some .taskCreate)
    (hg : act.Guard now True ⟨s.prepared now req, ∅⟩) (hact : CreateAct req act)
      (hl : act.Leases a ttl) :
    s.CreatesLease now req a ∧ ttl = extractTtl req := by
  rcases hact with hq | ⟨id, pid, hpid, hid, hact⟩
  · rcases hl with ⟨pid, rfl⟩ | ⟨r, pid, rfl⟩ <;> exact hq.elim
  · rcases hact with rfl | rfl
    · rcases hl with ⟨pid', h⟩ | ⟨r, pid', h⟩
      · obtain ⟨rfl, -, rfl⟩ := Act.grant.inj h
        exact ⟨⟨hk, ⟨pid, hpid⟩, hid, free_of_prepared (prepared_create hk hid) (Or.inl hg)⟩, rfl⟩
      · cases h
    · rcases hl with ⟨pid', h⟩ | ⟨r, pid', h⟩
      · cases h
      · obtain ⟨rfl, -, -, rfl⟩ := Act.addAcquired.inj h
        exact ⟨⟨hk, ⟨pid, hpid⟩, hid,
          free_of_prepared (prepared_create hk hid) (Or.inr ⟨hg.2.1, hg.2.2.2⟩)⟩, rfl⟩

theorem LeaseFate.create (hs : WF s) (hk : ReqKind.ofName (kindOf req) = some .taskCreate)
    (hu : (s.exec (.apply now req)).tasks.lookup a = some u) (hst : u.state = .acquired) :
    LeaseFate s (.apply now req) a u := by
  have hact := taskCreate_act (s.prepared now req) now ((req.get "corrId").getD .null) req
  refine .of_act hs (not_renewed hk (by decide)) (exec_of_kind (s := s) hk ▸ hact) ?_ ?_ hu hst
  · rintro act (hq | ⟨id, pid, -, -, rfl | rfl⟩)
    · exact Or.inl hq
    · exact Or.inr ⟨id, _, Or.inl ⟨pid, rfl⟩⟩
    · exact Or.inr ⟨id, _, Or.inr ⟨_, pid, rfl⟩⟩
  · exact fun act ttl hg hp hl => Or.inr (createsLease_of_act hk hg hp hl)

theorem LeaseFate.acquire (hs : WF s) (hk : ReqKind.ofName (kindOf req) = some .taskAcquire)
    (hu : (s.exec (.apply now req)).tasks.lookup a = some u) (hst : u.state = .acquired) :
    LeaseFate s (.apply now req) a u := by
  have hact := taskAcquire_act (s.prepared now req) now ((req.get "corrId").getD .null) req
  refine .of_act hs (not_renewed hk (by decide)) (exec_of_kind (s := s) hk ▸ hact) ?_ ?_ hu hst
  · rintro act ⟨id, pid, ttl, rfl, -⟩
    exact Or.inr ⟨id, ttl, Or.inl ⟨pid, rfl⟩⟩
  · rintro act ttl - ⟨id, pid, ttl', rfl, hpos⟩ hl
    rcases hl with ⟨pid', h⟩ | ⟨r, pid', h⟩
    · obtain ⟨-, -, rfl⟩ := Act.grant.inj h
      exact Or.inl hpos
    · cases h

theorem exec_fate (hs : WF s) {op : Op} (hu : (s.exec op).tasks.lookup a = some u)
    (hst : u.state = .acquired) : LeaseFate s op a u := by
  cases op with
  | tick now => exact .of_kept ((tick_noLease s now).kept fun _ h => h) id hu hst
  | apply now req =>
    cases hk : ReqKind.ofName (kindOf req) with
    | none =>
      have hsame : s.exec (.apply now req) = s.prepared now req := by
        simp [ServerState.exec, ServerState.apply, hk]
      refine .of_kept (hsame ▸ prepared_kept s now req a) ?_ hu hst
      rintro ⟨hk', -⟩
      cases hk.symm.trans hk'
    | some kind =>
      by_cases hkind : kind ∈ [ReqKind.taskCreate, .taskAcquire, .taskHeartbeat]
      · simp only [List.mem_cons, List.not_mem_nil, or_false] at hkind
        rcases hkind with rfl | rfl | rfl
        · exact .create hs hk hu hst
        · exact .acquire hs hk hu hst
        · exact .heartbeat hk hu hst
      · have hne : kind ≠ .taskHeartbeat := fun h => hkind (by simp [h])
        refine .of_kept ?_ (not_renewed hk hne) hu hst
        rw [exec_of_kind hk]
        exact (prepared_kept s now req a).trans ((dispatch_noLease hkind).kept fun _ h => h)

end Steps

def ServerState.Leases (s : ServerState) (a : String) (op : Op) : Prop :=
  s.LeaseGranted a op ∨ s.LeaseRenewed a op

structure LeaseLog where
  state : ServerState
  leasedAt : String → Option Int

namespace LeaseLog

open Classical in
noncomputable def step (log : LeaseLog) (op : Op) : LeaseLog where
  state := log.state.exec op
  leasedAt a := if log.state.Leases a op then some op.now else log.leasedAt a

noncomputable def run (ops : List Op) : LeaseLog :=
  Machine.run step ⟨ServerState.init, fun _ => none⟩ ops

/-- Every acquired task has one lease entry, which is later than the time of the step that
last granted or renewed its lease. -/
def Ahead (log : LeaseLog) : Prop :=
  ∀ a, log.state.taskIs a .acquired → ∃ n time, log.leasedAt a = some n ∧
    log.state.tEntries a = [⟨a, 1, time⟩] ∧ (n < Json.i64Max → n < time)

/-- The ttl of every lease is positive, so that the next renewal is ahead as well. -/
structure Sound (log : LeaseLog) : Prop where
  wf : WF log.state
  single : ∀ a, (log.state.tEntries a).length ≤ 1
  ttl : ∀ a t, log.state.tasks.lookup a = some t → t.state = .acquired → ∃ ttl, t.ttl = some ttl ∧
    1 ≤ ttl
  ahead : log.Ahead

end LeaseLog

def ServerState.PositiveTtl (s : ServerState) : Op → Prop
  | .apply now req => ∀ a, s.CreatesLease now req a → 1 ≤ extractTtl req
  | .tick _ => True

theorem lt_saturatingAdd {now ttl : Int} (httl : 1 ≤ ttl) (hnow : now < Json.i64Max) :
    now < saturatingAdd now ttl := by
  unfold saturatingAdd
  omega

theorem saturatingAdd_le {now ttl : Int} (httl : ttl < 1) (hnow : Json.i64Min ≤ now) :
    saturatingAdd now ttl ≤ now := by
  unfold saturatingAdd
  omega

theorem exec_single {s : ServerState} (h : ∀ a, (s.tEntries a).length ≤ 1) (op : Op) (a : String) :
    ((s.exec op).tEntries a).length ≤ 1 :=
  (exec_performs s op).invariant (I := fun L => (L.state.tEntries a).length ≤ 1)
    (fun _ _ _ _ hI => ServerState.perform_tEntries_length _ _ hI _) (h a)

theorem eq_singleton_of_head {α : Type} {xs es : List α} {x : α} (h : xs = x :: es)
    (hlen : xs.length ≤ 1) :
    xs = [x] := by
  subst h
  have hes : es = [] := List.length_eq_zero_iff.mp (Nat.le_zero.mp (Nat.le_of_succ_le_succ hlen))
  rw [hes]

namespace LeaseLog

variable {log : LeaseLog} {op : Op} {a : String}

theorem Sound.step (h : log.Sound) (hop : log.state.PositiveTtl op) : (log.step op).Sound where
  wf := h.wf.exec op
  single := exec_single h.single op
  ttl a u hu hst := by
    cases exec_fate h.wf hu hst with
    | kept t ht hacq httl | renewed t ht hacq httl =>
      rw [httl]
      exact h.ttl a t ht hacq
    | granted ttl _ httl _ hby =>
      refine ⟨ttl, httl, ?_⟩
      rcases hby with hpos | ⟨now, req, rfl, hcreate, rfl⟩
      · exact hpos
      · exact hop a hcreate
  ahead := by
    rintro a ⟨u, hu, hst⟩
    have hsingle := exec_single h.single op a
    cases exec_fate h.wf hu hst with
    | kept t ht hacq _ hno hes =>
      have hquiet : ¬ log.state.Leases a op := by
        rintro (hgr | hren)
        · exact hgr.1 ⟨t, ht, hacq⟩
        · exact hno hren
      obtain ⟨n, time, hn, hentry, hlt⟩ := h.ahead a ⟨t, ht, hacq⟩
      exact ⟨n, time, (if_neg hquiet).trans hn, hes.trans hentry, hlt⟩
    | renewed t ht hacq _ hyes hes =>
      obtain ⟨ttl, httl, hpos⟩ := h.ttl a t ht hacq
      refine ⟨op.now, _, if_pos (Or.inr hyes), eq_singleton_of_head hes hsingle, fun hnow => ?_⟩
      rw [httl]
      exact lt_saturatingAdd hpos hnow
    | granted ttl hno _ hes hby =>
      obtain ⟨es, hes⟩ := hes
      refine ⟨op.now, _, if_pos (Or.inl ⟨hno, u, hu, hst⟩), eq_singleton_of_head hes hsingle,
        fun hnow => ?_⟩
      refine lt_saturatingAdd ?_ hnow
      rcases hby with hpos | ⟨now, req, rfl, hcreate, rfl⟩
      · exact hpos
      · exact hop a hcreate

theorem Sound.init : LeaseLog.Sound ⟨ServerState.init, fun _ => none⟩ where
  wf := WF.init
  single _ := Nat.zero_le 1
  ttl a t ht := by cases ht
  ahead := by
    rintro a ⟨t, ht, -⟩
    cases ht

theorem run_state (ops : List Op) : (run ops).state = ServerState.init.run ops := by
  have h : ∀ log : LeaseLog, (Machine.run step log ops).state = log.state.run ops := by
    induction ops with
    | nil => exact fun _ => rfl
    | cons op ops ih => exact fun log => ih (log.step op)
  exact h _

theorem run_append (ops : List Op) (op : Op) : run (ops ++ [op]) = (run ops).step op :=
  Machine.run_append ..

theorem Sound.run {ops : List Op} (h : Machine.Along ServerState.exec ServerState.PositiveTtl
    ServerState.init ops) :
    (LeaseLog.run ops).Sound := by
  have hrun : ∀ log : LeaseLog, log.Sound →
      Machine.Along ServerState.exec ServerState.PositiveTtl log.state ops →
        (Machine.run LeaseLog.step log ops).Sound := by
    clear h
    induction ops with
    | nil => exact fun _ hs _ => hs
    | cons op ops ih => exact fun log hs h => ih _ (hs.step h.1) h.2
  exact hrun _ Sound.init h

end LeaseLog

theorem exec_createsLease {s : ServerState} (hs : WF s) {now : Int} {req : Json} {a : String}
    (h : s.CreatesLease now req a) : s.LeaseGranted a (.apply now req) ∧
      ∃ es, (s.exec (.apply now req)).tEntries a = ⟨a, 1, saturatingAdd now (extractTtl req)⟩ ::
        es := by
  obtain ⟨hk, ⟨pid, hpid⟩, hid, hfree⟩ := h
  have hdue : s.quiet.isDue now a = false := by
    rcases hfree with ⟨-, hdue⟩ | ⟨hnone, -⟩
    · exact hdue
    · simp [ServerState.isDue, ServerState.quiet, hnone]
  have hexec : s.exec (.apply now req) = (s.quiet.taskCreate now ((req.get "corrId").getD .null)
    req).1 := by
    rw [exec_of_kind hk, prepared_create hk hid, ServerState.tryAutoTimeout_of_not_due _ _ _ hdue]
    rfl
  rcases hfree with ⟨⟨t, ht, hst⟩, -⟩ | ⟨hnone, hnow⟩
  · have hgrant : s.exec (.apply now req) = s.quiet.perform now (.grant a pid (extractTtl req)) := by
      have ht' : s.quiet.tasks.lookup a = some t := ht
      rw [hexec]
      simp only [ServerState.taskCreate, hpid, hid, ht', hst]
      rfl
    rw [ServerState.LeaseGranted, hgrant, ServerState.perform_tEntries]
    refine ⟨⟨?_, acquireTask pid (extractTtl req) t, ?_, rfl⟩, _, if_pos rfl⟩
    · rintro ⟨t', ht', hacq⟩
      obtain rfl := Option.some.inj (ht.symm.trans ht')
      cases hst.symm.trans hacq
    · rw [ServerState.perform_tasks]
      simp [ServerState.taskAfter, ServerState.quiet, ht]
  · have htask : s.quiet.tasks.lookup a = none := by
      cases ht : s.quiet.tasks.lookup a with
      | none => rfl
      | some t =>
        obtain ⟨p, hp⟩ := hs.promise_of_task a t ht
        cases hnone.symm.trans hp
    have hgrant : s.exec (.apply now req) =
        s.quiet.perform now (.addAcquired a (extractActionData (actionOf req)) pid
          (extractTtl req)) := by
      have hnone' : s.quiet.promises.lookup a = none := hnone
      rw [hexec]
      simp only [ServerState.taskCreate, hpid, hid, htask, hnone', Option.isSome_none,
        Bool.false_eq_true,
        if_false, if_neg (not_le_of_gt hnow)]
      rfl
    rw [ServerState.LeaseGranted, hgrant, ServerState.perform_tEntries]
    refine ⟨⟨?_, ⟨a, .acquired, 0, some pid, some (extractTtl req), []⟩, ?_, rfl⟩, _, if_pos rfl⟩
    · rintro ⟨t', ht', -⟩
      cases htask.symm.trans ht'
    · rw [ServerState.perform_tasks]
      simp only [ServerState.taskAfter, if_true]

namespace LeaseLog

theorem not_ahead_of_short {ops : List Op} {now : Int} {req : Json} {a : String}
    (h : (ServerState.init.run ops).CreatesLease now req a) (hmin : Json.i64Min ≤ now)
    (hmax : now < Json.i64Max) (httl : extractTtl req < 1) :
      ¬ (run (ops ++ [.apply now req])).Ahead := by
  intro hahead
  rw [← run_state] at h
  rw [run_append] at hahead
  have hwf : WF (run ops).state := run_state ops ▸ WF.init.run ops
  obtain ⟨hgr, es, hes⟩ := exec_createsLease hwf h
  obtain ⟨n, time, hn, hentry, hlt⟩ := hahead a hgr.2
  obtain rfl : now = n := Option.some.inj ((if_pos (Or.inl hgr)).symm.trans hn)
  obtain ⟨rfl, -⟩ : _ ∧ es = [] := by
    have h := hes.symm.trans hentry
    simpa using h
  exact absurd (hlt hmax) (not_lt_of_ge (saturatingAdd_le httl hmin))

end LeaseLog

/-- Leases are ahead in every state of a run in which every lease that `task.create` grants has
a positive ttl, and a request that grants one without leaves a lease that has ended. -/
theorem leases_ahead (ops : List Op) :
    (Machine.Along ServerState.exec ServerState.PositiveTtl ServerState.init ops →
      (LeaseLog.run ops).Ahead) ∧
    ∀ now req a, (ServerState.init.run ops).CreatesLease now req a → Json.i64Min ≤ now →
      now < Json.i64Max → extractTtl req < 1 → ¬ (LeaseLog.run (ops ++ [.apply now req])).Ahead :=
  ⟨fun h => (LeaseLog.Sound.run h).ahead, fun _ _ _ => LeaseLog.not_ahead_of_short⟩

def leaseRequest (ttl : Int) : Json :=
  request "task.create" ⟨"c0", none⟩ (taskCreateData "w1" ttl ⟨"c1", none⟩
    { id := "t", timeoutAt := 100000, param := {}
      tags := [⟨"resonate:target", "local://any@default"⟩].toAList })

theorem leases_ahead_minute :
    (ServerState.init.run [.apply 0 (leaseRequest 60000), .tick 30000]).tasks.lookup "t" =
        some ⟨"t", .acquired, 0, some "w1", some 60000, []⟩ ∧
      (LeaseLog.run [.apply 0 (leaseRequest 60000), .tick 30000]).Ahead ∧
      ¬ (LeaseLog.run [.apply 5 (leaseRequest (-1))]).Ahead :=
  ⟨by decide, (leases_ahead _).1 ⟨fun _ _ => by decide, trivial, trivial⟩,
    (leases_ahead []).2 5 (leaseRequest (-1)) "t" ⟨by decide, ⟨"w1", rfl⟩, rfl, Or.inr ⟨rfl, by decide⟩⟩
      (by decide) (by decide) (by decide)⟩

/-- A lease created with ttl 0 has ended, and a tick at the same time offers the task again. -/
theorem lease_born_expired :
    (ServerState.init.run [.apply 0 (leaseRequest 0)]).tasks.lookup "t" =
        some ⟨"t", .acquired, 0, some "w1", some 0, []⟩ ∧
      (ServerState.init.run [.apply 0 (leaseRequest 0)]).tEntries "t" = [⟨"t", 1, 0⟩] ∧
      (ServerState.init.run [.apply 0 (leaseRequest 0), .tick 0]).tasks.lookup "t" =
        some ⟨"t", .pending, 1, none, none, []⟩ ∧
      ¬ (LeaseLog.run [.apply 0 (leaseRequest 0)]).Ahead := by
  have hcreate : (ServerState.init.run []).CreatesLease 0 (leaseRequest 0) "t" :=
    ⟨by decide, ⟨"w1", rfl⟩, rfl, Or.inr ⟨rfl, by decide⟩⟩
  exact ⟨by decide, by decide, by decide,
    LeaseLog.not_ahead_of_short hcreate (by decide) (by decide) (by decide)⟩

end Resonate.Network
