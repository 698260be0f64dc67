import Resonate.Network.Answers
import Resonate.Network.Convergence

/-!
# No task is left behind

A task that nobody works on comes back by itself: the timer of its retry or of its lease is in
the queue, and a tick at or past it offers the task to its target again, at the version under
which the next acquisition holds it, unless the promise has reached its deadline.
-/

namespace Resonate.Network
open Lib

namespace ServerState

/-- The task is pending at the version, and its one execute message is on its way. -/
structure Offers (s : ServerState) (id address : String) (version : Int) : Prop where
  task : ∃ t, s.tasks.lookup id = some t ∧ t.state = .pending ∧ t.version = version
  message : s.executes id = [⟨address, executeMessage id version⟩]

/-- A tick that has the lists still to work off has offered the task, or will. -/
structure Offering (s : ServerState) (id address : String) (version : Int)
    (releases : List (String × Int)) (retries : List String) : Prop where
  target : s.targetOf id = some address
  single : (s.executes id).length ≤ 1
  due : s.Offers id address version ∨
    (∃ t, s.tasks.lookup id = some t ∧ t.state = .acquired ∧ t.version + 1 = version ∧
      (id, t.version) ∈ releases) ∨
    ∃ t, s.tasks.lookup id = some t ∧ t.state = .pending ∧ t.version = version ∧ id ∈ retries

variable {s : ServerState} {now : Int} {id address pid : String} {version ttl : Int}
  {lease : String × Int} {releases : List (String × Int)} {a : String} {retries : List String}
  {t : Task} {head : Head}

theorem sends_one (htarget : s.targetOf id = some address) (hone : (s.executes id).length ≤ 1)
    (v : Int) :
    replaceHead (s.executeFor id v) (s.executes id) = [⟨address, executeMessage id v⟩] := by
  have hnil : (s.executes id).tail = [] := by
    rw [← List.length_eq_zero_iff, List.length_tail]
    omega
  rw [executeFor, htarget, Option.map_some, replaceHead_some, hnil]

theorem targetOf_perform_release (t : Task) (a : String) :
    (s.perform now (.release a t)).targetOf id = s.targetOf id := by
  rw [targetOf, perform_promises]
  rfl

theorem targetOf_perform_retry (t : Task) (a : String) :
    (s.perform now (.retry a t)).targetOf id = s.targetOf id := by
  rw [targetOf, perform_promises]
  rfl

theorem Offering.release (h : s.Offering id address version (lease :: releases) retries) :
    (s.tickRelease now lease).Offering id address version releases retries := by
  obtain ⟨htarget, hone, hdue⟩ := h
  have hskip : (∀ t, s.tasks.lookup lease.1 = some t → ¬ (t.state = .acquired ∧ t.version = lease.2)) →
      s.Offering id address version releases retries := by
    refine fun hno => ⟨htarget, hone, hdue.imp_right (Or.imp_left ?_)⟩
    rintro ⟨t, ht, hst, hv, hmem⟩
    refine ⟨t, ht, hst, hv, (List.mem_cons.mp hmem).resolve_left ?_⟩
    rintro rfl
    exact hno t ht ⟨hst, rfl⟩
  unfold tickRelease
  cases ht : s.tasks.lookup lease.1 with
  | none => exact hskip fun t ht' => by cases ht.symm.trans ht'
  | some t =>
    dsimp only
    split_ifs with hlease
    · change (s.perform now (.release lease.1 t)).Offering id address version releases retries
      refine ⟨(targetOf_perform_release t _).trans htarget, perform_executes_length now s hone _, ?_⟩
      by_cases hid : id = lease.1
      · subst hid
        have hversion : t.version + 1 = version := by
          rcases hdue with ⟨⟨u, hu, hst, -⟩, -⟩ | ⟨u, hu, -, hv, -⟩ | ⟨u, hu, hst, -⟩
          all_goals obtain rfl := Option.some.inj (ht.symm.trans hu)
          · rw [hlease.1] at hst
            cases hst
          · exact hv
          · rw [hlease.1] at hst
            cases hst
        refine Or.inl ⟨⟨releaseTask t, ?_, rfl, hversion⟩, ?_⟩
        · rw [perform_tasks, taskAfter, if_pos rfl, ht]
          rfl
        · rw [perform_executes, executesAfter, if_pos rfl, sends_one htarget hone, hversion]
      · have htask : (s.perform now (.release lease.1 t)).tasks.lookup id = s.tasks.lookup id :=
          (perform_tasks now s id (.release lease.1 t)).trans (if_neg hid)
        have hexec : (s.perform now (.release lease.1 t)).executes id = s.executes id :=
          (perform_executes now s id (.release lease.1 t)).trans (if_neg hid)
        rcases hdue with ⟨hu, hm⟩ | ⟨u, hu, hst, hv, hmem⟩ | hu
        · exact Or.inl ⟨by rwa [htask], by rwa [hexec]⟩
        · refine Or.inr (Or.inl ⟨u, htask.trans hu, hst, hv, (List.mem_cons.mp hmem).resolve_left ?_⟩)
          rintro rfl
          exact hid rfl
        · exact Or.inr (Or.inr (by rwa [htask]))
    · refine hskip fun t' ht' hlease' => hlease ?_
      obtain rfl := Option.some.inj (ht.symm.trans ht')
      exact hlease'

theorem Offering.retry (h : s.Offering id address version [] (a :: retries)) :
    (s.tickRetry now a).Offering id address version [] retries := by
  obtain ⟨htarget, hone, hdue⟩ := h
  have hskip : ¬ s.taskIs a .pending → s.Offering id address version [] retries := by
    refine fun hno => ⟨htarget, hone, hdue.imp_right (Or.imp_right ?_)⟩
    rintro ⟨t, ht, hst, hv, hmem⟩
    refine ⟨t, ht, hst, hv, (List.mem_cons.mp hmem).resolve_left ?_⟩
    rintro rfl
    exact hno ⟨t, ht, hst⟩
  unfold tickRetry
  cases ht : s.tasks.lookup a with
  | none =>
    refine hskip ?_
    rintro ⟨t, ht', -⟩
    cases ht.symm.trans ht'
  | some t =>
    dsimp only
    split_ifs with hst
    · change (s.perform now (.retry a t)).Offering id address version [] retries
      have htask : (s.perform now (.retry a t)).tasks.lookup id = s.tasks.lookup id :=
        perform_tasks now s id (.retry a t)
      refine ⟨(targetOf_perform_retry t _).trans htarget, perform_executes_length now s hone _, ?_⟩
      by_cases hid : id = a
      · subst hid
        have hversion : t.version = version := by
          rcases hdue with ⟨⟨u, hu, -, hv⟩, -⟩ | ⟨u, -, -, -, hmem⟩ | ⟨u, hu, -, hv, -⟩
          · obtain rfl := Option.some.inj (ht.symm.trans hu)
            exact hv
          · cases hmem
          · obtain rfl := Option.some.inj (ht.symm.trans hu)
            exact hv
        refine Or.inl ⟨⟨t, htask.trans ht, hst, hversion⟩, ?_⟩
        rw [perform_executes, executesAfter, if_pos rfl, sends_one htarget hone, hversion]
      · have hexec : (s.perform now (.retry a t)).executes id = s.executes id :=
          (perform_executes now s id (.retry a t)).trans (if_neg hid)
        rcases hdue with ⟨hu, hm⟩ | ⟨u, -, -, -, hmem⟩ | ⟨u, hu, hst', hv, hmem⟩
        · exact Or.inl ⟨by rwa [htask], by rwa [hexec]⟩
        · cases hmem
        · exact Or.inr (Or.inr ⟨u, htask.trans hu, hst', hv, (List.mem_cons.mp hmem).resolve_left hid⟩)
    · refine hskip ?_
      rintro ⟨t', ht', hst'⟩
      obtain rfl := Option.some.inj (ht.symm.trans ht')
      exact hst hst'

theorem Offering.foldl_release (h : s.Offering id address version releases retries) :
    (releases.foldl (tickRelease now) s).Offering id address version [] retries := by
  induction releases generalizing s with
  | nil => exact h
  | cons lease releases ih => exact ih h.release

theorem Offering.foldl_retry (h : s.Offering id address version [] retries) :
    (retries.foldl (tickRetry now) s).Offering id address version [] [] := by
  induction retries generalizing s with
  | nil => exact h
  | cons id retries ih => exact ih h.retry

theorem Offering.offers (h : s.Offering id address version [] []) : s.Offers id address version := by
  rcases h.due with h | ⟨t, -, -, -, hmem⟩ | ⟨t, -, -, -, hmem⟩
  · exact h
  · cases hmem
  · cases hmem

theorem grantLease_task (ht : s.tasks.lookup id = some t) (pid : String) (ttl now : Int) :
    (s.grantLease id pid ttl now).tasks.lookup id = some (acquireTask pid ttl t) := by
  simp [grantLease, setTTimeout, ht]

end ServerState

section Offers

variable {s : ServerState} {now : Int} {id address : String} {version : Int} {t : Task}
  {p : DurablePromise} {e : TTimeout}

def Task.nextVersion (t : Task) : Int := if t.state = .acquired then t.version + 1 else t.version

/-- After the promise phases the lists of a tick hold a task whose timer is due. -/
theorem Coherent.offering (hc : Coherent s) (hout : s.outgoing = [])
    (hp : s.promises.lookup id = some p) (hlater : now < p.timeoutAt)
    (htarget : p.tags.lookup "resonate:target" = some address) (ht : s.tasks.lookup id = some t)
    (he : e ∈ s.tTimeouts) (hid : e.id = id) (hdue : e.timeout ≤ now) :
    (s.tickPromises now).Offering id address t.nextVersion (s.dueReleases now) (s.dueRetries now) := by
  subst hid
  have hbulk : Settles now ServerState.expireRecord (s.duePromises now) s (s.tickPromises now) :=
    hc.settles_bulk
  have hmem : e.id ∉ s.duePromises now := by
    intro hin
    obtain ⟨q, hq, -, htime, -⟩ := hc.mem_duePromises.mp hin
    obtain rfl := Option.some.inj (hp.symm.trans hq)
    omega
  obtain ⟨t', ht', hcase⟩ := hc.timersExact.of_timer e he
  obtain rfl := Option.some.inj (ht.symm.trans ht')
  have hne : t.state ≠ .suspended := by
    rintro hsus
    rcases hcase with ⟨hst, -⟩ | ⟨hst, -⟩ <;> cases hsus.symm.trans hst
  obtain ⟨hstate, hversion, -⟩ := resumedBy_of_ne_suspended (s.awaitedIn (s.duePromises now) e.id) hne
  have hafter : (s.tickPromises now).tasks.lookup e.id =
      some (resumedBy (s.awaitedIn (s.duePromises now) e.id) t) := by
    rw [hbulk.other e.id hmem, ht]
    rfl
  have hexec : (s.executes e.id).length ≤ 1 := by simp [ServerState.executes, hout]
  refine ⟨?_, ?_, Or.inr ?_⟩
  · rw [ServerState.targetOf, hbulk.promise, hp]
    simp [hmem, htarget]
  · rw [hbulk.executes e.id hmem]
    split_ifs
    · exact hexec
    · exact ServerState.length_replaceHead hexec _
  · rcases hcase with ⟨hst, htyp⟩ | ⟨hst, htyp⟩
    · refine Or.inr ⟨_, hafter, hstate.trans hst, ?_, List.mem_filterMap.mpr ⟨e, he, ?_⟩⟩
      · simp [hversion, Task.nextVersion, hst]
      · simp [hdue, htyp, ht, hst]
    · refine Or.inl ⟨_, hafter, hstate.trans hst, ?_, List.mem_filterMap.mpr ⟨e, he, ?_⟩⟩
      · simp [hversion, Task.nextVersion, hst]
      · simp [hdue, htyp, ht, hst, hversion]

theorem Coherent.tick_offers (hc : Coherent s) (hp : s.promises.lookup id = some p)
    (hlater : now < p.timeoutAt) (htarget : p.tags.lookup "resonate:target" = some address)
    (ht : s.tasks.lookup id = some t) (he : e ∈ s.tTimeouts) (hid : e.id = id)
    (hdue : e.timeout ≤ now) :
    (s.deliver (.tick now)).Offers id address t.nextVersion := by
  have hlists : ServerState.Offering (({ s with outgoing := [] } : ServerState).tickPromises now) id
      address t.nextVersion (s.dueReleases now) (s.dueRetries now) :=
    hc.cleared.offering rfl hp hlater htarget ht he hid hdue
  exact hlists.foldl_release.foldl_retry.offers

theorem Coherent.tick_settles (hc : Coherent s) (hp : s.promises.lookup id = some p)
    (hdue : p.timeoutAt ≤ now) (htarget : p.targeted = true) :
    (s.deliver (.tick now)).isSettled id = true ∧ (s.deliver (.tick now)).taskIs id .fulfilled := by
  have hc' : Coherent (s.deliver (.tick now)) := deliver_coherent hc trivial
  obtain ⟨q, hq, hk⟩ := deliver_kept hc (show (Op.tick now).Typed from trivial) hp
  have hset : q.state ≠ .pending := by
    intro hpend
    have hnow := hc.cleared.promises_later hq (by rwa [DurablePromise.targeted, hk.tags]) hpend
    rw [hk.timeoutAt] at hnow
    omega
  obtain ⟨u, hu⟩ := hc'.coupled.task id q hq (by rw [hk.tags]; exact htarget)
  exact ⟨ServerState.isSettled_iff.mpr ⟨q, hq, hset⟩, u, hu,
    (hc'.coupled.fulfilled id u q hu hq).mpr hset⟩

theorem ServerState.Offers.acquired (h : s.Offers id address version) (hc : Coherent s)
    (hdue : s.isDue now id = false) (head : Head) (v ttl : Int) (pid : String) :
    (s.deliver (.apply now (unwrapRequestEnvelope (acquireRequest head id v pid ttl)))).Holds id
      version := by
  obtain ⟨t, ht, hst, hv⟩ := h.task
  have hprep : s.prepared now (unwrapRequestEnvelope (acquireRequest head id v pid ttl)) =
      { s with outgoing := [] } := by
    have hnamed : namedPromises (ReqKind.ofName (kindOf (unwrapRequestEnvelope
        (acquireRequest head id v pid ttl)))) (unwrapRequestEnvelope
          (acquireRequest head id v pid ttl)) = [id] := by
      rw [kindOf_acquire, namedPromises, id_acquire]
      rfl
    rw [ServerState.prepared, hnamed]
    exact ServerState.tryAutoTimeout_of_not_due _ _ _ hdue
  have hid : requireStr (unwrapRequestEnvelope (acquireRequest head id v pid ttl)) "id" = .ok id :=
    ServerState.requireStr_of_task hc.awaiters.wf id_acquire ht
  rw [deliver_apply, ServerState.apply_eq_dispatch kindOf_acquire, hprep]
  have htask : ({ s with outgoing := [] } : ServerState).tasks.lookup id = some t := ht
  simp only [ServerState.dispatch, ServerState.taskAcquire, hid, htask, hst, ne_eq,
    not_true_eq_false, if_false]
  exact ⟨_, ServerState.grantLease_task htask _ _ _, rfl, hv⟩

end Offers

/-- In every reachable state a task of a pending targeted promise that is not suspended has a
timer, and a tick at or past it offers the task to the target, where the next acquisition holds
it; past its deadline the promise is settled instead. -/
theorem unfinished_task_offered (ops : List Op) (hops : ∀ op ∈ ops, op.Typed) (id address : String)
    (p : DurablePromise) (t : Task) (hp : (ServerState.init.run ops).promises.lookup id = some p)
    (hst : p.state = .pending) (htarget : p.tags.lookup "resonate:target" = some address)
    (ht : (ServerState.init.run ops).tasks.lookup id = some t) (hsus : t.state ≠ .suspended) :
    ∃ e ∈ (ServerState.init.run ops).tTimeouts, e.id = id ∧ ∀ now, e.timeout ≤ now →
      (p.timeoutAt ≤ now → ((ServerState.init.run ops).deliver (.tick now)).isSettled id = true ∧
        ((ServerState.init.run ops).deliver (.tick now)).taskIs id .fulfilled) ∧
      (now < p.timeoutAt →
        ((ServerState.init.run ops).deliver (.tick now)).Offers id address t.nextVersion ∧
        ∀ now' head v pid ttl, now' < p.timeoutAt →
          (((ServerState.init.run ops).deliver (.tick now)).deliver (.apply now'
            (unwrapRequestEnvelope (acquireRequest head id v pid ttl)))).Holds id t.nextVersion) := by
  have hc := Coherent.run hops
  have hunf : t.state ≠ .fulfilled := fun hf => (hc.coupled.fulfilled id t p ht hp).mp hf hst
  obtain ⟨e, he, hid⟩ : ∃ e ∈ (ServerState.init.run ops).tTimeouts, e.id = id := by
    have hentry : ∃ e, ((ServerState.init.run ops).tTimeouts.filter fun e => e.id = id) = [e] := by
      cases hs : t.state with
      | pending =>
        obtain ⟨time, h⟩ := hc.timersExact.retry id t ht hs
        exact ⟨_, h⟩
      | acquired =>
        obtain ⟨time, h⟩ := hc.timersExact.lease id t ht hs
        exact ⟨_, h⟩
      | suspended => exact absurd hs hsus
      | fulfilled => exact absurd hs hunf
      | halted => exact absurd hs ((hc.cell id).task t ht).not_halted
    obtain ⟨e, h⟩ := hentry
    have hmem := List.mem_filter.mp (h ▸ List.mem_singleton_self e)
    exact ⟨e, hmem.1, by simpa using hmem.2⟩
  refine ⟨e, he, hid, fun now hdue => ⟨fun hpast => ?_, fun hlater => ?_⟩⟩
  · exact hc.tick_settles hp hpast (by simp [DurablePromise.targeted, htarget])
  · have hoffers := hc.tick_offers hp hlater htarget ht he hid hdue
    refine ⟨hoffers, fun now' head v pid ttl hlater' => ?_⟩
    refine hoffers.acquired (deliver_coherent hc trivial) ?_ head v ttl pid
    obtain ⟨q, hq, hk⟩ := deliver_kept hc (show (Op.tick now).Typed from trivial) hp
    simp only [ServerState.isDue, hq, Option.any_some, hk.timeoutAt]
    simp only [decide_eq_false_iff_not, not_and, not_le]
    exact fun _ => hlater'

def orphanedRun : List Op :=
  [.apply 0 (request "task.create" ⟨"c0", none⟩ (taskCreateData "w1" 50 ⟨"c1", none⟩
    { id := "t", timeoutAt := 1000, param := {}
      tags := [⟨"resonate:target", "local://any@default"⟩].toAList }))]

/-- At 60 the task is offered at version 1, and the next worker acquires it. -/
theorem unfinished_task_offered_orphaned :
    ((ServerState.init.run orphanedRun).deliver (.tick 60)).Offers "t" "local://any@default" 1 ∧
      (((ServerState.init.run orphanedRun).deliver (.tick 60)).deliver (.apply 61
        (unwrapRequestEnvelope (acquireRequest ⟨"c2", none⟩ "t" 1 "w2" 50)))).Holds "t" 1 := by
  have htyped : ∀ op ∈ orphanedRun, op.Typed := by
    intro op hop
    obtain rfl := List.mem_singleton.mp hop
    exact typed_of_not_settle rfl (by decide)
  obtain ⟨e, he, -, htick⟩ := unfinished_task_offered orphanedRun htyped "t" "local://any@default" _
    ⟨"t", .acquired, 0, some "w1", some 50, []⟩ rfl rfl rfl rfl (by decide)
  have hdue : e.timeout ≤ 60 := by
    obtain rfl : e = ⟨"t", 1, 50⟩ := List.mem_singleton.mp he
    decide
  obtain ⟨hoffers, hacquire⟩ := (htick 60 hdue).2 (by decide)
  exact ⟨hoffers, hacquire 61 ⟨"c2", none⟩ 1 "w2" 50 (by decide)⟩

end Resonate.Network
