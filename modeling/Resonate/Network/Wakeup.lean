import Resonate.Network.Lease
import Mathlib.Data.List.Induction

/-!
# Awaiters and wakeups

`AwaitersOk` is the invariant on awaiters: a settled promise has none once its
awaiters are woken, and an awaiter is an existing task that is not fulfilled.
A task suspended at a version is parked on the promises its request named until
an action wakes it or fulfils it; `Fate` lists what can become of it in a step.
-/

namespace Resonate.Network
open Lib

structure AwaitersOk (L : Ledger) : Prop where
  wf : WF L.state
  settled : ∀ a p, L.state.promises.lookup a = some p → p.state ≠ .pending → a ∉ L.unwoken →
    p.awaiters = []
  awaiter : ∀ a p b, L.state.promises.lookup a = some p → b ∈ p.awaiters →
    ∃ t, L.state.tasks.lookup b = some t ∧ t.state ≠ .fulfilled

theorem resumedTask_ne_fulfilled {promiseId : String} {t : Task} (h : t.state ≠ .fulfilled) :
    (resumedTask promiseId t).state ≠ .fulfilled := by
  obtain ⟨id, state, version, pid, ttl, resumes⟩ := t
  cases state <;> simp_all [resumedTask]

namespace AwaitersOk

variable {now : Int} {L : Ledger} {act : Act}

theorem task_after (hs : WF L.state) (hg : act.Guard now True L) {b : String} {t : Task}
    (ht : L.state.tasks.lookup b = some t) (hf : t.state ≠ .fulfilled) (hne : act ≠ .enqueue b) :
    ∃ u, L.state.taskAfter b act = some u ∧ u.state ≠ .fulfilled := by
  have hnew : ∀ a, L.state.promises.lookup a = none → b ≠ a := by
    rintro a ha rfl
    obtain ⟨p, hp⟩ := hs.promise_of_task b t ht
    simp [ha] at hp
  have hedit : ∀ a (f : Task → Task), (f t).state ≠ .fulfilled → ∃ u,
      (if b = a then (L.state.tasks.lookup b).map f else L.state.tasks.lookup b) = some u ∧
        u.state ≠ .fulfilled := by
    intro a f h
    split_ifs
    · exact ⟨f t, by rw [ht]; rfl, h⟩
    · exact ⟨t, ht, hf⟩
  cases act with
  | enqueue a =>
    have h : b ≠ a := fun h => hne (h ▸ rfl)
    exact ⟨t, by simp [ServerState.taskAfter, h, ht], hf⟩
  | wake a =>
    simp only [ServerState.taskAfter]
    split_ifs
    · exact ⟨_, by rw [ht]; rfl, resumedTask_ne_fulfilled hf⟩
    · exact ⟨t, ht, hf⟩
  | addPending a req => exact ⟨t, by simp [ServerState.taskAfter, hnew a hg.2.1, ht], hf⟩
  | addFulfilled a req => exact ⟨t, by simp [ServerState.taskAfter, hnew a hg.2.1, ht], hf⟩
  | addAcquired a req pid ttl => exact ⟨t, by simp [ServerState.taskAfter, hnew a hg.2.1, ht], hf⟩
  | grant a pid ttl => exact hedit a (acquireTask pid ttl) (by simp [acquireTask])
  | release a u => exact hedit a releaseTask (by simp [releaseTask])
  | clearResumes a => exact hedit a (fun t => { t with resumes := [] }) hf
  | suspend a => exact hedit a suspendTask (by simp [suspendTask])
  | _ => exact ⟨t, ht, hf⟩

theorem awaiters_after {a b : String} {p : DurablePromise}
    (h : L.state.promiseAfter now a act = some p) (hb : b ∈ p.awaiters) :
    (∃ q, L.state.promises.lookup a = some q ∧ b ∈ q.awaiters ∧
      (act = .enqueue b → L.state.withdraws b = false)) ∨ ∃ c, act = .register b c := by
  cases act with
  | enqueue id =>
    obtain ⟨q, hq, rfl⟩ := Option.map_eq_some_iff.mp h
    left
    refine ⟨q, hq, ?_, ?_⟩
    · split_ifs at hb
      · exact List.mem_of_mem_filter hb
      · exact hb
    · rintro ⟨⟩
      by_contra hw
      simp [eq_true_of_ne_false hw] at hb
  | wake id =>
    obtain ⟨q, hq, rfl⟩ := Option.map_eq_some_iff.mp h
    refine Or.inl ⟨q, hq, ?_, by simp⟩
    split_ifs at hb
    · simp at hb
    · exact hb
  | register id c =>
    obtain ⟨q, hq, rfl⟩ := Option.map_eq_some_iff.mp h
    split_ifs at hb
    · rcases List.mem_insert_iff.mp hb with rfl | hb
      · exact Or.inr ⟨c, rfl⟩
      · exact Or.inl ⟨q, hq, hb, by simp⟩
    · exact Or.inl ⟨q, hq, hb, by simp⟩
  | expire id | tickExpire id | settle id state value | subscribe id address =>
    simp only [ServerState.promiseAfter] at h
    split_ifs at h
    · obtain ⟨q, hq, rfl⟩ := Option.map_eq_some_iff.mp h
      exact Or.inl ⟨q, hq, hb, by simp⟩
    · exact Or.inl ⟨p, h, hb, by simp⟩
  | addExpired id req | addPending id req | addFulfilled id req | addAcquired id req pid ttl =>
    simp only [ServerState.promiseAfter] at h
    split_ifs at h
    · obtain rfl := Option.some.inj h
      simp [expiredPromise, pendingPromise] at hb
    · exact Or.inl ⟨p, h, hb, by simp⟩
  | _ => exact Or.inl ⟨p, h, hb, by simp⟩

theorem awaiter_after (h : AwaitersOk L) (hg : act.Guard now True L) {a b : String}
    {p : DurablePromise} (hp : L.state.promiseAfter now a act = some p) (hb : b ∈ p.awaiters) :
    ∃ t, L.state.taskAfter b act = some t ∧ t.state ≠ .fulfilled := by
  rcases awaiters_after hp hb with ⟨q, hq, hqb, hw⟩ | ⟨c, rfl⟩
  · obtain ⟨t, ht, hf⟩ := h.awaiter a q b hq hqb
    refine task_after h.wf hg ht hf fun he => ?_
    have := hw he
    simp [ServerState.withdraws, ht, hf] at this
  · obtain ⟨t, ht, hst⟩ := hg
    exact ⟨t, ht, by simp [hst]⟩

theorem settled_after (hg : act.Guard now True L) {a : String} {p : DurablePromise}
    (h : L.state.promiseAfter now a act = some p) (hs : p.state ≠ .pending)
    (ha : a ∉ act.unwoken L.unwoken) :
    p.awaiters = [] ∨ ∃ q, L.state.promises.lookup a = some q ∧ q.state ≠ .pending ∧
      a ∉ L.unwoken ∧ (q.awaiters = [] → p.awaiters = []) := by
  cases act with
  | enqueue id =>
    obtain ⟨q, hq, rfl⟩ := Option.map_eq_some_iff.mp h
    refine Or.inr ⟨q, hq, ?_, ha, fun he => ?_⟩
    · split_ifs at hs <;> exact hs
    · split_ifs <;> simp [he]
  | wake id =>
    obtain ⟨q, hq, rfl⟩ := Option.map_eq_some_iff.mp h
    by_cases hi : a = id
    · simp [hi]
    · refine Or.inr ⟨q, hq, by simpa [hi] using hs, ?_, fun he => by simp [hi, he]⟩
      simpa [Act.unwoken, hi] using ha
  | register id c =>
    obtain ⟨q, hq, rfl⟩ := Option.map_eq_some_iff.mp h
    by_cases hi : a = c ∧ q.state = .pending
    · simp [hi] at hs
    · exact Or.inr ⟨q, hq, by simpa [hi] using hs, ha, fun he => by simp [hi, he]⟩
  | subscribe id address =>
    simp only [ServerState.promiseAfter] at h
    split_ifs at h
    · obtain ⟨q, hq, rfl⟩ := Option.map_eq_some_iff.mp h
      exact Or.inr ⟨q, hq, hs, ha, fun he => he⟩
    · exact Or.inr ⟨p, h, hs, ha, fun he => he⟩
  | expire id | tickExpire id | settle id state value =>
    have hi : a ≠ id := fun hi => ha (by simp [Act.unwoken, hi])
    simp only [ServerState.promiseAfter, hi, if_false] at h
    exact Or.inr ⟨p, h, hs, fun hm => ha (by simp [Act.unwoken, hm]), fun he => he⟩
  | addExpired id req =>
    have hi : a ≠ id := fun hi => ha (by simp [Act.unwoken, hi])
    simp only [ServerState.promiseAfter, hi, if_false] at h
    exact Or.inr ⟨p, h, hs, fun hm => ha (by simp [Act.unwoken, hm]), fun he => he⟩
  | addPending id req | addFulfilled id req | addAcquired id req pid ttl =>
    simp only [ServerState.promiseAfter] at h
    split_ifs at h
    · obtain rfl := Option.some.inj h
      exact Or.inl rfl
    · exact Or.inr ⟨p, h, hs, ha, fun he => he⟩
  | _ => exact Or.inr ⟨p, h, hs, ha, fun he => he⟩

theorem step (h : AwaitersOk L) (hg : act.Guard now True L) : AwaitersOk (L.step now act) where
  wf := h.wf.step hg
  settled a p hp hs ha := by
    rw [Ledger.step, ServerState.perform_promises] at hp
    rcases settled_after hg hp hs ha with he | ⟨q, hq, hqs, hqa, himp⟩
    · exact he
    · exact himp (h.settled a q hq hqs hqa)
  awaiter a p b hp hb := by
    simp only [Ledger.step, ServerState.perform_promises, ServerState.perform_tasks] at hp ⊢
    exact h.awaiter_after hg hp hb

end AwaitersOk

def ServerState.SuspendedAt (s : ServerState) (id : String) (v : Int) : Prop :=
  ∃ t, s.tasks.lookup id = some t ∧ t.state = .suspended ∧ t.version = v

/-- The task is suspended and registered with all of `names`, of which only
those whose settlement has begun are not pending. -/
structure ParkedOn (L : Ledger) (id : String) (v : Int) (names : List String) : Prop where
  task : L.state.SuspendedAt id v
  awaits : ∀ a ∈ names, ∃ p, L.state.promises.lookup a = some p ∧ id ∈ p.awaiters ∧
    (p.state = .pending ∨ a ∈ L.unwoken)

/-- What a step that starts in `s₀` can make of a task parked on `names`. -/
inductive Fate (s₀ : ServerState) (id : String) (v : Int) (names : List String) (L : Ledger) :
    Prop
  | parked (h : ParkedOn L id v names)
  | woken (t : Task) (ht : L.state.tasks.lookup id = some t) (hs : t.state = .pending)
      (hv : t.version = v + 1)
  | fulfilled (t : Task) (ht : L.state.tasks.lookup id = some t) (hs : t.state = .fulfilled)
      (hnow : L.state.isSettled id = true) (hwas : s₀.isPending id = true)

def OwnPending (s₀ : ServerState) (id : String) (L : Ledger) : Prop :=
  s₀.isPending id = true ∨ L.state.isSettled id = true ∧ id ∉ L.unwoken

section Step

variable {now : Int} {L : Ledger} {act : Act} {s₀ : ServerState} {id : String} {v : Int}
  {names : List String}

theorem promiseAfter_settled (hg : act.Guard now True L) {a : String} {p : DurablePromise}
    (hp : L.state.promises.lookup a = some p) (hs : p.state ≠ .pending) :
    ∃ q, L.state.promiseAfter now a act = some q ∧ q.state ≠ .pending := by
  have hset : L.state.isSettled a = true := ServerState.isSettled_iff.mpr ⟨p, hp, hs⟩
  have hno := ServerState.not_isPending_of_isSettled hset
  have hpend : ∀ b, L.state.isPending b = true → a ≠ b := by
    rintro b hb rfl
    simp [hb] at hno
  have hnone : ∀ b, L.state.promises.lookup b = none → a ≠ b := by
    rintro b hb rfl
    simp [hb] at hp
  cases act with
  | expire b =>
    have hb := hpend b (by
      obtain ⟨q, hq, hst, -⟩ := ServerState.isDue_iff.mp hg
      exact ServerState.isPending_iff.mpr ⟨q, hq, hst⟩)
    exact ⟨p, by simp [ServerState.promiseAfter, hb, hp], hs⟩
  | tickExpire b => exact ⟨p, by simp [ServerState.promiseAfter, hpend b hg, hp], hs⟩
  | settle b state value => exact ⟨p, by simp [ServerState.promiseAfter, hpend b hg.1, hp], hs⟩
  | addExpired b req => exact ⟨p, by simp [ServerState.promiseAfter, hnone b hg.2.1, hp], hs⟩
  | addPending b req => exact ⟨p, by simp [ServerState.promiseAfter, hnone b hg.2.1, hp], hs⟩
  | addFulfilled b req => exact ⟨p, by simp [ServerState.promiseAfter, hnone b hg.2.1, hp], hs⟩
  | addAcquired b req pid ttl =>
    exact ⟨p, by simp [ServerState.promiseAfter, hnone b hg.2.1, hp], hs⟩
  | enqueue b | wake b | register b c =>
    refine ⟨_, by simp only [ServerState.promiseAfter, hp]; rfl, ?_⟩
    dsimp only
    split_ifs <;> exact hs
  | subscribe b address => exact ⟨p, by simp [ServerState.promiseAfter, hpend b hg, hp], hs⟩
  | _ => exact ⟨p, hp, hs⟩

theorem isSettled_perform (hg : act.Guard now True L) {a : String}
    (h : L.state.isSettled a = true) : (L.state.perform now act).isSettled a = true := by
  obtain ⟨p, hp, hs⟩ := ServerState.isSettled_iff.mp h
  obtain ⟨q, hq, hqs⟩ := promiseAfter_settled hg hp hs
  exact ServerState.isSettled_iff.mpr
    ⟨q, (ServerState.perform_promises now L.state a act).trans hq, hqs⟩

theorem OwnPending.step (hg : act.Guard now True L) (h : OwnPending s₀ id L) :
    OwnPending s₀ id (L.step now act) := by
  rcases h with h | ⟨hs, hu⟩
  · exact Or.inl h
  · refine Or.inr ⟨isSettled_perform hg hs, ?_⟩
    have hno := ServerState.not_isPending_of_isSettled hs
    obtain ⟨p, hp, -⟩ := ServerState.isSettled_iff.mp hs
    cases act with
    | expire b =>
      obtain ⟨q, hq, hst, -⟩ := ServerState.isDue_iff.mp hg
      have hb : id ≠ b := by
        rintro rfl
        simp [ServerState.isPending_iff.mpr ⟨q, hq, hst⟩] at hno
      simp [Ledger.step, Act.unwoken, hb, hu]
    | tickExpire b =>
      have hb : id ≠ b := by
        rintro rfl
        simp [show L.state.isPending id = true from hg] at hno
      simp [Ledger.step, Act.unwoken, hb, hu]
    | settle b state value =>
      have hb : id ≠ b := by
        rintro rfl
        simp [hg.1] at hno
      simp [Ledger.step, Act.unwoken, hb, hu]
    | addExpired b req =>
      have hb : id ≠ b := by
        rintro rfl
        simp [hg.2.1] at hp
      simp [Ledger.step, Act.unwoken, hb, hu]
    | wake b => exact fun h => hu h.1
    | _ => exact hu

/-- An action on another task, or on a task in another state, leaves the task alone. -/
theorem taskAfter_of_not_acquired (hs : WF L.state) (hg : act.Guard now True L) {t : Task}
    (ht : L.state.tasks.lookup id = some t) (hst : t.state ≠ .acquired)
    (hgr : ∀ pid ttl, act = .grant id pid ttl → t.state ≠ .pending)
    (he : act ≠ .enqueue id) (hw : ∀ a, act = .wake a → id ∉ L.state.awaitersOf a) :
    L.state.taskAfter id act = some t := by
  have hnew : ∀ a, L.state.promises.lookup a = none → id ≠ a := by
    rintro a ha rfl
    obtain ⟨p, hp⟩ := hs.promise_of_task id t ht
    simp [ha] at hp
  have hacq : ∀ a, L.state.taskIs a .acquired → id ≠ a := by
    rintro a ⟨u, hu, hus⟩ rfl
    obtain rfl : t = u := by simpa [ht] using hu
    exact hst hus
  cases act with
  | enqueue a =>
    have h : id ≠ a := fun h => he (h ▸ rfl)
    simp [ServerState.taskAfter, h, ht]
  | wake a => simp [ServerState.taskAfter, hw a rfl, ht]
  | addPending a req => simp [ServerState.taskAfter, hnew a hg.2.1, ht]
  | addFulfilled a req => simp [ServerState.taskAfter, hnew a hg.2.1, ht]
  | addAcquired a req pid ttl => simp [ServerState.taskAfter, hnew a hg.2.1, ht]
  | grant a pid ttl =>
    have h : id ≠ a := by
      rintro rfl
      obtain ⟨u, hu, hus⟩ := hg
      obtain rfl : t = u := by simpa [ht] using hu
      exact hgr pid ttl rfl hus
    simp [ServerState.taskAfter, h, ht]
  | release a u => simp [ServerState.taskAfter, hacq a ⟨u, hg⟩, ht]
  | clearResumes a => simp [ServerState.taskAfter, hacq a hg, ht]
  | suspend a => simp [ServerState.taskAfter, hacq a hg, ht]
  | _ => exact ht

theorem awaiting_after (hg : act.Guard now True L) {a : String} {p : DurablePromise}
    (hp : L.state.promises.lookup a = some p) (hid : id ∈ p.awaiters) (he : act ≠ .enqueue id)
    (hw : act ≠ .wake a) :
    ∃ q, L.state.promiseAfter now a act = some q ∧ id ∈ q.awaiters ∧
      (q.state = p.state ∨ a ∈ act.unwoken L.unwoken) := by
  have hnew : ∀ b, L.state.promises.lookup b = none → a ≠ b := by
    rintro b hb rfl
    simp [hb] at hp
  cases act with
  | expire b | tickExpire b | settle b state value =>
    by_cases h : a = b
    · subst h
      refine ⟨_, by simp only [ServerState.promiseAfter, if_true, hp]; rfl, ?_,
        Or.inr (by simp [Act.unwoken])⟩
      exact hid
    · exact ⟨p, by simp [ServerState.promiseAfter, h, hp], hid, Or.inl rfl⟩
  | enqueue b =>
    have hb : id ≠ b := fun h => he (h ▸ rfl)
    refine ⟨_, by simp only [ServerState.promiseAfter, hp]; rfl, ?_, Or.inl ?_⟩
    · dsimp only
      split_ifs
      · simpa [hb] using hid
      · exact hid
    · dsimp only
      split_ifs <;> rfl
  | wake b =>
    have hb : a ≠ b := fun h => hw (h ▸ rfl)
    exact ⟨p, by simp [ServerState.promiseAfter, hb, hp], hid, Or.inl rfl⟩
  | addExpired b req =>
    exact ⟨p, by simp [ServerState.promiseAfter, hnew b hg.2.1, hp], hid, Or.inl rfl⟩
  | addPending b req =>
    exact ⟨p, by simp [ServerState.promiseAfter, hnew b hg.2.1, hp], hid, Or.inl rfl⟩
  | addFulfilled b req =>
    exact ⟨p, by simp [ServerState.promiseAfter, hnew b hg.2.1, hp], hid, Or.inl rfl⟩
  | addAcquired b req pid ttl =>
    exact ⟨p, by simp [ServerState.promiseAfter, hnew b hg.2.1, hp], hid, Or.inl rfl⟩
  | register b c =>
    refine ⟨_, by simp only [ServerState.promiseAfter, hp]; rfl, ?_, Or.inl ?_⟩
    · dsimp only
      split_ifs
      · exact List.mem_insert_of_mem hid
      · exact hid
    · dsimp only
      split_ifs <;> rfl
  | subscribe b address =>
    by_cases h : a = b
    · subst h
      refine ⟨_, by simp only [ServerState.promiseAfter, if_true, hp]; rfl, ?_, Or.inl ?_⟩
      · exact hid
      · rfl
    · exact ⟨p, by simp [ServerState.promiseAfter, h, hp], hid, Or.inl rfl⟩
  | _ => exact ⟨p, hp, hid, Or.inl rfl⟩

theorem unwoken_of_mem {a : String} (h : a ∈ L.unwoken) (hw : act ≠ .wake a) :
    a ∈ act.unwoken L.unwoken := by
  cases act with
  | expire b | tickExpire b | settle b state value => exact Set.mem_insert_of_mem _ h
  | addExpired b req => exact Set.mem_insert_of_mem _ h
  | wake b => exact ⟨h, fun hb => hw (by rw [Set.mem_singleton_iff.mp hb])⟩
  | _ => exact h

theorem fate_enqueue (hg : (Act.enqueue id).Guard now True L) (hown : OwnPending s₀ id L)
    {t : Task} (ht : L.state.tasks.lookup id = some t) (hst : t.state ≠ .acquired) :
    Fate s₀ id v names (L.step now (.enqueue id)) := by
  rcases hg with ⟨hu, hp, hset⟩ | ⟨u, hu, hus⟩
  · refine .fulfilled (fulfillTask t) ?_ (fulfillTask_state t) ?_ ?_
    · simp [Ledger.step, ServerState.perform_tasks, ServerState.taskAfter,
        ServerState.taskOfSettled, ht]
    · have hg : (Act.enqueue id).Guard now True L := Or.inl ⟨hu, hp, hset⟩
      exact isSettled_perform hg (hset trivial)
    · exact hown.resolve_right fun h => h.2 hu
  · obtain rfl : t = u := by simpa [ht] using hu
    exact absurd hus hst

theorem Fate.step (hs : WF L.state) (hg : act.Guard now True L)
    (hgr : ∀ pid ttl, act ≠ .grant id pid ttl) (hown : OwnPending s₀ id L)
    (h : Fate s₀ id v names L) : Fate s₀ id v names (L.step now act) := by
  have hkeep : ∀ t, L.state.tasks.lookup id = some t → t.state ≠ .acquired →
      act ≠ .enqueue id → (∀ a, act = .wake a → id ∉ L.state.awaitersOf a) →
      (L.step now act).state.tasks.lookup id = some t := fun t ht hst he hw =>
    (ServerState.perform_tasks now L.state id act).trans
      (taskAfter_of_not_acquired hs hg ht hst (fun pid ttl he => absurd he (hgr pid ttl)) he hw)
  cases h with
  | parked hp =>
    obtain ⟨t, ht, hst, hv⟩ := hp.task
    have hna : t.state ≠ .acquired := by simp [hst]
    by_cases he : act = .enqueue id
    · subst he
      exact fate_enqueue hg hown ht hna
    by_cases hw : ∃ a, act = .wake a ∧ id ∈ L.state.awaitersOf a
    · obtain ⟨a, rfl, ha⟩ := hw
      refine .woken (resumedTask a t) ?_ (by simp [resumedTask, hst]) (by simp [resumedTask, hst, hv])
      simp [Ledger.step, ServerState.perform_tasks, ServerState.taskAfter, ha, ht]
    · have hw' : ∀ a, act = .wake a → id ∉ L.state.awaitersOf a := fun a ha hm => hw ⟨a, ha, hm⟩
      refine .parked ⟨⟨t, hkeep t ht hna he hw', hst, hv⟩, fun a ha => ?_⟩
      obtain ⟨p, hpa, hid, hor⟩ := hp.awaits a ha
      have hwa : act ≠ .wake a := fun hwa => hw' a hwa (by simp [ServerState.awaitersOf, hpa, hid])
      obtain ⟨q, hq, hqid, hqor⟩ := awaiting_after hg hpa hid he hwa
      refine ⟨q, (ServerState.perform_promises now L.state a act).trans hq, hqid, ?_⟩
      rcases hor with hpend | hun
      · exact hqor.imp (fun h => h.trans hpend) (fun h => h)
      · exact Or.inr (unwoken_of_mem hun hwa)
  | woken t ht hst hv =>
    have hna : t.state ≠ .acquired := by simp [hst]
    by_cases he : act = .enqueue id
    · subst he
      exact fate_enqueue hg hown ht hna
    by_cases hw : ∃ a, act = .wake a ∧ id ∈ L.state.awaitersOf a
    · obtain ⟨a, rfl, ha⟩ := hw
      refine .woken (resumedTask a t) ?_ (by simp [resumedTask, hst]) (by simp [resumedTask, hst, hv])
      simp [Ledger.step, ServerState.perform_tasks, ServerState.taskAfter, ha, ht]
    · exact .woken t (hkeep t ht hna he fun a ha hm => hw ⟨a, ha, hm⟩) hst hv
  | fulfilled t ht hst hnow hwas =>
    have hna : t.state ≠ .acquired := by simp [hst]
    by_cases he : act = .enqueue id
    · subst he
      exact fate_enqueue hg hown ht hna
    by_cases hw : ∃ a, act = .wake a ∧ id ∈ L.state.awaitersOf a
    · obtain ⟨a, rfl, ha⟩ := hw
      refine .fulfilled t ?_ hst (isSettled_perform hg hnow) hwas
      simp [Ledger.step, ServerState.perform_tasks, ServerState.taskAfter, ha, ht,
        resumedTask_fulfilled hst]
    · exact .fulfilled t (hkeep t ht hna he fun a ha hm => hw ⟨a, ha, hm⟩) hst
        (isSettled_perform hg hnow) hwas

/-- Only `suspend` makes a task suspended. -/
theorem not_suspendedAt_step (hne : act ≠ .suspend id)
    (h : ¬ L.state.SuspendedAt id v) : ¬ (L.step now act).state.SuspendedAt id v := by
  rintro ⟨t, ht, hst, hv⟩
  rw [Ledger.step, ServerState.perform_tasks] at ht
  have hold : L.state.tasks.lookup id = some t → False := fun h' => h ⟨t, h', hst, hv⟩
  have hedit : ∀ a (f : Task → Task), (∀ u, (f u).state ≠ .suspended) →
      (if id = a then (L.state.tasks.lookup id).map f else L.state.tasks.lookup id) = some t →
      False := by
    intro a f hf h'
    split_ifs at h'
    · obtain ⟨u, -, rfl⟩ := Option.map_eq_some_iff.mp h'
      exact hf u hst
    · exact hold h'
  cases act with
  | enqueue a =>
    simp only [ServerState.taskAfter] at ht
    split_ifs at ht
    · simp [L.state.taskOfSettled_fulfilled a ht] at hst
    · exact hold ht
  | wake a =>
    simp only [ServerState.taskAfter] at ht
    split_ifs at ht
    · obtain ⟨u, hu, rfl⟩ := Option.map_eq_some_iff.mp ht
      obtain ⟨i, state, version, pid, ttl, resumes⟩ := u
      cases state <;> simp [resumedTask] at hst
    · exact hold ht
  | addPending a req =>
    simp only [ServerState.taskAfter] at ht
    split_ifs at ht
    · simp [← Option.some.inj ht] at hst
    · exact hold ht
  | addFulfilled a req =>
    simp only [ServerState.taskAfter] at ht
    split_ifs at ht
    · simp [← Option.some.inj ht, ServerState.fulfilledTask] at hst
    · exact hold ht
  | addAcquired a req pid ttl =>
    simp only [ServerState.taskAfter] at ht
    split_ifs at ht
    · simp [← Option.some.inj ht] at hst
    · exact hold ht
  | grant a pid ttl => exact hedit a (acquireTask pid ttl) (by simp [acquireTask]) ht
  | release a u => exact hedit a releaseTask (by simp [releaseTask]) ht
  | clearResumes a =>
    simp only [ServerState.taskAfter] at ht
    split_ifs at ht
    · obtain ⟨u, hu, rfl⟩ := Option.map_eq_some_iff.mp ht
      exact h ⟨u, hu, hst, hv⟩
    · exact hold ht
  | suspend a =>
    have ha : id ≠ a := fun ha => hne (ha ▸ rfl)
    simp only [ServerState.taskAfter, ha, if_false] at ht
    exact hold ht
  | _ => exact hold ht

end Step

section Exec

variable {s : ServerState} {op : Op} {now : Int} {req : Json} {id : String} {v : Int}
  {names : List String}

def Op.Grants (op : Op) (id : String) : Prop :=
  match op with
  | apply _ req => Network.Grants req id
  | tick _ => False

def Op.Suspends (op : Op) (id : String) : Prop :=
  match op with
  | apply _ req => Network.Suspends req id
  | tick _ => False

theorem exec_performs_terminal (h : op.Terminal) (s : ServerState) :
    Performs op.now True op.Act ⟨s, ∅⟩ ⟨s.exec op, ∅⟩ := by
  have hp := exec_performs s op
  rwa [eq_true h] at hp

theorem AwaitersOk.exec (h : op.Terminal) (hs : AwaitersOk ⟨s, ∅⟩) : AwaitersOk ⟨s.exec op, ∅⟩ :=
  (exec_performs_terminal h s).invariant (fun _ _ hg _ ha => ha.step hg) hs

theorem parkedOn_iff : ParkedOn ⟨s, ∅⟩ id v names ↔ s.SuspendedAt id v ∧ ∀ a ∈ names,
    ∃ p, s.promises.lookup a = some p ∧ p.state = .pending ∧ id ∈ p.awaiters := by
  constructor
  · rintro ⟨ht, ha⟩
    refine ⟨ht, fun a h => ?_⟩
    obtain ⟨p, hp, hid, hor⟩ := ha a h
    exact ⟨p, hp, hor.resolve_right (Set.notMem_empty a), hid⟩
  · rintro ⟨ht, ha⟩
    refine ⟨ht, fun a h => ?_⟩
    obtain ⟨p, hp, hst, hid⟩ := ha a h
    exact ⟨p, hp, hid, Or.inl hst⟩

theorem ownPending_start (hs : WF s) (h : s.SuspendedAt id v) : OwnPending s id ⟨s, ∅⟩ := by
  obtain ⟨t, ht, -⟩ := h
  obtain ⟨p, hp⟩ := hs.promise_of_task id t ht
  by_cases hst : p.state = .pending
  · exact Or.inl (ServerState.isPending_iff.mpr ⟨p, hp, hst⟩)
  · exact Or.inr ⟨ServerState.isSettled_iff.mpr ⟨p, hp, hst⟩, Set.notMem_empty id⟩

theorem grants_fst {k : ReqKind} {corrId : Json} {t : Task} (hg : Grants req id)
    (hk : ReqKind.ofName (kindOf req) = some k) (ht : s.tasks.lookup id = some t)
    (hst : t.state ≠ .pending) : (s.dispatch now corrId req k).1 = s := by
  rcases hg with ⟨hk', hid⟩ | ⟨hk', hid⟩
  · obtain rfl : k = .taskAcquire := Option.some.inj (hk.symm.trans hk')
    simp only [ServerState.dispatch, ServerState.taskAcquire]
    cases hr : requireStr req "id" with
    | error e => rfl
    | ok i =>
      obtain rfl : id = i := Option.some.inj (hid.symm.trans (requireStr_ok.mp hr).1)
      simp [ht, hst]
  · obtain rfl : k = .taskCreate := Option.some.inj (hk.symm.trans hk')
    simp only [ServerState.dispatch, ServerState.taskCreate]
    cases requireStr req "pid" with
    | error e => rfl
    | ok pid =>
      dsimp only
      cases hr : requireStr (extractActionData (actionOf req)) "id" with
      | error e => rfl
      | ok i =>
        obtain rfl : id = i := Option.some.inj (hid.symm.trans (requireStr_ok.mp hr).1)
        simp only [ht]
        cases h : t.state with
        | pending => exact absurd h hst
        | _ => rfl

theorem namedPromises_grants (hg : Grants req id) :
    namedPromises (ReqKind.ofName (kindOf req)) req = [id] := by
  rcases hg with ⟨hk, hid⟩ | ⟨hk, hid⟩ <;> simp [hk, namedPromises, hid]

theorem fate_of_grants (hp : ParkedOn ⟨s, ∅⟩ id v names) (hg : Grants req id) :
    Fate s id v names ⟨(s.apply now req).1, ∅⟩ := by
  obtain ⟨t, ht, hst, hv⟩ := hp.task
  obtain ⟨k, hk⟩ : ∃ k, ReqKind.ofName (kindOf req) = some k := by
    rcases hg with ⟨h, -⟩ | ⟨h, -⟩ <;> exact ⟨_, h⟩
  have hprep : s.prepared now req = { s with outgoing := [] }.tryAutoTimeout now id := by
    simp [ServerState.prepared, namedPromises_grants hg, ServerState.autoTimeouts]
  rw [ServerState.apply_eq_dispatch hk]
  by_cases hd : s.isDue now id = true
  · have hd' : ({ s with outgoing := [] } : ServerState).isDue now id = true := hd
    obtain ⟨p, hpl, hpend, -⟩ := ServerState.isDue_iff.mp hd
    rw [ServerState.tryAutoTimeout_of_due _ _ _ hd'] at hprep
    have htask : (s.prepared now req).tasks.lookup id = some (fulfillTask t) := by
      rw [hprep, ServerState.settled_tasks, if_pos rfl]
      have ht' : (({ s with outgoing := [] } : ServerState).expire id).tasks.lookup id = some t := ht
      simp [ServerState.taskOfSettled, ht']
    have hset : (s.prepared now req).isSettled id = true := by
      refine ServerState.isSettled_iff.mpr
        ⟨_, by rw [hprep, ServerState.settled_promises]; simp [ServerState.expire, hpl]; rfl, ?_⟩
      simp only [ServerState.chainRecord]
      split_ifs <;> exact ServerState.timeoutState_ne_pending _
    rw [grants_fst hg hk htask (by simp)]
    exact .fulfilled _ htask (fulfillTask_state t) hset
      (ServerState.isPending_iff.mpr ⟨p, hpl, hpend⟩)
  · have hd' : ({ s with outgoing := [] } : ServerState).isDue now id = false :=
      eq_false_of_ne_true hd
    rw [ServerState.tryAutoTimeout_of_not_due _ _ _ hd'] at hprep
    rw [hprep, grants_fst (s := { s with outgoing := [] }) hg hk ht (by simp [hst])]
    exact .parked ⟨⟨t, ht, hst, hv⟩, hp.awaits⟩

theorem fate_exec (hs : WF s) (hop : op.Terminal) (hp : ParkedOn ⟨s, ∅⟩ id v names) :
    Fate s id v names ⟨s.exec op, ∅⟩ := by
  by_cases hg : op.Grants id
  · cases op with
    | apply now req => exact fate_of_grants hp hg
    | tick now => exact hg.elim
  · have hgr : ∀ act, op.Act act → ∀ pid ttl, act ≠ .grant id pid ttl := by
      rintro act ha pid ttl rfl
      cases op with
      | apply now req => exact hg ha
      | tick now => exact ha
    have hinv := (exec_performs_terminal hop s).invariant
      (I := fun L => WF L.state ∧ OwnPending s id L ∧ Fate s id v names L)
      (fun L act hgd ha hi => ⟨hi.1.step hgd, hi.2.1.step hgd,
        hi.2.2.step hi.1 hgd (hgr act ha) hi.2.1⟩)
      ⟨hs, ownPending_start hs hp.task, .parked hp⟩
    exact hinv.2.2

theorem registerAwaiter_parks {l : List String} {a : String} {p : DurablePromise}
    (hp : s.promises.lookup a = some p) (hst : p.state = .pending)
    (h : a ∈ l ∨ id ∈ p.awaiters) :
    ∃ q, (l.foldl (ServerState.registerAwaiter id) s).promises.lookup a = some q ∧ q.state = .pending ∧
      id ∈ q.awaiters := by
  induction l generalizing s p with
  | nil => exact ⟨p, hp, hst, h.resolve_left (by simp)⟩
  | cons b l ih =>
    have hb := ServerState.registerAwaiter_promises s id b a
    rw [hp] at hb
    by_cases hab : a = b
    · have hb' : (ServerState.registerAwaiter id s b).promises.lookup a =
          some { p with awaiters := p.awaiters.insert id } := by simpa [hab, hst] using hb
      exact ih hb' hst (Or.inr List.mem_insert_self)
    · have hb' : (ServerState.registerAwaiter id s b).promises.lookup a = some p := by
        simpa [hab] using hb
      exact ih hb' hst (by simpa [hab] using h)

theorem op_suspends (hop : op.Terminal) (hno : ¬ s.SuspendedAt id v)
    (h : (s.exec op).SuspendedAt id v) : op.Suspends id := by
  by_contra hs
  have hne : ∀ act, op.Act act → act ≠ .suspend id := by
    rintro act ha rfl
    cases op with
    | apply now req => exact hs ha
    | tick now => exact ha
  exact (exec_performs_terminal hop s).invariant
    (I := fun L => ¬ L.state.SuspendedAt id v)
    (fun L act _ ha hi => not_suspendedAt_step (hne act ha) hi) hno h

theorem prepared_not_suspendedAt (hno : ¬ s.SuspendedAt id v) :
    ¬ (s.prepared now req).SuspendedAt id v := by
  have h : Performs now True (fun act => act ≠ .suspend id) ⟨s, ∅⟩ ⟨s.prepared now req, ∅⟩ :=
    ServerState.prepared_performs (by simp) (by simp) (by simp) (by simp)
  exact h.invariant (I := fun L => ¬ L.state.SuspendedAt id v)
    (fun _ _ _ ha hi => not_suspendedAt_step ha hi) hno

theorem prepared_promise {a : String} (h : (s.promises.lookup a).isSome) :
    ((s.prepared now req).promises.lookup a).isSome := by
  have hperf : Performs now True (fun _ => True) ⟨s, ∅⟩ ⟨s.prepared now req, ∅⟩ :=
    ServerState.prepared_performs trivial (by simp) (by simp) (by simp)
  refine hperf.invariant (I := fun L => (L.state.promises.lookup a).isSome)
    (fun L act _ _ hi => ?_) h
  obtain ⟨p, hp⟩ := Option.isSome_iff_exists.mp hi
  exact Option.isSome_iff_exists.mpr (WF.promise_kept hp)

theorem suspendedAt_of_tasks {s' : ServerState} (h : s'.tasks = s.tasks)
    (hs : s'.SuspendedAt id v) : s.SuspendedAt id v := by
  obtain ⟨t, ht, hst⟩ := hs
  exact ⟨t, h ▸ ht, hst⟩

theorem foldl_registerAwaiter_tasks (l : List String) :
    (l.foldl (ServerState.registerAwaiter id) s).tasks = s.tasks := by
  induction l generalizing s with
  | nil => rfl
  | cons a l ih => simp [ih]

/-- The handler of `task.suspend` parks the task on every promise it names that exists:
it refuses to park on one that is settled. -/
theorem taskSuspend_parks_on {corrId : Json} (hid : strField req "id" = some id)
    (hno : ¬ s.SuspendedAt id v) (h : (s.taskSuspend corrId req).1.SuspendedAt id v) {a : String}
    (ha : a ∈ callbacksOf req) (hex : (s.promises.lookup a).isSome) :
    ∃ p, (s.taskSuspend corrId req).1.promises.lookup a = some p ∧ p.state = .pending ∧
      id ∈ p.awaiters := by
  revert h
  unfold ServerState.taskSuspend
  cases hr : requireStr req "id" with
  | error e => exact fun h => absurd h hno
  | ok i =>
    obtain rfl : id = i := Option.some.inj (hid.symm.trans (requireStr_ok.mp hr).1)
    dsimp only
    cases ht : s.tasks.lookup id with
    | none => exact fun h => absurd h hno
    | some t =>
      dsimp only
      split_ifs with hst hres hany
      · exact fun h => absurd h hno
      · rintro ⟨u, hu, hus, huv⟩
        simp only [ServerState.clearResumes, HashMap.lookup_modify, if_true, ht, Option.map_some,
          Option.some.injEq] at hu
        subst hu
        exact absurd hus (by simp [not_not.mp hst])
      · exact fun h => absurd (suspendedAt_of_tasks (foldl_registerAwaiter_tasks _) h) hno
      · intro _
        obtain ⟨p, hp⟩ := Option.isSome_iff_exists.mp hex
        have hpend : p.state = .pending := by
          by_contra hne
          exact hany (List.any_eq_true.mpr ⟨a, ha, ServerState.isSettled_iff.mpr ⟨p, hp, hne⟩⟩)
        exact registerAwaiter_parks hp hpend (Or.inl ha)

theorem taskSuspend_parks {corrId : Json} (hid : strField req "id" = some id)
    (hno : ¬ s.SuspendedAt id v) (hex : ∀ a ∈ callbacksOf req, (s.promises.lookup a).isSome)
    (h : (s.taskSuspend corrId req).1.SuspendedAt id v) :
    ParkedOn ⟨(s.taskSuspend corrId req).1, ∅⟩ id v (callbacksOf req) :=
  parkedOn_iff.mpr ⟨h, fun a ha => taskSuspend_parks_on hid hno h ha (hex a ha)⟩

/-- Settle states are not pending, and a suspension names promises that exist. -/
def Op.Proper (s : ServerState) (op : Op) : Prop :=
  op.Terminal ∧ ∀ now req id, op = .apply now req → Network.Suspends req id →
    callbacksOf req ≠ [] ∧ ∀ a ∈ callbacksOf req, (s.promises.lookup a).isSome

theorem parked_of_exec (hop : op.Proper s) (hno : ¬ s.SuspendedAt id v)
    (h : (s.exec op).SuspendedAt id v) :
    ∃ now req, op = .apply now req ∧ Network.Suspends req id ∧
      ParkedOn ⟨s.exec op, ∅⟩ id v (callbacksOf req) := by
  have hs := op_suspends hop.1 hno h
  cases op with
  | tick now => exact hs.elim
  | apply now req =>
    refine ⟨now, req, rfl, hs, ?_⟩
    obtain ⟨hk, hid⟩ := hs
    have he : (s.apply now req).1 =
        ((s.prepared now req).taskSuspend ((req.get "corrId").getD .null) req).1 := by
      rw [ServerState.apply_eq_dispatch hk]
      rfl
    simp only [ServerState.exec, he] at h ⊢
    exact taskSuspend_parks hid (prepared_not_suspendedAt hno)
      (fun a ha => prepared_promise ((hop.2 now req id rfl ⟨hk, hid⟩).2 a ha)) h

end Exec

def ParkedBy (ops : List Op) (id : String) (v : Int) (names : List String) : Prop :=
  ∃ pre now req post, ops = pre ++ .apply now req :: post ∧ Suspends req id ∧
    callbacksOf req = names ∧ ¬ (ServerState.init.run pre).SuspendedAt id v ∧
    ((ServerState.init.run pre).exec (.apply now req)).SuspendedAt id v

theorem parked_run (ops : List Op)
    (hops : Machine.Along ServerState.exec Op.Proper ServerState.init ops) {id : String} {v : Int}
    (h : (ServerState.init.run ops).SuspendedAt id v) :
    ∃ names, ParkedBy ops id v names ∧ ParkedOn ⟨ServerState.init.run ops, ∅⟩ id v names := by
  induction ops using List.reverseRecOn with
  | nil =>
    obtain ⟨t, ht, -⟩ := h
    exact nomatch ht
  | append_singleton ops op ih =>
    obtain ⟨hpre, hop, -⟩ := Machine.along_append.mp hops
    have hrun : ServerState.init.run (ops ++ [op]) = (ServerState.init.run ops).exec op :=
      Machine.run_append ..
    rw [hrun] at h ⊢
    by_cases hold : (ServerState.init.run ops).SuspendedAt id v
    · obtain ⟨names, ⟨pre, now, req, post, rfl, hreq⟩, hp⟩ := ih hpre hold
      refine ⟨names, ⟨pre, now, req, post ++ [op], by simp, hreq⟩, ?_⟩
      obtain ⟨t, ht, hst, hv⟩ := h
      cases fate_exec (WF.init.run _) hop.1 hp with
      | parked hp' => exact hp'
      | woken u hu hus huv =>
        obtain rfl : t = u := Option.some.inj (ht.symm.trans hu)
        simp [hst] at hus
      | fulfilled u hu hus =>
        obtain rfl : t = u := Option.some.inj (ht.symm.trans hu)
        simp [hst] at hus
    · obtain ⟨now, req, rfl, hs, hp⟩ := parked_of_exec hop hold h
      exact ⟨callbacksOf req, ⟨ops, now, req, [], rfl, hs, rfl, hold, h⟩, hp⟩

theorem awaitersOk_run (ops : List Op)
    (hops : Machine.Along ServerState.exec Op.Proper ServerState.init ops) :
    AwaitersOk ⟨ServerState.init.run ops, ∅⟩ :=
  Machine.invariant (I := fun s => AwaitersOk ⟨s, ∅⟩) (fun _ _ hop h => h.exec hop.1)
    ⟨WF.init, fun _ _ h => (nomatch h), fun _ _ _ h => (nomatch h)⟩ hops

/-- A suspended task is parked on the promises its request named until the step
that settles the first of them, which makes it pending at the next version, or
fulfilled when the same step settles the task's own promise. -/
theorem no_lost_wakeup (ops : List Op)
    (hops : Machine.Along ServerState.exec Op.Proper ServerState.init ops) :
    (∀ id t, (ServerState.init.run ops).tasks.lookup id = some t → t.state = .suspended →
      ∃ names, ParkedBy ops id t.version names ∧
        (∀ a ∈ names, ∃ p, (ServerState.init.run ops).promises.lookup a = some p ∧
          p.state = .pending ∧ id ∈ p.awaiters) ∧
        ∀ op, op.Proper (ServerState.init.run ops) →
          (∃ a ∈ names, ((ServerState.init.run ops).exec op).isSettled a = true) →
          ∃ u, ((ServerState.init.run ops).exec op).tasks.lookup id = some u ∧
            (u.state = .pending ∧ u.version = t.version + 1 ∨
              u.state = .fulfilled ∧ (ServerState.init.run ops).isPending id = true ∧
                ((ServerState.init.run ops).exec op).isSettled id = true)) ∧
    (∀ a p b, (ServerState.init.run ops).promises.lookup a = some p → b ∈ p.awaiters →
      ∃ t, (ServerState.init.run ops).tasks.lookup b = some t ∧ t.state ≠ .fulfilled) ∧
    ∀ a p, (ServerState.init.run ops).promises.lookup a = some p → p.state ≠ .pending →
      p.awaiters = [] := by
  have hok := awaitersOk_run ops hops
  refine ⟨fun id t ht hst => ?_, hok.awaiter, fun a p hp hs => hok.settled a p hp hs ?_⟩
  · obtain ⟨names, hby, hp⟩ := parked_run ops hops ⟨t, ht, hst, rfl⟩
    refine ⟨names, hby, (parkedOn_iff.mp hp).2, fun op hop hset => ?_⟩
    obtain ⟨a, ha, hsa⟩ := hset
    cases fate_exec hok.wf hop.1 hp with
    | parked hp' =>
      obtain ⟨q, hq, hqs, -⟩ := (parkedOn_iff.mp hp').2 a ha
      have hno := ServerState.not_isPending_of_isSettled hsa
      simp [ServerState.isPending_iff.mpr ⟨q, hq, hqs⟩] at hno
    | woken u hu hus huv => exact ⟨u, hu, Or.inl ⟨hus, huv⟩⟩
    | fulfilled u hu hus hnow hwas => exact ⟨u, hu, Or.inr ⟨hus, hwas, hnow⟩⟩
  · exact Set.notMem_empty a

def twinRun : List Op :=
  let create := fun id => request "promise.create" ⟨"c", none⟩ (PromiseCreateReq.toJson
    { id, timeoutAt := 100, param := {}
      tags := [⟨"resonate:target", "local://any@default"⟩].toAList })
  [.apply 0 (create "a"), .apply 0 (create "b"),
    .apply 0 (request "task.acquire" ⟨"c", none⟩ (taskAcquireData "a" 0 "w" 1000)),
    .apply 0 (request "task.suspend" ⟨"c", none⟩ (taskSuspendData "a" 0 [(⟨"c", none⟩, ⟨"b", "a"⟩)]))]

theorem proper_of_not_suspend {s : ServerState} {now : Int} {req : Json}
    (hk : ReqKind.ofName (kindOf req) ≠ some .taskSuspend) (hr : settleRequest req = none) :
    (Op.apply now req).Proper s :=
  ⟨fun r h => by simp [hr] at h, by rintro n q i ⟨⟩ hs; exact absurd hs.1 hk⟩

theorem twinRun_proper :
    Machine.Along ServerState.exec Op.Proper ServerState.init (twinRun ++ [.tick 100]) := by
  refine ⟨proper_of_not_suspend (by decide) rfl, proper_of_not_suspend (by decide) rfl,
    proper_of_not_suspend (by decide) rfl, ⟨fun r h => (nomatch h), ?_⟩,
    ⟨trivial, fun _ _ _ h => (nomatch h)⟩, trivial⟩
  rintro n q i ⟨⟩ -
  exact ⟨by decide, by decide⟩

/-- The tick at the deadline settles both promises, and the task is not pending. -/
theorem twin_not_pending :
    Machine.Along ServerState.exec Op.Proper ServerState.init (twinRun ++ [.tick 100]) ∧
      (ServerState.init.run twinRun).SuspendedAt "a" 0 ∧
      ((ServerState.init.run twinRun).exec (.tick 100)).isSettled "b" = true ∧
      ¬ ((ServerState.init.run twinRun).exec (.tick 100)).taskIs "a" .pending := by
  refine ⟨twinRun_proper, ⟨⟨"a", .suspended, 0, none, none, []⟩, by decide, rfl, rfl⟩,
    by decide, ?_⟩
  rintro ⟨t, ht, hst⟩
  have h : ((ServerState.init.run twinRun).exec (.tick 100)).tasks.lookup "a" =
      some (ServerState.fulfilledTask "a") := by decide
  obtain rfl := Option.some.inj (ht.symm.trans h)
  exact absurd hst (by decide)

theorem no_lost_wakeup_twin :
    ∃ names, ParkedBy twinRun "a" 0 names ∧
      ∀ a ∈ names, ∃ p, (ServerState.init.run twinRun).promises.lookup a = some p ∧
        p.state = .pending ∧ "a" ∈ p.awaiters := by
  obtain ⟨names, hby, hp, -⟩ := (no_lost_wakeup twinRun (Machine.along_append.mp twinRun_proper).1).1
    "a" ⟨"a", .suspended, 0, none, none, []⟩ (by decide) rfl
  exact ⟨names, hby, hp⟩

end Resonate.Network
