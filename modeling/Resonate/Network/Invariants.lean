import Resonate.Network.Moves

/-!
# Tasks, promises and timers

What coherence says about every run of the SDK's requests and of ticks: tasks and
promises are coupled, and the two timeout queues hold exactly the deadlines, retries
and leases of what is still open.
-/

namespace Resonate.Network
open Lib

/-- Every task belongs to a promise, is fulfilled exactly when the promise is settled,
and is held by a process exactly while it is acquired; a targeted promise has a task. -/
structure Coupled (s : ServerState) : Prop where
  promise : ∀ a t, s.tasks.lookup a = some t → t.id = a ∧ ∃ p, s.promises.lookup a = some p ∧ p.id = a
  fulfilled : ∀ a t p, s.tasks.lookup a = some t → s.promises.lookup a = some p →
    (t.state = .fulfilled ↔ p.state ≠ .pending)
  task : ∀ a p, s.promises.lookup a = some p → (p.tags.lookup "resonate:target").isSome →
    ∃ t, s.tasks.lookup a = some t
  held : ∀ a t, s.tasks.lookup a = some t →
    (t.pid.isSome ↔ t.state = .acquired) ∧ (t.ttl.isSome ↔ t.state = .acquired)

/-- The queues hold one deadline for each targeted promise that is pending, one retry for
each pending task, one lease for each acquired task, and nothing else. -/
structure TimersExact (s : ServerState) : Prop where
  deadline : ∀ a p, s.promises.lookup a = some p → p.state = .pending →
    (p.tags.lookup "resonate:target").isSome →
      (s.pTimeouts.filter fun e => e.id = a) = [⟨a, p.timeoutAt⟩]
  of_deadline : ∀ e ∈ s.pTimeouts, ∃ p, s.promises.lookup e.id = some p ∧ p.state = .pending ∧
    (p.tags.lookup "resonate:target").isSome ∧ e.timeout = p.timeoutAt
  retry : ∀ a t, s.tasks.lookup a = some t → t.state = .pending →
    ∃ time, (s.tTimeouts.filter fun e => e.id = a) = [⟨a, 0, time⟩]
  lease : ∀ a t, s.tasks.lookup a = some t → t.state = .acquired →
    ∃ time, (s.tTimeouts.filter fun e => e.id = a) = [⟨a, 1, time⟩]
  idle : ∀ a t, s.tasks.lookup a = some t → t.state = .suspended ∨ t.state = .fulfilled →
    (s.tTimeouts.filter fun e => e.id = a) = []
  of_timer : ∀ e ∈ s.tTimeouts, ∃ t, s.tasks.lookup e.id = some t ∧
    (t.state = .pending ∧ e.typ = 0 ∨ t.state = .acquired ∧ e.typ = 1)

section Runs

variable {s : ServerState}

theorem Coherent.coupled (h : Coherent s) : Coupled s where
  promise a t ht := by
    obtain ⟨p, hp⟩ := (h.cell a).task_promise t ht
    exact ⟨((h.cell a).task t ht).id, p, hp, ((h.cell a).promise p hp).id⟩
  fulfilled a t p ht hp := (h.cell a).fulfilled_iff p hp t ht
  task a p hp htarget := (h.cell a).targeted p hp htarget
  held a t ht := ⟨((h.cell a).task t ht).pid, ((h.cell a).task t ht).ttl⟩

theorem Coherent.tEntries_eq (h : Coherent s) {a : String} {t : Task}
    (ht : s.tasks.lookup a = some t) : TimersOk a (some t) (s.tEntries a) := by
  have hes := (h.cell a).tEntries
  rwa [ServerState.cell, ht] at hes

theorem Coherent.timersExact (h : Coherent s) : TimersExact s where
  deadline a p hp hst htarget := by
    have hps := (h.cell a).pEntries
    simp only [ServerState.cell, hp, Option.elim_some] at hps
    rw [DurablePromise.timers, if_pos ⟨hst, htarget⟩, ((h.cell a).promise p hp).id] at hps
    exact hps
  of_deadline e he := by
    have hent := ServerState.mem_pTimeouts.mp he
    have hps := (h.cell e.id).pEntries
    simp only [ServerState.cell] at hps
    rw [hps] at hent
    cases hp : s.promises.lookup e.id with
    | none => simp [hp] at hent
    | some p =>
      rw [hp, Option.elim_some, DurablePromise.mem_timers] at hent
      obtain ⟨⟨hst, htarget⟩, heq⟩ := hent
      exact ⟨p, rfl, hst, htarget, by rw [heq]⟩
  retry a t ht hst := by
    have hes := h.tEntries_eq ht
    simp only [TimersOk, Option.map_some, hst] at hes
    exact hes
  lease a t ht hst := by
    have hes := h.tEntries_eq ht
    simp only [TimersOk, Option.map_some, hst] at hes
    exact hes
  idle a t ht hst := by
    have hes := h.tEntries_eq ht
    rcases hst with hst | hst
    · simp only [TimersOk, Option.map_some, hst] at hes
      exact hes
    · simp only [TimersOk, Option.map_some, hst] at hes
      exact hes
  of_timer e he := by
    have hent : e ∈ s.tEntries e.id := by simp [ServerState.tEntries, he]
    have hes := (h.cell e.id).tEntries
    simp only [ServerState.cell] at hes
    cases ht : s.tasks.lookup e.id with
    | none =>
      simp only [TimersOk, ht, Option.map_none] at hes
      simp [hes] at hent
    | some t =>
      simp only [TimersOk, ht, Option.map_some] at hes
      refine ⟨t, rfl, ?_⟩
      cases hst : t.state with
      | pending =>
        simp only [hst] at hes
        obtain ⟨time, hes⟩ := hes
        rw [hes, List.mem_singleton] at hent
        exact Or.inl ⟨rfl, by rw [hent]⟩
      | acquired =>
        simp only [hst] at hes
        obtain ⟨time, hes⟩ := hes
        rw [hes, List.mem_singleton] at hent
        exact Or.inr ⟨rfl, by rw [hent]⟩
      | suspended | fulfilled | halted =>
        simp only [hst] at hes
        simp [hes] at hent

/-- Over every run of the SDK's requests and of ticks, tasks and promises are coupled. -/
theorem tasks_coupled (ops : List Op) (h : ∀ op ∈ ops, op.Typed) : Coupled (ServerState.init.run ops) :=
  (Coherent.run h).coupled

theorem tasks_coupled_fulfilled :
    Coupled (ServerState.init.run fulfilledRun) ∧
      (ServerState.init.run fulfilledRun).taskIs "b" .fulfilled ∧
      (ServerState.init.run fulfilledRun).taskIs "a" .pending :=
  ⟨tasks_coupled fulfilledRun fulfilledRun_typed, ⟨_, rfl, by decide⟩, ⟨_, rfl, by decide⟩⟩

/-- Over every run of the SDK's requests and of ticks, the timeout queues are exact. -/
theorem timers_exact (ops : List Op) (h : ∀ op ∈ ops, op.Typed) :
    TimersExact (ServerState.init.run ops) :=
  (Coherent.run h).timersExact

theorem timers_exact_fulfilled :
    TimersExact (ServerState.init.run fulfilledRun) ∧
      (ServerState.init.run fulfilledRun).pTimeouts = [⟨"a", 100⟩] ∧
      (ServerState.init.run fulfilledRun).tTimeouts = [⟨"a", 0, 30002⟩] :=
  ⟨timers_exact fulfilledRun fulfilledRun_typed, by decide, by decide⟩

end Runs

end Resonate.Network
