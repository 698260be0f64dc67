import Resonate.Network.Decompose
import Resonate.Network.Perform

/-!
# Runs of the local server

A run is any sequence of requests and ticks, at any times. `exec_performs` says
that each of them is a list of guarded actions, so an invariant needs one case
per action. The first such invariant is `WF`: tasks belong to promises.
-/

namespace Resonate.Network
open Lib

inductive Op where
  | apply (now : Int) (req : Json)
  | tick (now : Int)

namespace ServerState

def exec (s : ServerState) : Op → ServerState
  | .apply now req => (s.apply now req).1
  | .tick now => s.tick now

abbrev run (s : ServerState) (ops : List Op) : ServerState := Machine.run exec s ops

def Reachable (s : ServerState) : Prop := ∃ ops, init.run ops = s

end ServerState

def Op.now : Op → Int
  | apply now _ | tick now => now

def Op.Act : Op → Network.Act → Prop
  | apply _ req => Act.From req
  | tick _ => Act.FromTick

def Op.Terminal : Op → Prop
  | apply _ req => Network.Terminal req
  | tick _ => True

theorem exec_performs (s : ServerState) (op : Op) :
    Performs op.now op.Terminal op.Act ⟨s, ∅⟩ ⟨s.exec op, ∅⟩ := by
  cases op with
  | apply now req => exact ServerState.apply_performs s now req
  | tick now => exact ServerState.tick_performs s now

/-- Every task belongs to a promise, and promises have non-empty ids. -/
structure WF (s : ServerState) : Prop where
  promise_of_task : ∀ a t, s.tasks.lookup a = some t → ∃ p, s.promises.lookup a = some p
  id_ne : ∀ a p, s.promises.lookup a = some p → a ≠ ""

namespace WF

variable {now : Int} {terminal : Prop} {L : Ledger} {act : Act} {s : ServerState}

theorem promise_kept {a : String} {p : DurablePromise} (h : s.promises.lookup a = some p) :
    ∃ p', (s.perform now act).promises.lookup a = some p' := by
  rw [ServerState.perform_promises]
  cases act <;> simp only [ServerState.promiseAfter, h, Option.map_some] <;>
    first
    | exact ⟨_, rfl⟩
    | (split_ifs <;> exact ⟨_, rfl⟩)

theorem promise_of_taskAfter (hs : WF L.state) (hg : act.Guard now terminal L) {a : String}
    {t : Task} (h : L.state.taskAfter a act = some t) :
    ∃ p, (L.state.perform now act).promises.lookup a = some p := by
  by_cases hold : ∃ u, L.state.tasks.lookup a = some u
  · obtain ⟨u, hu⟩ := hold
    obtain ⟨p, hp⟩ := hs.promise_of_task a u hu
    exact promise_kept hp
  · have hnone : L.state.tasks.lookup a = none := by
      cases hl : L.state.tasks.lookup a with
      | none => rfl
      | some u => exact absurd ⟨u, hl⟩ hold
    rw [ServerState.perform_promises]
    cases act with
    | enqueue id =>
      simp only [ServerState.taskAfter, hnone] at h
      split_ifs at h with ha
      subst ha
      rcases hg with ⟨-, hp, -⟩ | ⟨u, hu, -⟩
      · obtain ⟨p, hp⟩ := Option.isSome_iff_exists.mp hp
        exact ⟨_, by simp only [ServerState.promiseAfter, hp, Option.map_some]; rfl⟩
      · exact absurd ⟨u, hu⟩ hold
    | addPending id req =>
      simp only [ServerState.taskAfter, hnone] at h
      split_ifs at h with ha
      simp [ServerState.promiseAfter, ha.1]
    | addFulfilled id req =>
      simp only [ServerState.taskAfter, hnone] at h
      split_ifs at h with ha
      simp [ServerState.promiseAfter, ha]
    | addAcquired id req pid ttl =>
      simp only [ServerState.taskAfter, hnone] at h
      split_ifs at h with ha
      simp [ServerState.promiseAfter, ha]
    | _ => simp [ServerState.taskAfter, hnone] at h

theorem id_ne_of_promiseAfter (hs : WF L.state) (hg : act.Guard now terminal L) {a : String}
    {p : DurablePromise} (h : L.state.promiseAfter now a act = some p) : a ≠ "" := by
  cases hl : L.state.promises.lookup a with
  | some q => exact hs.id_ne a q hl
  | none =>
    cases act with
    | addExpired id req | addPending id req | addFulfilled id req | addAcquired id req pid ttl =>
      simp only [ServerState.promiseAfter, hl] at h
      split_ifs at h with ha
      exact ha ▸ hg.1
    | _ => simp [ServerState.promiseAfter, hl] at h

theorem step (hs : WF L.state) (hg : act.Guard now terminal L) : WF (L.step now act).state where
  promise_of_task a t h := by
    rw [Ledger.step, ServerState.perform_tasks] at h
    exact hs.promise_of_taskAfter hg h
  id_ne a p h := by
    rw [Ledger.step, ServerState.perform_promises] at h
    exact hs.id_ne_of_promiseAfter hg h

theorem exec (hs : WF s) (op : Op) : WF (s.exec op) :=
  (exec_performs s op).invariant (I := fun L => WF L.state)
    (fun _ _ hg _ h => h.step hg) hs

theorem run (hs : WF s) (ops : List Op) : WF (s.run ops) :=
  Machine.invariant (G := fun _ _ => True) (fun _ op _ h => h.exec op) hs
    (Machine.along_of_forall fun _ _ _ => trivial)

theorem init : WF ServerState.init :=
  ⟨fun _ _ h => (nomatch h), fun _ _ h => (nomatch h)⟩

theorem of_reachable (h : s.Reachable) : WF s := by
  obtain ⟨ops, rfl⟩ := h
  exact init.run ops

end WF

end Resonate.Network
