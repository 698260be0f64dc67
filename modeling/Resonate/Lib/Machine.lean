import Mathlib.Order.Basic

/-!
# Runs of a deterministic machine

A machine is a step function; a run folds it over a list of inputs. `Along`
says that a guard holds at every step of a run. The rules are the usual ones:
guards and runs split at an append, an invariant kept by every guarded step
holds at the end, and so does a preorder that every guarded step respects.
-/

namespace Lib.Machine

variable {σ α : Type*} (step : σ → α → σ)

def run (s : σ) (as : List α) : σ := as.foldl step s

def Along (G : σ → α → Prop) : σ → List α → Prop
  | _, [] => True
  | s, a :: as => G s a ∧ Along G (step s a) as

@[simp] theorem run_nil (s : σ) : run step s [] = s := rfl

@[simp] theorem run_cons (s : σ) (a : α) (as : List α) :
    run step s (a :: as) = run step (step s a) as := rfl

theorem run_append (s : σ) (as bs : List α) :
    run step s (as ++ bs) = run step (run step s as) bs :=
  List.foldl_append ..

variable {step}

theorem along_append {G : σ → α → Prop} {s : σ} {as bs : List α} :
    Along step G s (as ++ bs) ↔
      Along step G s as ∧ Along step G (run step s as) bs := by
  induction as generalizing s with
  | nil => simp [Along]
  | cons a as ih => simp [Along, ih, and_assoc]

theorem along_and {g g' : σ → α → Prop} {s : σ} {as : List α} :
    Along step (fun s a => g s a ∧ g' s a) s as ↔ Along step g s as ∧ Along step g' s as := by
  induction as generalizing s with
  | nil => simp [Along]
  | cons a as ih => simp [Along, ih, and_and_and_comm]

theorem Along.mono {g g' : σ → α → Prop} (h : ∀ s a, g s a → g' s a) {s : σ} {as : List α}
    (hg : Along step g s as) : Along step g' s as := by
  induction as generalizing s with
  | nil => trivial
  | cons a as ih => exact ⟨h _ _ hg.1, ih hg.2⟩

theorem along_of_forall {G : σ → α → Prop} {s : σ} {as : List α}
    (h : ∀ s, ∀ a ∈ as, G s a) : Along step G s as := by
  induction as generalizing s with
  | nil => trivial
  | cons a as ih => exact ⟨h s a (by simp), ih fun s b hb => h s b (by simp [hb])⟩

/-- The invariant rule. -/
theorem invariant {G : σ → α → Prop} {I : σ → Prop}
    (hstep : ∀ s a, G s a → I s → I (step s a)) {s : σ} {as : List α}
    (hs : I s) (hg : Along step G s as) : I (run step s as) := by
  induction as generalizing s with
  | nil => exact hs
  | cons a as ih => exact ih (hstep s a hg.1 hs) hg.2

/-- The two-state rule: a preorder respected by every guarded step from an
invariant state is respected by the run. -/
theorem ordered {G : σ → α → Prop} {I : σ → Prop} {R : σ → σ → Prop}
    (hrefl : ∀ s, R s s) (htrans : ∀ s t u, R s t → R t u → R s u)
    (hinv : ∀ s a, G s a → I s → I (step s a))
    (hstep : ∀ s a, G s a → I s → R s (step s a)) {s : σ} {as : List α}
    (hs : I s) (hg : Along step G s as) : R s (run step s as) := by
  induction as generalizing s with
  | nil => exact hrefl s
  | cons a as ih =>
    exact htrans _ _ _ (hstep s a hg.1 hs) (ih (hinv s a hg.1 hs) hg.2)

/-- A guard that decides at every step whether a property is kept holds along a run exactly
if the property holds in every state the run goes through. -/
theorem along_iff_prefixes {A G : σ → α → Prop} {I P : σ → Prop}
    (hinv : ∀ s a, A s a → I s → I (step s a))
    (hiff : ∀ s a, A s a → I s → P s → (G s a ↔ P (step s a))) {s : σ} {as : List α} (hI : I s)
    (hP : P s) (hA : Along step A s as) :
    Along step G s as ↔ ∀ bs cs, as = bs ++ cs → P (run step s bs) := by
  induction as generalizing s with
  | nil =>
    refine ⟨fun _ bs cs h => ?_, fun _ => trivial⟩
    rw [(List.append_eq_nil_iff.mp h.symm).1]
    exact hP
  | cons a as ih =>
    constructor
    · rintro ⟨hG, hrest⟩ bs cs h
      have hP' : P (step s a) := (hiff s a hA.1 hI hP).mp hG
      cases bs with
      | nil => exact hP
      | cons b bs =>
        obtain ⟨rfl, rfl⟩ := List.cons.inj h
        exact (ih (hinv s a hA.1 hI) hP' hA.2).mp hrest bs cs rfl
    · intro h
      have hP' : P (step s a) := h [a] as rfl
      refine ⟨(hiff s a hA.1 hI hP).mpr hP', (ih (hinv s a hA.1 hI) hP' hA.2).mpr ?_⟩
      rintro bs cs rfl
      exact h (a :: bs) cs rfl

section Key

variable {κ : Type*} {f : σ → κ} {G : σ → α → Prop} {I : σ → Prop}

theorem key_le [Preorder κ] (hinv : ∀ s a, G s a → I s → I (step s a))
    (hstep : ∀ s a, G s a → I s → f s ≤ f (step s a)) {s : σ} {as : List α}
    (hs : I s) (hg : Along step G s as) : f s ≤ f (run step s as) :=
  ordered (R := fun s t => f s ≤ f t) (fun _ => le_rfl) (fun _ _ _ => le_trans) hinv hstep hs hg

end Key

end Lib.Machine
