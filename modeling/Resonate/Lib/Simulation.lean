import Mathlib.Logic.Basic

/-!
# Matching runs

Two labelled transition systems, of which some labels are observed. If every step of the one
is matched by a run of the other with the same observations, which may be no step or several,
so is every run.
-/

namespace Lib.Simulation

variable {σ τ L M O : Type*} {step : σ → L → σ → Prop} {other : τ → M → τ → Prop}

inductive Runs (step : σ → L → σ → Prop) : σ → List L → σ → Prop
  | nil (s : σ) : Runs step s [] s
  | cons {s s' s'' : σ} {l : L} {ls : List L} (h : step s l s') (hs : Runs step s' ls s'') :
      Runs step s (l :: ls) s''

namespace Runs

variable {s s' s'' : σ} {l : L} {ls ls' : List L}

theorem single (h : step s l s') : Runs step s [l] s' := .cons h (.nil s')

theorem append (h : Runs step s ls s') (h' : Runs step s' ls' s'') : Runs step s (ls ++ ls') s'' := by
  induction h with
  | nil => exact h'
  | cons hl hs ih => exact .cons hl (ih h')

end Runs

/-- Related states, of which the one's steps are matched by runs of the other. -/
structure Matches (step : σ → L → σ → Prop) (other : τ → M → τ → Prop) (see : L → List O)
    (seen : M → List O) (R : σ → τ → Prop) : Prop where
  step : ∀ s t l s', R s t → step s l s' →
    ∃ ms t', Runs other t ms t' ∧ ms.flatMap seen = see l ∧ R s' t'

/-- Every run is matched. -/
theorem Matches.runs {see : L → List O} {seen : M → List O} {R : σ → τ → Prop}
    (h : Matches step other see seen R) {s s' : σ} {t : τ} {ls : List L} (hR : R s t)
    (hs : Runs step s ls s') :
    ∃ ms t', Runs other t ms t' ∧ ms.flatMap seen = ls.flatMap see ∧ R s' t' := by
  induction hs generalizing t with
  | nil s => exact ⟨[], t, .nil t, rfl, hR⟩
  | cons hl hs ih =>
    obtain ⟨ms, t', hrun, hsee, hR'⟩ := h.step _ _ _ _ hR hl
    obtain ⟨ms', t'', hrun', hsee', hR''⟩ := ih hR'
    refine ⟨ms ++ ms', t'', hrun.append hrun', ?_, hR''⟩
    rw [List.flatMap_append, List.flatMap_cons, hsee, hsee']

end Lib.Simulation
