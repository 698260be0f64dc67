import Mathlib.Algebra.BigOperators.Group.List.Basic
import Mathlib.Algebra.GroupWithZero.Nat
import Mathlib.Data.List.Induction

/-!
# Traces of labelled relations

A trace is a run with its labels in order. Some labels are marks, and some marks use what
the labels since the last mark supply. When every use is supplied, there are no more uses
than supplies. A stock that changes by what the labels bring and take is accounted for by them.
-/

namespace Lib

variable {S L : Type*}

inductive Trace (Step : S → L → S → Prop) (s : S) : List L → S → Prop
  | nil : Trace Step s [] s
  | snoc {ls : List L} {l : L} {s' s'' : S} (h : Trace Step s ls s') (hs : Step s' l s'') :
      Trace Step s (ls ++ [l]) s''

namespace Trace

variable {Step : S → L → S → Prop} {s s' s'' : S} {ls ls' : List L} {l : L}

theorem invariant {I : List L → S → Prop} (h : Trace Step s ls s') (h0 : I [] s)
    (hstep : ∀ ls s₁ l s₂, Trace Step s ls s₁ → I ls s₁ → Step s₁ l s₂ → I (ls ++ [l]) s₂) :
    I ls s' := by
  induction h with
  | nil => exact h0
  | snoc h hs ih => exact hstep _ _ _ _ h ih hs

theorem trans (h : Trace Step s ls s') (h' : Trace Step s' ls' s'') :
    Trace Step s (ls ++ ls') s'' := by
  induction h' with
  | nil => rwa [List.append_nil]
  | snoc h' hs ih =>
    rw [← List.append_assoc]
    exact ih.snoc hs

theorem snoc_inv (h : Trace Step s (ls ++ [l]) s'') : ∃ s', Trace Step s ls s' ∧ Step s' l s'' := by
  generalize hl : ls ++ [l] = ls' at h
  cases h with
  | nil => simp at hl
  | snoc h hs =>
    obtain ⟨rfl, hlast⟩ := List.append_inj' hl rfl
    obtain rfl := List.singleton_inj.mp hlast
    exact ⟨_, h, hs⟩

theorem append_inv (h : Trace Step s (ls ++ ls') s'') :
    ∃ s', Trace Step s ls s' ∧ Trace Step s' ls' s'' := by
  induction ls' using List.reverseRecOn generalizing s'' with
  | nil => exact ⟨s'', by rwa [List.append_nil] at h, .nil⟩
  | append_singleton ls' l ih =>
    rw [← List.append_assoc] at h
    obtain ⟨s₁, h, hs⟩ := h.snoc_inv
    obtain ⟨s', h, h'⟩ := ih h
    exact ⟨s', h, h'.snoc hs⟩

theorem cons_inv (h : Trace Step s (l :: ls) s'') : ∃ s', Step s l s' ∧ Trace Step s' ls s'' := by
  rw [← List.singleton_append] at h
  obtain ⟨s', h, h'⟩ := h.append_inv
  rw [← List.nil_append [l]] at h
  obtain ⟨s₁, h, hs⟩ := h.snoc_inv
  generalize hl : ([] : List L) = ls₁ at h
  cases h with
  | nil => exact ⟨s', hs, h'⟩
  | snoc h hs => simp at hl

/-- What every step conserves is conserved along the trace. -/
theorem conserved {M : Type*} [AddCommMonoid M] {stock : S → M} {into out : L → M}
    (hstep : ∀ s l s', Step s l s' → stock s + into l = out l + stock s') (h : Trace Step s ls s') :
    stock s + (ls.map into).sum = (ls.map out).sum + stock s' := by
  induction h with
  | nil => simp
  | snoc h hs ih =>
    simp only [List.map_append, List.sum_append, List.map_cons, List.map_nil, List.sum_cons,
      List.sum_nil, add_zero]
    rw [← add_assoc, ih, add_assoc, hstep _ _ _ hs, add_assoc]

end Trace

section Marks

variable (mark : L → Prop) (use : L → Bool) (supply : L → ℕ)

/-- The labels from some mark on, or from the start. -/
def FromMark (pre : List L) : Prop := pre = [] ∨ ∃ pre' m, pre = pre' ++ [m] ∧ mark m

/-- Between two consecutive marks, and between the start and the first one, there is a
supply if the later one is a use. -/
def Supplied (ls : List L) : Prop :=
  ∀ pre mid l post, ls = pre ++ mid ++ l :: post → FromMark mark pre → (∀ m ∈ mid, ¬ mark m) →
    mark l → use l = true → ∃ m ∈ mid ++ [l], 0 < supply m

def Fresh (ls : List L) : Prop :=
  ∃ pre mid, ls = pre ++ mid ∧ FromMark mark pre ∧ (∀ m ∈ mid, ¬ mark m) ∧ ∃ m ∈ mid, 0 < supply m

variable {mark use supply} {ls : List L} {l : L}

theorem snoc_eq_append {pre mid : List L} (h : ls ++ [l] = pre ++ mid) :
    mid = [] ∨ ∃ mid', mid = mid' ++ [l] ∧ ls = pre ++ mid' := by
  cases mid using List.reverseRecOn with
  | nil => exact Or.inl rfl
  | append_singleton mid l' _ =>
    rw [← List.append_assoc] at h
    obtain ⟨hls, hl⟩ := List.append_inj' h rfl
    obtain rfl := List.singleton_inj.mp hl
    exact Or.inr ⟨mid, rfl, hls⟩

theorem fromMark_split (mark : L → Prop) (ls : List L) :
    ∃ pre mid, ls = pre ++ mid ∧ FromMark mark pre ∧ ∀ m ∈ mid, ¬ mark m := by
  induction ls using List.reverseRecOn with
  | nil => exact ⟨[], [], rfl, Or.inl rfl, fun m hm => by cases hm⟩
  | append_singleton ls l ih =>
    by_cases hl : mark l
    · exact ⟨ls ++ [l], [], by simp, Or.inr ⟨ls, l, rfl, hl⟩, fun m hm => by cases hm⟩
    · obtain ⟨pre, mid, rfl, hpre, hmid⟩ := ih
      refine ⟨pre, mid ++ [l], by simp, hpre, fun m hm => ?_⟩
      rcases List.mem_append.mp hm with hm | hm
      · exact hmid m hm
      · rwa [List.mem_singleton.mp hm]

theorem Fresh.snoc (h : Fresh mark supply ls) (hl : ¬ mark l) : Fresh mark supply (ls ++ [l]) := by
  obtain ⟨pre, mid, rfl, hpre, hmid, m, hm, hs⟩ := h
  refine ⟨pre, mid ++ [l], by simp, hpre, fun m' hm' => ?_, m, by simp [hm], hs⟩
  rcases List.mem_append.mp hm' with hm' | hm'
  · exact hmid m' hm'
  · rwa [List.mem_singleton.mp hm']

theorem Fresh.of_supply (hl : ¬ mark l) (hs : 0 < supply l) : Fresh mark supply (ls ++ [l]) := by
  obtain ⟨pre, mid, rfl, hpre, hmid⟩ := fromMark_split mark ls
  refine ⟨pre, mid ++ [l], by simp, hpre, fun m hm => ?_, l, by simp, hs⟩
  rcases List.mem_append.mp hm with hm | hm
  · exact hmid m hm
  · rwa [List.mem_singleton.mp hm]

theorem Fresh.of_snoc (h : Fresh mark supply (ls ++ [l])) :
    Fresh mark supply ls ∧ ¬ mark l ∨ 0 < supply l := by
  obtain ⟨pre, mid, heq, hpre, hmid, m, hm, hs⟩ := h
  rcases snoc_eq_append heq with rfl | ⟨mid, rfl, rfl⟩
  · cases hm
  · rcases List.mem_append.mp hm with hm | hm
    · exact Or.inl ⟨⟨pre, mid, rfl, hpre, fun m' hm' => hmid m' (by simp [hm']), m, hm, hs⟩,
        hmid l (by simp)⟩
    · exact Or.inr (by rwa [← List.mem_singleton.mp hm])

theorem Fresh.of_mid {pre mid : List L} (hpre : FromMark mark pre) (hmid : ∀ m ∈ mid, ¬ mark m)
    (h : Fresh mark supply (pre ++ mid)) : ∃ m ∈ mid, 0 < supply m := by
  induction mid using List.reverseRecOn with
  | nil =>
    rw [List.append_nil] at h
    obtain ⟨pre', mid', rfl, -, hmid', m, hm, hs⟩ := h
    rcases hpre with hpre | ⟨pre, m', hpre, hm'⟩
    · rw [(List.append_eq_nil_iff.mp hpre).2] at hm
      cases hm
    · rcases snoc_eq_append hpre.symm with rfl | ⟨mid, rfl, -⟩
      · cases hm
      · exact absurd hm' (hmid' m' (by simp))
  | append_singleton mid l ih =>
    rw [← List.append_assoc] at h
    rcases h.of_snoc with ⟨h, -⟩ | hs
    · obtain ⟨m, hm, hs⟩ := ih (fun m hm => hmid m (by simp [hm])) h
      exact ⟨m, by simp [hm], hs⟩
    · exact ⟨l, by simp, hs⟩

/-- Every use finds a supply since the last mark, or is one. -/
theorem supplied_of_fresh (h : ∀ pre l post, ls = pre ++ l :: post → mark l → use l = true →
    Fresh mark supply pre ∨ 0 < supply l) : Supplied mark use supply ls := by
  intro pre mid l post hls hpre hmid hl huse
  rcases h (pre ++ mid) l post hls hl huse with hf | hs
  · obtain ⟨m, hm, hs⟩ := hf.of_mid hpre hmid
    exact ⟨m, by simp [hm], hs⟩
  · exact ⟨l, by simp, hs⟩

theorem Supplied.init (h : Supplied mark use supply (ls ++ [l])) : Supplied mark use supply ls := by
  intro pre mid l' post hls
  exact h pre mid l' (post ++ [l]) (by rw [hls]; simp)

/-- There are no more uses than supplies. -/
theorem Supplied.countP_le (h : Supplied mark use supply ls) (huse : ∀ l, use l = true → mark l) :
    ls.countP use ≤ (ls.map supply).sum ∧
      (Fresh mark supply ls → ls.countP use + 1 ≤ (ls.map supply).sum) := by
  induction ls using List.reverseRecOn with
  | nil =>
    refine ⟨by simp, fun hf => ?_⟩
    obtain ⟨pre, mid, heq, -, -, m, hm, -⟩ := hf
    rw [(List.append_eq_nil_iff.mp heq.symm).2] at hm
    cases hm
  | append_singleton ls l ih =>
    obtain ⟨hle, hlt⟩ := ih h.init
    have hcount : (ls ++ [l]).countP use = ls.countP use + if use l then 1 else 0 := by
      simp [List.countP_cons]
    have hsum : ((ls ++ [l]).map supply).sum = (ls.map supply).sum + supply l := by simp
    rw [hcount, hsum]
    by_cases hu : use l = true
    · have hm := huse l hu
      have hsup : Fresh mark supply ls ∨ 0 < supply l := by
        obtain ⟨pre, mid, rfl, hpre, hmid⟩ := fromMark_split mark ls
        obtain ⟨m, hmem, hs⟩ := h pre mid l [] rfl hpre hmid hm hu
        rcases List.mem_append.mp hmem with hmem | hmem
        · exact Or.inl ⟨pre, mid, rfl, hpre, hmid, m, hmem, hs⟩
        · exact Or.inr (by rwa [← List.mem_singleton.mp hmem])
      rw [if_pos hu]
      refine ⟨?_, fun hf => ?_⟩
      · rcases hsup with hf | hs
        · have := hlt hf
          omega
        · omega
      · obtain ⟨pre, mid, heq, -, hmid, m, hmem, -⟩ := hf
        rcases snoc_eq_append heq with rfl | ⟨mid, rfl, -⟩
        · cases hmem
        · exact absurd hm (hmid l (by simp))
    · rw [if_neg hu]
      refine ⟨by omega, fun hf => ?_⟩
      rcases hf.of_snoc with ⟨hf, -⟩ | hs
      · have := hlt hf
        omega
      · omega

end Marks

end Lib
