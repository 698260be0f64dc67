import Mathlib.Data.String.Basic

/-!
# Promise ids

`ids.rs`: an id is an origin, then `:`, then lineage segments separated by `.`.
-/

namespace Resonate

def originSep : Char := ':'

def lineageSep : Char := '.'

/-- A bare root joins its first segment with `:`, an ancestor that carries
lineage joins with `.`. -/
def joinId (ancestor segment : String) : String :=
  let sep := if ancestor.toList.contains originSep then lineageSep else originSep
  String.ofList (ancestor.toList ++ sep :: segment.toList)

/-- Everything before the first `:`. -/
def originOf (id : String) : String :=
  String.ofList (id.toList.takeWhile fun c => c ≠ originSep)

section Injective

theorem split_at_last {P : Char → Prop} {as bs s t : List Char} {x y : Char}
    (h : as ++ x :: s = bs ++ y :: t) (hx : P x) (hy : P y) (hs : ∀ c ∈ s, ¬ P c)
    (ht : ∀ c ∈ t, ¬ P c) : as = bs ∧ s = t := by
  rcases List.append_eq_append_iff.mp h with ⟨cs, rfl, hcs⟩ | ⟨cs, rfl, hcs⟩
  · cases cs with
    | nil => simp_all
    | cons c cs =>
      obtain ⟨-, rfl⟩ := List.cons.inj hcs
      exact absurd hy (hs y (by simp))
  · cases cs with
    | nil => simp_all
    | cons c cs =>
      obtain ⟨-, rfl⟩ := List.cons.inj hcs
      exact absurd hx (ht x (by simp))

theorem toString_digits (n : ℕ) : ∀ c ∈ (toString n).toList, ¬ (c = originSep ∨ c = lineageSep) := by
  intro c hc
  have hd : c.isDigit := Nat.isDigit_of_mem_toDigits (by decide) (by decide) (Nat.toList_repr ▸ hc)
  rintro (rfl | rfl) <;> exact absurd hd (by decide)

theorem joinId_toList (a : String) (n : ℕ) : ∃ sep, (sep = originSep ∨ sep = lineageSep) ∧
    (joinId a (toString n)).toList = a.toList ++ sep :: (toString n).toList := by
  refine ⟨if a.toList.contains originSep then lineageSep else originSep, ?_, by simp [joinId]⟩
  split
  · exact Or.inr rfl
  · exact Or.inl rfl

/-- An id determines its parent's id and its call number. -/
theorem joinId_inj {a b : String} {n m : ℕ} (h : joinId a (toString n) = joinId b (toString m)) :
    a = b ∧ n = m := by
  obtain ⟨x, hx, ha⟩ := joinId_toList a n
  obtain ⟨y, hy, hb⟩ := joinId_toList b m
  rw [h, hb] at ha
  obtain ⟨hab, hnm⟩ := split_at_last ha hy hx (toString_digits m) (toString_digits n)
  have hdigits : Nat.toDigits 10 m = Nat.toDigits 10 n := by simpa using hnm
  refine ⟨(String.toList_inj.mp hab).symm, ?_⟩
  rw [← Nat.ofDigitChars_ten_toDigits (n := n), ← hdigits, Nat.ofDigitChars_ten_toDigits]

theorem length_joinId (a : String) (n : ℕ) :
    a.toList.length < (joinId a (toString n)).toList.length := by
  obtain ⟨sep, -, h⟩ := joinId_toList a n
  rw [h, List.length_append, List.length_cons]
  omega

end Injective

end Resonate
