import Mathlib.Data.List.AList

/-!
# String-keyed maps and keyed vectors

Finite maps are `AList`s over `String`. This module adds the three operations
a hash map has and `AList` lacks (mutation of one value, mutation of all values,
the list of values), and the two operations a vector used as a keyed table
needs: update-or-push and retain. One lookup or membership lemma characterises
each operation, so that no proof below looks at an entry list.
-/

namespace Lib

abbrev HashMap (α : Type) := AList (fun _ : String => α)

namespace HashMap

variable {α : Type}

/-- Mutation of the value under a key; the map is unchanged where it has none. -/
def modify (m : HashMap α) (k : String) (f : α → α) : HashMap α :=
  match m.lookup k with
  | some a => m.insert k (f a)
  | none => m

def mapValues (m : HashMap α) (f : α → α) : HashMap α :=
  ⟨m.entries.map (Sigma.map id fun _ => f), m.nodupKeys.map₂ (fun _ => f) m.entries⟩

def values (m : HashMap α) : List α := m.entries.map Sigma.snd

@[simp] theorem lookup_insert_ite (m : HashMap α) (k k' : String) (a : α) :
    (AList.insert k a m).lookup k' = if k' = k then some a else m.lookup k' := by
  by_cases h : k' = k
  · subst h
    simp
  · simp [h, AList.lookup_insert_ne h]

@[simp] theorem lookup_erase_ite (m : HashMap α) (k k' : String) :
    (AList.erase k m).lookup k' = if k' = k then none else m.lookup k' := by
  by_cases h : k' = k
  · subst h
    simp
  · simp [h, AList.lookup_erase_ne h]

@[simp] theorem lookup_modify (m : HashMap α) (k k' : String) (f : α → α) :
    (modify m k f).lookup k' = if k' = k then (m.lookup k').map f else m.lookup k' := by
  unfold modify
  by_cases h : k' = k
  · subst h
    cases hk : m.lookup k' with
    | some a => simp
    | none => simp [hk]
  · cases hk : m.lookup k with
    | some a => simp [h]
    | none => simp [h]

@[simp] theorem lookup_mapValues (m : HashMap α) (k : String) (f : α → α) :
    (mapValues m f).lookup k = (m.lookup k).map f :=
  List.dlookup_map₂ k

theorem mem_values {m : HashMap α} {a : α} : a ∈ values m ↔ ∃ k, m.lookup k = some a := by
  constructor
  · intro h
    obtain ⟨⟨k, b⟩, hs, rfl⟩ := List.mem_map.mp h
    exact ⟨k, (AList.mem_lookup_iff (s := m)).mpr hs⟩
  · rintro ⟨k, hk⟩
    exact List.mem_map.mpr ⟨⟨k, a⟩, AList.mem_lookup_iff.mp hk, rfl⟩

end HashMap

section KeyedVec

variable {α : Type}

/-- Update the first element that satisfies `p`, or push `new` when none does. -/
def upsert (p : α → Bool) (f : α → α) (new : α) : List α → List α
  | [] => [new]
  | x :: xs => if p x then f x :: xs else x :: upsert p f new xs

/-- The first element is replaced by `new`, if there is one to put. -/
def replaceHead (new : Option α) (xs : List α) : List α :=
  match new with
  | some x => x :: xs.tail
  | none => xs

@[simp] theorem replaceHead_none (xs : List α) : replaceHead none xs = xs := rfl

@[simp] theorem replaceHead_some (x : α) (xs : List α) : replaceHead (some x) xs = x :: xs.tail :=
  rfl

theorem filter_upsert {p : α → Bool} {f : α → α} {new : α} (hnew : p new = true)
    (hf : ∀ x, p x = true → f x = new) (xs : List α) :
    (upsert p f new xs).filter p = new :: (xs.filter p).tail := by
  induction xs with
  | nil => simp [upsert, hnew]
  | cons x xs ih =>
    rw [upsert]
    split_ifs with hp
    · simp [hp, hf x hp, hnew]
    · simp [hp, ih]

theorem filter_upsert_of_disjoint {p q : α → Bool} {f : α → α} {new : α} (hnew : q new = false)
    (hq : ∀ x, p x = true → q x = false) (hf : ∀ x, p x = true → f x = new) (xs : List α) :
    (upsert p f new xs).filter q = xs.filter q := by
  induction xs with
  | nil => simp [upsert, hnew]
  | cons x xs ih =>
    rw [upsert]
    split_ifs with hp
    · simp [hf x hp, hnew, hq x hp]
    · rw [List.filter_cons, List.filter_cons, ih]

end KeyedVec

end Lib
