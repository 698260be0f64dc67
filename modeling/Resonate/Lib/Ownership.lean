import Resonate.Lib.Paths
import Mathlib.Data.Set.Lattice

/-!
# Programs that own their keys

Some commands use a key, in some mode, and their answers leave it in another mode or use it
up. A program owns a set of keys in their modes when every key it uses is in the set, and a
child that it forks is given keys of its own. In a run of such a program, whatever the
interleaving, no key is used by two tasks at once, and a key is used at most once in a mode
that no answer leaves it in.
-/

namespace Lib.ForkJoin

variable {C : Type} {A : C → Type} {O : Type} {K M : Type}

/-- The key that a command needs, in a mode, and the mode that its answer leaves the key in. -/
structure Usage (C : Type) (A : C → Type) (K M : Type) where
  needs : C → Option (K × M)
  leaves : (c : C) → A c → Option M

def Apart (S T : Set (K × M)) : Prop := ∀ x m m', (x, m) ∈ S → (x, m') ∉ T

namespace Apart

variable {S S' T T' : Set (K × M)}

theorem symm (h : Apart S T) : Apart T S := fun x m m' hT hS => h x m' m hS hT

theorem mono (h : Apart S T) (hS : S' ⊆ S) (hT : T' ⊆ T) : Apart S' T' :=
  fun x m m' hx hx' => h x m m' (hS hx) (hT hx')

theorem empty (S : Set (K × M)) : Apart S ∅ := fun _ _ _ _ h => h

theorem union (h : Apart S T) (h' : Apart S T') : Apart S (T ∪ T') :=
  fun x m m' hx => fun hx' => hx'.elim (h x m m' hx) (h' x m m' hx)

end Apart

def without (S T : Set (K × M)) : Set (K × M) := {t | t ∈ S ∧ ∀ m, (t.1, m) ∉ T}

theorem without_subset {S T : Set (K × M)} : without S T ⊆ S := fun _ h => h.1

theorem without_mono {S S' T : Set (K × M)} (h : S ⊆ S') : without S T ⊆ without S' T :=
  fun _ ht => ⟨h ht.1, ht.2⟩

theorem apart_without {S T : Set (K × M)} : Apart T (without S T) :=
  fun _ m _ hT h => h.2 m hT

namespace Usage

variable (u : Usage C A K M) {S T : Set (K × M)} {c : C} {x : K} {m : M}

def after (S : Set (K × M)) (e : Event C A) : Set (K × M) :=
  {t | (t ∈ S ∧ ∀ m, u.needs e.1 ≠ some (t.1, m)) ∨
    ∃ m, u.needs e.1 = some (t.1, m) ∧ u.leaves e.1 e.2 = some t.2}

variable {u}

theorem after_of_none (h : u.needs c = none) (a : A c) : u.after S ⟨c, a⟩ = S := by
  simp [after, h]

theorem mem_after (h : u.needs c = some (x, m)) (a : A c) {t : K × M} :
    t ∈ u.after S ⟨c, a⟩ ↔ (t ∈ S ∧ t.1 ≠ x) ∨ (t.1 = x ∧ u.leaves c a = some t.2) := by
  simp only [after, Set.mem_ofPred_eq, h]
  constructor
  · rintro (⟨ht, hne⟩ | ⟨m', heq, hl⟩)
    · exact Or.inl ⟨ht, fun hx => hne m (by rw [hx])⟩
    · obtain ⟨rfl, -⟩ := Prod.mk.inj (Option.some.inj heq)
      exact Or.inr ⟨rfl, hl⟩
  · rintro (⟨ht, hne⟩ | ⟨rfl, hl⟩)
    · refine Or.inl ⟨ht, fun m' heq => hne ?_⟩
      exact (Prod.mk.inj (Option.some.inj heq)).1.symm
    · exact Or.inr ⟨m, rfl, hl⟩

theorem after_mono (h : S ⊆ T) (e : Event C A) : u.after S e ⊆ u.after T e :=
  fun _ ht => ht.imp_left fun h' => ⟨h h'.1, h'.2⟩

theorem key_after {e : Event C A} (hu : ∀ t, u.needs e.1 = some t → t ∈ S) {t : K × M}
    (h : t ∈ u.after S e) : ∃ m, (t.1, m) ∈ S := by
  rcases h with ⟨h, -⟩ | ⟨m, hm, -⟩
  · exact ⟨t.2, h⟩
  · exact ⟨m, hu _ hm⟩

end Usage

/-- The program owns the keys `S`, and its commands satisfy `P`. -/
def Proc.Owns (P : C → Prop) (u : Usage C A K M) : Proc C A O → Set (K × M) → Prop
  | ret _, _ => True
  | call c k, S => P c ∧ (∀ t, u.needs c = some t → t ∈ S) ∧
      ∀ a, (k a).Owns P u (u.after S ⟨c, a⟩)
  | fork child k, S => ∃ T ⊆ S, child.Owns P u T ∧ ∀ n, (k n).Owns P u (without S T)
  | join _ k, S => ∀ o, (k o).Owns P u S

namespace Proc.Owns

variable {P : C → Prop} {u : Usage C A K M} {p : Proc C A O} {S T : Set (K × M)}

theorem mono (h : p.Owns P u S) (hST : S ⊆ T) : p.Owns P u T := by
  induction p generalizing S T with
  | ret o => trivial
  | call c k ih =>
    exact ⟨h.1, fun x hx => hST (h.2.1 x hx), fun a => ih a (h.2.2 a) (Usage.after_mono hST _)⟩
  | fork child k ihc ih =>
    obtain ⟨R, hR, hchild, hk⟩ := h
    exact ⟨R, hR.trans hST, hchild, fun n => ih n (hk n) (without_mono hST)⟩
  | join i k ih => exact fun o => ih o (h o) hST

theorem call_none {c : C} {k : A c → Proc C A O} (hP : P c) (hc : u.needs c = none)
    (hk : ∀ a, (k a).Owns P u S) : (Proc.call c k).Owns P u S := by
  refine ⟨hP, fun t ht => ?_, fun a => ?_⟩
  · rw [hc] at ht
    cases ht
  · rw [Usage.after_of_none hc]
    exact hk a

theorem only_iff (hu : ∀ c, u.needs c = none) : p.Owns P u S ↔ p.Only P := by
  induction p generalizing S with
  | ret o => rfl
  | call c k ih =>
    exact ⟨fun h => ⟨h.1, fun a => (ih a).mp (h.2.2 a)⟩,
      fun h => call_none h.1 (hu c) fun a => (ih a).mpr (h.2 a)⟩
  | fork child k ihc ih =>
    constructor
    · rintro ⟨T, -, hchild, hk⟩
      exact ⟨ihc.mp hchild, fun n => (ih n).mp (hk n)⟩
    · exact fun h => ⟨∅, Set.empty_subset S, ihc.mpr h.1, fun n => (ih n).mpr (h.2 n)⟩
  | join i k ih => exact forall_congr' fun o => ih o

end Proc.Owns

/-- A division of the keys `S`, between the program (`none`) and its children. -/
structure Shares (S : Set (K × M)) (share : Option ℕ → Set (K × M)) : Prop where
  subset : ∀ i, share i ⊆ S
  apart : ∀ i j, i ≠ j → Apart (share i) (share j)

namespace Shares

variable {S T : Set (K × M)} {share : Option ℕ → Set (K × M)} {i : Option ℕ}

theorem move (h : Shares S share) {S' : Set (K × M)} (hT : T ⊆ S')
    (hkey : ∀ t ∈ T, ∃ m, (t.1, m) ∈ share i) (hrest : ∀ j, j ≠ i → share j ⊆ S') :
    Shares S' (Function.update share i T) := by
  have hkeep : ∀ j, j ≠ i → Apart T (share j) := by
    intro j hj x m m' hx
    obtain ⟨m₀, hm₀⟩ := hkey _ hx
    exact h.apart i j hj.symm x m₀ m' hm₀
  refine ⟨fun j => ?_, fun a b hab => ?_⟩
  · by_cases hj : j = i
    · subst hj
      rwa [Function.update_self]
    · rw [Function.update_of_ne hj]
      exact hrest j hj
  · by_cases ha : a = i
    · subst ha
      rw [Function.update_self, Function.update_of_ne hab.symm]
      exact hkeep b hab.symm
    · rw [Function.update_of_ne ha]
      by_cases hb : b = i
      · subst hb
        rw [Function.update_self]
        exact (hkeep a ha).symm
      · rw [Function.update_of_ne hb]
        exact h.apart a b hab

theorem answer {u : Usage C A K M} {e : Event C A} (h : Shares S share)
    (hu : ∀ t, u.needs e.1 = some t → t ∈ share i) :
    Shares (u.after S e) (Function.update share i (u.after (share i) e)) := by
  refine h.move (Usage.after_mono (h.subset i) e) (fun t ht => Usage.key_after hu ht) ?_
  intro j hj t ht
  refine Or.inl ⟨h.subset j ht, fun m hm => ?_⟩
  exact h.apart i j hj.symm t.1 m t.2 (hu _ hm) ht

theorem hand (h : Shares S share) (hT : T ⊆ share none) (m : ℕ) :
    Shares S (Function.update (Function.update share none (without (share none) T)) (some m) T) := by
  have hrest : Shares S (Function.update share none (without (share none) T)) :=
    h.move (without_subset.trans (h.subset none)) (fun t ht => ⟨t.2, ht.1⟩)
      fun j hj => h.subset j
  have hkeep : ∀ j, j ≠ some m →
      Apart T (Function.update share none (without (share none) T) j) := by
    intro j hj
    by_cases hn : j = none
    · subst hn
      rw [Function.update_self]
      exact apart_without
    · rw [Function.update_of_ne hn]
      exact (h.apart none j (Ne.symm hn)).mono hT (fun _ ht => ht)
  refine ⟨fun j => ?_, fun a b hab => ?_⟩
  · by_cases hj : j = some m
    · subst hj
      rw [Function.update_self]
      exact hT.trans (h.subset none)
    · rw [Function.update_of_ne hj]
      exact hrest.subset j
  · by_cases ha : a = some m
    · subst ha
      rw [Function.update_self, Function.update_of_ne hab.symm]
      exact hkeep b hab.symm
    · rw [Function.update_of_ne ha]
      by_cases hb : b = some m
      · subst hb
        rw [Function.update_self]
        exact (hkeep a ha).symm
      · rw [Function.update_of_ne hb]
        exact hrest.apart a b hab

end Shares

inductive Node.Owns (P : C → Prop) (u : Usage C A K M) : Node C A O → Set (K × M) → Prop
  | mk (p : Proc C A O) (kids : List (Node C A O)) (S : Set (K × M))
      (share : Option ℕ → Set (K × M)) (hshare : Shares S share) (hp : p.Owns P u (share none))
      (hk : ∀ i n, kids[i]? = some n → Node.Owns P u n (share (some i))) :
      Node.Owns P u (.mk p kids) S

def Usage.afterAll (u : Usage C A K M) (S : Set (K × M)) (es : List (Event C A)) : Set (K × M) :=
  es.foldl u.after S

namespace Node.Owns

variable {P : C → Prop} {u : Usage C A K M} {n n' : Node C A O} {S : Set (K × M)} {l : Label C A}
  {path path' : List ℕ} {c : C}

theorem start {p : Proc C A O} (h : p.Owns P u S) : Node.Owns P u (.mk p []) S := by
  refine .mk p [] S (Function.update (fun _ => ∅) none S) ⟨fun i => ?_, fun i j hij => ?_⟩ ?_ ?_
  · cases i <;> simp
  · by_cases hj : j = none
    · subst hj
      rw [Function.update_of_ne hij]
      exact (Apart.empty _).symm
    · rw [Function.update_of_ne hj]
      exact Apart.empty _
  · simpa using h
  · intro i n hn
    cases hn

theorem callsAt (h : n.Owns P u S) (hc : CallsAt path n c) :
    P c ∧ ∀ t, u.needs c = some t → t ∈ S := by
  induction hc generalizing S with
  | here c k kids =>
    cases h with
    | mk _ _ _ share hshare hp hk =>
      exact ⟨hp.1, fun t ht => hshare.subset none (hp.2.1 t ht)⟩
  | kid p kids i path m c hi hc ih =>
    cases h with
    | mk _ _ _ share hshare hp hk =>
      obtain ⟨hP, hu⟩ := ih (hk i m hi)
      exact ⟨hP, fun t ht => hshare.subset _ (hu t ht)⟩

/-- No key is about to be used by two tasks. -/
theorem callsAt_inj {c' : C} {x : K} {m m' : M} (h : n.Owns P u S) (hc : CallsAt path n c)
    (hc' : CallsAt path' n c') (hx : u.needs c = some (x, m)) (hx' : u.needs c' = some (x, m')) :
    path = path' := by
  induction hc generalizing S path' with
  | here c k kids =>
    cases h with
    | mk _ _ _ share hshare hp hk =>
      rcases hc'.root_or_kid with ⟨rfl, -⟩ | ⟨i, rest, n, rfl, hi, hc'⟩
      · rfl
      · exact absurd (((hk i n hi).callsAt hc').2 _ hx')
          (hshare.apart none (some i) (by simp) x m m' (hp.2.1 _ hx))
  | kid p kids i path n c hi hc ih =>
    cases h with
    | mk _ _ _ share hshare hp hk =>
      have hmem := ((hk i n hi).callsAt hc).2 _ hx
      rcases hc'.root_or_kid with ⟨rfl, k, rfl⟩ | ⟨j, rest, n', rfl, hj, hc'⟩
      · cases hc' with
        | here =>
          exact absurd hmem (hshare.apart none (some i) (by simp) x m' m (hp.2.1 _ hx'))
      · by_cases hij : i = j
        · subst hij
          obtain rfl := Option.some.inj (hi.symm.trans hj)
          rw [ih (hk i n hi) hc' hx]
        · exact absurd (((hk j n' hj).callsAt hc').2 _ hx')
            (hshare.apart (some i) (some j) (by simpa using hij) x m m' hmem)

theorem step (h : n.Owns P u S) (hs : Step n l n') :
    (∀ e ∈ l.event, P e.1 ∧ ∀ t, u.needs e.1 = some t → t ∈ S) ∧
      n'.Owns P u (u.afterAll S l.event) := by
  induction hs generalizing S with
  | call c k kids a =>
    cases h with
    | mk _ _ _ share hshare hp hk =>
      refine ⟨fun e he => ?_, .mk _ _ _ _ (hshare.answer (i := none) (e := ⟨c, a⟩) hp.2.1) ?_ ?_⟩
      · rw [List.mem_singleton.mp he]
        exact ⟨hp.1, fun t ht => hshare.subset none (hp.2.1 t ht)⟩
      · rw [Function.update_self]
        exact hp.2.2 a
      · intro i n hn
        rw [Function.update_of_ne (by simp)]
        exact hk i n hn
  | fork child k kids =>
    cases h with
    | mk _ _ _ share hshare hp hk =>
      obtain ⟨T, hT, hchild, hrest⟩ := hp
      refine ⟨fun e he => (by cases he), .mk _ _ _ _ (hshare.hand hT kids.length) ?_ ?_⟩
      · rw [Function.update_of_ne (by simp), Function.update_self]
        exact hrest kids.length
      · intro i n hn
        by_cases hi : i < kids.length
        · rw [List.getElem?_append_left hi] at hn
          rw [Function.update_of_ne (by simp; omega), Function.update_of_ne (by simp)]
          exact hk i n hn
        · rw [List.getElem?_append_right (by omega)] at hn
          obtain ⟨hlt, rfl⟩ := List.getElem?_eq_some_iff.mp hn
          have hlast : i = kids.length := by
            simp only [List.length_singleton] at hlt
            omega
          subst hlast
          rw [Function.update_self]
          simpa using start hchild
  | join i k kids o ho =>
    cases h with
    | mk _ _ _ share hshare hp hk =>
      exact ⟨fun e he => (by cases he), .mk _ _ _ share hshare (hp o) hk⟩
  | kid p kids i m m' l hi hs ih =>
    cases h with
    | mk _ _ _ share hshare hp hk =>
      obtain ⟨hP, hm'⟩ := ih (hk i m hi)
      rw [Label.event_lower]
      refine ⟨fun e he => ⟨(hP e he).1, fun t ht => hshare.subset _ ((hP e he).2 t ht)⟩, ?_⟩
      have hmoved : Shares (u.afterAll S l.event)
          (Function.update share (some i) (u.afterAll (share (some i)) l.event)) := by
        cases l with
        | silent =>
          rw [Label.event, Usage.afterAll, Usage.afterAll, List.foldl_nil, List.foldl_nil,
            Function.update_eq_self]
          exact hshare
        | own e | below e => exact hshare.answer (hP e (List.mem_singleton_self e)).2
      refine .mk _ _ _ _ hmoved ?_ fun j n hn => ?_
      · rw [Function.update_of_ne (by simp)]
        exact hp
      · by_cases hj : j = i
        · subst hj
          obtain ⟨hlt, hn⟩ := List.getElem?_eq_some_iff.mp hn
          rw [List.getElem_set_self] at hn
          rw [Function.update_self, ← hn]
          exact hm'
        · rw [List.getElem?_set_ne (Ne.symm hj)] at hn
          rw [Function.update_of_ne (by simpa using hj)]
          exact hk j n hn

/-- In a run the commands satisfy `P`, and no key is used twice in a mode that no answer leaves
it in. -/
theorem steps {ls : List (Label C A)} (h : n.Owns P u S) (hs : Steps n ls n') :
    (∀ e ∈ ls.flatMap Label.event, P e.1) ∧
      ∀ (key : C → Option K) (m : M), (∀ c x, key c = some x → u.needs c = some (x, m)) →
        (∀ c a, u.leaves c a ≠ some m) →
        (∀ e ∈ ls.flatMap Label.event, ∀ x, key e.1 = some x → (x, m) ∈ S) ∧
          ((ls.flatMap Label.event).filterMap fun e => key e.1).Nodup := by
  induction hs generalizing S with
  | nil n => simp
  | @cons n n' n'' l ls hl hs ih =>
    obtain ⟨hP, hn'⟩ := h.step hl
    obtain ⟨hP', hrest⟩ := ih hn'
    rw [List.flatMap_cons]
    refine ⟨fun e he => ?_, fun key m hkey hleft => ?_⟩
    · exact (List.mem_append.mp he).elim (fun he => (hP e he).1) (hP' e)
    · obtain ⟨hsub, hnodup⟩ := hrest key m hkey hleft
      -- what is used later was owned before, under another key
      have hlater : ∀ e ∈ ls.flatMap Label.event, ∀ x, key e.1 = some x →
          (x, m) ∈ S ∧ ∀ e' ∈ l.event, key e'.1 ≠ some x := by
        intro e he x hx
        have hmem := hsub e he x hx
        cases l with
        | silent => exact ⟨hmem, fun e' he' => by cases he'⟩
        | own f | below f =>
          rcases hmem with ⟨hS, hne⟩ | ⟨m', -, hl⟩
          · refine ⟨hS, fun e' he' hx' => ?_⟩
            obtain rfl := List.mem_singleton.mp he'
            exact hne m (hkey _ _ hx')
          · exact absurd hl (hleft _ _)
      refine ⟨fun e he x hx => ?_, ?_⟩
      · rcases List.mem_append.mp he with he | he
        · exact (hP e he).2 _ (hkey _ _ hx)
        · exact (hlater e he x hx).1
      · rw [List.filterMap_append, List.nodup_append]
        refine ⟨?_, hnodup, fun x hx y hy hxy => ?_⟩
        · cases l with
          | silent => simp [Label.event]
          | own e | below e => cases hk : key e.1 <;> simp [Label.event, hk]
        · subst hxy
          obtain ⟨e, he, hx⟩ := List.mem_filterMap.mp hx
          obtain ⟨e', he', hx'⟩ := List.mem_filterMap.mp hy
          exact (hlater e' he' x hx').2 e he hx

end Node.Owns

end Lib.ForkJoin
