import Resonate.Lib.Paths

/-!
# Ghost states of programs

A logic says, in each ghost state, which commands a program may issue and whether it may
fork, and in which ghost states it may find itself after an answer, after a fork and after a
join. A program is safe
in a ghost state when this holds all the way through. A safe program stays safe in every
ghost state that knows more, when the logic respects that order.
-/

namespace Lib.ForkJoin

structure Logic (C : Type) (A : C → Type) (O : Type) (G : Type) where
  Pre : G → C → Prop
  Post : G → (c : C) → A c → G → Prop
  Fork : G → Prop
  Child : G → G → Prop
  Forked : G → ℕ → G → Prop
  Joined : G → ℕ → O → G → Prop
  Final : G → O → Prop

variable {C : Type} {A : C → Type} {O G : Type}

def Proc.Safe (L : Logic C A O G) : Proc C A O → G → Prop
  | ret o, g => L.Final g o
  | call c k, g => L.Pre g c ∧ ∀ a g', L.Post g c a g' → (k a).Safe L g'
  | fork child k, g =>
    L.Fork g ∧ (∀ g', L.Child g g' → child.Safe L g') ∧ ∀ n g', L.Forked g n g' → (k n).Safe L g'
  | join h k, g => ∀ o g', L.Joined g h o g' → (k o).Safe L g'

/-- A ghost state that knows more allows more, and expects less. -/
structure Logic.Monotone [LE G] (L : Logic C A O G) : Prop where
  pre : ∀ {g g' : G} {c : C}, g ≤ g' → L.Pre g c → L.Pre g' c
  post : ∀ {g g' g'' : G} {c : C} {a : A c}, g ≤ g' → L.Post g' c a g'' → L.Post g c a g''
  fork : ∀ {g g' : G}, g ≤ g' → L.Fork g → L.Fork g'
  child : ∀ {g g' g'' : G}, g ≤ g' → L.Child g' g'' → L.Child g g''
  forked : ∀ {g g' g'' : G} {n : ℕ}, g ≤ g' → L.Forked g' n g'' → L.Forked g n g''
  joined : ∀ {g g' g'' : G} {h : ℕ} {o : O}, g ≤ g' → L.Joined g' h o g'' → L.Joined g h o g''
  final : ∀ {g g' : G} {o : O}, g ≤ g' → L.Final g o → L.Final g' o

namespace Proc.Safe

variable {L : Logic C A O G} {p : Proc C A O} {g g' : G}

theorem mono [LE G] (hL : L.Monotone) (h : p.Safe L g) (hg : g ≤ g') : p.Safe L g' := by
  induction p generalizing g g' with
  | ret o => exact hL.final hg h
  | call c k ih => exact ⟨hL.pre hg h.1, fun a g'' ha => h.2 a g'' (hL.post hg ha)⟩
  | fork child k ihc ih =>
    exact ⟨hL.fork hg h.1, fun g'' hc => h.2.1 g'' (hL.child hg hc),
      fun n g'' hn => h.2.2 n g'' (hL.forked hg hn)⟩
  | join i k ih => exact fun o g'' ho => h o g'' (hL.joined hg ho)

/-- The commands of a safe program are allowed in some ghost state, when no answer is
excluded. -/
theorem only {P : C → Prop} (hP : ∀ g c, L.Pre g c → P c) (hpost : ∀ g c a, ∃ g', L.Post g c a g')
    (hchild : ∀ g, ∃ g', L.Child g g') (hforked : ∀ g n, ∃ g', L.Forked g n g')
    (hjoined : ∀ g h o, ∃ g', L.Joined g h o g') (h : p.Safe L g) : p.Only P := by
  induction p generalizing g with
  | ret o => trivial
  | call c k ih =>
    refine ⟨hP g c h.1, fun a => ?_⟩
    obtain ⟨g', ha⟩ := hpost g c a
    exact ih a (h.2 a g' ha)
  | fork child k ihc ih =>
    obtain ⟨gc, hc⟩ := hchild g
    refine ⟨ihc (h.2.1 gc hc), fun n => ?_⟩
    obtain ⟨g', hn⟩ := hforked g n
    exact ih n (h.2.2 n g' hn)
  | join i k ih =>
    intro o
    obtain ⟨g', ho⟩ := hjoined g i o
    exact ih o (h o g' ho)

end Proc.Safe

end Lib.ForkJoin
