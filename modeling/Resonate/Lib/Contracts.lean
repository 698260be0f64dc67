import Mathlib.Logic.Function.Basic
import Resonate.Lib.Paths

/-!
# Contracts of forked programs

A program meets a contract when its commands satisfy their precondition, every child it forks
meets a contract of its own, and it ends as its contract says, as long as its answers satisfy
their postcondition. A fork is given a number of which nothing was said yet. A join tells what
the child's contract says, and joins that follow tell the same end again. The steps of a tree
keep the contracts of all its nodes.
-/

namespace Lib.ForkJoin

variable {C : Type} {A : C → Type} {O : Type}

structure Terms (C : Type) (A : C → Type) where
  Pre : C → Prop
  Post : (c : C) → A c → Prop

/-- `known` says, of each child by its number, which ends it may still have. -/
def Proc.Meets (T : Terms C A) : Proc C A O → (ℕ → O → Prop) → (O → Prop) → Prop
  | ret o, _, contract => contract o
  | call c k, known, contract => T.Pre c ∧ ∀ a, T.Post c a → (k a).Meets T known contract
  | fork child k, known, contract => ∃ promised : O → Prop,
    child.Meets T (fun _ _ => True) promised ∧
      ∀ n, (∀ o, known n o) → (k n).Meets T (Function.update known n promised) contract
  | join h k, known, contract =>
    ∀ o, known h o → (k o).Meets T (Function.update known h (· = o)) contract

theorem update_refines {known : ℕ → O → Prop} {n : ℕ} {promised : O → Prop}
    (h : ∀ o, promised o → known n o) : ∀ i o, Function.update known n promised i o → known i o := by
  intro i o ho
  by_cases hi : i = n
  · subst hi
    rw [Function.update_self] at ho
    exact h o ho
  · rwa [Function.update_of_ne hi] at ho

/-- A tree in which every node meets a contract, as far as its parent knows its children. -/
inductive Node.Meets (T : Terms C A) : Node C A O → (O → Prop) → Prop
  | mk (p : Proc C A O) (kids : List (Node C A O)) (known : ℕ → O → Prop) (contract : O → Prop)
      (promised : ℕ → O → Prop) (hp : p.Meets T known contract)
      (hkids : ∀ i n, kids[i]? = some n → Node.Meets T n (promised i))
      (hknown : ∀ i n o, kids[i]? = some n → promised i o → (∀ o', n.result = some o' → o' = o) →
        known i o) (hfresh : ∀ i o, kids.length ≤ i → known i o) : Node.Meets T (.mk p kids) contract

namespace Node.Meets

variable {T : Terms C A} {n n' : Node C A O} {contract : O → Prop} {path : List ℕ} {l : Label C A}
  {c : C} {p : Proc C A O} {o : O}

theorem start (h : p.Meets T (fun _ _ => True) contract) : (Node.mk p []).Meets T contract :=
  .mk p [] _ contract (fun _ _ => True) h (fun i n hi => by cases hi) (fun i n o hi => by cases hi)
    fun _ _ _ => trivial

theorem result (h : n.Meets T contract) (ho : n.result = some o) : contract o := by
  cases h with
  | mk p kids known _ promised hp hkids hknown hfresh =>
    cases p with
    | ret o' =>
      obtain rfl := Option.some.inj ho
      exact hp
    | _ => cases ho

theorem callsAt (h : n.Meets T contract) (hc : CallsAt path n c) : T.Pre c := by
  induction hc generalizing contract with
  | here c k kids =>
    cases h with
    | mk _ _ known _ promised hp hkids hknown hfresh => exact hp.1
  | kid p kids i path m c hi hc ih =>
    cases h with
    | mk _ _ known _ promised hp hkids hknown hfresh => exact ih (hkids i m hi)

theorem result_stepAt (hs : StepAt path n l n') (ho : n.result = some o) : n'.result = some o := by
  cases hs with
  | kid p kids i path m m' l hi hs => exact ho
  | call | fork | join => cases ho

theorem stepAt (h : n.Meets T contract) (hs : StepAt path n l n')
    (hl : ∀ e ∈ l.event, T.Post e.1 e.2) : n'.Meets T contract := by
  induction hs generalizing contract with
  | call c k kids a =>
    cases h with
    | mk _ _ known _ promised hp hkids hknown hfresh =>
      exact .mk _ _ known _ promised (hp.2 a (hl ⟨c, a⟩ (List.mem_singleton_self _))) hkids hknown
        hfresh
  | fork child k kids =>
    cases h with
    | mk _ _ known _ promised hp hkids hknown hfresh =>
      obtain ⟨fresh, hchild, hrest⟩ := hp
      refine .mk _ _ _ _ (Function.update promised kids.length fresh)
        (hrest kids.length (hfresh kids.length · (Nat.le_refl _))) (fun i n hi => ?_)
        (fun i n o hi ho hres => ?_) fun i o hi => ?_
      · by_cases hlen : i = kids.length
        · subst hlen
          rw [List.getElem?_concat_length] at hi
          rw [← Option.some.inj hi, Function.update_self]
          exact start hchild
        · rw [Function.update_of_ne hlen]
          have hlt := (List.getElem?_eq_some_iff.mp hi).1
          rw [List.length_append, List.length_singleton] at hlt
          rw [List.getElem?_append_left (by omega)] at hi
          exact hkids i n hi
      · by_cases hlen : i = kids.length
        · subst hlen
          rw [Function.update_self] at ho ⊢
          exact ho
        · rw [Function.update_of_ne hlen] at ho ⊢
          have hlt := (List.getElem?_eq_some_iff.mp hi).1
          rw [List.length_append, List.length_singleton] at hlt
          rw [List.getElem?_append_left (by omega)] at hi
          exact hknown i n o hi ho hres
      · rw [List.length_append, List.length_singleton] at hi
        rw [Function.update_of_ne (by omega)]
        exact hfresh i o (by omega)
  | join i k kids o ho =>
    cases h with
    | mk _ _ known _ promised hp hkids hknown hfresh =>
      obtain ⟨m, hm, hres⟩ := Option.bind_eq_some_iff.mp ho
      have hprom := (hkids i m hm).result hres
      have hend : known i o := hknown i m o hm hprom fun o' ho' =>
        Option.some.inj (ho'.symm.trans hres)
      refine .mk _ _ _ _ promised (hp o hend) hkids (fun j n o' hj hprom' hres' => ?_) fun j o' hj => ?_
      by_cases hij : j = i
      · subst hij
        obtain rfl := Option.some.inj (hj.symm.trans hm)
        rw [Function.update_self]
        exact (hres' o hres).symm
      · rw [Function.update_of_ne hij]
        exact hknown j n o' hj hprom' hres'
      · have hlt := (List.getElem?_eq_some_iff.mp hm).1
        rw [Function.update_of_ne (by omega)]
        exact hfresh j o' hj
  | kid p kids i path m m' l hi hs ih =>
    rw [Label.event_lower] at hl
    cases h with
    | mk _ _ known _ promised hp hkids hknown hfresh =>
      refine .mk _ _ known _ promised hp (fun j n hj => ?_) (fun j n o hj hprom hres => ?_)
        fun j o hj => hfresh j o (by rwa [List.length_set] at hj)
      · rw [List.getElem?_set] at hj
        split_ifs at hj with hij hlt
        · subst hij
          obtain rfl := Option.some.inj hj
          exact ih (hkids i m hi) hl
        · exact hkids j n hj
      · rw [List.getElem?_set] at hj
        split_ifs at hj with hij hlt
        · subst hij
          obtain rfl := Option.some.inj hj
          exact hknown i m o hi hprom fun o' ho' => hres o' (result_stepAt hs ho')
        · exact hknown j n o hj hprom hres

end Node.Meets

end Lib.ForkJoin
