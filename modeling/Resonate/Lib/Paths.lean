import Resonate.Lib.ForkJoin

/-!
# Steps at a node of the tree

The same steps as `Step`, each with the path to the node that takes it, and the command
a node at a path waits on. A property of all commands that the programs of a tree may
still issue is kept by every step.
-/

namespace Lib.ForkJoin

variable {C : Type} {A : C → Type} {O : Type}

inductive StepAt : List ℕ → Node C A O → Label C A → Node C A O → Prop
  | call (c : C) (k : A c → Proc C A O) (kids : List (Node C A O)) (a : A c) :
      StepAt [] (.mk (.call c k) kids) (.own ⟨c, a⟩) (.mk (k a) kids)
  | fork (child : Proc C A O) (k : ℕ → Proc C A O) (kids : List (Node C A O)) :
      StepAt [] (.mk (.fork child k) kids) .silent (.mk (k kids.length) (kids ++ [.mk child []]))
  | join (h : ℕ) (k : O → Proc C A O) (kids : List (Node C A O)) (o : O)
      (hk : (kids[h]?).bind Node.result = some o) :
      StepAt [] (.mk (.join h k) kids) .silent (.mk (k o) kids)
  | kid (p : Proc C A O) (kids : List (Node C A O)) (i : ℕ) (path : List ℕ) (n n' : Node C A O)
      (l : Label C A) (hi : kids[i]? = some n) (hs : StepAt path n l n') :
      StepAt (i :: path) (.mk p kids) l.lower (.mk p (kids.set i n'))

/-- The node at the path is about to issue the command. -/
inductive CallsAt : List ℕ → Node C A O → C → Prop
  | here (c : C) (k : A c → Proc C A O) (kids : List (Node C A O)) :
      CallsAt [] (.mk (.call c k) kids) c
  | kid (p : Proc C A O) (kids : List (Node C A O)) (i : ℕ) (path : List ℕ) (n : Node C A O)
      (c : C) (hi : kids[i]? = some n) (h : CallsAt path n c) : CallsAt (i :: path) (.mk p kids) c

theorem StepAt.step {path : List ℕ} {n n' : Node C A O} {l : Label C A} (h : StepAt path n l n') :
    Step n l n' := by
  induction h with
  | call c k kids a => exact .call c k kids a
  | fork child k kids => exact .fork child k kids
  | join h k kids o hk => exact .join h k kids o hk
  | kid p kids i path n n' l hi hs ih => exact .kid p kids i n n' l hi ih

theorem StepAt.callsAt {path : List ℕ} {n n' : Node C A O} {l : Label C A} {e : Event C A}
    (h : StepAt path n l n') (he : e ∈ l.event) : CallsAt path n e.1 := by
  induction h with
  | call c k kids a =>
    obtain rfl := List.mem_singleton.mp he
    exact .here c k kids
  | fork child k kids => cases he
  | join h k kids o hk => cases he
  | kid p kids i path n n' l hi hs ih =>
    rw [Label.event_lower] at he
    exact .kid p kids i path n e.1 hi (ih he)

theorem CallsAt.root_or_kid {path : List ℕ} {p : Proc C A O} {kids : List (Node C A O)} {c : C}
    (h : CallsAt path (.mk p kids) c) : (path = [] ∧ ∃ k, p = .call c k) ∨
      ∃ i rest n, path = i :: rest ∧ kids[i]? = some n ∧ CallsAt rest n c := by
  cases h with
  | here c k kids => exact Or.inl ⟨rfl, k, rfl⟩
  | kid p kids i path n c hi h => exact Or.inr ⟨i, path, n, rfl, hi, h⟩

theorem CallsAt.of_leaf {path : List ℕ} {c c' : C} {k : A c → Proc C A O}
    (h : CallsAt path (.mk (.call c k) []) c') : path = [] ∧ c' = c := by
  cases h with
  | here => exact ⟨rfl, rfl⟩
  | kid p kids i path n c' hi h => cases hi

theorem StepAt.of_call {path : List ℕ} {c : C} {k : A c → Proc C A O} {kids : List (Node C A O)}
    {l : Label C A} {n : Node C A O} (h : StepAt path (.mk (.call c k) kids) l n) :
    (path = [] ∧ ∃ a, l = .own ⟨c, a⟩ ∧ n = .mk (k a) kids) ∨
      path ≠ [] ∧ ∃ kids', n = .mk (.call c k) kids' ∧ kids'.length = kids.length := by
  cases h with
  | call c k kids a => exact Or.inl ⟨rfl, a, rfl, rfl⟩
  | kid p kids i path n n' l hi hs => exact Or.inr ⟨by simp, _, rfl, by simp⟩

theorem StepAt.of_leaf {path : List ℕ} {c : C} {k : A c → Proc C A O} {l : Label C A}
    {n : Node C A O} (h : StepAt path (.mk (.call c k) []) l n) :
    path = [] ∧ ∃ a, l = .own ⟨c, a⟩ ∧ n = .mk (k a) [] := by
  cases h with
  | call c k kids a => exact ⟨rfl, a, rfl, rfl⟩
  | kid p kids i path n n' l hi hs => cases hi

theorem CallsAt.unique {path : List ℕ} {n : Node C A O} {c c' : C} (h : CallsAt path n c)
    (h' : CallsAt path n c') : c = c' := by
  induction h with
  | here c k kids =>
    cases h' with
    | here => rfl
  | kid p kids i path m c hi h ih =>
    cases h' with
    | kid _ _ _ _ m' _ hi' h' =>
      obtain rfl := Option.some.inj (hi.symm.trans hi')
      exact ih h'

theorem CallsAt.event {path : List ℕ} {n n' : Node C A O} {c : C} {l : Label C A}
    (h : CallsAt path n c) (hs : StepAt path n l n') : ∃ a : A c, l.event = [⟨c, a⟩] := by
  induction hs with
  | call c' k kids a =>
    obtain rfl := h.unique (.here c' k kids)
    exact ⟨a, rfl⟩
  | fork child k kids => cases h
  | join i k kids o ho => cases h
  | kid p kids i path m m' l hi hs ih =>
    cases h with
    | kid _ _ _ _ m₁ _ hi' h =>
      obtain rfl := Option.some.inj (hi.symm.trans hi')
      rw [Label.event_lower]
      exact ih h

/-- A node that waits on a command goes on waiting while others step. -/
theorem CallsAt.elsewhere {path path' : List ℕ} {n n' : Node C A O} {c : C} {l : Label C A}
    (h : CallsAt path n c) (hs : StepAt path' n l n') (hne : path ≠ path') : CallsAt path n' c := by
  induction hs generalizing path with
  | call c' k kids a =>
    rcases h.root_or_kid with ⟨rfl, -⟩ | ⟨i, rest, m, rfl, hi, h⟩
    · exact absurd rfl hne
    · exact .kid _ _ i rest m c hi h
  | fork child k kids =>
    rcases h.root_or_kid with ⟨rfl, -⟩ | ⟨i, rest, m, rfl, hi, h⟩
    · exact absurd rfl hne
    · refine .kid _ _ i rest m c ?_ h
      rwa [List.getElem?_append_left (List.getElem?_eq_some_iff.mp hi).1]
  | join i k kids o ho =>
    rcases h.root_or_kid with ⟨rfl, -⟩ | ⟨j, rest, m, rfl, hj, h⟩
    · exact absurd rfl hne
    · exact .kid _ _ j rest m c hj h
  | kid p kids i path' m m' l hi hs ih =>
    rcases h.root_or_kid with ⟨rfl, k, rfl⟩ | ⟨j, rest, m₁, rfl, hj, h⟩
    · cases h with
      | here => exact .here _ _ _
    · by_cases hij : j = i
      · subst hij
        obtain rfl := Option.some.inj (hi.symm.trans hj)
        refine .kid _ _ j rest m' c ?_ (ih h fun heq => hne (by rw [heq]))
        rw [List.getElem?_set_self (List.getElem?_eq_some_iff.mp hi).1]
      · refine .kid _ _ j rest m₁ c ?_ h
        rwa [List.getElem?_set_ne (Ne.symm hij)]

def Proc.Only (P : C → Prop) : Proc C A O → Prop
  | ret _ => True
  | call c k => P c ∧ ∀ a, (k a).Only P
  | fork child k => child.Only P ∧ ∀ n, (k n).Only P
  | join _ k => ∀ o, (k o).Only P

inductive Node.Only (P : C → Prop) : Node C A O → Prop
  | mk (p : Proc C A O) (kids : List (Node C A O)) (hp : p.Only P)
      (hk : ∀ n, n ∈ kids → Node.Only P n) : Node.Only P (.mk p kids)

namespace Node.Only

variable {P : C → Prop} {path : List ℕ} {n n' : Node C A O} {l : Label C A} {c : C}

theorem start {p : Proc C A O} (h : p.Only P) : Node.Only P (.mk p []) :=
  .mk p [] h fun _ hn => by cases hn

theorem stepAt (h : n.Only P) (hs : StepAt path n l n') : n'.Only P := by
  induction hs with
  | call c k kids a =>
    cases h with
    | mk _ _ hp hk => exact .mk _ _ (hp.2 a) hk
  | fork child k kids =>
    cases h with
    | mk _ _ hp hk =>
      refine .mk _ _ (hp.2 _) fun n hn => ?_
      rcases List.mem_append.mp hn with hn | hn
      · exact hk n hn
      · rw [List.mem_singleton.mp hn]
        exact start hp.1
  | join i k kids o ho =>
    cases h with
    | mk _ _ hp hk => exact .mk _ _ (hp o) hk
  | kid p kids i path m m' l hi hs ih =>
    cases h with
    | mk _ _ hp hk =>
      refine .mk _ _ hp fun n hn => ?_
      rcases List.mem_or_eq_of_mem_set hn with hn | rfl
      · exact hk n hn
      · exact ih (hk m (List.mem_of_getElem? hi))

theorem callsAt (h : n.Only P) (hc : CallsAt path n c) : P c := by
  induction hc with
  | here c k kids =>
    cases h with
    | mk _ _ hp hk => exact hp.1
  | kid p kids i path m c hi hc ih =>
    cases h with
    | mk _ _ hp hk => exact ih (hk m (List.mem_of_getElem? hi))

end Node.Only

end Lib.ForkJoin
