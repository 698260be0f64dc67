import Mathlib.Data.List.Perm.Basic

/-!
# Fork-join programs

A program issues commands, forks children and joins them. A tree of such
programs runs by interleaving: any node may take the next step. `Behav` runs a
program depth first instead, each child at its fork, possibly cut short.
`Steps.behav` is the adequacy theorem: whatever the interleaving, the trace is a
permutation of a depth-first behaviour, and the root's own commands come in the
root's order. Properties that do not depend on the order between siblings are
proved on behaviours, by induction on the program.
-/

namespace Lib.ForkJoin

inductive Proc (C : Type) (A : C → Type) (O : Type) where
  | ret (o : O)
  | call (c : C) (k : A c → Proc C A O)
  | fork (child : Proc C A O) (k : ℕ → Proc C A O)
  | join (h : ℕ) (k : O → Proc C A O)

abbrev Event (C : Type) (A : C → Type) : Type := (c : C) × A c

/-- A running program and the children it has forked, each under its fork number. -/
inductive Node (C : Type) (A : C → Type) (O : Type) where
  | mk (prog : Proc C A O) (kids : List (Node C A O))

variable {C : Type} {A : C → Type} {O : Type}

def Node.prog : Node C A O → Proc C A O
  | mk p _ => p

def Proc.result : Proc C A O → Option O
  | ret o => some o
  | _ => none

def Node.result (n : Node C A O) : Option O := n.prog.result

/-- The root's own event, or an event of a descendant. -/
inductive Label (C : Type) (A : C → Type) where
  | own (e : Event C A)
  | below (e : Event C A)
  | silent

namespace Label

def event : Label C A → List (Event C A)
  | own e | below e => [e]
  | silent => []

def root : Label C A → List (Event C A)
  | own e => [e]
  | _ => []

def lower : Label C A → Label C A
  | own e | below e => below e
  | silent => silent

@[simp] theorem event_lower (l : Label C A) : l.lower.event = l.event := by
  cases l <;> rfl

@[simp] theorem root_lower (l : Label C A) : l.lower.root = [] := by
  cases l <;> rfl

end Label

inductive Step : Node C A O → Label C A → Node C A O → Prop
  | call (c : C) (k : A c → Proc C A O) (kids : List (Node C A O)) (a : A c) :
      Step (.mk (.call c k) kids) (.own ⟨c, a⟩) (.mk (k a) kids)
  | fork (child : Proc C A O) (k : ℕ → Proc C A O) (kids : List (Node C A O)) :
      Step (.mk (.fork child k) kids) .silent (.mk (k kids.length) (kids ++ [.mk child []]))
  | join (h : ℕ) (k : O → Proc C A O) (kids : List (Node C A O)) (o : O)
      (hk : (kids[h]?).bind Node.result = some o) :
      Step (.mk (.join h k) kids) .silent (.mk (k o) kids)
  | kid (p : Proc C A O) (kids : List (Node C A O)) (i : ℕ) (n n' : Node C A O) (l : Label C A)
      (hi : kids[i]? = some n) (hs : Step n l n') :
      Step (.mk p kids) l.lower (.mk p (kids.set i n'))

inductive Steps : Node C A O → List (Label C A) → Node C A O → Prop
  | nil (n : Node C A O) : Steps n [] n
  | cons {n n' n'' : Node C A O} {l : Label C A} {ls : List (Label C A)} (h : Step n l n')
      (hs : Steps n' ls n'') : Steps n (l :: ls) n''

/-- What a child contributes: the events below its fork and, if it finished, its result. -/
structure Kid (C : Type) (A : C → Type) (O : Type) where
  trace : List (Event C A)
  result : Option O

def traces (ks : List (Kid C A O)) : List (Event C A) := ks.flatMap Kid.trace

@[simp] theorem traces_nil : traces ([] : List (Kid C A O)) = [] := rfl

@[simp] theorem traces_append (ks ks' : List (Kid C A O)) :
    traces (ks ++ ks') = traces ks ++ traces ks' := List.flatMap_append

@[simp] theorem traces_cons (k : Kid C A O) (ks : List (Kid C A O)) :
    traces (k :: ks) = k.trace ++ traces ks := List.flatMap_cons

/-- A depth-first run: from the children forked so far, the program's own events,
the children it adds, and its result unless it is cut short. -/
inductive Behav : List (Kid C A O) → Proc C A O → List (Event C A) → List (Kid C A O) →
    Option O → Prop
  | ret (ks : List (Kid C A O)) (o : O) : Behav ks (.ret o) [] [] (some o)
  | cut (ks : List (Kid C A O)) (p : Proc C A O) (hp : p.result = none) : Behav ks p [] [] none
  | call {ks ext : List (Kid C A O)} {c : C} {k : A c → Proc C A O} {own : List (Event C A)}
      {r : Option O} (a : A c) (h : Behav ks (k a) own ext r) :
      Behav ks (.call c k) (⟨c, a⟩ :: own) ext r
  | fork {ks ext kc : List (Kid C A O)} {child : Proc C A O} {k : ℕ → Proc C A O}
      {own ownc : List (Event C A)} {r rc : Option O} (hc : Behav [] child ownc kc rc)
      (h : Behav (ks ++ [⟨ownc ++ traces kc, rc⟩]) (k ks.length) own ext r) :
      Behav ks (.fork child k) own (⟨ownc ++ traces kc, rc⟩ :: ext) r
  | join {ks ext : List (Kid C A O)} {i : ℕ} {k : O → Proc C A O} {own : List (Event C A)}
      {r : Option O} (o : O) (hk : (ks[i]?).bind Kid.result = some o)
      (h : Behav ks (k o) own ext r) : Behav ks (.join i k) own ext r

namespace Behav

variable {ks js ext : List (Kid C A O)} {own : List (Event C A)} {r : Option O}
  {p : Proc C A O}

theorem ret_iff {o : O} : Behav ks (.ret o) own ext r ↔ own = [] ∧ ext = [] ∧ r = some o := by
  constructor
  · intro h
    cases h with
    | ret => exact ⟨rfl, rfl, rfl⟩
    | cut _ _ hp => cases hp
  · rintro ⟨rfl, rfl, rfl⟩
    exact .ret _ _

/-- Only the results of the earlier children matter. -/
theorem retrace (h : Behav ks p own ext r) (hr : js.map Kid.result = ks.map Kid.result) :
    Behav js p own ext r := by
  induction h generalizing js with
  | ret ks o => exact .ret _ _
  | cut ks p hp => exact .cut _ _ hp
  | call a h ih => exact .call a (ih hr)
  | @fork ks ext kc child k own ownc r rc hc h ihc ih =>
    have hlen : js.length = ks.length := by simpa using congrArg List.length hr
    refine .fork hc ?_
    rw [hlen]
    exact ih (by simp [hr])
  | @join ks ext i k own r o hk h ih =>
    refine .join o ?_ (ih hr)
    have hi := congrArg (fun l => l[i]?) hr
    simp only [List.getElem?_map] at hi
    cases hj : js[i]? <;> cases hk' : ks[i]? <;> simp_all

end Behav

section Adequacy

mutual

inductive NodeBehav : Node C A O → List (Event C A) → List (Kid C A O) → Option O → Prop
  | mk {p : Proc C A O} {kids : List (Node C A O)} {ks ext : List (Kid C A O)}
      {own : List (Event C A)} {r : Option O} (hk : KidsBehav kids ks)
      (h : Behav ks p own ext r) : NodeBehav (.mk p kids) own (ks ++ ext) r

inductive KidsBehav : List (Node C A O) → List (Kid C A O) → Prop
  | nil : KidsBehav [] []
  | cons {n : Node C A O} {ns : List (Node C A O)} {own : List (Event C A)}
      {ks ks' : List (Kid C A O)} {r : Option O} (hn : NodeBehav n own ks' r)
      (h : KidsBehav ns ks) : KidsBehav (n :: ns) (⟨own ++ traces ks', r⟩ :: ks)

end

mutual

theorem NodeBehav.idle : ∀ n : Node C A O, ∃ ks, NodeBehav n [] ks n.result ∧ traces ks = []
  | .mk p kids => by
    obtain ⟨ks, hk, ht⟩ := KidsBehav.idle kids
    refine ⟨ks ++ [], .mk hk ?_, by simpa using ht⟩
    cases hp : p.result with
    | none =>
      rw [Node.result, Node.prog, hp]
      exact .cut ks p hp
    | some o =>
      cases p <;> cases hp
      exact .ret ks o

theorem KidsBehav.idle : ∀ ns : List (Node C A O), ∃ ks, KidsBehav ns ks ∧ traces ks = []
  | [] => ⟨[], .nil, rfl⟩
  | n :: ns => by
    obtain ⟨kn, hn, htn⟩ := NodeBehav.idle n
    obtain ⟨ks, hk, ht⟩ := KidsBehav.idle ns
    exact ⟨_, .cons hn hk, by simp [htn, ht]⟩

end

variable {ns : List (Node C A O)} {n n' : Node C A O} {ks : List (Kid C A O)}

theorem KidsBehav.length (h : KidsBehav ns ks) : ks.length = ns.length := by
  induction ns generalizing ks with
  | nil => cases h; rfl
  | cons n ns ih => cases h with | cons hn h => simp [ih h]

theorem KidsBehav.get {i : ℕ} (h : KidsBehav ns ks) (hi : ns[i]? = some n) :
    ∃ own kn r, NodeBehav n own kn r ∧ ks[i]? = some ⟨own ++ traces kn, r⟩ := by
  induction ns generalizing ks i with
  | nil => simp at hi
  | cons m ns ih =>
    cases h with
    | cons hn h =>
      cases i with
      | zero =>
        simp only [List.getElem?_cons_zero, Option.some.injEq] at hi
        subst hi
        exact ⟨_, _, _, hn, rfl⟩
      | succ i => simpa using ih h (by simpa using hi)

theorem KidsBehav.set {i : ℕ} {own : List (Event C A)} {kn : List (Kid C A O)} {r : Option O}
    (h : KidsBehav (ns.set i n') ks) (hi : ns[i]? = some n) (hn : NodeBehav n own kn r) :
    KidsBehav ns (ks.set i ⟨own ++ traces kn, r⟩) := by
  induction ns generalizing ks i with
  | nil => simp at hi
  | cons m ns ih =>
    cases i with
    | zero =>
      simp only [List.getElem?_cons_zero, Option.some.injEq] at hi
      subst hi
      cases h with | cons hn' h => exact .cons hn h
    | succ i =>
      cases h with | cons hm h => exact .cons hm (ih h (by simpa using hi))

theorem KidsBehav.append_one (h : KidsBehav (ns ++ [n]) ks) :
    ∃ js own kn r, KidsBehav ns js ∧ NodeBehav n own kn r ∧
      ks = js ++ [⟨own ++ traces kn, r⟩] := by
  induction ns generalizing ks with
  | nil =>
    cases h with
    | cons hn h => cases h; exact ⟨[], _, _, _, .nil, hn, rfl⟩
  | cons m ns ih =>
    cases h with
    | cons hm h =>
      obtain ⟨js, own, kn, r, hj, hn, rfl⟩ := ih h
      exact ⟨_ :: js, own, kn, r, .cons hm hj, hn, rfl⟩

theorem traces_set_perm {i : ℕ} {k : Kid C A O} {t es : List (Event C A)} {r : Option O}
    (hk : ks[i]? = some k) (ht : t.Perm (es ++ k.trace)) :
    (traces (ks.set i ⟨t, r⟩)).Perm (es ++ traces ks) := by
  induction ks generalizing i with
  | nil => simp at hk
  | cons j ks ih =>
    cases i with
    | zero =>
      simp only [List.getElem?_cons_zero, Option.some.injEq] at hk
      subst hk
      simpa using ht.append_right (traces ks)
    | succ i =>
      have h := ih (i := i) (by simpa using hk)
      simp only [List.set_cons_succ, traces_cons]
      exact (h.append_left j.trace).trans (List.perm_append_comm_assoc _ _ _)

/-- One step, undone: what the tree does after the step, it does before it with
the step's event added. -/
theorem Step.behav {l : Label C A} (hs : Step n l n') {own : List (Event C A)} {r : Option O}
    (h : NodeBehav n' own ks r) :
    ∃ js, NodeBehav n (l.root ++ own) js r ∧
      (l.root ++ own ++ traces js).Perm (l.event ++ (own ++ traces ks)) := by
  induction hs generalizing own ks r with
  | call c k kids a =>
    cases h with
    | mk hk h => exact ⟨_, .mk hk (.call a h), by simp [Label.root, Label.event]⟩
  | fork child k kids =>
    cases h with
    | mk hk h =>
      obtain ⟨js, ownc, kc, rc, hj, hn, rfl⟩ := hk.append_one
      cases hn with
      | mk hnil hc =>
        cases hnil
        rw [← hj.length] at h
        refine ⟨_, .mk hj (.fork hc h), ?_⟩
        simp [Label.root, Label.event]
  | join i k kids o hk' =>
    cases h with
    | mk hk h =>
      obtain ⟨m, hm, hres⟩ := Option.bind_eq_some_iff.mp hk'
      obtain ⟨ownm, km, rm, hnm, hks⟩ := hk.get hm
      have hrm : rm = some o := by
        cases hnm with
        | @mk p _ _ _ _ _ _ hb =>
          cases p with
          | ret o' => exact ((Behav.ret_iff.mp hb).2.2).trans hres
          | _ => cases hres
      exact ⟨_, .mk hk (.join o (by simp [hks, hrm]) h), by simp [Label.root, Label.event]⟩
  | kid p kids i m m' l hi hs ih =>
    cases h with
    | @mk _ _ ks ext _ _ hk h =>
      have hi' : (kids.set i m')[i]? = some m' := by
        rw [List.getElem?_set_self (List.getElem?_eq_some_iff.mp hi).1]
      obtain ⟨ownm, km, rm, hnm, hks⟩ := hk.get hi'
      obtain ⟨jm, hjm, hperm⟩ := ih hnm
      have hkids := hk.set hi hjm
      have hmap : (ks.set i ⟨l.root ++ ownm ++ traces jm, rm⟩).map Kid.result =
          ks.map Kid.result := by
        refine List.ext_getElem? fun j => ?_
        by_cases hj : i = j
        · subst hj
          rw [List.getElem?_map, List.getElem?_map, hks,
            List.getElem?_set_self (List.getElem?_eq_some_iff.mp hks).1]
          rfl
        · rw [List.getElem?_map, List.getElem?_map, List.getElem?_set_ne hj]
      rw [Label.root_lower, Label.event_lower, List.nil_append]
      refine ⟨_, .mk hkids (h.retrace hmap), ?_⟩
      have ht := traces_set_perm (r := rm) hks hperm
      simp only [traces_append]
      refine ((ht.append_right (traces ext)).append_left own).trans ?_
      rw [List.append_assoc]
      exact List.perm_append_comm_assoc _ _ _

/-- Adequacy: a run of the tree is a permutation of a depth-first behaviour. -/
theorem Steps.nodeBehav {ls : List (Label C A)} (h : Steps n ls n') :
    ∃ ks, NodeBehav n (ls.flatMap Label.root) ks n'.result ∧
      (ls.flatMap Label.event).Perm (ls.flatMap Label.root ++ traces ks) := by
  induction h with
  | nil n =>
    obtain ⟨ks, hn, ht⟩ := NodeBehav.idle n
    exact ⟨ks, hn, by simp [ht]⟩
  | cons h hs ih =>
    obtain ⟨ks, hn, hperm⟩ := ih
    obtain ⟨js, hj, hp⟩ := h.behav hn
    refine ⟨js, hj, ?_⟩
    simp only [List.flatMap_cons]
    exact ((hperm.append_left _).trans hp.symm)

theorem Steps.behav {p : Proc C A O} {ls : List (Label C A)} (h : Steps (.mk p []) ls n') :
    ∃ ext, Behav [] p (ls.flatMap Label.root) ext n'.result ∧
      (ls.flatMap Label.event).Perm (ls.flatMap Label.root ++ traces ext) := by
  obtain ⟨ks, hn, hp⟩ := h.nodeBehav
  cases hn with
  | mk hk h =>
    cases hk
    exact ⟨_, h, hp⟩

end Adequacy

section Schedule

variable (reply : (c : C) → A c)

def Node.stepAt : List ℕ → Node C A O → Option (Label C A × Node C A O)
  | [], .mk (.ret _) _ => none
  | [], .mk (.call c k) kids => some (.own ⟨c, reply c⟩, .mk (k (reply c)) kids)
  | [], .mk (.fork child k) kids => some (.silent, .mk (k kids.length) (kids ++ [.mk child []]))
  | [], .mk (.join h k) kids =>
    match (kids[h]?).bind Node.result with
    | some o => some (.silent, .mk (k o) kids)
    | none => none
  | i :: path, .mk p kids =>
    match kids[i]? with
    | none => none
    | some n => match n.stepAt path with
      | none => none
      | some (l, n') => some (l.lower, .mk p (kids.set i n'))

def Node.runAt : List (List ℕ) → Node C A O → Option (List (Label C A) × Node C A O)
  | [], n => some ([], n)
  | path :: paths, n =>
    match n.stepAt reply path with
    | none => none
    | some (l, n') => match n'.runAt paths with
      | none => none
      | some (ls, n'') => some (l :: ls, n'')

variable {reply}

theorem Node.stepAt_step {path : List ℕ} {n n' : Node C A O} {l : Label C A}
    (h : n.stepAt reply path = some (l, n')) : Step n l n' := by
  induction path generalizing n n' l with
  | nil =>
    obtain ⟨p, kids⟩ := n
    cases p with
    | ret o => cases h
    | call c k => cases h; exact .call ..
    | fork child k => cases h; exact .fork ..
    | join i k =>
      simp only [Node.stepAt] at h
      split at h
      · cases h; exact .join _ _ _ _ ‹_›
      · cases h
  | cons i path ih =>
    obtain ⟨p, kids⟩ := n
    simp only [Node.stepAt] at h
    split at h
    · cases h
    · split at h
      · cases h
      · cases h; exact .kid _ _ _ _ _ _ ‹_› (ih ‹_›)

theorem Node.runAt_steps (reply : (c : C) → A c) (paths : List (List ℕ)) (n : Node C A O)
    {n' : Node C A O} {ls : List (Label C A)} (h : n.runAt reply paths = some (ls, n')) :
    Steps n ls n' := by
  induction paths generalizing n ls with
  | nil => cases h; exact .nil _
  | cons path paths ih =>
    simp only [Node.runAt] at h
    split at h
    · cases h
    · split at h
      · cases h
      · cases h; exact .cons (Node.stepAt_step ‹_›) (ih _ ‹_›)

end Schedule

section Reaches

variable {p : Proc C A O} {T T' : List (Event C A) → Proc C A O → Prop} {P : C → Prop}
  {S S' : Proc C A O → Prop}

def Reaches (T : List (Event C A) → Proc C A O → Prop) (p : Proc C A O) : Prop :=
  ∀ ks own ext o, Behav ks p own ext (some o) →
    ∃ t q ks' own' ext', T t q ∧ Behav ks' q own' ext' (some o) ∧ own = t ++ own'

namespace Reaches

theorem self (h : T [] p) : Reaches T p :=
  fun ks own ext _ hb => ⟨[], p, ks, own, ext, h, hb, rfl⟩

theorem call {c : C} {k : A c → Proc C A O}
    (h : ∀ a, Reaches (fun t q => T (⟨c, a⟩ :: t) q) (k a)) : Reaches T (.call c k) := by
  intro ks own ext o hb
  cases hb with
  | call a hb =>
    obtain ⟨t, q, ks', own', ext', hT, hq, rfl⟩ := h a _ _ _ _ hb
    exact ⟨_, q, ks', own', ext', hT, hq, rfl⟩

theorem trans (h : Reaches T p)
    (hT : ∀ t q, T t q → Reaches (fun t' q' => T' (t ++ t') q') q) : Reaches T' p := by
  intro ks own ext o hb
  obtain ⟨t, q, ks', own', ext', hTq, hq, rfl⟩ := h _ _ _ _ hb
  obtain ⟨t', q', ks'', own'', ext'', hT', hq', rfl⟩ := hT t q hTq _ _ _ _ hq
  exact ⟨t ++ t', q', ks'', own'', ext'', hT', hq', by simp⟩

theorem mono (h : Reaches T p) (hT : ∀ t q, T t q → T' t q) : Reaches T' p :=
  h.trans fun t q hq => self (by simpa using hT t q hq)

end Reaches

def Through (P : C → Prop) (S : Proc C A O → Prop) : Proc C A O → Prop :=
  Reaches fun t q => (∀ e ∈ t, P e.1) ∧ S q

end Reaches

section Does

variable {α β : Type} {ks : List (Kid C A O)} {P : C → Prop} {p : Proc C A O}
  {R R' : List (Event C A) → List (Kid C A O) → α → Prop}
  {S : List (Event C A) → List (Kid C A O) → β → Prop} {k : α → Proc C A O} {m : β → Proc C A O}

/-- With the children `ks`, `p` does what `R` describes by commands in `P` and goes on
as `k`, unless it is cut short on the way. -/
def Does (ks : List (Kid C A O)) (P : C → Prop)
    (R : List (Event C A) → List (Kid C A O) → α → Prop) (p : Proc C A O) (k : α → Proc C A O) :
    Prop :=
  ∀ own ext r, Behav ks p own ext r →
    (∃ own₁ ext₁ a own₂ ext₂, own = own₁ ++ own₂ ∧ ext = ext₁ ++ ext₂ ∧ (∀ e ∈ own₁, P e.1) ∧
      R own₁ ext₁ a ∧ Behav (ks ++ ext₁) (k a) own₂ ext₂ r) ∨
    (r = none ∧ ∀ e ∈ own, P e.1)

namespace Does

theorem self {a : α} (h : R [] [] a) : Does ks P R (k a) k :=
  fun own ext _ hb => Or.inl ⟨[], [], a, own, ext, rfl, rfl, by simp, h, by simpa using hb⟩

theorem call {c : C} {q : A c → Proc C A O} (hc : P c)
    (h : ∀ x, Does ks P (fun own ext a => R (⟨c, x⟩ :: own) ext a) (q x) k) :
    Does ks P R (.call c q) k := by
  intro own ext r hb
  cases hb with
  | cut => exact Or.inr ⟨rfl, by simp⟩
  | call x hb =>
    rcases h x _ _ _ hb with ⟨own₁, ext₁, a, own₂, ext₂, rfl, rfl, hP, hR, hk⟩ | ⟨rfl, hP⟩
    · exact Or.inl ⟨_, ext₁, a, own₂, ext₂, by simp, rfl, by simpa [hc] using hP, hR, hk⟩
    · exact Or.inr ⟨rfl, by simpa [hc] using hP⟩

theorem fork {child : Proc C A O} {q : ℕ → Proc C A O}
    (h : ∀ ownc kc rc, Behav [] child ownc kc rc →
      Does (ks ++ [⟨ownc ++ traces kc, rc⟩]) P
        (fun own ext a => R own (⟨ownc ++ traces kc, rc⟩ :: ext) a) (q ks.length) k) :
    Does ks P R (.fork child q) k := by
  intro own ext r hb
  cases hb with
  | cut => exact Or.inr ⟨rfl, by simp⟩
  | fork hc hb =>
    rcases h _ _ _ hc _ _ _ hb with ⟨own₁, ext₁, a, own₂, ext₂, rfl, rfl, hP, hR, hk⟩ | hcut
    · exact Or.inl ⟨own₁, _, a, own₂, ext₂, rfl, by simp, hP, hR, by simpa using hk⟩
    · exact Or.inr hcut

theorem join {i : ℕ} {q : O → Proc C A O}
    (h : ∀ o, (ks[i]?).bind Kid.result = some o → Does ks P R (q o) k) :
    Does ks P R (.join i q) k := by
  intro own ext r hb
  cases hb with
  | cut => exact Or.inr ⟨rfl, by simp⟩
  | join o hk hb => exact h o hk _ _ _ hb

theorem bind (h : Does ks P S p m)
    (hm : ∀ own ext b, S own ext b →
      Does (ks ++ ext) P (fun own' ext' a => R (own ++ own') (ext ++ ext') a) (m b) k) :
    Does ks P R p k := by
  intro own ext r hb
  rcases h _ _ _ hb with ⟨own₁, ext₁, b, own₂, ext₂, rfl, rfl, hP, hS, hmb⟩ | hcut
  · rcases hm _ _ _ hS _ _ _ hmb with
      ⟨own₃, ext₃, a, own₄, ext₄, rfl, rfl, hP', hR, hk⟩ | ⟨rfl, hcut⟩
    · exact Or.inl ⟨own₁ ++ own₃, ext₁ ++ ext₃, a, own₄, ext₄, by simp, by simp,
        fun e he => (List.mem_append.mp he).elim (hP e) (hP' e), hR, by simpa using hk⟩
    · exact Or.inr ⟨rfl, fun e he => (List.mem_append.mp he).elim (hP e) (hcut e)⟩
  · exact Or.inr hcut

theorem mono (h : Does ks P R p k) (hR : ∀ own ext a, R own ext a → R' own ext a) :
    Does ks P R' p k := by
  intro own ext r hb
  rcases h _ _ _ hb with ⟨own₁, ext₁, a, own₂, ext₂, ho, he, hP, hr, hk⟩ | hcut
  · exact Or.inl ⟨own₁, ext₁, a, own₂, ext₂, ho, he, hP, hR _ _ _ hr, hk⟩
  · exact Or.inr hcut

end Does

theorem Through.of_does {T : Proc C A O → Prop} {R : List (Kid C A O) → List (Event C A) →
      List (Kid C A O) → α → Prop} (h : ∀ ks, Does ks P (R ks) p k) (hT : ∀ a, T (k a)) :
    Through P T p := by
  intro ks own ext o hb
  rcases h ks _ _ _ hb with ⟨own₁, ext₁, a, own₂, ext₂, rfl, rfl, hP, -, hk⟩ | ⟨hr, -⟩
  · exact ⟨own₁, k a, _, own₂, ext₂, ⟨hP, hT a⟩, hk, rfl⟩
  · cases hr

end Does

end Lib.ForkJoin
