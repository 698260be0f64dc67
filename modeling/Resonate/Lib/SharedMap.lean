import Resonate.Lib.ForkJoin
import Resonate.Lib.HashMap
import Resonate.Lib.Machine

/-!
# Tasks on a shared map

Tasks share a map whose gets and inserts are atomic, and ask the outside in between. A
guarded task inserts under a key only right after it has read there that the entry is
not final. Other tasks may act between the read and the insert. In a run in which no
final value is inserted while another task is about to insert a different one under the
same key, final entries are never replaced.
-/

namespace Lib.SharedMap
open ForkJoin

inductive Cmd (α Q : Type) where
  | get (k : String)
  | insert (k : String) (v : α)
  | ask (q : Q)

variable {α Q A O C : Type}

def Cmd.Answer (A : Type) : Cmd α Q → Type
  | get _ => Option α
  | insert _ _ => Unit
  | ask _ => A

abbrev Task (α Q A O : Type) := Proc (Cmd α Q) (Cmd.Answer A) O

structure State (α Q A O : Type) where
  map : HashMap α
  tasks : List (Task α Q A O)

inductive Event (C A : Type) where
  | start (call : C)
  | access (i : ℕ)
  | answer (i : ℕ) (a : A)

def access (map : HashMap α) : Task α Q A O → HashMap α × Task α Q A O
  | .call (.get k) next => (map, next (map.lookup k))
  | .call (.insert k v) next => (map.insert k v, next ())
  | t => (map, t)

def answer (a : A) : Task α Q A O → Task α Q A O
  | .call (.ask _) next => next a
  | t => t

def State.put (s : State α Q A O) (i : ℕ) (x : HashMap α × Task α Q A O) : State α Q A O :=
  ⟨x.1, s.tasks.set i x.2⟩

def step (job : C → Task α Q A O) (s : State α Q A O) : Event C A → State α Q A O
  | .start call => ⟨s.map, s.tasks ++ [job call]⟩
  | .access i => match s.tasks[i]? with
    | some t => s.put i (access s.map t)
    | none => s
  | .answer i a => match s.tasks[i]? with
    | some t => s.put i (s.map, answer a t)
    | none => s

def alone (ask : Q → A) : Task α Q A O → HashMap α → HashMap α × Option O
  | .ret o, m => (m, some o)
  | .call (.get k) next, m => alone ask (next (m.lookup k)) m
  | .call (.insert k v) next, m => alone ask (next ()) (m.insert k v)
  | .call (.ask q) next, m => alone ask (next (ask q)) m
  | .fork _ _, m => (m, none)
  | .join _ _, m => (m, none)

/-- Every insert comes right after a read of its key whose entry is not final; `armed` is
the key that was just read so. -/
def Guarded (final : α → Bool) : Option String → Task α Q A O → Prop
  | _, .ret _ => True
  | _, .call (.get k) next =>
    ∀ e : Option α, Guarded final (if e.any final then none else some k) (next e)
  | armed, .call (.insert k _) next => armed = some k ∧ Guarded final none (next ())
  | _, .call (.ask _) next => ∀ a : A, Guarded final none (next a)
  | _, .fork _ _ => False
  | _, .join _ _ => False

def Inserts (t : Task α Q A O) (k : String) (v : α) : Prop := ∃ next, t = .call (.insert k v) next

/-- No final value is inserted while another task is about to insert a different one there. -/
def Exclusive (final : α → Bool) (s : State α Q A O) : Event C A → Prop
  | .access i => ∀ t ∈ s.tasks[i]?, ∀ k v, Inserts t k v → final v = true →
    ∀ u ∈ s.tasks, ∀ w, Inserts u k w → w = v
  | _ => True

/-- A task that is about to insert replaces a final entry by itself only. -/
structure Ready (final : α → Bool) (s : State α Q A O) (t : Task α Q A O) : Prop where
  guarded : ∃ armed, Guarded final armed t
  insert : ∀ k v w, Inserts t k v → s.map.lookup k = some w → final w = true → w = v

def Safe (final : α → Bool) (s : State α Q A O) : Prop := ∀ t ∈ s.tasks, Ready final s t

def Kept (final : α → Bool) (s s' : State α Q A O) : Prop :=
  ∀ k w, s.map.lookup k = some w → final w = true → s'.map.lookup k = some w

section Step

variable {final : α → Bool} {s : State α Q A O} {t : Task α Q A O}

theorem exclusive_single {i : ℕ} (h : s.tasks = [t]) : Exclusive final s (.access i : Event C A) := by
  intro t' ht' k v hv _ u hu w hw
  obtain rfl : t' = t := by simpa [h] using List.mem_of_getElem? ht'
  obtain rfl : u = t' := by simpa [h] using hu
  obtain ⟨next, rfl⟩ := hv
  obtain ⟨next', heq⟩ := hw
  cases heq
  rfl

theorem exclusive_get {i : ℕ} {k : String} {next : Option α → Task α Q A O}
    (h : s.tasks[i]? = some (.call (.get k) next)) : Exclusive final s (.access i : Event C A) := by
  intro t ht k' v hv
  obtain rfl := Option.some.inj (h.symm.trans ht)
  obtain ⟨next', heq⟩ := hv
  cases heq

theorem not_inserts_of_guarded (h : Guarded final none t) (k : String) (v : α) : ¬ Inserts t k v := by
  rintro ⟨next, rfl⟩
  cases h.1

theorem Ready.of_guarded (h : Guarded final none t) : Ready final s t :=
  ⟨⟨none, h⟩, fun k v _ hi => absurd hi (not_inserts_of_guarded h k v)⟩

theorem Ready.read {k : String} {next : Option α → Task α Q A O}
    (h : ∀ e : Option α, Guarded final (if e.any final then none else some k) (next e)) :
    Ready final s (next (s.map.lookup k)) where
  guarded := ⟨_, h _⟩
  insert k' v w hi hw hf := by
    obtain ⟨next', hnext⟩ := hi
    have hg := h (s.map.lookup k)
    rw [hnext] at hg
    by_cases he : (s.map.lookup k).any final = true
    · rw [if_pos he] at hg
      cases hg.1
    · rw [if_neg he] at hg
      obtain rfl := Option.some.inj hg.1
      rw [hw] at he
      exact absurd hf he

/-- A task keeps its footing while the entry it is about to replace stays the same. -/
theorem Ready.of_lookup {s' : State α Q A O} (h : Ready final s t)
    (hs : ∀ k v, Inserts t k v → s'.map.lookup k = s.map.lookup k) : Ready final s' t where
  guarded := h.guarded
  insert k v w hi hw := h.insert k v w hi (by rw [← hs k v hi, hw])

theorem ready_access (h : Ready final s t) : Ready final s (access s.map t).2 := by
  obtain ⟨armed, hg⟩ := h.guarded
  cases t with
  | ret o => exact h
  | fork child k => exact h
  | join n k => exact h
  | call c next =>
    cases c with
    | get k => exact Ready.read hg
    | insert k v => exact Ready.of_guarded hg.2
    | ask q => exact h

theorem ready_answer {a : A} (h : Ready final s t) : Ready final s (answer a t) := by
  obtain ⟨armed, hg⟩ := h.guarded
  cases t with
  | ret o => exact h
  | fork child k => exact h
  | join n k => exact h
  | call c next =>
    cases c with
    | get k => exact h
    | insert k v => exact h
    | ask q => exact Ready.of_guarded (hg a)

theorem access_map (m : HashMap α) (t : Task α Q A O) :
    (access m t).1 = m ∨ ∃ k v, Inserts t k v ∧ (access m t).1 = m.insert k v := by
  cases t with
  | ret o => exact Or.inl rfl
  | fork child k => exact Or.inl rfl
  | join n k => exact Or.inl rfl
  | call c next =>
    cases c with
    | get k => exact Or.inl rfl
    | insert k v => exact Or.inr ⟨k, v, ⟨next, rfl⟩, rfl⟩
    | ask q => exact Or.inl rfl

theorem guarded_of_inserts {k : String} {v : α} {m : HashMap α} (h : Ready final s t)
    (hi : Inserts t k v) : Guarded final none (access m t).2 := by
  obtain ⟨next, rfl⟩ := hi
  obtain ⟨armed, hg⟩ := h.guarded
  exact hg.2

/-- A step of an exclusive run keeps every final entry, and every task its footing. -/
theorem safe_step {job : C → Task α Q A O} {e : Event C A}
    (hjob : ∀ call, Guarded final none (job call)) (hx : Exclusive final s e) (hs : Safe final s) :
    Safe final (step job s e) ∧ Kept final s (step job s e) := by
  have hset : ∀ (i : ℕ) (x : HashMap α × Task α Q A O), Ready final (s.put i x) x.2 →
      (∀ t ∈ s.tasks, Ready final (s.put i x) t) → Safe final (s.put i x) := by
    intro i x hu ht t hmem
    rcases List.mem_or_eq_of_mem_set hmem with hold | rfl
    · exact ht t hold
    · exact hu
  cases e with
  | start call =>
    refine ⟨fun t ht => ?_, fun k w hk _ => hk⟩
    rcases List.mem_append.mp ht with hold | hnew
    · exact (hs t hold).of_lookup fun _ _ _ => rfl
    · rw [List.mem_singleton.mp hnew]
      exact Ready.of_guarded (hjob call)
  | answer i a =>
    rw [step]
    cases hi : s.tasks[i]? with
    | none => exact ⟨hs, fun k w hk _ => hk⟩
    | some t =>
      have ht : Ready final s t := hs t (List.mem_of_getElem? hi)
      refine ⟨hset i (s.map, answer a t) ?_ fun u hu => ?_, fun k w hk _ => hk⟩
      · exact (ready_answer ht).of_lookup fun _ _ _ => rfl
      · exact (hs u hu).of_lookup fun _ _ _ => rfl
  | access i =>
    rw [step]
    cases hi : s.tasks[i]? with
    | none => exact ⟨hs, fun k w hk _ => hk⟩
    | some t =>
      have ht : Ready final s t := hs t (List.mem_of_getElem? hi)
      rcases access_map s.map t with hmap | ⟨k, v, hins, hmap⟩
      · have hlookup : ∀ k, (s.put i (access s.map t)).map.lookup k = s.map.lookup k := by
          intro k
          rw [State.put, hmap]
        refine ⟨hset i (access s.map t) ?_ fun u hu => ?_, fun k w hk _ => by rw [hlookup, hk]⟩
        · exact (ready_access ht).of_lookup fun k _ _ => hlookup k
        · exact (hs u hu).of_lookup fun k _ _ => hlookup k
      · have hlookup : ∀ k', (s.put i (access s.map t)).map.lookup k' =
            if k' = k then some v else s.map.lookup k' := by
          intro k'
          rw [State.put, hmap, HashMap.lookup_insert_ite]
        refine ⟨hset i (access s.map t) ?_ fun u hu =>
          ⟨(hs u hu).guarded, fun k' v' w hu' hw hf => ?_⟩, ?_⟩
        · exact Ready.of_guarded (guarded_of_inserts ht hins)
        · rw [hlookup] at hw
          split_ifs at hw with hk
          · subst hk
            obtain rfl := Option.some.inj hw
            exact (hx t (by rw [hi]; rfl) _ _ hins hf u hu v' hu').symm
          · exact (hs u hu).insert k' v' w hu' hw hf
        · intro k' w hw hf
          rw [hlookup]
          split_ifs with hk
          · subst hk
            rw [ht.insert _ _ w hins hw hf]
          · exact hw

end Step

section Run

variable {final : α → Bool} {job : C → Task α Q A O} {s : State α Q A O} {es : List (Event C A)}

theorem safe_run (hjob : ∀ call, Guarded final none (job call)) (hs : Safe final s)
    (hx : Machine.Along (step job) (Exclusive final) s es) :
    Safe final (Machine.run (step job) s es) :=
  Machine.invariant (G := Exclusive final) (I := Safe final)
    (fun _ _ hx hs => (safe_step hjob hx hs).1) hs hx

theorem kept_run (hjob : ∀ call, Guarded final none (job call)) (hs : Safe final s)
    (hx : Machine.Along (step job) (Exclusive final) s es) :
    Kept final s (Machine.run (step job) s es) :=
  Machine.ordered (G := Exclusive final) (I := Safe final) (R := Kept final) (fun _ _ _ hw _ => hw)
    (fun _ _ _ h h' k w hw hf => h' k w (h k w hw hf) hf)
    (fun _ _ hx hs => (safe_step hjob hx hs).1) (fun _ _ hx hs => (safe_step hjob hx hs).2) hs hx

def Reads (t : Task α Q A O) (k : String) (w : α) (o : O) : Prop :=
  ∃ next : Option α → Task α Q A O, t = .call (.get k) next ∧ next (some w) = .ret o

def Returns (t : Task α Q A O) (o : O) (s : State α Q A O) (i : ℕ) : Prop :=
  s.tasks[i]? = some t ∨ s.tasks[i]? = some (.ret o)

theorem step_tasks {e : Event C A} {i : ℕ} {t : Task α Q A O} (h : s.tasks[i]? = some t) :
    (step job s e).tasks[i]? = some t ∨ (step job s e).tasks[i]? = some (access s.map t).2 ∨
      ∃ a, (step job s e).tasks[i]? = some (answer a t) := by
  have hput : ∀ (j : ℕ) (x : HashMap α × Task α Q A O), j ≠ i → (s.put j x).tasks[i]? = some t :=
    fun j x hj => by rw [State.put, List.getElem?_set_ne hj, h]
  have hself : ∀ x : HashMap α × Task α Q A O, (s.put i x).tasks[i]? = some x.2 := by
    intro x
    obtain ⟨hi, -⟩ := List.getElem?_eq_some_iff.mp h
    rw [State.put, List.getElem?_set_self hi]
  cases e with
  | start call =>
    obtain ⟨hi, -⟩ := List.getElem?_eq_some_iff.mp h
    exact Or.inl (by rw [step, List.getElem?_append_left hi, h])
  | access j =>
    by_cases hj : j = i
    · subst hj
      refine Or.inr (Or.inl ?_)
      simp only [step, h]
      exact hself _
    · left
      rw [step]
      cases s.tasks[j]? with
      | none => exact h
      | some u => exact hput j _ hj
  | answer j a =>
    by_cases hj : j = i
    · subst hj
      refine Or.inr (Or.inr ⟨a, ?_⟩)
      simp only [step, h]
      exact hself _
    · left
      rw [step]
      cases s.tasks[j]? with
      | none => exact h
      | some u => exact hput j _ hj

theorem Returns.step {e : Event C A} {i : ℕ} {k : String} {next : Option α → Task α Q A O} {o : O}
    {w : α} {t : Task α Q A O} (h : Returns t o s i) (ht : t = .call (.get k) next)
    (hw : s.map.lookup k = some w) (hnext : next (some w) = .ret o) :
    Returns t o (step job s e) i := by
  rcases h with h | h
  · subst ht
    have haccess : (access s.map (.call (.get k) next : Task α Q A O)).2 = .ret o := by
      change next (s.map.lookup k) = .ret o
      rw [hw, hnext]
    rcases step_tasks h with hs | hs | ⟨a, hs⟩
    · exact Or.inl hs
    · exact Or.inr (by rw [hs, haccess])
    · exact Or.inl hs
  · right
    rcases step_tasks h with hs | hs | ⟨a, hs⟩
    · exact hs
    · exact hs
    · exact hs

/-- A task started on a final entry returns it, whatever the others do. -/
theorem reads_run (hjob : ∀ call, Guarded final none (job call)) (hs : Safe final s)
    {call : C} {k : String} {w : α} {o : O} (hw : s.map.lookup k = some w) (hf : final w = true)
    (hr : Reads (job call) k w o)
    (hx : Machine.Along (step job) (Exclusive final) s (.start call :: es)) :
    Returns (job call) o (Machine.run (step job) s (.start call :: es)) s.tasks.length := by
  obtain ⟨next, hjobcall, hnext⟩ := hr
  have hstart : Safe final (step job s (.start call)) ∧
      (step job s (.start call)).map.lookup k = some w ∧
      Returns (job call) o (step job s (.start call)) s.tasks.length :=
    ⟨(safe_step hjob hx.1 hs).1, hw, Or.inl (by simp [step])⟩
  refine (Machine.invariant (G := Exclusive final) (I := fun s' => Safe final s' ∧
    s'.map.lookup k = some w ∧ Returns (job call) o s' s.tasks.length)
    (fun s' e hx' hI => ?_) hstart hx.2).2.2
  obtain ⟨hs', hw', hr'⟩ := hI
  obtain ⟨hsafe, hkept⟩ := safe_step hjob hx' hs'
  exact ⟨hsafe, hkept k w hw' hf, hr'.step hjobcall hw' hnext⟩

end Run

end Lib.SharedMap
