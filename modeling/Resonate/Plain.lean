import Resonate.Conduct

/-!
# Plain evaluation

A plan gives each promise id of an application the value that a plain evaluation has for it,
with no promises and no server. A function follows the plan when it evaluates to its value
given the planned values of its calls, and returns the suspension marker once a call has
handed it one.
-/

namespace Resonate
open Lib Lib.ForkJoin

structure Codec.Writes (codec : Codec) (v : Json) : Prop where
  encodes : ∃ w, codec.encode v = .ok w
  roundTrips : codec.RoundTrips v

/-- The value of each promise id, and the function and arguments that its parameter names. -/
structure Plan (codec : Codec) where
  value : String → Option Json
  task : String → Option TaskData
  writes : ∀ id v, value id = some v → codec.Writes v

namespace Plan

variable {codec : Codec} (plan : Plan codec)

def Gives (id : String) (ty : Ty) (v : Json) : Prop :=
  ∃ j, plan.value id = some j ∧ ty.ofValue j = .ok v

/-- A local child with the promise `id` that returns `v` records what a call reads back. -/
def Records (id : String) (ty : Ty) (v : Json) : Prop :=
  ∃ j, plan.value id = some j ∧ ty.toValue v = .ok j ∧ ty.ofValue j = .ok v

def Takes (id : String) (data : Json) : Prop :=
  codec.Writes data ∧ plan.task id = TaskData.ofJson data

def Calls (id : String) (v : Json) : Remote → Prop
  | .rpc ty func args _ _ => ∃ a, args = .ok a ∧
    plan.Takes id (Context.taskData func a).dataOrNull ∧ plan.Gives id ty v
  | .sleep ty _ => plan.Takes id .null ∧ plan.value id = some .null ∧ ty.ofValue .null = .ok v
  | .promise ty _ param => plan.Takes id param.dataOrNull ∧ plan.Gives id ty v

def remote (id : String) (call : Remote) : Except Error Json :=
  match plan.value id with
  | some j => serde (call.ty.ofValue j)
  | none => .error .suspended

variable {plan}

theorem Calls.remote {id : String} {v : Json} {call : Remote} (h : plan.Calls id v call) :
    plan.remote id call = .ok v := by
  have hgives : ∃ j, plan.value id = some j ∧ call.ty.ofValue j = .ok v := by
    cases call with
    | rpc ty func args timeout target =>
      obtain ⟨-, -, -, hgives⟩ := h
      exact hgives
    | sleep ty duration => exact ⟨.null, h.2⟩
    | promise ty timeout param => exact h.2
  obtain ⟨j, hj, hof⟩ := hgives
  rw [Plan.remote, hj]
  dsimp only
  rw [hof]
  rfl

end Plan

namespace Body

inductive Returns : Body → Json → Prop
  | ret (v : Json) : Returns (.ret (.ok v)) v
  | user (f : Json → Body) (v : Json) (h : ∀ a, Returns (f a) v) : Returns (.user f) v

/-- A workflow function in the context `id`, from the call number `seq` on and with the values
of its handles, evaluates to `v` in the mode `some v`. In the mode `none` a call has handed it
the suspension marker. -/
inductive Plain {codec : Codec} (plan : Plan codec) :
    String → ℕ → List (ℕ × Json) → Body → Option Json → Prop
  | ret (id : String) (seq : ℕ) (hs : List (ℕ × Json)) (v : Json) :
      Plain plan id seq hs (.ret (.ok v)) (some v)
  | suspended (id : String) (seq : ℕ) (hs : List (ℕ × Json)) :
      Plain plan id seq hs (.ret (.error .suspended)) none
  | user (id : String) (seq : ℕ) (hs : List (ℕ × Json)) (f : Json → Body) (m : Option Json)
      (h : ∀ a, Plain plan id seq hs (f a) m) : Plain plan id seq hs (.user f) m
  | next (id : String) (seq : ℕ) (hs : List (ℕ × Json)) (f : ℕ → Body) (m : Option Json)
      (h : Plain plan id ((seq + 1) % 2 ^ 32) hs (f seq) m) : Plain plan id seq hs (.next f) m
  | run (id : String) (seq : ℕ) (hs : List (ℕ × Json)) (n : ℕ) (fn : Fn) (param : Json)
      (timeout : Option ℕ) (child : Body) (f : Except Error Json → Body) (m : Option Json) (v : Json)
      (htakes : plan.Takes (joinId id (toString n)) param)
      (hrec : plan.Records (joinId id (toString n)) fn.ty v)
      (hfunction : fn.kind = .function → child.Returns v)
      (hworkflow : fn.kind = .workflow → Plain plan (joinId id (toString n)) 0 [] child (some v))
      (hok : Plain plan id seq hs (f (.ok v)) m)
      (hsus : Plain plan id seq hs (f (.error .suspended)) none) :
      Plain plan id seq hs (.run n fn (.ok param) timeout child f) m
  | spawn (id : String) (seq : ℕ) (hs : List (ℕ × Json)) (n : ℕ) (fn : Fn) (param : Json)
      (timeout : Option ℕ) (child : Body) (f : Except Error Handle → Body) (m : Option Json) (v : Json)
      (htakes : plan.Takes (joinId id (toString n)) param)
      (hrec : plan.Records (joinId id (toString n)) fn.ty v)
      (hfunction : fn.kind = .function → child.Returns v)
      (hworkflow : fn.kind = .workflow → Plain plan (joinId id (toString n)) 0 [] child (some v))
      (h : ∀ slot task, Plain plan id seq ((task, v) :: hs)
        (f (.ok ⟨joinId id (toString n), slot, task⟩)) m) :
      Plain plan id seq hs (.spawn n fn (.ok param) timeout child f) m
  | await (id : String) (seq : ℕ) (hs : List (ℕ × Json)) (n : ℕ) (call : Remote)
      (f : Except Error Json → Body) (m : Option Json) (v : Json)
      (hcall : plan.Calls (joinId id (toString n)) v call)
      (hok : Plain plan id seq hs (f (.ok v)) m)
      (hsus : Plain plan id seq hs (f (.error .suspended)) none) :
      Plain plan id seq hs (.await n call f) m
  | start (id : String) (seq : ℕ) (hs : List (ℕ × Json)) (n : ℕ) (call : Remote)
      (f : Except Error Handle → Body) (m : Option Json) (v : Json)
      (hcall : plan.Calls (joinId id (toString n)) v call)
      (h : ∀ slot task, Plain plan id seq ((task, v) :: hs)
        (f (.ok ⟨joinId id (toString n), slot, task⟩)) m) :
      Plain plan id seq hs (.start n call f) m
  | join (id : String) (seq : ℕ) (hs : List (ℕ × Json)) (h : Handle) (f : Except Error Json → Body)
      (m : Option Json) (v : Json) (hmem : (h.task, v) ∈ hs)
      (hok : Plain plan id seq hs (f (.ok v)) m)
      (hsus : Plain plan id seq hs (f (.error .suspended)) none) :
      Plain plan id seq hs (.join h f) m
  | handleId (id : String) (seq : ℕ) (hs : List (ℕ × Json)) (h : Handle)
      (f : Except Error String → Body) (m : Option Json)
      (hk : ∀ r, Plain plan id seq hs (f r) m) : Plain plan id seq hs (.handleId h f) m

/-- A plain evaluation in the context `id`, from the call number `seq` on and with the results
of the handles so far. Local children are evaluated in place, remote calls have their planned
values, and the outside says `told`. -/
def eval {codec : Codec} (plan : Plan codec) (told : Json) :
    Body → String → ℕ → List (Except Error Json) → Except Error Json
  | ret result, _, _, _ => result
  | panic msg, _, _, _ => .error (.application msg)
  | user f, id, seq, rs => (f told).eval plan told id seq rs
  | next f, id, seq, rs => (f seq).eval plan told id ((seq + 1) % 2 ^ 32) rs
  | run n _ (.ok _) _ child f, id, seq, rs =>
    (f (child.eval plan told (joinId id (toString n)) 0 [])).eval plan told id seq rs
  | run _ _ (.error text) _ _ f, id, seq, rs =>
    (f (.error (.serializationError text))).eval plan told id seq rs
  | spawn n _ (.ok _) _ child f, id, seq, rs =>
    (f (.ok ⟨joinId id (toString n), ⟨[], rs.length⟩, rs.length⟩)).eval plan told id seq
      (rs ++ [child.eval plan told (joinId id (toString n)) 0 []])
  | spawn _ _ (.error text) _ _ f, id, seq, rs =>
    (f (.error (.serializationError text))).eval plan told id seq rs
  | await n call f, id, seq, rs =>
    (f (plan.remote (joinId id (toString n)) call)).eval plan told id seq rs
  | start n call f, id, seq, rs =>
    (f (.ok ⟨joinId id (toString n), ⟨[], rs.length⟩, rs.length⟩)).eval plan told id seq
      (rs ++ [plan.remote (joinId id (toString n)) call])
  | detach n _ _ _ _ f, id, seq, rs =>
    (f (.ok ⟨joinId id (toString n), ⟨[], rs.length⟩, rs.length⟩)).eval plan told id seq
      (rs ++ [.error .suspended])
  | join h f, id, seq, rs => (f (rs.getD h.task (.error .suspended))).eval plan told id seq rs
  | handleId h f, id, seq, rs => (f (.ok h.id)).eval plan told id seq rs

section Eval

variable {codec : Codec} {plan : Plan codec} {b : Body} {v : Json} {id : String} {seq : ℕ}
  {hs : List (ℕ × Json)} {rs : List (Except Error Json)} {m : Option Json}

theorem Returns.eval (h : b.Returns v) (told : Json) : b.eval plan told id seq rs = .ok v := by
  induction h with
  | ret v => rfl
  | user f v h ih => exact ih told

theorem forall_concat (h : ∀ x ∈ hs, rs[x.1]? = some (.ok x.2)) {r : Except Error Json}
    (hr : r = .ok v) : ∀ x ∈ (rs.length, v) :: hs, (rs ++ [r])[x.1]? = some (.ok x.2) := by
  intro x hx
  rcases List.mem_cons.mp hx with rfl | hx
  · rw [List.getElem?_concat_length, hr]
  · have hlook := h x hx
    rwa [List.getElem?_append_left (List.getElem?_eq_some_iff.mp hlook).1]

/-- A function that follows the plan evaluates to its planned value. -/
theorem Plain.eval (h : b.Plain plan id seq hs m) (hm : m = some v) (told : Json)
    (hrs : ∀ x ∈ hs, rs[x.1]? = some (.ok x.2)) : b.eval plan told id seq rs = .ok v := by
  induction h generalizing v rs with
  | ret id seq hs w =>
    rw [Body.eval, Option.some.inj hm]
  | suspended => cases hm
  | user id seq hs f m h ih => exact ih told hm hrs
  | next id seq hs f m h ih => exact ih hm hrs
  | run id seq hs n fn param timeout child f m w htakes hrec hfunction _ _ _ ihc ihok _ =>
    have hchild : child.eval plan told (joinId id (toString n)) 0 [] = .ok w := by
      cases hkind : fn.kind with
      | function => exact (hfunction hkind).eval told
      | workflow => exact ihc hkind rfl fun x hx => by cases hx
    rw [Body.eval, hchild]
    exact ihok hm hrs
  | spawn id seq hs n fn param timeout child f m w htakes hrec hfunction _ _ ihc ih =>
    have hchild : child.eval plan told (joinId id (toString n)) 0 [] = .ok w := by
      cases hkind : fn.kind with
      | function => exact (hfunction hkind).eval told
      | workflow => exact ihc hkind rfl fun x hx => by cases hx
    exact ih _ rs.length hm (forall_concat hrs hchild)
  | await id seq hs n call f m w hcall _ _ ihok _ =>
    rw [Body.eval, hcall.remote]
    exact ihok hm hrs
  | start id seq hs n call f m w hcall _ ih =>
    exact ih _ rs.length hm (forall_concat hrs hcall.remote)
  | join id seq hs h f m w hmem _ _ ihok _ =>
    rw [Body.eval, List.getD_eq_getElem?_getD, hrs _ hmem]
    exact ihok hm hrs
  | handleId id seq hs h f m _ ih => exact ih _ hm hrs

end Eval

end Body

end Resonate
