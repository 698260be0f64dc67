import Resonate.Core

/-!
# What executions do

`Body.Runs` describes an execution of a function call by call: the events of its
own task, the children forked on it, the context it leaves and its result. It
follows the recursion of `Body.exec`, with one relation for each kind of call.
`Body.exec_does` says that this is what the program does before it goes on.
-/

namespace Resonate
open Lib Lib.ForkJoin

def Cmd.OfCalls : Cmd → Prop
  | now | user | panic _ | create .. | created .. | execute _ | settle .. | effects .. => True
  | _ => False

section Flush

def Ends (ks : List Kid) (hs : List (String × ℕ)) (ends : List End) : Prop :=
  List.Forall₂ (fun h o => (ks[h.2]?).bind Kid.result = some o) hs ends

def End.error : End → Option Error
  | .finished _ (.done (.error e)) => some e
  | _ => none

def End.todos : End → List String
  | .finished _ (.suspended todos) => todos
  | _ => []

/-- What collecting gives: the first error, or the todos. -/
def verdict (err : Option Error) (todos : List String) : Except Error (List String) :=
  match err with
  | some e => .error e
  | none => .ok todos

theorem flushLocalWork_cons (h : String × ℕ) (hs : List (String × ℕ)) (todos : List String)
    (err : Option Error) (k : Except Error (List String) → Prog) :
    flushLocalWork (h :: hs) todos err k =
      .join h.2 fun o => flushLocalWork hs (todos ++ o.todos) (err.or o.error) k := by
  rw [flushLocalWork]
  congr 1
  funext o
  cases o with
  | finished sent outcome =>
    cases outcome with
    | done result =>
      cases result with
      | ok u => simp [End.todos, End.error]
      | error e => cases err <;> simp [End.todos, End.error]
    | suspended todos => simp [End.todos, End.error]
  | _ => simp [End.todos, End.error]

theorem flushLocalWork_does {ks : List Kid} {P : Cmd → Prop}
    (k : Except Error (List String) → Prog) (hs : List (String × ℕ)) (todos : List String)
    (err : Option Error) :
    Does ks P (fun own ext x => own = [] ∧ ext = [] ∧ ∃ ends, Ends ks hs ends ∧
        x = verdict (err.or (ends.findSome? End.error)) (todos ++ ends.flatMap End.todos))
      (flushLocalWork hs todos err k) k := by
  induction hs generalizing todos err with
  | nil =>
    have hself : flushLocalWork [] todos err k = k (verdict err todos) := by cases err <;> rfl
    rw [hself]
    exact Does.self ⟨rfl, rfl, [], .nil, by simp⟩
  | cons h hs ih =>
    rw [flushLocalWork_cons]
    refine Does.join fun o ho => (ih _ _).mono fun own ext x hx => ?_
    obtain ⟨hown, hext, ends, hends, rfl⟩ := hx
    refine ⟨hown, hext, o :: ends, .cons ho hends, ?_⟩
    rw [List.findSome?_cons, List.flatMap_cons, Option.or_assoc, List.append_assoc]
    cases o.error <;> rfl

def Context.CollectsTo (ks : List Kid) (c : Context) (x : Except Error (List String)) : Prop :=
  ∃ ends, Ends ks c.spawnedHandles ends ∧
    x = verdict (ends.findSome? End.error) (c.remoteTodos ++ ends.flatMap End.todos)

theorem collectRemoteTodos_does {ks : List Kid} {P : Cmd → Prop} (c : Context)
    (k : Except Error (List String) → Prog) :
    Does ks P (fun own ext x => own = [] ∧ ext = [] ∧ c.CollectsTo ks x)
      (c.collectRemoteTodos k) k := by
  refine (flushLocalWork_does _ c.spawnedHandles [] none).bind fun own ext x hx => ?_
  obtain ⟨rfl, rfl, ends, hends, rfl⟩ := hx
  refine Does.self ⟨rfl, rfl, ends, hends, ?_⟩
  cases h : ends.findSome? End.error <;> simp [verdict, Except.map]

end Flush

section Calls

/-- What the code after a call is given, or the panic that takes its place. -/
inductive Exit (α : Type) where
  | returned (a : α)
  | panicked (msg : String)

def Exit.elim {α : Type} (k : α → Prog) (panicked : String → Prog) : Exit α → Prog
  | .returned a => k a
  | .panicked msg => panicked msg

def OrPanic {α : Type} (R : List Event → List Kid → α → Prop) :
    List Event → List Kid → Exit α → Prop
  | own, ext, .returned a => R own ext a
  | own, _, .panicked msg => (⟨.panic msg, ()⟩ : Event) ∈ own

def Body.LeafRuns : Body → List Event → Except Error Json → Prop
  | ret result, own, r => own = [] ∧ r = result
  | user f, own, r => ∃ a own', own = ⟨.user, a⟩ :: own' ∧ (f a).LeafRuns own' r
  | _, _, _ => False

variable (sdk : Sdk) (ty : Ty) (position : Position) (slot : Slot) (req : PromiseCreateReq)

def ChildRuns (kind : DurableKind) (id : String) (leaf : List Event → Except Error Json → Prop)
    (workflow : List Event → List Kid → Context → Except Error Json → Prop) (ks : List Kid)
    (own : List Event) (ext : List Kid) (result : Except Error Json)
    (todos : Except Error (List String)) : Prop :=
  ∃ own', own = ⟨.execute id, ()⟩ :: own' ∧
    match kind with
    | .function => leaf own' result ∧ ext = [] ∧ todos = .ok []
    | .workflow => ∃ c, workflow own' ext c result ∧ c.CollectsTo (ks ++ ext) todos

/-- A child awaited inline, by how it ends: the todos it hoists and the result it hands back. -/
inductive InlineRuns (child : PromiseRecord → List Event → List Kid → Except Error Json →
    Except Error (List String) → Prop) :
    List Event → List Kid → List String → Except Error Json → Prop
  | failed (e : Error) :
      InlineRuns child [⟨.create .run position slot req, .error e⟩] [] [] (.error e)
  | recorded (record : PromiseRecord) (result : Except Error Json)
      (h : record.asResult sdk.codec ty = some result) :
      InlineRuns child [⟨.create .run position slot req, .ok record⟩] [] [] result
  | broken (record : PromiseRecord) (own : List Event) (ext : List Kid)
      (result : Except Error Json) (e : Error) (hp : record.state = .pending)
      (h : child record own ext result (.error e)) :
      InlineRuns child (⟨.create .run position slot req, .ok record⟩ :: own) ext [] (.error e)
  | unsettled (record : PromiseRecord) (own : List Event) (ext : List Kid)
      (result : Except Error Json) (e : Error) (hp : record.state = .pending)
      (h : child record own ext result (.ok [])) :
      InlineRuns child (⟨.create .run position slot req, .ok record⟩ ::
        (own ++ [⟨.settle position req.id (result.map ty.toValue), .error e⟩])) ext [] (.error e)
  | settled (record : PromiseRecord) (own : List Event) (ext : List Kid)
      (result : Except Error Json) (answer : PromiseRecord) (hp : record.state = .pending)
      (h : child record own ext result (.ok [])) :
      InlineRuns child (⟨.create .run position slot req, .ok record⟩ ::
        (own ++ [⟨.settle position req.id (result.map ty.toValue), .ok answer⟩])) ext [] result
  | waiting (record : PromiseRecord) (own : List Event) (ext : List Kid)
      (result : Except Error Json) (todos : List String) (hp : record.state = .pending)
      (hne : todos ≠ []) (h : child record own ext result (.ok todos)) :
      InlineRuns child (⟨.create .run position slot req, .ok record⟩ :: own) ext todos result

inductive RemoteRuns : List Event → List String → Except Error Json → Prop
  | failed (e : Error) :
      RemoteRuns [⟨.create .remote position slot req, .error e⟩] [] (.error e)
  | recorded (record : PromiseRecord) (result : Except Error Json)
      (h : record.asResult sdk.codec ty = some result) :
      RemoteRuns [⟨.create .remote position slot req, .ok record⟩] [] result
  | pending (record : PromiseRecord) (hp : record.state = .pending) :
      RemoteRuns [⟨.create .remote position slot req, .ok record⟩] [req.id] (.error .suspended)

def creationFailed (e : Error) : End :=
  .finished (some (.error (duplicateError e))) (.done (.error e))

inductive SpawnedRuns (child : PromiseRecord → List Event → List Kid → Except Error Json →
    Except Error (List String) → Prop) : List Event → List Kid → End → Prop
  | failed (e : Error) :
      SpawnedRuns child [⟨.create .run position slot req, .error e⟩] [] (creationFailed e)
  | recorded (record : PromiseRecord) (result : Except Error Json)
      (h : record.asResult sdk.codec ty = some result)
      (hd : record.state = .resolved → ∃ v, result = .ok v) :
      SpawnedRuns child [⟨.create .run position slot req, .ok record⟩] []
        (.finished (some result) (.done (.ok ())))
  | undecodable (record : PromiseRecord) (e : Error) (hs : record.state = .resolved)
      (h : serde (ty.ofValue record.value.dataOrNull) = .error e) :
      SpawnedRuns child [⟨.create .run position slot req, .ok record⟩] [] (creationFailed e)
  | broken (record : PromiseRecord) (own : List Event) (ext : List Kid)
      (result : Except Error Json) (e : Error) (hp : record.state = .pending)
      (h : child record own ext result (.error e)) :
      SpawnedRuns child (⟨.create .run position slot req, .ok record⟩ :: own) ext
        (.finished (some (.error (duplicateError e))) (.done (.error e)))
  | waiting (record : PromiseRecord) (own : List Event) (ext : List Kid)
      (result : Except Error Json) (todos : List String) (hp : record.state = .pending)
      (hw : isSuspended result = true ∨ todos ≠ []) (h : child record own ext result (.ok todos)) :
      SpawnedRuns child (⟨.create .run position slot req, .ok record⟩ :: own) ext
        (.finished (some (.error .suspended)) (.suspended todos))
  | settled (record : PromiseRecord) (own : List Event) (ext : List Kid)
      (result : Except Error Json) (answer : Except Error PromiseRecord)
      (hp : record.state = .pending) (hs : isSuspended result = false)
      (h : child record own ext result (.ok [])) :
      SpawnedRuns child (⟨.create .run position slot req, .ok record⟩ ::
        (own ++ [⟨.settle position req.id (result.map ty.toValue), answer⟩])) ext
        (.finished (some result) (.done (.ok ())))
  | panicked (record : PromiseRecord) (own : List Event) (ext : List Kid) (msg : String)
      (hp : record.state = .pending) (h : (⟨.panic msg, ()⟩ : Event) ∈ own) :
      SpawnedRuns child (⟨.create .run position slot req, .ok record⟩ :: own) ext .panicked

inductive SpawnedRemoteRuns : List Event → List Kid → End → Prop
  | failed (e : Error) :
      SpawnedRemoteRuns [⟨.create .remote position slot req, .error e⟩] [] (creationFailed e)
  | recorded (record : PromiseRecord) (result : Except Error Json)
      (h : record.asResult sdk.codec ty = some result) :
      SpawnedRemoteRuns [⟨.create .remote position slot req, .ok record⟩] []
        (.finished (some result) (.done (.ok ())))
  | pending (record : PromiseRecord) (hp : record.state = .pending) :
      SpawnedRemoteRuns [⟨.create .remote position slot req, .ok record⟩] []
        (.finished (some (.error .suspended)) (.suspended [req.id]))

inductive DetachedRuns : List Event → List Kid → End → Prop
  | failed (e : Error) :
      DetachedRuns [⟨.create .detached position slot req, .error e⟩] [] (creationFailed e)
  | created (record : PromiseRecord) :
      DetachedRuns [⟨.create .detached position slot req, .ok record⟩] []
        (.finished none (.done (.ok ())))

end Calls

/-- A child task: what it has done, described once it has ended. -/
def KidRuns (R : List Event → List Kid → End → Prop) (kid : Kid) : Prop :=
  ∃ own ext, kid.trace = own ++ traces ext ∧ ∀ o, kid.result = some o → R own ext o

def Context.spawned (c : Context) (id : String) (task : ℕ) : Context :=
  { c.claimSlot with spawnedHandles := c.spawnedHandles ++ [(id, task)] }

def Context.awaited (c : Context) (todos : List String) : Context :=
  { c.claimSlot with remoteTodos := c.remoteTodos ++ todos }

namespace Body

def Runs (sdk : Sdk) : Body → List Kid → Context → List Event → List Kid → Context →
    Except Error Json → Prop
  | ret result, _, c, own, ext, c', r => own = [] ∧ ext = [] ∧ c' = c ∧ r = result
  | panic _, _, _, _, _, _, _ => False
  | user f, ks, c, own, ext, c', r =>
    ∃ a own', own = ⟨.user, a⟩ :: own' ∧ (f a).Runs sdk ks c own' ext c' r
  | next f, ks, c, own, ext, c', r => (f c.seq).Runs sdk ks c.advance own ext c' r
  | run seq fn args timeout child f, ks, c, own, ext, c', r =>
    ∃ (now : Int) (own' : List Event), own = ⟨.now, now⟩ :: own' ∧
      match c.localCreateReq (c.callId seq) args timeout now with
      | .error e => (f (.error e)).Runs sdk ks c own' ext c' r
      | .ok req => ∃ own₁ ext₁ todos result own₂ ext₂, own' = own₁ ++ own₂ ∧ ext = ext₁ ++ ext₂ ∧
          InlineRuns sdk fn.ty (c.position ++ [⟨seq, false⟩]) c.slot req
            (fun record => ChildRuns fn.kind req.id child.LeafRuns (child.Runs sdk ks
              (c.child req.id fn.name record.timeoutAt ⟨seq, false⟩)) ks) own₁ ext₁ todos result ∧
          (f result).Runs sdk (ks ++ ext₁) (c.awaited todos) own₂ ext₂ c' r
  | spawn seq fn args timeout child f, ks, c, own, ext, c', r =>
    ∃ (now : Int) (own' : List Event), own = ⟨.now, now⟩ :: own' ∧
      match c.localCreateReq (c.callId seq) args timeout now with
      | .error e => (f (.error e)).Runs sdk ks c own' ext c' r
      | .ok req => ∃ kid ext', ext = kid :: ext' ∧
          KidRuns (SpawnedRuns sdk fn.ty (c.position ++ [⟨seq, true⟩]) c.slot req
            fun record => ChildRuns fn.kind req.id child.LeafRuns (child.Runs sdk []
              (c.child req.id fn.name record.timeoutAt ⟨seq, true⟩)) []) kid ∧
          (f (.ok ⟨req.id, c.slot, ks.length⟩)).Runs sdk (ks ++ [kid])
            (c.spawned req.id ks.length) own' ext' c' r
  | await seq call f, ks, c, own, ext, c', r =>
    ∃ (now : Int) (own' : List Event), own = ⟨.now, now⟩ :: own' ∧
      match c.remoteReq sdk (c.callId seq) now call with
      | .error e => (f (.error e)).Runs sdk ks c own' ext c' r
      | .ok req => ∃ own₁ todos result own₂, own' = own₁ ++ own₂ ∧
          RemoteRuns sdk call.ty (c.position ++ [⟨seq, false⟩]) c.slot req own₁ todos result ∧
          (f result).Runs sdk ks (c.awaited todos) own₂ ext c' r
  | start seq call f, ks, c, own, ext, c', r =>
    ∃ (now : Int) (own' : List Event), own = ⟨.now, now⟩ :: own' ∧
      match c.remoteReq sdk (c.callId seq) now call with
      | .error e => (f (.error e)).Runs sdk ks c own' ext c' r
      | .ok req => ∃ kid ext', ext = kid :: ext' ∧
          KidRuns (SpawnedRemoteRuns sdk call.ty (c.position ++ [⟨seq, true⟩]) c.slot req) kid ∧
          (f (.ok ⟨req.id, c.slot, ks.length⟩)).Runs sdk (ks ++ [kid])
            (c.spawned req.id ks.length) own' ext' c' r
  | detach seq func args timeout target f, ks, c, own, ext, c', r =>
    ∃ (now : Int) (own' : List Event), own = ⟨.now, now⟩ :: own' ∧
      match c.detachedReq sdk seq func args timeout target now with
      | .error e => (f (.error e)).Runs sdk ks c own' ext c' r
      | .ok req => ∃ kid ext', ext = kid :: ext' ∧
          KidRuns (DetachedRuns (c.position ++ [⟨seq, true⟩]) c.slot req) kid ∧
          (f (.ok ⟨req.id, c.slot, ks.length⟩)).Runs sdk (ks ++ [kid])
            (c.spawned req.id ks.length) own' ext' c' r
  | join h f, ks, c, own, ext, c', r =>
    ∃ o, (ks[h.task]?).bind Kid.result = some o ∧ (f (recv h.id o)).Runs sdk ks c own ext c' r
  | handleId h f, ks, c, own, ext, c', r =>
    ∃ (x : Except Error String) (own' : List Event), own = ⟨.created h.slot h.id, x⟩ :: own' ∧
      (f x).Runs sdk ks c own' ext c' r

end Body

section Does

variable {α β : Type} {ks : List Kid} {p : Prog} {panicked : String → Prog}
  {R R' : List Event → List Kid → α → Prop} {S : List Event → List Kid → β → Prop}
  {k : α → Prog} {m : β → Prog}

def DoesOrPanics (ks : List Kid) (panicked : String → Prog)
    (R : List Event → List Kid → α → Prop) (p : Prog) (k : α → Prog) : Prop :=
  Does ks Cmd.OfCalls (OrPanic R) p (Exit.elim k panicked)

def DoesOrPanics₂ (ks : List Kid) (panicked : String → Prog)
    (R : List Event → List Kid → α → β → Prop) (p : Prog) (k : α → β → Prog) : Prop :=
  DoesOrPanics ks panicked (fun own ext x => R own ext x.1 x.2) p (Function.uncurry k)

theorem DoesOrPanics₂.self {R : List Event → List Kid → α → β → Prop} {k : α → β → Prog} {a : α}
    {b : β} (h : R [] [] a b) : DoesOrPanics₂ ks panicked R (k a b) k := by
  have hself : Does ks Cmd.OfCalls (OrPanic fun own ext (x : α × β) => R own ext x.1 x.2)
      (Exit.elim (Function.uncurry k) panicked (.returned (a, b))) _ := Does.self h
  exact hself

namespace DoesOrPanics

theorem self {a : α} (h : R [] [] a) : DoesOrPanics ks panicked R (k a) k := by
  have hself : Does ks Cmd.OfCalls (OrPanic R) (Exit.elim k panicked (.returned a)) _ := Does.self h
  exact hself

theorem mono (h : DoesOrPanics ks panicked R p k) (hR : ∀ own ext a, R own ext a → R' own ext a) :
    DoesOrPanics ks panicked R' p k := by
  refine Does.mono h fun own ext x hx => ?_
  cases x with
  | returned a => exact hR own ext a hx
  | panicked msg => exact hx

theorem panic (msg : String) :
    DoesOrPanics ks panicked R (.call (.panic msg) fun _ => panicked msg) k := by
  refine Does.call trivial fun x => ?_
  have hself : Does ks Cmd.OfCalls (fun own ext a => OrPanic R (⟨.panic msg, x⟩ :: own) ext a)
      (Exit.elim k panicked (.panicked msg)) (Exit.elim k panicked) :=
    Does.self (List.mem_cons_self ..)
  exact hself

theorem call {c : Cmd} {q : c.Answer → Prog} (hc : c.OfCalls)
    (h : ∀ x, DoesOrPanics ks panicked (fun own ext a => R (⟨c, x⟩ :: own) ext a) (q x) k) :
    DoesOrPanics ks panicked R (.call c q) k := by
  refine Does.call hc fun x => Does.mono (h x) fun own ext a ha => ?_
  cases a with
  | returned a => exact ha
  | panicked msg => exact List.mem_cons_of_mem _ ha

theorem fork {child : Prog} {q : ℕ → Prog}
    (h : ∀ kid : Kid, (∃ own ext, kid.trace = own ++ traces ext ∧
        Behav [] child own ext kid.result) →
      DoesOrPanics (ks ++ [kid]) panicked (fun own ext a => R own (kid :: ext) a) (q ks.length) k) :
    DoesOrPanics ks panicked R (.fork child q) k := by
  refine Does.fork fun ownc kc rc hb =>
    Does.mono (h ⟨ownc ++ traces kc, rc⟩ ⟨ownc, kc, rfl, hb⟩) fun own ext a ha => ?_
  cases a with
  | returned a => exact ha
  | panicked msg => exact ha

theorem join {i : ℕ} {q : End → Prog}
    (h : ∀ o, (ks[i]?).bind Kid.result = some o → DoesOrPanics ks panicked R (q o) k) :
    DoesOrPanics ks panicked R (.join i q) k := Does.join h

theorem of_does (h : Does ks Cmd.OfCalls S p m)
    (hm : ∀ own ext b, S own ext b → DoesOrPanics (ks ++ ext) panicked
      (fun own' ext' a => R (own ++ own') (ext ++ ext') a) (m b) k) :
    DoesOrPanics ks panicked R p k := by
  refine Does.bind h fun own ext b hb => Does.mono (hm own ext b hb) fun own' ext' a ha => ?_
  cases a with
  | returned a => exact ha
  | panicked msg => exact List.mem_append_right own ha

theorem bind (h : DoesOrPanics ks panicked S p m)
    (hm : ∀ own ext b, S own ext b → DoesOrPanics (ks ++ ext) panicked
      (fun own' ext' a => R (own ++ own') (ext ++ ext') a) (m b) k) :
    DoesOrPanics ks panicked R p k := by
  refine Does.bind h fun own ext x hx => ?_
  cases x with
  | returned b =>
    refine Does.mono (hm own ext b hx) fun own' ext' a ha => ?_
    cases a with
    | returned a => exact ha
    | panicked msg => exact List.mem_append_right own ha
  | panicked msg =>
    have hpanic : (⟨.panic msg, ()⟩ : Event) ∈ own := hx
    have hself : Does (ks ++ ext) Cmd.OfCalls
        (fun own' ext' a => OrPanic R (own ++ own') (ext ++ ext') a)
        (Exit.elim k panicked (.panicked msg)) (Exit.elim k panicked) :=
      Does.self (List.mem_append_left _ hpanic)
    exact hself

end DoesOrPanics

theorem DoesOrPanics₂.call {R : List Event → List Kid → α → β → Prop} {k : α → β → Prog} {c : Cmd}
    {q : c.Answer → Prog} (hc : c.OfCalls)
    (h : ∀ x, DoesOrPanics₂ ks panicked (fun own ext => R (⟨c, x⟩ :: own) ext) (q x) k) :
    DoesOrPanics₂ ks panicked R (.call c q) k := DoesOrPanics.call hc h

end Does

section CallsDo

variable {sdk : Sdk} {ty : Ty} {position : Position} {slot : Slot} {req : PromiseCreateReq}
  {ks : List Kid} {panicked : String → Prog}

theorem leaf_does (b : Body) (k : Except Error Json → Prog) :
    DoesOrPanics ks panicked (fun own ext r => ext = [] ∧ b.LeafRuns own r) (b.leaf panicked k) k := by
  induction b with
  | ret result => exact DoesOrPanics.self ⟨rfl, rfl, rfl⟩
  | user f ih =>
    refine DoesOrPanics.call trivial fun a => (ih a).mono fun own ext r h => ?_
    exact ⟨h.1, a, own, rfl, h.2⟩
  | _ => exact DoesOrPanics.panic _

theorem executeChild_does {kind : DurableKind} {id : String}
    {leaf : (Except Error Json → Prog) → Prog}
    {workflow : (Context → Except Error Json → Prog) → Prog}
    {L : List Event → Except Error Json → Prop}
    {W : List Event → List Kid → Context → Except Error Json → Prop}
    (hleaf : ∀ k, DoesOrPanics ks panicked (fun own ext r => ext = [] ∧ L own r) (leaf k) k)
    (hwf : ∀ k, DoesOrPanics₂ ks panicked W (workflow k) k)
    (k : Except Error Json → Except Error (List String) → Prog) :
    DoesOrPanics₂ ks panicked (ChildRuns kind id L W ks) (executeChild kind id leaf workflow k) k := by
  refine DoesOrPanics.call trivial fun u => ?_
  obtain rfl : u = () := rfl
  cases kind with
  | function =>
    refine (hleaf _).bind fun own ext r h => ?_
    obtain ⟨rfl, hL⟩ := h
    exact DoesOrPanics₂.self ⟨own, by simp, hL, rfl, rfl⟩
  | workflow =>
    refine (hwf _).bind fun own ext x hW => ?_
    refine DoesOrPanics.of_does (collectRemoteTodos_does x.1 (k x.2)) ?_
    rintro own' ext' todos ⟨rfl, rfl, hc⟩
    exact DoesOrPanics₂.self ⟨own, by simp, x.1, by simpa using hW, by simpa using hc⟩

theorem runIntoFuture_does
    {execute : PromiseRecord → (Except Error Json → Except Error (List String) → Prog) → Prog}
    {X : PromiseRecord → List Event → List Kid → Except Error Json →
      Except Error (List String) → Prop}
    (hexec : ∀ record k, DoesOrPanics₂ ks panicked (X record) (execute record k) k)
    (k : List String → Except Error Json → Prog) :
    DoesOrPanics₂ ks panicked (InlineRuns sdk ty position slot req X)
      (runIntoFuture sdk ty position slot req execute k) k := by
  refine DoesOrPanics.call trivial fun a => ?_
  cases a with
  | error e => exact DoesOrPanics₂.self (.failed e)
  | ok record =>
    dsimp only
    cases hres : record.asResult sdk.codec ty with
    | some result => exact DoesOrPanics₂.self (.recorded record result hres)
    | none =>
      have hp := PromiseRecord.asResult_eq_none.mp hres
      refine (hexec record _).bind fun own ext x hX => ?_
      obtain ⟨result, todos⟩ := x
      rcases todos with e | todos
      · exact DoesOrPanics₂.self
          (by simpa using .broken record own ext result e hp hX)
      · rcases todos with _ | ⟨todo, todos⟩
        · refine DoesOrPanics.call trivial fun answer => ?_
          rcases answer with e | answer
          · exact DoesOrPanics₂.self
              (by simpa using .unsettled record own ext result e hp hX)
          · exact DoesOrPanics₂.self
              (by simpa using .settled record own ext result answer hp hX)
        · exact DoesOrPanics₂.self
            (by simpa using .waiting record own ext result (todo :: todos) hp (by simp) hX)

theorem blockOnRemote_does (k : List String → Except Error Json → Prog) :
    DoesOrPanics₂ ks panicked
      (fun own ext todos r => ext = [] ∧ RemoteRuns sdk ty position slot req own todos r)
      (blockOnRemote sdk ty position slot req k) k := by
  refine DoesOrPanics₂.call trivial fun a => ?_
  cases a with
  | error e => exact DoesOrPanics₂.self ⟨rfl, .failed e⟩
  | ok record =>
    dsimp only
    cases hres : record.asResult sdk.codec ty with
    | some result =>
      exact DoesOrPanics₂.self ⟨rfl, .recorded record result hres⟩
    | none =>
      exact DoesOrPanics₂.self
        ⟨rfl, .pending record (PromiseRecord.asResult_eq_none.mp hres)⟩

theorem finishSpawned_runs {X : PromiseRecord → List Event → List Kid → Except Error Json →
      Except Error (List String) → Prop} {record : PromiseRecord} {own own' : List Event}
    {ext ext' : List Kid} {result : Except Error Json} {todos : Except Error (List String)} {o : End}
    (hp : record.state = .pending) (hX : X record own ext result todos)
    (hb : Behav ext (finishSpawned ty position req.id result todos) own' ext' (some o)) :
    SpawnedRuns sdk ty position slot req X
      (⟨.create .run position slot req, .ok record⟩ :: (own ++ own')) (ext ++ ext') o := by
  rcases todos with e | todos
  · obtain ⟨rfl, rfl, ho⟩ := Behav.ret_iff.mp hb
    obtain rfl := Option.some.inj ho
    simpa using .broken record own ext result e hp hX
  · unfold finishSpawned at hb
    dsimp only at hb
    cases hs : isSuspended result with
    | true =>
      rw [if_pos hs] at hb
      obtain ⟨rfl, rfl, ho⟩ := Behav.ret_iff.mp hb
      obtain rfl := Option.some.inj ho
      simpa using .waiting record own ext result todos hp (Or.inl hs) hX
    | false =>
      rw [if_neg (by simp [hs])] at hb
      rcases todos with _ | ⟨todo, todos⟩
      · dsimp only at hb
        cases hb with
        | call answer hb =>
          obtain ⟨rfl, rfl, ho⟩ := Behav.ret_iff.mp hb
          obtain rfl := Option.some.inj ho
          simpa using .settled record own ext result answer hp hs hX
      · obtain ⟨rfl, rfl, ho⟩ := Behav.ret_iff.mp hb
        obtain rfl := Option.some.inj ho
        simpa using .waiting record own ext result (todo :: todos) hp (Or.inr (by simp)) hX

theorem spawnSequenced_runs
    {execute : PromiseRecord → (Except Error Json → Except Error (List String) → Prog) → Prog}
    {X : PromiseRecord → List Event → List Kid → Except Error Json →
      Except Error (List String) → Prop}
    (hexec : ∀ record k, DoesOrPanics₂ [] (fun _ => .ret .panicked) (X record) (execute record k) k)
    {own : List Event} {ext : List Kid} {o : End}
    (hb : Behav [] (spawnSequenced .run position slot req
      (spawnedRun sdk ty position req.id execute)) own ext (some o)) :
    SpawnedRuns sdk ty position slot req X own ext o := by
  cases hb with
  | call a hb =>
    rcases a with e | record
    · obtain ⟨rfl, rfl, ho⟩ := Behav.ret_iff.mp hb
      obtain rfl := Option.some.inj ho
      exact .failed e
    · dsimp only [spawnedRun] at hb
      cases hst : record.state with
      | pending =>
        simp only [hst] at hb
        rcases hexec record _ _ _ _ hb with
          ⟨own₁, ext₁, x, own₂, ext₂, rfl, rfl, -, hx, hb⟩ | ⟨h, -⟩
        · cases x with
          | returned x => exact finishSpawned_runs hst hx hb
          | panicked msg =>
            obtain ⟨rfl, rfl, ho⟩ := Behav.ret_iff.mp hb
            obtain rfl := Option.some.inj ho
            simpa using .panicked record own₁ ext₁ msg hst hx
        · cases h
      | resolved =>
        simp only [hst] at hb
        cases hv : serde (ty.ofValue record.value.dataOrNull) with
        | ok v =>
          rw [hv] at hb
          obtain ⟨rfl, rfl, ho⟩ := Behav.ret_iff.mp hb
          obtain rfl := Option.some.inj ho
          exact .recorded record (.ok v) (by simp [PromiseRecord.asResult, hst, hv]) fun _ => ⟨v, rfl⟩
        | error e =>
          rw [hv] at hb
          obtain ⟨rfl, rfl, ho⟩ := Behav.ret_iff.mp hb
          obtain rfl := Option.some.inj ho
          exact .undecodable record e hst hv
      | _ =>
        simp only [hst] at hb
        obtain ⟨rfl, rfl, ho⟩ := Behav.ret_iff.mp hb
        obtain rfl := Option.some.inj ho
        exact .recorded record _ (by simp [PromiseRecord.asResult, hst]) (by simp [hst])

theorem spawnedRemote_runs {own : List Event} {ext : List Kid} {o : End}
    (hb : Behav [] (spawnSequenced .remote position slot req (spawnedRemote sdk ty req.id))
      own ext (some o)) : SpawnedRemoteRuns sdk ty position slot req own ext o := by
  cases hb with
  | call a hb =>
    rcases a with e | record
    · obtain ⟨rfl, rfl, ho⟩ := Behav.ret_iff.mp hb
      obtain rfl := Option.some.inj ho
      exact .failed e
    · dsimp only [spawnedRemote] at hb
      cases hres : record.asResult sdk.codec ty with
      | some result =>
        rw [hres] at hb
        obtain ⟨rfl, rfl, ho⟩ := Behav.ret_iff.mp hb
        obtain rfl := Option.some.inj ho
        exact .recorded record result hres
      | none =>
        rw [hres] at hb
        obtain ⟨rfl, rfl, ho⟩ := Behav.ret_iff.mp hb
        obtain rfl := Option.some.inj ho
        exact .pending record (PromiseRecord.asResult_eq_none.mp hres)

theorem detached_runs {own : List Event} {ext : List Kid} {o : End}
    (hb : Behav [] (spawnSequenced .detached position slot req
      fun _ => .ret (.finished none (.done (.ok ())))) own ext (some o)) :
    DetachedRuns position slot req own ext o := by
  cases hb with
  | call a hb =>
    rcases a with e | record <;>
    · obtain ⟨rfl, rfl, ho⟩ := Behav.ret_iff.mp hb
      obtain rfl := Option.some.inj ho
      constructor

end CallsDo

/-- The program of a function does what `Runs` describes. -/
theorem Body.exec_does (sdk : Sdk) (b : Body) (ks : List Kid) (c : Context)
    (panicked : String → Prog) (k : Context → Except Error Json → Prog) :
    DoesOrPanics₂ ks panicked (b.Runs sdk ks c) (b.exec sdk panicked c k) k := by
  induction b generalizing ks c panicked k with
  | ret result => exact DoesOrPanics₂.self ⟨rfl, rfl, rfl, rfl⟩
  | panic msg => exact DoesOrPanics.panic msg
  | user f ih =>
    refine DoesOrPanics₂.call trivial fun a => DoesOrPanics.mono (ih a ks c panicked k) ?_
    exact fun own ext x h => ⟨a, own, rfl, h⟩
  | next f ih => exact ih c.seq ks c.advance panicked k
  | run seq fn args timeout child f ihc ih =>
    rw [exec]
    refine DoesOrPanics₂.call trivial fun now => ?_
    dsimp only
    cases hreq : c.localCreateReq (c.callId seq) args timeout now with
    | error e =>
      refine DoesOrPanics.mono (ih _ ks c panicked k) fun own ext x h => ?_
      dsimp only
      rw [Runs]
      exact ⟨now, own, rfl, by simpa only [hreq] using h⟩
    | ok req =>
      refine DoesOrPanics.bind (runIntoFuture_does (fun record k' =>
        executeChild_does (fun k'' => leaf_does child k'') (fun k'' => ihc ks _ panicked k'') k') _)
        fun own ext x hx => ?_
      refine DoesOrPanics.mono (ih x.2 (ks ++ ext) (c.awaited x.1) panicked k)
        fun own' ext' y h => ?_
      dsimp only
      rw [Runs]
      refine ⟨now, own ++ own', rfl, ?_⟩
      simp only [hreq]
      exact ⟨own, ext, x.1, x.2, own', ext', rfl, rfl, hx, h⟩
  | spawn seq fn args timeout child f ihc ih =>
    rw [exec]
    refine DoesOrPanics₂.call trivial fun now => ?_
    dsimp only
    cases hreq : c.localCreateReq (c.callId seq) args timeout now with
    | error e =>
      refine DoesOrPanics.mono (ih _ ks c panicked k) fun own ext x h => ?_
      dsimp only
      rw [Runs]
      exact ⟨now, own, rfl, by simpa only [hreq] using h⟩
    | ok req =>
      refine DoesOrPanics.fork fun kid hkid => ?_
      obtain ⟨ownc, kc, htrace, hb⟩ := hkid
      refine DoesOrPanics.mono (ih _ (ks ++ [kid]) (c.spawned req.id ks.length) panicked k)
        fun own ext y h => ?_
      dsimp only
      rw [Runs]
      refine ⟨now, own, rfl, ?_⟩
      simp only [hreq]
      refine ⟨kid, ext, rfl, ⟨ownc, kc, htrace, fun o ho => ?_⟩, h⟩
      rw [ho] at hb
      exact spawnSequenced_runs (fun record k' => executeChild_does (fun k'' => leaf_does child k'')
        (fun k'' => ihc [] _ _ k'') k') hb
  | await seq call f ih =>
    rw [exec]
    refine DoesOrPanics₂.call trivial fun now => ?_
    dsimp only
    cases hreq : c.remoteReq sdk (c.callId seq) now call with
    | error e =>
      refine DoesOrPanics.mono (ih _ ks c panicked k) fun own ext x h => ?_
      dsimp only
      rw [Runs]
      exact ⟨now, own, rfl, by simpa only [hreq] using h⟩
    | ok req =>
      refine DoesOrPanics.bind (blockOnRemote_does _) fun own ext x hx => ?_
      obtain ⟨rfl, hx⟩ := hx
      refine DoesOrPanics.mono (ih x.2 (ks ++ []) (c.awaited x.1) panicked k)
        fun own' ext' y h => ?_
      dsimp only
      rw [Runs]
      refine ⟨now, own ++ own', rfl, ?_⟩
      simp only [hreq]
      exact ⟨own, x.1, x.2, own', rfl, hx, by simpa using h⟩
  | start seq call f ih =>
    rw [exec]
    refine DoesOrPanics₂.call trivial fun now => ?_
    dsimp only
    cases hreq : c.remoteReq sdk (c.callId seq) now call with
    | error e =>
      refine DoesOrPanics.mono (ih _ ks c panicked k) fun own ext x h => ?_
      dsimp only
      rw [Runs]
      exact ⟨now, own, rfl, by simpa only [hreq] using h⟩
    | ok req =>
      refine DoesOrPanics.fork fun kid hkid => ?_
      obtain ⟨ownc, kc, htrace, hb⟩ := hkid
      refine DoesOrPanics.mono (ih _ (ks ++ [kid]) (c.spawned req.id ks.length) panicked k)
        fun own ext y h => ?_
      dsimp only
      rw [Runs]
      refine ⟨now, own, rfl, ?_⟩
      simp only [hreq]
      exact ⟨kid, ext, rfl, ⟨ownc, kc, htrace, fun o ho => spawnedRemote_runs (by rwa [ho] at hb)⟩, h⟩
  | detach seq func args timeout target f ih =>
    rw [exec]
    refine DoesOrPanics₂.call trivial fun now => ?_
    dsimp only
    cases hreq : c.detachedReq sdk seq func args timeout target now with
    | error e =>
      refine DoesOrPanics.mono (ih _ ks c panicked k) fun own ext x h => ?_
      dsimp only
      rw [Runs]
      exact ⟨now, own, rfl, by simpa only [hreq] using h⟩
    | ok req =>
      refine DoesOrPanics.fork fun kid hkid => ?_
      obtain ⟨ownc, kc, htrace, hb⟩ := hkid
      refine DoesOrPanics.mono (ih _ (ks ++ [kid]) (c.spawned req.id ks.length) panicked k)
        fun own ext y h => ?_
      dsimp only
      rw [Runs]
      refine ⟨now, own, rfl, ?_⟩
      simp only [hreq]
      exact ⟨kid, ext, rfl, ⟨ownc, kc, htrace, fun o ho => detached_runs (by rwa [ho] at hb)⟩, h⟩
  | join h f ih =>
    refine DoesOrPanics.join fun o ho => ?_
    exact DoesOrPanics.mono (ih _ ks c panicked k) fun own ext x hx => ⟨o, ho, hx⟩
  | handleId h f ih =>
    refine DoesOrPanics₂.call trivial fun x => DoesOrPanics.mono (ih x ks c panicked k) ?_
    exact fun own ext y hy => ⟨x, own, rfl, hy⟩

/-- One execution of the function of a task: a panic is an error of the task. -/
inductive Core.ExecuteRuns (core : Core) (taskId : String) (version : Int)
    (promise : PromiseRecord) (entry : RegistryEntry) (data : TaskData)
    (preload : List PromiseRecord) (ks : List Kid) :
    List Event → List Kid → Except Error (Except Error Json × List String) → Prop
  | function (own : List Event) (result : Except Error Json) (hk : entry.kind = .function)
      (h : (entry.func data.args).LeafRuns own result) :
      ExecuteRuns core taskId version promise entry data preload ks own [] (.ok (result, []))
  | workflow (own : List Event) (ext : List Kid) (c : Context) (result : Except Error Json)
      (todos : Except Error (List String)) (hk : entry.kind = .workflow)
      (h : (entry.func data.args).Runs core.sdk ks (rootContext promise data) own ext c result)
      (hc : c.CollectsTo (ks ++ ext) todos) :
      ExecuteRuns core taskId version promise entry data preload ks
        (⟨.effects taskId version preload, ()⟩ :: own) ext (todos.map fun todos => (result, todos))
  | panicked (own : List Event) (ext : List Kid) (msg : String)
      (h : (⟨.panic msg, ()⟩ : Event) ∈ own) :
      ExecuteRuns core taskId version promise entry data preload ks own ext
        (.error (.application s!"user function panicked: {msg}"))

theorem Core.execute_does (core : Core) (taskId : String) (version : Int)
    (promise : PromiseRecord) (entry : RegistryEntry) (data : TaskData)
    (preload : List PromiseRecord) (ks : List Kid)
    (k : Except Error (Except Error Json × List String) → Prog) :
    Does ks Cmd.OfCalls (core.ExecuteRuns taskId version promise entry data preload ks)
      (core.execute taskId version promise entry data preload k) k := by
  unfold execute
  split
  · rename_i hk
    refine Does.bind (leaf_does _ _) fun own ext x hx => ?_
    cases x with
    | returned r =>
      obtain ⟨rfl, hr⟩ := hx
      exact Does.self (by simpa using .function own r hk hr)
    | panicked msg => exact Does.self (by simpa using .panicked own ext msg hx)
  · rename_i hk
    refine Does.call trivial fun u => ?_
    obtain rfl : u = () := rfl
    refine Does.bind (Body.exec_does core.sdk _ ks _ _ _) fun own ext x hx => ?_
    cases x with
    | returned x =>
      change Does _ _ _ (x.1.collectRemoteTodos fun todos => k (todos.map fun ts => (x.2, ts))) k
      refine Does.bind (collectRemoteTodos_does x.1 _) ?_
      rintro own' ext' todos ⟨rfl, rfl, hc⟩
      exact Does.self (by simpa using .workflow own ext x.1 x.2 todos hk hx (by simpa using hc))
    | panicked msg =>
      exact Does.self (by simpa using .panicked _ ext msg (List.mem_cons_of_mem _ hx))

end Resonate
