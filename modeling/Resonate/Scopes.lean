import Resonate.Runs

/-!
# What a function may use

Rust lets a function consume a call it has built once, and join only handles of its
own. `Scope` is what a function may still use, and `Body.Keeps` says that it never
uses more; a discipline adds what it may return and which types it may spawn.
`ScopedRuns.induction` is the induction principle that an execution then has: one
case for each kind of call, with the scope before and after it.
-/

namespace Resonate
open Lib Lib.ForkJoin

/-- The next call number, the calls built and not consumed, the handles, and whether
a call has returned the suspension. -/
structure Scope where
  seq : ℕ
  built : List ℕ
  lt : ∀ n ∈ built, n < seq
  nodup : built.Nodup
  handles : List Handle
  blocked : Bool

namespace Scope

def start : Scope := ⟨0, [], by simp, by simp, [], false⟩

variable (s : Scope)

def build : Scope where
  seq := s.seq + 1
  built := s.seq :: s.built
  lt n hn := by
    rcases List.mem_cons.mp hn with rfl | hn
    · omega
    · have := s.lt n hn
      omega
  nodup := List.nodup_cons.mpr ⟨fun h => (s.lt _ h).false, s.nodup⟩
  handles := s.handles
  blocked := s.blocked

def use (n : ℕ) : Scope where
  seq := s.seq
  built := s.built.erase n
  lt m hm := s.lt m (List.mem_of_mem_erase hm)
  nodup := s.nodup.erase n
  handles := s.handles
  blocked := s.blocked

def saw (r : Except Error Json) : Scope := { s with blocked := s.blocked || isSuspended r }

def hold (h : Handle) : Scope := { s with handles := h :: s.handles }

def Left (n : ℕ) : Prop := n ∈ s.built ∨ s.seq ≤ n

variable {s} {n m : ℕ}

theorem left_build : s.build.Left m ↔ s.Left m := by
  by_cases hm : m ∈ s.built
  · simp [Left, build, hm]
  · simp only [Left, build, List.mem_cons, hm, or_false, false_or]
    omega

theorem left_use (h : n ∈ s.built) : (s.use n).Left m ↔ s.Left m ∧ m ≠ n := by
  simp only [Left, use, s.nodup.mem_erase_iff]
  have := s.lt n h
  constructor
  · rintro (⟨hne, hm⟩ | hm)
    · exact ⟨Or.inl hm, hne⟩
    · exact ⟨Or.inr hm, by omega⟩
  · rintro ⟨hm | hm, hne⟩
    · exact Or.inl ⟨hne, hm⟩
    · exact Or.inr hm

@[simp] theorem left_saw {r : Except Error Json} : (s.saw r).Left m ↔ s.Left m := Iff.rfl

@[simp] theorem left_hold {h : Handle} : (s.hold h).Left m ↔ s.Left m := Iff.rfl

theorem saw_of_not {r : Except Error Json} (h : isSuspended r = false) : s.saw r = s := by
  simp [saw, h]

end Scope

/-- What the functions of a tree may return, given whether they are blocked, and the
types of the local calls they may spawn. -/
structure Discipline where
  returns : Bool → Except Error Json → Prop
  spawns : Position → Ty → Prop

def Body.Keeps (d : Discipline) : Body → Position → Scope → Prop
  | ret r, _, s => d.returns s.blocked r
  | panic _, _, _ => True
  | user k, p, s => ∀ a, (k a).Keeps d p s
  | next k, p, s => s.seq + 1 < 2 ^ 32 ∧ (k s.seq).Keeps d p s.build
  | run n _ _ _ child k, p, s => n ∈ s.built ∧ child.Keeps d (p ++ [⟨n, false⟩]) .start ∧
      ∀ r, (k r).Keeps d p ((s.use n).saw r)
  | spawn n fn _ _ child k, p, s => n ∈ s.built ∧ d.spawns (p ++ [⟨n, true⟩]) fn.ty ∧
      child.Keeps d (p ++ [⟨n, true⟩]) .start ∧ (∀ e, (k (.error e)).Keeps d p (s.use n)) ∧
      ∀ h, (k (.ok h)).Keeps d p ((s.use n).hold h)
  | await n _ k, p, s => n ∈ s.built ∧ ∀ r, (k r).Keeps d p ((s.use n).saw r)
  | start n _ k, p, s => n ∈ s.built ∧ (∀ e, (k (.error e)).Keeps d p (s.use n)) ∧
      ∀ h, (k (.ok h)).Keeps d p ((s.use n).hold h)
  | detach n _ _ _ _ k, p, s => n ∈ s.built ∧ (∀ e, (k (.error e)).Keeps d p (s.use n)) ∧
      ∀ h, (k (.ok h)).Keeps d p ((s.use n).hold h)
  | join h k, p, s => h ∈ s.handles ∧ ∀ r, (k r).Keeps d p (s.saw r)
  | handleId h k, p, s => h ∈ s.handles ∧ ∀ r, (k r).Keeps d p s

def Cmd.Quiet : Cmd → Prop
  | now | user | created .. => True
  | _ => False

section Requests

variable {c : Context} {e : Error} {req : PromiseCreateReq}

theorem localCreateReq_id {id : String} {args : Except String Json} {timeout : Option ℕ} {now : Int}
    (h : c.localCreateReq id args timeout now = .ok req) : req.id = id := by
  cases args <;> cases h
  rfl

theorem localCreateReq_error {id : String} {args : Except String Json} {timeout : Option ℕ} {now : Int}
    (h : c.localCreateReq id args timeout now = .error e) :
    isSuspended (.error e : Except Error Json) = false := by
  cases args <;> cases h
  rfl

theorem remoteReq_id {sdk : Sdk} {id : String} {call : Remote} {now : Int}
    (h : c.remoteReq sdk id now call = .ok req) : req.id = id := by
  cases call with
  | rpc ty func args => cases args <;> cases h; rfl
  | _ => cases h; rfl

theorem remoteReq_error {sdk : Sdk} {id : String} {call : Remote} {now : Int}
    (h : c.remoteReq sdk id now call = .error e) :
    isSuspended (.error e : Except Error Json) = false := by
  cases call with
  | rpc ty func args => cases args <;> cases h; rfl
  | _ => cases h

end Requests

section Mono

variable {sdk : Sdk} {ty : Ty} {position : Position} {slot : Slot} {req : PromiseCreateReq}
  {X Y : PromiseRecord → List Event → List Kid → Except Error Json → Except Error (List String) → Prop}

theorem InlineRuns.mono (hXY : ∀ record own ext r t, X record own ext r t → Y record own ext r t)
    {own : List Event} {ext : List Kid} {todos : List String} {result : Except Error Json}
    (h : InlineRuns sdk ty position slot req X own ext todos result) :
    InlineRuns sdk ty position slot req Y own ext todos result := by
  cases h with
  | failed e => exact .failed e
  | recorded record result h => exact .recorded record result h
  | broken record own ext result e hp h => exact .broken record own ext result e hp (hXY _ _ _ _ _ h)
  | unsettled record own ext result e hp h =>
    exact .unsettled record own ext result e hp (hXY _ _ _ _ _ h)
  | settled record own ext result answer hp h =>
    exact .settled record own ext result answer hp (hXY _ _ _ _ _ h)
  | waiting record own ext result todos hp hne h =>
    exact .waiting record own ext result todos hp hne (hXY _ _ _ _ _ h)

theorem SpawnedRuns.mono (hXY : ∀ record own ext r t, X record own ext r t → Y record own ext r t)
    {own : List Event} {ext : List Kid} {o : End}
    (h : SpawnedRuns sdk ty position slot req X own ext o) :
    SpawnedRuns sdk ty position slot req Y own ext o := by
  cases h with
  | failed e => exact .failed e
  | recorded record result h hd => exact .recorded record result h hd
  | undecodable record e hs h => exact .undecodable record e hs h
  | broken record own ext result e hp h => exact .broken record own ext result e hp (hXY _ _ _ _ _ h)
  | waiting record own ext result todos hp hw h =>
    exact .waiting record own ext result todos hp hw (hXY _ _ _ _ _ h)
  | settled record own ext result answer hp hs h =>
    exact .settled record own ext result answer hp hs (hXY _ _ _ _ _ h)
  | panicked record own ext msg hp h => exact .panicked record own ext msg hp h

theorem ChildRuns.mono {kind : DurableKind} {id : String} {L L' : List Event → Except Error Json → Prop}
    {W W' : List Event → List Kid → Context → Except Error Json → Prop} {ks : List Kid}
    (hL : ∀ own r, L own r → L' own r) (hW : ∀ own ext c r, W own ext c r → W' own ext c r)
    {own : List Event} {ext : List Kid} {r : Except Error Json} {t : Except Error (List String)}
    (h : ChildRuns kind id L W ks own ext r t) : ChildRuns kind id L' W' ks own ext r t := by
  obtain ⟨own', rfl, h⟩ := h
  refine ⟨own', rfl, ?_⟩
  cases kind with
  | function => exact ⟨hL _ _ h.1, h.2⟩
  | workflow =>
    obtain ⟨c, hw, hc⟩ := h
    exact ⟨c, hW _ _ _ _ hw, hc⟩

end Mono

abbrev RunsMotive : Type :=
  Scope → List Kid → Context → List Event → List Kid → Context → Except Error Json → Prop

section Induction

variable (d : Discipline) (sdk : Sdk) (motive : RunsMotive)

def LeafEnds (own : List Event) (r : Except Error Json) : Prop :=
  (∀ e ∈ own, e.1 = .user) ∧ d.returns false r

def ScopedRuns : RunsMotive := fun s ks c own ext c' r =>
  ∃ b : Body, b.Keeps d c.position s ∧ c.seq = s.seq ∧ b.Runs sdk ks c own ext c' r

variable {d sdk} in
theorem Body.Runs.scoped {b : Body} {s : Scope} {ks : List Kid} {c : Context} {own : List Event}
    {ext : List Kid} {c' : Context} {r : Except Error Json} (hb : b.Keeps d c.position s)
    (hc : c.seq = s.seq) (h : b.Runs sdk ks c own ext c' r) : ScopedRuns d sdk s ks c own ext c' r :=
  ⟨b, hb, hc, h⟩

def Tracked (ks : List Kid) (c₀ : Context) (own : List Event) (ext : List Kid) (c : Context)
    (r : Except Error Json) : Prop :=
  ScopedRuns d sdk .start ks c₀ own ext c r ∧ motive .start ks c₀ own ext c r

def CallRuns (kind : DurableKind) (name : String) (c : Context) (call : Call) (id : String)
    (ks : List Kid) (record : PromiseRecord) :
    List Event → List Kid → Except Error Json → Except Error (List String) → Prop :=
  ChildRuns kind id (LeafEnds d) (Tracked d sdk motive ks (c.child id name record.timeoutAt call)) ks

inductive Forked (c : Context) (n : ℕ) (req : PromiseCreateReq) (kid : Kid) : Prop
  | run (ty : Ty) (kind : DurableKind) (name : String) (hid : req.id = c.callId n)
      (hty : d.spawns (c.position ++ [⟨n, true⟩]) ty)
      (h : KidRuns (SpawnedRuns sdk ty (c.position ++ [⟨n, true⟩]) c.slot req
        (CallRuns d sdk motive kind name c ⟨n, true⟩ req.id [])) kid)
  | remote (ty : Ty) (hid : req.id = c.callId n)
      (h : KidRuns (SpawnedRemoteRuns sdk ty (c.position ++ [⟨n, true⟩]) c.slot req) kid)
  | detached (h : KidRuns (DetachedRuns (c.position ++ [⟨n, true⟩]) c.slot req) kid)

variable {d sdk motive}

theorem Body.LeafRuns.ends {b : Body} {own : List Event} {r : Except Error Json} {p : Position}
    (hb : b.Keeps d p .start) (h : b.LeafRuns own r) : LeafEnds d own r := by
  induction b generalizing own with
  | ret result =>
    obtain ⟨rfl, rfl⟩ := h
    exact ⟨by simp, hb⟩
  | user f ih =>
    obtain ⟨a, own', rfl, h⟩ := h
    obtain ⟨hown, hr⟩ := ih a (hb a) h
    exact ⟨by simpa using hown, hr⟩
  | _ => exact h.elim

theorem ScopedRuns.induction
    (ret : ∀ s ks c r, d.returns s.blocked r → motive s ks c [] [] c r)
    (quiet : ∀ s ks c (e : Event) own ext c' r, e.1.Quiet → motive s ks c own ext c' r →
      motive s ks c (e :: own) ext c' r)
    (build : ∀ s ks c own ext c' r, motive s.build ks c.advance own ext c' r →
      motive s ks c own ext c' r)
    (skip : ∀ s n ks c own ext c' r, n ∈ s.built → motive (s.use n) ks c own ext c' r →
      motive s ks c own ext c' r)
    (run : ∀ s n ty kind name req ks c own₁ ext₁ todos result own ext c' r, n ∈ s.built →
      req.id = c.callId n →
      InlineRuns sdk ty (c.position ++ [⟨n, false⟩]) c.slot req
        (CallRuns d sdk motive kind name c ⟨n, false⟩ req.id ks) own₁ ext₁ todos result →
      ScopedRuns d sdk ((s.use n).saw result) (ks ++ ext₁) (c.awaited todos) own ext c' r →
      motive ((s.use n).saw result) (ks ++ ext₁) (c.awaited todos) own ext c' r →
      motive s ks c (own₁ ++ own) (ext₁ ++ ext) c' r)
    (await : ∀ s n ty req ks c own₁ todos result own ext c' r, n ∈ s.built → req.id = c.callId n →
      RemoteRuns sdk ty (c.position ++ [⟨n, false⟩]) c.slot req own₁ todos result →
      ScopedRuns d sdk ((s.use n).saw result) ks (c.awaited todos) own ext c' r →
      motive ((s.use n).saw result) ks (c.awaited todos) own ext c' r →
      motive s ks c (own₁ ++ own) ext c' r)
    (fork : ∀ s n req ks c kid own ext c' r, n ∈ s.built → Forked d sdk motive c n req kid →
      ScopedRuns d sdk ((s.use n).hold ⟨req.id, c.slot, ks.length⟩) (ks ++ [kid])
        (c.spawned req.id ks.length) own ext c' r →
      motive ((s.use n).hold ⟨req.id, c.slot, ks.length⟩) (ks ++ [kid]) (c.spawned req.id ks.length)
        own ext c' r → motive s ks c own (kid :: ext) c' r)
    (join : ∀ s h o ks c own ext c' r, h ∈ s.handles → (ks[h.task]?).bind Kid.result = some o →
      motive (s.saw (recv h.id o)) ks c own ext c' r → motive s ks c own ext c' r)
    {s : Scope} {ks : List Kid} {c : Context} {own : List Event} {ext : List Kid} {c' : Context}
    {r : Except Error Json} (h : ScopedRuns d sdk s ks c own ext c' r) :
    motive s ks c own ext c' r := by
  obtain ⟨b, hb, hc, h⟩ := h
  induction b generalizing s ks c own ext c' r with
  | ret result =>
    obtain ⟨rfl, rfl, rfl, rfl⟩ := h
    exact ret s ks c' r hb
  | panic msg => exact h.elim
  | user f ih =>
    obtain ⟨a, own', rfl, h⟩ := h
    exact quiet s ks c _ own' ext c' r trivial (ih a (hb a) hc h)
  | next f ih =>
    obtain ⟨hlt, hb⟩ := hb
    refine build s ks c own ext c' r (ih c.seq (by rw [hc]; exact hb) ?_ h)
    simp only [Context.advance, Scope.build, hc]
    omega
  | run n fn args timeout child f ihc ih =>
    obtain ⟨hn, hchild, hk⟩ := hb
    rw [Body.Runs] at h
    obtain ⟨now, own', rfl, h⟩ := h
    refine quiet s ks c _ own' ext c' r trivial ?_
    split at h
    · rename_i e hreq
      refine skip s n ks c own' ext c' r hn ?_
      have hb := hk (.error e)
      rw [Scope.saw_of_not (localCreateReq_error hreq)] at hb
      exact ih _ hb hc h
    · rename_i req hreq
      obtain ⟨own₁, ext₁, todos, result, own₂, ext₂, rfl, rfl, hrun, h⟩ := h
      refine run s n fn.ty fn.kind fn.name req ks c own₁ ext₁ todos result own₂ ext₂ c' r hn
        (localCreateReq_id hreq) (hrun.mono fun record own ext r t hX => hX.mono
          (fun own r => Body.LeafRuns.ends hchild) fun own ext c r hr => ⟨⟨child, hchild, rfl, hr⟩, ?_⟩)
        ⟨f result, hk result, hc, h⟩ ?_
      · exact ih _ (hk result) hc h
      · exact ihc hchild rfl hr
  | spawn n fn args timeout child f ihc ih =>
    obtain ⟨hn, hty, hchild, hke, hk⟩ := hb
    rw [Body.Runs] at h
    obtain ⟨now, own', rfl, h⟩ := h
    refine quiet s ks c _ own' ext c' r trivial ?_
    split at h
    · exact skip s n ks c own' ext c' r hn (ih _ (hke _) hc h)
    · rename_i req hreq
      obtain ⟨kid, ext', rfl, ⟨ownc, extc, htrace, hkid⟩, h⟩ := h
      refine fork s n req ks c kid own' ext' c' r hn
        (.run fn.ty fn.kind fn.name (localCreateReq_id hreq) hty ⟨ownc, extc, htrace, fun o ho =>
          (hkid o ho).mono fun record own ext r t hX => hX.mono
            (fun own r => Body.LeafRuns.ends hchild) fun own ext c r hr =>
              ⟨⟨child, hchild, rfl, hr⟩, ?_⟩⟩)
        ⟨_, hk _, hc, h⟩ ?_
      · exact ih _ (hk _) hc h
      · exact ihc hchild rfl hr
  | await n call f ih =>
    obtain ⟨hn, hk⟩ := hb
    rw [Body.Runs] at h
    obtain ⟨now, own', rfl, h⟩ := h
    refine quiet s ks c _ own' ext c' r trivial ?_
    split at h
    · rename_i e hreq
      refine skip s n ks c own' ext c' r hn ?_
      have hb := hk (.error e)
      rw [Scope.saw_of_not (remoteReq_error hreq)] at hb
      exact ih _ hb hc h
    · rename_i req hreq
      obtain ⟨own₁, todos, result, own₂, rfl, hrun, h⟩ := h
      exact await s n call.ty req ks c own₁ todos result own₂ ext c' r hn (remoteReq_id hreq) hrun
        ⟨_, hk result, hc, h⟩ (ih _ (hk result) hc h)
  | start n call f ih =>
    obtain ⟨hn, hke, hk⟩ := hb
    rw [Body.Runs] at h
    obtain ⟨now, own', rfl, h⟩ := h
    refine quiet s ks c _ own' ext c' r trivial ?_
    split at h
    · exact skip s n ks c own' ext c' r hn (ih _ (hke _) hc h)
    · rename_i req hreq
      obtain ⟨kid, ext', rfl, hkid, h⟩ := h
      exact fork s n req ks c kid own' ext' c' r hn (.remote call.ty (remoteReq_id hreq) hkid)
        ⟨_, hk _, hc, h⟩ (ih _ (hk _) hc h)
  | detach n func args timeout target f ih =>
    obtain ⟨hn, hke, hk⟩ := hb
    rw [Body.Runs] at h
    obtain ⟨now, own', rfl, h⟩ := h
    refine quiet s ks c _ own' ext c' r trivial ?_
    split at h
    · exact skip s n ks c own' ext c' r hn (ih _ (hke _) hc h)
    · rename_i req hreq
      obtain ⟨kid, ext', rfl, hkid, h⟩ := h
      exact fork s n req ks c kid own' ext' c' r hn (.detached hkid) ⟨_, hk _, hc, h⟩
        (ih _ (hk _) hc h)
  | join j f ih =>
    obtain ⟨hj, hk⟩ := hb
    obtain ⟨o, ho, h⟩ := h
    exact join s j o ks c own ext c' r hj ho (ih _ (hk _) hc h)
  | handleId j f ih =>
    obtain ⟨hj, hk⟩ := hb
    obtain ⟨x, own', rfl, h⟩ := h
    exact quiet s ks c _ own' ext c' r trivial (ih x (hk x) hc h)

end Induction

end Resonate
