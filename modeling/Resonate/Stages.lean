import Resonate.Positions
import Resonate.Core
import Resonate.Lib.Ownership

/-!
# What an execution owns

The calls below the position of a function are its own: it asks for the promise of each call
once, and settles it, if the call is local and its promise pending, once after that. The
calls of a spawned task are its own. What the commands are named is left open: `Naming` says
what the names have to keep to.
-/

namespace Resonate
open Lib Lib.ForkJoin

/-- A call that has its promise to be created, or to be settled. -/
inductive Stage where
  | todo | begun
deriving DecidableEq

abbrev numbers (p : Position) : List ℕ := p.map Call.number

/-- The numbers of a call, and the stage a durable operation finds it in. -/
def Cmd.stage : Cmd → Option (List ℕ × Stage)
  | .create _ position _ _ => some (numbers position, .todo)
  | .settle position _ _ => some (numbers position, .begun)
  | _ => none

def Cmd.begins : (c : Cmd) → c.Answer → Option Stage
  | .create .run _ _ _, .ok record => if record.state = .pending then some .begun else none
  | _, _ => none

def usage (counted : Bool) : Usage Cmd Cmd.Answer (List ℕ) Stage :=
  ⟨fun c => if counted then c.stage else none, Cmd.begins⟩

theorem creation_stage (c : Cmd) (x : List ℕ) (h : c.creation = some x) :
    (usage true).needs c = some (x, .todo) := by
  cases c <;> cases h
  rfl

theorem begins_ne_todo (c : Cmd) (a : c.Answer) : c.begins a ≠ some .todo := by
  intro h
  unfold Cmd.begins at h
  split at h
  · split_ifs at h
    cases h
  · cases h

abbrev Tokens := Set (List ℕ × Stage)

def Cmd.Names (P : Cmd → Prop) : Cmd → Prop
  | .create kind position slot req => P (.create kind position slot req)
  | .settle position id result => P (.settle position id result)
  | .effects id version preload => P (.effects id version preload)
  | _ => True

abbrev Owned (P : Cmd → Prop) (counted : Bool) (p : Prog) (S : Tokens) : Prop :=
  p.Owns (Cmd.Names P) (usage counted) S

def below (counted : Bool) (p : Position) (L : ℕ → Prop) : Tokens :=
  {t | counted = true ∧ t.2 = .todo ∧ ∃ n rest, t.1 = numbers p ++ n :: rest ∧ L n}

def begun (counted : Bool) (p : Position) : Tokens :=
  {t | counted = true ∧ t = (numbers p, .begun)}

section Below

variable {counted : Bool} {p : Position} {n : ℕ} {sp : Bool} {L L' : ℕ → Prop} {R : Tokens}

theorem below_mono (h : counted = true → ∀ n, L n → L' n) :
    below counted p L ⊆ below counted p L' := by
  rintro t ⟨hc, ht, n, rest, heq, hn⟩
  exact ⟨hc, ht, n, rest, heq, h hc n hn⟩

theorem below_call : below counted (p ++ [⟨n, sp⟩]) L ⊆ below counted p (· = n) := by
  rintro t ⟨hc, ht, m, rest, heq, -⟩
  exact ⟨hc, ht, n, m :: rest, by simp [heq], rfl⟩

theorem apart_begun (h : Apart (below counted p (· = n)) R) :
    Apart (below counted (p ++ [⟨n, sp⟩]) L) (begun counted (p ++ [⟨n, sp⟩]) ∪ R) := by
  refine Apart.union ?_ (h.mono below_call fun _ ht => ht)
  rintro x m m' ⟨-, -, k, rest, heq, -⟩ ⟨-, ht⟩
  obtain ⟨rfl, -⟩ := Prod.mk.inj ht
  simp at heq

theorem apart_call {s : Scope} (hn : counted = true → n ∈ s.built)
    (hd : Apart (below counted p s.Left) R) :
    below counted p (· = n) ⊆ below counted p s.Left ∧
      Apart (below counted p (· = n)) (below counted p (s.use n).Left ∪ R) ∧
      Apart (below counted p (s.use n).Left) R ∧
      below counted p (s.use n).Left ⊆ below counted p s.Left := by
  have hcall : below counted p (· = n) ⊆ below counted p s.Left := by
    refine below_mono fun hc m hm => ?_
    rw [hm]
    exact Or.inl (hn hc)
  have hrest : below counted p (s.use n).Left ⊆ below counted p s.Left :=
    below_mono fun hc m hm => ((Scope.left_use (hn hc)).mp hm).1
  refine ⟨hcall, Apart.union ?_ (hd.mono hcall fun _ ht => ht), hd.mono hrest fun _ ht => ht, hrest⟩
  rintro x m m' ⟨hc, -, k, rest, heq, rfl⟩ ⟨-, -, k', rest', heq', hk'⟩
  obtain ⟨rfl, -⟩ := List.cons.inj (List.append_cancel_left (heq.symm.trans heq'))
  exact ((Scope.left_use (hn hc)).mp hk').2 rfl

end Below

section Calls

variable {P : Cmd → Prop} {counted : Bool} {p : Position} {n : ℕ} {sp : Bool} {slot : Slot}
  {req : PromiseCreateReq} {sdk : Sdk} {ty : Ty} {S T : Tokens}

theorem usage_none {c : Cmd} (h : c.stage = none) : (usage counted).needs c = none := by
  cases counted
  · rfl
  · exact h

theorem quiet_owned {c : Cmd} {k : c.Answer → Prog} (hP : c.Names P) (hc : c.stage = none)
    (hk : ∀ a, Owned P counted (k a) S) : Owned P counted (.call c k) S :=
  Proc.Owns.call_none hP (usage_none hc) hk

theorem ret_owned {o : End} : Owned P counted (.ret o) S := trivial

def granted (counted : Bool) (c : Cmd) (x : List ℕ) (a : c.Answer) : Tokens :=
  {t | counted = true ∧ t.1 = x ∧ c.begins a = some t.2}

theorem staged_owned {c : Cmd} {x : List ℕ} {m : Stage} {k : c.Answer → Prog}
    (hP : c.Names P) (hc : c.stage = some (x, m)) (hT : counted = true → (x, m) ∈ T)
    (hS : ∀ t ∈ S, t ∈ T ∧ (counted = true → t.1 ≠ x))
    (hk : ∀ a, Owned P counted (k a) (granted counted c x a ∪ S)) :
    Owned P counted (.call c k) T := by
  cases counted with
  | false =>
    refine Proc.Owns.call_none hP rfl fun a => (hk a).mono fun t ht => ?_
    rcases ht with ⟨hf, -⟩ | ht
    · cases hf
    · exact (hS t ht).1
  | true =>
    refine ⟨hP, fun t ht => ?_, fun a => (hk a).mono fun t ht => (Usage.mem_after hc a).mpr ?_⟩
    · obtain rfl := Option.some.inj (hc.symm.trans ht)
      exact hT rfl
    · rcases ht with ⟨-, hx, hb⟩ | ht
      · exact Or.inr ⟨hx, hb⟩
      · exact Or.inl ⟨(hS t ht).1, (hS t ht).2 rfl⟩

theorem create_owned {kind : CallKind} {k : Except Error PromiseRecord → Prog}
    (hm : P (.create kind (p ++ [⟨n, sp⟩]) slot req))
    (hd : Apart (below counted p (· = n)) S)
    (hk : ∀ a, Owned P counted (k a) (granted counted
      (.create kind (p ++ [⟨n, sp⟩]) slot req) (numbers (p ++ [⟨n, sp⟩])) a ∪
        (below counted (p ++ [⟨n, sp⟩]) (fun _ => True) ∪ S))) :
    Owned P counted (.call (.create kind (p ++ [⟨n, sp⟩]) slot req) k)
      (below counted p (· = n) ∪ S) := by
  have htodo : counted = true →
      (numbers (p ++ [⟨n, sp⟩]), Stage.todo) ∈ below counted p (· = n) :=
    fun hc => ⟨hc, rfl, n, [], by simp, rfl⟩
  refine staged_owned hm rfl (fun hc => Or.inl (htodo hc)) (fun t ht => ?_) hk
  rcases ht with ht | ht
  · refine ⟨Or.inl (below_call ht), fun _ heq => ?_⟩
    obtain ⟨-, -, m, rest, ht, -⟩ := ht
    simp [heq] at ht
  · exact ⟨Or.inr ht, fun hc heq => hd _ _ t.2 (htodo hc) (heq ▸ ht)⟩

theorem settle_owned {id : String} {result : Except Error (Except String Json)}
    {k : Except Error PromiseRecord → Prog} (hid : P (.settle p id result))
    (hd : ∀ m, counted = true → (numbers p, m) ∉ S)
    (hk : ∀ a, Owned P counted (k a) S) :
    Owned P counted (.call (.settle p id result) k) (begun counted p ∪ S) := by
  refine staged_owned hid rfl (fun hc => Or.inl ⟨hc, rfl⟩) (fun t ht => ⟨Or.inr ht, fun hc heq => ?_⟩)
    fun a => (hk a).mono Set.subset_union_right
  exact hd t.2 hc (heq ▸ ht)

theorem begun_granted {record : PromiseRecord} (h : record.state = .pending) :
    begun counted p ⊆ granted counted (.create .run p slot req) (numbers p) (.ok record) := by
  rintro t ⟨hc, rfl⟩
  exact ⟨hc, rfl, by simp [Cmd.begins, h]⟩

theorem flushLocalWork_owned {k : Except Error (List String) → Prog}
    (hk : ∀ x, Owned P counted (k x) S) (hs : List (String × ℕ)) (todos : List String)
    (err : Option Error) : Owned P counted (flushLocalWork hs todos err k) S := by
  induction hs generalizing todos err with
  | nil => cases err <;> exact hk _
  | cons h hs ih =>
    rw [flushLocalWork_cons]
    exact fun o => ih _ _

theorem collectRemoteTodos_owned {c : Context} {k : Except Error (List String) → Prog}
    (hk : ∀ x, Owned P counted (k x) S) :
    Owned P counted (c.collectRemoteTodos k) S :=
  flushLocalWork_owned (fun _ => hk _) _ _ _

theorem leaf_owned {panicked : String → Prog} (b : Body) {k : Except Error Json → Prog}
    (hk : ∀ r, Owned P counted (k r) S)
    (hpanic : ∀ msg, Owned P counted (panicked msg) S) :
    Owned P counted (b.leaf panicked k) S := by
  induction b with
  | ret result => exact hk result
  | user f ih => exact quiet_owned trivial rfl fun a => ih a
  | _ => exact quiet_owned trivial rfl fun _ => hpanic _

theorem executeChild_owned {kind : DurableKind} {id : String}
    {leaf : (Except Error Json → Prog) → Prog}
    {workflow : (Context → Except Error Json → Prog) → Prog}
    {k : Except Error Json → Except Error (List String) → Prog}
    (hleaf : ∀ m, (∀ r, Owned P counted (m r) S) → Owned P counted (leaf m) T)
    (hflow : ∀ m, (∀ c r, Owned P counted (m c r) S) →
      Owned P counted (workflow m) T)
    (hk : ∀ r t, Owned P counted (k r t) S) :
    Owned P counted (executeChild kind id leaf workflow k) T := by
  refine quiet_owned trivial rfl fun _ => ?_
  cases kind with
  | function => exact hleaf _ fun r => hk r _
  | workflow => exact hflow _ fun c r => collectRemoteTodos_owned fun t => hk r t

def ExecutesOwned (P : Cmd → Prop) (counted : Bool) (p : Position) (S : Tokens)
    (execute : PromiseRecord → (Except Error Json → Except Error (List String) → Prog) → Prog) : Prop :=
  ∀ record m, (∀ r t, Owned P counted (m r t) S) →
    Owned P counted (execute record m) (below counted p (fun _ => True) ∪ S)

theorem runIntoFuture_owned {k : List String → Except Error Json → Prog}
    {execute : PromiseRecord → (Except Error Json → Except Error (List String) → Prog) → Prog}
    (hm : P (.create .run (p ++ [⟨n, sp⟩]) slot req))
    (hs : ∀ result, P (.settle (p ++ [⟨n, sp⟩]) req.id result))
    (hd : Apart (below counted p (· = n)) S)
    (hexec : ExecutesOwned P counted (p ++ [⟨n, sp⟩])
      (begun counted (p ++ [⟨n, sp⟩]) ∪ S) execute)
    (hk : ∀ todos r, Owned P counted (k todos r) S) :
    Owned P counted (runIntoFuture sdk ty (p ++ [⟨n, sp⟩]) slot req execute k)
      (below counted p (· = n) ∪ S) := by
  have hapart : ∀ m, counted = true → (numbers (p ++ [⟨n, sp⟩]), m) ∉ S :=
    fun m hc => hd _ Stage.todo m ⟨hc, rfl, n, [], by simp, rfl⟩
  refine create_owned hm hd fun a => ?_
  cases a with
  | error e => exact (hk _ _).mono (Set.subset_union_right.trans Set.subset_union_right)
  | ok record =>
    dsimp only
    cases hres : record.asResult sdk.codec ty with
    | some result => exact (hk _ _).mono (Set.subset_union_right.trans Set.subset_union_right)
    | none =>
      refine (hexec record _ fun r t => ?_).mono fun t ht => ?_
      · split
        · exact (hk _ _).mono Set.subset_union_right
        · refine settle_owned (hs _) hapart fun a => ?_
          cases a <;> exact hk _ _
        · exact (hk _ _).mono Set.subset_union_right
      · rcases ht with ht | ht | ht
        · exact Or.inr (Or.inl ht)
        · exact Or.inl (begun_granted (PromiseRecord.asResult_eq_none.mp hres) ht)
        · exact Or.inr (Or.inr ht)

theorem blockOnRemote_owned {k : List String → Except Error Json → Prog}
    (hm : P (.create .remote (p ++ [⟨n, sp⟩]) slot req))
    (hd : Apart (below counted p (· = n)) S)
    (hk : ∀ todos r, Owned P counted (k todos r) S) :
    Owned P counted (blockOnRemote sdk ty (p ++ [⟨n, sp⟩]) slot req k)
      (below counted p (· = n) ∪ S) := by
  refine create_owned hm hd fun a =>
    Proc.Owns.mono ?_ (Set.subset_union_right.trans Set.subset_union_right)
  cases a with
  | error e => exact hk _ _
  | ok record =>
    dsimp only
    split <;> exact hk _ _

theorem spawnSequenced_owned {kind : CallKind} {onCreated : PromiseRecord → Prog}
    (hm : P (.create kind (p ++ [⟨n, sp⟩]) slot req))
    (hk : ∀ record, Owned P counted (onCreated record) (granted counted
      (.create kind (p ++ [⟨n, sp⟩]) slot req) (numbers (p ++ [⟨n, sp⟩])) (.ok record) ∪
        below counted (p ++ [⟨n, sp⟩]) (fun _ => True))) :
    Owned P counted (spawnSequenced kind (p ++ [⟨n, sp⟩]) slot req onCreated)
      (below counted p (· = n)) := by
  rw [← Set.union_empty (below counted p (· = n))]
  refine create_owned hm (Apart.empty _) fun a => ?_
  rw [Set.union_empty]
  cases a with
  | error e => exact ret_owned
  | ok record => exact hk record

theorem finishSpawned_owned {id : String} (hs : ∀ result, P (.settle p id result))
    (r : Except Error Json) (t : Except Error (List String)) :
    Owned P counted (finishSpawned ty p id r t) (begun counted p ∪ ∅) := by
  cases t with
  | error e => exact ret_owned
  | ok todos =>
    unfold finishSpawned
    dsimp only
    split_ifs
    · exact ret_owned
    · split
      · exact settle_owned (hs _) (fun _ _ h => h) fun _ => ret_owned
      · exact ret_owned

theorem spawnedRun_owned {id : String} {record : PromiseRecord}
    {execute : PromiseRecord → (Except Error Json → Except Error (List String) → Prog) → Prog}
    (hs : ∀ result, P (.settle p id result))
    (hexec : ExecutesOwned P counted p (begun counted p ∪ ∅) execute) :
    Owned P counted (spawnedRun sdk ty p id execute record)
      (granted counted (.create .run p slot req) (numbers p) (.ok record) ∪
        below counted p (fun _ => True)) := by
  unfold spawnedRun
  split
  · split <;> exact ret_owned
  · rename_i hpend
    refine (hexec record _ fun r t => finishSpawned_owned hs r t).mono fun t ht => ?_
    rcases ht with ht | ht | ht
    · exact Or.inr ht
    · exact Or.inl (begun_granted hpend ht)
    · exact ht.elim
  · exact ret_owned

theorem spawnedRemote_owned {id : String} {record : PromiseRecord} :
    Owned P counted (spawnedRemote sdk ty id record) S := by
  unfold spawnedRemote
  split <;> exact ret_owned

end Calls

structure Naming (sdk : Sdk) (P : Cmd → Prop) (G : Context → Prop) : Prop where
  same : ∀ c c', G c → c'.position = c.position → c'.id = c.id → c'.originId = c.originId →
    c'.branchId = c.branchId → G c'
  child : ∀ c n sp name timeoutAt, G c → G (c.child (c.callId n) name timeoutAt ⟨n, sp⟩)
  run : ∀ c n sp slot args timeout now req, G c →
    c.localCreateReq (c.callId n) args timeout now = .ok req →
    P (.create .run (c.position ++ [⟨n, sp⟩]) slot req) ∧
      ∀ result, P (.settle (c.position ++ [⟨n, sp⟩]) req.id result)
  remote : ∀ c n sp slot call now req, G c → c.remoteReq sdk (c.callId n) now call = .ok req →
    P (.create .remote (c.position ++ [⟨n, sp⟩]) slot req)
  detached : ∀ c n slot func args timeout target now req, G c →
    c.detachedReq sdk n func args timeout target now = .ok req →
    P (.create .detached (c.position ++ [⟨n, true⟩]) slot req)

section Executions

variable {sdk : Sdk} {P : Cmd → Prop} {G : Context → Prop} {counted : Bool} {d : Discipline}
  {c : Context} {n : ℕ} {sp : Bool} {req : PromiseCreateReq} {R S : Tokens} {s : Scope}

theorem childSet_eq (p : Position) :
    below counted p (fun _ => True) = below counted p Scope.start.Left := by
  simp [below, Scope.Left, Scope.start]

theorem fork_owned {child : Prog} {k : ℕ → Prog} (hn : counted = true → n ∈ s.built)
    (hd : Apart (below counted c.position s.Left) R)
    (hchild : Owned P counted child (below counted c.position (· = n)))
    (hk : ∀ i, Owned P counted (k i) (below counted c.position (s.use n).Left ∪ R)) :
    Owned P counted (.fork child k) (below counted c.position s.Left ∪ R) := by
  obtain ⟨hcall, hcalld, -, hrest⟩ := apart_call hn hd
  refine ⟨_, hcall.trans Set.subset_union_left, hchild, fun i => (hk i).mono fun t ht => ⟨?_, ?_⟩⟩
  · exact ht.imp (fun h => hrest h) id
  · exact fun m hm => hcalld t.1 m t.2 hm ht

theorem awaited_owned {p : Prog} (hn : counted = true → n ∈ s.built)
    (hd : Apart (below counted c.position s.Left) R)
    (hp : Owned P counted p
      (below counted c.position (· = n) ∪ (below counted c.position (s.use n).Left ∪ R))) :
    Owned P counted p (below counted c.position s.Left ∪ R) := by
  obtain ⟨hcall, -, -, hrest⟩ := apart_call hn hd
  exact hp.mono (Set.union_subset (hcall.trans Set.subset_union_left)
    (Set.union_subset_union_left R hrest))

def Body.ExecutesIn (b : Body) (sdk : Sdk) (P : Cmd → Prop) (G : Context → Prop) (counted : Bool)
    (d : Discipline) : Prop :=
  ∀ c s R panicked k, G c →
    (counted = true → b.Keeps d c.position s ∧ c.seq = s.seq) →
    Apart (below counted c.position s.Left) R →
    (∀ msg, Owned P counted (panicked msg) R) →
    (∀ c' r, Owned P counted (k c' r) R) →
    Owned P counted (b.exec sdk panicked c k) (below counted c.position s.Left ∪ R)

theorem child_owned {child : Body} {kind : DurableKind} {id name : String} {panicked : String → Prog}
    (ih : child.ExecutesIn sdk P G counted d) (hN : Naming sdk P G) (hc : G c)
    (hid : req.id = c.callId n)
    (hb : counted = true → child.Keeps d (c.position ++ [⟨n, sp⟩]) .start)
    (hd : Apart (below counted c.position (· = n)) S)
    (hpanic : ∀ msg, Owned P counted (panicked msg) S) :
    ExecutesOwned P counted (c.position ++ [⟨n, sp⟩]) (begun counted (c.position ++ [⟨n, sp⟩]) ∪ S)
      fun record =>
      executeChild kind id (child.leaf panicked)
        (child.exec sdk panicked (c.child req.id name record.timeoutAt ⟨n, sp⟩)) := by
  intro record m hm
  have hpanic' : ∀ msg, Owned P counted (panicked msg) (begun counted (c.position ++ [⟨n, sp⟩]) ∪ S) :=
    fun msg => (hpanic msg).mono Set.subset_union_right
  refine executeChild_owned (fun m' hm' => ?_) (fun m' hm' => ?_) hm
  · exact (leaf_owned child hm' hpanic').mono Set.subset_union_right
  · rw [childSet_eq, hid]
    exact ih _ .start _ panicked m' (hN.child c n sp name record.timeoutAt hc) (fun h => ⟨hb h, rfl⟩)
      (apart_begun hd) hpanic' hm'

theorem Body.ExecutesIn.rest {b : Body} {s' : Scope} {panicked : String → Prog}
    {k : Context → Except Error Json → Prog} (ih : b.ExecutesIn sdk P G counted d)
    (hN : Naming sdk P G) (c' : Context) (hc : G c) (hn : counted = true → n ∈ s.built)
    (hb : counted = true → b.Keeps d c.position s' ∧ c.seq = s.seq)
    (hd : Apart (below counted c.position s.Left) R)
    (hpanic : ∀ msg, Owned P counted (panicked msg) R)
    (hk : ∀ c' r, Owned P counted (k c' r) R)
    (hs : s'.Left = (s.use n).Left) (hseq : s'.seq = s.seq)
    (hc' : c'.position = c.position ∧ c'.id = c.id ∧ c'.originId = c.originId ∧
      c'.branchId = c.branchId ∧ c'.seq = c.seq) :
    Owned P counted (b.exec sdk panicked c' k)
      (below counted c.position (s.use n).Left ∪ R) := by
  obtain ⟨hpos, hid, horigin, hbranch, hseq'⟩ := hc'
  obtain ⟨-, -, hrestd, -⟩ := apart_call hn hd
  have hc'' : G c' := hN.same c c' hc hpos hid horigin hbranch
  have h := ih c' s' R panicked k hc'' (fun h => ?_) (by rwa [hpos, hs]) hpanic hk
  · rwa [hpos, hs] at h
  · rw [hpos, hseq', hseq]
    exact hb h

/-- The execution of a function asks, within its scope, for the promises of its own calls, and
for each of them once. -/
theorem Body.executesIn (hN : Naming sdk P G) (b : Body) : b.ExecutesIn sdk P G counted d := by
  induction b with
  | ret result =>
    intro c s R panicked k hc hb hd hpanic hk
    exact (hk c result).mono Set.subset_union_right
  | panic msg =>
    intro c s R panicked k hc hb hd hpanic hk
    exact quiet_owned trivial rfl fun _ => (hpanic msg).mono Set.subset_union_right
  | user f ih =>
    intro c s R panicked k hc hb hd hpanic hk
    exact quiet_owned trivial rfl fun a =>
      ih a c s R panicked k hc (fun h => ⟨(hb h).1 a, (hb h).2⟩) hd hpanic hk
  | next f ih =>
    intro c s R panicked k hc hb hd hpanic hk
    have hleft : s.build.Left = s.Left := funext fun m => propext Scope.left_build
    rw [← hleft] at hd ⊢
    refine ih c.seq c.advance s.build R panicked k (hN.same c _ hc rfl rfl rfl rfl) (fun h => ?_) hd
      hpanic hk
    obtain ⟨⟨hlt, hkeeps⟩, hseq⟩ := hb h
    refine ⟨hseq ▸ hkeeps, ?_⟩
    rw [Context.advance, hseq, Nat.mod_eq_of_lt hlt]
    rfl
  | run seq fn args timeout child f ihc ih =>
    intro c s R panicked k hc hb hd hpanic hk
    have hn : counted = true → seq ∈ s.built := fun h => (hb h).1.1
    obtain ⟨-, hcalld, -, -⟩ := apart_call hn hd
    have hrest := fun r c' => (ih r).rest hN c' hc hn
      (fun h => ⟨(hb h).1.2.2 r, (hb h).2⟩) hd hpanic hk rfl rfl
    rw [exec]
    refine quiet_owned trivial rfl fun now => awaited_owned hn hd ?_
    dsimp only
    split
    · exact (hrest _ c ⟨rfl, rfl, rfl, rfl, rfl⟩).mono Set.subset_union_right
    · rename_i req hreq
      obtain ⟨hname, hsettle⟩ := hN.run c seq false c.slot _ _ _ req hc hreq
      refine runIntoFuture_owned hname hsettle hcalld ?_
        fun todos r => hrest r _ ⟨rfl, rfl, rfl, rfl, rfl⟩
      exact child_owned ihc hN hc (localCreateReq_id hreq) (fun h => (hb h).1.2.1) hcalld
        fun msg => (hpanic msg).mono Set.subset_union_right
  | spawn seq fn args timeout child f ihc ih =>
    intro c s R panicked k hc hb hd hpanic hk
    have hn : counted = true → seq ∈ s.built := fun h => (hb h).1.1
    rw [exec]
    refine quiet_owned trivial rfl fun now => ?_
    dsimp only
    split
    · exact awaited_owned hn hd (((ih _).rest hN _ hc hn (fun h => ⟨(hb h).1.2.2.2.1 _, (hb h).2⟩) hd
        hpanic hk rfl rfl ⟨rfl, rfl, rfl, rfl, rfl⟩).mono Set.subset_union_right)
    · rename_i req hreq
      obtain ⟨hname, hsettle⟩ := hN.run c seq true c.slot _ _ _ req hc hreq
      refine fork_owned hn hd (spawnSequenced_owned hname fun record => ?_) fun i => ?_
      · exact spawnedRun_owned hsettle (child_owned ihc hN hc (localCreateReq_id hreq)
          (fun h => (hb h).1.2.2.1) (Apart.empty _) fun _ => ret_owned)
      · exact (ih _).rest hN _ hc hn (fun h => ⟨(hb h).1.2.2.2.2 _, (hb h).2⟩) hd hpanic hk rfl rfl
          ⟨rfl, rfl, rfl, rfl, rfl⟩
  | await seq call f ih =>
    intro c s R panicked k hc hb hd hpanic hk
    have hn : counted = true → seq ∈ s.built := fun h => (hb h).1.1
    obtain ⟨-, hcalld, -, -⟩ := apart_call hn hd
    have hrest := fun r c' => (ih r).rest hN c' hc hn
      (fun h => ⟨(hb h).1.2 r, (hb h).2⟩) hd hpanic hk rfl rfl
    rw [exec]
    refine quiet_owned trivial rfl fun now => awaited_owned hn hd ?_
    dsimp only
    split
    · exact (hrest _ c ⟨rfl, rfl, rfl, rfl, rfl⟩).mono Set.subset_union_right
    · rename_i req hreq
      exact blockOnRemote_owned (hN.remote c seq false c.slot call now req hc hreq) hcalld
        fun todos r => hrest r _ ⟨rfl, rfl, rfl, rfl, rfl⟩
  | start seq call f ih =>
    intro c s R panicked k hc hb hd hpanic hk
    have hn : counted = true → seq ∈ s.built := fun h => (hb h).1.1
    rw [exec]
    refine quiet_owned trivial rfl fun now => ?_
    dsimp only
    split
    · exact awaited_owned hn hd (((ih _).rest hN _ hc hn (fun h => ⟨(hb h).1.2.1 _, (hb h).2⟩) hd
        hpanic hk rfl rfl ⟨rfl, rfl, rfl, rfl, rfl⟩).mono Set.subset_union_right)
    · rename_i req hreq
      refine fork_owned hn hd (spawnSequenced_owned
        (hN.remote c seq true c.slot call now req hc hreq) fun _ => spawnedRemote_owned) fun i => ?_
      exact (ih _).rest hN _ hc hn (fun h => ⟨(hb h).1.2.2 _, (hb h).2⟩) hd hpanic hk rfl rfl
        ⟨rfl, rfl, rfl, rfl, rfl⟩
  | detach seq func args timeout target f ih =>
    intro c s R panicked k hc hb hd hpanic hk
    have hn : counted = true → seq ∈ s.built := fun h => (hb h).1.1
    rw [exec]
    refine quiet_owned trivial rfl fun now => ?_
    dsimp only
    split
    · exact awaited_owned hn hd (((ih _).rest hN _ hc hn (fun h => ⟨(hb h).1.2.1 _, (hb h).2⟩) hd
        hpanic hk rfl rfl ⟨rfl, rfl, rfl, rfl, rfl⟩).mono Set.subset_union_right)
    · rename_i req hreq
      refine fork_owned hn hd (spawnSequenced_owned
        (hN.detached c seq c.slot func args timeout target now req hc hreq) fun _ => ret_owned)
        fun i => ?_
      exact (ih _).rest hN _ hc hn (fun h => ⟨(hb h).1.2.2 _, (hb h).2⟩) hd hpanic hk rfl rfl
        ⟨rfl, rfl, rfl, rfl, rfl⟩
  | join h f ih =>
    intro c s R panicked k hc hb hd hpanic hk
    exact fun o => ih _ c (s.saw (recv h.id o)) R panicked k hc
      (fun h => ⟨(hb h).1.2 _, (hb h).2⟩) hd hpanic hk
  | handleId h f ih =>
    intro c s R panicked k hc hb hd hpanic hk
    exact quiet_owned trivial rfl fun a =>
      ih a c s R panicked k hc (fun h => ⟨(hb h).1.2 a, (hb h).2⟩) hd hpanic hk

theorem Core.execute_owned {core : Core} {promise : PromiseRecord} {taskId : String} {version : Int}
    {entry : RegistryEntry} {data : TaskData} (counted : Bool) (hN : Naming core.sdk P G)
    (he : ∀ preload, P (.effects taskId version preload)) (hp : G (Core.rootContext promise data))
    (hb : counted = true → entry.kind = .workflow → (entry.func data.args).Keeps d [] .start)
    (hd : Apart (below counted [] Scope.start.Left) R) (preload : List PromiseRecord)
    {k : Except Error (Except Error Json × List String) → Prog}
    (hk : ∀ res, Owned P counted (k res) R) :
    Owned P counted (core.execute taskId version promise entry data preload k)
      (below counted [] Scope.start.Left ∪ R) := by
  unfold Core.execute
  split
  · exact (leaf_owned _ (fun r => hk _) fun msg => hk _).mono Set.subset_union_right
  · rename_i hkind
    refine quiet_owned (he preload) rfl fun _ => ?_
    exact Body.executesIn hN _ _ .start R _ _ hp (fun h => ⟨hb h hkind, rfl⟩) hd
      (fun msg => hk _) fun c r => collectRemoteTodos_owned fun todos => hk _

end Executions

end Resonate
