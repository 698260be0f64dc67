import Resonate.Positions
import Resonate.Dispatch

/-!
# The lineage of ids

A call names its promise by its number, below the id of its context; a detached call by
the hash of that id, directly below the origin. The ids of a tree all start with its
origin, and an id tells the calls that lead to it, as far as the hash tells the ids it is
applied to.
-/

namespace Resonate
open Lib

def hashId (seahash : ByteArray → UInt64) (s : String) : String :=
  String.ofList ((List.range 16).map fun i =>
    Nat.digitChar ((seahash s.toUTF8).toNat / 16 ^ (15 - i) % 16))

section Segments

def Segment (s : String) : Prop := ∀ c ∈ s.toList, ¬ (c = originSep ∨ c = lineageSep)

theorem segment_toString (n : ℕ) : Segment (toString n) := toString_digits n

theorem segment_hashId (seahash : ByteArray → UInt64) (s : String) :
    Segment ("d" ++ hashId seahash s) := by
  have hdigit : ∀ d < 16, ¬ (Nat.digitChar d = originSep ∨ Nat.digitChar d = lineageSep) := by decide
  intro c hc
  rw [String.toList_append, List.mem_append] at hc
  rcases hc with hc | hc
  · obtain rfl : c = 'd' := by simpa using hc
    decide
  · rw [hashId, String.toList_ofList, List.mem_map] at hc
    obtain ⟨i, -, rfl⟩ := hc
    exact hdigit _ (Nat.mod_lt _ (by omega))

theorem toList_joinId (a s : String) : ∃ sep, (sep = originSep ∨ sep = lineageSep) ∧
    (joinId a s).toList = a.toList ++ sep :: s.toList := by
  refine ⟨if a.toList.contains originSep then lineageSep else originSep, ?_, by simp [joinId]⟩
  split
  · exact Or.inr rfl
  · exact Or.inl rfl

theorem joinId_inj_of_segment {a b s t : String} (hs : Segment s) (ht : Segment t)
    (h : joinId a s = joinId b t) : a = b ∧ s = t := by
  obtain ⟨x, hx, ha⟩ := toList_joinId a s
  obtain ⟨y, hy, hb⟩ := toList_joinId b t
  rw [h, hb] at ha
  obtain ⟨hab, hst⟩ := split_at_last ha hy hx ht hs
  exact ⟨String.toList_inj.mp hab.symm, String.toList_inj.mp hst.symm⟩

theorem originOf_joinId (a s : String) : originOf (joinId a s) = originOf a := by
  rw [originOf, originOf]
  congr 1
  by_cases ha : originSep ∈ a.toList
  · rw [joinId, String.toList_ofList, List.takeWhile_append, if_neg]
    intro hlen
    have hall := List.takeWhile_eq_self_iff.mp
      ((List.takeWhile_sublist _).eq_of_length hlen)
    exact absurd (hall _ ha) (by simp)
  · have hall : ∀ c ∈ a.toList, decide (c ≠ originSep) = true := by
      intro c hc
      simp only [decide_eq_true_eq]
      rintro rfl
      exact ha hc
    rw [joinId, String.toList_ofList, List.takeWhile_append_of_pos hall,
      List.takeWhile_eq_self_iff.mpr hall]
    simp [ha]

theorem originSep_mem_joinId (a s : String) : originSep ∈ (joinId a s).toList := by
  by_cases ha : originSep ∈ a.toList
  · simp [joinId, ha]
  · simp [joinId, ha]

theorem toString_ne_detached (n : ℕ) (s : String) : toString n ≠ "d" ++ s := by
  intro heq
  have hd : 'd' ∈ (toString n).toList := by simp [heq]
  have hdigit : 'd'.isDigit :=
    Nat.isDigit_of_mem_toDigits (by decide) (by decide) (Nat.toList_repr ▸ hd)
  exact absurd hdigit (by decide)

theorem validateRootId_ok {id : String} (h : validateRootId id = .ok ()) :
    originSep ∉ id.toList := by
  rw [validateRootId] at h
  split_ifs at h with h₁ h₂ h₃
  simpa using h₃

theorem originOf_self {id : String} (h : originSep ∉ id.toList) : originOf id = id := by
  rw [originOf, List.takeWhile_eq_self_iff.mpr, String.ofList_toList]
  intro c hc
  simp only [decide_eq_true_eq]
  rintro rfl
  exact h hc

end Segments

/-- A call, from the context it is made in: by its number, or detached. -/
inductive Hop where
  | call (n : ℕ)
  | detached (n : ℕ)
deriving DecidableEq

def Hop.number : Hop → ℕ
  | call n | detached n => n

abbrev Lineage := List Hop

section Lineages

variable (hash : String → String) (root : String)

def Hop.mint (id : String) : Hop → String
  | call n => joinId id (toString n)
  | detached n => joinId root ("d" ++ hash (joinId id (toString n)))

def idAt (w : Lineage) : String := w.foldl (fun id hop => hop.mint hash root id) root

/-- The ids that the detached calls of a lineage are named after. -/
def rawIds (w : Lineage) : Set String :=
  {x | ∃ v n, v ++ [.detached n] <+: w ∧ x = joinId (idAt hash root v) (toString n)}

variable {hash root} {w w' : Lineage} {hop : Hop}

@[simp] theorem idAt_nil : idAt hash root [] = root := rfl

theorem idAt_append : idAt hash root (w ++ [hop]) = hop.mint hash root (idAt hash root w) := by
  simp [idAt]

theorem originOf_idAt (hroot : originSep ∉ root.toList) : originOf (idAt hash root w) = root := by
  induction w using List.reverseRecOn with
  | nil => exact originOf_self hroot
  | append_singleton w hop ih =>
    rw [idAt_append]
    cases hop with
    | call n => rw [Hop.mint, originOf_joinId, ih]
    | detached n => rw [Hop.mint, originOf_joinId, originOf_self hroot]

theorem originSep_mem_mint (id : String) : originSep ∈ (hop.mint hash root id).toList := by
  cases hop <;> exact originSep_mem_joinId _ _

theorem rawIds_append : rawIds hash root w ⊆ rawIds hash root (w ++ [hop]) := by
  rintro x ⟨v, n, hv, rfl⟩
  exact ⟨v, n, hv.trans (List.prefix_append w [hop]), rfl⟩

theorem mem_rawIds (w : Lineage) (n : ℕ) :
    joinId (idAt hash root w) (toString n) ∈ rawIds hash root (w ++ [.detached n]) :=
  ⟨w, n, List.prefix_rfl, rfl⟩

/-- Ids of one tree, or of trees with different roots, meet only at one position. -/
theorem idAt_inj {root' : String} (hseg : ∀ s, Segment ("d" ++ hash s))
    (hroot : originSep ∉ root.toList) (hroot' : originSep ∉ root'.toList)
    (hinj : Set.InjOn hash (rawIds hash root w ∪ rawIds hash root' w'))
    (h : idAt hash root w = idAt hash root' w') : root = root' ∧ w = w' := by
  obtain rfl : root = root' := by
    have horigin : originOf (idAt hash root w) = root := originOf_idAt hroot
    rw [← horigin, h, originOf_idAt hroot']
  refine ⟨rfl, ?_⟩
  induction w using List.reverseRecOn generalizing w' with
  | nil =>
    rcases w'.eq_nil_or_concat with rfl | ⟨w', hop, rfl⟩
    · rfl
    · rw [List.concat_eq_append, idAt_append, idAt_nil] at h
      exact absurd (h ▸ originSep_mem_mint _) hroot
  | append_singleton w hop ih =>
    rcases w'.eq_nil_or_concat with rfl | ⟨w', hop', rfl⟩
    · rw [idAt_append, idAt_nil] at h
      exact absurd (h ▸ originSep_mem_mint _) hroot
    · rw [List.concat_eq_append] at h hinj ⊢
      rw [idAt_append, idAt_append] at h
      have hcalls : idAt hash root w = idAt hash root w' → w = w' :=
        ih (hinj.mono (Set.union_subset_union rawIds_append rawIds_append))
      cases hop with
      | call n =>
        cases hop' with
        | call m =>
          obtain ⟨hid, rfl⟩ := joinId_inj h
          rw [hcalls hid]
        | detached m =>
          exact absurd (joinId_inj_of_segment (segment_toString n) (hseg _) h).2
            (toString_ne_detached _ _)
      | detached n =>
        cases hop' with
        | call m =>
          exact absurd (joinId_inj_of_segment (hseg _) (segment_toString m) h).2.symm
            (toString_ne_detached _ _)
        | detached m =>
          have hhash := (joinId_inj_of_segment (hseg _) (hseg _) h).2
          obtain ⟨hid, rfl⟩ := joinId_inj
            (hinj (Or.inl (mem_rawIds w n)) (Or.inr (mem_rawIds w' m)) (by simpa using hhash))
          rw [hcalls hid]

end Lineages

def Extends (ancestor id : String) : Prop := id = ancestor ∨ ∃ rest, id = joinId ancestor rest

/-- The id is the root, the separator of the origin, and one segment. -/
def OneSegment (root id : String) : Prop :=
  ∃ s, Segment s ∧ id.toList = root.toList ++ originSep :: s.toList

/-- The lineage a request declares is that of its id. -/
structure WellFormed (root : String) (req : PromiseCreateReq) : Prop where
  origin : originOf req.id = root
  tagged : req.tags.lookup "resonate:origin" = some root
  branch : ∃ b, req.tags.lookup "resonate:branch" = some b ∧ Extends b req.id
  parent : ∃ p, req.tags.lookup "resonate:parent" = some p ∧ Extends p req.id

section Requests

variable {c : Context} {root id branch parent : String} {req : PromiseCreateReq} {w : Lineage}
  {hash : String → String}

theorem buildPromiseCreateReq_wellFormed {codec : Codec} {func : String} {args : Json}
    {opts : Options} {now : Int}
    (h : buildPromiseCreateReq codec id func args opts now = .ok req) : WellFormed id req := by
  obtain ⟨hv, hid, htags, -⟩ := buildPromiseCreateReq_ok h
  refine ⟨by rw [hid, originOf_self (validateRootId_ok hv)], ?_, ⟨id, ?_, Or.inl hid⟩,
    ⟨id, ?_, Or.inl hid⟩⟩
  all_goals simp [htags, buildRootTags]

structure Declares (req : PromiseCreateReq) (branch parent origin : String) : Prop where
  branch : req.tags.lookup "resonate:branch" = some branch
  parent : req.tags.lookup "resonate:parent" = some parent
  origin : req.tags.lookup "resonate:origin" = some origin

theorem localCreateReq_declares {args : Except String Json} {timeout : Option ℕ} {now : Int}
    (h : c.localCreateReq id args timeout now = .ok req) :
    Declares req c.branchId c.id c.originId := by
  cases args <;> cases h
  constructor <;> simp [Context.childTags]

theorem remoteCreateReq_declares {sdk : Sdk} {func : String} {args : Except String Json}
    {timeout : Option ℕ} {target : Option String} {now : Int}
    (h : c.remoteCreateReq sdk id func parent args timeout target now = .ok req) :
    req.id = id ∧ Declares req id parent c.originId := by
  cases args <;> cases h
  refine ⟨rfl, ?_⟩
  constructor <;> simp [Context.childTags]

theorem remoteReq_declares {sdk : Sdk} {call : Remote} {now : Int}
    (h : c.remoteReq sdk id now call = .ok req) : Declares req id c.id c.originId := by
  cases call with
  | rpc ty func args timeout target => exact (remoteCreateReq_declares (checkSerialization_ok h)).2
  | sleep ty duration | promise ty timeout param =>
    cases h
    constructor <;> simp [Context.sleepCreateReq, Context.promiseCreateReq, Context.childTags]

theorem detachedReq_declares {sdk : Sdk} {n : ℕ} {func : String} {args : Except String Json}
    {timeout : Option ℕ} {target : Option String} {now : Int}
    (h : c.detachedReq sdk n func args timeout target now = .ok req) :
    req.id = c.detachedId sdk n ∧ Declares req (c.detachedId sdk n) c.originId c.originId :=
  remoteCreateReq_declares (checkSerialization_ok h)

end Requests

def CallKind.hop : CallKind → ℕ → Hop
  | detached, n => .detached n
  | _, n => .call n

def lineage (kind : CallKind) : Position → Lineage
  | [] => []
  | [call] => [kind.hop call.number]
  | call :: rest => .call call.number :: lineage kind rest

theorem lineage_append (kind : CallKind) (p : Position) (call : Call) :
    lineage kind (p ++ [call]) =
      p.map (fun call => .call call.number) ++ [kind.hop call.number] := by
  induction p with
  | nil => rfl
  | cons first p ih =>
    cases p with
    | nil => rfl
    | cons second p =>
      rw [List.cons_append, List.cons_append, lineage, ← List.cons_append, ih]
      · simp
      · simp

theorem map_number_lineage (kind : CallKind) (p : Position) :
    (lineage kind p).map Hop.number = p.map Call.number := by
  induction p with
  | nil => rfl
  | cons first p ih =>
    cases p with
    | nil => cases kind <;> rfl
    | cons second p => exact congrArg (first.number :: ·) ih

structure Context.Stands (hash : String → String) (root : String) (w : Lineage) (c : Context) :
    Prop where
  origin : c.originId = root
  branch : c.branchId = c.id
  id : c.id = idAt hash root (w ++ c.position.map fun call => .call call.number)

structure Minted (hash : String → String) (root : String) (w : Lineage) (kind : CallKind)
    (req : PromiseCreateReq) : Prop where
  wellFormed : WellFormed root req
  id : req.id = idAt hash root w
  bounded : kind = .detached → OneSegment root req.id

namespace Context.Stands

variable {sdk : Sdk} {root : String} {w : Lineage} {c : Context} {req : PromiseCreateReq}
  {n : ℕ} {sp : Bool}

theorem idAt_call (h : c.Stands sdk.hashId root w) {kind : CallKind} (hk : kind ≠ .detached) :
    c.callId n = idAt sdk.hashId root (w ++ lineage kind (c.position ++ [⟨n, sp⟩])) := by
  rw [lineage_append, ← List.append_assoc, idAt_append, ← h.id]
  cases kind with
  | detached => exact absurd rfl hk
  | run | remote => rfl

theorem idAt_detached (h : c.Stands sdk.hashId root w) :
    c.detachedId sdk n = idAt sdk.hashId root (w ++ lineage .detached (c.position ++ [⟨n, sp⟩])) := by
  rw [lineage_append, ← List.append_assoc, idAt_append, ← h.id, Context.detachedId, h.origin]
  rfl

theorem child (h : c.Stands sdk.hashId root w) {name : String} {timeoutAt : Int} :
    (c.child (c.callId n) name timeoutAt ⟨n, sp⟩).Stands sdk.hashId root w where
  origin := h.origin
  branch := rfl
  id := by
    have hcall : c.callId n =
        idAt sdk.hashId root (w ++ lineage .run (c.position ++ [⟨n, sp⟩])) := h.idAt_call (by decide)
    rw [lineage_append] at hcall
    simpa [Context.child, CallKind.hop] using hcall

variable (hroot : originSep ∉ root.toList)

include hroot

theorem minted_call (h : c.Stands sdk.hashId root w) {kind : CallKind} (hk : kind ≠ .detached)
    (hid : req.id = c.callId n) {branch : String} (hb : branch = c.id ∨ branch = req.id)
    (hd : Declares req branch c.id c.originId) :
    Minted sdk.hashId root (w ++ lineage kind (c.position ++ [⟨n, sp⟩])) kind req where
  wellFormed := by
    refine ⟨?_, hd.origin.trans (by rw [h.origin]), ⟨branch, hd.branch, ?_⟩,
      ⟨c.id, hd.parent, Or.inr ⟨_, hid⟩⟩⟩
    · rw [hid, Context.callId, originOf_joinId, h.id, originOf_idAt hroot]
    · rcases hb with rfl | rfl
      · exact Or.inr ⟨_, hid⟩
      · exact Or.inl rfl
  id := hid.trans (h.idAt_call hk)
  bounded hdet := absurd hdet hk

theorem minted_detached (h : c.Stands sdk.hashId root w) (hseg : ∀ s, Segment ("d" ++ sdk.hashId s))
    (hid : req.id = c.detachedId sdk n)
    (hd : Declares req (c.detachedId sdk n) c.originId c.originId) :
    Minted sdk.hashId root (w ++ lineage .detached (c.position ++ [⟨n, sp⟩])) .detached req where
  wellFormed := by
    refine ⟨?_, hd.origin.trans (by rw [h.origin]), ⟨_, hd.branch, Or.inl hid⟩,
      ⟨_, hd.parent, Or.inr ⟨_, hid⟩⟩⟩
    rw [hid, Context.detachedId, originOf_joinId, h.origin, originOf_self hroot]
  id := hid.trans h.idAt_detached
  bounded _ := by
    refine ⟨"d" ++ sdk.hashId (c.callId n), hseg _, ?_⟩
    rw [hid, Context.detachedId, h.origin]
    simp [joinId, hroot]

end Context.Stands

end Resonate
