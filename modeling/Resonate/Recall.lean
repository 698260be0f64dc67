import Resonate.Lineage
import Resonate.Stages
import Resonate.Handling
import Resonate.Network.Calm

/-!
# What a cache recalls

A durable operation reads the record of its promise, from the server or from the cache. The
records of promises that no call of the execution settles any more, or that none of its calls
is on, are fresh: they are on the server what they were when they were cached.
-/

namespace Resonate
open Lib Lib.ForkJoin Network

section Names

variable {root : String} {p q : Position}

def Cmd.NamedBy (root : String) : Cmd → Prop
  | .create .detached _ _ req => req.id ≠ "" ∧ ∀ p, p ≠ [] → req.id ≠ idOf root p
  | .create _ position _ req => position ≠ [] ∧ req.id = idOf root position
  | .settle position id _ => position ≠ [] ∧ id = idOf root position
  | .effects .. => False
  | _ => True

theorem idOf_ne (h : p ≠ []) : idOf root p ≠ root ∧ idOf root p ≠ "" := by
  have hlen := length_idOf root p
  have hpos : 0 < p.length := List.length_pos_iff.mpr h
  refine ⟨fun heq => ?_, fun heq => ?_⟩
  · rw [heq] at hlen
    omega
  · rw [heq] at hlen
    simp only [String.toList_empty, List.length_nil] at hlen
    omega

theorem idOf_congr (h : numbers p = numbers q) : idOf root p = idOf root q := by
  have hmap : ∀ p : Position, idOf root p =
      (numbers p).foldl (fun id n => joinId id (toString n)) root := by
    intro p
    rw [idOf, numbers, List.foldl_map]
  rw [hmap, hmap, h]

def Cmd.target : Cmd → Option String
  | .create _ _ _ req => some req.id
  | .settle _ id _ => some id
  | _ => none

end Names

/-- What a workflow reads of a promise: its record, parsed and decoded. -/
def Codec.reads (codec : Codec) (s : ServerState) (id : String) : Except Error PromiseRecord :=
  match PromiseRecord.ofJson (s.recordOf id) with
  | none => .error (.decodingError "invalid promise in fence response")
  | some r => codec.decodePromise r

section Reads

variable {codec : Codec} {s s' : ServerState} {id : String} {r : PromiseRecord}

theorem Codec.reads_congr (h : s.view id = s'.view id) : codec.reads s id = codec.reads s' id := by
  rw [Codec.reads, Codec.reads, ServerState.recordOf_congr h]

theorem ofJson_of_no_view (h : s.view id = none) : PromiseRecord.ofJson (s.recordOf id) = none := by
  rw [ServerState.recordOf_view, h]
  rfl

theorem Codec.view_of_reads (h : codec.reads s id = .ok r) : (s.view id).isSome := by
  cases hv : s.view id with
  | some p => rfl
  | none =>
    rw [Codec.reads, ofJson_of_no_view hv] at h
    cases h

theorem Codec.reads_pending (hc : Coherent s) (h : codec.reads s id = .ok r) :
    r.state = .pending ↔ s.isPending id = true := by
  unfold Codec.reads at h
  cases hj : PromiseRecord.ofJson (s.recordOf id) with
  | none => simp [hj] at h
  | some q =>
    simp only [hj] at h
    obtain ⟨-, hst, -⟩ := Codec.decodePromise_ok h
    obtain ⟨hid, p, hp, hq⟩ := hc.recordOf_shows rfl hj
    rw [hst, ServerState.isPending_iff, ← hid]
    refine ⟨fun hpend => ⟨p, hp, (ofJson_toRecord hq).1 ▸ hpend⟩, ?_⟩
    rintro ⟨p', hp', hpend⟩
    obtain rfl := Option.some.inj (hp.symm.trans hp')
    exact (ofJson_toRecord hq).1 ▸ hpend

end Reads

namespace Effects

variable {e : Effects} {fresh fresh' : String → Prop} {s s' : ServerState}

theorem insertMonotonic_eq (e : Effects) (record : PromiseRecord) :
    e.insertMonotonic record = { e with cache := (e.insertMonotonic record).cache } := by
  unfold insertMonotonic
  split_ifs <;> rfl

theorem absorb_eq (e : Effects) (records : List PromiseRecord) :
    e.absorb records = { e with cache := (e.absorb records).cache } := by
  unfold absorb
  induction records generalizing e with
  | nil => rfl
  | cons record records ih =>
    rw [List.foldl_cons]
    cases e.codec.decodePromise record with
    | error err => exact ih e
    | ok decoded =>
      dsimp only
      rw [ih, insertMonotonic_eq]

theorem received_eq (e : Effects) (result : Except Error TaskFenceResult) :
    (e.received result).1 = { e with cache := (e.received result).1.cache } := by
  unfold received
  cases result with
  | error err => rfl
  | ok res =>
    dsimp only
    cases (e.absorb res.preload).codec.decodePromise res.promise with
    | error err => exact absorb_eq e res.preload
    | ok decoded =>
      dsimp only
      rw [insertMonotonic_eq, absorb_eq]

/-- The fresh records of the cache are what the workflow would read. -/
def Recalls (fresh : String → Prop) (s : ServerState) (e : Effects) : Prop :=
  ∀ id r, e.cache.lookup id = some r → fresh id → e.codec.reads s id = .ok r

theorem Recalls.insertMonotonic (h : e.Recalls fresh s) {record : PromiseRecord}
    (hr : fresh record.id → e.codec.reads s record.id = .ok record) :
    (e.insertMonotonic record).Recalls fresh s := by
  unfold Effects.insertMonotonic
  split_ifs
  · exact h
  · intro id r hl hf
    simp only [HashMap.lookup_insert_ite] at hl
    split_ifs at hl with heq
    · obtain rfl := Option.some.inj hl
      exact heq ▸ hr (heq ▸ hf)
    · exact h id r hl hf

/-- Records that are fresh on the server are decoded to what the workflow would read. -/
theorem reads_of_decoded {codec : Codec} {r decoded : PromiseRecord}
    (hr : fresh r.id → PromiseRecord.ofJson (s.recordOf r.id) = some r)
    (hd : codec.decodePromise r = .ok decoded) (hf : fresh decoded.id) :
    codec.reads s decoded.id = .ok decoded := by
  rw [(Codec.decodePromise_ok hd).1] at hf ⊢
  rw [Codec.reads, hr hf]
  exact hd

theorem Recalls.absorb (h : e.Recalls fresh s) {records : List PromiseRecord}
    (hr : ∀ r ∈ records, fresh r.id → PromiseRecord.ofJson (s.recordOf r.id) = some r) :
    (e.absorb records).Recalls fresh s := by
  unfold Effects.absorb
  induction records generalizing e with
  | nil => exact h
  | cons record records ih =>
    have htail := fun r hmem => hr r (List.mem_cons_of_mem record hmem)
    rw [List.foldl_cons]
    cases hd : e.codec.decodePromise record with
    | error err => exact ih h htail
    | ok decoded =>
      exact ih (h.insertMonotonic (reads_of_decoded (hr record List.mem_cons_self) hd)) htail

end Effects

structure Flight.Tells (sender : Sender) (fresh : String → Prop) (s : ServerState) (f : Flight)
    (id : String) (promise : Json) (preload : List Json) : Prop where
  answer : ∀ e : Effects, e.sender = sender →
    e.fenceResult f.sent f.answer = fenceAnswer promise preload
  own : ∀ r, PromiseRecord.ofJson promise = some r → r.id = id
  current : fresh id → (s.view id).isSome ∧ promise = s.recordOf id
  preload : ∀ v ∈ preload, ∀ r, PromiseRecord.ofJson v = some r → fresh r.id → v = s.recordOf r.id

/-- What is fresh was fresh, and has not changed since, unless it did not exist. -/
structure Grows (fresh fresh' : String → Prop) (s s' : ServerState) : Prop where
  fresh : ∀ id, fresh' id → fresh id
  kept : ∀ id, fresh' id → s.view id = none ∨ s'.view id = s.view id

section Growth

variable {e : Effects} {fresh fresh' : String → Prop} {s s' : ServerState} {f : Flight} {id : String}
  {promise : Json} {preload : List Json}

theorem Effects.Recalls.grow (h : e.Recalls fresh s) (hg : Grows fresh fresh' s s') :
    e.Recalls fresh' s' := by
  intro id r hl hf
  have hread := h id r hl (hg.fresh id hf)
  rcases hg.kept id hf with hv | hv
  · have hsome := Codec.view_of_reads hread
    rw [hv] at hsome
    cases hsome
  · rw [Codec.reads_congr hv]
    exact hread

theorem Flight.Tells.grow {sender : Sender} (h : f.Tells sender fresh s id promise preload)
    (hg : Grows fresh fresh' s s') : f.Tells sender fresh' s' id promise preload where
  answer := h.answer
  own := h.own
  current hf := by
    obtain ⟨hsome, hrec⟩ := h.current (hg.fresh id hf)
    rcases hg.kept id hf with hv | hv
    · rw [hv] at hsome
      cases hsome
    · exact ⟨hv ▸ hsome, hrec.trans (ServerState.recordOf_congr hv.symm)⟩
  preload v hv r hr hf := by
    have hrec := h.preload v hv r hr (hg.fresh r.id hf)
    rcases hg.kept r.id hf with hview | hview
    · rw [hrec, ofJson_of_no_view hview] at hr
      cases hr
    · exact hrec.trans (ServerState.recordOf_congr hview.symm)

theorem Effects.Recalls.received (h : e.Recalls fresh s)
    (ht : f.Tells e.sender fresh s id promise preload) :
    (e.received (e.fenceResult f.sent f.answer)).1.Recalls fresh s ∧
      (fresh id → (e.received (e.fenceResult f.sent f.answer)).2 = e.codec.reads s id) := by
  rw [ht.answer e rfl, fenceAnswer]
  cases hp : PromiseRecord.ofJson promise with
  | none =>
    refine ⟨h, fun hf => ?_⟩
    rw [Codec.reads, ← (ht.current hf).2, hp]
    rfl
  | some record =>
    have hid : record.id = id := ht.own record hp
    have hpre : ∀ r ∈ preload.filterMap PromiseRecord.ofJson, fresh r.id →
        PromiseRecord.ofJson (s.recordOf r.id) = some r := by
      intro r hr hf
      obtain ⟨v, hv, hvr⟩ := List.mem_filterMap.mp hr
      rw [← ht.preload v hv r hvr hf]
      exact hvr
    have hrec : fresh record.id → PromiseRecord.ofJson (s.recordOf record.id) = some record := by
      intro hf
      rw [hid] at hf ⊢
      rw [← (ht.current hf).2]
      exact hp
    have habs := h.absorb hpre
    have hcodec : (e.absorb (preload.filterMap PromiseRecord.ofJson)).codec = e.codec := by
      rw [Effects.absorb_eq]
    unfold Effects.received
    dsimp only
    rw [hcodec]
    cases hd : e.codec.decodePromise record with
    | error err =>
      refine ⟨habs, fun hf => ?_⟩
      rw [Codec.reads, ← (ht.current hf).2, hp]
      exact hd.symm
    | ok decoded =>
      refine ⟨habs.insertMonotonic ?_, fun hf => ?_⟩
      · rw [hcodec]
        exact Effects.reads_of_decoded hrec hd
      · rw [Codec.reads, ← (ht.current hf).2, hp]
        exact hd.symm

end Growth

end Resonate
