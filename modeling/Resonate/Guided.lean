import Resonate.Followed
import Resonate.Regimes

/-!
# Handlings under a plan

The regime of the handling of a planned task: its caches hold records that agree with the plan,
and every durable operation is answered with such a record of its promise.
-/

namespace Resonate
open Lib Lib.ForkJoin Network

namespace Plan

variable {codec : Codec} (plan : Plan codec)

/-- A cache of an execution under the lease `(taskId, version)`: its records are of their own
promises and agree with the plan. -/
structure Cached (held : Set String) (sender : Sender) (taskId : String) (version : Int)
    (e : Effects) : Prop where
  sender : e.sender = sender
  codec : e.codec = codec
  lease : e.taskId = taskId ∧ e.taskVersion = version
  records : ∀ id r, e.cache.lookup id = some r → r.id = id ∧ id ∈ held ∧ plan.Agrees r

def Answered (held : Set String) (sender : Sender) (id : String) (now : Int)
    (answer : Except Error Json) : Prop :=
  ∀ e : Effects, e.sender = sender → ∃ res, e.fenceResult now answer = .ok res ∧
    res.promise.id = id ∧ ∀ r ∈ res.promise :: res.preload, plan.Reads held r

def Answers (held : Set String) (sender : Sender) (f : Flight) : Prop :=
  match f.cmd with
  | .create _ _ _ req => plan.Answered held sender req.id f.sent f.answer
  | .settle _ id _ => plan.Answered held sender id f.sent f.answer
  | .suspend .. => ∀ preload, suspendResult (sender.makeHead f.sent) f.answer =
    .ok (.redirect preload) → ∀ r ∈ preload, plan.Reads held r
  | _ => True

variable {plan} {held : Set String} {sender : Sender} {taskId : String} {version : Int} {e : Effects}
  {id : String} {now : Int} {answer : Except Error Json} {record : PromiseRecord}
  {records : List PromiseRecord}

namespace Cached

theorem insertMonotonic (h : plan.Cached held sender taskId version e) (hheld : record.id ∈ held)
    (hr : plan.Agrees record) :
    plan.Cached held sender taskId version (e.insertMonotonic record) := by
  unfold Effects.insertMonotonic
  split_ifs
  · exact h
  · refine ⟨h.sender, h.codec, h.lease, fun id r hl => ?_⟩
    simp only [HashMap.lookup_insert_ite] at hl
    split_ifs at hl with heq
    · obtain rfl := Option.some.inj hl
      exact ⟨heq.symm, heq ▸ hheld, hr⟩
    · exact h.records id r hl

theorem absorb (h : plan.Cached held sender taskId version e)
    (hr : ∀ r ∈ records, plan.Reads held r) :
    plan.Cached held sender taskId version (e.absorb records) := by
  unfold Effects.absorb
  induction records generalizing e with
  | nil => exact h
  | cons record records ih =>
    have htail : ∀ r ∈ records, plan.Reads held r := fun r hmem => hr r (List.mem_cons_of_mem _ hmem)
    rw [List.foldl_cons]
    cases hd : e.codec.decodePromise record with
    | error err => exact ih h htail
    | ok decoded =>
      rw [h.codec] at hd
      have hread := hr record List.mem_cons_self
      have hid := (Codec.decodePromise_ok hd).1
      exact ih (h.insertMonotonic (hid ▸ hread.1) (hread.agrees hd)) htail

theorem new (hr : ∀ r ∈ records, plan.Reads held r) :
    plan.Cached held sender taskId version (Effects.new sender codec taskId version records) :=
  absorb ⟨rfl, rfl, ⟨rfl, rfl⟩, fun id r hl => by cases hl⟩ hr

theorem received (h : plan.Cached held sender taskId version e) (hp : (plan.value id).isSome)
    (hans : plan.Answered held sender id now answer) :
    plan.Cached held sender taskId version (e.received (e.fenceResult now answer)).1 ∧
      ∃ r, (e.received (e.fenceResult now answer)).2 = .ok r ∧ r.id = id ∧ id ∈ held ∧
        plan.Agrees r := by
  obtain ⟨res, hres, hid, hreads⟩ := hans e h.sender
  have habs := h.absorb fun r hmem => hreads r (List.mem_cons_of_mem _ hmem)
  obtain ⟨hheld, hread⟩ := hreads res.promise List.mem_cons_self
  obtain ⟨q, hq, hagree⟩ := hread (hid ▸ hp)
  have hqid : q.id = id := (Codec.decodePromise_ok hq).1.trans hid
  rw [hres]
  unfold Effects.received
  dsimp only
  rw [habs.codec, hq]
  have hmem : id ∈ held := hid ▸ hheld
  exact ⟨habs.insertMonotonic (hqid ▸ hmem) hagree, q, rfl, hqid, hmem, hagree⟩

theorem createPromise (h : plan.Cached held sender taskId version e) {req : PromiseCreateReq}
    (hasks : plan.Asks req) {a : Except Error PromiseRecord} (ha : e.createPromise req = .answered a) :
    ∃ r, a = .ok r ∧ r.id = req.id ∧ req.id ∈ held ∧ plan.Agrees r := by
  unfold Effects.createPromise at ha
  cases hl : e.cache.lookup req.id with
  | some cached =>
    rw [hl] at ha
    obtain ⟨hid, hheld, hagree⟩ := h.records req.id cached hl
    exact ⟨cached, (Begun.answered.inj ha).symm, hid, hheld, hagree⟩
  | none =>
    obtain ⟨w, hw⟩ := hasks.takes.1.encodes
    simp only [hl, h.codec, hw] at ha
    cases ha

theorem settlePromise (h : plan.Cached held sender taskId version e) {j : Json}
    (hj : plan.value id = some j) {a : Except Error PromiseRecord}
    (ha : e.settlePromise id (.ok (.ok j)) = .answered a) : ∃ r, a = .ok r := by
  unfold Effects.settlePromise at ha
  cases hl : (e.cache.lookup id).filter fun r => r.state ≠ .pending with
  | some cached =>
    simp only [hl] at ha
    exact ⟨cached, (Begun.answered.inj ha).symm⟩
  | none =>
    obtain ⟨w, hw⟩ := (plan.writes id j hj).encodes
    have hsettle : Effects.settlement (.ok (.ok j)) = .ok (.resolved, j) := rfl
    simp only [hl, hsettle, h.codec, hw] at ha
    cases ha

end Cached

def regime (plan : Plan codec) (held : Set String) (sender : Sender) (taskId : String)
    (version : Int) :
    Regime codec sender where
  terms := plan.terms held taskId version
  Caches := plan.Cached held sender taskId version
  Answers := plan.Answers held sender
  opened _ _ preload h := by
    obtain ⟨rfl, rfl, hreads⟩ := h
    exact .new hreads
  atOnce c effects a hpre he ha := by
    cases c with
    | create kind position slot req =>
      obtain ⟨e, rfl, hans⟩ := ha
      exact (he e rfl).createPromise hpre hans
    | settle position id result =>
      obtain ⟨e, rfl, hans⟩ := ha
      obtain ⟨-, j, rfl, hj⟩ := hpre
      exact (he e rfl).settlePromise hj hans
    | acquire | suspend => exact ha.elim
    | _ => trivial
  reply f effects e a hpre hf he hr := by
    obtain ⟨path, cmd, sent, answer⟩ := f
    cases cmd with
    | create kind position slot req =>
      obtain ⟨e₀, rfl, heq⟩ := Option.map_eq_some_iff.mp hr
      obtain ⟨rfl, rfl⟩ := Prod.mk.inj heq
      obtain ⟨hcached, hans⟩ := (he e₀ rfl).received hpre.planned hf
      refine ⟨hans, fun e' he' => ?_⟩
      obtain rfl := Option.some.inj he'
      exact hcached
    | settle position id result =>
      obtain ⟨e₀, rfl, heq⟩ := Option.map_eq_some_iff.mp hr
      obtain ⟨rfl, rfl⟩ := Prod.mk.inj heq
      obtain ⟨-, j, rfl, hj⟩ := hpre
      obtain ⟨hcached, r, hans, -⟩ := (he e₀ rfl).received (Option.isSome_of_eq_some hj) hf
      refine ⟨⟨r, hans⟩, fun e' he' => ?_⟩
      obtain rfl := Option.some.inj he'
      exact hcached
    | acquire taskId version pid ttl => exact hpre.elim
    | suspend taskId version actions =>
      obtain ⟨rfl, rfl⟩ := Prod.mk.inj (Option.some.inj hr)
      exact ⟨hf, he⟩
    | fulfill taskId version action | release taskId version =>
      obtain ⟨rfl, rfl⟩ := Prod.mk.inj (Option.some.inj hr)
      exact ⟨trivial, he⟩
    | _ => cases hr

end Plan

end Resonate
