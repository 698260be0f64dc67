import Resonate.Network.RoundTrip
import Resonate.Network.Timers
import Resonate.Recorded
import Resonate.Replay

/-!
# A server that follows a plan

The promises of a plan at the server can be read by every client, have the parameters of the
plan, and are pending or resolved with their planned values. The moves of a request keep this
as long as they create and settle planned promises as the plan says, and as long as no planned
promise times out; a timer may, if its planned value is null.
-/

namespace Resonate
open Lib Network

namespace Plan

variable {codec : Codec} (plan : Plan codec)

structure Sound (id : String) (p : DurablePromise) : Prop where
  i64 : p.I64
  param : ∃ data, codec.decode (Value.ofJson p.param) = .ok data ∧
    plan.task id = TaskData.ofJson (data.getD .null)
  timer : p.isTimer → plan.value id = some .null
  outcome : p.state ≠ .pending → p.state = .resolved ∧
    ∃ y, codec.decode (Value.ofJson p.value) = .ok y ∧ plan.value id = some (y.getD .null)

/-- Every promise of the plan is as the plan says. -/
def Followed (s : ServerState) : Prop :=
  ∀ id p, (plan.value id).isSome → s.promises.lookup id = some p → plan.Sound id p

/-- Every promise of the plan is as the plan says, unless it has timed out. -/
def Lapsing (s : ServerState) : Prop :=
  ∀ id p, (plan.value id).isSome → s.promises.lookup id = some p →
    plan.Sound id p ∨ p.state = .rejectedTimedout

def InTime (s : ServerState) : Prop :=
  ∀ id p, (plan.value id).isSome → s.promises.lookup id = some p → p.state ≠ .rejectedTimedout

def Creates (id : String) (r : Json) : Prop :=
  (plan.value id).isSome →
    (∃ data, codec.decode (Value.ofJson (paramOf r)) = .ok data ∧
      plan.task id = TaskData.ofJson (data.getD .null)) ∧
    ((extractTags r).lookup "resonate:timer" = some "true" → plan.value id = some .null)

/-- A move that creates and settles planned promises as the plan says. -/
def Heeds : Move → Prop
  | .settle id state value => (plan.value id).isSome → state = .resolved ∧
    ∃ y, codec.decode (Value.ofJson value) = .ok y ∧ plan.value id = some (y.getD .null)
  | .expireNew id r | .plain (.addPending id r) | .plain (.addFulfilled id r)
  | .plain (.addAcquired id r _ _) => plan.Creates id r
  | _ => True

variable {plan} {s s' : ServerState} {now : Int} {id : String} {p q : DurablePromise} {r : Json}
  {m : Move}

theorem decode_null (codec : Codec) : codec.decode (Value.ofJson .null) = .ok none := rfl

theorem isI64_timeoutAtOf (r : Json) : IsI64 (timeoutAtOf r) := by
  unfold timeoutAtOf
  cases h : (r.get "timeoutAt").bind Json.asI64 with
  | none => exact ⟨by decide, le_refl _⟩
  | some n =>
    obtain ⟨v, -, hv⟩ := Option.bind_eq_some_iff.mp h
    cases v with
    | num k =>
      obtain ⟨hk, rfl⟩ := isI64_of_asI64 hv
      exact hk
    | _ => cases hv

namespace Sound

theorem of_kept (h : plan.Sound id p) (hk : p.Kept q) (hok : q.Ok id) (hs : q.state = p.state) :
    plan.Sound id q where
  i64 := by
    refine ⟨hk.timeoutAt ▸ h.i64.timeoutAt, hk.createdAt ▸ h.i64.createdAt, fun t ht => ?_⟩
    by_cases hst : p.state = .pending
    · rw [(hok.pending (hs.trans hst)).2] at ht
      cases ht
    · rw [(hk.outcome hst).2.2] at ht
      exact h.i64.settledAt t ht
  param := hk.param ▸ h.param
  timer ht := h.timer (by rwa [DurablePromise.isTimer, hk.tags] at ht)
  outcome hne := by
    have hne' : p.state ≠ .pending := hs ▸ hne
    obtain ⟨hst, hv, -⟩ := hk.outcome hne'
    rw [hst, hv]
    exact h.outcome hne'

theorem expired (h : plan.Sound id p) (hk : p.Kept q) (hx : q.Expired) :
    plan.Sound id q ∨ q.state = .rejectedTimedout := by
  by_cases htimer : q.isTimer
  · have hnull : plan.value id = some .null :=
      h.timer (by rwa [DurablePromise.isTimer, hk.tags] at htimer)
    refine Or.inl ⟨⟨hk.timeoutAt ▸ h.i64.timeoutAt, hk.createdAt ▸ h.i64.createdAt, fun t ht => ?_⟩,
      hk.param ▸ h.param, fun _ => hnull, fun _ => ⟨?_, none, ?_, hnull⟩⟩
    · rw [hx.settledAt] at ht
      obtain rfl := Option.some.inj ht
      exact hk.timeoutAt ▸ h.i64.timeoutAt
    · exact hx.state.trans (if_pos htimer)
    · rw [hx.value]
      exact decode_null codec
  · exact Or.inr (hx.state.trans (if_neg htimer))

theorem settled (h : plan.Sound id p) (hk : p.Kept q) (hnow : IsI64 now)
    (hset : q.settledAt = some now) (hst : q.state = .resolved)
    (hv : ∃ y, codec.decode (Value.ofJson q.value) = .ok y ∧ plan.value id = some (y.getD .null)) :
    plan.Sound id q where
  i64 := by
    refine ⟨hk.timeoutAt ▸ h.i64.timeoutAt, hk.createdAt ▸ h.i64.createdAt, fun t ht => ?_⟩
    rw [hset] at ht
    exact Option.some.inj ht ▸ hnow
  param := hk.param ▸ h.param
  timer ht := h.timer (by rwa [DurablePromise.isTimer, hk.tags] at ht)
  outcome _ := ⟨hst, hv⟩

theorem created (hr : plan.Creates id r) (hp : (plan.value id).isSome) (hnow : IsI64 now) :
    plan.Sound id (pendingPromise id r now) :=
  ⟨⟨isI64_timeoutAtOf r, hnow, fun t ht => by cases ht⟩, (hr hp).1, (hr hp).2,
    fun hne => absurd rfl hne⟩

theorem created_expired (hr : plan.Creates id r) (hp : (plan.value id).isSome) :
    plan.Sound id (expiredPromise id r) ∨ (expiredPromise id r).state = .rejectedTimedout := by
  have htimeout := isI64_timeoutAtOf r
  by_cases htimer : (extractTags r).lookup "resonate:timer" = some "true"
  · have hnull := (hr hp).2 htimer
    refine Or.inl ⟨⟨htimeout, htimeout, fun t ht => ?_⟩, (hr hp).1, fun _ => hnull,
      fun _ => ⟨if_pos htimer, none, decode_null codec, hnull⟩⟩
    exact Option.some.inj ht ▸ htimeout
  · exact Or.inr (if_neg htimer)

end Sound

theorem Followed.lapsing (h : plan.Followed s) : plan.Lapsing s :=
  fun id p hp hl => Or.inl (h id p hp hl)

theorem Lapsing.followed (h : plan.Lapsing s) (ht : plan.InTime s) : plan.Followed s :=
  fun id p hp hl => (h id p hp hl).resolve_right (ht id p hp hl)

/-- A move that heeds the plan. -/
theorem Lapsing.step (h : plan.Lapsing s) (hc : Coherent s) (hnow : IsI64 now)
    (hm : m.Step now s s') (hheeds : plan.Heeds m) : plan.Lapsing s' := by
  intro id q hp hq
  have hok := ((hc.step hm).cell id).promise q hq
  cases hl : s.promises.lookup id with
  | none =>
    rcases m.promise_of_none hc hm hl hq with ⟨r, act, rfl, hact, rfl, -⟩ | ⟨r, hnew, rfl, -⟩
    · refine Or.inl (Sound.created ?_ hp hnow)
      rcases hact with rfl | ⟨pid, ttl, rfl⟩ <;> exact hheeds
    · refine Sound.created_expired ?_ hp
      rcases hnew with rfl | rfl <;> exact hheeds
  | some p =>
    obtain ⟨q', hq', hk, hcase⟩ := m.promise_of_some hc hm hl
    obtain rfl := Option.some.inj (hq'.symm.trans hq)
    rcases h id p hp hl with hsound | hlapsed
    · rcases hcase with hs | ⟨hx, -⟩ | ⟨-, -, state, value, rfl, -, hset, hst, hv⟩
      · exact Or.inl (hsound.of_kept hk hok hs)
      · exact hsound.expired hk hx
      · obtain ⟨hres, hval⟩ := hheeds hp
        exact Or.inl (hsound.settled hk hnow hset (hst.trans hres) (hv.symm ▸ hval))
    · exact Or.inr ((hk.outcome (by rw [hlapsed]; decide)).1.trans hlapsed)

theorem Followed.moves {P : Move → Prop} (h : plan.Followed s) (hc : Coherent s) (hnow : IsI64 now)
    (hm : Moves now P s s') (hheeds : ∀ m, P m → plan.Heeds m) (ht : plan.InTime s') :
    plan.Followed s' := by
  have hinv := hm.invariant (I := plan.Lapsing) hc
    (fun _ m _ hc hp hm hI => hI.step hc hnow hm (hheeds m hp)) h.lapsing
  exact hinv.2.followed ht

section Records

variable {record q' : PromiseRecord}

theorem decodePromise_of_decode {a b : Option Json} (ha : codec.decode record.param = .ok a)
    (hb : codec.decode record.value = .ok b) : codec.decodePromise record = .ok { record with
      param := { record.param with data := some (a.getD .null) }
      value := { record.value with data := some (b.getD .null) } } := by
  simp only [Codec.decodePromise, ha, hb]
  rfl

theorem Followed.parses (h : plan.Followed s) (hp : (plan.value id).isSome)
    (hl : s.promises.lookup id = some p) :
    PromiseRecord.ofJson (s.recordOf id) = some p.record := by
  rw [ServerState.recordOf, hl]
  exact promiseRecord_ofJson (h id p hp hl).i64

theorem Followed.shown (h : plan.Followed s) (hc : Coherent s) (hs : s.Shows record)
    (hp : (plan.value record.id).isSome) : ∃ q, codec.decodePromise record = .ok q ∧
      plan.Agrees q ∧ plan.task record.id = TaskData.ofJson q.param.dataOrNull := by
  obtain ⟨p, hl, hr⟩ := hs
  have hsound := h record.id p hp hl
  obtain rfl := (promiseRecord_of_ofJson hr).2
  obtain ⟨data, hdata, htask⟩ := hsound.param
  obtain ⟨y, hy, hout⟩ : ∃ y, codec.decode p.record.value = .ok y ∧ (p.state = .pending ∨
      p.state = .resolved ∧ plan.value p.record.id = some (y.getD .null)) := by
    by_cases hst : p.state = .pending
    · refine ⟨none, ?_, Or.inl hst⟩
      rw [DurablePromise.record, ((hc.cell _).promise p hl).pending hst |>.1]
      exact decode_null codec
    · obtain ⟨hres, y, hy, hv⟩ := hsound.outcome hst
      exact ⟨y, hy, Or.inr ⟨hres, hv⟩⟩
  refine ⟨_, decodePromise_of_decode hdata hy, fun j hj => ?_, htask⟩
  rcases hout with hst | ⟨hres, hv⟩
  · exact Or.inl hst
  · exact Or.inr ⟨hres, Option.some.inj (hv.symm.trans hj)⟩

theorem Followed.reads (h : plan.Followed s) (hc : Coherent s) {held : Set String}
    (hheld : ∀ a, (s.promises.lookup a).isSome → a ∈ held) (hs : s.Shows record) :
    plan.Reads held record := by
  refine ⟨?_, fun hp => ?_⟩
  · obtain ⟨p, hl, -⟩ := hs
    exact hheld record.id (Option.isSome_of_eq_some hl)
  · obtain ⟨q, hq, hagree, -⟩ := h.shown hc hs hp
    exact ⟨q, hq, hagree⟩

theorem Reads.agrees {held : Set String} (h : plan.Reads held record)
    (hq : codec.decodePromise record = .ok q') : plan.Agrees q' := by
  intro j hj
  have hid := (Codec.decodePromise_ok hq).1
  obtain ⟨q, hq', hagree⟩ := h.2 (hid ▸ Option.isSome_of_eq_some hj)
  obtain rfl := Except.ok.inj (hq'.symm.trans hq)
  exact hagree j hj

end Records

end Plan

end Resonate
