import Resonate.Undisturbed

/-!
# Recorded verdicts

A result is recorded when the promise is settled in agreement with it, and stays so. A
settlement that reaches the server records its result if it finds the lease held and the
promise pending; else the result is recorded only if it was before.
-/

namespace Resonate
open Lib Lib.ForkJoin Network

/-- The outcome of a promise agrees with the result of a function: resolved with its value, or
rejected in some way. -/
def Network.DurablePromise.Carries (codec : Codec) (p : DurablePromise) :
    Except Error (Except String Json) → Prop
  | .ok (.ok v) => p.state = .resolved ∧
    ∃ y, codec.decode (Value.ofJson p.value) = .ok y ∧ y.getD .null = v
  | .ok (.error _) => False
  | .error _ => p.state ≠ .pending ∧ p.state ≠ .resolved

def Codec.Recorded (codec : Codec) (s : ServerState) (id : String)
    (result : Except Error (Except String Json)) : Prop :=
  ∃ p, s.promises.lookup id = some p ∧ p.Carries codec result

/-- What a call of type `ty` hands its caller when it finds the record is the result again, or
an error again. -/
def PromiseRecord.Replays (codec : Codec) (ty : Ty) (r : PromiseRecord) :
    Except Error (Except String Json) → Prop
  | .ok (.ok v) => r.asResult codec ty = some (serde (ty.ofValue v))
  | .ok (.error _) => False
  | .error _ => ∃ e, r.asResult codec ty = some (.error e)

def Network.ServerState.Admits (s : ServerState) (req : Json) : Prop :=
  ∃ id, strField req "id" = some id ∧ s.Holds id (versionOf req)

section Recorded

variable {codec : Codec} {s s' : ServerState} {id : String} {p q : DurablePromise} {r : PromiseRecord}
  {result : Except Error (Except String Json)}

theorem Network.DurablePromise.Carries.settled (h : p.Carries codec result) : p.state ≠ .pending := by
  match result, h with
  | .ok (.ok v), h => simp [h.1]
  | .error e, h => exact h.1

theorem Network.DurablePromise.Carries.congr (h : p.Carries codec result) (hst : q.state = p.state)
    (hv : q.value = p.value) : q.Carries codec result := by
  match result, h with
  | .ok (.ok v), h => exact ⟨hst.trans h.1, hv ▸ h.2⟩
  | .error e, h =>
    rw [DurablePromise.Carries, hst]
    exact h

namespace Codec.Recorded

theorem deliver (h : codec.Recorded s id result) (ht : TimeoutsTrue s) (op : Op) :
    codec.Recorded (s.deliver op) id result := by
  obtain ⟨p, hp, hc⟩ := h
  have hclear : TimeoutsTrue ({ s with outgoing := [] } : ServerState) := ht
  obtain ⟨q, hq, hk, -⟩ := exec_kept hclear op (p := p) hp
  obtain ⟨hst, hv, -⟩ := hk.outcome hc.settled
  exact ⟨q, hq, hc.congr hst hv⟩

theorem replays (h : codec.Recorded s id result) (hs : s.Shows r) (hid : r.id = id)
    {q : PromiseRecord} (hq : codec.decodePromise r = .ok q) (ty : Ty) :
    q.Replays codec ty result := by
  obtain ⟨p, hp, hc⟩ := h
  obtain ⟨p', hp', hr⟩ := hs
  rw [hid, hp] at hp'
  obtain rfl := Option.some.inj hp'
  obtain ⟨hst, hv⟩ := ofJson_toRecord hr
  have hstate := (Codec.decodePromise_ok hq).2.1.trans hst
  match result, hc with
  | .ok (.ok v), ⟨hres, y, hy, hyv⟩ =>
    have hdata : q.value.dataOrNull = v := by
      unfold Codec.decodePromise at hq
      cases hparam : codec.decode r.param with
      | error e =>
        rw [hparam] at hq
        cases hq
      | ok param =>
        rw [hparam, hv, hy] at hq
        obtain rfl := Except.ok.inj hq
        exact hyv
    rw [PromiseRecord.Replays, PromiseRecord.asResult, hstate, hres, hdata]
  | .error e, ⟨hpend, hres⟩ =>
    rw [PromiseRecord.Replays, PromiseRecord.asResult, hstate]
    cases hp : p.state with
    | pending => exact absurd hp hpend
    | resolved => exact absurd hp hres
    | rejected | rejectedCanceled | rejectedTimedout => exact ⟨_, rfl⟩

end Codec.Recorded

theorem data_ofJson_toJson (w : Value) : (Value.ofJson w.toJson).data = w.data := by
  obtain ⟨headers, data⟩ := w
  cases headers <;> cases data <;> simp [Value.ofJson, Value.toJson, List.lookup_cons]

theorem carries_of_settlement {state : SettleState} {data : Json} {value : Value}
    (hrt : ∀ v, result = .ok (.ok v) → codec.RoundTrips v)
    (hsettle : Effects.settlement result = .ok (state, data)) (henc : codec.encode data = .ok value)
    (hst : p.state = state.toPromiseState) (hv : p.value = value.toJson) : p.Carries codec result := by
  match result, hsettle with
  | .ok (.ok v), hsettle =>
    cases hsettle
    refine ⟨hst, ?_⟩
    rw [hv]
    exact Codec.decode_encode (hrt data rfl) henc (data_ofJson_toJson value)
  | .ok (.error t), hsettle => cases hsettle
  | .error e, hsettle =>
    cases hsettle
    rw [DurablePromise.Carries, hst]
    exact ⟨by decide, by decide⟩

end Recorded

namespace Network.ServerState

variable {s : ServerState} {now : Int} {corrId req : Json} {id : String}

theorem prepared_wf (h : WF s) (now : Int) (req : Json) : WF (s.prepared now req) := by
  have hp : Performs now True (fun _ => True) ⟨s, ∅⟩ ⟨s.prepared now req, ∅⟩ :=
    prepared_performs trivial (fun _ _ => trivial) (fun _ => trivial) (fun _ => trivial)
  exact hp.invariant (I := fun L => WF L.state) (fun _ _ hg _ hi => hi.step hg) h

theorem promiseSettle_of_settled (corrId : Json) (hid : requireStr req "id" = .ok id)
    (h : s.isPending id = false) : (s.promiseSettle now corrId req).1 = s := by
  unfold promiseSettle
  simp only [hid]
  cases hp : s.promises.lookup id with
  | none => rfl
  | some p =>
    have hst : p.state ≠ .pending := fun hst => by simp [isPending, hp, hst] at h
    simp only [if_pos hst]

theorem promiseSettle_of_pending (now : Int) (corrId : Json) (hid : requireStr req "id" = .ok id)
    (h : s.isPending id = true) : ∃ p,
      (s.promiseSettle now corrId req).1.promises.lookup id = some p ∧
        p.state = settleStateOf req ∧ p.value = valueOf req := by
  obtain ⟨p, hp, hst⟩ := isPending_iff.mp h
  have hview : (s.promiseSettle now corrId req).1.view id =
      some (settleRecord (settleStateOf req) (valueOf req) now p).bare := by
    unfold promiseSettle
    simp only [hid, hp, if_neg (not_not.mpr hst)]
    rw [settled_view, view_of_some (p := settleRecord (settleStateOf req) (valueOf req) now p)
      (by simp [settleAt, hp])]
  obtain ⟨q, hq, hbare⟩ := Option.map_eq_some_iff.mp hview
  have hstate := congrArg DurablePromise.state hbare
  have hvalue := congrArg DurablePromise.value hbare
  exact ⟨q, hq, hstate, hvalue⟩

end Network.ServerState

namespace Effects

section Fence

variable {e : Effects} {s : ServerState} {id : String} {action : Json} {subNow now serverNow : Int}
  {result : Except Error (Except String Json)}

theorem settleRecord_flatFence (e : Effects) (subNow now : Int) (req : PromiseSettleReq) :
    settleStateOf (fenceAction (e.flatFence subNow now req.toJson)).2 = req.state.toPromiseState ∧
      valueOf (fenceAction (e.flatFence subNow now req.toJson)).2 = req.value.toJson := by
  have hstate := PromiseSettleReq.settleStateOf_toJson req
  rw [settleStateOf, PromiseSettleReq.toJson, Json.get_obj] at hstate
  rw [PromiseSettleReq.toJson, fenceAction_flatFence]
  refine ⟨?_, ?_⟩
  · rw [settleStateOf, Json.get_obj, Json.lookup_insert, if_neg (by decide), hstate]
  · rw [valueOf, Json.get_obj, Json.lookup_insert, if_neg (by decide)]
    rfl

/-- A settlement is refused, or it settles its promise and is answered with the record. -/
theorem fence_settle (hs : WF s) (e : Effects) (subNow now serverNow : Int) (req : PromiseSettleReq) :
    let flat := e.flatFence subNow now req.toJson
    let p := s.prepared serverNow flat
    let s' := s.deliver (.apply serverNow flat)
    let answer := e.fenceResult now (s.send serverNow (e.fenceRequest subNow now req.toJson)).2
    (s' = p ∧ (∃ err, answer = .error err) ∧ (p.Admits flat → req.id = "")) ∨
      p.Admits flat ∧ requireStr (fenceAction flat).2 "id" = .ok req.id ∧
        (∃ corrId, s' = (p.promiseSettle serverNow corrId (fenceAction flat).2).1) ∧
          answer = fenceAnswer (s'.recordOf req.id) (s'.preload e.taskId) := by
  intro flat p s' answer
  have hkind : (fenceAction flat).1 = true := by
    simp only [flat, PromiseSettleReq.toJson, fenceAction_flatFence]
    rfl
  have hinner : strField (fenceAction flat).2 "id" = some req.id :=
    ((Acts.settle req rfl).inner e subNow now).1
  have htask : strField flat "id" = some e.taskId := by
    simp only [flat]
    rw [flatFence, fenceRequest, ← request, taskFenceData, strField,
      get_request (by decide) (by decide)]
    rfl
  have hwf : WF p := ServerState.prepared_wf hs serverNow flat
  have happly : s.apply serverNow flat = p.taskFence serverNow ((flat.get "corrId").getD .null) flat :=
    ServerState.apply_eq_dispatch (kindOf_flatFence req.toJson)
  have hs' : s' = (s.apply serverNow flat).1 := rfl
  have refused : (s.apply serverNow flat).1 = p → (∀ x, Resonate.received "task.fence"
      (e.sender.makeHead now).corrId false
        (s.send serverNow (e.fenceRequest subNow now req.toJson)).2 ≠ .ok x) →
      s' = p ∧ ∃ err, answer = .error err := by
    intro hp hx
    refine ⟨hs'.trans hp, ?_⟩
    cases ha : answer with
    | error err => exact ⟨err, rfl⟩
    | ok res =>
      obtain ⟨x, hok, -⟩ := fenceResult_ok ha
      exact absurd hok (hx x)
  by_cases hadm : p.Admits flat
  · obtain ⟨tid, htid, t, ht, hst, hver⟩ := id hadm
    obtain rfl : e.taskId = tid := Option.some.inj (htask.symm.trans htid)
    have hreq := ServerState.requireStr_of_task hwf htask ht
    have hheld : ¬ (t.state ≠ .acquired ∨ t.version ≠ versionOf flat) := by simp [hst, hver]
    unfold ServerState.taskFence at happly
    simp only [hreq, ht, if_neg hheld, fenceInner_eq, hkind, if_true] at happly
    cases hid : requireStr (fenceAction flat).2 "id" with
    | error err =>
      simp only [ServerState.promiseSettle, hid] at happly
      obtain ⟨hp, hanswer⟩ := refused (by rw [happly]) fun x hx =>
        received_refused hx (congrArg Prod.snd happly)
      refine Or.inl ⟨hp, hanswer, fun _ => ?_⟩
      by_contra hne
      rw [requireStr_ok.mpr ⟨hinner, hne⟩] at hid
      cases hid
    | ok id =>
      obtain rfl : req.id = id := Option.some.inj (hinner.symm.trans (requireStr_ok.mp hid).1)
      obtain ⟨inner, hi, hrec⟩ := @ServerState.promiseSettle_spec p serverNow _ _
        ((flat.get "corrId").getD .null) hid
      generalize hx : p.promiseSettle serverNow ((flat.get "corrId").getD .null)
        (fenceAction flat).2 = x at happly hi hrec
      obtain ⟨s₁, reply₁⟩ := x
      obtain rfl : reply₁ = .ok inner := hi
      have hstate : s' = s₁ := by rw [hs', happly]
      refine Or.inr ⟨hadm, rfl, ⟨(flat.get "corrId").getD .null, by rw [hx, hstate]⟩, ?_⟩
      rw [hstate, ← hrec]
      exact received_fence happly
  · have hlost : s' = p ∧ ∃ err, answer = .error err := by
      unfold ServerState.taskFence at happly
      cases hreq : requireStr flat "id" with
      | error err =>
        simp only [hreq] at happly
        exact refused (by rw [happly]) fun x hx => received_refused hx (congrArg Prod.snd happly)
      | ok tid =>
        obtain rfl : e.taskId = tid := Option.some.inj (htask.symm.trans (requireStr_ok.mp hreq).1)
        simp only [hreq] at happly
        cases ht : p.tasks.lookup e.taskId with
        | none =>
          simp only [ht] at happly
          refine refused (by rw [happly]) fun x hx => ?_
          have hst := (received_reply (n := 404) hx (by decide) (congrArg Prod.snd happly)).1
          omega
        | some t =>
          simp only [ht] at happly
          split_ifs at happly with hlease
          · refine refused (by rw [happly]) fun x hx => ?_
            have hst := (received_reply (n := 409) hx (by decide) (congrArg Prod.snd happly)).1
            omega
          · obtain ⟨hst, hver⟩ := not_or.mp hlease
            exact absurd ⟨e.taskId, htask, t, ht, not_not.mp hst, not_not.mp hver⟩ hadm
    exact Or.inl ⟨hlost.1, hlost.2, fun h => absurd h hadm⟩

theorem settlePromise_answered {r : PromiseRecord} (h : e.settlePromise id result = .answered (.ok r)) :
    e.cache.lookup id = some r ∧ r.state ≠ .pending := by
  unfold settlePromise at h
  cases hl : (e.cache.lookup id).filter fun r => r.state ≠ .pending with
  | some cached =>
    simp only [hl] at h
    cases h
    obtain ⟨hcached, hst⟩ := Option.filter_eq_some_iff.mp hl
    exact ⟨hcached, by simpa using hst⟩
  | none =>
    simp only [hl] at h
    split at h
    · cases h
    · split at h <;> cases h

theorem received_snd (e : Effects) (answer : Except Error TaskFenceResult) :
    (e.received answer).2 = answer.bind fun res => e.codec.decodePromise res.promise := by
  cases answer with
  | error err => rfl
  | ok res =>
    have hcodec : (e.absorb res.preload).codec = e.codec := by rw [absorb_eq]
    simp only [received, hcodec, Except.bind]
    cases e.codec.decodePromise res.promise <;> rfl

theorem fenceAnswer_ok {promise : Json} {preload : List Json} {res : TaskFenceResult}
    (h : fenceAnswer promise preload = .ok res) : PromiseRecord.ofJson promise = some res.promise := by
  unfold fenceAnswer at h
  cases hr : PromiseRecord.ofJson promise with
  | none => simp [hr] at h
  | some r =>
    simp only [hr] at h
    obtain rfl := Except.ok.inj h
    rfl

/-- After a settlement that reaches the server its result is recorded, if and only if the lease
is held and the promise pending, or it is recorded already. -/
theorem settled_recorded_iff (hs : WF s) (hrt : ∀ v, result = .ok (.ok v) → e.codec.RoundTrips v)
    (hfence : e.settlePromise id result = .fence action) :
    let flat := e.flatFence subNow now action
    let p := s.prepared serverNow flat
    e.codec.Recorded (s.deliver (.apply serverNow flat)) id result ↔
      p.Admits flat ∧ p.isPending id = true ∨ e.codec.Recorded p id result := by
  obtain ⟨req, rfl, rfl, data, hsettle, henc⟩ := settlePromise_fence hfence
  intro flat p
  have hwf : WF p := ServerState.prepared_wf hs serverNow flat
  rcases fence_settle hs e subNow now serverNow req with
    ⟨hstate, -, hadm⟩ | ⟨hadm, hid, ⟨corrId, hstate⟩, -⟩
  · rw [hstate]
    refine ⟨Or.inr, fun h => h.resolve_left ?_⟩
    rintro ⟨hadmits, hpend⟩
    obtain ⟨q, hq, -⟩ := ServerState.isPending_iff.mp hpend
    exact hwf.id_ne req.id q hq (hadm hadmits)
  · rw [hstate]
    cases hpend : p.isPending req.id with
    | true =>
      obtain ⟨q, hq, hst, hv⟩ := ServerState.promiseSettle_of_pending serverNow corrId hid hpend
      obtain ⟨hst', hv'⟩ := settleRecord_flatFence e subNow now req
      refine iff_of_true ⟨q, hq, carries_of_settlement hrt hsettle henc ?_ ?_⟩ (Or.inl ⟨hadm, rfl⟩)
      · rw [hst, hst']
      · rw [hv, hv']
    | false =>
      rw [ServerState.promiseSettle_of_settled corrId hid hpend]
      simp

theorem settled_heard (hs : WF s) (hfence : e.settlePromise id result = .fence action)
    {r : PromiseRecord} (h : (e.received (e.fenceResult now
      (s.send serverNow (e.fenceRequest subNow now action)).2)).2 = .ok r) :
    let flat := e.flatFence subNow now action
    let p := s.prepared serverNow flat
    p.Admits flat ∧ (p.isPending id = true ∨ e.codec.reads p id = .ok r) := by
  obtain ⟨req, rfl, rfl, -⟩ := settlePromise_fence hfence
  intro flat p
  rw [received_snd] at h
  rcases fence_settle hs e subNow now serverNow req with
    ⟨-, ⟨err, herr⟩, -⟩ | ⟨hadm, hid, ⟨corrId, hstate⟩, hanswer⟩
  · rw [herr] at h
    cases h
  · refine ⟨hadm, ?_⟩
    cases hpend : p.isPending req.id with
    | true => exact Or.inl rfl
    | false =>
      refine Or.inr ?_
      rw [hstate, ServerState.promiseSettle_of_settled corrId hid hpend] at hanswer
      rw [hanswer] at h
      cases hres : fenceAnswer (p.recordOf req.id) (p.preload e.taskId) with
      | error err =>
        rw [hres] at h
        cases h
      | ok res =>
        rw [hres] at h
        rw [Codec.reads, fenceAnswer_ok hres]
        exact h

end Fence

end Effects

end Resonate
