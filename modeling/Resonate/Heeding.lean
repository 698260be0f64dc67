import Resonate.Dispatch
import Resonate.Guided
import Resonate.Sleeps

/-!
# Requests that heed a plan

The requests that the handling of a planned task sends under its lease create and settle planned
promises as the plan says, so a server that follows the plan goes on following it. A request
under a lease that is over is refused.
-/

namespace Resonate
open Lib Lib.ForkJoin Network

namespace Plan

variable {codec : Codec} (plan : Plan codec)

structure HeedsRequest (req : Json) : Prop where
  creates : ∀ r id, createRequest req = some r → strField r "id" = some id → plan.Creates id r
  settles : ∀ r id, settleRequest req = some r → strField r "id" = some id →
    (plan.value id).isSome → settleStateOf r = .resolved ∧
      ∃ y, codec.decode (Value.ofJson (valueOf r)) = .ok y ∧ plan.value id = some (y.getD .null)
  named : ∀ r, settleRequest req = some r → ∃ id, strField r "id" = some id

variable {plan} {s : ServerState} {now : Int} {req : Json} {m : Move}

namespace HeedsRequest

theorem idle (hc : createRequest req = none) (hs : settleRequest req = none) :
    plan.HeedsRequest req where
  creates r id h := by
    rw [hc] at h
    cases h
  settles r id h := by
    rw [hs] at h
    cases h
  named r h := by
    rw [hs] at h
    cases h

theorem heeds (h : plan.HeedsRequest req) (hm : Move.From req m) : plan.Heeds m := by
  cases m with
  | plain act =>
    cases act with
    | addPending id r | addFulfilled id r | addAcquired id r pid ttl =>
      exact h.creates r id hm.1.1 hm.1.2
    | _ => trivial
  | settle id state value =>
    obtain ⟨r, hr, rfl, rfl, hid⟩ := hm
    obtain ⟨id', hid'⟩ := h.named r hr
    rw [hid', Option.getD_some] at hid
    subst hid
    exact h.settles r id hr hid'
  | expire ids => trivial
  | expireNew id r => exact h.creates r id hm.1 hm.2

theorem followed (h : plan.HeedsRequest req) (hf : plan.Followed s) (hc : Coherent s)
    (htyped : (Op.apply now req).Typed) (hnow : IsI64 now)
    (ht : plan.InTime (s.deliver (.apply now req))) : plan.Followed (s.deliver (.apply now req)) :=
  Followed.moves (s := { s with outgoing := [] }) hf hc.cleared hnow
    (exec_moves hc.cleared htyped) (fun _ hm => h.heeds hm) ht

end HeedsRequest

section Fences

variable {e : Effects} {action : Json} {subNow sent : Int}

theorem createPromise_encoded {creq : PromiseCreateReq} (h : e.createPromise creq = .fence action) :
    ∃ w, e.codec.encode creq.param.dataOrNull = .ok w ∧
      action = PromiseCreateReq.toJson { creq with param := w } := by
  unfold Effects.createPromise at h
  cases hl : e.cache.lookup creq.id with
  | some cached => simp [hl] at h
  | none =>
    simp only [hl] at h
    cases hw : e.codec.encode creq.param.dataOrNull with
    | error err => simp [hw] at h
    | ok w =>
      simp only [hw] at h
      exact ⟨w, rfl, (Begun.fence.inj h).symm⟩

theorem createRequest_create (e : Effects) (creq : PromiseCreateReq) (subNow sent : Int) :
    createRequest (e.flatFence subNow sent creq.toJson) =
      some (fenceAction (e.flatFence subNow sent creq.toJson)).2 ∧
    settleRequest (e.flatFence subNow sent creq.toJson) = none := by
  have hkind : (fenceAction (e.flatFence subNow sent creq.toJson)).1 = false := by
    rw [PromiseCreateReq.toJson, Effects.fenceAction_flatFence]
    rfl
  unfold createRequest settleRequest
  simp only [Effects.kindOf_flatFence, hkind]
  exact ⟨rfl, rfl⟩

theorem settleRequest_settle (e : Effects) (sreq : PromiseSettleReq) (subNow sent : Int) :
    settleRequest (e.flatFence subNow sent sreq.toJson) =
      some (fenceAction (e.flatFence subNow sent sreq.toJson)).2 ∧
    createRequest (e.flatFence subNow sent sreq.toJson) = none := by
  have hkind : (fenceAction (e.flatFence subNow sent sreq.toJson)).1 = true := by
    rw [PromiseSettleReq.toJson, Effects.fenceAction_flatFence]
    rfl
  unfold createRequest settleRequest
  simp only [Effects.kindOf_flatFence, hkind, if_true]
  exact ⟨trivial, trivial⟩

theorem tags_flatFence (e : Effects) (creq : PromiseCreateReq) (subNow sent : Int) (key : String) :
    (extractTags (fenceAction (e.flatFence subNow sent creq.toJson)).2).lookup key =
      creq.tags.lookup key := by
  refine lookup_extractTags ?_ key
  rw [PromiseCreateReq.toJson, Effects.fenceAction_flatFence, Json.get_obj, Json.lookup_insert,
    if_neg (by decide)]
  rfl

theorem heeds_create {creq : PromiseCreateReq} (hcodec : e.codec = codec) (hasks : plan.Asks creq)
    (h : e.createPromise creq = .fence action) :
    plan.HeedsRequest (e.flatFence subNow sent action) := by
  obtain ⟨w, hw, rfl⟩ := createPromise_encoded h
  obtain ⟨hcreate, hsettle⟩ := createRequest_create e { creq with param := w } subNow sent
  have hinner := ((Effects.Acts.create { creq with param := w } rfl).inner e subNow sent).1
  refine ⟨fun r id hr hid hp => ?_, fun r id hr => ?_, fun r hr => ?_⟩
  · have hparam := createRequest_flatFence hr
    obtain rfl := Option.some.inj (hcreate.symm.trans hr)
    obtain rfl := Option.some.inj (hinner.symm.trans hid)
    obtain ⟨y, hy, hyv⟩ := Codec.decode_encode hasks.takes.1.roundTrips (hcodec ▸ hw)
      (data_ofJson_toJson w)
    refine ⟨⟨y, by rw [hparam]; exact hy, ?_⟩, fun htimer => ?_⟩
    · rw [hyv]
      exact hasks.takes.2
    · rw [tags_flatFence] at htimer
      exact hasks.timer htimer
  · rw [hsettle] at hr
    cases hr
  · rw [hsettle] at hr
    cases hr

theorem decodes_planned {id : String} {j : Json} {w : Value} (hj : plan.value id = some j)
    (hw : codec.encode j = .ok w) : ∃ y, codec.decode (Value.ofJson w.toJson) = .ok y ∧
      plan.value id = some (y.getD .null) := by
  obtain ⟨y, hy, hyv⟩ := Codec.decode_encode (plan.writes id j hj).roundTrips hw (data_ofJson_toJson w)
  exact ⟨y, hy, by rw [hyv, hj]⟩

theorem heeds_settle {id : String} {j : Json} (hcodec : e.codec = codec)
    (hj : plan.value id = some j) (h : e.settlePromise id (.ok (.ok j)) = .fence action) :
    plan.HeedsRequest (e.flatFence subNow sent action) := by
  obtain ⟨⟨id', state, value⟩, rfl, rfl, data, hdata, hw⟩ := Effects.settlePromise_fence h
  obtain ⟨hsettle, hcreate⟩ := settleRequest_settle e ⟨id', state, value⟩ subNow sent
  have hinner := ((Effects.Acts.settle ⟨id', state, value⟩ rfl).inner e subNow sent).1
  obtain ⟨hstate, hvalue⟩ := Effects.settleRecord_flatFence e subNow sent ⟨id', state, value⟩
  obtain ⟨rfl, rfl⟩ := Prod.mk.inj (Except.ok.inj hdata)
  refine ⟨fun r id hr => ?_, fun r id hr hid _ => ?_, fun r hr => ?_⟩
  · rw [hcreate] at hr
    cases hr
  · obtain rfl := Option.some.inj (hsettle.symm.trans hr)
    obtain rfl := Option.some.inj (hinner.symm.trans hid)
    rw [hstate, hvalue]
    exact ⟨rfl, decodes_planned hj (hcodec ▸ hw)⟩
  · obtain rfl := Option.some.inj (hsettle.symm.trans hr)
    exact ⟨_, hinner⟩

theorem heeds_fulfill {head subHead : Head} {taskId : String} {version : Int} {j : Json} {w : Value}
    (hj : plan.value taskId = some j) (hw : codec.encode j = .ok w) :
    plan.HeedsRequest (unwrapRequestEnvelope (envelope "task.fulfill" head
      (taskFulfillData taskId version subHead ⟨taskId, .resolved, w⟩))) := by
  have hsettle : settleRequest (unwrapRequestEnvelope (envelope "task.fulfill" head
      (taskFulfillData taskId version subHead ⟨taskId, .resolved, w⟩))) =
        some (PromiseSettleReq.toJson ⟨taskId, .resolved, w⟩) := by
    unfold settleRequest
    simp only [kindOf_fulfill, action_fulfill]
  refine ⟨fun r id hr => ?_, fun r id hr hid _ => ?_, fun r hr => ?_⟩
  · unfold createRequest at hr
    simp only [kindOf_fulfill] at hr
    cases hr
  · obtain rfl := Option.some.inj (hsettle.symm.trans hr)
    obtain rfl : taskId = id := Option.some.inj hid
    exact ⟨PromiseSettleReq.settleStateOf_toJson _, decodes_planned hj hw⟩
  · obtain rfl := Option.some.inj (hsettle.symm.trans hr)
    exact ⟨taskId, rfl⟩

end Fences

end Plan

namespace Effects

section Admitted

variable {e : Effects} {s : ServerState} {subNow now serverNow : Int} {action : Json} {id : String}

/-- A fence under the lease is the inner request, and its answer tells the record of the
promise after it. -/
theorem fence_admitted (hs : WF s) (hv : IsI64 e.taskVersion)
    (hh : (s.prepared serverNow (e.flatFence subNow now action)).Holds e.taskId e.taskVersion)
    {inner : Json} {x : ServerState × Reply}
    (hx : (s.prepared serverNow (e.flatFence subNow now action)).fenceInner serverNow
      (((e.flatFence subNow now action).get "corrId").getD .null) (e.flatFence subNow now action) = x)
    (hi : x.2 = .ok inner) (hrec : (inner.get "promise").getD .null = x.1.recordOf id) :
    s.deliver (.apply serverNow (e.flatFence subNow now action)) = x.1 ∧
      e.fenceResult now (s.send serverNow (e.fenceRequest subNow now action)).2 =
        fenceAnswer (x.1.recordOf id) (x.1.preload e.taskId) := by
  obtain ⟨s', answer⟩ := x
  obtain rfl : answer = .ok inner := hi
  obtain ⟨t, ht, hst, hver⟩ := hh
  have hf : FenceRequest (e.flatFence subNow now action) e.taskId e.taskVersion :=
    fenceRequest_flatFence hv
  have hheld : ¬ (t.state ≠ .acquired ∨ t.version ≠ versionOf (e.flatFence subNow now action)) := by
    simp [hst, hver, hf.version_eq]
  have hwf := ServerState.prepared_wf hs serverNow (e.flatFence subNow now action)
  have happly : s.apply serverNow (e.flatFence subNow now action) =
      (s', reply .taskFence (((e.flatFence subNow now action).get "corrId").getD .null) 200
        [("action", .obj [("data", .obj [("promise", s'.recordOf id)])]),
          ("preload", .arr (s'.preload e.taskId))]) := by
    rw [ServerState.apply_eq_dispatch hf.kind]
    simp only [ServerState.dispatch, ServerState.taskFence,
      ServerState.requireStr_of_task hwf hf.id_eq ht, ht, if_neg hheld, hx, hrec]
  refine ⟨?_, received_fence happly⟩
  rw [deliver_apply, happly]

theorem create_admitted (req : PromiseCreateReq) (hs : WF s) (hv : IsI64 e.taskVersion)
    (hh : (s.prepared serverNow (e.flatFence subNow now req.toJson)).Holds e.taskId e.taskVersion)
    (hne : req.id ≠ "") :
    let s' := s.deliver (.apply serverNow (e.flatFence subNow now req.toJson))
    (s'.promises.lookup req.id).isSome ∧
      e.fenceResult now (s.send serverNow (e.fenceRequest subNow now req.toJson)).2 =
        fenceAnswer (s'.recordOf req.id) (s'.preload e.taskId) := by
  have hkind : (fenceAction (e.flatFence subNow now req.toJson)).1 = false := by
    rw [PromiseCreateReq.toJson, fenceAction_flatFence]
    rfl
  have hid : requireStr (fenceAction (e.flatFence subNow now req.toJson)).2 "id" = .ok req.id :=
    requireStr_ok.mpr ⟨((Acts.create req rfl).inner e subNow now).1, hne⟩
  obtain ⟨⟨inner, hi, hrec⟩, -, hsome⟩ :=
    @ServerState.promiseCreate_spec (s.prepared serverNow (e.flatFence subNow now req.toJson))
      serverNow _ _ (((e.flatFence subNow now req.toJson).get "corrId").getD .null) hid
  have hinner : ∀ p : ServerState, p.fenceInner serverNow
      (((e.flatFence subNow now req.toJson).get "corrId").getD .null)
      (e.flatFence subNow now req.toJson) = p.promiseCreate serverNow
        (((e.flatFence subNow now req.toJson).get "corrId").getD .null)
          (fenceAction (e.flatFence subNow now req.toJson)).2 := by
    intro p
    rw [fenceInner_eq, hkind, if_neg (by decide)]
  obtain ⟨hstate, hanswer⟩ := fence_admitted hs hv hh (hinner _) hi hrec
  rw [hstate]
  exact ⟨ServerState.view_isSome ▸ hsome, hanswer⟩

theorem settle_admitted (req : PromiseSettleReq) (hs : WF s) (hv : IsI64 e.taskVersion)
    (hh : (s.prepared serverNow (e.flatFence subNow now req.toJson)).Holds e.taskId e.taskVersion)
    (hne : req.id ≠ "") :
    let s' := s.deliver (.apply serverNow (e.flatFence subNow now req.toJson))
    e.fenceResult now (s.send serverNow (e.fenceRequest subNow now req.toJson)).2 =
      fenceAnswer (s'.recordOf req.id) (s'.preload e.taskId) := by
  have hkind : (fenceAction (e.flatFence subNow now req.toJson)).1 = true := by
    rw [PromiseSettleReq.toJson, fenceAction_flatFence]
    rfl
  have hid : requireStr (fenceAction (e.flatFence subNow now req.toJson)).2 "id" = .ok req.id :=
    requireStr_ok.mpr ⟨((Acts.settle req rfl).inner e subNow now).1, hne⟩
  obtain ⟨inner, hi, hrec⟩ :=
    @ServerState.promiseSettle_spec (s.prepared serverNow (e.flatFence subNow now req.toJson))
      serverNow _ _ (((e.flatFence subNow now req.toJson).get "corrId").getD .null) hid
  have hinner : ∀ p : ServerState, p.fenceInner serverNow
      (((e.flatFence subNow now req.toJson).get "corrId").getD .null)
      (e.flatFence subNow now req.toJson) = p.promiseSettle serverNow
        (((e.flatFence subNow now req.toJson).get "corrId").getD .null)
          (fenceAction (e.flatFence subNow now req.toJson)).2 := by
    intro p
    rw [fenceInner_eq, hkind, if_pos rfl]
  obtain ⟨hstate, hanswer⟩ := fence_admitted hs hv hh (hinner _) hi hrec
  rw [hstate]
  exact hanswer

end Admitted

end Effects

namespace Plan

variable {codec : Codec} {plan : Plan codec} {held : Set String} {s : ServerState} {e : Effects}
  {id : String} {action : Json} {subNow now serverNow : Int}

theorem Followed.answered (hc : Coherent s) (hact : Effects.Acts id action)
    (hp : (plan.value id).isSome)
    (hf : plan.Followed (s.deliver (.apply serverNow (e.flatFence subNow now action))))
    (hheld : ∀ a, ((s.deliver (.apply serverNow
      (e.flatFence subNow now action))).promises.lookup a).isSome → a ∈ held)
    (hl : ((s.deliver (.apply serverNow
      (e.flatFence subNow now action))).promises.lookup id).isSome)
    (hans : e.fenceResult now (s.send serverNow (e.fenceRequest subNow now action)).2 =
      fenceAnswer ((s.deliver (.apply serverNow (e.flatFence subNow now action))).recordOf id)
        ((s.deliver (.apply serverNow (e.flatFence subNow now action))).preload e.taskId)) :
    plan.Answered held e.sender id now (s.send serverNow (e.fenceRequest subNow now action)).2 := by
  intro e' hsender
  have hsame : e'.fenceResult now (s.send serverNow (e.fenceRequest subNow now action)).2 =
      e.fenceResult now (s.send serverNow (e.fenceRequest subNow now action)).2 := by
    unfold Effects.fenceResult
    rw [hsender]
  obtain ⟨p, hlook⟩ := Option.isSome_iff_exists.mp hl
  have hok : ∃ res, e.fenceResult now
      (s.send serverNow (e.fenceRequest subNow now action)).2 = .ok res := by
    rw [hans, fenceAnswer, hf.parses hp hlook]
    exact ⟨_, rfl⟩
  obtain ⟨res, hres⟩ := hok
  obtain ⟨⟨hshow, hid⟩, hpre⟩ := Effects.fence_shows hc hact hres
  have hc' := deliver_coherent hc (hact.typed e subNow now serverNow)
  refine ⟨res, hsame.trans hres, hid, fun r hmem => ?_⟩
  rcases List.mem_cons.mp hmem with rfl | hmem
  · exact hf.reads hc' hheld hshow
  · exact hf.reads hc' hheld (hpre r hmem)

end Plan

end Resonate
