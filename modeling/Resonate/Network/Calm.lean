import Resonate.Network.Guarded

/-!
# Fences while nothing is due

While the lease is held and no promise is due, a fenced operation is answered with the record
of its promise after it. A creation of a promise that exists changes nothing, and no operation
changes the record of another promise, or the lease.
-/

namespace Resonate.Network
open Lib

/-- A promise without the tasks and addresses that wait for it. -/
def DurablePromise.bare (p : DurablePromise) : DurablePromise :=
  { p with awaiters := [], subscribers := [] }

theorem WF.deliver {s : ServerState} (h : WF s) (op : Op) : WF (s.deliver op) :=
  WF.exec (s := { s with outgoing := [] }) ⟨h.promise_of_task, h.id_ne⟩ op

namespace ServerState

variable {s s' : ServerState} {now : Int} {id a : String} {corrId req : Json} {v : Int}

def view (s : ServerState) (a : String) : Option DurablePromise :=
  (s.promises.lookup a).map DurablePromise.bare

def Calm (s : ServerState) (now : Int) : Prop := ∀ id, s.isDue now id = false

theorem view_of_some {p : DurablePromise} (h : s.promises.lookup a = some p) :
    s.view a = some p.bare := by
  rw [view, h]
  rfl

theorem view_isSome : (s.view a).isSome = (s.promises.lookup a).isSome := by
  rw [view, Option.isSome_map]

theorem recordOf_view : s.recordOf a = ((s.view a).map DurablePromise.toRecord).getD .null := by
  unfold recordOf view
  cases s.promises.lookup a <;> rfl

theorem recordOf_congr (h : s.view a = s'.view a) : s.recordOf a = s'.recordOf a := by
  rw [recordOf_view, recordOf_view, h]

theorem isPending_congr (h : s.view a = s'.view a) : s.isPending a = s'.isPending a := by
  have hview : ∀ s : ServerState, s.isPending a = (s.view a).any fun p => p.state = .pending := by
    intro s
    unfold isPending view
    cases s.promises.lookup a <;> rfl
  rw [hview, hview, h]

theorem settled_view : (s.settled id now).view a = s.view a := by
  have hbare : ∀ p : DurablePromise, (s.chainRecord id a p).bare = p.bare := by
    intro p
    unfold chainRecord
    split_ifs <;> rfl
  rw [view, settled_promises, Option.map_map, view]
  exact congrArg (Option.map · _) (funext hbare)

theorem settleAt_view {state : PromiseState} {value : Json} (h : a ≠ id) :
    (s.settleAt id state value now).view a = s.view a := by
  simp [view, settleAt, h]

theorem addExpired_view (h : a ≠ id) : (s.addExpired id req).view a = s.view a := by
  simp [view, addExpired, h]

theorem addPending_view (h : a ≠ id) : (s.addPending id req now).view a = s.view a := by
  simp [view, addPending_promises, h]

theorem settled_holds (h : s.Holds id v) (hne : id ≠ a) : (s.settled a now).Holds id v := by
  obtain ⟨t, ht, hst, hv⟩ := h
  unfold Holds
  rw [settled_tasks, if_neg hne, ht]
  split_ifs
  · refine ⟨resumedTask a t, rfl, ?_, ?_⟩
    · simp [resumedTask, hst]
    · simp [resumedTask, hst, hv]
  · exact ⟨t, rfl, hst, hv⟩

theorem autoTimeouts_calm (h : s.Calm now) (ids : List String) : s.autoTimeouts now ids = s := by
  induction ids with
  | nil => rfl
  | cons id ids ih => rw [autoTimeouts_cons, tryAutoTimeout_of_not_due _ _ _ (h id), ih]

theorem prepared_calm (h : s.Calm now) : s.prepared now req = { s with outgoing := [] } :=
  autoTimeouts_calm (s := { s with outgoing := [] }) h _

theorem promiseCreate_spec (corrId : Json) (hid : requireStr req "id" = .ok id) :
    (∃ inner, (s.promiseCreate now corrId req).2 = .ok inner ∧
      (inner.get "promise").getD .null = (s.promiseCreate now corrId req).1.recordOf id) ∧
    ((s.view id).isSome → (s.promiseCreate now corrId req).1 = s) ∧
    ((s.promiseCreate now corrId req).1.view id).isSome := by
  unfold promiseCreate
  simp only [hid]
  cases hp : s.promises.lookup id with
  | some p =>
    refine ⟨⟨_, rfl, ?_⟩, fun _ => rfl, ?_⟩
    · simp only [recordOf, hp]
      rfl
    · simp only [view_isSome, hp]
      rfl
  | none =>
    have hnone : (s.view id).isSome ≠ true := by simp [view_isSome, hp]
    dsimp only
    split_ifs
    · have hview : ((s.addExpired id req).settled id now).view id =
          some (expiredPromise id req).bare := by
        rw [settled_view, view_of_some (p := expiredPromise id req) (by simp [addExpired])]
      refine ⟨⟨_, rfl, ?_⟩, fun h => absurd h hnone, by rw [hview]; rfl⟩
      rw [recordOf_view, hview]
      rfl
    · have hview : (s.addPending id req now).view id = some (pendingPromise id req now).bare := by
        rw [view_of_some (p := pendingPromise id req now) (by simp [addPending_promises])]
      refine ⟨⟨_, rfl, ?_⟩, fun h => absurd h hnone, by rw [hview]; rfl⟩
      rw [recordOf_view, hview]
      rfl

theorem promiseCreate_view (hid : requireStr req "id" = .ok id) (h : a ≠ id) :
    (s.promiseCreate now corrId req).1.view a = s.view a := by
  unfold promiseCreate
  simp only [hid]
  cases s.promises.lookup id with
  | some p => rfl
  | none =>
    dsimp only
    split_ifs
    · rw [settled_view, addExpired_view h]
    · exact addPending_view h

theorem promiseCreate_holds (hid : requireStr req "id" = .ok id) (h : s.Holds a v)
    (hp : (s.view a).isSome) : (s.promiseCreate now corrId req).1.Holds a v := by
  unfold promiseCreate
  simp only [hid]
  cases hl : s.promises.lookup id with
  | some p => exact h
  | none =>
    have hne : a ≠ id := by
      intro heq
      rw [view_isSome, heq, hl] at hp
      cases hp
    obtain ⟨t, ht, hst, hv⟩ := h
    dsimp only
    split_ifs
    · exact settled_holds (s := s.addExpired id req) ⟨t, ht, hst, hv⟩ hne
    · refine ⟨t, ?_, hst, hv⟩
      rw [addPending_tasks]
      split_ifs
      · simp [hne, ht]
      · exact ht

theorem promiseSettle_spec (corrId : Json) (hid : requireStr req "id" = .ok id) :
    ∃ inner, (s.promiseSettle now corrId req).2 = .ok inner ∧
      (inner.get "promise").getD .null = (s.promiseSettle now corrId req).1.recordOf id := by
  unfold promiseSettle
  simp only [hid]
  cases hp : s.promises.lookup id with
  | none =>
    refine ⟨_, rfl, ?_⟩
    simp only [recordOf, hp]
    rfl
  | some p =>
    dsimp only
    split_ifs
    · refine ⟨_, rfl, ?_⟩
      simp only [recordOf, hp]
      rfl
    · refine ⟨_, rfl, ?_⟩
      rw [recordOf_view, settled_view,
        view_of_some (p := settleRecord (settleStateOf req) (valueOf req) now p)
          (by simp [settleAt, hp])]
      rfl

theorem promiseSettle_view (hid : requireStr req "id" = .ok id) (h : a ≠ id) :
    (s.promiseSettle now corrId req).1.view a = s.view a := by
  unfold promiseSettle
  simp only [hid]
  cases s.promises.lookup id with
  | none => rfl
  | some p =>
    dsimp only
    split_ifs
    · rfl
    · rw [settled_view, settleAt_view h]

theorem promiseSettle_holds (hid : requireStr req "id" = .ok id) (h : s.Holds a v) (hne : a ≠ id) :
    (s.promiseSettle now corrId req).1.Holds a v := by
  unfold promiseSettle
  simp only [hid]
  cases s.promises.lookup id with
  | none => exact h
  | some p =>
    dsimp only
    split_ifs
    · exact h
    · exact settled_holds (s := s.settleAt id (settleStateOf req) (valueOf req) now)
        (by simpa [settleAt, Holds] using h) hne

end ServerState

def fenceAnswer (promise : Json) (preload : List Json) : Except Error TaskFenceResult :=
  match PromiseRecord.ofJson promise with
  | some record => .ok ⟨record, preload.filterMap PromiseRecord.ofJson⟩
  | none => .error (.decodingError "invalid promise in fence response")

end Resonate.Network

namespace Resonate
open Lib Network

namespace Effects

variable {e : Effects} {s s' : ServerState} {subNow now serverNow : Int} {action : Json} {id : String}

theorem received_fence {promise : Json} {preload : List Json}
    (h : s.apply serverNow (e.flatFence subNow now action) =
      (s', reply .taskFence (((e.flatFence subNow now action).get "corrId").getD .null) 200
        [("action", .obj [("data", .obj [("promise", promise)])]), ("preload", .arr preload)])) :
    e.fenceResult now (s.send serverNow (e.fenceRequest subNow now action)).2 =
      fenceAnswer promise preload := by
  have hcorr : ((e.flatFence subNow now action).get "corrId").getD .null =
      .str (e.sender.makeHead now).corrId := by
    rw [flatFence, fenceRequest, ← request, taskFenceData, request_obj, Json.get_obj,
      Json.lookup_insert, if_pos rfl]
    rfl
  have hsend : (s.send serverNow (e.fenceRequest subNow now action)).2 =
      .ok (wrapResponseEnvelope (.obj [("kind", .str "task.fence"),
        ("corrId", .str (e.sender.makeHead now).corrId), ("status", .num 200),
        ("action", .obj [("data", .obj [("promise", promise)])]), ("preload", .arr preload)])) := by
    have h' := h
    rw [flatFence] at h'
    rw [ServerState.send, h', ← flatFence, hcorr]
    rfl
  rw [hsend, fenceResult, received_of_match rfl rfl]
  rfl

/-- A fence under the lease is the inner request, and its answer tells the record of the
promise after it. -/
theorem fence_calm (hs : WF s) (hh : s.Holds e.taskId e.taskVersion) (hq : s.Calm serverNow)
    (hv : Json.i64Min ≤ e.taskVersion ∧ e.taskVersion ≤ Json.i64Max) {inner : Json}
    {x : ServerState × Reply} (hx : ({ s with outgoing := [] } : ServerState).fenceInner serverNow
      (((e.flatFence subNow now action).get "corrId").getD .null) (e.flatFence subNow now action) = x)
    (hi : x.2 = .ok inner) (hrec : (inner.get "promise").getD .null = x.1.recordOf id) :
    s.deliver (.apply serverNow (e.flatFence subNow now action)) = x.1 ∧
      e.fenceResult now (s.send serverNow (e.fenceRequest subNow now action)).2 =
        fenceAnswer (x.1.recordOf id) (x.1.preload e.taskId) := by
  obtain ⟨s', answer⟩ := x
  obtain rfl : answer = .ok inner := hi
  obtain ⟨t, ht, hst, hver⟩ := hh
  have hf : FenceRequest (e.flatFence subNow now action) e.taskId e.taskVersion :=
    fenceRequest_flatFence hv
  have hheld : ¬ (t.state ≠ .acquired ∨ t.version ≠ versionOf (e.flatFence subNow now action)) := by
    simp [hst, hver, hf.version_eq]
  have happly : s.apply serverNow (e.flatFence subNow now action) =
      (s', reply .taskFence (((e.flatFence subNow now action).get "corrId").getD .null) 200
        [("action", .obj [("data", .obj [("promise", s'.recordOf id)])]),
          ("preload", .arr (s'.preload e.taskId))]) := by
    rw [ServerState.apply_eq_dispatch hf.kind, ServerState.prepared_calm hq]
    simp only [ServerState.dispatch, ServerState.taskFence,
      ServerState.requireStr_of_task hs hf.id_eq ht, ht, if_neg hheld, hx, hrec]
  refine ⟨?_, received_fence happly⟩
  rw [deliver_apply, happly]

/-- What a fence on the promise `id` does under the lease. -/
structure Fenced (e : Effects) (id : String) (s s' : ServerState)
    (result : Except Error TaskFenceResult) : Prop where
  answer : result = fenceAnswer (s'.recordOf id) (s'.preload e.taskId)
  others : ∀ a, a ≠ id → s'.view a = s.view a
  lease : s'.Holds e.taskId e.taskVersion

theorem create_calm {req : PromiseCreateReq} (hs : WF s) (hh : s.Holds e.taskId e.taskVersion)
    (hq : s.Calm serverNow) (hv : Json.i64Min ≤ e.taskVersion ∧ e.taskVersion ≤ Json.i64Max)
    (hne : req.id ≠ "") :
    let s' := s.deliver (.apply serverNow (e.flatFence subNow now req.toJson))
    Fenced e req.id s s' (e.fenceResult now
      (s.send serverNow (e.fenceRequest subNow now req.toJson)).2) ∧
      ((s.view req.id).isSome → s' = { s with outgoing := [] }) ∧ (s'.view req.id).isSome := by
  have hkind : (fenceAction (e.flatFence subNow now req.toJson)).1 = false := by
    rw [PromiseCreateReq.toJson, fenceAction_flatFence]
    rfl
  have hid : requireStr (fenceAction (e.flatFence subNow now req.toJson)).2 "id" = .ok req.id :=
    requireStr_ok.mpr ⟨((Acts.create req rfl).inner e subNow now).1, hne⟩
  have hspec := @ServerState.promiseCreate_spec { s with outgoing := [] } serverNow _ _
    (((e.flatFence subNow now req.toJson).get "corrId").getD .null) hid
  have hinner : ({ s with outgoing := [] } : ServerState).fenceInner serverNow
      (((e.flatFence subNow now req.toJson).get "corrId").getD .null)
      (e.flatFence subNow now req.toJson) = ({ s with outgoing := [] } : ServerState).promiseCreate
        serverNow (((e.flatFence subNow now req.toJson).get "corrId").getD .null)
          (fenceAction (e.flatFence subNow now req.toJson)).2 := by
    rw [fenceInner_eq, hkind, if_neg (by decide)]
  obtain ⟨⟨inner, hi, hrec⟩, hsame, hsome⟩ := hspec
  obtain ⟨hstate, hanswer⟩ := fence_calm hs hh hq hv hinner hi hrec
  have hown : (s.view e.taskId).isSome := by
    obtain ⟨t, ht, -⟩ := hh
    obtain ⟨p, hp⟩ := hs.promise_of_task e.taskId t ht
    rw [ServerState.view_of_some hp]
    rfl
  rw [hstate]
  exact ⟨⟨hanswer, fun a ha => ServerState.promiseCreate_view hid ha,
    ServerState.promiseCreate_holds hid hh hown⟩, hsame, hsome⟩

theorem settle_calm {req : PromiseSettleReq} (hs : WF s) (hh : s.Holds e.taskId e.taskVersion)
    (hq : s.Calm serverNow) (hv : Json.i64Min ≤ e.taskVersion ∧ e.taskVersion ≤ Json.i64Max)
    (hne : req.id ≠ "") (hown : req.id ≠ e.taskId) :
    Fenced e req.id s (s.deliver (.apply serverNow (e.flatFence subNow now req.toJson)))
      (e.fenceResult now (s.send serverNow (e.fenceRequest subNow now req.toJson)).2) := by
  have hkind : (fenceAction (e.flatFence subNow now req.toJson)).1 = true := by
    rw [PromiseSettleReq.toJson, fenceAction_flatFence]
    rfl
  have hid : requireStr (fenceAction (e.flatFence subNow now req.toJson)).2 "id" = .ok req.id :=
    requireStr_ok.mpr ⟨((Acts.settle req rfl).inner e subNow now).1, hne⟩
  have hspec := @ServerState.promiseSettle_spec { s with outgoing := [] } serverNow _ _
    (((e.flatFence subNow now req.toJson).get "corrId").getD .null) hid
  have hinner : ({ s with outgoing := [] } : ServerState).fenceInner serverNow
      (((e.flatFence subNow now req.toJson).get "corrId").getD .null)
      (e.flatFence subNow now req.toJson) = ({ s with outgoing := [] } : ServerState).promiseSettle
        serverNow (((e.flatFence subNow now req.toJson).get "corrId").getD .null)
          (fenceAction (e.flatFence subNow now req.toJson)).2 := by
    rw [fenceInner_eq, hkind, if_pos rfl]
  obtain ⟨inner, hi, hrec⟩ := hspec
  obtain ⟨hstate, hanswer⟩ := fence_calm hs hh hq hv hinner hi hrec
  rw [hstate]
  exact ⟨hanswer, fun a ha => ServerState.promiseSettle_view hid ha,
    ServerState.promiseSettle_holds hid hh (Ne.symm hown)⟩

end Effects

end Resonate
