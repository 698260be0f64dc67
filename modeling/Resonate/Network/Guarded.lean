import Resonate.Network.Answers

/-!
# The fence is its bare action

With the lease of the task in hand, a fenced action leaves the server in the state that
the bare request leaves it in. The answer tells the same, unless the action settles a
promise that does not exist: the fence answers that with 200 and no promise.
-/

namespace Resonate.Network
open Lib

/-- The bare request of a fenced action: its kind and its fields, under any correlation id. -/
structure Bare (req bare : Json) : Prop where
  kind : ReqKind.ofName (kindOf bare) =
    some (if (fenceAction req).1 then .promiseSettle else .promiseCreate)
  fields : ∀ key, key ≠ "kind" → key ≠ "corrId" → bare.get key = (fenceAction req).2.get key

def answeredPromise : Reply → Option Json
  | .ok v => v.get "promise"
  | .error _ => none

def fencedPromise : Reply → Option Json
  | .ok v => ((v.get "action").bind (·.get "data")).bind (·.get "promise")
  | .error _ => none

def Refuses : Reply → Prop
  | .ok v => 400 ≤ ((v.get "status").bind Json.asU64).getD 200
  | .error _ => True

/-- What the fence does is what the bare request does, and it answers alike. -/
structure AgreesWithBare (s : ServerState) (now : Int) (req bare : Json) : Prop where
  state : (s.apply now req).1 = (s.apply now bare).1
  promise : fencedPromise (s.apply now req).2 = answeredPromise (s.apply now bare).2
  status : Refuses (s.apply now req).2 ↔ Refuses (s.apply now bare).2

def Alike (r r' : Reply) : Prop :=
  answeredPromise r = answeredPromise r' ∧ (Refuses r ↔ Refuses r') ∧
    ∀ e, r = .error e ↔ r' = .error e

section Congruence

variable {s : ServerState} {now : Int} {c c' r r' : Json}

theorem Alike.refl (r : Reply) : Alike r r := ⟨rfl, Iff.rfl, fun _ => Iff.rfl⟩

theorem alike_reply {kind : ReqKind} {status : Int} {fields : List (String × Json)} :
    Alike (reply kind c status fields) (reply kind c' status fields) := by
  refine ⟨rfl, Iff.rfl, fun e => ⟨fun h => ?_, fun h => ?_⟩⟩ <;> cases h

theorem requireStr_congr {field : String} (h : r.get field = r'.get field) :
    requireStr r field = requireStr r' field := by
  simp only [requireStr, strField, h]

theorem promiseCreate_congr
    (h : ∀ key, key ≠ "kind" → key ≠ "corrId" → r.get key = r'.get key) :
    (s.promiseCreate now c r).1 = (s.promiseCreate now c' r').1 ∧
      Alike (s.promiseCreate now c r).2 (s.promiseCreate now c' r').2 := by
  have htimeout : timeoutAtOf r = timeoutAtOf r' := by
    rw [timeoutAtOf, timeoutAtOf, h "timeoutAt" (by decide) (by decide)]
  have hparam : paramOf r = paramOf r' := by
    rw [paramOf, paramOf, h "param" (by decide) (by decide)]
  have htags : extractTags r = extractTags r' := by
    rw [extractTags, extractTags, h "tags" (by decide) (by decide)]
  have hexpired : ∀ id, expiredPromise id r = expiredPromise id r' := fun id => by
    simp only [expiredPromise, htimeout, hparam, htags]
  have hpending : ∀ id, pendingPromise id r now = pendingPromise id r' now := fun id => by
    simp only [pendingPromise, htimeout, hparam, htags]
  simp only [ServerState.promiseCreate, requireStr_congr (h "id" (by decide) (by decide)),
    htimeout, ServerState.addExpired, ServerState.addPending, hexpired, hpending]
  split
  · exact ⟨rfl, Alike.refl _⟩
  · split
    · exact ⟨rfl, alike_reply⟩
    · split_ifs
      · exact ⟨rfl, alike_reply⟩
      · exact ⟨rfl, alike_reply⟩

theorem promiseSettle_congr
    (h : ∀ key, key ≠ "kind" → key ≠ "corrId" → r.get key = r'.get key) :
    (s.promiseSettle now c r).1 = (s.promiseSettle now c' r').1 ∧
      Alike (s.promiseSettle now c r).2 (s.promiseSettle now c' r').2 := by
  have hstate : settleStateOf r = settleStateOf r' := by
    rw [settleStateOf, settleStateOf, h "state" (by decide) (by decide)]
  have hvalue : valueOf r = valueOf r' := by
    rw [valueOf, valueOf, h "value" (by decide) (by decide)]
  simp only [ServerState.promiseSettle, requireStr_congr (h "id" (by decide) (by decide)),
    hstate, hvalue]
  split
  · exact ⟨rfl, Alike.refl _⟩
  · split
    · exact ⟨rfl, alike_reply⟩
    · split_ifs
      · exact ⟨rfl, alike_reply⟩
      · exact ⟨rfl, alike_reply⟩

end Congruence

section Answers

variable {s : ServerState} {now : Int} {c r : Json}

theorem refuses_reply {kind : ReqKind} {status : Int} {fields : List (String × Json)}
    (h : 0 ≤ status ∧ status < 2 ^ 64) : Refuses (reply kind c status fields) ↔ 400 ≤ status := by
  have hu : (Json.num status).asU64 = some status := by
    simp only [Json.asU64]
    exact if_pos h
  simp [Refuses, reply, List.lookup_cons, hu]

theorem get_reply {kind : ReqKind} {status : Int} {v : Json} :
    (Json.obj ([("kind", Json.str kind.name), ("corrId", c), ("status", .num status)] ++
      [("promise", v)])).get "promise" = some v := rfl

/-- The answer is an error, or has the promise and no error status. -/
def Tells (x : Reply) : Prop :=
  (∃ e, x = .error e) ∨ ∃ v p, x = .ok v ∧ v.get "promise" = some p ∧ ¬ Refuses (.ok v)

theorem promiseCreate_tells : Tells (s.promiseCreate now c r).2 := by
  have hok : ∀ (status : Int) (record : Json), 0 ≤ status ∧ status < 400 →
      ∃ v p, reply .promiseCreate c status [("promise", record)] = .ok v ∧
        v.get "promise" = some p ∧ ¬ Refuses (.ok v) := by
    intro status record hs
    refine ⟨_, record, rfl, get_reply, fun h => ?_⟩
    have := (refuses_reply (by omega)).mp h
    omega
  unfold ServerState.promiseCreate
  cases requireStr r "id" with
  | error e => exact Or.inl ⟨e, rfl⟩
  | ok id =>
    right
    dsimp only
    split
    · exact hok 200 _ (by decide)
    · split_ifs
      · exact hok 200 _ (by decide)
      · exact hok 201 _ (by decide)

theorem promiseSettle_tells : Tells (s.promiseSettle now c r).2 ↔
    ∀ a, requireStr r "id" = .ok a → s.promises.lookup a ≠ none := by
  unfold ServerState.promiseSettle
  cases hid : requireStr r "id" with
  | error e =>
    refine ⟨fun _ a h => ?_, fun _ => Or.inl ⟨e, rfl⟩⟩
    cases h
  | ok a =>
    have hok : ∀ record : Json, Tells (reply .promiseSettle c 200 [("promise", record)]) := by
      intro record
      refine Or.inr ⟨_, record, rfl, get_reply, fun h => ?_⟩
      exact absurd ((refuses_reply (by decide)).mp h) (by decide)
    cases hp : s.promises.lookup a with
    | none =>
      simp only [hp]
      refine ⟨fun h => ?_, fun h => absurd hp (h a rfl)⟩
      rcases h with ⟨e, he⟩ | ⟨v, p, hv, hget, -⟩
      · cases he
      · obtain rfl := Except.ok.inj hv
        cases hget
    | some p =>
      have hne : ∀ b, Except.ok a = (.ok b : Except Error String) → s.promises.lookup b ≠ none := by
        intro b hb
        obtain rfl := Except.ok.inj hb
        simp [hp]
      simp only [hp]
      split_ifs
      · exact ⟨fun _ => hne, fun _ => hok _⟩
      · exact ⟨fun _ => hne, fun _ => hok _⟩

end Answers

section Prepared

variable {s : ServerState} {now : Int} {req bare : Json} {id : String}

theorem get_fenceAction {key : String} (hk : key ≠ "kind") :
    (fenceAction req).2.get key = (extractActionData (actionOf req)).get key := by
  have hobj : ((extractActionData (actionOf req)).asObject.getD []).lookup key =
      (extractActionData (actionOf req)).get key := by
    cases extractActionData (actionOf req) <;> rfl
  rw [fenceAction, Json.get_obj, Json.lookup_insert, if_neg hk, hobj]

theorem autoTimeouts_cons (a : String) (ids : List String) :
    s.autoTimeouts now (a :: ids) = (s.tryAutoTimeout now a).autoTimeouts now ids := rfl

theorem prepared_bare (hs : WF s) (hk : ReqKind.ofName (kindOf req) = some .taskFence)
    (hid : strField req "id" = some id) (hacq : (s.prepared now req).taskIs id .acquired)
    (hb : Bare req bare) : s.prepared now req = s.prepared now bare := by
  have hnamed : namedPromises (ReqKind.ofName (kindOf req)) req =
      id :: (strField (extractActionData (actionOf req)) "id").toList := by
    rw [hk, namedPromises, hid]
    rfl
  have hfield : strField bare "id" = strField (extractActionData (actionOf req)) "id" := by
    rw [strField, strField, hb.fields "id" (by decide) (by decide), get_fenceAction (by decide)]
  have hbare : namedPromises (ReqKind.ofName (kindOf bare)) bare =
      [(strField (extractActionData (actionOf req)) "id").getD ""] := by
    rw [hb.kind, ← hfield]
    split_ifs <;> rfl
  have hdue : ({ s with outgoing := [] } : ServerState).isDue now id = false := by
    have h := (ServerState.taskIs_acquired_prepared.mp hacq).2
    rw [hnamed] at h
    have hmem : id ∈ id :: (strField (extractActionData (actionOf req)) "id").toList := by simp
    exact Bool.eq_false_iff.mpr fun hd => h ⟨hmem, hd⟩
  rw [ServerState.prepared, ServerState.prepared, hnamed, hbare, autoTimeouts_cons,
    ServerState.tryAutoTimeout_of_not_due _ _ _ hdue]
  cases ha : strField (extractActionData (actionOf req)) "id" with
  | some a => rfl
  | none =>
    have hempty : ({ s with outgoing := [] } : ServerState).isDue now "" = false := by
      cases hp : s.promises.lookup "" with
      | none => simp [ServerState.isDue, hp]
      | some p => exact absurd rfl (hs.id_ne "" p hp)
    rw [Option.getD_none, autoTimeouts_cons, ServerState.tryAutoTimeout_of_not_due _ _ _ hempty]
    rfl

theorem prepared_missing (a : String) :
    (s.prepared now req).promises.lookup a = none ↔ s.promises.lookup a = none := by
  have hone : ∀ (s : ServerState) (b : String),
      (s.tryAutoTimeout now b).promises.lookup a = none ↔ s.promises.lookup a = none := by
    intro s b
    by_cases hd : s.isDue now b = true
    · rw [ServerState.tryAutoTimeout_of_due _ _ _ hd, ServerState.settled_promises]
      simp only [ServerState.expire, ServerState.delPTimeout_promises, HashMap.lookup_modify,
        Option.map_eq_none_iff]
      split_ifs with h
      · rw [Option.map_eq_none_iff, h]
      · rfl
    · rw [ServerState.tryAutoTimeout_of_not_due _ _ _ (by simpa using hd)]
  have hall : ∀ (ids : List String) (s : ServerState),
      (s.autoTimeouts now ids).promises.lookup a = none ↔ s.promises.lookup a = none := by
    intro ids
    induction ids with
    | nil => exact fun s => Iff.rfl
    | cons b ids ih =>
      intro s
      rw [autoTimeouts_cons, ih, hone]
  exact hall _ _

end Prepared

section Fence

variable {s : ServerState} {req bare : Json} {id : String} {t : Task} (now : Int) (corrId : Json)

theorem taskFence_held (hid : requireStr req "id" = .ok id) (ht : s.tasks.lookup id = some t)
    (hacq : t.state = .acquired) (hv : t.version = versionOf req) :
    (s.taskFence now corrId req).1 = (s.fenceInner now corrId req).1 ∧
      (∀ e, (s.fenceInner now corrId req).2 = .error e → (s.taskFence now corrId req).2 = .error e) ∧
        ∀ inner, (s.fenceInner now corrId req).2 = .ok inner →
          fencedPromise (s.taskFence now corrId req).2 = some ((inner.get "promise").getD .null) ∧
            ¬ Refuses (s.taskFence now corrId req).2 := by
  have hheld : ¬ (t.state ≠ .acquired ∨ t.version ≠ versionOf req) := by simp [hacq, hv]
  simp only [ServerState.taskFence, hid, ht, if_neg hheld]
  obtain ⟨s', r⟩ := s.fenceInner now corrId req
  cases r with
  | error e => exact ⟨rfl, fun _ h => h, fun _ h => by cases h⟩
  | ok inner =>
    refine ⟨rfl, fun _ h => (by cases h), fun inner' h => ?_⟩
    obtain rfl := Except.ok.inj h
    exact ⟨rfl, fun h => absurd ((refuses_reply (by decide)).mp h) (by decide)⟩

theorem fenceInner_bare (c' : Json) (hb : Bare req bare) :
    ∃ x, x = s.dispatch now c' bare (if (fenceAction req).1 then .promiseSettle else .promiseCreate) ∧
      (s.fenceInner now corrId req).1 = x.1 ∧ Alike (s.fenceInner now corrId req).2 x.2 := by
  refine ⟨_, rfl, ?_⟩
  have hfields : ∀ key, key ≠ "kind" → key ≠ "corrId" → (fenceAction req).2.get key = bare.get key :=
    fun key hk hc => (hb.fields key hk hc).symm
  rw [fenceInner_eq]
  cases (fenceAction req).1
  · exact promiseCreate_congr hfields
  · exact promiseSettle_congr hfields

end Fence

section Agreement

variable {s : ServerState} {now : Int} {req bare : Json} {id : String} {t : Task}

/-- The fence agrees with the bare request whenever the inner answer tells the promise. -/
theorem agrees_iff_tells (hs : WF s) (hk : ReqKind.ofName (kindOf req) = some .taskFence)
    (hid : strField req "id" = some id) (ht : (s.prepared now req).tasks.lookup id = some t)
    (hacq : t.state = .acquired) (hv : t.version = versionOf req) (hb : Bare req bare) :
    AgreesWithBare s now req bare ↔
      Tells ((s.prepared now req).fenceInner now ((req.get "corrId").getD .null) req).2 := by
  obtain ⟨u, hu, -⟩ := (ServerState.taskIs_acquired_prepared.mp ⟨t, ht, hacq⟩).1
  obtain ⟨hstate, herror, hok⟩ := taskFence_held now ((req.get "corrId").getD .null)
    (ServerState.requireStr_of_task hs hid hu) ht hacq hv
  obtain ⟨x, hx, hxs, hpromise, hrefuses, -⟩ := fenceInner_bare (s := s.prepared now req) now
    ((req.get "corrId").getD .null) ((bare.get "corrId").getD .null) hb
  have hreq : s.apply now req = (s.prepared now req).taskFence now _ req :=
    ServerState.apply_eq_dispatch hk
  have hbare : s.apply now bare = x := by
    rw [ServerState.apply_eq_dispatch hb.kind, ← prepared_bare hs hk hid ⟨t, ht, hacq⟩ hb, hx]
  have hiff : AgreesWithBare s now req bare ↔
      fencedPromise (s.apply now req).2 = answeredPromise x.2 ∧
        (Refuses (s.apply now req).2 ↔ Refuses x.2) := by
    refine ⟨fun h => ?_, fun h => ⟨?_, ?_, ?_⟩⟩
    · rw [← hbare]
      exact ⟨h.promise, h.status⟩
    · rw [hbare, hreq, hstate, hxs]
    · rw [hbare, h.1]
    · rw [hbare, h.2]
  rw [hiff, hreq, ← hpromise, ← hrefuses]
  cases hi : ((s.prepared now req).fenceInner now ((req.get "corrId").getD .null) req).2 with
  | error e =>
    rw [herror e hi]
    exact ⟨fun _ => Or.inl ⟨e, rfl⟩, fun _ => ⟨rfl, Iff.rfl⟩⟩
  | ok v =>
    have hanswer := hok v hi
    rw [hanswer.1]
    constructor
    · intro h
      have hnot : ¬ Refuses (.ok v) := fun hr => hanswer.2 (h.2.mpr hr)
      exact Or.inr ⟨v, _, rfl, h.1.symm, hnot⟩
    · intro h
      rcases h with ⟨e, he⟩ | ⟨v', p, hv', hget, hnot⟩
      · cases he
      · obtain rfl := Except.ok.inj hv'
        refine ⟨by rw [answeredPromise, hget, Option.getD_some], ?_⟩
        exact ⟨fun hr => absurd hr hanswer.2, fun hr => absurd hr hnot⟩

end Agreement

/-- A fenced action agrees with its bare request exactly if it does not settle a promise
that the server does not have. -/
theorem fence_agrees_iff {ops : List Op} {now : Int} {req bare : Json} {id : String} {t : Task}
    (hk : ReqKind.ofName (kindOf req) = some .taskFence) (hid : strField req "id" = some id)
    (ht : ((ServerState.init.run ops).prepared now req).tasks.lookup id = some t)
    (hacq : t.state = .acquired) (hv : t.version = versionOf req) (hb : Bare req bare) :
    AgreesWithBare (ServerState.init.run ops) now req bare ↔
      ((fenceAction req).1 = true → ∀ a, requireStr bare "id" = .ok a →
        (ServerState.init.run ops).promises.lookup a ≠ none) := by
  rw [agrees_iff_tells (WF.init.run ops) hk hid ht hacq hv hb, fenceInner_eq]
  have hfield : requireStr bare "id" = requireStr (fenceAction req).2 "id" :=
    requireStr_congr (hb.fields "id" (by decide) (by decide))
  cases hset : (fenceAction req).1 with
  | false =>
    exact ⟨fun _ h => (by cases h), fun _ => promiseCreate_tells⟩
  | true =>
    rw [if_pos rfl, promiseSettle_tells, ← hfield]
    have hmissing : ∀ a, ((ServerState.init.run ops).prepared now req).promises.lookup a ≠ none ↔
        (ServerState.init.run ops).promises.lookup a ≠ none := fun a => not_congr (prepared_missing a)
    exact ⟨fun h _ a ha => (hmissing a).mp (h a ha), fun h a ha => (hmissing a).mpr (h rfl a ha)⟩

theorem bare_flatFence (e : Effects) (subNow now : Int) (head : Head)
    (fields : List (String × Json)) :
    Bare (e.flatFence subNow now (.obj fields))
      (request (fenceKind (.obj fields)) head (.obj fields)) where
  kind := by
    rw [kindOf_request, Effects.fenceAction_flatFence]
    cases hs : (fields.lookup "state").isSome <;> simp [fenceKind, hs, ReqKind.ofName]
  fields key hk hc := by
    rw [get_request hk hc, Effects.fenceAction_flatFence, Json.get_obj, Json.lookup_insert, if_neg hk]

def fencingWorker : Effects := ⟨⟨none⟩, nullCodec, "t", 0, ∅⟩

/-- Under the lease, the creation of a promise is the bare creation, and its settlement once it
exists the bare settlement. -/
theorem fence_agrees_settle :
    let created : Op := .apply 3 (fencingWorker.flatFence 3 3 (PromiseCreateReq.toJson
      { id := "t:0", timeoutAt := 1000, param := {}, tags := ∅ }))
    let settled : PromiseSettleReq := ⟨"t:0", .resolved, {}⟩
    AgreesWithBare (ServerState.init.run [reacquireRun[0]]) 3
        (fencingWorker.flatFence 3 3 (PromiseCreateReq.toJson (.defaultWithId "t:0")))
        (request "promise.create" ⟨"sr-3", none⟩
          (PromiseCreateReq.toJson (.defaultWithId "t:0"))) ∧
      AgreesWithBare (ServerState.init.run [reacquireRun[0], created]) 4
        (fencingWorker.flatFence 4 4 (PromiseSettleReq.toJson settled))
        (request "promise.settle" ⟨"sr-4", none⟩ (PromiseSettleReq.toJson settled)) := by
  have ht : ((ServerState.init.run [reacquireRun[0]]).prepared 3
      (fencingWorker.flatFence 3 3 (PromiseCreateReq.toJson (.defaultWithId "t:0")))).tasks.lookup "t" =
        some ⟨"t", .acquired, 0, some "w1", some 60000, []⟩ := rfl
  refine ⟨(fence_agrees_iff rfl rfl ht rfl rfl (bare_flatFence ..)).mpr fun h => ?_,
    (fence_agrees_iff rfl rfl (t := ⟨"t", .acquired, 0, some "w1", some 60000, []⟩) rfl rfl rfl
      (bare_flatFence ..)).mpr fun _ a ha => ?_⟩
  · exact absurd h (by decide)
  · obtain rfl : a = "t:0" := (Except.ok.inj ha).symm
    decide

/-- Settling a promise that does not exist: 404 bare, and 200 with a null promise fenced. -/
theorem fence_settles_missing :
    ∃ req bare, Bare req bare ∧
      ((ServerState.init.run [reacquireRun[0]]).prepared 3 req).Holds "t" 0 ∧
      fencedPromise ((ServerState.init.run [reacquireRun[0]]).apply 3 req).2 = some .null ∧
      ¬ AgreesWithBare (ServerState.init.run [reacquireRun[0]]) 3 req bare := by
  refine ⟨fencingWorker.flatFence 3 3 (PromiseSettleReq.toJson ⟨"t:0", .resolved, {}⟩), _,
    bare_flatFence _ _ _ ⟨"sr-3", none⟩ _, ⟨⟨"t", .acquired, 0, some "w1", some 60000, []⟩, rfl,
      rfl, rfl⟩,
    rfl, fun h => ?_⟩
  have hbare : (400 : Int) ≤ 404 := by omega
  have hfence : (400 : Int) ≤ 200 := h.status.mpr hbare
  omega

end Resonate.Network
