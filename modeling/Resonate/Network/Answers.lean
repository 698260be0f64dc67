import Resonate.Network.Rest
import Resonate.Network.Fence

/-!
# What the answers show

The records in the server's answers are those of its promises after the request. This is
shown for the requests of a worker: acquisition, creation of a task, the fence and
suspension, together with what a redirect says about the task and its awaited promises.
-/

namespace Resonate
open Lib

namespace Network

/-- The record is what the server's promise of that id serializes to. -/
def ServerState.Shows (s : ServerState) (r : PromiseRecord) : Prop :=
  ∃ p, s.promises.lookup r.id = some p ∧ PromiseRecord.ofJson p.toRecord = some r

section Records

variable {s : ServerState} {a : String} {p : DurablePromise} {r : PromiseRecord}

theorem lookup_strMapOfJson (m m' : HashMap String) (h : strMapOfJson (strMapToJson m) = some m')
    (key : String) :
    m'.lookup key = m.lookup key := by
  have hmap : (m.entries.map fun e => (e.1, Json.str e.2)).mapM strEntry = some m.entries := by
    induction m.entries with
    | nil => rfl
    | cons e es ih => simp [List.mapM_cons, ih, strEntry]
  simp only [strMapToJson, strMapOfJson, hmap, Option.map_some, Option.some.injEq] at h
  rw [← h, AList.lookup_to_alist]
  rfl

theorem ofJson_toRecord_id (h : PromiseRecord.ofJson p.toRecord = some r) : r.id = p.id := by
  simp only [PromiseRecord.ofJson, asFields_toRecord, Option.bind_eq_bind, Option.bind_eq_some_iff,
    get_toRecord_id, Option.pure_def, Option.some.injEq] at h
  obtain ⟨id, ⟨_, rfl, hid⟩, state, -, param, -, value, -, tags, -, timeoutAt, -, createdAt, -,
    settledAt, -, rfl⟩ := h
  exact (Option.some.inj hid).symm

theorem get_toRecord_tags (p : DurablePromise) : p.toRecord.get "tags" = some (strMapToJson p.tags) :=
  rfl

theorem ofJson_toRecord_tags (h : PromiseRecord.ofJson p.toRecord = some r) (key : String) :
    r.tags.lookup key = p.tags.lookup key := by
  simp only [PromiseRecord.ofJson, asFields_toRecord, Option.bind_eq_bind, Option.bind_eq_some_iff,
    get_toRecord_tags, fieldOr, Option.pure_def, Option.some.injEq] at h
  obtain ⟨id, -, state, -, param, -, value, -, tags, htags, timeoutAt, -, createdAt, -, settledAt, -,
    rfl⟩ := h
  exact lookup_strMapOfJson p.tags tags htags key

theorem Coherent.shows (h : Coherent s) (hp : s.promises.lookup a = some p)
    (hr : PromiseRecord.ofJson p.toRecord = some r) : r.id = a ∧ s.Shows r := by
  have hid : r.id = a := (ofJson_toRecord_id hr).trans ((h.cell a).promise p hp).id
  exact ⟨hid, p, by rw [hid, hp], hr⟩

theorem ServerState.Shows.pending (h : s.Shows r) (hst : r.state = .pending) :
    s.isPending r.id = true := by
  obtain ⟨p, hp, hr⟩ := h
  exact ServerState.isPending_iff.mpr ⟨p, hp, (ofJson_toRecord hr).1 ▸ hst⟩

theorem Coherent.preload_shows (h : Coherent s) {promiseId : String} {d : Json} {key : String}
    (hd : d.get key = some (.arr (s.preload promiseId)))
    (hr : r ∈ parseRecords PromiseRecord.ofJson d key) : s.Shows r := by
  simp only [parseRecords, hd, Option.bind_some, Json.asArray, Option.getD_some,
    List.mem_filterMap] at hr
  obtain ⟨v, hv, hr⟩ := hr
  unfold ServerState.preload at hv
  cases hb : (s.promises.lookup promiseId).bind (·.tags.lookup "resonate:branch") with
  | none => simp [hb] at hv
  | some branch =>
    simp only [hb, List.mem_map, List.mem_filter] at hv
    obtain ⟨p, ⟨hp, -⟩, rfl⟩ := hv
    obtain ⟨a, ha⟩ := HashMap.mem_values.mp hp
    exact (h.shows ha hr).2

end Records

section Wire

variable {s : ServerState} {now : Int} {kind corrId : String} {req : Json} {x : ℕ × Json}

theorem received_send (h : received kind corrId false (s.send now req).2 = .ok x) :
    ∃ flat, (s.apply now (unwrapRequestEnvelope req)).2 = .ok flat ∧
      responseData false (wrapResponseEnvelope flat) = .ok x := by
  cases hs : (s.send now req).2 with
  | error e =>
    rw [hs] at h
    cases h
  | ok resp =>
    obtain ⟨flat, hflat, rfl⟩ := send_snd hs
    refine ⟨flat, hflat, ?_⟩
    rw [hs] at h
    change (checkResponse _ _ _).bind _ = _ at h
    unfold checkResponse at h
    dsimp only at h
    split_ifs at h
    · cases h
    · cases h
    · exact h

theorem asU64_natCast {n : ℕ} (hn : n < 2 ^ 16) : (Json.num n).asU64 = some (n : Int) := by
  have hlt : (n : Int) < 2 ^ 64 := by omega
  simp only [Json.asU64]
  exact if_pos ⟨Int.natCast_nonneg n, hlt⟩

theorem wrap_status (flat : Json) :
    ((wrapResponseEnvelope flat).get "head").bind (·.get "status") =
      some (.num (((flat.get "status").bind Json.asU64).getD 200)) := rfl

theorem received_reply (h : received kind corrId false (s.send now req).2 = .ok x) {k : ReqKind}
    {c : Json} {n : ℕ} {fields : List (String × Json)} (hn : n < 2 ^ 16)
    (hr : (s.apply now (unwrapRequestEnvelope req)).2 = reply k c n fields) :
    n < 400 ∧ x.1 = n ∧ ∀ key, key ≠ "kind" → key ≠ "corrId" → key ≠ "status" →
      x.2.get key = fields.lookup key := by
  obtain ⟨flat, hflat, hx⟩ := received_send h
  rw [hr] at hflat
  obtain rfl := Except.ok.inj hflat
  have hstatus : ((((wrapResponseEnvelope (.obj ([("kind", .str k.name), ("corrId", c),
      ("status", .num n)] ++ fields))).get "head").bind (·.get "status")).bind Json.asU64).getD 200 =
        (n : Int) := by
    have hlook : (Json.obj ([("kind", .str k.name), ("corrId", c), ("status", .num n)] ++
        fields)).get "status" = some (.num n) := rfl
    rw [wrap_status, hlook, Option.bind_some, Option.bind_some, asU64_natCast hn, Option.getD_some,
      asU64_natCast hn, Option.getD_some]
  obtain ⟨hdata, hlt, hst⟩ := responseData_ok hx
  rw [hstatus, Int.toNat_natCast, Nat.mod_eq_of_lt hn] at hst
  refine ⟨hst ▸ hlt, hst, fun key hk hc hs => ?_⟩
  have hget : ((wrapResponseEnvelope (.obj ([("kind", .str k.name), ("corrId", c),
      ("status", .num n)] ++ fields))).get "data").bind (·.get key) = _ := get_wrap hk hc hs
  have hskip : ([("kind", .str k.name), ("corrId", c), ("status", .num n)] ++ fields :
      List (String × Json)).lookup key = fields.lookup key := by
    simp only [List.cons_append, List.nil_append, List.lookup_cons, beq_eq_false_iff_ne.mpr hk,
      beq_eq_false_iff_ne.mpr hc, beq_eq_false_iff_ne.mpr hs]
  rw [hskip] at hget
  rw [hdata, ← hget]
  rfl

end Wire

def acquireResult (head : Head) (answer : Except Error Json) : Except Error TaskAcquireResult := do
  let (_, data) ← received "task.acquire" head.corrId false answer
  parseTaskAcquire data

def createResult (head : Head) (answer : Except Error Json) : Except Error TaskAcquireResult := do
  let (_, data) ← received "task.create" head.corrId false answer
  parseTaskAcquire data

def suspendResult (head : Head) (answer : Except Error Json) : Except Error SuspendResult := do
  let (status, data) ← received "task.suspend" head.corrId false answer
  return parseSuspendResult status data

def acquireRequest (head : Head) (id : String) (version : Int) (pid : String) (ttl : Int) : Json :=
  envelope "task.acquire" head (taskAcquireData id version pid ttl)

def createRequestOf (head subHead : Head) (pid : String) (ttl : Int) (action : PromiseCreateReq) :
    Json :=
  envelope "task.create" head (taskCreateData pid ttl subHead action)

def suspendRequest (head : Head) (id : String) (version : Int)
    (actions : List (Head × PromiseRegisterCallbackData)) : Json :=
  envelope "task.suspend" head (taskSuspendData id version actions)

section Acquire

variable {s : ServerState} {now : Int} {head subHead : Head} {id pid : String} {version ttl : Int}
variable {result : TaskAcquireResult}

/-- What a task that was granted is given: its own task and promise, records of the server,
and no recorded resumes. -/
structure Granted (s : ServerState) (id : String) (result : TaskAcquireResult) : Prop where
  task : result.task.id = id
  promise : result.promise.id = id ∧ s.Shows result.promise
  preload : ∀ r ∈ result.preload, s.Shows r
  rested : s.Rested id

theorem parseRecord_ok {α : Type} {f : Json → Option α} {d : Json} {key : String} {r : α}
    (h : parseRecord f d key = .ok r) : ∃ v, d.get key = some v ∧ f v = some r := by
  unfold parseRecord at h
  cases hv : d.get key with
  | none => simp [hv] at h
  | some v =>
    simp only [hv] at h
    cases hr : f v with
    | none => simp [hr] at h
    | some r' =>
      simp only [hr, Except.ok.injEq] at h
      exact ⟨v, rfl, by rw [hr, h]⟩

theorem parseTaskAcquire_ok {d : Json} (h : parseTaskAcquire d = .ok result) :
    (∃ v, d.get "task" = some v ∧ TaskRecord.ofJson v = some result.task) ∧
      (∃ v, d.get "promise" = some v ∧ PromiseRecord.ofJson v = some result.promise) ∧
        result.preload = parseRecords PromiseRecord.ofJson d "preload" := by
  unfold parseTaskAcquire at h
  cases ht : parseRecord TaskRecord.ofJson d "task" with
  | error e =>
    rw [ht] at h
    cases h
  | ok task =>
    cases hp : parsePromise d with
    | error e =>
      rw [ht, hp] at h
      cases h
    | ok promise =>
      rw [ht, hp] at h
      obtain rfl := Except.ok.inj h
      exact ⟨parseRecord_ok ht, parseRecord_ok hp, rfl⟩

theorem acquireResult_ok {answer : Except Error Json} (h : acquireResult head answer = .ok result) :
    ∃ x, received "task.acquire" head.corrId false answer = .ok x ∧
      parseTaskAcquire x.2 = .ok result := by
  unfold acquireResult at h
  cases hx : received "task.acquire" head.corrId false answer with
  | error e =>
    rw [hx] at h
    cases h
  | ok x =>
    rw [hx] at h
    exact ⟨x, rfl, h⟩

theorem Coherent.recordOf_shows (hc : Coherent s) {v : Json} {r : PromiseRecord}
    (hv : v = s.recordOf id) (hr : PromiseRecord.ofJson v = some r) : r.id = id ∧ s.Shows r := by
  subst hv
  unfold ServerState.recordOf at hr
  cases hp : s.promises.lookup id with
  | none => simp [hp, PromiseRecord.ofJson, Json.get] at hr
  | some p =>
    simp only [hp] at hr
    exact hc.shows hp hr

@[simp] theorem asFields_task_toRecord (t : Task) (names : List String) :
    t.toRecord.asFields names = t.toRecord :=
  rfl

theorem ofJson_task_id {t : Task} {r : TaskRecord} (h : TaskRecord.ofJson t.toRecord = some r) :
    r.id = t.id := by
  have hid : t.toRecord.get "id" = some (.str t.id) := rfl
  simp only [TaskRecord.ofJson, asFields_task_toRecord, hid, Option.bind_eq_bind,
    Option.bind_eq_some_iff, Option.pure_def, Option.some.injEq] at h
  obtain ⟨id, ⟨_, rfl, hid⟩, state, -, version, -, resumes, -, ttl, -, pid, -, rfl⟩ := h
  exact (Option.some.inj hid).symm

theorem Coherent.taskRecordOf_id (hc : Coherent s) {v : Json} {r : TaskRecord}
    (hv : v = s.taskRecordOf id) (hr : TaskRecord.ofJson v = some r) : r.id = id := by
  subst hv
  unfold ServerState.taskRecordOf at hr
  cases ht : s.tasks.lookup id with
  | none => simp [ht, TaskRecord.ofJson, Json.get] at hr
  | some t =>
    simp only [ht] at hr
    exact (ofJson_task_id hr).trans ((hc.cell id).task t ht).id

theorem kindOf_acquire : ReqKind.ofName (kindOf (unwrapRequestEnvelope
    (acquireRequest head id version pid ttl))) =
    some .taskAcquire := by
  rw [acquireRequest, ← request, taskAcquireData, kindOf_request]
  rfl

theorem id_acquire : strField (unwrapRequestEnvelope (acquireRequest head id version pid ttl))
    "id" = some id := by
  rw [acquireRequest, ← request, taskAcquireData, strField, get_request (by decide) (by decide)]
  rfl

theorem typed_acquire :
    (Op.apply now (unwrapRequestEnvelope (acquireRequest head id version pid ttl))).Typed := by
  refine typed_of_not_settle ?_ ?_
  · simp [settleRequest, kindOf_acquire]
  · simp [kindOf_acquire]

theorem received_refused {kind corrId : String} {req : Json} {x : ℕ × Json}
    (h : received kind corrId false (s.send now req).2 = .ok x) {e : Error}
    (he : (s.apply now (unwrapRequestEnvelope req)).2 = .error e) : False := by
  obtain ⟨flat, hflat, -⟩ := received_send h
  rw [he] at hflat
  cases hflat

theorem prepared_coherent (hc : Coherent s) (now : Int) (req : Json) : Coherent (s.prepared now req) :=
  (prepared_moves now (P := fun _ => True) hc req fun _ _ => trivial).coherent hc.cleared

theorem Coherent.granted (hc : Coherent s) {t : Task} (ht : s.tasks.lookup id = some t)
    (hst : t.state = .pending) {d w v : Json} (hw : w = (s.grantLease id pid ttl now).taskRecordOf id)
    (hwr : TaskRecord.ofJson w = some result.task) (hv : v = s.recordOf id)
    (hr : PromiseRecord.ofJson v = some result.promise)
    (hpre : d.get "preload" = some (.arr (s.preload id)))
    (hresult : result.preload = parseRecords PromiseRecord.ofJson d "preload") :
    Granted (s.grantLease id pid ttl now) id result ∧ result.promise.state = .pending := by
  have hpr : (s.grantLease id pid ttl now).promises = s.promises := rfl
  have hshow : ∀ r, s.Shows r → (s.grantLease id pid ttl now).Shows r := fun r h => h
  obtain ⟨hid, hshows⟩ := hc.recordOf_shows hv hr
  have hlook : (s.grantLease id pid ttl now).tasks.lookup id = some (acquireTask pid ttl t) := by
    simp [ServerState.grantLease, ServerState.setTTimeout, ht]
  refine ⟨⟨?_, ⟨hid, hshow _ hshows⟩, fun r hmem => ?_, fun u hu _ => ?_⟩, ?_⟩
  · rw [hw, ServerState.taskRecordOf, hlook] at hwr
    exact (ofJson_task_id hwr).trans ((hc.cell id).task t ht).id
  · rw [hresult] at hmem
    exact hshow r (hc.preload_shows hpre hmem)
  · obtain rfl := Option.some.inj (hlook.symm.trans hu)
    rfl
  · obtain ⟨p, hp, hpj⟩ := hshows
    rw [(ofJson_toRecord hpj).1]
    rw [hid] at hp
    by_contra hne
    have hful := ((hc.cell id).fulfilled_iff p hp t ht).mpr hne
    rw [hst] at hful
    cases hful

theorem acquire_granted (hc : Coherent s)
    (h : acquireResult head (s.send now (acquireRequest head id version pid ttl)).2 = .ok result) :
    Granted (s.deliver (.apply now (unwrapRequestEnvelope (acquireRequest head id version pid ttl))))
      id result ∧ result.promise.state = .pending := by
  obtain ⟨x, hx, hparse⟩ := acquireResult_ok h
  obtain ⟨⟨w, hw, hwr⟩, ⟨v, hv, hr⟩, hpre⟩ := parseTaskAcquire_ok hparse
  have hprep := prepared_coherent hc now
    (unwrapRequestEnvelope (acquireRequest head id version pid ttl))
  have happly : s.apply now (unwrapRequestEnvelope (acquireRequest head id version pid ttl)) =
      (s.prepared now _).taskAcquire now _ _ := ServerState.apply_eq_dispatch kindOf_acquire
  rw [deliver_apply]
  unfold ServerState.taskAcquire at happly
  cases hid : requireStr (unwrapRequestEnvelope (acquireRequest head id version pid ttl)) "id" with
  | error e =>
    simp only [hid] at happly
    exact (received_refused hx (congrArg Prod.snd happly)).elim
  | ok id' =>
    have hf := (requireStr_ok.mp hid).1
    rw [id_acquire] at hf
    obtain rfl := Option.some.inj hf
    simp only [hid] at happly
    cases ht : (s.prepared now (unwrapRequestEnvelope
        (acquireRequest head id version pid ttl))).tasks.lookup id with
    | none =>
      simp only [ht] at happly
      have hst := (received_reply (n := 404) hx (by decide) (congrArg Prod.snd happly)).1
      omega
    | some t =>
      simp only [ht] at happly
      by_cases hst : t.state = .pending
      · rw [if_neg (not_not.mpr hst)] at happly
        obtain ⟨-, -, hget⟩ := received_reply (n := 200) hx (by decide) (congrArg Prod.snd happly)
        rw [happly]
        have htask := hget "task" (by decide) (by decide) (by decide)
        have hpromise := hget "promise" (by decide) (by decide) (by decide)
        refine hprep.granted ht hst (Option.some.inj (hw.symm.trans htask)) hwr ?_ hr
          (hget "preload" (by decide) (by decide) (by decide)) hpre
        exact Option.some.inj (hv.symm.trans hpromise)
      · rw [if_pos hst] at happly
        have hst' := (received_reply (n := 409) hx (by decide) (congrArg Prod.snd happly)).1
        omega

end Acquire

section Create

variable {s : ServerState} {now : Int} {head subHead : Head} {pid : String} {ttl : Int}
variable {action : PromiseCreateReq} {result : TaskAcquireResult}

theorem createResult_ok {answer : Except Error Json} (h : createResult head answer = .ok result) :
    ∃ x, received "task.create" head.corrId false answer = .ok x ∧
      parseTaskAcquire x.2 = .ok result := by
  unfold createResult at h
  cases hx : received "task.create" head.corrId false answer with
  | error e =>
    rw [hx] at h
    cases h
  | ok x =>
    rw [hx] at h
    exact ⟨x, rfl, h⟩

theorem kindOf_create : ReqKind.ofName (kindOf (unwrapRequestEnvelope
    (createRequestOf head subHead pid ttl action))) = some .taskCreate := by
  rw [createRequestOf, ← request, taskCreateData, kindOf_request]
  rfl

theorem action_create : extractActionData (actionOf (unwrapRequestEnvelope
    (createRequestOf head subHead pid ttl action))) = action.toJson := by
  rw [createRequestOf, ← request, taskCreateData, actionOf, get_request (by decide) (by decide)]
  rfl

theorem typed_create : (Op.apply now (unwrapRequestEnvelope
    (createRequestOf head subHead pid ttl action))).Typed := by
  refine typed_of_not_settle ?_ ?_
  · simp [settleRequest, kindOf_create]
  · simp [kindOf_create]

theorem ServerState.addAcquired_task (s : ServerState) (id : String) (req : Json) (pid : String)
    (ttl now : Int) : (s.addAcquired id req pid ttl now).tasks.lookup id =
      some ⟨id, .acquired, 0, some pid, some ttl, []⟩ := by
  unfold ServerState.addAcquired
  dsimp only
  split_ifs <;> simp [ServerState.setTTimeout, ServerState.setPTimeout]

theorem create_granted (hc : Coherent s)
    (h : createResult head (s.send now (createRequestOf head subHead pid ttl action)).2 = .ok result) :
    Granted (s.deliver (.apply now (unwrapRequestEnvelope
      (createRequestOf head subHead pid ttl action)))) action.id result := by
  obtain ⟨x, hx, hparse⟩ := createResult_ok h
  obtain ⟨⟨w, hw, hwr⟩, ⟨v, hv, hr⟩, hpre⟩ := parseTaskAcquire_ok hparse
  have htyped : (Op.apply now (unwrapRequestEnvelope
      (createRequestOf head subHead pid ttl action))).Typed := typed_create
  have hc' := deliver_coherent hc htyped
  have hprep := prepared_coherent hc now
    (unwrapRequestEnvelope (createRequestOf head subHead pid ttl action))
  have happly : s.apply now (unwrapRequestEnvelope (createRequestOf head subHead pid ttl action)) =
      (s.prepared now _).taskCreate now _ _ := ServerState.apply_eq_dispatch kindOf_create
  rw [deliver_apply] at hc' ⊢
  unfold ServerState.taskCreate at happly
  cases hpid : requireStr (unwrapRequestEnvelope (createRequestOf head subHead pid ttl action))
    "pid" with
  | error e =>
    simp only [hpid] at happly
    exact (received_refused hx (congrArg Prod.snd happly)).elim
  | ok pid' =>
    rw [action_create] at happly
    cases hid : requireStr action.toJson "id" with
    | error e =>
      simp only [hpid, hid] at happly
      exact (received_refused hx (congrArg Prod.snd happly)).elim
    | ok id' =>
      obtain rfl : action.id = id' := Option.some.inj (requireStr_ok.mp hid).1
      simp only [hpid, hid] at happly
      cases ht : (s.prepared now (unwrapRequestEnvelope
          (createRequestOf head subHead pid ttl action))).tasks.lookup action.id with
      | some t =>
        simp only [ht] at happly
        cases hst : t.state with
        | pending =>
          simp only [hst] at happly
          obtain ⟨-, -, hget⟩ := received_reply (n := 200) hx (by decide) (congrArg Prod.snd happly)
          rw [happly]
          have htask := hget "task" (by decide) (by decide) (by decide)
          have hpromise := hget "promise" (by decide) (by decide) (by decide)
          exact (hprep.granted ht hst (Option.some.inj (hw.symm.trans htask)) hwr
            (Option.some.inj (hv.symm.trans hpromise)) hr
            (hget "preload" (by decide) (by decide) (by decide)) hpre).1
        | fulfilled =>
          simp only [hst] at happly
          obtain ⟨-, -, hget⟩ := received_reply (n := 200) hx (by decide) (congrArg Prod.snd happly)
          rw [happly] at hc' ⊢
          have htask := hget "task" (by decide) (by decide) (by decide)
          obtain rfl : t.toRecord = w := Option.some.inj (htask.symm.trans hw)
          have hpromise := hget "promise" (by decide) (by decide) (by decide)
          refine ⟨(ofJson_task_id hwr).trans ((hprep.cell _).task t ht).id,
            hc'.recordOf_shows (Option.some.inj (hv.symm.trans hpromise)) hr, fun r hmem => ?_,
            fun u hu hus => ?_⟩
          · rw [hpre] at hmem
            exact hc'.preload_shows (hget "preload" (by decide) (by decide) (by decide)) hmem
          · obtain rfl := Option.some.inj (ht.symm.trans hu)
            rw [hst] at hus
            cases hus
        | _ =>
          simp only [hst] at happly
          have hst' := (received_reply (n := 409) hx (by decide) (congrArg Prod.snd happly)).1
          omega
      | none =>
        simp only [ht] at happly
        split_ifs at happly with hex hlate
        · have hst' := (received_reply (n := 409) hx (by decide) (congrArg Prod.snd happly)).1
          omega
        · obtain ⟨-, -, hget⟩ := received_reply (n := 200) hx (by decide) (congrArg Prod.snd happly)
          rw [happly] at hc' ⊢
          have hpromise := hget "promise" (by decide) (by decide) (by decide)
          obtain rfl : (expiredPromise action.id action.toJson).toRecord = v :=
            Option.some.inj (hpromise.symm.trans hv)
          have htask := hget "task" (by decide) (by decide) (by decide)
          obtain rfl : (ServerState.fulfilledTask action.id).toRecord = w :=
            Option.some.inj (htask.symm.trans hw)
          refine ⟨ofJson_task_id hwr, hc'.shows (by simp [ServerState.addFulfilled]) hr,
            fun r hmem => ?_, fun u hu hus => ?_⟩
          · rw [hpre, parseRecords, hget "preload" (by decide) (by decide) (by decide)] at hmem
            cases hmem
          · have hlook : ((s.prepared now (unwrapRequestEnvelope (createRequestOf head subHead pid ttl
                action))).addFulfilled action.id action.toJson).tasks.lookup action.id =
                  some (ServerState.fulfilledTask action.id) := by simp [ServerState.addFulfilled]
            obtain rfl := Option.some.inj (hlook.symm.trans hu)
            rfl
        · obtain ⟨-, -, hget⟩ := received_reply (n := 201) hx (by decide) (congrArg Prod.snd happly)
          rw [happly] at hc' ⊢
          have hpromise := hget "promise" (by decide) (by decide) (by decide)
          have htask := hget "task" (by decide) (by decide) (by decide)
          refine ⟨hc'.taskRecordOf_id (Option.some.inj (hw.symm.trans htask)) hwr,
            hc'.recordOf_shows (Option.some.inj (hv.symm.trans hpromise)) hr, fun r hmem => ?_,
            fun u hu hus => ?_⟩
          · rw [hpre] at hmem
            exact hc'.preload_shows (hget "preload" (by decide) (by decide) (by decide)) hmem
          · obtain rfl := Option.some.inj ((ServerState.addAcquired_task _ _ _ _ _ _).symm.trans hu)
            rfl

end Create

section Suspend

variable {s : ServerState} {now : Int} {head : Head} {id : String} {version : Int}
variable {actions : List (Head × PromiseRegisterCallbackData)} {preload : List PromiseRecord}

theorem suspendResult_redirect {answer : Except Error Json}
    (h : suspendResult head answer = .ok (.redirect preload)) :
    ∃ x, received "task.suspend" head.corrId false answer = .ok x ∧ x.1 = 300 ∧
      preload = parseRecords PromiseRecord.ofJson x.2 "preload" := by
  unfold suspendResult at h
  cases hx : received "task.suspend" head.corrId false answer with
  | error e =>
    rw [hx] at h
    cases h
  | ok x =>
    rw [hx] at h
    have h' : parseSuspendResult x.1 x.2 = .redirect preload := Except.ok.inj h
    unfold parseSuspendResult at h'
    split_ifs at h' with hst
    cases h'
    exact ⟨x, rfl, hst, rfl⟩

theorem kindOf_suspend : ReqKind.ofName (kindOf (unwrapRequestEnvelope
    (suspendRequest head id version actions))) = some .taskSuspend := by
  rw [suspendRequest, ← request, taskSuspendData, kindOf_request]
  rfl

theorem id_suspend : strField (unwrapRequestEnvelope
    (suspendRequest head id version actions)) "id" = some id := by
  rw [suspendRequest, ← request, taskSuspendData, strField, get_request (by decide) (by decide)]
  rfl

theorem callbacksOf_suspend : callbacksOf (unwrapRequestEnvelope
    (suspendRequest head id version actions)) = actions.map fun a => a.2.awaited := by
  have hact : ∀ l : List (Head × PromiseRegisterCallbackData), (l.map fun a =>
      envelope "promise.register_callback" a.1 a.2.toJson).filterMap (fun a =>
        strField (extractActionData a) "awaited") = l.map fun a => a.2.awaited := by
    intro l
    induction l with
    | nil => rfl
    | cons a l ih =>
      have ha : strField (extractActionData (envelope "promise.register_callback" a.1 a.2.toJson))
          "awaited" = some a.2.awaited := rfl
      rw [List.map_cons, List.filterMap_cons, ha, ih, List.map_cons]
  rw [suspendRequest, ← request, taskSuspendData, callbacksOf, get_request (by decide) (by decide)]
  simp only [List.lookup_cons]
  exact hact actions

theorem typed_suspend : (Op.apply now (unwrapRequestEnvelope
    (suspendRequest head id version actions))).Typed := by
  refine typed_of_not_settle ?_ ?_
  · simp [settleRequest, kindOf_suspend]
  · simp [kindOf_suspend]

theorem isPending_registerAwaiters (l : List String) (a : String) :
    (l.foldl (ServerState.registerAwaiter id) s).isPending a = s.isPending a := by
  induction l generalizing s with
  | nil => rfl
  | cons b l ih =>
    rw [List.foldl_cons, ih, ServerState.isPending, ServerState.registerAwaiter_promises,
      ServerState.isPending]
    cases hp : s.promises.lookup a with
    | none => rfl
    | some p =>
      simp only [Option.map_some, Option.any_some]
      split_ifs <;> rfl

theorem prepared_rested (hc : Coherent s) (now : Int) (req : Json) (h : s.Rested id) :
    (s.prepared now req).Rested id ∨ ∃ a, a ∈ s.left (s.prepared now req) := by
  have hmoves : Moves (Op.apply now req).now (Move.From req) { s with outgoing := [] }
      (s.prepared now req) :=
    prepared_moves now hc req fun _ hid => expire_from hid
  exact hmoves.rested (fun _ hm => hm) hc.cleared rfl h

theorem suspend_redirect (hc : Coherent s)
    (h : suspendResult head (s.send now (suspendRequest head id version actions)).2 =
      .ok (.redirect preload)) :
    let s' := s.deliver (.apply now (unwrapRequestEnvelope
      (suspendRequest head id version actions)))
    s'.Rested id ∧ (∀ r ∈ preload, s'.Shows r) ∧
      (s.Rested id → (∀ a ∈ actions, s.isPending a.2.awaited = true) → ∃ a, a ∈ s.left s') := by
  obtain ⟨x, hx, hst, hpre⟩ := suspendResult_redirect h
  have htyped : (Op.apply now (unwrapRequestEnvelope
      (suspendRequest head id version actions))).Typed := typed_suspend
  have hc' := deliver_coherent hc htyped
  have hrest : s.Rested id → _ := prepared_rested hc now (unwrapRequestEnvelope
    (suspendRequest head id version actions))
  have happly : s.apply now (unwrapRequestEnvelope (suspendRequest head id version actions)) =
      (s.prepared now _).taskSuspend _ _ := ServerState.apply_eq_dispatch kindOf_suspend
  rw [deliver_apply] at hc' ⊢
  unfold ServerState.taskSuspend at happly
  cases hid : requireStr (unwrapRequestEnvelope
      (suspendRequest head id version actions)) "id" with
  | error e =>
    simp only [hid] at happly
    exact (received_refused hx (congrArg Prod.snd happly)).elim
  | ok id' =>
    have hf := (requireStr_ok.mp hid).1
    rw [id_suspend] at hf
    obtain rfl := Option.some.inj hf
    simp only [hid, callbacksOf_suspend] at happly
    cases ht : (s.prepared now (unwrapRequestEnvelope
        (suspendRequest head id version actions))).tasks.lookup id with
    | none =>
      simp only [ht] at happly
      have hst' := (received_reply (n := 404) hx (by decide) (congrArg Prod.snd happly)).1
      omega
    | some t =>
      simp only [ht] at happly
      split_ifs at happly with hacq hres hany
      · have hst' := (received_reply (n := 409) hx (by decide) (congrArg Prod.snd happly)).1
        omega
      · obtain ⟨-, -, hget⟩ := received_reply (n := 300) hx (by decide) (congrArg Prod.snd happly)
        rw [happly] at hc' ⊢
        refine ⟨fun u hu _ => ?_, fun r hr => ?_, fun hs _ => ?_⟩
        · simp only [ServerState.clearResumes, HashMap.lookup_modify, if_true, ht, Option.map_some,
            Option.some.injEq] at hu
          rw [← hu]
        · rw [hpre] at hr
          exact hc'.preload_shows (hget "preload" (by decide) (by decide) (by decide)) hr
        · exact (hrest hs).resolve_left fun hr => hres (hr t ht (not_not.mp hacq))
      · obtain ⟨-, -, hget⟩ := received_reply (n := 300) hx (by decide) (congrArg Prod.snd happly)
        rw [happly] at hc' ⊢
        refine ⟨fun u hu _ => ?_, fun r hr => ?_, fun _ hpend => ?_⟩
        · rw [foldl_registerAwaiter_tasks, ht] at hu
          obtain rfl := Option.some.inj hu
          exact not_not.mp hres
        · rw [hpre] at hr
          exact hc'.preload_shows (hget "preload" (by decide) (by decide) (by decide)) hr
        · obtain ⟨a, ha, hset⟩ := List.any_eq_true.mp hany
          obtain ⟨action, haction, rfl⟩ := List.mem_map.mp ha
          refine ⟨action.2.awaited, ServerState.mem_left.mpr ⟨hpend action haction, ?_⟩⟩
          rw [isPending_registerAwaiters]
          exact ServerState.not_isPending_of_isSettled hset
      · have hst' := (received_reply (n := 200) hx (by decide) (congrArg Prod.snd happly)).2.1
        omega

end Suspend

section Fence

variable {s s' : ServerState} {now : Int} {corrId req : Json} {id : String} {inner : Json}
variable {r : PromiseRecord}

theorem fenceInner_eq : s.fenceInner now corrId req =
    if (fenceAction req).1 then s.promiseSettle now corrId (fenceAction req).2
    else s.promiseCreate now corrId (fenceAction req).2 := rfl

theorem promiseCreate_shows (hc : Coherent s) (hc' : Coherent (s.promiseCreate now corrId req).1)
    (hi : (s.promiseCreate now corrId req).2 = .ok inner)
    (hr : PromiseRecord.ofJson ((inner.get "promise").getD .null) = some r) :
    (s.promiseCreate now corrId req).1.Shows r ∧ strField req "id" = some r.id := by
  unfold ServerState.promiseCreate at hc' hi ⊢
  cases hid : requireStr req "id" with
  | error e => simp [hid] at hi
  | ok id =>
    rw [(requireStr_ok.mp hid).1]
    simp only [hid] at hc' hi ⊢
    cases hp : s.promises.lookup id with
    | some p =>
      simp only [hp] at hi ⊢
      obtain rfl := Except.ok.inj hi
      obtain ⟨hrid, hshow⟩ := hc.shows hp hr
      exact ⟨hshow, by rw [hrid]⟩
    | none =>
      simp only [hp] at hc' hi ⊢
      split_ifs at hc' hi ⊢
      · obtain rfl := Except.ok.inj hi
        have hs : (s.addExpired id req).settled id now = (s.addExpired id req).settled id now := rfl
        have hlook := (hc.expireNew hp hs).1 id
        rw [if_pos rfl] at hlook
        obtain ⟨hrid, hshow⟩ := hc'.shows hlook hr
        exact ⟨hshow, by rw [hrid]⟩
      · obtain rfl := Except.ok.inj hi
        have hlook : (s.addPending id req now).promises.lookup id =
            some (pendingPromise id req now) := by
          have h := ServerState.perform_promises now s id (.addPending id req)
          rw [ServerState.promiseAfter, if_pos rfl] at h
          exact h
        obtain ⟨hrid, hshow⟩ := hc'.shows hlook hr
        exact ⟨hshow, by rw [hrid]⟩

theorem promiseSettle_shows (hc : Coherent s) (hc' : Coherent (s.promiseSettle now corrId req).1)
    (hst : settleStateOf req ≠ .pending) (hi : (s.promiseSettle now corrId req).2 = .ok inner)
    (hr : PromiseRecord.ofJson ((inner.get "promise").getD .null) = some r) :
    (s.promiseSettle now corrId req).1.Shows r ∧ strField req "id" = some r.id := by
  unfold ServerState.promiseSettle at hc' hi ⊢
  cases hid : requireStr req "id" with
  | error e => simp [hid] at hi
  | ok id =>
    rw [(requireStr_ok.mp hid).1]
    simp only [hid] at hc' hi ⊢
    cases hp : s.promises.lookup id with
    | none =>
      simp only [hp] at hi
      obtain rfl := Except.ok.inj hi
      cases hr
    | some p =>
      simp only [hp] at hc' hi ⊢
      split_ifs at hc' hi ⊢ with hne
      · obtain rfl := Except.ok.inj hi
        obtain ⟨hrid, hshow⟩ := hc.shows hp hr
        exact ⟨hshow, by rw [hrid]⟩
      · obtain rfl := Except.ok.inj hi
        have hlook := (hc.settles_at now hst (valueOf req) (ServerState.isPending_iff.mpr
          ⟨p, hp, not_not.mp hne⟩)).promise id
        rw [hp, Option.map_some, if_pos (List.mem_singleton_self id)] at hlook
        obtain ⟨hrid, hshow⟩ := hc'.shows hlook hr
        exact ⟨hshow, by rw [hrid]⟩

end Fence

end Network

open Network

theorem PromiseSettleReq.settleStateOf_toJson (req : PromiseSettleReq) :
    settleStateOf req.toJson = req.state.toPromiseState := by
  simp [settleStateOf, PromiseSettleReq.toJson, Json.get, List.lookup_cons, PromiseState.ofJson,
    variantName, SettleState.name]

namespace Effects

variable {e : Effects} {s : ServerState} {subNow now serverNow : Int} {fields : List (String × Json)}

theorem actionOf_flatFence (action : Json) : actionOf (e.flatFence subNow now action) =
    envelope (fenceKind action) (e.sender.makeHead subNow) action := by
  rw [flatFence, fenceRequest, ← request, taskFenceData, actionOf, get_request (by decide) (by decide)]
  rfl

theorem kindOf_flatFence (action : Json) :
    ReqKind.ofName (kindOf (e.flatFence subNow now action)) = some .taskFence := by
  rw [flatFence, fenceRequest, ← request, taskFenceData, kindOf_request]
  rfl

theorem fenceAction_flatFence : fenceAction (e.flatFence subNow now (.obj fields)) =
    ((fields.lookup "state").isSome,
      .obj (Json.insert fields "kind" (.str (fenceKind (.obj fields))))) := by
  have hdata : extractActionData (envelope (fenceKind (.obj fields)) (e.sender.makeHead subNow)
      (.obj fields)) = .obj fields := rfl
  have hkind : strField (envelope (fenceKind (.obj fields)) (e.sender.makeHead subNow) (.obj fields))
      "kind" = some (fenceKind (.obj fields)) := rfl
  unfold fenceAction
  rw [actionOf_flatFence]
  simp only [hdata, hkind, Option.bind_some, Json.asObject, Option.getD_some]
  cases hs : (fields.lookup "state").isSome <;>
    simp [fenceKind, hs, ReqKind.ofName, ReqKind.name]

inductive Acts (id : String) : Json → Prop
  | create (req : PromiseCreateReq) (h : req.id = id) : Acts id req.toJson
  | settle (req : PromiseSettleReq) (h : req.id = id) : Acts id req.toJson

theorem createPromise_fence {req : PromiseCreateReq} {action : Json}
    (h : e.createPromise req = .fence action) :
    ∃ req' : PromiseCreateReq, req'.id = req.id ∧ req'.tags = req.tags ∧ action = req'.toJson := by
  unfold createPromise at h
  cases hl : e.cache.lookup req.id with
  | some cached => simp [hl] at h
  | none =>
    simp only [hl] at h
    cases hp : e.codec.encode req.param.dataOrNull with
    | error err => simp [hp] at h
    | ok param =>
      simp only [hp] at h
      cases h
      exact ⟨{ req with param }, rfl, rfl, rfl⟩

theorem createPromise_acts {req : PromiseCreateReq} {action : Json}
    (h : e.createPromise req = .fence action) : Acts req.id action := by
  obtain ⟨req', hid, -, rfl⟩ := createPromise_fence h
  exact .create req' hid

theorem settlePromise_acts {id : String} {result : Except Error (Except String Json)} {action : Json}
    (h : e.settlePromise id result = .fence action) : Acts id action := by
  unfold settlePromise at h
  cases hl : (e.cache.lookup id).filter fun r => r.state ≠ .pending with
  | some cached =>
    rw [hl] at h
    cases h
  | none =>
    rw [hl] at h
    cases hs : settlement result with
    | error err => simp [hs] at h
    | ok x =>
      simp only [hs] at h
      cases hp : e.codec.encode x.2 with
      | error err => simp [hp] at h
      | ok value =>
        simp only [hp] at h
        cases h
        exact .settle _ rfl

variable {id : String} {action : Json}

theorem Acts.inner (h : Acts id action) (e : Effects) (subNow now : Int) :
    strField (fenceAction (e.flatFence subNow now action)).2 "id" = some id ∧
      ((fenceAction (e.flatFence subNow now action)).1 = true →
        settleStateOf (fenceAction (e.flatFence subNow now action)).2 ≠ .pending) := by
  cases h with
  | create req h =>
    rw [PromiseCreateReq.toJson, fenceAction_flatFence]
    refine ⟨?_, fun hs => ?_⟩
    · rw [strField, Json.get_obj, Json.lookup_insert, if_neg (by decide), ← h]
      rfl
    · cases hs
  | settle req h =>
    rw [PromiseSettleReq.toJson, fenceAction_flatFence]
    refine ⟨?_, fun _ => ?_⟩
    · rw [strField, Json.get_obj, Json.lookup_insert, if_neg (by decide), ← h]
      rfl
    · rw [settleStateOf, Json.get_obj, Json.lookup_insert, if_neg (by decide)]
      have hstate := PromiseSettleReq.settleStateOf_toJson req
      rw [settleStateOf, PromiseSettleReq.toJson, Json.get_obj] at hstate
      rw [hstate]
      exact req.state.toPromiseState_ne_pending

theorem Acts.typed (h : Acts id action) (e : Effects) (subNow now serverNow : Int) :
    (Op.apply serverNow (e.flatFence subNow now action)).Typed := by
  refine ⟨fun r hr => ?_, fun hk => ?_⟩
  · unfold settleRequest at hr
    simp only [kindOf_flatFence] at hr
    split_ifs at hr with hs
    obtain rfl := Option.some.inj hr
    exact (h.inner e subNow now).2 hs
  · rw [kindOf_flatFence] at hk
    cases hk

theorem fenceResult_ok {answer : Except Error Json} {res : TaskFenceResult}
    (h : e.fenceResult now answer = .ok res) : ∃ x,
      Resonate.received "task.fence" (e.sender.makeHead now).corrId false answer = .ok x ∧
        (∃ v, (((x.2.get "action").getD (.obj [])).get "data").bind (·.get "promise") = some v ∧
          PromiseRecord.ofJson v = some res.promise) ∧
        res.preload = parseRecords PromiseRecord.ofJson x.2 "preload" := by
  unfold fenceResult at h
  cases hx : Resonate.received "task.fence" (e.sender.makeHead now).corrId false answer with
  | error err =>
    rw [hx] at h
    cases h
  | ok x =>
    rw [hx] at h
    change parseFence x.2 = .ok res at h
    unfold parseFence at h
    cases hv : (((x.2.get "action").getD (.obj [])).get "data").bind (·.get "promise") with
    | none => simp [hv] at h
    | some v =>
      simp only [hv] at h
      cases hr : PromiseRecord.ofJson v with
      | none => simp [hr] at h
      | some r =>
        simp only [hr] at h
        obtain rfl := Except.ok.inj h
        exact ⟨x, rfl, ⟨v, hv, hr⟩, rfl⟩

theorem fence_shows (hc : Coherent s) (hact : Acts id action) {res : TaskFenceResult}
    (h : e.fenceResult now (s.send serverNow (e.fenceRequest subNow now action)).2 = .ok res) :
    let s' := s.deliver (.apply serverNow (e.flatFence subNow now action))
    (s'.Shows res.promise ∧ res.promise.id = id) ∧ ∀ r ∈ res.preload, s'.Shows r := by
  obtain ⟨x, hx, ⟨v, hv, hr⟩, hpre⟩ := fenceResult_ok h
  have hc' := deliver_coherent hc (hact.typed e subNow now serverNow)
  have hprep := prepared_coherent hc serverNow (e.flatFence subNow now action)
  have happly : s.apply serverNow (e.flatFence subNow now action) =
      (s.prepared serverNow _).taskFence serverNow _ _ :=
    ServerState.apply_eq_dispatch (kindOf_flatFence action)
  obtain ⟨hinner, hterm⟩ := hact.inner e subNow now
  rw [deliver_apply] at hc' ⊢
  unfold ServerState.taskFence at happly
  cases hid : requireStr (e.flatFence subNow now action) "id" with
  | error err =>
    simp only [hid] at happly
    exact (received_refused hx (congrArg Prod.snd happly)).elim
  | ok tid =>
    simp only [hid] at happly
    cases ht : (s.prepared serverNow (e.flatFence subNow now action)).tasks.lookup tid with
    | none =>
      simp only [ht] at happly
      have hst := (received_reply (n := 404) hx (by decide) (congrArg Prod.snd happly)).1
      omega
    | some t =>
      simp only [ht] at happly
      split_ifs at happly with hlease
      · have hst := (received_reply (n := 409) hx (by decide) (congrArg Prod.snd happly)).1
        omega
      · cases hfi : (s.prepared serverNow (e.flatFence subNow now action)).fenceInner serverNow
            (((e.flatFence subNow now action).get "corrId").getD .null)
            (e.flatFence subNow now action) with
        | mk s' res' =>
          rw [hfi] at happly
          cases res' with
          | error err => exact (received_refused hx (congrArg Prod.snd happly)).elim
          | ok inner =>
            obtain ⟨-, -, hget⟩ := received_reply (n := 200) hx (by decide) (congrArg Prod.snd happly)
            rw [happly] at hc' ⊢
            have hcs : Coherent s' := hc'
            have haction := hget "action" (by decide) (by decide) (by decide)
            rw [haction] at hv
            obtain rfl : (inner.get "promise").getD .null = v := Option.some.inj hv
            refine ⟨?_, fun r hmem => ?_⟩
            · have hshow : s'.Shows res.promise ∧
                  strField (fenceAction (e.flatFence subNow now action)).2 "id" =
                    some res.promise.id := by
                have hfi' := hfi
                rw [fenceInner_eq] at hfi'
                split_ifs at hfi' with hs
                · have hs' := promiseSettle_shows hprep (by rw [hfi']; exact hcs) (hterm hs)
                    (by rw [hfi']) hr
                  rwa [hfi'] at hs'
                · have hs' := promiseCreate_shows hprep (by rw [hfi']; exact hcs) (by rw [hfi']) hr
                  rwa [hfi'] at hs'
              obtain ⟨hshow, hrid⟩ := hshow
              rw [hinner] at hrid
              exact ⟨hshow, (Option.some.inj hrid).symm⟩
            · rw [hpre] at hmem
              exact hcs.preload_shows (hget "preload" (by decide) (by decide) (by decide)) hmem

end Effects

end Resonate
