import Resonate.Redirects
import Resonate.Results

/-!
# Dispatching a function

A function is dispatched by name with JSON arguments: by the client's `run` and `rpc`, by
the `rpc` and `detached` calls of a workflow, and by a schedule when it fires. Each path
encodes the pair exactly once, in a layer of its own, and the worker that is handed the
promise decodes it to the same pair.
-/

namespace Resonate
open Lib Network

def validateRootId (id : String) : Except Error Unit :=
  if id = "" then .error (.invalidId id "id must not be empty")
  else if id.toList.contains '\x00' then .error (.invalidId id "id must not contain null bytes")
  else if id.toList.contains originSep then
    .error (.invalidId id ("id must not contain ':': it separates the origin from the lineage " ++
      "in the ids the SDK mints below this one, so an id holding one could never be split back out"))
  else .ok ()

structure Options where
  tags : HashMap String
  target : String
  timeout : ℕ
  version : ℕ

def buildRootTags (id target : String) (tags : HashMap String) : HashMap String :=
  ((((tags.insert "resonate:origin" id).insert "resonate:branch" id).insert
    "resonate:parent" id).insert "resonate:scope" "global").insert "resonate:target" target

def paramData (func : String) (args : Json) : Json :=
  .obj [("func", .str func), ("args", args)]

def buildPromiseCreateReq (codec : Codec) (id func : String) (args : Json) (opts : Options)
    (now : Int) : Except Error PromiseCreateReq := do
  validateRootId id
  let timeoutAt := saturatingAdd now ((opts.timeout : Int).bmod (2 ^ 64))
  let param ← codec.encode (paramData func args)
  return { id, timeoutAt, param, tags := buildRootTags id opts.target opts.tags }

/-- `promises.rs`: the encoding of a value that a sub-client is given. -/
def encodeValue (codec : Codec) (value : Value) : Except Error Value := do
  let encoded ← codec.encode value.dataOrNull
  return if value.headers.isSome then { encoded with headers := value.headers } else encoded

structure ScheduleCreateReq where
  id : String
  cron : String
  promiseId : String
  promiseTimeout : Int
  promiseParam : Value
  promiseTags : HashMap String

def ScheduleCreateReq.toJson (r : ScheduleCreateReq) : Json :=
  .obj [("id", .str r.id), ("cron", .str r.cron), ("promiseId", .str r.promiseId),
    ("promiseTimeout", .num r.promiseTimeout), ("promiseParam", r.promiseParam.toJson),
    ("promiseTags", strMapToJson r.promiseTags)]

def scheduledData (func : String) (args : Json) (version : ℕ) : Json :=
  .obj [("func", .str func), ("args", args), ("version", .num version)]

/-- `ResScheduleTask::into_future`, up to the request of `Schedules::create`. -/
def buildScheduleCreateReq (codec : Codec) (name cron func : String) (args : Json)
    (opts : Options) : Except Error ScheduleCreateReq := do
  let param : Value := { data := some (scheduledData func args opts.version) }
  validateRootId name
  let promiseParam ← encodeValue codec param
  return { id := name, cron, promiseId := "\x7b\x7b.id\x7d\x7d-\x7b\x7b.timestamp\x7d\x7d"
           promiseTimeout := (opts.timeout : Int).bmod (2 ^ 64), promiseParam
           promiseTags := opts.tags.insert "resonate:target" opts.target }

/-- An operation that dispatches `func` with `args` as the promise `id`; `data` is what is
encoded. A firing copies the schedule's parameter into the promise it creates. -/
inductive Dispatches (codec : Codec) (func : String) (args : Json) (s : ServerState) :
    Json → String → Op → Prop
  | run (id pid : String) (ttl now serverNow : Int) (head subHead : Head) (opts : Options)
      (action : PromiseCreateReq)
      (h : buildPromiseCreateReq codec id func args opts now = .ok action) :
      Dispatches codec func args s (paramData func args) id
        (.apply serverNow (unwrapRequestEnvelope (createRequestOf head subHead pid ttl action)))
  | rpc (id : String) (now serverNow : Int) (head : Head) (opts : Options)
      (req : PromiseCreateReq) (h : buildPromiseCreateReq codec id func args opts now = .ok req) :
      Dispatches codec func args s (paramData func args) id
        (.apply serverNow (unwrapRequestEnvelope (envelope "promise.create" head req.toJson)))
  | contextRpc (e : Effects) (sdk : Sdk) (c : Context) (ty : Ty) (seq : ℕ) (timeout : Option ℕ)
      (target : Option String) (now subNow sent serverNow : Int) (req : PromiseCreateReq)
      (action : Json) (hcodec : e.codec = codec)
      (hreq : c.remoteReq sdk (c.callId seq) now (.rpc ty func (.ok args) timeout target) = .ok req)
      (h : e.createPromise req = .fence action) :
      Dispatches codec func args s (paramData func args) req.id
        (.apply serverNow (e.flatFence subNow sent action))
  | detached (e : Effects) (sdk : Sdk) (c : Context) (seq : ℕ) (timeout : Option ℕ)
      (target : Option String) (now subNow sent serverNow : Int) (req : PromiseCreateReq)
      (action : Json) (hcodec : e.codec = codec)
      (hreq : c.detachedReq sdk seq func (.ok args) timeout target now = .ok req)
      (h : e.createPromise req = .fence action) :
      Dispatches codec func args s (paramData func args) req.id
        (.apply serverNow (e.flatFence subNow sent action))
  | fired (s₀ : ServerState) (name cron id : String) (opts : Options) (head : Head)
      (created serverNow : Int) (sreq : ScheduleCreateReq) (stub : ScheduleStub) (req : Json)
      (h : buildScheduleCreateReq codec name cron func args opts = .ok sreq)
      (hnew : s₀.schedules.lookup name = none)
      (hstub : (s₀.apply created (unwrapRequestEnvelope
        (envelope "schedule.create" head sreq.toJson))).1.schedules.lookup name = some stub)
      (hs : s.schedules.lookup name = some stub)
      (hkind : ReqKind.ofName (kindOf req) = some .promiseCreate)
      (hid : strField req "id" = some id) (hparam : paramOf req = stub.promiseParam) :
      Dispatches codec func args s (scheduledData func args opts.version) id (.apply serverNow req)

section Created

variable {s : ServerState} {now : Int} {req : Json} {a : String} {p : DurablePromise}

theorem apply_param (hn : s.promises.lookup a = none)
    (hp : (s.apply now req).1.promises.lookup a = some p) :
    ∃ r, createRequest req = some r ∧ p.param = paramOf r := by
  have hinv := (ServerState.apply_performs s now req).invariant
    (I := fun L => ∀ p, L.state.promises.lookup a = some p →
      ∃ r, createRequest req = some r ∧ p.param = paramOf r) ?_ ?_
  · exact hinv p hp
  · intro L act hg hact hI q hq
    rw [Ledger.step, ServerState.perform_promises] at hq
    cases hl : L.state.promises.lookup a with
    | some p' =>
      obtain ⟨q', hq', hk, -⟩ := kept_after hg hl
      rw [hq] at hq'
      obtain rfl := Option.some.inj hq'
      rw [hk.param]
      exact hI p' hl
    | none =>
      cases act with
      | addExpired id r | addPending id r | addFulfilled id r | addAcquired id r pid ttl =>
        simp only [ServerState.promiseAfter, hl] at hq
        split_ifs at hq
        obtain rfl := Option.some.inj hq
        exact ⟨r, hact.1, rfl⟩
      | _ => simp [ServerState.promiseAfter, hl] at hq
  · intro q hq
    rw [hn] at hq
    cases hq

theorem apply_schedule {name : String} {stub : ScheduleStub}
    (hk : ReqKind.ofName (kindOf req) = some .scheduleCreate)
    (hn : s.schedules.lookup name = none)
    (h : (s.apply now req).1.schedules.lookup name = some stub) :
    stub.promiseParam = (req.get "promiseParam").getD .null := by
  have hprep : (s.prepared now req).schedules = s.schedules := by
    simp [ServerState.prepared, hk, namedPromises, ServerState.autoTimeouts]
  rw [ServerState.apply_eq_dispatch hk] at h
  simp only [ServerState.dispatch, ServerState.scheduleCreate] at h
  have hold : (s.prepared now req).schedules.lookup name ≠ some stub := by
    rw [hprep, hn]
    intro hnone
    cases hnone
  cases hid : requireStr req "id" with
  | error e =>
    simp only [hid] at h
    exact absurd h hold
  | ok id =>
    simp only [hid] at h
    split_ifs at h
    · exact absurd h hold
    · cases hex : (s.prepared now req).schedules.lookup id with
      | some existing =>
        simp only [hex] at h
        exact absurd h hold
      | none =>
        simp only [hex] at h
        cases hcron : requireStr req "cron" with
        | error e =>
          simp only [hcron] at h
          exact absurd h hold
        | ok cron =>
          simp only [hcron] at h
          cases hpid : requireStr req "promiseId" with
          | error e =>
            simp only [hpid] at h
            exact absurd h hold
          | ok promiseId =>
            simp only [hpid] at h
            by_cases hname : name = id
            · subst hname
              simp only [AList.lookup_insert, Option.some.injEq] at h
              rw [← h]
              rfl
            · rw [AList.lookup_insert_ne hname] at h
              exact absurd h hold

end Created

section Parameter

variable {codec : Codec} {func : String} {args data : Json} {s : ServerState} {id : String}
variable {op : Op} {e : Effects}

theorem buildPromiseCreateReq_ok {opts : Options} {now : Int} {req : PromiseCreateReq}
    (h : buildPromiseCreateReq codec id func args opts now = .ok req) :
    validateRootId id = .ok () ∧ req.id = id ∧ req.tags = buildRootTags id opts.target opts.tags ∧
      codec.encode (paramData func args) = .ok req.param := by
  unfold buildPromiseCreateReq at h
  cases hv : validateRootId id with
  | error err =>
    rw [hv] at h
    cases h
  | ok u =>
    cases hw : codec.encode (paramData func args) with
    | error err =>
      rw [hv, hw] at h
      cases h
    | ok w =>
      rw [hv, hw] at h
      obtain rfl := Except.ok.inj h
      exact ⟨rfl, rfl, rfl, rfl⟩

theorem buildScheduleCreateReq_ok {name cron : String} {opts : Options} {req : ScheduleCreateReq}
    (h : buildScheduleCreateReq codec name cron func args opts = .ok req) :
    codec.encode (scheduledData func args opts.version) = .ok req.promiseParam := by
  unfold buildScheduleCreateReq at h
  cases hv : validateRootId name with
  | error err =>
    rw [hv] at h
    cases h
  | ok u =>
    have henc : encodeValue codec { data := some (scheduledData func args opts.version) } =
        codec.encode (scheduledData func args opts.version) := by
      unfold encodeValue Value.dataOrNull
      simp only [Option.getD_some]
      cases codec.encode (scheduledData func args opts.version) <;> rfl
    cases hw : codec.encode (scheduledData func args opts.version) with
    | error err =>
      rw [hw] at henc
      rw [hv] at h
      dsimp only at h
      rw [henc] at h
      cases h
    | ok w =>
      rw [hw] at henc
      rw [hv] at h
      dsimp only at h
      rw [henc] at h
      obtain rfl := Except.ok.inj h
      rfl

theorem createPromise_param {req : PromiseCreateReq} {action : Json}
    (h : e.createPromise req = .fence action) : ∃ req' : PromiseCreateReq,
      action = req'.toJson ∧ e.codec.encode req.param.dataOrNull = .ok req'.param := by
  unfold Effects.createPromise at h
  cases hl : e.cache.lookup req.id with
  | some cached => simp [hl] at h
  | none =>
    simp only [hl] at h
    cases hp : e.codec.encode req.param.dataOrNull with
    | error err => simp [hp] at h
    | ok param =>
      simp only [hp] at h
      cases h
      exact ⟨{ req with param }, rfl, rfl⟩

theorem checkSerialization_ok {r : Except Error PromiseCreateReq} {req : PromiseCreateReq}
    (h : Context.checkSerialization r = .ok req) : r = .ok req := by
  cases r with
  | error err => cases h
  | ok req' => exact h

theorem remoteCreateReq_param {c : Context} {sdk : Sdk} {child parent : String}
    {timeout : Option ℕ} {target : Option String} {now : Int} {req : PromiseCreateReq}
    (h : c.remoteCreateReq sdk child func parent (.ok args) timeout target now = .ok req) :
    req.param.dataOrNull = paramData func args := by
  obtain rfl := Except.ok.inj h
  rfl

theorem createRequest_flatFence {req : PromiseCreateReq} {subNow sent : Int} {r : Json}
    (h : createRequest (e.flatFence subNow sent req.toJson) = some r) :
    paramOf r = req.param.toJson := by
  unfold createRequest at h
  rw [Effects.kindOf_flatFence] at h
  simp only [PromiseCreateReq.toJson, Effects.fenceAction_flatFence] at h
  split_ifs at h
  obtain rfl := Option.some.inj h
  rw [paramOf, Json.get_obj, Json.lookup_insert, if_neg (by decide)]
  rfl

/-- A dispatch is a request whose parameter is encoded once. -/
theorem Dispatches.param (h : Dispatches codec func args s data id op) :
    ∃ now req, op = .apply now req ∧ ∀ r, createRequest req = some r →
      ∃ w, codec.encode data = .ok w ∧ paramOf r = w.toJson := by
  cases h with
  | run id pid ttl now serverNow head subHead opts action h =>
    refine ⟨_, _, rfl, fun r hr => ⟨action.param, (buildPromiseCreateReq_ok h).2.2.2, ?_⟩⟩
    rw [createRequest, kindOf_create] at hr
    obtain rfl := Option.some.inj hr
    rw [action_create]
    rfl
  | rpc id now serverNow head opts req h =>
    refine ⟨_, _, rfl, fun r hr => ⟨req.param, (buildPromiseCreateReq_ok h).2.2.2, ?_⟩⟩
    rw [createRequest, ← request, PromiseCreateReq.toJson, kindOf_request] at hr
    obtain rfl := Option.some.inj hr
    rw [paramOf, get_request (by decide) (by decide)]
    rfl
  | contextRpc e sdk c ty seq timeout target now subNow sent serverNow req action hcodec hreq h =>
    obtain ⟨req', rfl, henc⟩ := createPromise_param h
    refine ⟨_, _, rfl, fun r hr => ⟨req'.param, ?_, createRequest_flatFence hr⟩⟩
    rw [← hcodec, ← henc, remoteCreateReq_param (checkSerialization_ok hreq)]
  | detached e sdk c seq timeout target now subNow sent serverNow req action hcodec hreq h =>
    obtain ⟨req', rfl, henc⟩ := createPromise_param h
    refine ⟨_, _, rfl, fun r hr => ⟨req'.param, ?_, createRequest_flatFence hr⟩⟩
    rw [← hcodec, ← henc, remoteCreateReq_param (checkSerialization_ok hreq)]
  | fired s₀ name cron id opts head created serverNow sreq stub req h hnew hstub hs hkind hid hparam =>
    refine ⟨_, _, rfl, fun r hr => ⟨sreq.promiseParam, buildScheduleCreateReq_ok h, ?_⟩⟩
    rw [createRequest, hkind] at hr
    obtain rfl := Option.some.inj hr
    have hk : ReqKind.ofName (kindOf (unwrapRequestEnvelope
        (envelope "schedule.create" head sreq.toJson))) = some .scheduleCreate := by
      rw [← request, ScheduleCreateReq.toJson, kindOf_request]
      rfl
    rw [hparam, apply_schedule hk hnew hstub, ← request, ScheduleCreateReq.toJson,
      get_request (by decide) (by decide)]
    rfl

end Parameter

section Extracted

variable {codec : Codec} {func : String} {args data : Json} {p : DurablePromise}
variable {r record : PromiseRecord} {w : Value}

def extracted (codec : Codec) (r : PromiseRecord) : Except Error (Option TaskData) :=
  (codec.decodePromise r).map fun promise => TaskData.ofJson promise.param.dataOrNull

theorem ofJson_toRecord_param (h : PromiseRecord.ofJson p.toRecord = some r) :
    r.param = Value.ofJson p.param := by
  have hget : p.toRecord.get "param" = some p.param := rfl
  simp only [PromiseRecord.ofJson, Network.asFields_toRecord, Option.bind_eq_bind,
    Option.bind_eq_some_iff, fieldOr, hget, Option.pure_def, Option.some.injEq] at h
  obtain ⟨id, -, state, -, param, hparam, value, -, tags, -, timeoutAt, -, createdAt, -,
    settledAt, -, rfl⟩ := h
  exact hparam.symm

theorem decode_param (hrt : codec.RoundTrips data) (hw : codec.encode data = .ok w)
    (hp : p.param = w.toJson) (hr : PromiseRecord.ofJson p.toRecord = some r) :
    ∃ y, codec.decode r.param = .ok y ∧ y.getD .null = data := by
  apply Codec.decode_encode hrt hw
  rw [ofJson_toRecord_param hr, hp]
  obtain ⟨headers, d⟩ := w
  have hh : headers = none := (Codec.encode_ok hw).1
  subst hh
  cases d <;> rfl

theorem decodePromise_param {y : Option Json} (hy : codec.decode r.param = .ok y)
    (h : codec.decodePromise r = .ok record) : record.param.dataOrNull = y.getD .null := by
  unfold Codec.decodePromise at h
  cases hv : codec.decode r.value with
  | error e =>
    rw [hy, hv] at h
    cases h
  | ok v =>
    rw [hy, hv] at h
    obtain rfl := Except.ok.inj h
    rfl

theorem taskData_paramData : TaskData.ofJson (paramData func args) = some ⟨func, args⟩ := by
  simp [TaskData.ofJson, paramData, List.lookup_cons, Json.asStr]

theorem taskData_scheduledData (version : ℕ) :
    TaskData.ofJson (scheduledData func args version) = some ⟨func, args⟩ := by
  simp [TaskData.ofJson, scheduledData, List.lookup_cons, Json.asStr]

theorem Dispatches.taskData {s : ServerState} {id : String} {op : Op}
    (h : Dispatches codec func args s data id op) : TaskData.ofJson data = some ⟨func, args⟩ := by
  cases h with
  | fired => exact taskData_scheduledData _
  | _ => exact taskData_paramData

theorem extracted_of_param (hrt : codec.RoundTrips data) (hw : codec.encode data = .ok w)
    (hp : p.param = w.toJson) (hr : PromiseRecord.ofJson p.toRecord = some r)
    (h : codec.decodePromise r = .ok record) :
    TaskData.ofJson record.param.dataOrNull = TaskData.ofJson data := by
  obtain ⟨y, hy, hdata⟩ := decode_param hrt hw hp hr
  rw [decodePromise_param hy h, hdata]

theorem decodePromise_of_null (hrt : codec.RoundTrips data) (hw : codec.encode data = .ok w)
    (hp : p.param = w.toJson) (hv : p.value = .null)
    (hr : PromiseRecord.ofJson p.toRecord = some r) : ∃ record, codec.decodePromise r = .ok record := by
  obtain ⟨y, hy, -⟩ := decode_param hrt hw hp hr
  have hvalue : codec.decode r.value = .ok none := by
    rw [(ofJson_toRecord hr).2, hv]
    rfl
  unfold Codec.decodePromise
  rw [hy, hvalue]
  exact ⟨_, rfl⟩

theorem apply_value {s : ServerState} {now : Int} {req : Json} {a : String}
    (hn : s.promises.lookup a = none) (hset : settleRequest req = none)
    (hp : (s.apply now req).1.promises.lookup a = some p) : p.value = .null := by
  have hinv := (ServerState.apply_performs s now req).invariant
    (I := fun L => ∀ p, L.state.promises.lookup a = some p → p.value = .null) ?_ ?_
  · exact hinv p hp
  · intro L act hg hact hI q hq
    rw [Ledger.step, ServerState.perform_promises] at hq
    cases hl : L.state.promises.lookup a with
    | none =>
      cases act with
      | addExpired id r | addPending id r | addFulfilled id r | addAcquired id r pid ttl =>
        simp only [ServerState.promiseAfter, hl] at hq
        split_ifs at hq
        obtain rfl := Option.some.inj hq
        rfl
      | _ => simp [ServerState.promiseAfter, hl] at hq
    | some p' =>
      have hnull := hI p' hl
      cases act with
      | settle id state value =>
        obtain ⟨r, hr, -⟩ := hact
        rw [hset] at hr
        cases hr
      | tickExpire id => exact hact.elim
      | addExpired id r | addPending id r | addFulfilled id r | addAcquired id r pid ttl =>
        simp only [ServerState.promiseAfter, hl] at hq
        split_ifs at hq <;> obtain rfl := Option.some.inj hq
        · rfl
        · exact hnull
      | expire id | register id awaited | subscribe id address | enqueue id | wake id =>
        simp only [ServerState.promiseAfter, hl, Option.map_some] at hq
        split_ifs at hq <;> obtain rfl := Option.some.inj hq <;> exact hnull
      | _ =>
        simp only [ServerState.promiseAfter, hl] at hq
        obtain rfl := Option.some.inj hq
        exact hnull
  · intro q hq
    rw [hn] at hq
    cases hq

end Extracted

/-- A dispatched function reaches the worker with its arguments, whatever else the server
serves before the task is acquired. -/
theorem dispatch_round_trip {codec : Codec} {func : String} {args data : Json} {pre : List Op}
    {id : String} {op : Op} {p : DurablePromise} (hrt : codec.RoundTrips data)
    (hd : Dispatches codec func args (ServerState.init.run pre) data id op)
    (hn : (ServerState.init.run pre).promises.lookup id = none)
    (hp : (ServerState.init.run (pre ++ [op])).promises.lookup id = some p) :
    (∀ r, PromiseRecord.ofJson p.toRecord = some r →
      extracted codec r = .ok (some ⟨func, args⟩)) ∧
    ∀ post result, Acquired (ServerState.init.run (pre ++ op :: post)) id result →
      ∀ record, codec.decodePromise result.promise = .ok record →
        TaskData.ofJson record.param.dataOrNull = some ⟨func, args⟩ := by
  obtain ⟨now, req, rfl, hreq⟩ := hd.param
  have hstep : ((ServerState.init.run pre).apply now req).1.promises.lookup id = some p := by
    rw [run_append] at hp
    exact hp
  obtain ⟨r₀, hr₀, hparam⟩ := apply_param hn hstep
  obtain ⟨w, hw, hpw⟩ := hreq r₀ hr₀
  have hset : settleRequest req = none := by
    cases hx : settleRequest req with
    | none => rfl
    | some r' => exact (createRequest_settleRequest hr₀ hx).elim
  refine ⟨fun r hr => ?_, fun post result hacq record hrec => ?_⟩
  · obtain ⟨record, hrec⟩ :=
      decodePromise_of_null hrt hw (hparam.trans hpw) (apply_value hn hset hstep) hr
    rw [extracted, hrec, ← hd.taskData, ← extracted_of_param hrt hw (hparam.trans hpw) hr hrec]
    rfl
  · obtain ⟨q, hq, hk⟩ := kept_run (pre ++ [.apply now req]) post hp
    rw [List.append_assoc, List.singleton_append] at hq
    obtain ⟨hid, q', hq', hr⟩ := (Held.acquired_granted hacq).2.promise
    rw [hid, hq] at hq'
    obtain rfl := Option.some.inj hq'
    rw [← hd.taskData]
    exact extracted_of_param hrt hw (hk.param.trans (hparam.trans hpw)) hr hrec

def rpcCreate : PromiseCreateReq where
  id := "w"
  timeoutAt := 60000
  param := { data := some (.str "eyJhcmdzIjoxLCJmdW5jIjoiZiJ9") }
  tags := buildRootTags "w" "poll://any@default" ∅

def rpcDispatch : Op :=
  .apply 0 (unwrapRequestEnvelope (envelope "promise.create" ⟨"sr-0", none⟩ rpcCreate.toJson))

def rpcCodec : Codec := singleCodec (paramData "f" (.num 1)) "\x7b\"args\":1,\"func\":\"f\"\x7d"
  "eyJhcmdzIjoxLCJmdW5jIjoiZiJ9"

theorem rpc_dispatches : Dispatches rpcCodec "f" (.num 1) ServerState.init (paramData "f" (.num 1)) "w"
    rpcDispatch :=
  .rpc "w" 0 0 ⟨"sr-0", none⟩ ⟨∅, "poll://any@default", 60000, 0⟩ rpcCreate rfl

def rpcAcquire : Json := acquireRequest ⟨"sr-1", none⟩ "w" 0 "p" 60000

theorem rpcDispatch_typed : ∀ op ∈ [rpcDispatch], op.Typed := by
  intro op hop
  rw [List.mem_singleton.mp hop]
  exact typed_of_not_settle rfl (by decide)

/-- The worker that acquires `w` runs `f` with 1. -/
theorem dispatch_round_trip_rpc :
    ∃ result record, Acquired (ServerState.init.run [rpcDispatch,
        .apply 1 (unwrapRequestEnvelope rpcAcquire)]) "w" result ∧
      rpcCodec.decodePromise result.promise = .ok record ∧
        TaskData.ofJson record.param.dataOrNull = some ⟨"f", .num 1⟩ := by
  have hacq : ∃ result, acquireResult ⟨"sr-1", none⟩
      ((ServerState.init.run [rpcDispatch]).send 1 rpcAcquire).2 = .ok result ∧
        ∃ record, rpcCodec.decodePromise result.promise = .ok record := ⟨_, rfl, _, rfl⟩
  obtain ⟨result, hresult, record, hrecord⟩ := hacq
  have hgranted : Acquired (ServerState.init.run [rpcDispatch,
      .apply 1 (unwrapRequestEnvelope rpcAcquire)]) "w" result :=
    .acquire [rpcDispatch] rpcDispatch_typed 1 ⟨"sr-1", none⟩ "w" 0 "p" 60000 result hresult
  have hrt : rpcCodec.RoundTrips (paramData "f" (.num 1)) :=
    singleCodec_roundTrips (by decide) (by decide)
  have hnew : (ServerState.init.run []).promises.lookup "w" = none := rfl
  exact ⟨result, record, hgranted, hrecord,
    (dispatch_round_trip hrt rpc_dispatches hnew rfl).2 _ result hgranted record hrecord⟩

end Resonate
