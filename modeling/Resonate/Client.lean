import Resonate.Dispatch
import Resonate.Network.Schedules
import Resonate.Network.Observations
import Resonate.Network.Renewal

/-!
# The typed client

Every method of `Sender` against the local network: the request it sends, and what it
makes of the answer. A call returns what the server holds after it, or an error of the
server; the server knows fifteen of the kinds and refuses the others. Only a settlement of
a promise that does not exist, under a task of another promise, is answered by a record
that does not parse.
-/

namespace Resonate
open Lib Network

structure ScheduleRecord where
  id : String
  cron : String
  promiseId : String
  promiseTimeout : Int
  promiseParam : Value
  promiseTags : HashMap String
  createdAt : Int
  nextRunAt : Int
  lastRunAt : Option Int

def ScheduleRecord.ofJson (v : Json) : Option ScheduleRecord := do
  let v := v.asFields ["id", "cron", "promiseId", "promiseTimeout", "promiseParam", "promiseTags",
    "createdAt", "nextRunAt", "lastRunAt"]
  let id ← (v.get "id").bind Json.asStr
  let cron ← (v.get "cron").bind Json.asStr
  let promiseId ← (v.get "promiseId").bind Json.asStr
  let promiseTimeout ← (v.get "promiseTimeout").bind Json.asI64
  let promiseParam ← fieldOr v "promiseParam" {} (fun x => some (Value.ofJson x))
  let promiseTags ← fieldOr v "promiseTags" ∅ strMapOfJson
  let createdAt ← fieldOr v "createdAt" 0 Json.asI64
  let nextRunAt ← fieldOr v "nextRunAt" 0 Json.asI64
  let lastRunAt ← fieldOr v "lastRunAt" none (optOfJson Json.asI64)
  return { id, cron, promiseId, promiseTimeout, promiseParam, promiseTags, createdAt, nextRunAt
           lastRunAt }

def parseCursor (json : Json) : Option String := (json.get "cursor").bind Json.asStr

/-- The methods of `Sender`, with their arguments. -/
inductive Sender.Call where
  | taskAcquire (id : String) (version : Int) (pid : String) (ttl : Int)
  | taskFulfill (id : String) (version : Int) (action : PromiseSettleReq)
  | taskSuspend (id : String) (version : Int) (actions : List PromiseRegisterCallbackData)
  | taskRelease (id : String) (version : Int)
  | taskGet (id : String)
  | taskCreate (pid : String) (ttl : Int) (action : PromiseCreateReq)
  | taskCreateOrConflict (pid : String) (ttl : Int) (action : PromiseCreateReq)
  | taskHalt (id : String)
  | taskContinue (id : String)
  | taskFenceCreate (id : String) (version : Int) (req : PromiseCreateReq)
  | taskFenceSettle (id : String) (version : Int) (req : PromiseSettleReq)
  | taskHeartbeat (pid : String) (tasks : List (String × Int))
  | taskSearch (state : Option String) (limit : Option ℕ) (cursor : Option String)
  | promiseGet (id : String)
  | promiseCreate (req : PromiseCreateReq)
  | promiseSettle (req : PromiseSettleReq)
  | promiseRegisterCallback (awaited awaiter : String)
  | promiseRegisterListener (awaited address : String)
  | promiseSearch (state : Option String) (tags : Option (HashMap String)) (limit : Option ℕ)
      (cursor : Option String)
  | scheduleGet (id : String)
  | scheduleCreate (req : ScheduleCreateReq)
  | scheduleDelete (id : String)
  | scheduleSearch (tags : Option (HashMap String)) (limit : Option ℕ) (cursor : Option String)

inductive Sender.Answer where
  | acquired (result : TaskAcquireResult)
  | conflict
  | promise (record : PromiseRecord)
  | suspended (result : SuspendResult)
  | done
  | task (record : TaskRecord)
  | fenced (result : TaskFenceResult)
  | tasks (records : List TaskRecord) (cursor : Option String)
  | promises (records : List PromiseRecord) (cursor : Option String)
  | schedule (record : ScheduleRecord)
  | schedules (records : List ScheduleRecord) (cursor : Option String)

namespace Sender.Call

def kind : Call → String
  | taskAcquire .. => "task.acquire"
  | taskFulfill .. => "task.fulfill"
  | taskSuspend .. => "task.suspend"
  | taskRelease .. => "task.release"
  | taskGet .. => "task.get"
  | taskCreate .. | taskCreateOrConflict .. => "task.create"
  | taskHalt .. => "task.halt"
  | taskContinue .. => "task.continue"
  | taskFenceCreate .. | taskFenceSettle .. => "task.fence"
  | taskHeartbeat .. => "task.heartbeat"
  | taskSearch .. => "task.search"
  | promiseGet .. => "promise.get"
  | promiseCreate .. => "promise.create"
  | promiseSettle .. => "promise.settle"
  | promiseRegisterCallback .. => "promise.register_callback"
  | promiseRegisterListener .. => "promise.register_listener"
  | promiseSearch .. => "promise.search"
  | scheduleGet .. => "schedule.get"
  | scheduleCreate .. => "schedule.create"
  | scheduleDelete .. => "schedule.delete"
  | scheduleSearch .. => "schedule.search"

def idData (id : String) : Json := .obj [("id", .str id)]

def optField {α : Type} (key : String) (f : α → Json) (o : Option α) : List (String × Json) :=
  (o.map fun a => (key, f a)).toList

/-- The payload; each sub-envelope has a head of its own. -/
def data (subHead : ℕ → Head) : Call → Json
  | taskAcquire id version pid ttl => taskAcquireData id version pid ttl
  | taskFulfill id version action => taskFulfillData id version (subHead 0) action
  | taskSuspend id version actions =>
    taskSuspendData id version (actions.zipIdx.map fun a => (subHead a.2, a.1))
  | taskRelease id version => taskReleaseData id version
  | taskCreate pid ttl action | taskCreateOrConflict pid ttl action =>
    taskCreateData pid ttl (subHead 0) action
  | taskFenceCreate id version req => taskFenceData id version (subHead 0) req.toJson
  | taskFenceSettle id version req => taskFenceData id version (subHead 0) req.toJson
  | taskHeartbeat pid tasks => taskHeartbeatData pid tasks
  | taskSearch state limit cursor =>
    .obj (optField "state" .str state ++ optField "limit" (fun n => .num n) limit ++
      optField "cursor" .str cursor)
  | promiseCreate req => req.toJson
  | promiseSettle req => req.toJson
  | promiseRegisterCallback awaited awaiter =>
    PromiseRegisterCallbackData.toJson ⟨awaited, awaiter⟩
  | promiseRegisterListener awaited address =>
    PromiseRegisterListenerData.toJson ⟨awaited, address⟩
  | promiseSearch state tags limit cursor =>
    .obj (optField "state" .str state ++ optField "tags" strMapToJson tags ++
      optField "limit" (fun n => .num n) limit ++ optField "cursor" .str cursor)
  | scheduleCreate req => req.toJson
  | scheduleSearch tags limit cursor =>
    .obj (optField "tags" strMapToJson tags ++ optField "limit" (fun n => .num n) limit ++
      optField "cursor" .str cursor)
  | taskGet id | taskHalt id | taskContinue id | promiseGet id | scheduleGet id
  | scheduleDelete id => idData id

def allow409 : Call → Bool
  | taskCreateOrConflict .. => true
  | _ => false

def parse (status : ℕ) (data : Json) : Call → Except Error Answer
  | taskAcquire .. | taskCreate .. => .acquired <$> parseTaskAcquire data
  | taskCreateOrConflict .. =>
    if status = 409 then .ok .conflict else .acquired <$> parseTaskAcquire data
  | taskFulfill .. | promiseGet .. | promiseCreate .. | promiseSettle ..
  | promiseRegisterCallback .. | promiseRegisterListener .. => .promise <$> parsePromise data
  | taskSuspend .. => .ok (.suspended (parseSuspendResult status data))
  | taskGet .. => .task <$> parseRecord TaskRecord.ofJson data "task"
  | taskFenceCreate .. | taskFenceSettle .. => .fenced <$> parseFence data
  | taskSearch .. => .ok (.tasks (parseRecords TaskRecord.ofJson data "tasks") (parseCursor data))
  | promiseSearch .. =>
    .ok (.promises (parseRecords PromiseRecord.ofJson data "promises") (parseCursor data))
  | scheduleGet .. | scheduleCreate .. =>
    .schedule <$> parseRecord ScheduleRecord.ofJson data "schedule"
  | scheduleSearch .. =>
    .ok (.schedules (parseRecords ScheduleRecord.ofJson data "schedules") (parseCursor data))
  | taskRelease .. | taskHalt .. | taskContinue .. | taskHeartbeat .. | scheduleDelete .. =>
    .ok .done

def subject : Call → String
  | taskAcquire id .. | taskSuspend id .. | taskRelease id .. | taskGet id | taskHalt id
  | taskContinue id | promiseGet id | scheduleGet id | scheduleDelete id => id
  | taskCreate _ _ action | taskCreateOrConflict _ _ action => action.id
  | taskFulfill _ _ action => action.id
  | taskFenceCreate _ _ req | promiseCreate req => req.id
  | taskFenceSettle _ _ req | promiseSettle req => req.id
  | promiseRegisterCallback awaited _ | promiseRegisterListener awaited _ => awaited
  | scheduleCreate req => req.id
  | taskHeartbeat .. | taskSearch .. | promiseSearch .. | scheduleSearch .. => ""

/-- The calls that may settle a promise other than that of the task they name. -/
def SettlesUnder : Call → Prop
  | taskFulfill .. | taskFenceSettle .. => True
  | _ => False

theorem data_obj (c : Call) (subHead : ℕ → Head) : ∃ fields, c.data subHead = .obj fields := by
  cases c <;> exact ⟨_, rfl⟩

end Sender.Call

namespace Sender

variable (sender : Sender)

/-- The envelope of a call; `subs` are the times at which its sub-envelopes are made. -/
def callEnvelope (sent : Int) (subs : ℕ → Int) (c : Call) : Json :=
  envelope c.kind (sender.makeHead sent) (c.data fun i => sender.makeHead (subs i))

def callAnswer (sent : Int) (c : Call) (answer : Except Error Json) : Except Error Answer := do
  let (status, data) ← received c.kind (sender.makeHead sent).corrId c.allow409 answer
  c.parse status data

def call (s : ServerState) (sent : Int) (subs : ℕ → Int) (now : Int) (c : Call) :
    ServerState × Except Error Answer :=
  let x := s.send now (sender.callEnvelope sent subs c)
  (x.1, sender.callAnswer sent c x.2)

end Sender

section Wire

variable {s : ServerState} {now : Int} {kind corrId : String} {allow : Bool}

theorem ofName_some {name : String} {k : ReqKind} (h : ReqKind.ofName name = some k) :
    name = k.name := by
  unfold ReqKind.ofName at h
  split at h <;> first | (obtain rfl := Option.some.inj h; rfl) | cases h

theorem corrId_request {head : Head} {fields : List (String × Json)} :
    (request kind head (.obj fields)).get "corrId" = some (.str head.corrId) := by
  rw [request_obj, Json.get_obj, Json.lookup_insert]
  rfl

variable (corrId allow) in
theorem received_wrap (k : ReqKind) {status : ℕ} (fields : List (String × Json))
    (hs : status < 2 ^ 16) :
    let answer : Json := wrapResponseEnvelope (.obj ([("kind", .str k.name),
      ("corrId", .str corrId), ("status", .num status)] ++ fields))
    (400 ≤ status ∧ ¬ (allow = true ∧ status = 409) ∧
        ∃ message, received k.name corrId allow (.ok answer) =
          .error (.serverError status message)) ∨
      (¬ (400 ≤ status ∧ ¬ (allow = true ∧ status = 409)) ∧
        ∃ data, received k.name corrId allow (.ok answer) = .ok (status, data) ∧
          ∀ key, key ≠ "kind" → key ≠ "corrId" → key ≠ "status" →
            data.get key = fields.lookup key) := by
  intro answer
  have hget : answer.get "kind" = some (.str k.name) := rfl
  have hcorr : (answer.get "head").bind (·.get "corrId") = some (.str corrId) := rfl
  have hstatus : ((((answer.get "head").bind (·.get "status")).bind Json.asU64).getD 200).toNat %
      2 ^ 16 = status := by
    have hlook : (Json.obj ([("kind", .str k.name), ("corrId", .str corrId),
        ("status", .num status)] ++ fields)).get "status" = some (.num status) := rfl
    rw [wrap_status, hlook, Option.bind_some, Option.bind_some, asU64_natCast hs, Option.getD_some,
      asU64_natCast hs, Option.getD_some, Int.toNat_natCast, Nat.mod_eq_of_lt hs]
  rw [received_of_match hget hcorr, responseData]
  simp only [hstatus]
  by_cases hr : 400 ≤ status ∧ ¬ (allow = true ∧ status = 409)
  · rw [if_pos hr]
    exact Or.inl ⟨hr.1, hr.2, _, rfl⟩
  · rw [if_neg hr]
    refine Or.inr ⟨hr, _, rfl, fun key hk hc hs' => ?_⟩
    exact reply_get k (.str corrId) status fields hk hc hs'

end Wire

section Subjects

variable {kind : String} {head subHead : Head} {id : String} {version : Int}

theorem actionOf_request {fields : List (String × Json)} :
    actionOf (request kind head (.obj fields)) = (fields.lookup "action").getD .null := by
  rw [actionOf, get_request (by decide) (by decide)]

theorem fenceAction_request (fields : List (String × Json)) :
    fenceAction (request "task.fence" head (taskFenceData id version subHead (.obj fields))) =
      ((fields.lookup "state").isSome,
        .obj (Json.insert fields "kind" (.str (fenceKind (.obj fields))))) := by
  have haction : actionOf (request "task.fence" head (taskFenceData id version subHead
      (.obj fields))) = envelope (fenceKind (.obj fields)) subHead (.obj fields) := actionOf_request
  have hdata : extractActionData (envelope (fenceKind (.obj fields)) subHead (.obj fields)) =
      .obj fields := rfl
  have hkind : strField (envelope (fenceKind (.obj fields)) subHead (.obj fields)) "kind" =
      some (fenceKind (.obj fields)) := rfl
  unfold fenceAction
  rw [haction]
  simp only [hdata, hkind, Option.bind_some, Json.asObject, Option.getD_some]
  cases hs : (fields.lookup "state").isSome <;>
    simp [fenceKind, hs, ReqKind.ofName, ReqKind.name]

theorem subjectOf_fence (fields : List (String × Json)) :
    subjectOf .taskFence (request "task.fence" head (taskFenceData id version subHead
      (.obj fields))) = ((fields.lookup "id").bind Json.asStr).getD "" := by
  rw [subjectOf, fenceAction_request, strField, Json.get_obj, Json.lookup_insert,
    if_neg (by decide)]

theorem Sender.Call.subjectOf_request (c : Sender.Call) {k : ReqKind}
    (hk : ReqKind.ofName c.kind = some k) (hs : k ≠ .taskHeartbeat) (hs' : k ≠ .scheduleSearch)
    (subs : ℕ → Head) : subjectOf k (request c.kind head (c.data subs)) = c.subject := by
  cases c with
  | taskFenceCreate id version req =>
    obtain rfl := Option.some.inj hk
    exact subjectOf_fence _
  | taskFenceSettle id version req =>
    obtain rfl := Option.some.inj hk
    exact subjectOf_fence _
  | taskGet | taskHalt | taskContinue | taskSearch | promiseRegisterCallback | promiseSearch =>
    cases hk
  | taskHeartbeat => exact absurd (Option.some.inj hk).symm hs
  | scheduleSearch => exact absurd (Option.some.inj hk).symm hs'
  | _ =>
    obtain rfl := Option.some.inj hk
    rfl

end Subjects

namespace Network

def ScheduleStub.record (stub : ScheduleStub) : ScheduleRecord where
  id := stub.id
  cron := stub.cron
  promiseId := stub.promiseId
  promiseTimeout := stub.promiseTimeout
  promiseParam := Value.ofJson stub.promiseParam
  promiseTags := (strMapOfJson stub.promiseTags).getD ∅
  createdAt := stub.createdAt
  nextRunAt := 0
  lastRunAt := none

structure ScheduleStub.I64 (stub : ScheduleStub) : Prop where
  promiseTimeout : IsI64 stub.promiseTimeout
  createdAt : IsI64 stub.createdAt

/-- The tags of the promises a schedule fires are a map of strings. -/
def ScheduleStub.Tagged (stub : ScheduleStub) : Prop := (strMapOfJson stub.promiseTags).isSome

theorem scheduleRecord_ofJson {stub : ScheduleStub} (h : stub.I64) (ht : stub.Tagged) :
    ScheduleRecord.ofJson stub.toRecord = some stub.record := by
  obtain ⟨tags, htags⟩ := Option.isSome_iff_exists.mp ht
  have hp : (Json.num stub.promiseTimeout).asI64 = some stub.promiseTimeout :=
    asI64_num h.promiseTimeout
  have hc : (Json.num stub.createdAt).asI64 = some stub.createdAt := asI64_num h.createdAt
  have hz : (Json.num 0).asI64 = some 0 := rfl
  simp [ScheduleRecord.ofJson, ScheduleStub.toRecord, List.lookup_cons, Json.asStr, fieldOr, hp, hc,
    hz, htags, optOfJson, ScheduleStub.record]

structure ServerState.I64 (s : ServerState) : Prop where
  promise : ∀ a p, s.promises.lookup a = some p → p.I64
  task : ∀ a t, s.tasks.lookup a = some t → t.I64
  schedule : ∀ a stub, s.schedules.lookup a = some stub → stub.I64

def ServerState.Tagged (s : ServerState) : Prop :=
  ∀ a stub, s.schedules.lookup a = some stub → stub.Tagged

end Network

def HeldPromise (s : ServerState) (a : String) (r : PromiseRecord) : Prop :=
  ∃ p, s.promises.lookup a = some p ∧ r = p.record

def HeldTask (s : ServerState) (a : String) (r : TaskRecord) : Prop :=
  ∃ t, s.tasks.lookup a = some t ∧ r = t.record

def Sender.Answer.Held (s : ServerState) (c : Sender.Call) : Sender.Answer → Prop
  | acquired result => HeldTask s c.subject result.task ∧ HeldPromise s c.subject result.promise ∧
      ∀ r ∈ result.preload, ∃ b, HeldPromise s b r
  | promise record => HeldPromise s c.subject record
  | fenced result => HeldPromise s c.subject result.promise ∧
      ∀ r ∈ result.preload, ∃ b, HeldPromise s b r
  | suspended (.redirect preload) => ∀ r ∈ preload, ∃ b, HeldPromise s b r
  | schedule record => ∃ stub, s.schedules.lookup c.subject = some stub ∧ record = stub.record
  | schedules records cursor =>
    records = (HashMap.values s.schedules).map ScheduleStub.record ∧ cursor = none
  | suspended .suspended | conflict | done => True
  | task _ | tasks .. | promises .. => False

section Parse

variable {s : ServerState} {a : String} {j data : Json} {l : List Json}

theorem parsePromise_held (hi : s.I64) (hd : data.get "promise" = some j) (hj : s.Records a j) :
    ∃ r, parsePromise data = .ok r ∧ HeldPromise s a r := by
  obtain ⟨p, hp, rfl⟩ := hj
  refine ⟨p.record, ?_, p, hp, rfl⟩
  simp only [parsePromise, parseRecord, hd, promiseRecord_ofJson (hi.promise a p hp)]

theorem parseRecords_held (hd : data.get "preload" = some (.arr l))
    (hl : ∀ j ∈ l, ∃ b, s.Records b j) :
    ∀ r ∈ parseRecords PromiseRecord.ofJson data "preload", ∃ b, HeldPromise s b r := by
  intro r hr
  simp only [parseRecords, hd, Option.bind_some, Json.asArray, Option.getD_some,
    List.mem_filterMap] at hr
  obtain ⟨j, hj, hr⟩ := hr
  obtain ⟨b, p, hp, rfl⟩ := hl j hj
  exact ⟨b, p, hp, (promiseRecord_of_ofJson hr).2⟩

theorem parseTaskAcquire_held (hi : s.I64) {t : Task} (ht : s.tasks.lookup a = some t)
    (hdt : data.get "task" = some t.toRecord) (hdp : data.get "promise" = some j)
    (hdl : data.get "preload" = some (.arr l)) (hj : s.Records a j)
    (hl : ∀ j ∈ l, ∃ b, s.Records b j) :
    ∃ r, parseTaskAcquire data = .ok r ∧ HeldTask s a r.task ∧ HeldPromise s a r.promise ∧
      ∀ x ∈ r.preload, ∃ b, HeldPromise s b x := by
  obtain ⟨p, hp, hheld⟩ := parsePromise_held hi hdp hj
  refine ⟨⟨t.record, p, parseRecords PromiseRecord.ofJson data "preload"⟩, ?_, ⟨t, ht, rfl⟩, hheld,
    parseRecords_held hdl hl⟩
  have htask : parseRecord TaskRecord.ofJson data "task" = .ok t.record := by
    simp only [parseRecord, hdt, taskRecord_ofJson (hi.task a t ht)]
  rw [parseTaskAcquire, htask, hp]
  rfl

theorem parseFence_held (hi : s.I64) (hda : data.get "action" =
      some (.obj [("data", .obj [("promise", j)])]))
    (hdl : data.get "preload" = some (.arr l)) (hj : s.Records a j)
    (hl : ∀ j ∈ l, ∃ b, s.Records b j) :
    ∃ r, parseFence data = .ok r ∧ HeldPromise s a r.promise ∧
      ∀ x ∈ r.preload, ∃ b, HeldPromise s b x := by
  obtain ⟨p, hp, rfl⟩ := hj
  refine ⟨⟨p.record, parseRecords PromiseRecord.ofJson data "preload"⟩, ?_, ⟨p, hp, rfl⟩,
    parseRecords_held hdl hl⟩
  have hget : ((((data.get "action").getD (.obj [])).get "data").bind (·.get "promise")) =
      some p.toRecord := by
    rw [hda]
    rfl
  simp only [parseFence, hget, promiseRecord_ofJson (hi.promise a p hp)]

theorem parseFence_missing (hda : data.get "action" =
      some (.obj [("data", .obj [("promise", .null)])])) :
    ∃ message, parseFence data = .error (.decodingError message) := by
  have hget : ((((data.get "action").getD (.obj [])).get "data").bind (·.get "promise")) =
      some .null := by
    rw [hda]
    rfl
  have hnull : PromiseRecord.ofJson .null = none := rfl
  simp only [parseFence, hget, hnull]
  exact ⟨_, rfl⟩

theorem filterMap_records {stubs : List ScheduleStub}
    (h : ∀ stub ∈ stubs, ScheduleRecord.ofJson stub.toRecord = some stub.record) :
    (stubs.map ScheduleStub.toRecord).filterMap ScheduleRecord.ofJson =
      stubs.map ScheduleStub.record := by
  induction stubs with
  | nil => rfl
  | cons stub stubs ih =>
    simp only [List.map_cons, List.filterMap_cons, h stub (by simp)]
    rw [ih fun x hx => h x (by simp [hx])]

end Parse

/-- What a call returns, of the three kinds it can be. -/
inductive Sender.Outcome (s : ServerState) (c : Sender.Call) : Except Error Sender.Answer → Prop
  | answered {answer : Sender.Answer} (h : answer.Held s c) : Outcome s c (.ok answer)
  | refused {code : ℕ} {message : String} (h : code = 400 ∨ code = 404 ∨ code = 409) :
      Outcome s c (.error (.serverError code message))
  | missing {message : String} (hc : c.SettlesUnder) (h : s.promises.lookup c.subject = none) :
      Outcome s c (.error (.decodingError message))

section Outcomes

variable {s : ServerState} {c : Sender.Call} {req data : Json} {k : ReqKind} {status : ℕ}
variable {fields : List (String × Json)}

/-- An accepted reply of the shape of its kind parses as what the server holds. -/
theorem Sender.Call.parse_held (hi : s.I64) (ht : s.Tagged)
    (hk : ReqKind.ofName c.kind = some k)
    (hsub : k ≠ .taskHeartbeat → k ≠ .scheduleSearch → subjectOf k req = c.subject)
    (hcreate : ∀ id version r, c = .taskFenceCreate id version r → (fenceAction req).1 = false)
    (hget : ∀ key, key ≠ "kind" → key ≠ "corrId" → key ≠ "status" →
      data.get key = fields.lookup key)
    (hshape : Shape s req k status fields)
    (hok : ¬ (400 ≤ status ∧ ¬ (c.allow409 = true ∧ status = 409))) :
    Sender.Outcome s c (c.parse status data) := by
  have hf : ∀ {α β : Type} {f : α → β} {x : Except Error α} {a : α}, x = .ok a →
      f <$> x = .ok (f a) := fun h => h ▸ rfl
  have hpromise := hget "promise" (by decide) (by decide) (by decide)
  have hpreload := hget "preload" (by decide) (by decide) (by decide)
  cases hshape with
  | refused hs _ =>
    have hallow : c.allow409 = true ∧ status = 409 := by
      by_contra hno
      exact hok ⟨by omega, hno⟩
    obtain ⟨hallow, rfl⟩ := hallow
    cases c with
    | taskCreateOrConflict => exact .answered (trivial : Sender.Answer.conflict.Held s _)
    | _ => cases hallow
  | promise hkind hs hj =>
    have hne : k ≠ .taskHeartbeat ∧ k ≠ .scheduleSearch := by
      constructor <;> (rintro rfl; exact hkind)
    rw [hsub hne.1 hne.2] at hj
    obtain ⟨r, hr, hheld⟩ := parsePromise_held hi hpromise hj
    cases c with
    | taskFulfill | promiseGet | promiseCreate | promiseSettle | promiseRegisterListener =>
      rw [parse, hf hr]
      exact .answered hheld
    | taskGet | taskHalt | taskContinue | taskSearch | promiseRegisterCallback | promiseSearch =>
      cases hk
    | _ =>
      obtain rfl := Option.some.inj hk
      exact hkind.elim
  | missing hn =>
    rw [hsub (by decide) (by decide)] at hn
    have herr : parsePromise data = .error (.decodingError "invalid promise record") := by
      simp only [parsePromise, parseRecord, hpromise]
      rfl
    cases c with
    | taskFulfill =>
      rw [parse, herr]
      exact .missing trivial hn
    | _ => cases hk
  | task hkind hs htask hj hl =>
    have hne : k ≠ .taskHeartbeat ∧ k ≠ .scheduleSearch := by
      constructor <;> (rintro rfl; exact hkind)
    rw [hsub hne.1 hne.2] at htask hj
    obtain ⟨r, hr, hheld⟩ := parseTaskAcquire_held hi htask
      (hget "task" (by decide) (by decide) (by decide)) hpromise hpreload hj hl
    cases c with
    | taskAcquire | taskCreate =>
      rw [parse, hf hr]
      exact .answered hheld
    | taskCreateOrConflict =>
      rw [parse, if_neg (by omega), hf hr]
      exact .answered hheld
    | taskGet | taskHalt | taskContinue | taskSearch | promiseRegisterCallback | promiseSearch =>
      cases hk
    | _ =>
      obtain rfl := Option.some.inj hk
      exact hkind.elim
  | fence hj hl =>
    rw [hsub (by decide) (by decide)] at hj
    have haction := hget "action" (by decide) (by decide) (by decide)
    rcases hj with hj | ⟨hsettle, hn, rfl⟩
    · obtain ⟨r, hr, hheld⟩ := parseFence_held hi haction hpreload hj hl
      cases c with
      | taskFenceCreate | taskFenceSettle =>
        rw [parse, hf hr]
        exact .answered hheld
      | _ => cases hk
    · obtain ⟨message, hr⟩ := parseFence_missing haction
      cases c with
      | taskFenceSettle =>
        rw [parse, hr]
        exact .missing trivial hn
      | taskFenceCreate id version r =>
        rw [hcreate id version r rfl] at hsettle
        cases hsettle
      | _ => cases hk
  | redirect hl =>
    cases c with
    | taskSuspend id version actions =>
      have hheld : (Sender.Answer.suspended (parseSuspendResult 300 data)).Held s
          (.taskSuspend id version actions) := parseRecords_held hpreload hl
      exact .answered hheld
    | _ => cases hk
  | schedule hkind hs hlook =>
    have hne : k ≠ .taskHeartbeat ∧ k ≠ .scheduleSearch := by
      constructor <;> (rintro rfl; exact hkind)
    rw [hsub hne.1 hne.2] at hlook
    rename_i stub
    have hr : parseRecord ScheduleRecord.ofJson data "schedule" = .ok stub.record := by
      simp only [parseRecord, hget "schedule" (by decide) (by decide) (by decide),
        List.lookup_cons, beq_self_eq_true,
        scheduleRecord_ofJson (hi.schedule _ stub hlook) (ht _ stub hlook)]
    cases c with
    | scheduleGet | scheduleCreate =>
      rw [parse, hf hr]
      exact .answered ⟨stub, hlook, rfl⟩
    | taskGet | taskHalt | taskContinue | taskSearch | promiseRegisterCallback | promiseSearch =>
      cases hk
    | _ =>
      obtain rfl := Option.some.inj hk
      exact hkind.elim
  | schedules =>
    have hr : parseRecords ScheduleRecord.ofJson data "schedules" =
        (HashMap.values s.schedules).map ScheduleStub.record := by
      simp only [parseRecords, hget "schedules" (by decide) (by decide) (by decide),
        List.lookup_cons, beq_self_eq_true, Option.bind_some, Json.asArray, Option.getD_some]
      refine filterMap_records fun stub hmem => ?_
      obtain ⟨a, ha⟩ := HashMap.mem_values.mp hmem
      exact scheduleRecord_ofJson (hi.schedule a stub ha) (ht a stub ha)
    have hcursor : parseCursor data = none := by
      simp only [parseCursor, hget "cursor" (by decide) (by decide) (by decide)]
      rfl
    cases c with
    | scheduleSearch =>
      rw [parse, hr, hcursor]
      exact .answered ⟨rfl, rfl⟩
    | _ => cases hk
  | nothing hkind =>
    cases c with
    | taskRelease | taskHeartbeat | scheduleDelete =>
      exact .answered (trivial : Sender.Answer.done.Held s _)
    | taskSuspend => exact .answered (trivial : (Sender.Answer.suspended .suspended).Held s _)
    | taskGet | taskHalt | taskContinue | taskSearch | promiseRegisterCallback | promiseSearch =>
      cases hk
    | _ =>
      obtain rfl := Option.some.inj hk
      exact hkind.elim

theorem Sender.Outcome.quiet {r : Except Error Sender.Answer} (h : Sender.Outcome s c r) :
    Sender.Outcome { s with outgoing := [] } c r := by
  cases h with
  | answered h => exact .answered h
  | refused h => exact .refused h
  | missing hc h => exact .missing hc h

theorem unserved_unknown {c : Sender.Call} {flat : Json} (hk : ReqKind.ofName c.kind = none)
    (hf : kindOf flat = c.kind) (s : ServerState) (now : Int) :
    s.apply now flat = ({ s with outgoing := [] },
      .error (.serverError 400 s!"unknown request kind: {c.kind}")) := by
  have hprep : s.prepared now flat = { s with outgoing := [] } := by
    rw [ServerState.prepared, hf, hk]
    rfl
  unfold ServerState.apply
  rw [hf, hk, hprep]

end Outcomes

section Calls

variable (sender : Sender) (sent : Int) (subs : ℕ → Int) (now : Int) (c : Sender.Call)

def Sender.callRequest : Json := unwrapRequestEnvelope (sender.callEnvelope sent subs c)

theorem callRequest_kind : kindOf (sender.callRequest sent subs c) = c.kind := by
  obtain ⟨fields, hdata⟩ := c.data_obj fun i => sender.makeHead (subs i)
  rw [Sender.callRequest, Sender.callEnvelope, hdata, ← request, kindOf_request]

theorem callRequest_corrId : (sender.callRequest sent subs c).get "corrId" =
    some (.str (sender.makeHead sent).corrId) := by
  obtain ⟨fields, hdata⟩ := c.data_obj fun i => sender.makeHead (subs i)
  rw [Sender.callRequest, Sender.callEnvelope, hdata, ← request, corrId_request]

variable {sender sent subs now c} {s : ServerState}

theorem call_of_reply {flat : Json}
    (h : (s.apply now (sender.callRequest sent subs c)).2 = .ok flat) :
    sender.call s sent subs now c =
      ({ (s.apply now (sender.callRequest sent subs c)).1 with outgoing := [] },
        sender.callAnswer sent c (.ok (wrapResponseEnvelope flat))) := by
  rw [Sender.call, ServerState.send, ← Sender.callRequest]
  cases hx : s.apply now (sender.callRequest sent subs c) with
  | mk s' r =>
    rw [hx] at h
    obtain rfl : r = .ok flat := h
    rfl

theorem call_of_error {e : Error}
    (h : (s.apply now (sender.callRequest sent subs c)).2 = .error e) :
    sender.call s sent subs now c =
      ((s.apply now (sender.callRequest sent subs c)).1, .error e) := by
  rw [Sender.call, ServerState.send, ← Sender.callRequest]
  cases hx : s.apply now (sender.callRequest sent subs c) with
  | mk s' r =>
    rw [hx] at h
    obtain rfl : r = .error e := h
    rfl

theorem Network.Shape.status_lt {k : ReqKind} {status : ℕ} {req : Json} {fields : List (String × Json)}
    (h : Shape s req k status fields) : status < 2 ^ 16 := by
  cases h <;> omega

theorem callRequest_fence {id : String} {version : Int} {r : PromiseCreateReq}
    (h : c = .taskFenceCreate id version r) :
    (fenceAction (sender.callRequest sent subs c)).1 = false := by
  subst h
  exact congrArg Prod.fst (fenceAction_request _)

/-- A call on the local network, whatever its state. -/
theorem call_outcome (hs : WF s) (hi : (sender.call s sent subs now c).1.I64)
    (ht : (sender.call s sent subs now c).1.Tagged) :
    Sender.Outcome (sender.call s sent subs now c).1 c (sender.call s sent subs now c).2 := by
  cases hk : ReqKind.ofName c.kind with
  | none =>
    rw [call_of_error (congrArg Prod.snd (unserved_unknown hk (callRequest_kind ..) s now))]
    exact .refused (Or.inl rfl)
  | some k =>
    have hname := ofName_some hk
    have hflat := hk
    rw [← callRequest_kind sender sent subs c] at hflat
    obtain ⟨message, herr⟩ | ⟨status, fields, hreply, hshape⟩ := apply_shaped now hs hflat
    · rw [call_of_error herr]
      exact .refused (Or.inl rfl)
    · rw [callRequest_corrId] at hreply
      rw [call_of_reply hreply] at hi ht ⊢
      rw [Sender.callAnswer, hname]
      have hreceived := received_wrap (sender.makeHead sent).corrId c.allow409 k fields
        hshape.status_lt
      rcases hreceived with ⟨hge, -, message, hr⟩ | ⟨hok, data, hr, hget⟩
      · change Sender.Outcome _ c ((received k.name _ _ _).bind _)
        rw [Option.getD_some, hr]
        refine .refused ?_
        cases hshape <;> omega
      · change Sender.Outcome _ c ((received k.name _ _ _).bind _)
        rw [Option.getD_some, hr]
        have hout : Sender.Outcome (s.apply now (sender.callRequest sent subs c)).1 c
            (c.parse status data) :=
          Sender.Call.parse_held ⟨hi.promise, hi.task, hi.schedule⟩ ht hk
            (fun h h' => c.subjectOf_request hk h h' _) (fun _ _ _ h => callRequest_fence h) hget
            hshape hok
        exact hout.quiet

theorem call_tagged (h : s.Tagged) : (sender.call s sent subs now c).1.Tagged := by
  have hsched : (sender.call s sent subs now c).1.schedules =
      (s.exec (.apply now (sender.callRequest sent subs c))).schedules := by
    cases hr : (s.apply now (sender.callRequest sent subs c)).2 with
    | ok flat =>
      rw [call_of_reply hr]
      rfl
    | error e =>
      rw [call_of_error hr]
      rfl
  intro a stub hl
  rw [hsched, exec_register, register_some] at hl
  obtain ⟨hl, -⟩ | ⟨-, hkind, -, -, hdesc⟩ := hl
  · exact h a stub hl
  · rw [callRequest_kind] at hkind
    cases c with
    | scheduleCreate req =>
      unfold describedSchedule at hdesc
      split_ifs at hdesc
      split at hdesc
      · obtain rfl := Option.some.inj hdesc
        have htags : (sender.callRequest sent subs (.scheduleCreate req)).get "promiseTags" =
            some (strMapToJson req.promiseTags) := get_request (by decide) (by decide)
        rw [ScheduleStub.Tagged]
        simp only [ServerState.scheduleOf, htags, Option.getD_some, strMapOfJson_toJson,
          Option.isSome_some]
      · cases hdesc
    | _ => cases hkind

end Calls

/-- A step of the local network as its clients drive it. -/
inductive Exchange where
  | call (sender : Sender) (sent : Int) (subs : ℕ → Int) (now : Int) (c : Sender.Call)
  | tick (now : Int)

def Exchange.exec (s : ServerState) : Exchange → ServerState
  | call sender sent subs now c => (sender.call s sent subs now c).1
  | tick now => s.deliver (.tick now)

def Exchange.run (steps : List Exchange) : ServerState :=
  Machine.run Exchange.exec ServerState.init steps

theorem Exchange.exec_wf {s : ServerState} (h : WF s) (step : Exchange) : WF (step.exec s) := by
  cases step with
  | tick now =>
    have hclear : WF { s with outgoing := [] } := ⟨h.promise_of_task, h.id_ne⟩
    exact hclear.exec (.tick now)
  | call sender sent subs now c =>
    have hw := h.exec (.apply now (sender.callRequest sent subs c))
    cases hr : (s.apply now (sender.callRequest sent subs c)).2 with
    | ok flat =>
      rw [exec, call_of_reply hr]
      exact ⟨hw.promise_of_task, hw.id_ne⟩
    | error e =>
      rw [exec, call_of_error hr]
      exact hw

theorem Exchange.exec_tagged {s : ServerState} (h : s.Tagged) (step : Exchange) :
    (step.exec s).Tagged := by
  cases step with
  | call sender sent subs now c => exact call_tagged h
  | tick now =>
    intro a stub hl
    rw [exec, ServerState.deliver, exec_register] at hl
    exact h a stub hl

theorem Exchange.run_invariant (steps : List Exchange) :
    WF (Exchange.run steps) ∧ (Exchange.run steps).Tagged :=
  Machine.invariant (G := fun _ _ => True) (I := fun s => WF s ∧ s.Tagged)
    (fun _ step _ h => ⟨step.exec_wf h.1, step.exec_tagged h.2⟩)
    ⟨WF.init, fun _ _ h => by cases h⟩ (Machine.along_of_forall fun _ _ _ => trivial)

/-- After any conversation of typed clients with the local network, every call of every
client returns records exactly as the server holds them after the call, or an error of the
server, or it settles a promise that is not there and cannot parse the answer; the calls of
kinds the server does not know change nothing. -/
theorem typed_call_answered (steps : List Exchange) (sender : Sender) (sent : Int)
    (subs : ℕ → Int) (now : Int) (c : Sender.Call)
    (hi : (sender.call (Exchange.run steps) sent subs now c).1.I64) :
    let x := sender.call (Exchange.run steps) sent subs now c
    Sender.Outcome x.1 c x.2 ∧ (ReqKind.ofName c.kind = none →
      x = ({ Exchange.run steps with outgoing := [] },
        .error (.serverError 400 s!"unknown request kind: {c.kind}"))) := by
  obtain ⟨hs, ht⟩ := Exchange.run_invariant steps
  refine ⟨call_outcome hs hi (call_tagged ht), fun hk => ?_⟩
  have hunknown := unserved_unknown hk (callRequest_kind sender sent subs c) (Exchange.run steps) now
  change sender.call _ _ _ _ _ = _
  rw [call_of_error (congrArg Prod.snd hunknown), hunknown]

def createCall : Sender.Call :=
  .promiseCreate { id := "p", timeoutAt := 10, param := {}, tags := ∅ }

/-- Its creation returns its record. -/
theorem typed_call_answered_create :
    Sender.Outcome ((⟨none⟩ : Sender).call (Exchange.run []) 0 (fun _ => 0) 0 createCall).1 createCall
        ((⟨none⟩ : Sender).call (Exchange.run []) 0 (fun _ => 0) 0 createCall).2 ∧
      ∃ r, ((⟨none⟩ : Sender).call (Exchange.run []) 0 (fun _ => 0) 0 createCall).2 =
        .ok (.promise r) ∧ r.state = .pending ∧ r.timeoutAt = 10 := by
  refine ⟨(typed_call_answered [] ⟨none⟩ 0 (fun _ => 0) 0 createCall ⟨?_, ?_, ?_⟩).1, _, rfl, rfl, rfl⟩
  · intro a p hp
    change AList.lookup a (AList.insert "p" (pendingPromise "p" _ 0) (∅ : HashMap DurablePromise)) =
      some p at hp
    rw [HashMap.lookup_insert_ite] at hp
    split_ifs at hp
    · obtain rfl := Option.some.inj hp
      exact ⟨by decide, by decide, fun t ht => by cases ht⟩
    · cases hp
  · intro a t ht
    cases ht
  · intro a stub hl
    cases hl

end Resonate
