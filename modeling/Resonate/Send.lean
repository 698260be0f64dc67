import Resonate.Types

/-!
# Requests and responses on the wire

`send.rs` and `transport.rs` between the JSON values: the envelope of each
request the worker sends, the checks `Transport::send` and `send_envelope` make
on the answer, and the parsing of the answer's data. A body that serializes to
text and parses again is the value it was, so bodies are JSON values here.
-/

namespace Resonate
open Lib

def protocolVersion : String := "2026-04-01"

structure Head where
  corrId : String
  auth : Option String

def Head.toJson (h : Head) : Json :=
  .obj ([("corrId", .str h.corrId), ("version", .str protocolVersion)] ++
    (h.auth.map fun a => ("auth", Json.str a)).toList)

def envelope (kind : String) (head : Head) (data : Json) : Json :=
  .obj [("kind", .str kind), ("head", head.toJson), ("data", data)]

structure Sender where
  auth : Option String

namespace Sender

def makeHead (sender : Sender) (nowMs : Int) : Head := ⟨s!"sr-{nowMs}", sender.auth⟩

end Sender

def taskAcquireData (id : String) (version : Int) (pid : String) (ttl : Int) : Json :=
  .obj [("id", .str id), ("version", .num version), ("pid", .str pid), ("ttl", .num ttl)]

def taskFulfillData (id : String) (version : Int) (head : Head) (action : PromiseSettleReq) :
    Json :=
  .obj [("id", .str id), ("version", .num version),
    ("action", envelope "promise.settle" head action.toJson)]

structure PromiseRegisterCallbackData where
  awaited : String
  awaiter : String

def PromiseRegisterCallbackData.toJson (d : PromiseRegisterCallbackData) : Json :=
  .obj [("awaited", .str d.awaited), ("awaiter", .str d.awaiter)]

def taskSuspendData (id : String) (version : Int)
    (actions : List (Head × PromiseRegisterCallbackData)) : Json :=
  .obj [("id", .str id), ("version", .num version),
    ("actions", .arr (actions.map fun a =>
      envelope "promise.register_callback" a.1 a.2.toJson))]

def taskReleaseData (id : String) (version : Int) : Json :=
  .obj [("id", .str id), ("version", .num version)]

def taskCreateData (pid : String) (ttl : Int) (head : Head) (action : PromiseCreateReq) : Json :=
  .obj [("pid", .str pid), ("ttl", .num ttl),
    ("action", envelope "promise.create" head action.toJson)]

/-- The sub-kind of a fence is read off its action: a `state` field means settle. -/
def fenceKind (action : Json) : String :=
  if (action.get "state").isSome then "promise.settle" else "promise.create"

def taskFenceData (id : String) (version : Int) (head : Head) (action : Json) : Json :=
  .obj [("id", .str id), ("version", .num version),
    ("action", envelope (fenceKind action) head action)]

def checkResponse (kind corrId : String) (response : Json) : Except Error Json :=
  let respKind := ((response.get "kind").bind Json.asStr).getD ""
  if respKind ≠ kind then
    .error (.serverError 500
      s!"response kind mismatch: expected '{kind}', got '{respKind}'")
  else
    let respCorr := (((response.get "head").bind (·.get "corrId")).bind Json.asStr).getD ""
    if respCorr ≠ corrId then
      .error (.serverError 500
        s!"response corrId mismatch: expected '{corrId}', got '{respCorr}'")
    else .ok response

/-- The status and data of a checked response; a status from 400 on is an error.
The status is cut to 16 bits. -/
def responseData (allow409 : Bool) (resp : Json) : Except Error (ℕ × Json) :=
  let status := ((((resp.get "head").bind (·.get "status")).bind Json.asU64).getD 200).toNat % 2 ^ 16
  let data := (resp.get "data").getD (.obj [])
  if 400 ≤ status ∧ ¬ (allow409 = true ∧ status = 409) then
    let message := match data.asStr with
      | some s => s
      | none => match (data.get "error").bind Json.asStr with
        | some err => err
        | none => s!"server error (status {status})"
    .error (.serverError status message)
  else .ok (status, data)

def received (kind corrId : String) (allow409 : Bool) (answer : Except Error Json) :
    Except Error (ℕ × Json) := do
  let response ← answer
  let response ← checkResponse kind corrId response
  responseData allow409 response

theorem received_of_match {kind corrId : String} {allow409 : Bool} {resp : Json}
    (hk : resp.get "kind" = some (.str kind))
    (hc : (resp.get "head").bind (·.get "corrId") = some (.str corrId)) :
    received kind corrId allow409 (.ok resp) = responseData allow409 resp := by
  have hcheck : checkResponse kind corrId resp = .ok resp := by
    simp [checkResponse, hk, hc, Json.asStr]
  change (checkResponse kind corrId resp).bind _ = _
  rw [hcheck]
  rfl

theorem responseData_error {resp : Json} {n : Int}
    (hs : ((resp.get "head").bind (·.get "status")).bind Json.asU64 = some n)
    (h : 400 ≤ n.toNat % 2 ^ 16) :
    ∃ msg, responseData false resp = .error (.serverError (n.toNat % 2 ^ 16) msg) := by
  simp only [responseData, hs, Option.getD_some]
  rw [if_pos ⟨h, by simp⟩]
  exact ⟨_, rfl⟩

def parseRecord {α : Type} (parse : Json → Option α) (json : Json) (key : String) :
    Except Error α :=
  match json.get key with
  | none => .error (.decodingError s!"missing '{key}' in response")
  | some v => match parse v with
    | some r => .ok r
    | none => .error (.decodingError s!"invalid {key} record")

def parseRecords {α : Type} (parse : Json → Option α) (json : Json) (key : String) : List α :=
  (((json.get key).bind Json.asArray).getD []).filterMap parse

structure TaskAcquireResult where
  task : TaskRecord
  promise : PromiseRecord
  preload : List PromiseRecord

structure TaskFenceResult where
  promise : PromiseRecord
  preload : List PromiseRecord

inductive SuspendResult where
  | suspended
  | redirect (preload : List PromiseRecord)

def parsePromise (json : Json) : Except Error PromiseRecord :=
  parseRecord PromiseRecord.ofJson json "promise"

def parseTaskAcquire (json : Json) : Except Error TaskAcquireResult := do
  let task ← parseRecord TaskRecord.ofJson json "task"
  let promise ← parsePromise json
  return ⟨task, promise, parseRecords PromiseRecord.ofJson json "preload"⟩

def parseSuspendResult (status : ℕ) (data : Json) : SuspendResult :=
  if status = 300 then .redirect (parseRecords PromiseRecord.ofJson data "preload")
  else .suspended

def parseFence (data : Json) : Except Error TaskFenceResult :=
  match (((data.get "action").getD (.obj [])).get "data").bind (·.get "promise") with
  | none => .error (.decodingError "missing promise in fence action response")
  | some v => match PromiseRecord.ofJson v with
    | some promise => .ok ⟨promise, parseRecords PromiseRecord.ofJson data "preload"⟩
    | none => .error (.decodingError "invalid promise in fence response")

end Resonate
