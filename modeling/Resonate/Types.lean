import Resonate.Json
import Resonate.Lib.HashMap

/-!
# Shared types

The error type, the states and records of promises and tasks, the request
payloads, and their JSON forms (the derived `Serialize` and `Deserialize`
implementations). The wrapped errors of other crates keep only their text.
-/

namespace Resonate
open Lib

inductive Error where
  | functionNotFound (name : String)
  | alreadyRegistered (name : String)
  | invalidId (id reason : String)
  | serverError (code : ℕ) (message : String)
  | encodingError (message : String)
  | decodingError (message : String)
  | serializationError (message : String)
  | httpError (message : String)
  | networkError (message : String)
  | base64DecodeError (message : String)
  | utf8Error (message : String)
  | ioError (message : String)
  | suspended
  | alreadySettled
  | joinError (message : String)
  | promiseCreation (message : String)
  | application (message : String)
  | timeout
deriving DecidableEq

/-- A character in the `Debug` text of a string. Of the characters that do not print, the control
characters are escaped here; Rust's own table is longer. -/
def debugChar (c : Char) : String :=
  match c with
  | '\x00' => "\\0"
  | '\t' => "\\t"
  | '\r' => "\\r"
  | '\n' => "\\n"
  | '"' => "\\\""
  | '\\' => "\\\\"
  | c =>
    if c.toNat < 32 ∨ 127 ≤ c.toNat ∧ c.toNat < 160 then
      "\\u\x7b" ++ String.ofList (Nat.toDigits 16 c.toNat) ++ "\x7d"
    else c.toString

def debugString (s : String) : String := "\"" ++ String.join (s.toList.map debugChar) ++ "\""

/-- The `Display` text, which is what `encode_error` records. -/
def Error.text : Error → String
  | functionNotFound name => s!"function not found: {name}"
  | alreadyRegistered name => s!"function '{name}' is already registered"
  | invalidId id reason => s!"invalid id {debugString id}: {reason}"
  | serverError code message => s!"server error (code={code}): {message}"
  | encodingError message => s!"encoding error: {message}"
  | decodingError message => s!"decoding error: {message}"
  | serializationError message => s!"serialization error: {message}"
  | httpError message => s!"http error: {message}"
  | networkError message => s!"network error: {message}"
  | base64DecodeError message => s!"base64 decode error: {message}"
  | utf8Error message => s!"utf8 error: {message}"
  | ioError message => s!"io error: {message}"
  | suspended => "execution suspended"
  | alreadySettled => "promise already settled"
  | joinError message => s!"task join error: {message}"
  | promiseCreation message => s!"promise creation failed: {message}"
  | application message => s!"application error: {message}"
  | timeout => "timeout"

inductive PromiseState where
  | pending | resolved | rejected | rejectedCanceled | rejectedTimedout
deriving DecidableEq

inductive TaskState where
  | pending | acquired | suspended | halted | fulfilled
deriving DecidableEq

inductive SettleState where
  | resolved | rejected | rejectedCanceled
deriving DecidableEq

def PromiseState.name : PromiseState → String
  | pending => "pending"
  | resolved => "resolved"
  | rejected => "rejected"
  | rejectedCanceled => "rejected_canceled"
  | rejectedTimedout => "rejected_timedout"

def PromiseState.ofName : String → Option PromiseState
  | "pending" => some pending
  | "resolved" => some resolved
  | "rejected" => some rejected
  | "rejected_canceled" => some rejectedCanceled
  | "rejected_timedout" => some rejectedTimedout
  | _ => none

def TaskState.name : TaskState → String
  | pending => "pending"
  | acquired => "acquired"
  | suspended => "suspended"
  | halted => "halted"
  | fulfilled => "fulfilled"

def TaskState.ofName : String → Option TaskState
  | "pending" => some pending
  | "acquired" => some acquired
  | "suspended" => some suspended
  | "halted" => some halted
  | "fulfilled" => some fulfilled
  | _ => none

def TaskState.debug : TaskState → String
  | pending => "Pending"
  | acquired => "Acquired"
  | suspended => "Suspended"
  | halted => "Halted"
  | fulfilled => "Fulfilled"

def SettleState.toPromiseState : SettleState → PromiseState
  | resolved => .resolved
  | rejected => .rejected
  | rejectedCanceled => .rejectedCanceled

def SettleState.name (s : SettleState) : String := s.toPromiseState.name

@[simp] theorem PromiseState.ofName_name (s : PromiseState) : ofName s.name = some s := by
  cases s <;> rfl

@[simp] theorem TaskState.ofName_name (s : TaskState) : ofName s.name = some s := by
  cases s <;> rfl

theorem SettleState.toPromiseState_ne_pending (s : SettleState) :
    s.toPromiseState ≠ .pending := by
  cases s <;> decide

/-- The variant named by an externally tagged unit variant: a string, or an
object with that single key and a null value. -/
def variantName : Json → Option String
  | .str s => some s
  | .obj [(k, .null)] => some k
  | _ => none

def PromiseState.ofJson (v : Json) : Option PromiseState := (variantName v).bind ofName

def TaskState.ofJson (v : Json) : Option TaskState := (variantName v).bind ofName

def strEntry : String × Json → Option (Sigma fun _ : String => String)
  | (k, .str s) => some ⟨k, s⟩
  | _ => none

def strMapOfJson : Json → Option (HashMap String)
  | .obj fields => (fields.mapM strEntry).map List.toAList
  | _ => none

def strMapToJson (m : HashMap String) : Json :=
  .obj (m.entries.map fun e => (e.1, .str e.2))

structure Value where
  headers : Option (HashMap String) := none
  data : Option Json := none

namespace Value

def dataOrNull (v : Value) : Json := v.data.getD .null

def toJson (v : Value) : Json :=
  .obj ((v.headers.map fun h => ("headers", strMapToJson h)).toList ++
    (v.data.map fun d => ("data", d)).toList)

/-- `Value::deserialize`: an object is read field by field, anything else but
null is itself the data. -/
def ofJson : Json → Value
  | .null => {}
  | .obj fields =>
    { headers := (fields.lookup "headers").bind strMapOfJson
      data := fields.lookup "data" }
  | other => { data := some other }

end Value

structure PromiseRecord where
  id : String
  state : PromiseState
  param : Value
  value : Value
  tags : HashMap String
  timeoutAt : Int
  createdAt : Int
  settledAt : Option Int

structure TaskRecord where
  id : String
  state : TaskState
  version : Int
  resumes : Json
  ttl : Option Int
  pid : Option String

/-- A field under `#[serde(default)]`: absent is the default, present must parse. -/
def fieldOr {α : Type} (v : Json) (key : String) (dflt : α) (parse : Json → Option α) : Option α :=
  match v.get key with
  | none => some dflt
  | some x => parse x

/-- A derived `Deserialize` also reads an array of the fields in order, with no more elements
than fields. -/
def Json.asFields (names : List String) : Json → Json
  | .arr xs => if xs.length ≤ names.length then .obj (names.zip xs) else .arr xs
  | v => v

@[simp] theorem Json.asFields_obj (names : List String) (fields : List (String × Json)) :
    (Json.obj fields).asFields names = .obj fields := rfl

@[simp] theorem Json.asFields_null (names : List String) : Json.null.asFields names = .null := rfl

def optOfJson {α : Type} (parse : Json → Option α) : Json → Option (Option α)
  | .null => some none
  | x => (parse x).map some

def PromiseRecord.ofJson (v : Json) : Option PromiseRecord := do
  let v := v.asFields ["id", "state", "param", "value", "tags", "timeoutAt", "createdAt", "settledAt"]
  let id ← (v.get "id").bind Json.asStr
  let state ← (v.get "state").bind PromiseState.ofJson
  let param ← fieldOr v "param" {} (fun x => some (Value.ofJson x))
  let value ← fieldOr v "value" {} (fun x => some (Value.ofJson x))
  let tags ← fieldOr v "tags" ∅ strMapOfJson
  let timeoutAt ← (v.get "timeoutAt").bind Json.asI64
  let createdAt ← fieldOr v "createdAt" 0 Json.asI64
  let settledAt ← fieldOr v "settledAt" none (optOfJson Json.asI64)
  return { id, state, param, value, tags, timeoutAt, createdAt, settledAt }

def TaskRecord.ofJson (v : Json) : Option TaskRecord := do
  let v := v.asFields ["id", "state", "version", "resumes", "ttl", "pid"]
  let id ← (v.get "id").bind Json.asStr
  let state ← (v.get "state").bind TaskState.ofJson
  let version ← (v.get "version").bind Json.asI64
  let resumes ← fieldOr v "resumes" .null some
  let ttl ← fieldOr v "ttl" none (optOfJson Json.asI64)
  let pid ← fieldOr v "pid" none (optOfJson Json.asStr)
  return { id, state, version, resumes, ttl, pid }

structure PromiseCreateReq where
  id : String
  timeoutAt : Int
  param : Value
  tags : HashMap String

structure PromiseSettleReq where
  id : String
  state : SettleState
  value : Value

def PromiseCreateReq.toJson (r : PromiseCreateReq) : Json :=
  .obj [("id", .str r.id), ("timeoutAt", .num r.timeoutAt), ("param", r.param.toJson),
    ("tags", strMapToJson r.tags)]

def PromiseSettleReq.toJson (r : PromiseSettleReq) : Json :=
  .obj [("id", .str r.id), ("state", .str r.state.name), ("value", r.value.toJson)]

def PromiseCreateReq.defaultWithId (id : String) : PromiseCreateReq :=
  { id, timeoutAt := 0, param := {}, tags := ∅ }

inductive Status where
  | done | suspended
deriving DecidableEq

end Resonate
