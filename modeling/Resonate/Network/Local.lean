import Resonate.Network.Run
import Resonate.Send

/-!
# The local network

`LocalNetwork::send`: the envelope is flattened, applied to the state at the
current time, and the flat answer wrapped again. A request of the SDK keeps its
kind and its data's fields through the flattening.
-/

namespace Resonate.Network
open Lib

def unwrapRequestEnvelope (req : Json) : Json :=
  if (req.get "head").isSome ∧ (req.get "data").isSome then
    let flat := ((req.get "data").bind Json.asObject).getD []
    let flat := match req.get "kind" with
      | some kind => Json.insert flat "kind" kind
      | none => flat
    let flat := match (req.get "head").bind (·.get "corrId") with
      | some corrId => Json.insert flat "corrId" corrId
      | none => flat
    .obj flat
  else req

def wrapResponseEnvelope (flat : Json) : Json :=
  let kind := (flat.get "kind").getD .null
  let corrId := (flat.get "corrId").getD .null
  let status := ((flat.get "status").bind Json.asU64).getD 200
  let data := flat.asObject.getD []
  let data := Json.remove (Json.remove (Json.remove data "kind") "corrId") "status"
  .obj [("kind", kind), ("head", .obj [("corrId", corrId), ("status", .num status),
    ("version", .str protocolVersion)]), ("data", .obj data)]

namespace ServerState

def send (s : ServerState) (now : Int) (req : Json) : ServerState × Except Error Json :=
  match s.apply now (unwrapRequestEnvelope req) with
  | (s, .error e) => (s, .error e)
  | (s, .ok resp) => ({ s with outgoing := [] }, .ok (wrapResponseEnvelope resp))

end ServerState

/-- The flat form in which the server sees a request of the SDK. -/
def request (kind : String) (head : Head) (data : Json) : Json :=
  unwrapRequestEnvelope (envelope kind head data)

theorem request_obj (kind : String) (head : Head) (fields : List (String × Json)) :
    request kind head (.obj fields) =
      .obj (Json.insert (Json.insert fields "kind" (.str kind)) "corrId" (.str head.corrId)) := rfl

theorem get_request {kind : String} {head : Head} {fields : List (String × Json)} {key : String}
    (hk : key ≠ "kind") (hc : key ≠ "corrId") :
    (request kind head (.obj fields)).get key = fields.lookup key := by
  rw [request_obj, Json.get_obj, Json.lookup_insert, Json.lookup_insert, if_neg hc, if_neg hk]

theorem kindOf_request (kind : String) (head : Head) (fields : List (String × Json)) :
    kindOf (request kind head (.obj fields)) = kind := by
  rw [request_obj, kindOf, strField, Json.get_obj, Json.lookup_insert, Json.lookup_insert]
  rfl

end Resonate.Network
