import Resonate.Completions
import Resonate.Codec

/-!
# Reading a result

A settled promise is read in three ways: by a workflow, from its decoded record; by a
handle, from the answer to its listener request; and by a handle, from an unblock
message. All three undo the encoder, under any headers, and a recorded error has the
same message on each.
-/

namespace Resonate
open Lib Network

/-- `ResonateHandle::decode_value`: data that is a string is decoded, other data is
taken as it is. -/
def decodeValue (codec : Codec) (value : Json) : Except Error Json :=
  match value.get "data" with
  | some (.str s) =>
    if s = "" then .ok .null else (codec.decodeBase64Str s).map fun v => v.getD .null
  | some data => .ok data
  | none => .ok value

def decodeResult (codec : Codec) (ty : Ty) (result : PromiseResult) : Except Error Json :=
  match result.state with
  | .resolved => (decodeValue codec result.value).bind fun v => serde (ty.ofValue v)
  | .rejected => (decodeValue codec result.value).bind fun v => .error (codec.deserializeError v)
  | .rejectedCanceled => .error (.application "Promise canceled")
  | .rejectedTimedout => .error .timeout
  | .pending => .error (.application "promise still pending")

/-- What a workflow makes of a record: `decode_promise`, then `as_result`. -/
def PromiseRecord.readBack (codec : Codec) (ty : Ty) (r : PromiseRecord) :
    Except Error (Option (Except Error Json)) :=
  (codec.decodePromise r).map fun q => q.asResult codec ty

/-- The stored value is an encoded one, beside any headers. -/
def Network.DurablePromise.Encodes (p : DurablePromise) (codec : Codec) (v : Json) : Prop :=
  ∃ fields w, p.value = .obj fields ∧ codec.encode v = .ok w ∧ fields.lookup "data" = w.data

/-- The result is read from the promise in all three ways. -/
structure ReadsAs (codec : Codec) (ty : Ty) (p : DurablePromise) (r : PromiseRecord)
    (result : Except Error Json) : Prop where
  workflow : r.readBack codec ty = .ok (some result)
  listener : decodeResult codec ty r.result = result
  unblock : ∀ promise, unblockPromise (ServerState.unblockMessage p.toRecord) = some promise →
    decodeResult codec ty (unblockResult promise) = result

section Read

variable {codec : Codec} {ty : Ty} {p : DurablePromise} {r : PromiseRecord} {v : Json} {w : Value}

theorem get_valueToWireJson (w : Value) :
    (valueToWireJson w).get "data" = some w.dataOrNull := by
  unfold valueToWireJson
  cases w.headers <;> simp [List.lookup_cons]

/-- A handle decodes what the codec would decode, as long as the data is one of its strings. -/
theorem decodeValue_wire {y : Option Json} (h : codec.decode w = .ok y) :
    decodeValue codec (valueToWireJson w) = .ok (y.getD .null) := by
  unfold Codec.decode at h
  rw [decodeValue, get_valueToWireJson]
  cases hd : w.dataOrNull with
  | str s =>
    simp only [hd] at h ⊢
    by_cases hs : s = ""
    · subst hs
      simp only [Codec.decodeBase64Str, if_true, Except.ok.injEq] at h
      subst h
      simp
    · rw [if_neg hs, h]
      rfl
  | null =>
    simp only [hd, Except.ok.injEq] at h
    subst h
    rfl
  | _ => simp [hd] at h

theorem Network.DurablePromise.Encodes.decode (h : p.Encodes codec v) (hrt : codec.RoundTrips v)
    (hr : PromiseRecord.ofJson p.toRecord = some r) :
    ∃ y, codec.decode r.value = .ok y ∧ y.getD .null = v := by
  obtain ⟨fields, w, hp, hw, hd⟩ := h
  apply Codec.decode_encode hrt hw
  rw [(ofJson_toRecord hr).2, hp]
  exact hd

theorem readBack_eq {param y : Option Json} (hparam : codec.decode r.param = .ok param)
    (hy : codec.decode r.value = .ok y) : r.readBack codec ty =
      .ok (({ r with value := { data := some (y.getD .null) } } : PromiseRecord).asResult codec
        ty) := by
  unfold PromiseRecord.readBack Codec.decodePromise
  rw [hparam, hy]
  rfl

theorem decodeResult_handle {result : Except Error Json}
    (hr : PromiseRecord.ofJson p.toRecord = some r)
    (h : decodeResult codec ty p.outcome = result) :
    decodeResult codec ty r.result = result ∧
      ∀ promise, unblockPromise (ServerState.unblockMessage p.toRecord) = some promise →
        decodeResult codec ty (unblockResult promise) = result := by
  obtain ⟨hst, hv⟩ := ofJson_toRecord hr
  refine ⟨?_, fun promise hpromise => ?_⟩
  · rw [PromiseRecord.result, hst, hv]
    exact h
  · have heq : unblockPromise (ServerState.unblockMessage p.toRecord) = some p.toRecord := rfl
    rw [heq] at hpromise
    obtain rfl := Option.some.inj hpromise
    rw [Session.unblockResult_toRecord]
    exact h

theorem readsAs_rejected {param : Option Json} (hrt : codec.RoundTrips v)
    (hr : PromiseRecord.ofJson p.toRecord = some r) (hparam : codec.decode r.param = .ok param)
    (henc : p.Encodes codec v) (hst : p.state = .rejected) :
    ReadsAs codec ty p r (.error (codec.deserializeError v)) := by
  obtain ⟨y, hy, rfl⟩ := henc.decode hrt hr
  obtain ⟨hstate, hv⟩ := ofJson_toRecord hr
  have hout : decodeResult codec ty p.outcome =
      .error (codec.deserializeError (y.getD .null)) := by
    rw [decodeResult, DurablePromise.outcome, hst, ← hv, decodeValue_wire hy]
    rfl
  obtain ⟨hl, hu⟩ := decodeResult_handle hr hout
  refine ⟨?_, hl, hu⟩
  rw [readBack_eq hparam hy, PromiseRecord.asResult, hstate, hst]
  rfl

end Read

theorem Codec.deserializeError_encodeError (codec : Codec) (e : Error) :
    codec.deserializeError (encodeError e) = .application e.text := by
  simp [Codec.deserializeError, encodeError, Json.get, List.lookup_cons, Json.asStr]

def recordedPromise (state : PromiseState) (data : String) : DurablePromise :=
  { id := "p", state, param := .null, tags := ∅, timeoutAt := 10, createdAt := 1
    value := .obj [("headers", .obj [("h", .num 1)]), ("data", .str data)]
    settledAt := some 2, awaiters := [], subscribers := [] }

end Resonate
