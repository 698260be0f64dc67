import Resonate.Types

/-!
# The codec

`codec.rs`: values cross the durability boundary as base64 of the encrypted JSON
text, and null as the empty string. The JSON text and base64 conversions and the
encryptor are parameters. An error is recorded by its display text and read back
as an application error.
-/

namespace Resonate

structure Codec where
  toText : Json → String
  fromText : String → Except Error Json
  encrypt : ByteArray → Except Error ByteArray
  decrypt : ByteArray → Except Error ByteArray
  base64Encode : ByteArray → String
  base64Decode : String → Except Error ByteArray

namespace Codec

variable (codec : Codec)

def encode (value : Json) : Except Error Value :=
  match value with
  | .null => .ok { data := some (.str "") }
  | v => do
    let encrypted ← codec.encrypt (codec.toText v).toUTF8
    return { data := some (.str (codec.base64Encode encrypted)) }

def decodeBase64Str (s : String) : Except Error (Option Json) :=
  if s = "" then .ok none
  else do
    let bytes ← codec.base64Decode s
    let decrypted ← codec.decrypt bytes
    match String.fromUTF8? decrypted with
    | some text => return some (← codec.fromText text)
    | none => .error (.utf8Error "invalid utf-8 sequence")

def decode (value : Value) : Except Error (Option Json) :=
  match value.dataOrNull with
  | .str s => codec.decodeBase64Str s
  | .null => .ok none
  | _ => .error (.decodingError "expected string or null data")

def decodePromise (promise : PromiseRecord) : Except Error PromiseRecord := do
  let param ← codec.decode promise.param
  let value ← codec.decode promise.value
  return { promise with
    param := { promise.param with data := some (param.getD .null) }
    value := { promise.value with data := some (value.getD .null) } }

theorem decodePromise_ok {codec : Codec} {p q : PromiseRecord} (h : codec.decodePromise p = .ok q) :
    q.id = p.id ∧ q.state = p.state ∧ q.tags = p.tags := by
  unfold decodePromise at h
  cases hp : codec.decode p.param with
  | error e =>
    rw [hp] at h
    cases h
  | ok param =>
    cases hv : codec.decode p.value with
    | error e =>
      rw [hp, hv] at h
      cases h
    | ok value =>
      rw [hp, hv] at h
      cases h
      exact ⟨rfl, rfl, rfl⟩

/-- The JSON text, the encryption and the base64 of a value can be undone, and its
ciphertext is not empty. -/
structure RoundTrips (v : Json) : Prop where
  text : codec.fromText (codec.toText v) = .ok v
  encryption : ∀ c, codec.encrypt (codec.toText v).toUTF8 = .ok c →
    codec.decrypt c = .ok (codec.toText v).toUTF8
  ciphertext : codec.encrypt (codec.toText v).toUTF8 ≠ .ok .empty
  base64 : ∀ c, codec.encrypt (codec.toText v).toUTF8 = .ok c →
    codec.base64Decode (codec.base64Encode c) = .ok c
  base64_empty : codec.base64Decode "" = .ok .empty

theorem fromUTF8_toUTF8 (s : String) : String.fromUTF8? s.toUTF8 = some s := by
  simp [String.fromUTF8?, String.fromUTF8, s.isValidUTF8]

variable {codec}

theorem encode_ok {v : Json} {w : Value} (h : codec.encode v = .ok w) :
    w.headers = none ∧ (v = .null ∧ w.data = some (.str "") ∨
      v ≠ .null ∧ ∃ c, codec.encrypt (codec.toText v).toUTF8 = .ok c ∧
        w.data = some (.str (codec.base64Encode c))) := by
  by_cases hv : v = .null
  · subst hv
    obtain rfl := Except.ok.inj h
    exact ⟨rfl, .inl ⟨rfl, rfl⟩⟩
  · have henc : codec.encode v = (codec.encrypt (codec.toText v).toUTF8).bind fun c =>
        .ok { data := some (.str (codec.base64Encode c)) } := by
      cases v <;> first | exact absurd rfl hv | rfl
    rw [henc] at h
    cases hc : codec.encrypt (codec.toText v).toUTF8 with
    | error e =>
      rw [hc] at h
      cases h
    | ok c =>
      rw [hc] at h
      obtain rfl := Except.ok.inj h
      exact ⟨rfl, .inr ⟨hv, c, rfl, rfl⟩⟩

theorem RoundTrips.base64_ne {v : Json} (h : codec.RoundTrips v) {c : ByteArray}
    (hc : codec.encrypt (codec.toText v).toUTF8 = .ok c) : codec.base64Encode c ≠ "" := by
  intro he
  have hb := h.base64 c hc
  rw [he, h.base64_empty] at hb
  exact h.ciphertext (hc.trans hb.symm)

theorem RoundTrips.decodeBase64Str {v : Json} (h : codec.RoundTrips v) {c : ByteArray}
    (hc : codec.encrypt (codec.toText v).toUTF8 = .ok c) :
    codec.decodeBase64Str (codec.base64Encode c) = .ok (some v) := by
  rw [Codec.decodeBase64Str, if_neg (h.base64_ne hc), h.base64 c hc]
  change (codec.decrypt c).bind _ = _
  rw [h.encryption c hc]
  change (match String.fromUTF8? (codec.toText v).toUTF8 with
    | some text => (codec.fromText text).bind fun v => .ok (some v)
    | none => .error (.utf8Error "invalid utf-8 sequence")) = Except.ok (some v)
  rw [fromUTF8_toUTF8]
  change (codec.fromText (codec.toText v)).bind _ = _
  rw [h.text]
  rfl

/-- Decoding undoes encoding, whatever headers the value has; null is absent. -/
theorem decode_encode {v : Json} {w x : Value} (hrt : codec.RoundTrips v)
    (hw : codec.encode v = .ok w) (hx : x.data = w.data) :
    ∃ y, codec.decode x = .ok y ∧ y.getD .null = v := by
  rcases (encode_ok hw).2 with ⟨rfl, hd⟩ | ⟨-, c, hc, hd⟩
  · refine ⟨none, ?_, rfl⟩
    simp [decode, Value.dataOrNull, hx, hd, Codec.decodeBase64Str]
  · refine ⟨some v, ?_, rfl⟩
    simp only [decode, Value.dataOrNull, hx, hd, Option.getD_some]
    exact hrt.decodeBase64Str hc

variable (codec)

def deserializeError (value : Json) : Error :=
  match (value.get "message").bind Json.asStr with
  | some msg => .application msg
  | none => .application s!"unknown error: {codec.toText value}"

end Codec

/-- A codec without encryption, for records whose data is null or the empty string. -/
def nullCodec : Codec where
  toText _ := "null"
  fromText _ := .ok .null
  encrypt := .ok
  decrypt := .ok
  base64Encode _ := "bnVsbA=="
  base64Decode _ := .ok "null".toUTF8

def singleCodec (v : Json) (text base64 : String) : Codec where
  toText _ := text
  fromText _ := .ok v
  encrypt := .ok
  decrypt := .ok
  base64Encode _ := base64
  base64Decode s := .ok (if s = "" then .empty else text.toUTF8)

theorem singleCodec_roundTrips {v : Json} {text base64 : String} (ht : text ≠ "")
    (hb : base64 ≠ "") : (singleCodec v text base64).RoundTrips v where
  text := rfl
  encryption c h := h.symm
  ciphertext h := ht (String.toByteArray_inj.mp (Except.ok.inj h))
  base64 c h := by
    obtain rfl := Except.ok.inj h
    simp [singleCodec, hb]
  base64_empty := by simp [singleCodec]

def encodeError (err : Error) : Json :=
  .obj [("__type", .str "error"), ("message", .str err.text)]

/-- The JSON conversions of a Rust type, which fail with a text; a value of the
type is given by a JSON value. -/
structure Ty where
  toValue : Json → Except String Json
  ofValue : Json → Except String Json

def serde {α : Type} (r : Except String α) : Except Error α := r.mapError .serializationError

/-- What a settled record hands to a caller; a pending one hands nothing. -/
def PromiseRecord.asResult (codec : Codec) (ty : Ty) (r : PromiseRecord) :
    Option (Except Error Json) :=
  match r.state with
  | .resolved => some (serde (ty.ofValue r.value.dataOrNull))
  | .pending => none
  | _ => some (.error (codec.deserializeError r.value.dataOrNull))

theorem PromiseRecord.asResult_eq_none {codec : Codec} {ty : Ty} {r : PromiseRecord} :
    r.asResult codec ty = none ↔ r.state = .pending := by
  unfold asResult
  cases r.state <;> simp

theorem PromiseRecord.not_pending_of_asResult {codec : Codec} {ty : Ty} {r : PromiseRecord}
    {result : Except Error Json} (h : r.asResult codec ty = some result) : r.state ≠ .pending := by
  intro hp
  rw [asResult_eq_none.mpr hp] at h
  cases h

end Resonate
