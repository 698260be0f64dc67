import Resonate.Results
import Resonate.Context
import Resonate.Effects

/-!
# Rejections passed up

A child function fails, and every workflow above it passes the error up and is rejected
in turn. A caller sees the error live, from the child it has just run, or replayed, from
the record of the child's promise. What was read back is recorded under another message,
so the messages are the same only if the error was seen in the same way on every level.
-/

namespace Resonate
open Lib Network Lib.ForkJoin

inductive Seen where
  | live | replayed
deriving DecidableEq

/-- The decoded record is what a settlement with the error left on the server. -/
def Records (codec : Codec) (err : Error) (record : PromiseRecord) : Prop :=
  ∃ (p : DurablePromise) (r : PromiseRecord), codec.RoundTrips (encodeError err) ∧
    p.Encodes codec (encodeError err) ∧
    p.state = .rejected ∧ PromiseRecord.ofJson p.toRecord = some r ∧
    codec.decodePromise r = .ok record

def Seen.Returns (codec : Codec) (err : Error) (record : PromiseRecord) : Seen → Prop
  | live => record.state = .pending
  | replayed => Records codec err record

def failing (err : Error) (_ : PromiseRecord)
    (k : Except Error Json → Except Error (List String) → Prog) : Prog :=
  k (.error err) (.ok [])

def handBack (todos : List String) (result : Except Error Json) : Prog :=
  .ret (.finished (some result) (.suspended todos))

def Acknowledged (E : List Event) : Prop :=
  ∀ e ∈ E, ∀ position id result err, e ≠ ⟨.settle position id result, .error err⟩

/-- A call whose child failed with `err` hands `e` to its caller. -/
inductive Handed (sdk : Sdk) (err : Error) (seen : Seen) (e : Error) : Prop
  | inline (ty : Ty) (position : Position) (slot : Slot) (req : PromiseCreateReq)
      (record : PromiseRecord) (own : List Event) (hrecord : seen.Returns sdk.codec err record)
      (hb : Behav [] (runIntoFuture sdk ty position slot req (failing err) handBack)
        (⟨.create .run position slot req, .ok record⟩ :: own) []
        (some (.finished (some (.error e)) (.suspended []))))
      (hack : Acknowledged own)
  | spawned (ty : Ty) (position : Position) (slot : Slot) (req : PromiseCreateReq)
      (record : PromiseRecord) (own : List Event) (o : End)
      (hrecord : seen.Returns sdk.codec err record)
      (hb : Behav [] (spawnSequenced .run position slot req
          (spawnedRun sdk ty position req.id (failing err)))
        (⟨.create .run position slot req, .ok record⟩ :: own) [] (some o))
      (hr : recv req.id o = .error e)

/-- The errors handed to the callers above a child that failed with `err`, from the
innermost on, each of them passing on what it was handed. -/
inductive PassedUp (sdk : Sdk) : Error → List Seen → List Error → Prop
  | nil (err : Error) : PassedUp sdk err [] []
  | cons {err e : Error} {seen : Seen} {p : List Seen} {es : List Error}
      (h : Handed sdk err seen e) (hs : PassedUp sdk e p es) :
      PassedUp sdk err (seen :: p) (e :: es)

def recordedMessage (err : Error) : Option String :=
  match Effects.settlement (.error err) with
  | .ok (_, data) => (data.get "message").bind Json.asStr
  | .error _ => none

section Handed

variable {sdk : Sdk} {err e : Error} {seen : Seen} {record : PromiseRecord}

theorem recordedMessage_eq (err : Error) : recordedMessage err = some err.text := by
  simp [recordedMessage, Effects.settlement, encodeError, List.lookup_cons, Json.asStr]

theorem text_application (message : String) :
    (Error.application message).text = "application error: " ++ message := by
  rfl

theorem Records.asResult (h : Records sdk.codec err record) (ty : Ty) :
    record.state = .rejected ∧
      record.asResult sdk.codec ty = some (.error (.application err.text)) := by
  obtain ⟨p, r, hrt, henc, hst, hr, hd⟩ := h
  have hparam : ∃ param, sdk.codec.decode r.param = .ok param := by
    unfold Codec.decodePromise at hd
    cases hp : sdk.codec.decode r.param with
    | error e =>
      rw [hp] at hd
      cases hd
    | ok param => exact ⟨param, rfl⟩
  obtain ⟨param, hparam⟩ := hparam
  have hreads : ReadsAs sdk.codec ty p r _ := readsAs_rejected hrt hr hparam henc hst
  have hread := hreads.workflow
  rw [PromiseRecord.readBack, hd, sdk.codec.deserializeError_encodeError] at hread
  refine ⟨?_, Except.ok.inj hread⟩
  rw [(Codec.decodePromise_ok hd).2.1, (ofJson_toRecord hr).1, hst]

theorem behav_call {c : Cmd} {k : c.Answer → Prog} {ks ext : List Kid} {a : c.Answer}
    {own : List Event} {r : Option End} (h : Behav ks (.call c k) (⟨c, a⟩ :: own) ext r) :
    Behav ks (k a) own ext r := by
  cases h with
  | call a h => exact h

/-- A caller that runs the child sees its error, one that replays it the recorded text. -/
theorem Handed.eq (h : Handed sdk err seen e) :
    e = match seen with
      | .live => err
      | .replayed => .application err.text := by
  cases h with
  | inline ty position slot req record own hrecord hb hack =>
    have hb := behav_call hb
    cases seen with
    | live =>
      have hnone : record.asResult sdk.codec ty = none := PromiseRecord.asResult_eq_none.mpr hrecord
      simp only [hnone, failing] at hb
      cases hb with
      | call a h =>
        cases a with
        | error e' => exact absurd rfl (hack _ List.mem_cons_self position req.id _ e')
        | ok answer =>
          obtain ⟨-, -, hr⟩ := Behav.ret_iff.mp h
          simp only [Option.some.injEq, End.finished.injEq, Except.error.injEq] at hr
          exact hr.1
    | replayed =>
      simp only [(hrecord.asResult ty).2] at hb
      obtain ⟨-, -, hr⟩ := Behav.ret_iff.mp hb
      simp only [Option.some.injEq, End.finished.injEq, Except.error.injEq] at hr
      exact hr.1
  | spawned ty position slot req record own o hrecord hb hr =>
    have hb := behav_call hb
    cases seen with
    | live =>
      have hst : record.state = .pending := hrecord
      simp only [spawnedRun, hst, failing, finishSpawned, Except.map] at hb
      split_ifs at hb with hsus
      · obtain ⟨-, -, ho⟩ := Behav.ret_iff.mp hb
        obtain rfl := Option.some.inj ho
        obtain rfl := Except.error.inj hr
        cases err <;> first | rfl | cases hsus
      · cases hb with
        | call a h =>
          obtain ⟨-, -, ho⟩ := Behav.ret_iff.mp h
          obtain rfl := Option.some.inj ho
          exact (Except.error.inj hr).symm
    | replayed =>
      obtain ⟨hst, hres⟩ := Records.asResult hrecord ty
      rw [PromiseRecord.asResult, hst] at hres
      simp only [spawnedRun, hst] at hb
      obtain ⟨-, -, ho⟩ := Behav.ret_iff.mp hb
      obtain rfl := Option.some.inj ho
      have heq := Option.some.inj hres
      rw [heq] at hr
      exact (Except.error.inj hr).symm

theorem application_ne (message : String) :
    (Error.application message).text ≠ message := by
  intro h
  have hlen := congrArg String.length h
  rw [text_application, String.length_append] at hlen
  have hpre : "application error: ".length = 19 := by decide
  omega

theorem Handed.text_eq_iff {err' e' : Error} {seen' : Seen} (h : Handed sdk err seen e)
    (h' : Handed sdk err' seen' e') (ht : err.text = err'.text) :
    e.text = e'.text ↔ seen = seen' := by
  rw [h.eq, h'.eq]
  cases seen <;> cases seen'
  · simpa using ht
  · simpa [ht] using (application_ne err'.text).symm
  · simpa [ht] using application_ne err'.text
  · simp [ht]

/-- The texts handed up on two patterns agree exactly if the patterns do. -/
theorem PassedUp.text_eq_iff {err' : Error} {p q : List Seen} {es es' : List Error}
    (hp : PassedUp sdk err p es) (hq : PassedUp sdk err' q es') (ht : err.text = err'.text) :
    es.map Error.text = es'.map Error.text ↔ p = q := by
  induction hp generalizing err' q es' with
  | nil err =>
    cases hq with
    | nil => simp
    | cons h hs => simp
  | cons h hs ih =>
    cases hq with
    | nil => simp
    | cons h' hs' =>
      rw [List.map_cons, List.map_cons, List.cons.injEq, List.cons.injEq, h.text_eq_iff h' ht]
      refine and_congr_right fun hseen => ih hs' ?_
      exact (h.text_eq_iff h' ht).mpr hseen

end Handed

section Exists

variable {sdk : Sdk} {err : Error} {record : PromiseRecord}

theorem handed_live (sdk : Sdk) (err : Error) : Handed sdk err .live err := by
  have hb : Behav [] (runIntoFuture sdk ⟨.ok, .ok⟩ [] ⟨[], 0⟩ (.defaultWithId "p") (failing err)
      handBack) [⟨.create .run [] ⟨[], 0⟩ (.defaultWithId "p"),
        .ok ⟨"p", .pending, {}, {}, ∅, 0, 0, none⟩⟩, ⟨.settle [] "p" (.error err),
        .ok ⟨"p", .rejected, {}, {}, ∅, 0, 0, none⟩⟩] []
      (some (.finished (some (.error err)) (.suspended []))) :=
    .call _ (.call _ (.ret _ _))
  have hst : Seen.live.Returns sdk.codec err ⟨"p", .pending, {}, {}, ∅, 0, 0, none⟩ := rfl
  refine .inline ⟨.ok, .ok⟩ [] ⟨[], 0⟩ (.defaultWithId "p") _ _ hst hb ?_
  intro e he position id result err' heq
  rw [List.mem_singleton.mp he] at heq
  cases heq

theorem handed_replayed (h : Records sdk.codec err record) :
    Handed sdk err .replayed (.application err.text) := by
  have hb : Behav [] (runIntoFuture sdk ⟨.ok, .ok⟩ [] ⟨[], 0⟩ (.defaultWithId "p") (failing err)
      handBack) [⟨.create .run [] ⟨[], 0⟩ (.defaultWithId "p"), .ok record⟩] []
      (some (.finished (some (.error (.application err.text))) (.suspended []))) := by
    refine .call _ ?_
    simp only [(h.asResult ⟨.ok, .ok⟩).2]
    exact .ret _ _
  exact .inline ⟨.ok, .ok⟩ [] ⟨[], 0⟩ (.defaultWithId "p") record [] h hb fun e he => by cases he

theorem exists_records {codec : Codec} {p : DurablePromise} {r : PromiseRecord}
    {param : Option Json} (hrt : codec.RoundTrips (encodeError err))
    (henc : p.Encodes codec (encodeError err)) (hst : p.state = .rejected)
    (hr : PromiseRecord.ofJson p.toRecord = some r) (hparam : codec.decode r.param = .ok param) :
    ∃ record, Records codec err record := by
  obtain ⟨y, hy, -⟩ := henc.decode hrt hr
  have hd : codec.decodePromise r = .ok { r with
      param := { r.param with data := some (param.getD .null) }
      value := { r.value with data := some (y.getD .null) } } := by
    unfold Codec.decodePromise
    rw [hparam, hy]
    rfl
  exact ⟨_, p, r, hrt, henc, hst, hr, hd⟩

end Exists

/-- What the callers are handed and what is recorded is the same on two patterns exactly if
every caller sees its child's error in the same way on both. -/
theorem rejection_stable_iff {sdk : Sdk} {err : Error} {p q : List Seen} {es es' : List Error}
    (hp : PassedUp sdk err p es) (hq : PassedUp sdk err q es') :
    ((es.map Error.text = es'.map Error.text ∧
      es.map recordedMessage = es'.map recordedMessage) ↔ p = q) ∧
      encodeError (sdk.codec.deserializeError (encodeError err)) ≠ encodeError err := by
  have hrec : ∀ es : List Error, es.map recordedMessage = (es.map Error.text).map some := by
    intro es
    rw [List.map_map]
    exact List.map_congr_left fun e _ => recordedMessage_eq e
  refine ⟨?_, fun h => ?_⟩
  · rw [hrec, hrec, ← hp.text_eq_iff hq rfl]
    exact ⟨fun h => h.1, fun h => ⟨h, by rw [h]⟩⟩
  · rw [Codec.deserializeError_encodeError] at h
    have hm : recordedMessage (.application err.text) = recordedMessage err := by
      simp only [recordedMessage, Effects.settlement, h]
    rw [recordedMessage_eq, recordedMessage_eq] at hm
    exact application_ne err.text (Option.some.inj hm)

def boomSdk : Sdk where
  targetResolver _ := "t"
  hashId := id
  codec := singleCodec (encodeError (.application "boom"))
    "\x7b\"__type\":\"error\",\"message\":\"application error: boom\"\x7d"
    "eyJfX3R5cGUiOiJlcnJvciIsIm1lc3NhZ2UiOiJhcHBsaWNhdGlvbiBlcnJvcjogYm9vbSJ9"

theorem boom_recorded : ∃ record, Records boomSdk.codec (.application "boom") record :=
  exists_records (singleCodec_roundTrips (by decide) (by decide))
    (p := recordedPromise .rejected
      "eyJfX3R5cGUiOiJlcnJvciIsIm1lc3NhZ2UiOiJhcHBsaWNhdGlvbiBlcnJvcjogYm9vbSJ9")
    ⟨_, _, rfl, rfl, rfl⟩ rfl rfl rfl

/-- Two callers that see a failure live record other messages than after a replay in between. -/
theorem rejection_stable_boom :
    ∃ es es' : List Error, ¬ (es.map Error.text = es'.map Error.text ∧
      es.map recordedMessage = es'.map recordedMessage) := by
  obtain ⟨record, h⟩ := boom_recorded
  have hdiff : ¬ [Seen.live, .live] = [.replayed, .live] := by decide
  exact ⟨_, _, fun heq => hdiff ((rejection_stable_iff
    (.cons (handed_live boomSdk _) (.cons (handed_live _ _) (.nil _)))
    (.cons (handed_replayed h) (.cons (handed_live _ _) (.nil _)))).1.mp heq)⟩

/-- The caller is rejected under one message live and under another on replay. -/
theorem replay_records_other_message :
    ∃ es es', PassedUp boomSdk (.application "boom") [.live] es ∧
      PassedUp boomSdk (.application "boom") [.replayed] es' ∧
      es.map recordedMessage = [some "application error: boom"] ∧
      es'.map recordedMessage = [some "application error: application error: boom"] := by
  obtain ⟨record, h⟩ := boom_recorded
  exact ⟨_, _, .cons (handed_live _ _) (.nil _), .cons (handed_replayed h) (.nil _),
    by simp only [List.map_cons, List.map_nil, recordedMessage_eq]; rfl,
    by simp only [List.map_cons, List.map_nil, recordedMessage_eq]; rfl⟩

end Resonate
