import Resonate.Dispatch

/-!
# The deadlines of calls

A call may ask for a timeout, a `std::time::Duration`. Its promise is due that many
milliseconds from now, and no later than the promise of its caller. The milliseconds are
counted in 128 bits and cast to 64 before they are added.
-/

namespace Resonate
open Lib

structure Duration where
  secs : ℕ
  nanos : ℕ
  secs_lt : secs < 2 ^ 64
  nanos_lt : nanos < 10 ^ 9

namespace Duration

def max : Duration := ⟨2 ^ 64 - 1, 999999999, by decide, by decide⟩

def ofSecs (secs : ℕ) (h : secs < 2 ^ 64) : Duration := ⟨secs, 0, h, by decide⟩

def asNanos (d : Duration) : ℕ := d.secs * 10 ^ 9 + d.nanos

def asMillis (d : Duration) : ℕ := d.secs * 1000 + d.nanos / 1000000

instance : LE Duration := ⟨fun d e => d.asNanos ≤ e.asNanos⟩

theorem asMillis_eq (d : Duration) : d.asMillis = d.asNanos / 1000000 := by
  unfold asMillis asNanos
  omega

theorem asMillis_mono {d e : Duration} (h : d ≤ e) : d.asMillis ≤ e.asMillis := by
  rw [asMillis_eq, asMillis_eq]
  exact Nat.div_le_div_right h

end Duration

/-- The time `millis` from now, as far as it can be told in 64 bits. -/
def dueAt (now : Int) (millis : ℕ) : Int := min (now + millis) Json.i64Max

def IsTime (t : Int) : Prop := 0 ≤ t ∧ t ≤ Json.i64Max

/-- The cast keeps the milliseconds, or what it makes of them does not fall short of the
latest deadline. -/
def Fits (now : Int) (millis : ℕ) (latest : Int) : Prop :=
  millis < 2 ^ 63 ∨ latest ≤ now + (millis : Int).bmod (2 ^ 64)

section Cast

variable {now latest : Int} {n m : ℕ}

theorem bmod_spec (n : ℕ) : -2 ^ 63 ≤ (n : Int).bmod (2 ^ 64) ∧ (n : Int).bmod (2 ^ 64) < 2 ^ 63 ∧
    (n : Int).bmod (2 ^ 64) ≤ n ∧ (n < 2 ^ 63 → (n : Int).bmod (2 ^ 64) = n) := by
  rw [Int.bmod_def]
  split_ifs <;> omega

theorem cast_le_dueAt (hnow : IsTime now) (n : ℕ) :
    saturatingAdd now ((n : Int).bmod (2 ^ 64)) ≤ dueAt now n := by
  obtain ⟨hlo, hhi⟩ := hnow
  have hcast := bmod_spec n
  unfold saturatingAdd dueAt Json.i64Min Json.i64Max at *
  omega

/-- The sum is exact, up to the latest deadline, if and only if the milliseconds fit. -/
theorem cast_exact_iff (hnow : IsTime now) (hlatest : latest ≤ Json.i64Max) (n : ℕ) :
    min (saturatingAdd now ((n : Int).bmod (2 ^ 64))) latest = min (dueAt now n) latest ↔
      Fits now n latest := by
  obtain ⟨hlo, hhi⟩ := hnow
  have hcast := bmod_spec n
  unfold Fits saturatingAdd dueAt Json.i64Min Json.i64Max at *
  omega

theorem dueAt_mono (h : n ≤ m) : dueAt now n ≤ dueAt now m := by
  unfold dueAt
  omega

theorem le_dueAt (hnow : IsTime now) (n : ℕ) : now ≤ dueAt now n := by
  have hhi := hnow.2
  unfold dueAt
  omega

end Cast

namespace Context

variable {c : Context} {now : Int} {timeout : Option Duration} {req : PromiseCreateReq}

def timeoutOf (timeout : Option Duration) : Duration :=
  timeout.getD (Duration.ofSecs 86400 (by decide))

theorem childTimeout_eq (c : Context) (now : Int) (timeout : Option Duration) :
    c.childTimeout now (timeout.map Duration.asMillis) =
      min (saturatingAdd now (((timeoutOf timeout).asMillis : Int).bmod (2 ^ 64))) c.timeoutAt := by
  cases timeout <;> rfl

/-- The deadline of a call is exact, not before now or the deadline of the caller, and no
shorter timeout has a later one. -/
structure KeepsTimeout (c : Context) (now : Int) (timeout : Option Duration) : Prop where
  exact : c.childTimeout now (timeout.map Duration.asMillis) =
    min (dueAt now (timeoutOf timeout).asMillis) c.timeoutAt
  notBefore : min now c.timeoutAt ≤ c.childTimeout now (timeout.map Duration.asMillis)
  monotone : ∀ shorter, timeoutOf shorter ≤ timeoutOf timeout →
    c.childTimeout now (shorter.map Duration.asMillis) ≤
      c.childTimeout now (timeout.map Duration.asMillis)

theorem keepsTimeout_iff (hnow : IsTime now) (hc : c.timeoutAt ≤ Json.i64Max)
    (timeout : Option Duration) :
    c.KeepsTimeout now timeout ↔ Fits now (timeoutOf timeout).asMillis c.timeoutAt := by
  have hexact := cast_exact_iff hnow hc (timeoutOf timeout).asMillis
  rw [← childTimeout_eq] at hexact
  refine ⟨fun h => hexact.mp h.exact, fun h => ⟨hexact.mpr h, ?_, fun shorter hle => ?_⟩⟩
  · rw [hexact.mpr h]
    exact min_le_min_right _ (le_dueAt hnow _)
  · rw [hexact.mpr h, childTimeout_eq]
    exact min_le_min_right _ ((cast_le_dueAt hnow _).trans (dueAt_mono (Duration.asMillis_mono hle)))

inductive Requests (c : Context) (now : Int) : Option Duration → PromiseCreateReq → Prop
  | run (timeout : Option Duration) (id : String) (args : Except String Json) (req : PromiseCreateReq)
      (h : c.localCreateReq id args (timeout.map Duration.asMillis) now = .ok req) :
      Requests c now timeout req
  | rpc (timeout : Option Duration) (sdk : Sdk) (id func parent : String) (args : Except String Json)
      (target : Option String) (req : PromiseCreateReq)
      (h : c.remoteCreateReq sdk id func parent args (timeout.map Duration.asMillis) target now =
        .ok req) : Requests c now timeout req
  | promise (timeout : Option Duration) (id : String) (param : Value) :
      Requests c now timeout (c.promiseCreateReq id (timeout.map Duration.asMillis) param now)
  | sleep (duration : Duration) (sdk : Sdk) (id : String) :
      Requests c now (some duration) (c.sleepCreateReq sdk id duration.asMillis now)

theorem Requests.timeoutAt_eq (h : c.Requests now timeout req) :
    req.timeoutAt = c.childTimeout now (timeout.map Duration.asMillis) := by
  cases h with
  | run _ id args _ h =>
    cases args <;> cases h
    rfl
  | rpc _ sdk id func parent args target _ h =>
    cases args <;> cases h
    rfl
  | promise id param => rfl
  | sleep duration sdk id => rfl

inductive Chain : Context → List (Int × Option Duration) → Int → Prop
  | last (c : Context) (now : Int) (timeout : Option Duration) (req : PromiseCreateReq)
      (h : c.Requests now timeout req) : Chain c [(now, timeout)] req.timeoutAt
  | nested (c : Context) (now : Int) (timeout : Option Duration) (req : PromiseCreateReq)
      (func : String) (call : Call) (calls : List (Int × Option Duration)) (t : Int)
      (h : c.Requests now timeout req) (hs : Chain (c.child req.id func req.timeoutAt call) calls t) :
      Chain c ((now, timeout) :: calls) t

end Context

def dueWithin (latest : Int) (calls : List (Int × Option Duration)) : Int :=
  calls.foldl (fun latest call => min (dueAt call.1 (Context.timeoutOf call.2).asMillis) latest) latest

def FitAll : Int → List (Int × Option Duration) → Prop
  | _, [] => True
  | latest, (now, timeout) :: calls => Fits now (Context.timeoutOf timeout).asMillis latest ∧
    FitAll (min (dueAt now (Context.timeoutOf timeout).asMillis) latest) calls

def NoShorter (calls longer : List (Int × Option Duration)) : Prop :=
  List.Forall₂ (fun a b => a.1 = b.1 ∧ Context.timeoutOf a.2 ≤ Context.timeoutOf b.2) calls longer

section Chains

variable {c : Context} {latest latest' t : Int} {calls longer : List (Int × Option Duration)}

theorem dueWithin_le (latest : Int) (calls : List (Int × Option Duration)) :
    dueWithin latest calls ≤ latest := by
  induction calls generalizing latest with
  | nil => exact le_refl _
  | cons call calls ih => exact (ih _).trans (min_le_right _ _)

theorem dueWithin_mono (h : latest ≤ latest') (hcalls : NoShorter calls longer) :
    dueWithin latest calls ≤ dueWithin latest' longer := by
  unfold NoShorter at hcalls
  induction hcalls generalizing latest latest' with
  | nil => exact h
  | @cons a b calls longer hab htail ih =>
    refine ih (min_le_min ?_ h)
    rw [hab.1]
    exact dueAt_mono (Duration.asMillis_mono hab.2)

theorem NoShorter.refl (calls : List (Int × Option Duration)) : NoShorter calls calls := by
  unfold NoShorter
  exact List.forall₂_same.mpr fun a _ => ⟨rfl, Nat.le_refl _⟩

theorem Context.Chain.spec (h : c.Chain calls t) (hnow : ∀ call ∈ calls, IsTime call.1)
    (hc : c.timeoutAt ≤ Json.i64Max) :
    t ≤ dueWithin c.timeoutAt calls ∧ (FitAll c.timeoutAt calls → t = dueWithin c.timeoutAt calls) := by
  induction h with
  | last c now timeout req h =>
    have hexact := cast_exact_iff (hnow _ List.mem_cons_self) hc (timeoutOf timeout).asMillis
    have hle := cast_le_dueAt (hnow _ List.mem_cons_self) (timeoutOf timeout).asMillis
    rw [h.timeoutAt_eq, childTimeout_eq]
    exact ⟨min_le_min_right _ hle, fun hfit => hexact.mpr hfit.1⟩
  | nested c now timeout req func call calls t h hs ih =>
    have hexact := cast_exact_iff (hnow _ List.mem_cons_self) hc (timeoutOf timeout).asMillis
    have hle := cast_le_dueAt (hnow _ List.mem_cons_self) (timeoutOf timeout).asMillis
    have heq := h.timeoutAt_eq
    rw [childTimeout_eq] at heq
    have hparent : req.timeoutAt ≤ c.timeoutAt := heq ▸ min_le_right _ _
    obtain ⟨hupper, hfits⟩ := ih (fun call hmem => hnow call (List.mem_cons_of_mem _ hmem))
      (hparent.trans hc)
    change t ≤ dueWithin req.timeoutAt calls at hupper
    change FitAll req.timeoutAt calls → t = dueWithin req.timeoutAt calls at hfits
    have hstep : req.timeoutAt ≤ min (dueAt now (timeoutOf timeout).asMillis) c.timeoutAt := by
      rw [heq]
      exact min_le_min_right _ hle
    have hafter := dueWithin_mono hstep (NoShorter.refl calls)
    refine ⟨hupper.trans hafter, fun ⟨hfit, hrest⟩ => ?_⟩
    · rw [hexact.mpr hfit] at heq
      rw [hfits (heq ▸ hrest), heq]
      rfl

end Chains

theorem buildPromiseCreateReq_timeoutAt {codec : Codec} {id func : String} {args : Json}
    {opts : Options} {now : Int} {req : PromiseCreateReq}
    (h : buildPromiseCreateReq codec id func args opts now = .ok req) :
    req.timeoutAt = saturatingAdd now ((opts.timeout : Int).bmod (2 ^ 64)) := by
  unfold buildPromiseCreateReq at h
  cases hid : validateRootId id with
  | error e => simp [hid, bind, Except.bind] at h
  | ok u =>
    cases henc : codec.encode (paramData func args) with
    | error e => simp [hid, henc, bind, Except.bind] at h
    | ok param =>
      simp only [hid, henc, bind, Except.bind] at h
      obtain rfl := Except.ok.inj h
      rfl

/-- The deadline of a call keeps its timeout, and that of a dispatch is exact, if and only if
the timeout fits; a chain of calls whose timeouts fit has an exact deadline, which is not later
than the first caller's and not earlier than that of a chain with shorter timeouts. -/
theorem deadlines_exact_iff (c : Context) :
    (∀ (now : Int) (timeout : Option Duration), IsTime now →
      c.timeoutAt ≤ Json.i64Max →
      (c.KeepsTimeout now timeout ↔ Fits now (Context.timeoutOf timeout).asMillis c.timeoutAt)) ∧
    (∀ (now : Int) (timeout : Option Duration) (req : PromiseCreateReq),
      c.Requests now timeout req →
      req.timeoutAt = c.childTimeout now (timeout.map Duration.asMillis) ∧
        req.timeoutAt ≤ c.timeoutAt) ∧
    (∀ (codec : Codec) (id func : String) (args : Json) (opts : Options) (now : Int) (d : Duration)
      (req : PromiseCreateReq), IsTime now → opts.timeout = d.asMillis →
      buildPromiseCreateReq codec id func args opts now = .ok req →
      (req.timeoutAt = dueAt now d.asMillis ↔ Fits now d.asMillis Json.i64Max)) ∧
    ∀ (calls longer : List (Int × Option Duration)) (t t' : Int),
      c.timeoutAt ≤ Json.i64Max → (∀ call ∈ calls, IsTime call.1) → (∀ call ∈ longer, IsTime call.1) →
      NoShorter calls longer → c.Chain calls t → c.Chain longer t' → FitAll c.timeoutAt longer →
      t' = dueWithin c.timeoutAt longer ∧ t' ≤ c.timeoutAt ∧ t ≤ t' := by
  refine ⟨fun now timeout hnow hc => c.keepsTimeout_iff hnow hc timeout,
    fun now timeout req h => ?_, fun codec id func args opts now d req hnow hd h => ?_,
    fun calls longer t t' hc hcalls hlonger hle h h' hfit => ?_⟩
  · refine ⟨h.timeoutAt_eq, ?_⟩
    rw [h.timeoutAt_eq, Context.childTimeout_eq]
    exact min_le_right _ _
  · have hexact := cast_exact_iff hnow (le_refl Json.i64Max) d.asMillis
    have hdue : dueAt now d.asMillis ≤ Json.i64Max := min_le_right _ _
    rw [min_eq_left hdue, min_eq_left ((cast_le_dueAt hnow _).trans hdue)] at hexact
    rw [buildPromiseCreateReq_timeoutAt h, hd]
    exact hexact
  · obtain ⟨hupper, -⟩ := h.spec hcalls hc
    have heq := (h'.spec hlonger hc).2 hfit
    refine ⟨heq, heq ▸ dueWithin_le _ _, ?_⟩
    rw [heq]
    exact hupper.trans (dueWithin_mono (le_refl _) hle)

def callerContext : Context := .root "w" "w" "flow" 20000

def seconds (n : ℕ) (h : n < 2 ^ 64) : Option Duration := some (.ofSecs n h)

/-- A call with five seconds, and the same call made in one with eight. -/
theorem deadlines_exact_short :
    callerContext.KeepsTimeout 1000 (seconds 5 (by decide)) ∧
      ∃ t t', callerContext.Chain [(1000, seconds 5 (by decide)), (2000, none)] t ∧
        callerContext.Chain [(1000, seconds 8 (by decide)), (2000, none)] t' ∧ t' = 9000 ∧ t ≤ t' := by
  obtain ⟨hcall, -, -, hchain⟩ := deadlines_exact_iff callerContext
  have hrange : callerContext.timeoutAt ≤ Json.i64Max := by decide
  have hshort : ∃ t, callerContext.Chain [(1000, seconds 5 (by decide)), (2000, none)] t :=
    ⟨_, .nested _ _ _ _ "step" ⟨0, false⟩ _ _ (.run _ "w:0" (.ok .null) _ rfl)
      (.last _ _ _ _ (.promise _ "w:0.0" {}))⟩
  have hlong : ∃ t', callerContext.Chain [(1000, seconds 8 (by decide)), (2000, none)] t' :=
    ⟨_, .nested _ _ _ _ "step" ⟨0, false⟩ _ _ (.run _ "w:0" (.ok .null) _ rfl)
      (.last _ _ _ _ (.promise _ "w:0.0" {}))⟩
  obtain ⟨t, ht⟩ := hshort
  obtain ⟨t', ht'⟩ := hlong
  have htimes : ∀ d, ∀ call ∈ [((1000 : Int), d), (2000, (none : Option Duration))], IsTime call.1 := by
    have hfirst : IsTime 1000 := ⟨by decide, by decide⟩
    have hsecond : IsTime 2000 := ⟨by decide, by decide⟩
    intro d call hcall
    rcases List.mem_cons.mp hcall with rfl | hcall
    · exact hfirst
    · obtain rfl := List.mem_singleton.mp hcall
      exact hsecond
  have hlonger : NoShorter [(1000, seconds 5 (by decide)), (2000, none)]
      [(1000, seconds 8 (by decide)), (2000, none)] :=
    .cons ⟨rfl, by decide⟩ (.cons ⟨rfl, Nat.le_refl _⟩ .nil)
  have hfit : FitAll callerContext.timeoutAt [(1000, seconds 8 (by decide)), (2000, none)] :=
    ⟨Or.inl (by decide), Or.inl (by decide), trivial⟩
  obtain ⟨heq, -, hle⟩ := hchain _ _ t t' hrange (htimes _) (htimes _) hlonger ht ht' hfit
  refine ⟨(hcall 1000 _ ⟨by decide, by decide⟩ hrange).mpr (Or.inl (by decide)), t, t', ht, ht', ?_,
    hle⟩
  rw [heq]
  decide

/-- With the longest timeout, the deadline of a call and that of a dispatch are before now. -/
theorem longest_timeout_past :
    callerContext.childTimeout 1000 (some Duration.max.asMillis) = 999 ∧
      ¬ callerContext.KeepsTimeout 1000 (some .max) ∧
      ∃ req, buildPromiseCreateReq rpcCodec "w" "f" (.num 1)
          ⟨∅, "poll://any@default", Duration.max.asMillis, 0⟩ 1000 = .ok req ∧
        req.timeoutAt = 999 ∧ req.timeoutAt ≠ dueAt 1000 Duration.max.asMillis := by
  refine ⟨by decide, fun h => ?_, _, rfl, by decide, by decide⟩
  have hexact := h.exact
  revert hexact
  decide

end Resonate
