import Resonate.Effects
import Resonate.Lib.SharedMap

/-!
# The cache under concurrency

The background tasks of an execution share one `Effects`, and its cache is a map whose
single gets and inserts are atomic. Here the operations are cut at each of them. Run
alone, an operation does what it does in one piece; between the guard of
`insert_monotonic` and its write, though, other tasks may act.
-/

namespace Resonate.SharedCache
open Lib ForkJoin SharedMap

abbrev Job :=
  SharedMap.Task PromiseRecord Json (Except Error TaskFenceResult) (Except Error PromiseRecord)

abbrev Shared :=
  SharedMap.State PromiseRecord Json (Except Error TaskFenceResult) (Except Error PromiseRecord)

def isTerminal (r : PromiseRecord) : Bool := r.state ≠ .pending

def insertMonotonic (record : PromiseRecord) (k : Job) : Job :=
  .call (.get record.id) fun e : Option PromiseRecord =>
    if e.any isTerminal then k else .call (.insert record.id record) fun _ => k

def absorb (codec : Codec) : List PromiseRecord → Job → Job
  | [], k => k
  | record :: records, k => match codec.decodePromise record with
    | .ok decoded => insertMonotonic decoded (absorb codec records k)
    | .error _ => absorb codec records k

def received (codec : Codec) : Except Error TaskFenceResult → Job
  | .error err => .ret (.error err)
  | .ok res => absorb codec res.preload (match codec.decodePromise res.promise with
    | .error err => .ret (.error err)
    | .ok decoded => insertMonotonic decoded (.ret (.ok decoded)))

def createPromise (codec : Codec) (req : PromiseCreateReq) : Job :=
  .call (.get req.id) fun e : Option PromiseRecord => match e with
    | some cached => .ret (.ok cached)
    | none => match codec.encode req.param.dataOrNull with
      | .error err => .ret (.error err)
      | .ok param => .call (.ask { req with param }.toJson) (received codec)

def settlePromise (codec : Codec) (id : String) (result : Except Error (Except String Json)) : Job :=
  .call (.get id) fun e : Option PromiseRecord => match e.filter isTerminal with
    | some cached => .ret (.ok cached)
    | none => match Effects.settlement result with
      | .error err => .ret (.error err)
      | .ok (state, data) => match codec.encode data with
        | .error err => .ret (.error err)
        | .ok value => .call (.ask (PromiseSettleReq.toJson ⟨id, state, value⟩)) (received codec)

inductive Call where
  | create (req : PromiseCreateReq)
  | settle (id : String) (result : Except Error (Except String Json))

def Call.id : Call → String
  | create req => req.id
  | settle id _ => id

def Call.job (codec : Codec) : Call → Job
  | create req => createPromise codec req
  | settle id result => settlePromise codec id result

section Guarded

variable {codec : Codec} {k : Job}

theorem insertMonotonic_guarded (h : Guarded isTerminal none k) (record : PromiseRecord) :
    Guarded isTerminal none (insertMonotonic record k) := by
  intro e
  dsimp only
  by_cases he : e.any isTerminal = true
  · rw [if_pos he, if_pos he]
    exact h
  · rw [if_neg he, if_neg he]
    exact ⟨rfl, h⟩

theorem absorb_guarded (h : Guarded isTerminal none k) (records : List PromiseRecord) :
    Guarded isTerminal none (absorb codec records k) := by
  induction records with
  | nil => exact h
  | cons record records ih =>
    rw [absorb]
    cases codec.decodePromise record with
    | ok decoded => exact insertMonotonic_guarded ih decoded
    | error err => exact ih

theorem received_guarded (result : Except Error TaskFenceResult) :
    Guarded isTerminal none (received codec result) := by
  cases result with
  | error err => trivial
  | ok res =>
    apply absorb_guarded
    cases codec.decodePromise res.promise with
    | error err => trivial
    | ok decoded => exact insertMonotonic_guarded (k := .ret (.ok decoded)) trivial decoded

/-- Every write of an operation comes right after its guard. -/
theorem job_guarded (codec : Codec) (call : Call) : Guarded isTerminal none (call.job codec) := by
  cases call with
  | create req =>
    intro e
    cases e with
    | some cached => trivial
    | none =>
      dsimp only
      cases codec.encode req.param.dataOrNull with
      | error err => trivial
      | ok param => exact received_guarded
  | settle id result =>
    intro e
    dsimp only
    cases e.filter isTerminal with
    | some cached => trivial
    | none =>
      dsimp only
      cases Effects.settlement result with
      | error err => trivial
      | ok x =>
        obtain ⟨state, data⟩ := x
        dsimp only
        cases codec.encode data with
        | error err => trivial
        | ok value => exact received_guarded

end Guarded

section Alone

variable {k : Job} {e : Effects} (ask : Json → Except Error TaskFenceResult)

theorem codec_insertMonotonic (e : Effects) (record : PromiseRecord) :
    (e.insertMonotonic record).codec = e.codec := by
  unfold Effects.insertMonotonic
  split_ifs <;> rfl

theorem alone_insertMonotonic (e : Effects) (record : PromiseRecord) :
    alone ask (insertMonotonic record k) e.cache = alone ask k (e.insertMonotonic record).cache := by
  have hguard : (e.cache.lookup record.id).any isTerminal =
      (e.cache.lookup record.id).any fun r => r.state ≠ .pending := rfl
  simp only [insertMonotonic, alone, Effects.insertMonotonic, hguard]
  split_ifs <;> rfl

theorem alone_absorb (records : List PromiseRecord) (e : Effects) :
    alone ask (absorb e.codec records k) e.cache = alone ask k (e.absorb records).cache ∧
      (e.absorb records).codec = e.codec := by
  induction records generalizing e with
  | nil => exact ⟨rfl, rfl⟩
  | cons record records ih =>
    rw [absorb, Effects.absorb, List.foldl_cons, ← Effects.absorb]
    cases e.codec.decodePromise record with
    | error err => exact ih e
    | ok decoded =>
      have hcodec := codec_insertMonotonic e decoded
      obtain ⟨hih, hc⟩ := ih (e.insertMonotonic decoded)
      rw [hcodec] at hih hc
      exact ⟨by rw [alone_insertMonotonic, hih], hc⟩

theorem alone_received (e : Effects) (result : Except Error TaskFenceResult) :
    alone ask (received e.codec result) e.cache =
      ((e.received result).1.cache, some (e.received result).2) := by
  cases result with
  | error err => rfl
  | ok res =>
    obtain ⟨habsorb, hcodec⟩ := alone_absorb ask (k := match e.codec.decodePromise res.promise with
      | .error err => .ret (.error err)
      | .ok decoded => insertMonotonic decoded (.ret (.ok decoded))) res.preload e
    rw [received, habsorb, Effects.received, hcodec]
    cases e.codec.decodePromise res.promise with
    | error err => rfl
    | ok decoded =>
      dsimp only
      rw [alone_insertMonotonic]
      rfl

/-- What an operation does in one piece. -/
def whole (e : Effects) : Begun → HashMap PromiseRecord × Option (Except Error PromiseRecord)
  | .answered result => (e.cache, some result)
  | .fence action => ((e.received (ask action)).1.cache, some (e.received (ask action)).2)

def begin (e : Effects) : Call → Begun
  | .create req => e.createPromise req
  | .settle id result => e.settlePromise id result

/-- Run alone, the steps of an operation are the operation. -/
theorem alone_job (e : Effects) (call : Call) :
    alone ask (call.job e.codec) e.cache = whole ask e (begin e call) := by
  cases call with
  | create req =>
    simp only [Call.job, createPromise, alone, begin, Effects.createPromise]
    cases e.cache.lookup req.id with
    | some cached => rfl
    | none =>
      dsimp only
      cases e.codec.encode req.param.dataOrNull with
      | error err => rfl
      | ok param => exact alone_received ask e _
  | settle id result =>
    have hfilter : (e.cache.lookup id).filter isTerminal =
        (e.cache.lookup id).filter fun r => r.state ≠ .pending := rfl
    simp only [Call.job, settlePromise, alone, begin, Effects.settlePromise, hfilter]
    cases (e.cache.lookup id).filter fun r => decide (r.state ≠ .pending) with
    | some cached => rfl
    | none =>
      dsimp only
      cases Effects.settlement result with
      | error err => rfl
      | ok x =>
        obtain ⟨state, data⟩ := x
        dsimp only
        cases e.codec.encode data with
        | error err => rfl
        | ok value => exact alone_received ask e _

end Alone

/-- A step of the tasks of an execution: one starts an operation, makes its next access to the
cache, or is given the answer of its request, with any records. -/
abbrev Step := SharedMap.Event Call (Except Error TaskFenceResult)

def start (e : Effects) : Shared := ⟨e.cache, []⟩

def run (codec : Codec) (s : Shared) (steps : List Step) : Shared :=
  Machine.run (SharedMap.step (Call.job codec)) s steps

/-- Whenever a terminal record is written, no other task has passed the guard for its id and
is about to write a different record there. -/
def Undisturbed (codec : Codec) (s : Shared) (steps : List Step) : Prop :=
  Machine.Along (SharedMap.step (Call.job codec)) (Exclusive isTerminal) s steps

/-- Once cached, a terminal record stays, and every later operation on its id returns it. -/
structure Monotonic (codec : Codec) (s s' : Shared) (steps : List Step) : Prop where
  kept : ∀ id r, s.map.lookup id = some r → r.state ≠ .pending → s'.map.lookup id = some r
  returned : ∀ call rest r, steps = .start call :: rest → s.map.lookup call.id = some r →
    r.state ≠ .pending → Returns (call.job codec) (.ok r) s' s.tasks.length

theorem job_reads (codec : Codec) (call : Call) {r : PromiseRecord} (hr : r.state ≠ .pending) :
    Reads (call.job codec) call.id r (.ok r) := by
  cases call with
  | create req => exact ⟨_, rfl, rfl⟩
  | settle id result =>
    refine ⟨_, rfl, ?_⟩
    have hfilter : (some r).filter isTerminal = some r := by simp [isTerminal, hr]
    simp only [hfilter]

/-- In every undisturbed run of the tasks the cache is monotonic, from any point of it on. -/
theorem cache_monotonic {e : Effects} {steps steps' : List Step}
    (h : Undisturbed e.codec (start e) (steps ++ steps')) :
    Monotonic e.codec (run e.codec (start e) steps) (run e.codec (start e) (steps ++ steps'))
      steps' := by
  obtain ⟨h₁, h₂⟩ := Machine.along_append.mp h
  have hsafe : Safe isTerminal (run e.codec (start e) steps) :=
    safe_run (job_guarded e.codec) (fun t ht => absurd ht List.not_mem_nil) h₁
  have hrun : run e.codec (start e) (steps ++ steps') =
      Machine.run _ (run e.codec (start e) steps) steps' := Machine.run_append ..
  rw [hrun]
  constructor
  · intro id r hr hst
    exact kept_run (job_guarded e.codec) hsafe h₂ id r hr (by simp [isTerminal, hst])
  · rintro call rest r rfl hr hst
    exact reads_run (job_guarded e.codec) hsafe hr (by simp [isTerminal, hst])
      (job_reads e.codec call hst) h₂

def sharedEffects : Effects := Effects.new ⟨none⟩ nullCodec "t" 0 []

def recordOf (id : String) (state : PromiseState) : PromiseRecord :=
    ⟨id, state, {}, {}, ∅, 100, 0, none⟩

def siblingSteps : List Step :=
  [.start (.create (.defaultWithId "x")), .access 0, .answer 0 (.ok ⟨recordOf "x" .pending, []⟩),
    .access 0, .start (.create (.defaultWithId "y")), .access 1,
    .answer 1 (.ok ⟨recordOf "y" .pending, [recordOf "x" .resolved]⟩), .access 1, .access 1]

def staleSteps : List Step := [.access 0, .start (.create (.defaultWithId "x")), .access 2]

def resolvedSteps : List Step :=
  [.start (.create (.defaultWithId "x")), .access 0, .answer 0 (.ok ⟨recordOf "x" .resolved, []⟩),
    .access 0, .access 0]

def settleSteps : List Step := [.start (.settle "x" (.ok (.ok .null))), .access 1]

/-- A settlement of the promise that another task was told is resolved. -/
theorem cache_monotonic_resolved :
    Monotonic nullCodec (run nullCodec (start sharedEffects) resolvedSteps)
      (run nullCodec (start sharedEffects) (resolvedSteps ++ settleSteps)) settleSteps :=
  cache_monotonic (e := sharedEffects) ⟨trivial, exclusive_single rfl, trivial, exclusive_single rfl,
    exclusive_single rfl, trivial, exclusive_get rfl, trivial⟩

/-- The pending record replaces the resolved one, and the later creation returns it. -/
theorem cache_overwritten :
    (∃ r, (run nullCodec (start sharedEffects) siblingSteps).map.lookup "x" = some r ∧
      r.state = .resolved) ∧
    (∃ r, (run nullCodec (start sharedEffects) (siblingSteps ++ staleSteps)).tasks[2]? =
      some (.ret (.ok r)) ∧ r.state = .pending) ∧
    ¬ Monotonic nullCodec (run nullCodec (start sharedEffects) siblingSteps)
      (run nullCodec (start sharedEffects) (siblingSteps ++ staleSteps)) staleSteps := by
  refine ⟨⟨_, rfl, rfl⟩, ⟨_, rfl, rfl⟩, fun h => ?_⟩
  have hkept := h.kept "x" _ rfl (by decide)
  have hstate : ((run nullCodec (start sharedEffects) (siblingSteps ++ staleSteps)).map.lookup "x").map
      PromiseRecord.state = some .pending := rfl
  rw [hkept] at hstate
  cases hstate

end Resonate.SharedCache
