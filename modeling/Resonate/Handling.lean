import Resonate.Core
import Resonate.Network.Answers
import Resonate.Lib.Paths

/-!
# A worker and the server

The handling of one task against the local server. A command with a request is two steps:
the request is applied to the server and its answer is on its way, and the answer reaches
the task that waits for it; in between everything else may move. The durable operations of
an execution share the cache that was built for it; a task left over from an earlier
execution keeps that execution's cache.
-/

namespace Resonate
open Lib Lib.ForkJoin Network

section Wire

variable (sender : Sender)

/-- The request of a command, with the times its heads are made; a durable operation that
is served from the cache has none. -/
def Cmd.request (subNow : ℕ → Int) (now : Int) (effects : Option Effects) : Cmd → Option Json
  | .create _ _ _ req => effects.bind fun e => match e.createPromise req with
    | .answered _ => none
    | .fence action => some (e.fenceRequest (subNow 0) now action)
  | .settle _ id result => effects.bind fun e => match e.settlePromise id result with
    | .answered _ => none
    | .fence action => some (e.fenceRequest (subNow 0) now action)
  | .acquire id version pid ttl => some (acquireRequest (sender.makeHead now) id version pid ttl)
  | .fulfill id version action => some (envelope "task.fulfill" (sender.makeHead now)
    (taskFulfillData id version (sender.makeHead (subNow 0)) action))
  | .suspend id version actions => some (suspendRequest (sender.makeHead now) id version
    (actions.mapIdx fun i a => (sender.makeHead (subNow i), a)))
  | .release id version =>
    some (envelope "task.release" (sender.makeHead now) (taskReleaseData id version))
  | _ => none

/-- What a command without a request may be answered. -/
def Cmd.AtOnce (effects : Option Effects) : (c : Cmd) → c.Answer → Prop
  | .create _ _ _ req, a => ∃ e, effects = some e ∧ e.createPromise req = .answered a
  | .settle _ id result, a => ∃ e, effects = some e ∧ e.settlePromise id result = .answered a
  | .acquire .., _ | .fulfill .., _ | .suspend .., _ | .release .., _ => False
  | _, _ => True

/-- What becomes of the answer to a request: the cache after it and the command's answer. -/
def Cmd.reply (now : Int) (effects : Option Effects) (answer : Except Error Json) :
    (c : Cmd) → Option (Option Effects × c.Answer)
  | .create .. | .settle .. => effects.map fun e =>
    let x := e.received (e.fenceResult now answer)
    (some x.1, x.2)
  | .acquire .. => some (effects, acquireResult (sender.makeHead now) answer)
  | .fulfill .. => some (effects, do
    let (_, data) ← received "task.fulfill" (sender.makeHead now).corrId false answer
    parsePromise data)
  | .suspend .. => some (effects, suspendResult (sender.makeHead now) answer)
  | .release .. => some (effects, do
    let _ ← received "task.release" (sender.makeHead now).corrId false answer
    return ())
  | _ => none

variable {sender} {subNow : ℕ → Int} {now serverNow : Int} {effects : Option Effects} {c : Cmd}
variable {req : Json}

theorem Cmd.request_create {kind : CallKind} {position : Position} {slot : Slot}
    {r : PromiseCreateReq}
    (h : (Cmd.create kind position slot r).request sender subNow now effects = some req) :
    ∃ e action, effects = some e ∧ e.createPromise r = .fence action ∧
      req = e.fenceRequest (subNow 0) now action := by
  obtain ⟨e, he, h⟩ := Option.bind_eq_some_iff.mp h
  cases hf : e.createPromise r with
  | answered a => simp [hf] at h
  | fence action =>
    simp only [hf, Option.some.injEq] at h
    exact ⟨e, action, he, hf, h.symm⟩

theorem Cmd.request_settle {position : Position} {id : String}
    {result : Except Error (Except String Json)}
    (h : (Cmd.settle position id result).request sender subNow now effects = some req) :
    ∃ e action, effects = some e ∧ e.settlePromise id result = .fence action ∧
      req = e.fenceRequest (subNow 0) now action := by
  obtain ⟨e, he, h⟩ := Option.bind_eq_some_iff.mp h
  cases hf : e.settlePromise id result with
  | answered a => simp [hf] at h
  | fence action =>
    simp only [hf, Option.some.injEq] at h
    exact ⟨e, action, he, hf, h.symm⟩

theorem kindOf_fulfill {head subHead : Head} {id : String} {version : Int}
    {action : PromiseSettleReq} : ReqKind.ofName (kindOf (unwrapRequestEnvelope
      (envelope "task.fulfill" head (taskFulfillData id version subHead action)))) =
        some .taskFulfill := by
  rw [← request, taskFulfillData, kindOf_request]
  rfl

theorem action_fulfill {head subHead : Head} {id : String} {version : Int}
    {action : PromiseSettleReq} : extractActionData (actionOf (unwrapRequestEnvelope
      (envelope "task.fulfill" head (taskFulfillData id version subHead action)))) =
        action.toJson := by
  rw [← request, taskFulfillData, actionOf, get_request (by decide) (by decide)]
  rfl

theorem kindOf_release {head : Head} {id : String} {version : Int} :
    ReqKind.ofName (kindOf (unwrapRequestEnvelope
      (envelope "task.release" head (taskReleaseData id version)))) = some .taskRelease := by
  rw [← request, taskReleaseData, kindOf_request]
  rfl

/-- The requests of a worker that fulfils its own task only are those of the SDK. -/
theorem Cmd.request_typed (hr : c.request sender subNow now effects = some req)
    (hown : ∀ id v action, c = .fulfill id v action → action.id = id) :
    (Op.apply serverNow (unwrapRequestEnvelope req)).Typed := by
  cases c with
  | create kind position slot r =>
    obtain ⟨e, action, -, hf, rfl⟩ := Cmd.request_create hr
    exact (Effects.createPromise_acts hf).typed e (subNow 0) now serverNow
  | settle position id result =>
    obtain ⟨e, action, -, hf, rfl⟩ := Cmd.request_settle hr
    exact (Effects.settlePromise_acts hf).typed e (subNow 0) now serverNow
  | acquire id v pid ttl =>
    obtain rfl := Option.some.inj hr
    exact typed_acquire
  | suspend id v actions =>
    obtain rfl := Option.some.inj hr
    exact typed_suspend
  | release id v =>
    obtain rfl := Option.some.inj hr
    refine typed_of_not_settle ?_ ?_
    · simp [settleRequest, kindOf_release]
    · simp [kindOf_release]
  | fulfill id v action =>
    obtain rfl := Option.some.inj hr
    refine ⟨fun r hs => ?_, fun _ id' hid => ?_⟩
    · simp only [settleRequest, kindOf_fulfill, action_fulfill, Option.some.injEq] at hs
      rw [← hs, PromiseSettleReq.settleStateOf_toJson]
      exact action.state.toPromiseState_ne_pending
    · rw [action_fulfill] at hid
      obtain rfl : action.id = id' := Option.some.inj hid
      rw [hown id v action rfl, ← Network.request, taskFulfillData, strField,
        get_request (by decide) (by decide)]
      rfl
  | _ => cases hr

theorem Cmd.request_settles (hr : c.request sender subNow now effects = some req) {r : Json}
    (h : settleRequest (unwrapRequestEnvelope req) = some r) : ∃ id, strField r "id" = some id ∧
      ((∃ position result, c = .settle position id result) ∨
        ∃ i v action, c = .fulfill i v action ∧ action.id = id) := by
  have hfence : ∀ (e : Effects) (action : Json), settleRequest (e.flatFence (subNow 0) now action) =
      some r → (fenceAction (e.flatFence (subNow 0) now action)).1 = true ∧
        (fenceAction (e.flatFence (subNow 0) now action)).2 = r := by
    intro e action hs
    unfold settleRequest at hs
    simp only [Effects.kindOf_flatFence] at hs
    split_ifs at hs with hset
    exact ⟨hset, Option.some.inj hs⟩
  cases c with
  | create kind position slot r' =>
    obtain ⟨e, action, -, hf, rfl⟩ := Cmd.request_create hr
    obtain ⟨req', -, -, rfl⟩ := Effects.createPromise_fence hf
    have hset := (hfence e _ h).1
    rw [PromiseCreateReq.toJson, Effects.fenceAction_flatFence] at hset
    cases hset
  | settle position id result =>
    obtain ⟨e, action, -, hf, rfl⟩ := Cmd.request_settle hr
    have hid := ((Effects.settlePromise_acts hf).inner e (subNow 0) now).1
    rw [(hfence e action h).2] at hid
    exact ⟨id, hid, Or.inl ⟨position, result, rfl⟩⟩
  | acquire id v pid ttl =>
    obtain rfl := Option.some.inj hr
    simp [settleRequest, kindOf_acquire] at h
  | suspend id v actions =>
    obtain rfl := Option.some.inj hr
    simp [settleRequest, kindOf_suspend] at h
  | release id v =>
    obtain rfl := Option.some.inj hr
    simp [settleRequest, kindOf_release] at h
  | fulfill id v action =>
    obtain rfl := Option.some.inj hr
    simp only [settleRequest, kindOf_fulfill, action_fulfill, Option.some.injEq] at h
    exact ⟨action.id, h ▸ rfl, Or.inr ⟨id, v, action, rfl, rfl⟩⟩
  | _ => cases hr

end Wire

structure Flight where
  path : List ℕ
  cmd : Cmd
  sent : Int
  answer : Except Error Json

inductive Handling.Did where
  | sent (f : Flight) (op : Op)
  | answered (path : List ℕ) (e : Event)
  | silent

/-- The handling of a task: the tree of its tasks, and the cache of each execution so far,
newest first, with the number of the first task spawned for it. -/
structure Handling where
  core : Core
  sender : Sender
  node : Node Cmd Cmd.Answer End
  effects : List (ℕ × Effects)
  flights : List Flight

namespace Handling

def start (core : Core) (sender : Sender) (prog : Prog) : Handling :=
  ⟨core, sender, .mk prog [], [], []⟩

def owns (base : ℕ) : List ℕ → Bool
  | [] => true
  | i :: _ => base ≤ i

def effectsAt (path : List ℕ) : List (ℕ × Effects) → Option Effects
  | [] => none
  | (base, e) :: rest => if owns base path then some e else effectsAt path rest

def setEffects (path : List ℕ) (e' : Effects) : List (ℕ × Effects) → List (ℕ × Effects)
  | [] => []
  | (base, e) :: rest =>
    if owns base path then (base, e') :: rest else (base, e) :: setEffects path e' rest

variable (x : Handling)

def spawned : ℕ :=
  match x.node with
  | .mk _ kids => kids.length

def opened : Cmd → List (ℕ × Effects)
  | .effects id version preload =>
    (x.spawned, Effects.new x.sender x.core.sdk.codec id version preload) :: x.effects
  | _ => x.effects

def told (path : List ℕ) : Option Effects → List (ℕ × Effects)
  | some e => setEffects path e x.effects
  | none => x.effects

inductive Step : ServerState → Handling → Did → ServerState → Handling → Prop
  | send (s : ServerState) (x : Handling) (path : List ℕ) (c : Cmd) (subNow : ℕ → Int)
      (now serverNow : Int) (req : Json) (hc : CallsAt path x.node c)
      (hf : ∀ f ∈ x.flights, f.path ≠ path)
      (hr : c.request x.sender subNow now (effectsAt path x.effects) = some req) :
      Step s x
        (.sent ⟨path, c, now, (s.send serverNow req).2⟩ (.apply serverNow (unwrapRequestEnvelope req)))
        (s.deliver (.apply serverNow (unwrapRequestEnvelope req)))
        { x with flights := ⟨path, c, now, (s.send serverNow req).2⟩ :: x.flights }
  | receive (s : ServerState) (x : Handling) (f : Flight) (a : f.cmd.Answer) (e : Option Effects)
      (l : Label Cmd Cmd.Answer) (n : Node Cmd Cmd.Answer End) (hf : f ∈ x.flights)
      (hs : StepAt f.path x.node l n) (hl : l.event = [⟨f.cmd, a⟩])
      (hr : f.cmd.reply x.sender f.sent (effectsAt f.path x.effects) f.answer = some (e, a)) :
      Step s x (.answered f.path ⟨f.cmd, a⟩) s { x with
        node := n
        effects := x.told f.path e
        flights := x.flights.filter fun g => g.path ≠ f.path }
  | atOnce (s : ServerState) (x : Handling) (path : List ℕ) (c : Cmd) (a : c.Answer)
      (l : Label Cmd Cmd.Answer) (n : Node Cmd Cmd.Answer End) (hf : ∀ f ∈ x.flights, f.path ≠ path)
      (hs : StepAt path x.node l n) (hl : l.event = [⟨c, a⟩])
      (ha : c.AtOnce (effectsAt path x.effects) a) :
      Step s x (.answered path ⟨c, a⟩) s { x with node := n, effects := x.opened c }
  | silent (s : ServerState) (x : Handling) (path : List ℕ) (n : Node Cmd Cmd.Answer End)
      (hs : StepAt path x.node .silent n) : Step s x .silent s { x with node := n }

end Handling

end Resonate
