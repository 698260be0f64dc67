import Resonate.Backing
import Resonate.Discharge
import Resonate.Handling
import Resonate.Lib.Trace
import Resonate.Network.Timers

/-!
# Durable sleeps

A cluster is a server with workers that handle execute messages, and clients that send
requests of their own. A worker that acquires the task of a pending timer drops it, so no
worker fulfils the task of a sleep: the promise is left to its deadline.
-/

namespace Resonate
open Lib Lib.ForkJoin Network

structure Cluster where
  server : ServerState
  workers : List Handling

namespace Cluster

inductive Did where
  | served (op : Op)
  | began
  | worked (d : Handling.Did)

def init : Cluster := ⟨.init, []⟩

/-- A step of a cluster: a request of a client or a tick, a worker that takes up an execute
message of whatever task and version, or a step of a worker. -/
inductive Step : Cluster → Did → Cluster → Prop
  | serve (w : Cluster) (op : Op) (hop : op.Typed) :
      Step w (.served op) { w with server := w.server.deliver op }
  | begin (w : Cluster) (core : Core) (sender : Sender) (taskId : String) (version : Int) (fuel : ℕ) :
      Step w .began { w with
        workers := w.workers ++ [.start core sender (core.onMessage taskId version fuel)] }
  | work (w : Cluster) (i : ℕ) (x x' : Handling) (d : Handling.Did) (s' : ServerState)
      (hi : w.workers[i]? = some x) (hs : x.Step w.server d s' x') :
      Step w (.worked d) ⟨s', w.workers.set i x'⟩

def Did.op : Did → Option Op
  | served op | worked (.sent _ op) => some op
  | _ => none

/-- The step settles the promise by name: a client asks for it, or a function settles a
child of this id. -/
def Did.Explicit (id : String) : Did → Prop
  | served op => op.AsksFor id
  | worked (.sent f _) => ∃ position result, f.cmd = .settle position id result
  | _ => False

end Cluster

def Network.ServerState.TimerOnly (s : ServerState) (id : String) : Prop :=
  ∀ p, s.promises.lookup id = some p → p.isTimer

/-- Where a worker is: it acquires a task, it works on one, which is not that of the timer
under `id`, or it has nothing more to do. -/
inductive Handling.Bound (id : String) (timer : Prop) (x : Handling) : Prop
  | acquiring (taskId : String) (version : Int) (fuel : ℕ)
      (hn : x.node = .mk (x.core.onMessage taskId version fuel) [])
      (hf : ∀ f ∈ x.flights, ∀ result,
        acquireResult (x.sender.makeHead f.sent) f.answer = .ok result →
          result.promise.id = taskId ∧ (timer → taskId = id → result.promise.PendingTimer))
  | working (taskId : String) (ho : x.node.Only (Cmd.Own taskId)) (hid : timer → taskId ≠ id)
  | dropped (ho : x.node.Only fun _ => False)

section Workers

variable {s s' : ServerState} {x x' : Handling} {d : Handling.Did} {id : String} {op : Op}
variable {timer timer' : Prop} {path : List ℕ} {c : Cmd}

theorem Network.ServerState.TimerOnly.of_deliver (hc : Coherent s) (hop : op.Typed)
    (h : (s.deliver op).TimerOnly id) : s.TimerOnly id := by
  intro p hp
  obtain ⟨q, hq, hk⟩ := deliver_kept hc hop hp
  have htags := h q hq
  rw [DurablePromise.isTimer, hk.tags] at htags
  exact htags

theorem Network.ServerState.TimerOnly.isTimer {r : PromiseRecord} (h : s.TimerOnly id)
    (hs : s.Shows r) (hid : r.id = id) : r.isTimer := by
  obtain ⟨p, hp, hr⟩ := hs
  rw [PromiseRecord.isTimer, ofJson_toRecord_tags hr]
  exact decide_eq_true (h p (hid ▸ hp))

namespace Handling.Bound

theorem mono (h : x.Bound id timer) (ht : timer' → timer) : x.Bound id timer' := by
  cases h with
  | acquiring taskId version fuel hn hf =>
    exact .acquiring taskId version fuel hn fun f hfl result hr =>
      (hf f hfl result hr).imp_right fun hp h' => hp (ht h')
  | working taskId ho hid => exact .working taskId ho fun h' => hid (ht h')
  | dropped ho => exact .dropped ho

theorem callsAt (h : x.Bound id timer) (hc : CallsAt path x.node c) :
    (∃ taskId version, c = .acquire taskId version x.core.pid x.core.ttl) ∨
      ∃ taskId, c.Own taskId ∧ (timer → taskId ≠ id) := by
  cases h with
  | acquiring taskId version fuel hn hf =>
    rw [hn, Core.onMessage] at hc
    exact Or.inl ⟨taskId, version, hc.of_leaf.2⟩
  | working taskId ho hid => exact Or.inr ⟨taskId, ho.callsAt hc, hid⟩
  | dropped ho => exact (ho.callsAt hc).elim

theorem acquired {core : Core} {taskId : String} {fuel : ℕ} {result : TaskAcquireResult}
    {sender : Sender} {effects : List (ℕ × Effects)} {flights : List Flight} {promise : PromiseRecord}
    (hdec : core.sdk.codec.decodePromise result.promise = .ok promise)
    (hid : result.promise.id = taskId)
    (htimer : timer → taskId = id → result.promise.PendingTimer) :
    Handling.Bound id timer ⟨core, sender, .mk (core.executeUntilBlocked taskId result.task.version
      promise fuel result.preload) [], effects, flights⟩ := by
  have hpid : promise.id = taskId := (Codec.decodePromise_ok hdec).1.trans hid
  by_cases hdrop : timer ∧ taskId = id
  · have hpend : promise.isTimer ∧ promise.state = .pending :=
      (Codec.decodePromise_pendingTimer hdec).mpr (htimer hdrop.1 hdrop.2)
    refine .dropped ?_
    rw [Core.executeUntilBlocked, if_pos hpend]
    exact Node.Only.start trivial
  · exact .working taskId (Node.Only.start (Core.executeUntilBlocked_only hpid))
      fun ht heq => hdrop ⟨ht, heq⟩

theorem send (hc : Coherent s) (h : x.Bound id (s.TimerOnly id)) {subNow : ℕ → Int}
    {now serverNow : Int} {req : Json} (hcall : CallsAt path x.node c)
    (hr : c.request x.sender subNow now (effectsAt path x.effects) = some req)
    (hop : (Op.apply serverNow (unwrapRequestEnvelope req)).Typed) :
    Handling.Bound id ((s.deliver (.apply serverNow (unwrapRequestEnvelope req))).TimerOnly id)
      { x with flights := ⟨path, c, now, (s.send serverNow req).2⟩ :: x.flights } := by
  have hmono : (s.deliver (.apply serverNow (unwrapRequestEnvelope req))).TimerOnly id →
      s.TimerOnly id := fun ht => ht.of_deliver hc hop
  cases h with
  | acquiring taskId version fuel hn hf =>
    refine .acquiring taskId version fuel hn fun f hfl result hres => ?_
    rcases List.mem_cons.mp hfl with rfl | hfl
    · rw [hn, Core.onMessage] at hcall
      obtain ⟨-, rfl⟩ := hcall.of_leaf
      obtain rfl := Option.some.inj hr
      obtain ⟨hgrant, hst⟩ := acquire_granted hc hres
      obtain ⟨hid, hshows⟩ := hgrant.promise
      refine ⟨hid, fun ht heq => ⟨?_, hst⟩⟩
      exact ht.isTimer hshows (hid.trans heq)
    · exact (hf f hfl result hres).imp_right fun hp ht => hp (hmono ht)
  | working taskId ho hid => exact .working taskId ho fun ht => hid (hmono ht)
  | dropped ho => exact .dropped ho

theorem receive (h : x.Bound id timer) {f : Flight} {a : f.cmd.Answer} {e : Option Effects}
    {l : Label Cmd Cmd.Answer} {n : Node Cmd Cmd.Answer End} {effects : List (ℕ × Effects)}
    {flights : List Flight} (hf : f ∈ x.flights) (hs : StepAt f.path x.node l n)
    (hl : l.event = [⟨f.cmd, a⟩])
    (hr : f.cmd.reply x.sender f.sent (effectsAt f.path x.effects) f.answer = some (e, a)) :
    Handling.Bound id timer ⟨x.core, x.sender, n, effects, flights⟩ := by
  cases h with
  | working taskId ho hid => exact .working taskId (ho.stepAt hs) hid
  | dropped ho => exact .dropped (ho.stepAt hs)
  | acquiring taskId version fuel hn hres =>
    rw [hn, Core.onMessage] at hs
    obtain ⟨-, a', rfl, rfl⟩ := hs.of_leaf
    obtain ⟨path, cmd, sent, answer⟩ := f
    obtain ⟨rfl, ha⟩ := Sigma.mk.inj (List.singleton_inj.mp hl)
    obtain rfl := eq_of_heq ha
    have ha : acquireResult (x.sender.makeHead sent) answer = a' :=
      (Prod.mk.inj (Option.some.inj hr)).2
    cases a' with
    | error err => exact .dropped (Node.Only.start trivial)
    | ok result =>
      obtain ⟨hid, htimer⟩ := hres _ hf result ha
      dsimp only
      cases hdec : x.core.sdk.codec.decodePromise result.promise with
      | error err => exact .dropped (Node.Only.start trivial)
      | ok promise => exact acquired hdec hid htimer

theorem own (h : x.Bound id timer) {l : Label Cmd Cmd.Answer} {n : Node Cmd Cmd.Answer End}
    {effects : List (ℕ × Effects)} {flights : List Flight} (hs : StepAt path x.node l n)
    (hl : ∀ taskId version pid ttl a, l.event ≠ [⟨.acquire taskId version pid ttl, a⟩]) :
    Handling.Bound id timer ⟨x.core, x.sender, n, effects, flights⟩ := by
  cases h with
  | working taskId ho hid => exact .working taskId (ho.stepAt hs) hid
  | dropped ho => exact .dropped (ho.stepAt hs)
  | acquiring taskId version fuel hn hf =>
    rw [hn, Core.onMessage] at hs
    obtain ⟨-, a, rfl, rfl⟩ := hs.of_leaf
    exact absurd rfl (hl taskId version x.core.pid x.core.ttl a)

end Handling.Bound

theorem Handling.Step.server (hs : x.Step s d s' x') :
    (∃ f op, d = .sent f op ∧ s' = s.deliver op) ∨ (∀ f op, d ≠ .sent f op) ∧ s' = s := by
  cases hs with
  | send => exact Or.inl ⟨_, _, rfl, rfl⟩
  | receive | atOnce | silent => exact Or.inr ⟨fun f op h => (by cases h), rfl⟩

/-- The request of a worker: one of the SDK that does not ask to settle the timer, unless it
settles a child of this id. -/
theorem Handling.Bound.sent (h : x.Bound id (s.TimerOnly id)) {f : Flight}
    (hs : x.Step s (.sent f op) s' x') : op.Typed ∧ (s.TimerOnly id → op.AsksFor id →
      ∃ position result, f.cmd = .settle position id result) := by
  cases hs with
  | send path c subNow now serverNow req hcall hf hr =>
    have hcmd := h.callsAt hcall
    refine ⟨Cmd.request_typed hr fun i v action heq => ?_, fun ht hask => ?_⟩
    · rcases hcmd with ⟨taskId, version, rfl⟩ | ⟨taskId, hown, -⟩
      · cases heq
      · subst heq
        exact hown.2.trans hown.1.symm
    · obtain ⟨r, hset, hid⟩ := hask
      obtain ⟨id', hr', hcase⟩ := Cmd.request_settles hr hset
      rw [hr', Option.getD_some] at hid
      subst hid
      rcases hcase with hsettle | ⟨i, v, action, rfl, hact⟩
      · exact hsettle
      · rcases hcmd with ⟨taskId, version, heq⟩ | ⟨taskId, hown, hne⟩
        · cases heq
        · exact absurd (hown.2.symm.trans hact) (hne ht)

theorem Handling.Bound.step (hc : Coherent s) (h : x.Bound id (s.TimerOnly id))
    (hs : x.Step s d s' x') : x'.Bound id (s'.TimerOnly id) := by
  have hsent := hs
  cases hs with
  | send path c subNow now serverNow req hcall hf hr => exact h.send hc hcall hr (h.sent hsent).1
  | receive f a e l n hf hs hl hr => exact h.receive hf hs hl hr
  | atOnce path c a l n hf hs hl ha =>
    refine h.own hs fun taskId version pid ttl a' heq => ?_
    obtain ⟨rfl, -⟩ := Sigma.mk.inj (List.singleton_inj.mp (hl.symm.trans heq))
    exact ha
  | silent path n hs => exact h.own hs fun taskId version pid ttl a heq => by cases heq

end Workers

def Network.DurablePromise.Sleeps (p : DurablePromise) : Prop := p.isTimer ∧ p.targeted = true

section Create

theorem lookup_extractTags {r : Json} {tags : HashMap String}
    (h : r.get "tags" = some (strMapToJson tags)) (key : String) :
    (extractTags r).lookup key = tags.lookup key := by
  have hmap : (tags.entries.map fun e => (e.1, Json.str e.2)).filterMap strEntry = tags.entries := by
    induction tags.entries with
    | nil => rfl
    | cons e es ih => simp [ih, strEntry]
  simp only [extractTags, h, strMapToJson, Option.bind_some, Json.asObject, Option.map_some,
    Option.getD_some, hmap, AList.lookup_to_alist]
  rfl

theorem sleepCreateReq_sleeps {c : Context} {sdk : Sdk} {id : String} {duration : ℕ} {now : Int}
    {e : Effects} {action : Json} (h : e.createPromise
      (c.sleepCreateReq sdk id duration now) = .fence action)
    (subNow now' t : Int) :
    (pendingPromise id (fenceAction (e.flatFence subNow now' action)).2 t).Sleeps := by
  obtain ⟨req', -, htags, rfl⟩ := Effects.createPromise_fence h
  have hget : (fenceAction (e.flatFence subNow now' req'.toJson)).2.get "tags" =
      some (strMapToJson req'.tags) := by
    rw [PromiseCreateReq.toJson, Effects.fenceAction_flatFence, Json.get_obj, Json.lookup_insert,
      if_neg (by decide)]
    rfl
  have hlook := lookup_extractTags hget
  rw [htags, Context.sleepCreateReq] at hlook
  refine ⟨?_, ?_⟩
  · rw [DurablePromise.isTimer]
    exact (hlook "resonate:timer").trans (by simp)
  · rw [DurablePromise.targeted]
    have htarget := hlook "resonate:target"
    simp only [HashMap.lookup_insert_ite, if_true] at htarget
    simp [pendingPromise, htarget]

end Create

namespace Cluster

variable {w w' : Cluster} {d : Did} {id : String} {ls ls' : List Did} {op : Op} {p q : DurablePromise}

structure Inv (id : String) (w : Cluster) : Prop where
  coherent : Coherent w.server
  workers : ∀ x ∈ w.workers, x.Bound id (w.server.TimerOnly id)

theorem Step.server (h : Step w d w') :
    (∃ op, d.op = some op ∧ w'.server = w.server.deliver op) ∨ d.op = none ∧ w'.server = w.server := by
  cases h with
  | serve op hop => exact Or.inl ⟨op, rfl, rfl⟩
  | begin => exact Or.inr ⟨rfl, rfl⟩
  | work i x x' d s' hi hs =>
    rcases hs.server with ⟨f, op, rfl, rfl⟩ | ⟨hno, rfl⟩
    · exact Or.inl ⟨op, rfl, rfl⟩
    · refine Or.inr ⟨?_, rfl⟩
      cases d with
      | sent f op => exact absurd rfl (hno f op)
      | _ => rfl

theorem Inv.asks (hinv : Inv id w) (h : Step w d w') (ho : d.op = some op) :
    op.Typed ∧ (w.server.TimerOnly id → op.AsksFor id → d.Explicit id) := by
  cases h with
  | serve op' hop =>
    obtain rfl := Option.some.inj ho
    exact ⟨hop, fun _ hask => hask⟩
  | begin => cases ho
  | work i x x' d s' hi hs =>
    cases d with
    | sent f op' =>
      obtain rfl := Option.some.inj ho
      exact (hinv.workers x (List.mem_of_getElem? hi)).sent hs
    | _ => cases ho

theorem Inv.step (hinv : Inv id w) (h : Step w d w') : Inv id w' := by
  have hserver : Coherent w'.server ∧ (w'.server.TimerOnly id → w.server.TimerOnly id) := by
    rcases h.server with ⟨op, ho, hs⟩ | ⟨-, hs⟩
    · have hop := (hinv.asks h ho).1
      rw [hs]
      exact ⟨deliver_coherent hinv.coherent hop, fun ht => ht.of_deliver hinv.coherent hop⟩
    · rw [hs]
      exact ⟨hinv.coherent, fun ht => ht⟩
  refine ⟨hserver.1, fun x hx => ?_⟩
  cases h with
  | serve op hop => exact (hinv.workers x hx).mono hserver.2
  | begin core sender taskId version fuel =>
    rcases List.mem_append.mp hx with hx | hx
    · exact hinv.workers x hx
    · rw [List.mem_singleton.mp hx]
      exact .acquiring taskId version fuel rfl fun f hf => by cases hf
  | work i y y' d s' hi hs =>
    rcases List.mem_or_eq_of_mem_set hx with hx | rfl
    · exact (hinv.workers x hx).mono hserver.2
    · exact (hinv.workers y (List.mem_of_getElem? hi)).step hinv.coherent hs

theorem Inv.init (id : String) : Inv id init := ⟨Coherent.init, fun _ hx => by cases hx⟩

theorem Inv.trace (hinv : Inv id w) (h : Trace Step w ls w') : Inv id w' :=
  h.invariant (I := fun _ w => Inv id w) hinv fun _ _ _ _ _ hI hs => hI.step hs

theorem Inv.kept (hinv : Inv id w) (h : Step w d w') {a : String}
    (hp : w.server.promises.lookup a = some p) :
    ∃ q, w'.server.promises.lookup a = some q ∧ p.Kept q := by
  rcases h.server with ⟨op, ho, hs⟩ | ⟨-, hs⟩
  · rw [hs]
    exact deliver_kept hinv.coherent (hinv.asks h ho).1 hp
  · rw [hs]
    exact ⟨p, hp, .refl p⟩

theorem Inv.trace_kept (hinv : Inv id w) (h : Trace Step w ls w') {a : String}
    (hp : w.server.promises.lookup a = some p) :
    ∃ q, w'.server.promises.lookup a = some q ∧ p.Kept q := by
  have hI := h.invariant
    (I := fun _ w' => Inv id w' ∧ ∃ q, w'.server.promises.lookup a = some q ∧ p.Kept q)
    ⟨hinv, p, hp, .refl p⟩ fun ls w₁ d w₂ _ hI hs => ?_
  · exact hI.2
  · obtain ⟨hinv₁, q, hq, hk⟩ := hI
    obtain ⟨q', hq', hk'⟩ := hinv₁.kept hs hq
    exact ⟨hinv₁.step hs, q', hq', hk.trans hk'⟩

theorem timerOnly_of_lookup {s : ServerState} (hp : s.promises.lookup id = some p)
    (ht : p.isTimer) : s.TimerOnly id := by
  intro q hq
  obtain rfl := Option.some.inj (hp.symm.trans hq)
  exact ht

/-- A timer that no step settles explicitly has left pending by expiry only, in a step at or
after its deadline. -/
theorem expired_of_settled (h : Trace Step .init ls w) (hno : ∀ d ∈ ls, ¬ d.Explicit id)
    (hp : w.server.promises.lookup id = some p) (ht : p.isTimer) (hst : p.state ≠ .pending) :
    p.Expired ∧ ∃ d ∈ ls, ∃ op, d.op = some op ∧ p.timeoutAt ≤ op.now := by
  have hI := h.invariant
    (I := fun ls w => Inv id w ∧ ((∀ d ∈ ls, ¬ d.Explicit id) → ∀ p,
      w.server.promises.lookup id = some p → p.isTimer → p.state ≠ .pending →
        p.Expired ∧ ∃ d ∈ ls, ∃ op, d.op = some op ∧ p.timeoutAt ≤ op.now))
    ⟨Inv.init id, fun _ p hp => by cases hp⟩ fun ls w₁ d w₂ _ hI hs => ?_
  · exact hI.2 hno p hp ht hst
  · obtain ⟨hinv, hold⟩ := hI
    refine ⟨hinv.step hs, fun hno p hp ht hst => ?_⟩
    have hpre : ∀ d ∈ ls, ¬ d.Explicit id := fun d hd => hno d (List.mem_append_left _ hd)
    have hkept : ∀ p₁, w₁.server.promises.lookup id = some p₁ → p₁.state ≠ .pending →
        p.Expired ∧ ∃ d' ∈ ls ++ [d], ∃ op, d'.op = some op ∧ p.timeoutAt ≤ op.now := by
      intro p₁ hp₁ hst₁
      obtain ⟨q, hq, hk⟩ := hinv.kept hs hp₁
      obtain rfl := Option.some.inj (hq.symm.trans hp)
      have ht₁ : p₁.isTimer := by
        rw [DurablePromise.isTimer, ← hk.tags]
        exact ht
      obtain ⟨hx, d', hd', op, ho, hle⟩ := hold hpre p₁ hp₁ ht₁ hst₁
      exact ⟨hx.of_kept hk, d', List.mem_append_left _ hd', op, ho, by rwa [hk.timeoutAt]⟩
    rcases hs.server with ⟨op, ho, heq⟩ | ⟨-, heq⟩
    · obtain ⟨hop, hask⟩ := hinv.asks hs ho
      have htimer : w₂.server.TimerOnly id := timerOnly_of_lookup hp ht
      rw [heq] at hp htimer
      have hask' : ¬ op.AsksFor id := fun h' =>
        hno d (by simp) (hask (htimer.of_deliver hinv.coherent hop) h')
      rcases late_of_settled hinv.coherent hop hask' hp hst with hset | ⟨hx, hle⟩
      · obtain ⟨p₁, hp₁, hst₁⟩ := ServerState.isSettled_iff.mp hset
        exact hkept p₁ hp₁ hst₁
      · exact ⟨hx, d, by simp, op, ho, hle⟩
    · rw [heq] at hp
      exact hkept p hp hst

theorem settled_of_tick (hinv : Inv id w) (hp : w.server.promises.lookup id = some p)
    (htarget : p.targeted = true) (h : Trace Step w ls w') {now : Int}
    (htick : .served (.tick now) ∈ ls) (hle : p.timeoutAt ≤ now) :
    w'.server.isSettled id = true := by
  obtain ⟨pre, post, rfl⟩ := List.append_of_mem htick
  obtain ⟨w₁, hpre, hrest⟩ := h.append_inv
  obtain ⟨w₂, hs, hpost⟩ := hrest.cons_inv
  have hinv₁ : Inv id w₁ := hinv.trace hpre
  obtain ⟨p₁, hp₁, hk₁⟩ := hinv.trace_kept hpre hp
  have hset : w₂.server.isSettled id = true := by
    cases hs with
    | serve op hop =>
      refine tick_settles hinv₁.coherent.cleared hp₁ ?_ ?_
      · rw [DurablePromise.targeted, hk₁.tags]
        exact htarget
      · rw [hk₁.timeoutAt]
        exact hle
  obtain ⟨p₂, hp₂, hst₂⟩ := ServerState.isSettled_iff.mp hset
  obtain ⟨q, hq, hk⟩ := (hinv₁.step hs).trace_kept hpost hp₂
  exact ServerState.isSettled_iff.mpr ⟨q, hq, by rwa [(hk.outcome hst₂).1]⟩

/-- What becomes of a promise `p` of a sleep: it is `q` in the state `w`, after the steps
`ls'` that follow the steps `ls`. -/
structure Sleep (id : String) (p q : DurablePromise) (ls ls' : List Did) (w : Cluster) : Prop where
  found : w.server.promises.lookup id = some q
  kept : p.Kept q
  before : (∀ d ∈ ls ++ ls', ∀ op, d.op = some op → op.now < p.timeoutAt) → q.state = .pending
  after : ∀ now, .served (.tick now) ∈ ls' → p.timeoutAt ≤ now → q.state ≠ .pending
  outcome : q.state ≠ .pending → q.state = .resolved ∧ q.value = .null ∧ w.server.taskIs id .fulfilled
  wakes : q.state = .pending → ∀ d w', Step w d w' → w'.server.isSettled id = true →
    ∀ b, w.server.SuspendedOn b id → w'.server.isSettled b = false → w'.server.taskIs b .pending
  waits : q.state = .pending → ∀ d w', Step w d w' → ∀ b, w.server.SuspendedOn b id →
    w'.server.SuspendedOn b id ∨ ∀ v, ¬ w'.server.SuspendedAt b v
  suspends : ∀ d w', Step w d w' → ∀ b, (∀ v, ¬ w.server.SuspendedAt b v) →
    ∀ v, w'.server.SuspendedAt b v → ∃ now req, d.op = some (.apply now req) ∧ Suspends req b ∧
      (id ∈ callbacksOf req → w'.server.SuspendedOn b id)

theorem Inv.wakes (hinv : Inv id w) (h : Step w d w') (hpend : w.server.isPending id = true)
    (hset : w'.server.isSettled id = true) {b : String} (hb : w.server.SuspendedOn b id)
    (hown : w'.server.isSettled b = false) : w'.server.taskIs b .pending := by
  rcases h.server with ⟨op, ho, hs⟩ | ⟨-, hs⟩
  · rw [hs] at hset hown ⊢
    exact deliver_wakes hinv.coherent (hinv.asks h ho).1 hb hpend hset hown
  · rw [hs] at hset
    rw [ServerState.not_isPending_of_isSettled hset] at hpend
    cases hpend

theorem Inv.waits (hinv : Inv id w) (h : Step w d w') (hpend : w.server.isPending id = true)
    {b : String} (hb : w.server.SuspendedOn b id) :
    w'.server.SuspendedOn b id ∨ ∀ v, ¬ w'.server.SuspendedAt b v := by
  rcases h.server with ⟨op, ho, hs⟩ | ⟨-, hs⟩
  · rw [hs]
    exact deliver_suspendedOn hinv.coherent (hinv.asks h ho).1 hb hpend
  · rw [hs]
    exact Or.inl hb

theorem Inv.suspends (hinv : Inv id w) (h : Step w d w') {a b : String}
    (ha : (w.server.promises.lookup a).isSome = true) (hno : ∀ v, ¬ w.server.SuspendedAt b v)
    {v : Int} (hb : w'.server.SuspendedAt b v) : ∃ now req, d.op = some (.apply now req) ∧
      Suspends req b ∧ (a ∈ callbacksOf req → w'.server.SuspendedOn b a) := by
  rcases h.server with ⟨op, ho, hs⟩ | ⟨-, hs⟩
  · rw [hs] at hb ⊢
    obtain ⟨now, req, rfl, hsus, hon⟩ := suspendedOn_of_deliver (hinv.asks h ho).1 hno hb
    exact ⟨now, req, ho, hsus, fun hmem => hon a hmem ha⟩
  · rw [hs] at hb
    exact absurd hb (hno v)

/-- The durable operation of a sleep creates a timer with a target. A promise of that kind
that no step settles explicitly is pending before its deadline; after a tick from then on it
is resolved with value null, and its task is fulfilled, whatever the workers did with that
task. The step that settles it wakes the tasks suspended on it, and no step changes it
afterwards. -/
theorem sleep_ends_at_deadline :
    (∀ (c : Context) (sdk : Sdk) (id : String) (duration : ℕ) (now : Int) (e : Effects) (action : Json),
      e.createPromise (c.sleepCreateReq sdk id duration now) = .fence action → ∀ subNow now' t,
        (pendingPromise id (fenceAction (e.flatFence subNow now' action)).2 t).Sleeps) ∧
    ∀ (ls : List Did) (w : Cluster) (id : String) (p : DurablePromise),
      Trace Step .init ls w → w.server.promises.lookup id = some p → p.Sleeps →
      ∀ (ls' : List Did) (w' : Cluster), Trace Step w ls' w' → (∀ d ∈ ls ++ ls', ¬ d.Explicit id) →
        ∃ q, Sleep id p q ls ls' w' := by
  refine ⟨fun c sdk id duration now e action h subNow now' t =>
    sleepCreateReq_sleeps h subNow now' t, fun ls w id p h hp hsleep ls' w' h' hno => ?_⟩
  have hinv : Inv id w := (Inv.init id).trace h
  have hinv' : Inv id w' := hinv.trace h'
  obtain ⟨q, hq, hk⟩ := hinv.trace_kept h' hp
  have ht : q.isTimer := by
    rw [DurablePromise.isTimer, hk.tags]
    exact hsleep.1
  have htarget : q.targeted = true := by
    rw [DurablePromise.targeted, hk.tags]
    exact hsleep.2
  have hexp := fun hst => expired_of_settled (h.trans h') hno hq ht hst
  have hpend : q.state = .pending → w'.server.isPending id = true := fun hst =>
    ServerState.isPending_iff.mpr ⟨q, hq, hst⟩
  refine ⟨q, hq, hk, fun hearly => ?_, fun now htick hle hst => ?_, fun hst => ?_,
    fun hst d w'' hs hset b hb hown => hinv'.wakes hs (hpend hst) hset hb hown,
    fun hst d w'' hs b hb => hinv'.waits hs (hpend hst) hb,
    fun d w'' hs b hb v hv => hinv'.suspends hs (by rw [hq]; rfl) hb hv⟩
  · by_contra hst
    obtain ⟨-, d, hd, op, ho, hle⟩ := hexp hst
    have hlt := hearly d hd op ho
    rw [hk.timeoutAt] at hle
    omega
  · have hset := settled_of_tick hinv hp hsleep.2 h' htick hle
    have hno := ServerState.not_isPending_of_isSettled hset
    rw [hpend hst] at hno
    cases hno
  · obtain ⟨hx, -⟩ := hexp hst
    refine ⟨?_, hx.value, hinv'.coherent.own_fulfilled hq htarget hst⟩
    rw [hx.state, ServerState.timeoutState]
    exact if_pos ht

def sleepOp : Op := .apply 0 (request "promise.create" ⟨"c", none⟩
  (PromiseCreateReq.toJson ((Context.root "w" "w" "f" 1000).sleepCreateReq bareCore.sdk "w.0" 100 0)))

def sleepServer : ServerState := ServerState.init.deliver sleepOp

def sleepFlight : Flight := ⟨[], .acquire "w.0" 0 "p" 60000, 1,
  (sleepServer.send 1 (acquireRequest ⟨"sr-1", none⟩ "w.0" 0 "p" 60000)).2⟩

def sleepResult : Except Error TaskAcquireResult :=
  acquireResult ⟨"sr-1", none⟩ sleepFlight.answer

def sleepWorker : Handling := .start bareCore ⟨none⟩ (bareCore.onMessage "w.0" 0 1)

def sleepRun : List Did :=
  [.began, .worked (.sent sleepFlight (.apply 1 (unwrapRequestEnvelope
      (acquireRequest ⟨"sr-1", none⟩ "w.0" 0 "p" 60000)))),
    .worked (.answered [] ⟨.acquire "w.0" 0 "p" 60000, sleepResult⟩), .served (.tick 100)]

theorem sleepRun_trace : ∃ w, Trace Step ⟨sleepServer, []⟩ sleepRun w := by
  have hbegin := Step.begin ⟨sleepServer, []⟩ bareCore ⟨none⟩ "w.0" 0 1
  have hsend := Handling.Step.send sleepServer sleepWorker [] (.acquire "w.0" 0 "p" 60000)
    (fun _ => 1) 1 1 (acquireRequest ⟨"sr-1", none⟩ "w.0" 0 "p" 60000) (.here _ _ _)
    (fun f hf => by cases hf) rfl
  obtain ⟨k, hk⟩ : ∃ k, sleepWorker.node = .mk (.call (Cmd.acquire "w.0" 0 "p" 60000) k) [] := ⟨_, rfl⟩
  have hcall : StepAt sleepFlight.path sleepWorker.node
      (.own ⟨sleepFlight.cmd, sleepResult⟩) (.mk (k sleepResult) []) := by
    rw [hk]
    exact .call _ k [] _
  have hreceive := Handling.Step.receive
    (sleepServer.deliver (.apply 1 (unwrapRequestEnvelope
      (acquireRequest ⟨"sr-1", none⟩ "w.0" 0 "p" 60000))))
    { sleepWorker with flights := [sleepFlight] } sleepFlight _ none _ _
    (List.mem_singleton_self _) hcall rfl rfl
  have hacquire := Step.work ⟨sleepServer, [sleepWorker]⟩ 0 _ _ _ _ rfl hsend
  have hdrop := Step.work ⟨_, [{ sleepWorker with flights := [sleepFlight] }]⟩ 0 _ _ _ _ rfl hreceive
  exact ⟨_, (((Trace.nil.snoc hbegin).snoc hacquire).snoc hdrop).snoc
    (Step.serve _ (.tick 100) trivial)⟩

/-- The worker drops the task, and the tick at the deadline ends the sleep. -/
theorem sleep_ends_at_deadline_dropped : ∃ w q, Trace Step .init (.served sleepOp :: sleepRun) w ∧
    w.server.promises.lookup "w.0" = some q ∧ q.state = .resolved ∧ q.value = .null ∧
      w.server.taskIs "w.0" .fulfilled := by
  have hcreate : Trace Step .init ([] ++ [.served sleepOp]) ⟨sleepServer, []⟩ :=
    Trace.nil.snoc (.serve .init sleepOp (typed_of_not_settle rfl (by decide)))
  obtain ⟨w, hrun⟩ := sleepRun_trace
  obtain ⟨p, hp, hsleep, hdead⟩ : ∃ p, sleepServer.promises.lookup "w.0" = some p ∧ p.Sleeps ∧
      p.timeoutAt ≤ 100 := ⟨_, rfl, ⟨rfl, by decide⟩, by decide⟩
  have hno : ∀ d ∈ ([] ++ [.served sleepOp]) ++ sleepRun, ¬ d.Explicit "w.0" := by
    intro d hd
    simp only [sleepRun, List.nil_append, List.singleton_append, List.mem_cons, List.not_mem_nil,
      or_false] at hd
    rcases hd with rfl | rfl | rfl | rfl | rfl
    · rintro ⟨r, hr, -⟩
      cases hr
    · exact id
    · rintro ⟨position, result, heq⟩
      cases heq
    · exact id
    · exact id
  obtain ⟨q, hq⟩ := sleep_ends_at_deadline.2 _ _ "w.0" p hcreate hp hsleep _ _ hrun hno
  obtain ⟨hres, hval, htask⟩ := hq.outcome (hq.after 100 (by simp [sleepRun]) hdead)
  exact ⟨w, q, hcreate.trans hrun, hq.found, hres, hval, htask⟩

end Cluster

end Resonate
