import Resonate.Network.State
import Resonate.Types
import Resonate.Lib.Trace
import Mathlib.Algebra.Order.Group.Multiset
import Mathlib.Tactic.Abel

/-!
# The Postgres network

The pump and the listener of the `resonate-postgres` crate against an outbox that is shared
with other nodes. The pump drains three queues at once, batch by batch, and sleeps until it is
notified or its tick fires; a failed query ends the pass and drops the rows it has in hand.
Rows are enqueued, by the timers too, connections die and the node is stopped at any moment.
The stored procedures are a parameter: a dequeue removes what it answers, and answers fewer
rows than its limit only when it leaves none. A query in flight when its pass fails has taken
effect by then, or never does.
-/

namespace Resonate

inductive Message where
  | execute (taskId : String) (version : Int)
  | unblock (promise : Json)

def Message.ofJson (raw : Json) : Option Message :=
  let raw := raw.asFields ["kind", "data"]
  match (raw.get "kind").bind Json.asStr with
  | some "execute" => do
    let data ← raw.get "data"
    let task ← (data.asFields ["task"]).get "task"
    let task := task.asFields ["id", "version"]
    let id ← (task.get "id").bind Json.asStr
    let version ← fieldOr task "version" 0 Json.asI64
    some (.execute id version)
  | some "unblock" => do
    let data ← raw.get "data"
    let promise ← (data.asFields ["promise"]).get "promise"
    some (.unblock promise)
  | _ => none

end Resonate

namespace Resonate.Postgres
open Lib

def DEQUEUE_LIMIT : ℕ := 100

def MAX_BACKOFF_SECS : ℕ := 60

inductive Row where
  | execute (taskId : Except Error String) (version : Except Error Int32)
  | unblock (promise : Except Error Json)

def Row.message : Row → Except Error Json
  | .execute taskId version => do
    let taskId ← taskId
    let version ← version
    pure (.obj [("kind", .str "execute"), ("head", .obj []),
      ("data", .obj [("task", .obj [("id", .str taskId), ("version", .num version.toInt)])])])
  | .unblock promise => do
    let promise ← promise
    pure (.obj [("kind", .str "unblock"), ("head", .obj []), ("data", .obj [("promise", promise)])])

def Row.content : Row → Except Error Message
  | .execute taskId version => do
    let taskId ← taskId
    let version ← version
    pure (.execute taskId version.toInt)
  | .unblock promise => do
    let promise ← promise
    pure (.unblock promise)

/-- The dequeue procedures: with a limit and a queue, the rows answered and the rows left. -/
structure Outbox where
  dequeue : ℕ → Multiset Row → List Row → Multiset Row → Prop
  removes : ∀ {limit queue rows rest}, dequeue limit queue rows rest → queue = ↑rows + rest
  exhausts : ∀ {limit queue rows rest}, dequeue limit queue rows rest → rows.length < limit → rest = 0

inductive Queue where
  | anycast
  | unicast
  | unblocks
deriving DecidableEq

/-- A drain of one queue: its query is under way, or the batch it answered is delivered. -/
inductive Drain where
  | asking
  | answered (n : ℕ) (rows : List Row)
  | finished

inductive Pump where
  | awake
  | draining (drains : Queue → Drain)
  | asleep (result : Except Error Unit)
  | ended

inductive Listen where
  | down
  | setup (addresses : ℕ)
  | established

/-- The unicast address is listened on first. -/
def Listen.hears : Listen → Queue → Bool
  | .down, _ => false
  | .setup addresses, .anycast => 2 ≤ addresses
  | .setup addresses, _ => 1 ≤ addresses
  | .established, _ => true

structure Node where
  outbox : Queue → Multiset Row
  pump : Pump
  listen : Listen
  backoff : ℕ
  notices : ℕ
  permit : Bool
  stopped : Bool
  subscribers : List (List Json)

def Node.start : Node where
  outbox := fun _ => 0
  pump := .awake
  listen := .down
  backoff := 1
  notices := 0
  permit := false
  stopped := false
  subscribers := []

def Drain.inHand : Drain → Multiset Row
  | .answered _ rows => rows
  | _ => 0

def Pump.inHand : Pump → Queue → Multiset Row
  | .draining drains, q => (drains q).inHand
  | _, _ => 0

def Drain.Waits : Drain → Prop
  | .asking => True
  | .answered n rows => n = rows.length
  | .finished => False

inductive Did where
  | enqueued (q : Queue) (row : Row)
  | taken (q : Queue) (rows : Multiset Row)
  | began
  | dequeued (q : Queue) (rows : List Row)
  | delivered (q : Queue) (row : Row) (message : Json)
  | discarded (q : Queue) (row : Row)
  | failed (lost : Queue → Multiset Row)
  | passed
  | stopped
  | aborted (lost : Queue → Multiset Row)
  | subscribed
  | waited (secs : ℕ)
  | quiet

namespace Node

def enqueue (s : Node) (q : Queue) (row : Row) : Node :=
  { s with outbox := Function.update s.outbox q (row ::ₘ s.outbox q)
           notices := if s.listen.hears q then s.notices + 1 else s.notices }

def setDrain (s : Node) (drains : Queue → Drain) (q : Queue) (d : Drain) : Node :=
  { s with pump := .draining (Function.update drains q d) }

def deliver (s : Node) (message : Json) : Node :=
  { s with subscribers := s.subscribers.map (· ++ [message]) }

end Node

inductive Step (o : Outbox) : Node → Did → Node → Prop
  | enqueue (s : Node) (q : Queue) (row : Row) : Step o s (.enqueued q row) (s.enqueue q row)
  | take (s : Node) (rows rest : Multiset Row) (h : s.outbox .anycast = rows + rest) :
      Step o s (.taken .anycast rows) { s with outbox := Function.update s.outbox .anycast rest }
  -- the pump
  | begin (s : Node) (h : s.pump = .awake) (hs : s.stopped = false) :
      Step o s .began { s with pump := .draining fun _ => .asking }
  | unready (s : Node) (err : Error) (h : s.pump = .awake) (hs : s.stopped = false) :
      Step o s (.failed fun _ => 0) { s with pump := .asleep (.error err) }
  | dequeue (s : Node) (drains : Queue → Drain) (q : Queue) (rows : List Row) (rest : Multiset Row)
      (h : s.pump = .draining drains) (hq : drains q = .asking)
      (hrows : o.dequeue DEQUEUE_LIMIT (s.outbox q) rows rest) :
      Step o s (.dequeued q rows)
        ({ s with outbox := Function.update s.outbox q rest }.setDrain drains q
          (.answered rows.length rows))
  | deliver (s : Node) (drains : Queue → Drain) (q : Queue) (n : ℕ) (row : Row) (rest : List Row)
      (message : Json) (h : s.pump = .draining drains) (hq : drains q = .answered n (row :: rest))
      (hm : row.message = .ok message) (hs : s.stopped = false) :
      Step o s (.delivered q row message) ((s.deliver message).setDrain drains q (.answered n rest))
  | discard (s : Node) (drains : Queue → Drain) (q : Queue) (n : ℕ) (row : Row) (rest : List Row)
      (message : Json) (h : s.pump = .draining drains) (hq : drains q = .answered n (row :: rest))
      (hm : row.message = .ok message) (hs : s.stopped = true) :
      Step o s (.discarded q row) (s.setDrain drains q (.answered n rest))
  | unreadable (s : Node) (drains : Queue → Drain) (q : Queue) (n : ℕ) (row : Row)
      (rest : List Row) (err : Error) (h : s.pump = .draining drains)
      (hq : drains q = .answered n (row :: rest)) (hm : row.message = .error err) :
      Step o s (.failed s.pump.inHand) { s with pump := .asleep (.error err) }
  | broken (s : Node) (drains : Queue → Drain) (q : Queue) (err : Error)
      (h : s.pump = .draining drains) (hq : (drains q).Waits) :
      Step o s (.failed s.pump.inHand) { s with pump := .asleep (.error err) }
  | next (s : Node) (drains : Queue → Drain) (q : Queue) (n : ℕ) (h : s.pump = .draining drains)
      (hq : drains q = .answered n []) :
      Step o s .quiet (s.setDrain drains q (if n < DEQUEUE_LIMIT then .finished else .asking))
  | pass (s : Node) (drains : Queue → Drain) (h : s.pump = .draining drains)
      (hq : ∀ q, drains q = .finished) : Step o s .passed { s with pump := .asleep (.ok ()) }
  | notified (s : Node) (result : Except Error Unit) (h : s.pump = .asleep result)
      (hp : s.permit = true) : Step o s .quiet { s with pump := .awake, permit := false }
  | ticked (s : Node) (result : Except Error Unit) (h : s.pump = .asleep result) :
      Step o s .quiet { s with pump := .awake }
  | leave (s : Node) (h : s.pump = .awake) (hs : s.stopped = true) :
      Step o s .quiet { s with pump := .ended }
  -- the listener
  | connect (s : Node) (h : s.listen = .down) (hs : s.stopped = false) :
      Step o s .quiet { s with listen := .setup 0 }
  | listen (s : Node) (n : ℕ) (h : s.listen = .setup n) (hn : n < 2) :
      Step o s .quiet { s with listen := .setup (n + 1) }
  | establish (s : Node) (h : s.listen = .setup 2) :
      Step o s .quiet { s with listen := .established, permit := true }
  | hear (s : Node) (n : ℕ) (h : s.notices = n + 1) :
      Step o s .quiet { s with notices := n, permit := true }
  | unconnected (s : Node) (h : s.listen ≠ .established) :
      Step o s (.waited s.backoff) { s with listen := .down, notices := 0,
                                            backoff := min (s.backoff * 2) MAX_BACKOFF_SECS }
  | closed (s : Node) (h : s.listen = .established) :
      Step o s (.waited 1) { s with listen := .down, notices := 0,
                                    backoff := min (1 * 2) MAX_BACKOFF_SECS }
  -- the handle of the network
  | recv (s : Node) : Step o s .subscribed { s with subscribers := s.subscribers ++ [[]] }
  | stop (s : Node) : Step o s .stopped { s with stopped := true }
  | abort (s : Node) (hs : s.stopped = true) :
      Step o s (.aborted s.pump.inHand) { s with pump := .ended }
  | clear (s : Node) (hs : s.stopped = true) : Step o s .quiet { s with subscribers := [] }

namespace Did

@[simp] def enqueuedIn (q : Queue) : Did → Multiset Row
  | .enqueued q' row => if q' = q then {row} else 0
  | _ => 0

@[simp] def takenIn (q : Queue) : Did → Multiset Row
  | .taken q' rows => if q' = q then rows else 0
  | _ => 0

@[simp] def deliveredIn (q : Queue) : Did → Multiset Row
  | .delivered q' row _ => if q' = q then {row} else 0
  | _ => 0

/-- The rows dropped by a pass that failed, and by a node that was stopped. -/
@[simp] def lostIn (q : Queue) : Did → Multiset Row
  | .failed lost | .aborted lost => lost q
  | .discarded q' row => if q' = q then {row} else 0
  | _ => 0

def settledIn (q : Queue) (l : Did) : Multiset Row := l.takenIn q + l.deliveredIn q + l.lostIn q

def message : Did → Option Json
  | .delivered _ _ message => some message
  | _ => none

def isSubscribed : Did → Bool
  | .subscribed => true
  | _ => false

end Did

variable {o : Outbox} {s s' s'' : Node} {l : Did} {ls ls' : List Did} {q : Queue}

/-- The rows of a queue that are not settled yet: in the outbox, or in hand. -/
def Node.open (s : Node) (q : Queue) : Multiset Row := s.outbox q + s.pump.inHand q

@[simp] theorem inHand_draining {drains : Queue → Drain} :
    (Pump.draining drains).inHand q = (drains q).inHand := rfl

@[simp] theorem inHand_awake : Pump.awake.inHand q = 0 := rfl

@[simp] theorem inHand_asleep {result : Except Error Unit} : (Pump.asleep result).inHand q = 0 := rfl

@[simp] theorem inHand_ended : Pump.ended.inHand q = 0 := rfl

theorem inHand_update {drains : Queue → Drain} {q' : Queue} {d : Drain} :
    (Pump.draining (Function.update drains q' d)).inHand q =
      if q = q' then d.inHand else (drains q).inHand := by
  rw [inHand_draining, Function.update_apply]
  split_ifs <;> rfl

theorem open_setDrain {drains : Queue → Drain} {q' : Queue} {d : Drain} :
    (s.setDrain drains q' d).open q =
      s.outbox q + if q = q' then d.inHand else (drains q).inHand := by
  rw [Node.open, Node.setDrain, inHand_update]

theorem open_draining {drains : Queue → Drain} (h : s.pump = .draining drains) :
    s.open q = s.outbox q + (drains q).inHand := by
  rw [Node.open, h]
  rfl

theorem inHand_answered {n : ℕ} {row : Row} {rest : List Row} :
    (Drain.answered n (row :: rest)).inHand = {row} + (Drain.answered n rest).inHand :=
  (Multiset.singleton_add row rest).symm

/-- Every row that a step brings or finds is settled by it or still open. -/
theorem Step.balance (h : Step o s l s') (q : Queue) :
    s.open q + l.enqueuedIn q = l.settledIn q + s'.open q := by
  unfold Did.settledIn
  cases h with
  | enqueue q' row =>
    by_cases hq : q = q'
    · subst hq
      simp only [Node.open, Node.enqueue, Did.enqueuedIn, Did.takenIn, Did.deliveredIn, Did.lostIn,
        if_true, Function.update_self, ← Multiset.singleton_add]
      abel
    · simp [Node.open, Node.enqueue, hq, Ne.symm hq]
  | take rows rest h =>
    by_cases hq : q = .anycast
    · subst hq
      simp only [Node.open, h, Did.enqueuedIn, Did.takenIn, Did.deliveredIn, Did.lostIn, if_true,
        Function.update_self]
      abel
    · simp [Node.open, hq, Ne.symm hq]
  | begin h hs => simp [Node.open, h, Drain.inHand]
  | unready err h hs => simp [Node.open, h]
  | dequeue drains q' rows rest h hq' hrows =>
    rw [open_setDrain, open_draining h]
    by_cases hq : q = q'
    · subst hq
      simp [o.removes hrows, hq', Drain.inHand, add_comm]
    · simp [hq]
  | deliver drains q' n row rest message h hq' hm hs =>
    rw [open_setDrain, open_draining h]
    by_cases hq : q = q'
    · subst hq
      simp only [hq', inHand_answered, Node.deliver, Did.enqueuedIn, Did.takenIn, Did.deliveredIn,
        Did.lostIn, if_true]
      abel
    · simp [Node.deliver, hq, Ne.symm hq]
  | discard drains q' n row rest message h hq' hm hs =>
    rw [open_setDrain, open_draining h]
    by_cases hq : q = q'
    · subst hq
      simp only [hq', inHand_answered, Did.enqueuedIn, Did.takenIn, Did.deliveredIn, Did.lostIn,
        if_true]
      abel
    · simp [hq, Ne.symm hq]
  | unreadable drains q' n row rest err h hq' hm => simp [Node.open, add_comm]
  | broken drains q' err h hq' => simp [Node.open, add_comm]
  | next drains q' n h hq' =>
    rw [open_setDrain, open_draining h]
    by_cases hq : q = q'
    · subst hq
      split_ifs <;> simp [hq', Drain.inHand]
    · simp [hq]
  | pass drains h hq => simp [Node.open, h, hq, Drain.inHand]
  | notified result h hp => simp [Node.open, h]
  | ticked result h => simp [Node.open, h]
  | leave h hs => simp [Node.open, h]
  | abort hs => simp [Node.open, add_comm]
  | _ => simp [Node.open]

theorem asI64_int32 (v : Int32) : (Json.num v.toInt).asI64 = some v.toInt := by
  have hlow := v.le_toInt
  have hhigh := v.toInt_lt
  exact if_pos ⟨by unfold Json.i64Min; omega, by unfold Json.i64Max; omega⟩

theorem Row.message_parses {row : Row} {message : Json} (h : row.message = .ok message) :
    ∃ content, row.content = .ok content ∧ Message.ofJson message = some content := by
  cases row with
  | execute taskId version =>
    cases taskId with
    | error e => cases h
    | ok taskId =>
      cases version with
      | error e => cases h
      | ok version =>
        cases h
        refine ⟨_, rfl, ?_⟩
        simp [Message.ofJson, List.lookup_cons, Json.asStr, fieldOr, asI64_int32]
  | unblock promise =>
    cases promise with
    | error e => cases h
    | ok promise =>
      cases h
      exact ⟨_, rfl, rfl⟩

theorem Step.message (h : Step o s l s') {row : Row} {message : Json}
    (hl : l = .delivered q row message) : row.message = .ok message := by
  cases h with
  | deliver drains q n row rest message h hq hm hs =>
    cases hl
    exact hm
  | _ => cases hl

theorem delivered_message (h : Trace (Step o) .start ls s) {row : Row} {message : Json}
    (hmem : .delivered q row message ∈ ls) : row.message = .ok message := by
  induction h with
  | nil => cases hmem
  | snoc h hs ih =>
    rcases List.mem_append.mp hmem with hmem | hmem
    · exact ih hmem
    · exact hs.message (List.mem_singleton.mp hmem).symm

theorem Step.stopped (h : Step o s l s') (hl : l ≠ .stopped) (hs : s.stopped = false) :
    s'.stopped = false := by
  cases h with
  | stop => exact absurd rfl hl
  | _ => exact hs

/-- Rows are lost by a failed pass, or by a node that was stopped. -/
theorem Step.lost (h : Step o s l s') (hl : ∀ lost, l ≠ .failed lost) (hs : s.stopped = false) :
    l.lostIn q = 0 := by
  cases h with
  | unready | unreadable | broken => exact absurd rfl (hl _)
  | discard drains q' n row rest message h hq' hm hs' => exact absurd (hs.symm.trans hs') (by decide)
  | abort hs' => exact absurd (hs.symm.trans hs') (by decide)
  | _ => rfl

theorem lost_none (h : Trace (Step o) .start ls s) (hstop : .stopped ∉ ls)
    (hfail : ∀ lost, .failed lost ∉ ls) : s.stopped = false ∧ (ls.map (Did.lostIn q)).sum = 0 := by
  induction h with
  | nil => exact ⟨rfl, rfl⟩
  | snoc h hs ih =>
    obtain ⟨hstopped, hsum⟩ := ih (fun hmem => hstop (List.mem_append_left _ hmem))
      fun lost hmem => hfail lost (List.mem_append_left _ hmem)
    refine ⟨hs.stopped (fun hl => hstop (by simp [hl])) hstopped, ?_⟩
    rw [List.map_append, List.sum_append, hsum, List.map_singleton, List.sum_singleton, zero_add]
    exact hs.lost (fun lost hl => hfail lost (by simp [hl])) hstopped

theorem Step.subscribers (h : Step o s l s') {log : List Json} (hlog : log ∈ s'.subscribers) :
    l = .subscribed ∧ log = [] ∨ ∃ log' ∈ s.subscribers, log = log' ++ l.message.toList := by
  cases h with
  | recv =>
    rcases List.mem_append.mp hlog with hlog | hlog
    · exact Or.inr ⟨log, hlog, by simp [Did.message]⟩
    · exact Or.inl ⟨rfl, List.mem_singleton.mp hlog⟩
  | deliver drains q n row rest message h hq hm hs =>
    obtain ⟨log', hlog', rfl⟩ := List.mem_map.mp hlog
    exact Or.inr ⟨log', hlog', rfl⟩
  | clear hs => cases hlog
  | _ => exact Or.inr ⟨log, hlog, by simp [Did.message]⟩

theorem subscribers_told (h : Trace (Step o) .start ls s) {log : List Json}
    (hlog : log ∈ s.subscribers) :
    ∃ pre post, ls = pre ++ .subscribed :: post ∧ log = post.filterMap Did.message := by
  induction h generalizing log with
  | nil => cases hlog
  | @snoc ls l _ _ h hs ih =>
    rcases hs.subscribers hlog with ⟨rfl, rfl⟩ | ⟨log', hlog', rfl⟩
    · exact ⟨ls, [], rfl, rfl⟩
    · obtain ⟨pre, post, rfl, rfl⟩ := ih hlog'
      refine ⟨pre, post ++ [l], by simp, ?_⟩
      rw [List.filterMap_append]
      cases hm : l.message <;> simp [hm]

theorem Step.registers (h : Step o s l s') (hs : s.stopped = false) :
    l = .subscribed ∧ s'.subscribers = s.subscribers ++ [[]] ∨
      l.isSubscribed = false ∧ s'.subscribers = s.subscribers.map (· ++ l.message.toList) := by
  cases h with
  | recv => exact Or.inl ⟨rfl, rfl⟩
  | deliver => exact Or.inr ⟨rfl, rfl⟩
  | clear hs' => exact absurd (hs.symm.trans hs') (by decide)
  | _ => exact Or.inr ⟨rfl, by simp [Did.message, Node.enqueue, Node.setDrain]⟩

theorem registered (h : Trace (Step o) .start ls s) (hstop : .stopped ∉ ls) :
    s.stopped = false ∧ s.subscribers.length = ls.countP Did.isSubscribed ∧
      ∀ pre post, ls = pre ++ .subscribed :: post →
        s.subscribers[pre.countP Did.isSubscribed]? = some (post.filterMap Did.message) := by
  induction h with
  | nil => exact ⟨rfl, rfl, fun pre post hls => by simp at hls⟩
  | @snoc ls l s s' h hs ih =>
    obtain ⟨hstopped, hlength, hlogs⟩ := ih fun hmem => hstop (List.mem_append_left _ hmem)
    refine ⟨hs.stopped (fun hl => hstop (by simp [hl])) hstopped, ?_⟩
    have hcut : ∀ pre post, ls ++ [l] = pre ++ .subscribed :: post →
        post = [] ∧ l = .subscribed ∧ ls = pre ∨
          ∃ post', post = post' ++ [l] ∧ ls = pre ++ .subscribed :: post' := by
      intro pre post heq
      rcases snoc_eq_append heq with hmid | ⟨mid, hmid, rfl⟩
      · cases hmid
      · cases mid with
        | nil =>
          obtain ⟨rfl, rfl⟩ := List.cons.inj hmid
          exact Or.inl ⟨rfl, rfl, by simp⟩
        | cons l' mid =>
          obtain ⟨rfl, rfl⟩ := List.cons.inj hmid
          exact Or.inr ⟨mid, rfl, rfl⟩
    rcases hs.registers hstopped with ⟨rfl, hsubs⟩ | ⟨hl, hsubs⟩
    · refine ⟨by simp [hsubs, hlength, Did.isSubscribed], fun pre post heq => ?_⟩
      rcases hcut pre post heq with ⟨rfl, -, rfl⟩ | ⟨post', rfl, rfl⟩
      · simp [hsubs, ← hlength]
      · rw [hsubs, List.getElem?_append_left]
        · rw [List.filterMap_append, hlogs pre post' rfl]
          simp [Did.message]
        · rw [hlength]
          simp [List.countP_cons, Did.isSubscribed]
    · refine ⟨by simp [hsubs, hlength, hl], fun pre post heq => ?_⟩
      rcases hcut pre post heq with ⟨-, rfl, -⟩ | ⟨post', rfl, rfl⟩
      · cases hl
      · rw [hsubs, List.getElem?_map, hlogs pre post' rfl, List.filterMap_append]
        cases hm : l.message <;> simp [hm]

def Drain.AsksAgain : Drain → Prop
  | .asking => True
  | .answered n _ => DEQUEUE_LIMIT ≤ n
  | .finished => False

/-- The pump will look at the queue without being woken, or gave it up to its tick. -/
def Pump.Attends (q : Queue) : Pump → Prop
  | .draining drains => (drains q).AsksAgain
  | .asleep (.ok _) => False
  | _ => True

/-- No wake-up is missing: while the listener is established, a queue with rows is about to be
looked at, or a wake-up is there or on its way. -/
def Node.Covered (s : Node) : Prop :=
  s.listen = .established → ∀ q, s.outbox q = 0 ∨ s.pump.Attends q ∨ s.permit = true ∨ 0 < s.notices

theorem attends_setDrain {drains : Queue → Drain} {q' : Queue} {d : Drain}
    (h : (Pump.draining drains).Attends q) (hd : (drains q').AsksAgain → d.AsksAgain) :
    (s.setDrain drains q' d).pump.Attends q := by
  change (Function.update drains q' d q).AsksAgain
  rw [Function.update_apply]
  split_ifs with hq
  · exact hd (hq ▸ h)
  · exact h

theorem Node.Covered.step (hc : s.Covered) (h : Step o s l s') : s'.Covered := by
  cases h with
  | enqueue q' row =>
    intro hl q
    have hnotice : 0 < (s.enqueue q' row).notices := by
      have hl : s.listen = .established := hl
      simp [Node.enqueue, hl, Listen.hears]
    exact Or.inr (Or.inr (Or.inr hnotice))
  | take rows rest h =>
    intro hl q
    refine (hc hl q).imp_left fun hnone => ?_
    change Function.update s.outbox .anycast rest q = 0
    rw [Function.update_apply]
    split_ifs with hq
    · rw [hq, h] at hnone
      exact Multiset.le_zero.mp (hnone ▸ Multiset.le_add_left rest rows)
    · exact hnone
  | begin h hs => exact fun hl q => Or.inr (Or.inl trivial)
  | dequeue drains q' rows rest h hq hrows =>
    intro hl q
    by_cases hqq : q = q'
    · subst hqq
      by_cases hn : rows.length < DEQUEUE_LIMIT
      · exact Or.inl (by simp [Node.setDrain, o.exhausts hrows hn])
      · refine Or.inr (Or.inl ?_)
        simpa [Node.setDrain, Pump.Attends, Drain.AsksAgain] using hn
    · refine (hc hl q).imp (fun hnone => ?_) (Or.imp_left fun ha => ?_)
      · simpa [Node.setDrain, hqq] using hnone
      · rw [h] at ha
        simpa [Node.setDrain, Pump.Attends, hqq] using ha
  | deliver drains q' n row rest message h hq hm hs =>
    refine fun hl q => (hc hl q).imp_right (Or.imp_left fun ha => ?_)
    rw [h] at ha
    exact attends_setDrain ha (fun hd => by rwa [hq] at hd)
  | discard drains q' n row rest message h hq hm hs =>
    refine fun hl q => (hc hl q).imp_right (Or.imp_left fun ha => ?_)
    rw [h] at ha
    exact attends_setDrain ha (fun hd => by rwa [hq] at hd)
  | next drains q' n h hq =>
    refine fun hl q => (hc hl q).imp_right (Or.imp_left fun ha => ?_)
    rw [h] at ha
    refine attends_setDrain ha fun hd => ?_
    rw [hq] at hd
    rw [if_neg (not_lt.mpr hd)]
    trivial
  | pass drains h hq =>
    refine fun hl q => (hc hl q).imp_right (Or.imp_left fun ha => ?_)
    rw [h, Pump.Attends, hq] at ha
    exact ha
  | unready | unreadable | broken | notified | ticked | leave | abort =>
    exact fun hl q => Or.inr (Or.inl trivial)
  | connect | listen | unconnected | closed => exact fun hl => by cases hl
  | establish | hear => exact fun hl q => Or.inr (Or.inr (Or.inl rfl))
  | recv | stop | clear => exact hc

theorem covered (h : Trace (Step o) .start ls s) : s.Covered :=
  h.invariant (I := fun _ s => s.Covered) (fun hl => by cases hl) fun _ _ _ _ _ hc hs => hc.step hs

theorem sum_settledIn (ls : List Did) (q : Queue) : (ls.map (Did.settledIn q)).sum =
    (ls.map (Did.takenIn q)).sum + (ls.map (Did.deliveredIn q)).sum + (ls.map (Did.lostIn q)).sum := by
  simp only [← List.sum_map_add]
  rfl

/-- In every run, each row that was enqueued is taken by another node, delivered once, lost, in
hand, or in the outbox, and rows are lost only if a pass fails or the node is stopped. Every
subscriber has got the messages of the rows delivered since it came, in their order, and until
the node is stopped the `k`-th subscriber is the `k`-th that came; each message parses to what
its row says. When the listener is established, no notice is on its way and the pump sleeps
after a pass that succeeded, the outbox is empty. -/
theorem outbox_delivered (h : Trace (Step o) .start ls s) :
    (∀ q, (ls.map (Did.enqueuedIn q)).sum = (ls.map (Did.takenIn q)).sum +
      (ls.map (Did.deliveredIn q)).sum + (ls.map (Did.lostIn q)).sum + (s.outbox q + s.pump.inHand q)) ∧
    (.stopped ∉ ls → (∀ lost, .failed lost ∉ ls) → ∀ q, (ls.map (Did.lostIn q)).sum = 0) ∧
    (∀ log ∈ s.subscribers, ∃ pre post, ls = pre ++ .subscribed :: post ∧
      log = post.filterMap Did.message) ∧
    (.stopped ∉ ls → s.subscribers.length = ls.countP Did.isSubscribed ∧
      ∀ pre post, ls = pre ++ .subscribed :: post →
        s.subscribers[pre.countP Did.isSubscribed]? = some (post.filterMap Did.message)) ∧
    (∀ q row message, .delivered q row message ∈ ls →
      ∃ content, row.content = .ok content ∧ Message.ofJson message = some content) ∧
    (s.listen = .established → s.notices = 0 → s.permit = false → s.pump = .asleep (.ok ()) →
      ∀ q, s.outbox q = 0) := by
  refine ⟨fun q => ?_, fun hstop hfail q => (lost_none h hstop hfail).2,
    fun log hlog => subscribers_told h hlog, fun hstop => (registered h hstop).2,
    fun q row message hmem => ?_, fun hl hn hp hpump q => ?_⟩
  · have hsum := h.conserved fun s l s' hs => hs.balance q
    rw [sum_settledIn] at hsum
    exact (zero_add _).symm.trans hsum
  · exact Row.message_parses (delivered_message h hmem)
  · rcases covered h hl q with hnone | ha | hp' | hn'
    · exact hnone
    · rw [hpump] at ha
      exact ha.elim
    · exact absurd (hp.symm.trans hp') (by decide)
    · exact absurd hn hn'.ne'

/-- A drain that asks no more leaves its queue empty, or has asked no more before. -/
theorem Step.drains (h : Step o s l s') (hl : l ≠ .began) {drains' : Queue → Drain}
    (hd : s'.pump = .draining drains') : ∃ drains, s.pump = .draining drains ∧
      ∀ q, ¬ (drains' q).AsksAgain → s'.outbox q = 0 ∨
        ¬ (drains q).AsksAgain ∧ (drains q).inHand ≤ l.settledIn q + (drains' q).inHand := by
  cases h with
  | begin => exact absurd rfl hl
  | dequeue drains q' rows rest h hq hrows =>
    obtain rfl := Pump.draining.inj hd
    refine ⟨drains, h, fun q hask => ?_⟩
    by_cases hqq : q = q'
    · subst hqq
      refine Or.inl ?_
      simp only [Function.update_self, Drain.AsksAgain, not_le] at hask
      simp [Node.setDrain, o.exhausts hrows hask]
    · rw [Function.update_of_ne hqq] at hask ⊢
      exact Or.inr ⟨hask, Multiset.le_add_left _ _⟩
  | deliver drains q' n row rest message h hq hm hs =>
    obtain rfl := Pump.draining.inj hd
    refine ⟨drains, h, fun q hask => Or.inr ?_⟩
    by_cases hqq : q = q'
    · subst hqq
      rw [Function.update_self] at hask ⊢
      rw [hq, inHand_answered]
      exact ⟨hask, le_of_eq (by simp [Did.settledIn])⟩
    · rw [Function.update_of_ne hqq] at hask ⊢
      exact ⟨hask, Multiset.le_add_left _ _⟩
  | discard drains q' n row rest message h hq hm hs =>
    obtain rfl := Pump.draining.inj hd
    refine ⟨drains, h, fun q hask => Or.inr ?_⟩
    by_cases hqq : q = q'
    · subst hqq
      rw [Function.update_self] at hask ⊢
      rw [hq, inHand_answered]
      exact ⟨hask, le_of_eq (by simp [Did.settledIn])⟩
    · rw [Function.update_of_ne hqq] at hask ⊢
      exact ⟨hask, Multiset.le_add_left _ _⟩
  | next drains q' n h hq =>
    obtain rfl := Pump.draining.inj hd
    refine ⟨drains, h, fun q hask => Or.inr ?_⟩
    by_cases hqq : q = q'
    · subst hqq
      rw [Function.update_self] at hask
      rw [hq]
      refine ⟨fun hn => hask ?_, Multiset.zero_le _⟩
      rw [if_neg (not_lt.mpr hn)]
      trivial
    · rw [Function.update_of_ne hqq] at hask ⊢
      exact ⟨hask, Multiset.le_add_left _ _⟩
  | enqueue | take | connect | listen | establish | hear | unconnected | closed | recv | stop | clear =>
    exact ⟨drains', hd, fun q hask => Or.inr ⟨hask, Multiset.le_add_left _ _⟩⟩
  | unready | unreadable | broken | pass | notified | ticked | leave | abort => cases hd

/-- The rows that were there when the pass began are settled, or in hand, wherever the pass asks
no more. -/
theorem drained (hy : s.pump = .draining fun _ => .asking) (h : Trace (Step o) s ls s')
    (hsame : .began ∉ ls) {drains : Queue → Drain} (hd : s'.pump = .draining drains) (q : Queue)
    (hask : ¬ (drains q).AsksAgain) :
    s.outbox q ≤ (ls.map (Did.settledIn q)).sum + (drains q).inHand := by
  induction h generalizing drains with
  | nil =>
    obtain rfl := Pump.draining.inj (hy.symm.trans hd)
    exact absurd trivial hask
  | @snoc ls l s' s'' h hs ih =>
    obtain ⟨drains', hd', hstep⟩ := hs.drains (fun hl => hsame (by simp [hl])) hd
    rcases hstep q hask with hnone | ⟨hask', hle⟩
    · -- what the queue held, and what was enqueued meanwhile, is settled or in hand
      have hsum := (h.snoc hs).conserved fun s l s' hs => hs.balance q
      rw [open_draining hd, hnone, zero_add] at hsum
      rw [← hsum, Node.open, add_assoc]
      exact Multiset.le_add_right _ _
    · refine (ih (fun hmem => hsame (List.mem_append_left _ hmem)) hd' hask').trans ?_
      rw [List.map_append, List.sum_append, List.map_singleton, List.sum_singleton, add_assoc]
      exact add_le_add_right hle _

theorem unfailed (h : Trace (Step o) s ls s') (hsame : .began ∉ ls) {drains : Queue → Drain}
    (hd : s'.pump = .draining drains) : (∀ lost, .failed lost ∉ ls ∧ .aborted lost ∉ ls) ∧
      (s.stopped = false → .stopped ∉ ls →
        s'.stopped = false ∧ ∀ q, (ls.map (Did.lostIn q)).sum = 0) := by
  induction h generalizing drains with
  | nil => exact ⟨fun lost => by simp, fun hs _ => ⟨hs, fun q => rfl⟩⟩
  | @snoc ls l s' s'' h hs ih =>
    obtain ⟨drains', hd', -⟩ := hs.drains (fun hl => hsame (by simp [hl])) hd
    obtain ⟨hnone, hlost⟩ := ih (fun hmem => hsame (List.mem_append_left _ hmem)) hd'
    have hl : ∀ lost, l ≠ .failed lost ∧ l ≠ .aborted lost := by
      intro lost
      constructor <;> (rintro rfl; cases hs <;> cases hd)
    refine ⟨fun lost => ?_, fun hstopped hstop => ?_⟩
    · simp [hnone lost, Ne.symm (hl lost).1, Ne.symm (hl lost).2]
    · obtain ⟨hs', hsum⟩ := hlost hstopped fun hmem => hstop (List.mem_append_left _ hmem)
      refine ⟨hs.stopped (fun hl => hstop (by simp [hl])) hs', fun q => ?_⟩
      rw [List.map_append, List.sum_append, hsum, List.map_singleton, List.sum_singleton, zero_add]
      exact hs.lost (fun lost => (hl lost).1) hs'

/-- A pass that ends without failing has found every row that was there when it began, whether
the node was notified of it or not, and unless the node is stopped it has lost none. -/
theorem pass_drains (hbegin : Step o s .began s') (hpass : Trace (Step o) s' ls s'')
    (hsame : .began ∉ ls) {t : Node} (hend : Step o s'' .passed t) :
    (∀ q, s.outbox q ≤ (ls.map (Did.takenIn q)).sum + (ls.map (Did.deliveredIn q)).sum +
      (ls.map (Did.lostIn q)).sum) ∧
    (∀ lost, .failed lost ∉ ls ∧ .aborted lost ∉ ls) ∧
    (.stopped ∉ ls → ∀ q, (ls.map (Did.lostIn q)).sum = 0) := by
  cases hbegin with
  | begin h hs =>
    cases hend with
    | pass drains hd hq =>
      obtain ⟨hnone, hlost⟩ := unfailed hpass hsame hd
      refine ⟨fun q => ?_, hnone, fun hstop => (hlost hs hstop).2⟩
      have hle := drained rfl hpass hsame hd q (by simp [hq, Drain.AsksAgain])
      rw [hq] at hle
      rw [← sum_settledIn]
      exact hle.trans_eq (add_zero _)

def fullOutbox : Outbox where
  dequeue limit queue rows rest :=
    queue = ↑rows + rest ∧ rows.length ≤ limit ∧ (rows.length < limit → rest = 0)
  removes h := h.1
  exhausts h := h.2.2

def taskRow : Row := .execute (.ok "t") (.ok 1)

def taskMessage : Json := .obj [("kind", .str "execute"), ("head", .obj []),
  ("data", .obj [("task", .obj [("id", .str "t"), ("version", .num 1)])])]

def unnoticed : Node := { Node.start.enqueue .unicast taskRow with subscribers := [[]] }

def passing : Node := { unnoticed with pump := .draining fun _ => .asking }

def taskPass : List Did :=
  [.dequeued .anycast [], .dequeued .unicast [taskRow], .dequeued .unblocks [],
    .delivered .unicast taskRow taskMessage, .quiet, .quiet, .quiet]

theorem taskPass_runs : ∃ t t', Trace (Step fullOutbox) passing taskPass t ∧
    Step fullOutbox t .passed t' ∧ t'.subscribers = [[taskMessage]] := by
  have h₁ := Trace.nil.snoc (Step.dequeue (o := fullOutbox) passing _ .anycast [] 0 rfl rfl
    ⟨rfl, by decide, fun _ => rfl⟩)
  have h₂ := h₁.snoc (.dequeue _ _ .unicast [taskRow] 0 rfl rfl ⟨rfl, by decide, fun _ => rfl⟩)
  have h₃ := h₂.snoc (.dequeue _ _ .unblocks [] 0 rfl rfl ⟨rfl, by decide, fun _ => rfl⟩)
  have h₄ := h₃.snoc (.deliver _ _ .unicast 1 taskRow [] taskMessage rfl rfl rfl rfl)
  have h₅ := h₄.snoc (.next _ _ .anycast 0 rfl rfl)
  have h₆ := h₅.snoc (.next _ _ .unicast 1 rfl rfl)
  have h₇ := h₆.snoc (.next _ _ .unblocks 0 rfl rfl)
  exact ⟨_, _, h₇, .pass _ _ rfl fun q => by cases q <;> rfl, rfl⟩

theorem outbox_delivered_task : ∃ ls s, Trace (Step fullOutbox) .start ls s ∧
    (ls.map (Did.lostIn .unicast)).sum = 0 ∧ s.subscribers = [[taskMessage]] ∧
      Message.ofJson taskMessage = some (.execute "t" 1) := by
  obtain ⟨t, t', hpass, hend, hsubs⟩ := taskPass_runs
  have hbefore : Trace (Step fullOutbox) .start [.enqueued .unicast taskRow, .subscribed] unnoticed :=
    (Trace.nil.snoc (.enqueue _ _ _)).snoc (.recv _)
  have h := ((hbefore.snoc (.begin _ rfl rfl)).trans hpass).snoc hend
  obtain ⟨-, hlost, -, -, hdelivered, -⟩ := outbox_delivered h
  obtain ⟨content, hcontent, hparse⟩ := hdelivered .unicast taskRow taskMessage (by simp [taskPass])
  cases hcontent
  exact ⟨_, _, h, hlost (by simp [taskPass]) (by simp [taskPass]) .unicast, hsubs, hparse⟩

theorem pass_drains_task : {taskRow} ≤ (taskPass.map (Did.takenIn .unicast)).sum +
      (taskPass.map (Did.deliveredIn .unicast)).sum + (taskPass.map (Did.lostIn .unicast)).sum ∧
    (taskPass.map (Did.lostIn .unicast)).sum = 0 := by
  obtain ⟨t, t', hpass, hend, -⟩ := taskPass_runs
  obtain ⟨hdrained, -, hlost⟩ :=
    pass_drains (s := unnoticed) (.begin _ rfl rfl) hpass (by simp [taskPass]) hend
  exact ⟨hdrained .unicast, hlost (by simp [taskPass]) .unicast⟩

end Resonate.Postgres
