import Resonate.Types
import Resonate.Lib.Machine
import Mathlib.Data.List.GetD

/-!
# Creation sequencing

`sequencing.rs` under its most general client. The terminal operations of a
`Context` claim slots; the task of a slot is polled, answered and dropped at any
time; the call whose creation ended in success may open a child context. The
server gains promises at any time, also from requests whose answer is lost, and
the cache holds promises the server told of. A call whose arguments do not
serialize returns before it claims a slot, and is left out.
-/

namespace Resonate
open Lib

namespace Sequencing

inductive CreationState where
  | inFlight | created | failed (msg : String)
deriving DecidableEq

structure Channel where
  state : CreationState
  sender : Bool
deriving DecidableEq

def creationChannel : Channel := ⟨.inFlight, true⟩

/-- `wait_for` the state to leave `InFlight`: still waiting, the state, or an error
once the sender is gone. -/
def Channel.waitFor (ch : Channel) : Option (Except Unit CreationState) :=
  if ch.state ≠ .inFlight then some (.ok ch.state)
  else if ch.sender then none
  else some (.error ())

def awaitCreatedId (id : String) (created : Channel) : Option (Except Error String) :=
  match created.waitFor with
  | none => none
  | some (.error _) => some (.error (.joinError s!"task {id} was dropped"))
  | some (.ok (.failed msg)) => some (.error (.promiseCreation msg))
  | some (.ok _) => some (.ok id)

inductive Stage where
  | waiting | requesting | ended | dropped
deriving DecidableEq

/-- A slot with its task; `prev` is the slot whose channel it waits on. `sent`
records that it has sent its request. -/
structure CreationSlot where
  id : String
  prev : Option ℕ
  tx : Channel
  stage : Stage
  sent : Bool

namespace CreationSlot

/-- The task returns: its outcome is broadcast and its sender is gone. -/
def finish (slot : CreationSlot) (state : CreationState) : CreationSlot :=
  { slot with tx := ⟨state, false⟩, stage := .ended }

def request (slot : CreationSlot) : CreationSlot := { slot with stage := .requesting, sent := true }

def drop (slot : CreationSlot) : CreationSlot :=
  if slot.stage = .ended then slot
  else { slot with tx := { slot.tx with sender := false }, stage := .dropped }

end CreationSlot

structure CreationSequencer where
  tail : Option ℕ
  slots : List CreationSlot

namespace CreationSequencer

def new : CreationSequencer := ⟨none, []⟩

def claimSlot (q : CreationSequencer) (id : String) : CreationSequencer :=
  ⟨some q.slots.length, q.slots ++ [⟨id, q.tail, creationChannel, .waiting, false⟩]⟩

def modifySlot (q : CreationSequencer) (k : ℕ) (f : CreationSlot → CreationSlot) :
    CreationSequencer := { q with slots := q.slots.modify k f }

def predecessorOk (q : CreationSequencer) (slot : CreationSlot) : Option Bool :=
  match slot.prev with
  | none => some true
  | some j => match (q.slots[j]?).bind fun p => p.tx.waitFor with
    | none => none
    | some (.ok .created) => some true
    | some _ => some false

def aborted : CreationState :=
  .failed (Error.promiseCreation
    "aborted: a previous promise creation in this workflow failed").text

/-- A poll of the task at its wait. `create_promise` answers from the cache, fails
before its request with `fault`, or sends it. -/
def pollSlot (q : CreationSequencer) (cache : List String) (k : ℕ) (fault : Option Error) :
    CreationSequencer :=
  match q.slots[k]? with
  | none => q
  | some slot =>
    if slot.stage ≠ .waiting then q
    else match q.predecessorOk slot with
    | none => q
    | some false => q.modifySlot k fun slot => slot.finish aborted
    | some true =>
      if slot.id ∈ cache then q.modifySlot k fun slot => slot.finish .created
      else match fault with
      | some e => q.modifySlot k fun slot => slot.finish (.failed e.text)
      | none => q.modifySlot k CreationSlot.request

def answerSlot (q : CreationSequencer) (k : ℕ) (failure : Option Error) : CreationSequencer :=
  match q.slots[k]? with
  | none => q
  | some slot =>
    if slot.stage ≠ .requesting then q
    else q.modifySlot k fun slot => slot.finish (match failure with
      | some e => .failed e.text
      | none => .created)

def dropSlot (q : CreationSequencer) (k : ℕ) : CreationSequencer :=
  q.modifySlot k CreationSlot.drop

end CreationSequencer

/-- A context of the tree: the call that opened it, and its sequencer. -/
structure CallContext where
  parent : Option (ℕ × ℕ)
  sequencer : CreationSequencer

structure World where
  contexts : List CallContext
  server : List String
  cache : List String

namespace World

def start (server cache : List String) : World := ⟨[⟨none, .new⟩], server, cache⟩

def modifySequencer (w : World) (c : ℕ) (f : CreationSequencer → CreationSequencer) : World :=
  { w with contexts := w.contexts.modify c fun ctx => { ctx with sequencer := f ctx.sequencer } }

def slot (w : World) (c k : ℕ) : Option CreationSlot :=
  (w.contexts[c]?).bind fun ctx => ctx.sequencer.slots[k]?

end World

inductive Act where
  | claim (c : ℕ) (id : String)
  | poll (c k : ℕ) (fault : Option Error)
  | answer (c k : ℕ) (preload : List String) (failure : Option Error)
  | drop (c k : ℕ)
  | enter (c k : ℕ)
  | store (id : String)
  | absorb (ids : List String)

def World.step (w : World) : Act → World
  | .claim c id => w.modifySequencer c fun q => q.claimSlot id
  | .poll c k fault => w.modifySequencer c fun q => q.pollSlot w.cache k fault
  | .answer c k preload failure =>
    let id := (w.slot c k).map CreationSlot.id
    let cache := (if failure.isNone then id.toList else []) ++ preload ++ w.cache
    { w with cache }.modifySequencer c fun q => q.answerSlot k failure
  | .drop c k => w.modifySequencer c fun q => q.dropSlot k
  | .enter c k => { w with contexts := w.contexts ++ [⟨some (c, k), .new⟩] }
  | .store id => { w with server := id :: w.server }
  | .absorb ids => { w with cache := ids ++ w.cache }

/-- What the surroundings owe: an answer and a preload tell of promises that
exist, and a child context is opened by a call whose creation ended in success. -/
def Act.Enabled (w : World) : Act → Prop
  | .answer c k preload failure => (∀ id ∈ preload, id ∈ w.server) ∧
      (failure = none → ∀ slot, w.slot c k = some slot → slot.id ∈ w.server)
  | .enter c k => ∃ slot, w.slot c k = some slot ∧ slot.tx.state = .created
  | .absorb ids => ∀ id ∈ ids, id ∈ w.server
  | _ => True

structure CreationSlot.Ok (server : List String) (slot : CreationSlot) : Prop where
  waiting : slot.stage = .waiting → slot.tx = creationChannel ∧ slot.sent = false
  requesting : slot.stage = .requesting → slot.tx = creationChannel ∧ slot.sent = true
  ended : slot.stage = .ended → slot.tx.state ≠ .inFlight
  dropped : slot.stage = .dropped → slot.tx = ⟨.inFlight, false⟩
  stored : slot.tx.state = .created → slot.id ∈ server

namespace CreationSlot.Ok

variable {server : List String} {slot : CreationSlot}

theorem mono (h : slot.Ok server) {server' : List String} (hs : ∀ id ∈ server, id ∈ server') :
    slot.Ok server' :=
  ⟨h.waiting, h.requesting, h.ended, h.dropped, fun hc => hs _ (h.stored hc)⟩

theorem finish {state : CreationState} (hne : state ≠ .inFlight)
    (hid : state = .created → slot.id ∈ server) : (slot.finish state).Ok server where
  waiting := by simp [CreationSlot.finish]
  requesting := by simp [CreationSlot.finish]
  ended _ := hne
  dropped := by simp [CreationSlot.finish]
  stored := hid

theorem request (h : slot.Ok server) (hst : slot.stage = .waiting) :
    slot.request.Ok server where
  waiting := by simp [CreationSlot.request]
  requesting _ := ⟨(h.waiting hst).1, rfl⟩
  ended := by simp [CreationSlot.request]
  dropped := by simp [CreationSlot.request]
  stored := h.stored

theorem inFlight_of_not_ended (h : slot.Ok server) (hst : slot.stage ≠ .ended) :
    slot.tx.state = .inFlight := by
  cases hs : slot.stage with
  | waiting => rw [(h.waiting hs).1]; rfl
  | requesting => rw [(h.requesting hs).1]; rfl
  | ended => exact absurd hs hst
  | dropped => rw [h.dropped hs]

theorem drop (h : slot.Ok server) : slot.drop.Ok server := by
  unfold CreationSlot.drop
  split_ifs with hst
  · exact h
  · have hin := h.inFlight_of_not_ended hst
    exact ⟨by simp, by simp, by simp, fun _ => by simp [hin], fun hc => by simp [hin] at hc⟩

end CreationSlot.Ok

def before : ℕ → Option ℕ
  | 0 => none
  | n + 1 => some n

namespace CreationSequencer

def CreatedBefore (q : CreationSequencer) (k : ℕ) : Prop :=
  ∀ j, before k = some j → ∃ p, q.slots[j]? = some p ∧ p.tx.state = .created

/-- The invariant of a sequencer: every slot waits on the one before it, and has
sent a request or was created only after that one was created. -/
structure Chained (server : List String) (q : CreationSequencer) : Prop where
  tail_eq : q.tail = before q.slots.length
  ok : ∀ (k : ℕ) (slot : CreationSlot), q.slots[k]? = some slot → slot.Ok server
  prev_eq : ∀ (k : ℕ) (slot : CreationSlot), q.slots[k]? = some slot → slot.prev = before k
  gated : ∀ (k : ℕ) (slot : CreationSlot), q.slots[k]? = some slot →
    slot.sent = true ∨ slot.tx.state = .created → q.CreatedBefore k

namespace Chained

variable {server : List String} {q : CreationSequencer} {k : ℕ} {slot : CreationSlot}

theorem new : Chained server new := by
  refine ⟨rfl, ?_, ?_, ?_⟩ <;> intro k slot h <;> simp [CreationSequencer.new] at h

theorem mono (h : Chained server q) {server' : List String}
    (hs : ∀ id ∈ server, id ∈ server') : Chained server' q :=
  ⟨h.tail_eq, fun k slot hk => (h.ok k slot hk).mono hs, h.prev_eq, h.gated⟩

theorem claimSlot (h : Chained server q) (id : String) : Chained server (q.claimSlot id) := by
  have hget : ∀ k slot, (q.claimSlot id).slots[k]? = some slot → q.slots[k]? = some slot ∨
      k = q.slots.length ∧ slot = ⟨id, q.tail, creationChannel, .waiting, false⟩ := by
    intro k slot hk
    rw [CreationSequencer.claimSlot, List.getElem?_append] at hk
    split_ifs at hk with hlt
    · exact Or.inl hk
    · obtain ⟨hlen, hs⟩ := List.getElem?_eq_some_iff.mp hk
      simp only [List.length_cons, List.length_nil] at hlen
      have hz : k - q.slots.length = 0 := by omega
      simp only [hz, List.getElem_cons_zero] at hs
      exact Or.inr ⟨by omega, hs.symm⟩
  have hkeep : ∀ k, q.CreatedBefore k → (q.claimSlot id).CreatedBefore k := by
    intro k hc j hj
    obtain ⟨p, hp, hst⟩ := hc j hj
    refine ⟨p, ?_, hst⟩
    rw [CreationSequencer.claimSlot, List.getElem?_append_left (List.getElem?_eq_some_iff.mp hp).1]
    exact hp
  refine ⟨by simp [CreationSequencer.claimSlot, before], fun k slot hk => ?_,
    fun k slot hk => ?_, fun k slot hk hg => ?_⟩
  · rcases hget k slot hk with hk | ⟨-, rfl⟩
    · exact h.ok k slot hk
    · constructor <;> simp [creationChannel]
  · rcases hget k slot hk with hk | ⟨rfl, rfl⟩
    · exact h.prev_eq k slot hk
    · exact h.tail_eq
  · rcases hget k slot hk with hk | ⟨rfl, rfl⟩
    · exact hkeep k (h.gated k slot hk hg)
    · simp [creationChannel] at hg

theorem modifySlot (h : Chained server q) (hk : q.slots[k]? = some slot)
    {f : CreationSlot → CreationSlot} (hok : (f slot).Ok server) (hprev : (f slot).prev = slot.prev)
    (hkeep : slot.tx.state = .created → (f slot).tx.state = .created)
    (hgate : (f slot).sent = true ∨ (f slot).tx.state = .created → q.CreatedBefore k) :
    Chained server (q.modifySlot k f) := by
  have hget : ∀ i new, (q.modifySlot k f).slots[i]? = some new →
      q.slots[i]? = some new ∨ i = k ∧ new = f slot := by
    intro i new hi
    rw [CreationSequencer.modifySlot, List.getElem?_modify] at hi
    obtain ⟨old, hold, rfl⟩ := Option.map_eq_some_iff.mp hi
    by_cases hik : k = i
    · subst hik
      obtain rfl : old = slot := Option.some.inj (hold.symm.trans hk)
      exact Or.inr ⟨rfl, by simp⟩
    · exact Or.inl (by simpa [hik] using hold)
  have hbefore : ∀ i, q.CreatedBefore i → (q.modifySlot k f).CreatedBefore i := by
    intro i hc j hj
    obtain ⟨p, hp, hst⟩ := hc j hj
    rw [CreationSequencer.modifySlot, List.getElem?_modify, hp]
    by_cases hkj : k = j
    · subst hkj
      obtain rfl : p = slot := Option.some.inj (hp.symm.trans hk)
      exact ⟨f p, by simp, hkeep hst⟩
    · exact ⟨p, by simp [hkj], hst⟩
  refine ⟨?_, fun i new hi => ?_, fun i new hi => ?_, fun i new hi hg => ?_⟩
  · simpa [CreationSequencer.modifySlot] using h.tail_eq
  · rcases hget i new hi with hi | ⟨rfl, rfl⟩
    · exact h.ok i new hi
    · exact hok
  · rcases hget i new hi with hi | ⟨rfl, rfl⟩
    · exact h.prev_eq i new hi
    · exact hprev.trans (h.prev_eq i slot hk)
  · rcases hget i new hi with hi | ⟨rfl, rfl⟩
    · exact hbefore i (h.gated i new hi hg)
    · exact hbefore i (hgate hg)

theorem createdBefore_of_ok (h : Chained server q) (hk : q.slots[k]? = some slot)
    (hok : q.predecessorOk slot = some true) : q.CreatedBefore k := by
  intro j hj
  rw [CreationSequencer.predecessorOk, h.prev_eq k slot hk, hj] at hok
  cases hp : q.slots[j]? with
  | none => simp [hp] at hok
  | some p =>
    refine ⟨p, rfl, ?_⟩
    simp only [hp, Option.bind_some, Channel.waitFor] at hok
    split_ifs at hok with h1 h2
    · cases hst : p.tx.state <;> simp [hst] at h1 hok ⊢
    · simp at hok

theorem pollSlot (h : Chained server q) {cache : List String} (hcache : ∀ id ∈ cache, id ∈ server)
    (k : ℕ) (fault : Option Error) : Chained server (q.pollSlot cache k fault) := by
  unfold CreationSequencer.pollSlot
  cases hk : q.slots[k]? with
  | none => exact h
  | some slot =>
    dsimp only
    by_cases hst : slot.stage ≠ .waiting
    · rw [if_pos hst]
      exact h
    · rw [if_neg hst]
      have hwait : slot.stage = .waiting := by simpa using hst
      obtain ⟨htx, hsent⟩ := (h.ok k slot hk).waiting hwait
      have hin : slot.tx.state ≠ .created := by simp [htx, creationChannel]
      cases hok : q.predecessorOk slot with
      | none => exact h
      | some ok =>
        cases ok with
        | false =>
          exact h.modifySlot hk (.finish (by simp [aborted]) (by simp [aborted])) rfl
            (fun hc => absurd hc hin) (by simp [CreationSlot.finish, hsent, aborted])
        | true =>
          have hbefore := h.createdBefore_of_ok hk hok
          dsimp only
          by_cases hc : slot.id ∈ cache
          · rw [if_pos hc]
            exact h.modifySlot hk (.finish (by simp) fun _ => hcache _ hc) rfl (fun _ => rfl)
              fun _ => hbefore
          · rw [if_neg hc]
            cases fault with
            | some e =>
              exact h.modifySlot hk (.finish (by simp) (by simp)) rfl (fun hc => absurd hc hin)
                fun _ => hbefore
            | none =>
              exact h.modifySlot hk ((h.ok k slot hk).request hwait) rfl (fun hc => hc)
                fun _ => hbefore

theorem answerSlot (h : Chained server q) (k : ℕ) (failure : Option Error)
    (hid : failure = none → ∀ slot, q.slots[k]? = some slot → slot.id ∈ server) :
    Chained server (q.answerSlot k failure) := by
  unfold CreationSequencer.answerSlot
  cases hk : q.slots[k]? with
  | none => exact h
  | some slot =>
    dsimp only
    split_ifs with hst
    · exact h
    · have hreq : slot.stage = .requesting := by simpa using hst
      obtain ⟨htx, hsent⟩ := (h.ok k slot hk).requesting hreq
      have hbefore := h.gated k slot hk (Or.inl hsent)
      cases failure with
      | some e =>
        exact h.modifySlot hk (.finish (by simp) (by simp)) rfl
          (fun hc => by simp [htx, creationChannel] at hc) fun _ => hbefore
      | none =>
        exact h.modifySlot hk (.finish (by simp) fun _ => hid rfl slot hk) rfl (fun _ => rfl)
          fun _ => hbefore

theorem dropSlot (h : Chained server q) (k : ℕ) : Chained server (q.dropSlot k) := by
  unfold CreationSequencer.dropSlot
  cases hk : q.slots[k]? with
  | none =>
    rw [CreationSequencer.modifySlot, List.modify_eq_self (List.getElem?_eq_none_iff.mp hk)]
    exact h
  | some slot =>
    refine h.modifySlot hk (h.ok k slot hk).drop ?_ ?_ fun hg => h.gated k slot hk ?_
    · unfold CreationSlot.drop
      split_ifs <;> rfl
    · unfold CreationSlot.drop
      split_ifs <;> exact fun hc => hc
    · unfold CreationSlot.drop at hg
      split_ifs at hg <;> exact hg

theorem predecessorOk_isSome (h : Chained server q) (hk : q.slots[k]? = some slot)
    (hidle : ∀ j p, before k = some j → q.slots[j]? = some p →
      p.stage = .ended ∨ p.stage = .dropped) : (q.predecessorOk slot).isSome := by
  rw [CreationSequencer.predecessorOk, h.prev_eq k slot hk]
  cases hb : before k with
  | none => rfl
  | some j =>
    have hlt : j < q.slots.length := by
      have hkl := (List.getElem?_eq_some_iff.mp hk).1
      cases k with
      | zero => cases hb
      | succ k => cases hb; omega
    have hj : q.slots[j]? = some q.slots[j] := List.getElem?_eq_getElem hlt
    have hwait : (q.slots[j].tx.waitFor).isSome := by
      rcases hidle j _ hb hj with hst | hst
      · simp [Channel.waitFor, (h.ok j _ hj).ended hst]
      · simp [Channel.waitFor, (h.ok j _ hj).dropped hst]
    obtain ⟨r, hr⟩ := Option.isSome_iff_exists.mp hwait
    dsimp only
    rw [hj, Option.bind_some, hr]
    cases r with
    | error e => rfl
    | ok state => cases state <;> rfl

theorem created_of_le (h : Chained server q) {j : ℕ} (hjk : j ≤ k) (hk : q.slots[k]? = some slot)
    (hc : slot.tx.state = .created) : ∃ p, q.slots[j]? = some p ∧ p.tx.state = .created := by
  induction k generalizing slot with
  | zero =>
    obtain rfl : j = 0 := by omega
    exact ⟨slot, hk, hc⟩
  | succ k ih =>
    by_cases hj : j = k + 1
    · subst hj
      exact ⟨slot, hk, hc⟩
    · obtain ⟨p, hp, hpc⟩ := h.gated (k + 1) slot hk (Or.inr hc) k rfl
      exact ih (by omega) hp hpc

end Chained

section Frames

variable {q : CreationSequencer} {i k : ℕ} {slot : CreationSlot}

theorem modifySlot_fixed {f : CreationSlot → CreationSlot} (hi : q.slots[i]? = some slot)
    (hf : i = k → f slot = slot) : (q.modifySlot k f).slots[i]? = some slot := by
  rw [modifySlot, List.getElem?_modify, hi]
  by_cases hik : k = i
  · simp [hik, hf hik.symm]
  · simp [hik]

theorem claimSlot_fixed (hi : q.slots[i]? = some slot) (id : String) :
    (q.claimSlot id).slots[i]? = some slot := by
  rw [claimSlot, List.getElem?_append_left (List.getElem?_eq_some_iff.mp hi).1]
  exact hi

theorem pollSlot_fixed (hi : q.slots[i]? = some slot) (hst : slot.stage ≠ .waiting)
    (cache : List String) (k : ℕ) (fault : Option Error) :
    (q.pollSlot cache k fault).slots[i]? = some slot := by
  unfold pollSlot
  cases hk : q.slots[k]? with
  | none => exact hi
  | some polled =>
    have hne : polled.stage = .waiting → i ≠ k := by
      rintro hw rfl
      exact hst (Option.some.inj (hi.symm.trans hk) ▸ hw)
    dsimp only
    by_cases hw : polled.stage = .waiting
    · rw [if_neg (by simp [hw])]
      have hfix : ∀ f, (q.modifySlot k f).slots[i]? = some slot := fun f =>
        modifySlot_fixed hi fun he => absurd he (hne hw)
      split
      · exact hi
      · exact hfix _
      · split
        · exact hfix _
        · split <;> exact hfix _
    · rw [if_pos hw]
      exact hi

theorem answerSlot_fixed (hi : q.slots[i]? = some slot) (hst : slot.stage ≠ .requesting)
    (k : ℕ) (failure : Option Error) : (q.answerSlot k failure).slots[i]? = some slot := by
  unfold answerSlot
  cases hk : q.slots[k]? with
  | none => exact hi
  | some asked =>
    dsimp only
    split_ifs with hr
    · exact hi
    · refine modifySlot_fixed hi fun he => ?_
      subst he
      obtain rfl : slot = asked := Option.some.inj (hi.symm.trans hk)
      exact absurd hst hr

theorem dropSlot_fixed {server : List String} (hok : slot.Ok server)
    (hi : q.slots[i]? = some slot) (hst : slot.stage = .ended ∨ slot.stage = .dropped) (k : ℕ) :
    (q.dropSlot k).slots[i]? = some slot := by
  refine modifySlot_fixed hi fun _ => ?_
  unfold CreationSlot.drop
  rcases hst with hst | hst
  · rw [if_pos hst]
  · rw [if_neg (by simp [hst]), ← hst, hok.dropped hst]
    have htx := hok.dropped hst
    cases slot
    simp_all

/-- Slot `i` sent its request earlier, or its predecessor was created. -/
def Justified (q : CreationSequencer) (i : ℕ) : Prop :=
  (∃ old, q.slots[i]? = some old ∧ old.sent = true) ∨ q.CreatedBefore i

theorem modifySlot_justified {f : CreationSlot → CreationSlot}
    (hf : ∀ slot, q.slots[k]? = some slot → (f slot).sent = true →
      slot.sent = true ∨ q.CreatedBefore k)
    (hi : (q.modifySlot k f).slots[i]? = some slot) (hs : slot.sent = true) : q.Justified i := by
  rw [modifySlot, List.getElem?_modify] at hi
  obtain ⟨old, hold, rfl⟩ := Option.map_eq_some_iff.mp hi
  by_cases hik : k = i
  · subst hik
    rcases hf old hold (by simpa using hs) with h | h
    · exact Or.inl ⟨old, hold, h⟩
    · exact Or.inr h
  · exact Or.inl ⟨old, hold, by simpa [hik] using hs⟩

theorem pollSlot_justified {server cache : List String} {fault : Option Error}
    (h : Chained server q) (hi : (q.pollSlot cache k fault).slots[i]? = some slot)
    (hs : slot.sent = true) : q.Justified i := by
  have hkeep : ∀ state, ∀ old, q.slots[k]? = some old → (old.finish state).sent = true →
      old.sent = true ∨ q.CreatedBefore k := fun _ _ _ hsent => Or.inl hsent
  have hself : q.slots[i]? = some slot → q.Justified i := fun hi => Or.inl ⟨slot, hi, hs⟩
  unfold pollSlot at hi
  cases hk : q.slots[k]? with
  | none => exact hself (by simpa [hk] using hi)
  | some polled =>
    simp only [hk] at hi
    by_cases hw : polled.stage = .waiting
    · rw [if_neg (by simp [hw])] at hi
      cases hok : q.predecessorOk polled with
      | none => exact hself (by simpa [hok] using hi)
      | some ok =>
        simp only [hok] at hi
        cases ok with
        | false => exact modifySlot_justified (hkeep _) hi hs
        | true =>
          dsimp only at hi
          by_cases hc : polled.id ∈ cache
          · rw [if_pos hc] at hi
            exact modifySlot_justified (hkeep _) hi hs
          · rw [if_neg hc] at hi
            cases fault with
            | some e => exact modifySlot_justified (hkeep _) hi hs
            | none =>
              exact modifySlot_justified (fun _ _ _ => Or.inr (h.createdBefore_of_ok hk hok)) hi hs
    · rw [if_pos hw] at hi
      exact hself hi

theorem answerSlot_justified {failure : Option Error}
    (hi : (q.answerSlot k failure).slots[i]? = some slot) (hs : slot.sent = true) :
    q.Justified i := by
  unfold answerSlot at hi
  cases hk : q.slots[k]? with
  | none => exact Or.inl ⟨slot, by simpa [hk] using hi, hs⟩
  | some asked =>
    simp only [hk] at hi
    split_ifs at hi
    · exact Or.inl ⟨slot, hi, hs⟩
    · have hkeep : ∀ state, ∀ old, q.slots[k]? = some old → (old.finish state).sent = true →
          old.sent = true ∨ q.CreatedBefore k := fun _ _ _ hsent => Or.inl hsent
      exact modifySlot_justified (hkeep _) hi hs

theorem dropSlot_justified (hi : (q.dropSlot k).slots[i]? = some slot) (hs : slot.sent = true) :
    q.Justified i := by
  refine modifySlot_justified (fun old _ hsent => Or.inl ?_) hi hs
  unfold CreationSlot.drop at hsent
  split_ifs at hsent <;> exact hsent

theorem claimSlot_justified {id : String} (hi : (q.claimSlot id).slots[i]? = some slot)
    (hs : slot.sent = true) : q.Justified i := by
  rw [claimSlot, List.getElem?_append] at hi
  split_ifs at hi
  · exact Or.inl ⟨slot, hi, hs⟩
  · obtain ⟨_, rfl⟩ := List.getElem?_eq_some_iff.mp hi
    simp at hs

end Frames

end CreationSequencer

namespace World

variable {w : World} {c k : ℕ}

def sequencer (w : World) (c : ℕ) : Option CreationSequencer :=
  (w.contexts[c]?).map CallContext.sequencer

theorem slot_eq (w : World) (c k : ℕ) :
    w.slot c k = (w.sequencer c).bind fun q => q.slots[k]? := by
  unfold slot sequencer
  cases w.contexts[c]? <;> rfl

theorem sequencer_modify (w : World) (c d : ℕ) (f : CreationSequencer → CreationSequencer) :
    (w.modifySequencer d f).sequencer c =
      if d = c then (w.sequencer c).map f else w.sequencer c := by
  unfold sequencer modifySequencer
  rw [List.getElem?_modify]
  cases w.contexts[c]? with
  | none => split_ifs <;> rfl
  | some ctx => by_cases h : d = c <;> simp [h]

inductive Changes (w : World) : CreationSequencer → CreationSequencer → Prop
  | same (q : CreationSequencer) : Changes w q q
  | claim (q : CreationSequencer) (id : String) : Changes w q (q.claimSlot id)
  | poll (q : CreationSequencer) (k : ℕ) (fault : Option Error) :
      Changes w q (q.pollSlot w.cache k fault)
  | answer (q : CreationSequencer) (k : ℕ) (failure : Option Error)
      (h : failure = none → ∀ slot, q.slots[k]? = some slot → slot.id ∈ w.server) :
      Changes w q (q.answerSlot k failure)
  | drop (q : CreationSequencer) (k : ℕ) : Changes w q (q.dropSlot k)

theorem step_changes {a : Act} (ha : a.Enabled w) {q : CreationSequencer}
    (hq : w.sequencer c = some q) : ∃ q', (w.step a).sequencer c = some q' ∧ w.Changes q q' := by
  have hmod : ∀ (d : ℕ) (f : CreationSequencer → CreationSequencer) (w' : World),
      w'.contexts = w.contexts → (d = c → w.Changes q (f q)) →
      ∃ q', (w'.modifySequencer d f).sequencer c = some q' ∧ w.Changes q q' := by
    intro d f w' hw' hf
    have hq' : w'.sequencer c = some q := by
      rw [← hq, sequencer, sequencer, hw']
    rw [sequencer_modify, hq']
    by_cases hd : d = c
    · exact ⟨f q, by simp [hd], hf hd⟩
    · exact ⟨q, by simp [hd], .same q⟩
  cases a with
  | claim d id => exact hmod d _ w rfl fun _ => .claim q id
  | poll d k fault => exact hmod d _ w rfl fun _ => .poll q k fault
  | answer d k preload failure =>
    refine hmod d _ _ rfl fun hd => .answer q k failure fun hn slot hs => ?_
    subst hd
    exact ha.2 hn slot (by rw [slot_eq, hq]; exact hs)
  | drop d k => exact hmod d _ w rfl fun _ => .drop q k
  | enter d k =>
    refine ⟨q, ?_, .same q⟩
    unfold sequencer at hq ⊢
    obtain ⟨ctx, hctx, rfl⟩ := Option.map_eq_some_iff.mp hq
    rw [step, List.getElem?_append_left (List.getElem?_eq_some_iff.mp hctx).1, hctx]
    rfl
  | store id => exact ⟨q, hq, .same q⟩
  | absorb ids => exact ⟨q, hq, .same q⟩

structure Ok (w : World) : Prop where
  chained : ∀ c q, w.sequencer c = some q → q.Chained w.server
  cached : ∀ id ∈ w.cache, id ∈ w.server
  opened : ∀ (c : ℕ) (ctx : CallContext), w.contexts[c]? = some ctx → ∀ p j,
    ctx.parent = some (p, j) →
    ∃ slot, w.slot p j = some slot ∧ slot.tx.state = .created

theorem Ok.changes {q q' : CreationSequencer} (h : w.Ok) (hq : q.Chained w.server)
    (hc : w.Changes q q') : q'.Chained w.server := by
  cases hc with
  | same => exact hq
  | claim id => exact hq.claimSlot id
  | poll k fault => exact hq.pollSlot h.cached k fault
  | answer k failure hid => exact hq.answerSlot k failure hid
  | drop k => exact hq.dropSlot k

theorem server_step (w : World) (a : Act) : ∀ id ∈ w.server, id ∈ (w.step a).server := by
  intro id hid
  cases a <;> simp [step, modifySequencer, hid]

theorem slot_over {a : Act} (h : w.Ok) (ha : a.Enabled w) {slot : CreationSlot}
    (hs : w.slot c k = some slot) (hover : slot.stage = .ended ∨ slot.stage = .dropped) :
    (w.step a).slot c k = some slot := by
  rw [slot_eq] at hs ⊢
  obtain ⟨q, hq, hk⟩ := Option.bind_eq_some_iff.mp hs
  obtain ⟨q', hq', hc⟩ := step_changes ha hq
  rw [hq', Option.bind_some]
  have hw : slot.stage ≠ .waiting := by rcases hover with h | h <;> simp [h]
  have hr : slot.stage ≠ .requesting := by rcases hover with h | h <;> simp [h]
  cases hc with
  | same => exact hk
  | claim id => exact q.claimSlot_fixed hk id
  | poll j fault => exact q.pollSlot_fixed hk hw w.cache j fault
  | answer j failure hid => exact q.answerSlot_fixed hk hr j failure
  | drop j => exact q.dropSlot_fixed ((h.chained c q hq).ok k slot hk) hk hover j

theorem ended_of_created (h : w.Ok) {slot : CreationSlot} (hs : w.slot c k = some slot)
    (hc : slot.tx.state = .created) : slot.stage = .ended := by
  rw [slot_eq] at hs
  obtain ⟨q, hq, hk⟩ := Option.bind_eq_some_iff.mp hs
  by_contra hne
  simp [((h.chained c q hq).ok k slot hk).inFlight_of_not_ended hne] at hc

theorem context_of_step {a : Act} (ha : a.Enabled w) {ctx' : CallContext}
    (hc : (w.step a).contexts[c]? = some ctx') :
    (∃ ctx, w.contexts[c]? = some ctx ∧ ctx.parent = ctx'.parent) ∨
      ∃ d k, a = .enter d k ∧ ctx' = ⟨some (d, k), .new⟩ := by
  have hmod : ∀ (d : ℕ) (f : CreationSequencer → CreationSequencer),
      (w.modifySequencer d f).contexts[c]? = some ctx' →
      ∃ ctx, w.contexts[c]? = some ctx ∧ ctx.parent = ctx'.parent := by
    intro d f h
    rw [modifySequencer, List.getElem?_modify] at h
    obtain ⟨ctx, hctx, rfl⟩ := Option.map_eq_some_iff.mp h
    refine ⟨ctx, hctx, ?_⟩
    by_cases hd : d = c <;> simp [hd]
  cases a with
  | claim d id => exact Or.inl (hmod d _ hc)
  | poll d k fault => exact Or.inl (hmod d _ hc)
  | answer d k preload failure => exact Or.inl (hmod d (fun q => q.answerSlot k failure) hc)
  | drop d k => exact Or.inl (hmod d _ hc)
  | enter d k =>
    rw [step, List.getElem?_append] at hc
    split_ifs at hc
    · exact Or.inl ⟨ctx', hc, rfl⟩
    · obtain ⟨hlt, rfl⟩ := List.getElem?_eq_some_iff.mp hc
      exact Or.inr ⟨d, k, rfl, by simp⟩
  | store id => exact Or.inl ⟨ctx', hc, rfl⟩
  | absorb ids => exact Or.inl ⟨ctx', hc, rfl⟩

theorem cached_step {a : Act} (h : w.Ok) (ha : a.Enabled w) :
    ∀ id ∈ (w.step a).cache, id ∈ w.server := by
  intro id hid
  cases a with
  | answer d k preload failure =>
    simp only [step, modifySequencer, List.mem_append, or_assoc] at hid
    rcases hid with hid | hid | hid
    · cases failure with
      | some e => simp at hid
      | none =>
        simp only [Option.isNone_none, if_true, Option.mem_toList] at hid
        obtain ⟨slot, hs, rfl⟩ := Option.map_eq_some_iff.mp hid
        exact ha.2 rfl slot hs
    · exact ha.1 id hid
    · exact h.cached id hid
  | absorb ids =>
    rcases List.mem_append.mp hid with hid | hid
    · exact ha id hid
    · exact h.cached id hid
  | _ => exact h.cached id hid

theorem Ok.step (h : w.Ok) {a : Act} (ha : a.Enabled w) : (w.step a).Ok where
  chained c q' hq' := by
    obtain ⟨ctx', hctx', rfl⟩ := Option.map_eq_some_iff.mp hq'
    rcases context_of_step ha hctx' with ⟨ctx, hctx, -⟩ | ⟨d, k, rfl, rfl⟩
    · have hq : w.sequencer c = some ctx.sequencer := by rw [sequencer, hctx]; rfl
      obtain ⟨q, hq'', hc⟩ := step_changes ha hq
      obtain rfl : q = ctx'.sequencer := Option.some.inj (hq''.symm.trans hq')
      exact (h.changes (h.chained c _ hq) hc).mono (w.server_step a)
    · exact .new
  cached id hid := w.server_step a id (cached_step h ha id hid)
  opened c ctx' hctx' p j hp := by
    have hkept : ∀ slot, w.slot p j = some slot → slot.tx.state = .created →
        ∃ slot, (w.step a).slot p j = some slot ∧ slot.tx.state = .created :=
      fun slot hs hc => ⟨slot, slot_over h ha hs (Or.inl (ended_of_created h hs hc)), hc⟩
    rcases context_of_step ha hctx' with ⟨ctx, hctx, hpar⟩ | ⟨d, k, rfl, rfl⟩
    · obtain ⟨slot, hs, hc⟩ := h.opened c ctx hctx p j (hpar.trans hp)
      exact hkept slot hs hc
    · obtain ⟨slot, hs, hc⟩ := ha
      obtain ⟨rfl, rfl⟩ := Prod.mk.inj (Option.some.inj hp)
      exact hkept slot hs hc

theorem Ok.start {server preload : List String} (h : ∀ id ∈ preload, id ∈ server) :
    (start server preload).Ok where
  chained c q hq := by
    obtain ⟨ctx, hctx, rfl⟩ := Option.map_eq_some_iff.mp hq
    obtain ⟨hlt, rfl⟩ := List.getElem?_eq_some_iff.mp hctx
    simp only [World.start, List.getElem_singleton]
    exact .new
  cached := h
  opened c ctx hctx p j hp := by
    obtain ⟨hlt, rfl⟩ := List.getElem?_eq_some_iff.mp hctx
    simp [World.start] at hp

def Follows (w : World) (acts : List Act) : Prop :=
  Machine.Along step (fun w a => a.Enabled w) w acts

def run (w : World) (acts : List Act) : World := Machine.run step w acts

theorem Ok.run (h : w.Ok) {acts : List Act} (ha : w.Follows acts) : (w.run acts).Ok :=
  Machine.invariant (I := Ok) (fun _ _ ha h => h.step ha) h ha

theorem slot_over_run (h : w.Ok) {acts : List Act} (ha : w.Follows acts) {slot : CreationSlot}
    (hs : w.slot c k = some slot) (hover : slot.stage = .ended ∨ slot.stage = .dropped) :
    (w.run acts).slot c k = some slot :=
  (Machine.invariant (I := fun w => w.Ok ∧ w.slot c k = some slot)
    (fun _ _ ha h => ⟨h.1.step ha, slot_over h.1 ha h.2 hover⟩) ⟨h, hs⟩ ha).2

def Obtained (w : World) (c k : ℕ) : Prop := ∃ slot, w.slot c k = some slot ∧ slot.tx.state = .created

def Sent (w : World) (c k : ℕ) : Prop := ∃ slot, w.slot c k = some slot ∧ slot.sent = true

def Lost (w : World) (c k : ℕ) : Prop :=
  ∃ slot, w.slot c k = some slot ∧ (slot.stage = .dropped ∨ ∃ msg, slot.tx.state = .failed msg)

def Running (w : World) (c k : ℕ) : Prop :=
  ∃ slot, w.slot c k = some slot ∧ (slot.stage = .waiting ∨ slot.stage = .requesting)

def Blocked (w : World) (c k : ℕ) : Prop :=
  ∃ q slot, w.sequencer c = some q ∧ q.slots[k]? = some slot ∧ slot.stage = .waiting ∧
    q.predecessorOk slot = none

def handleId (w : World) (c k : ℕ) : Option (Except Error String) :=
  (w.slot c k).bind fun slot => awaitCreatedId slot.id slot.tx

theorem Ok.slot_chained (h : w.Ok) {slot : CreationSlot} (hs : w.slot c k = some slot) :
    ∃ q, w.sequencer c = some q ∧ q.Chained w.server ∧ q.slots[k]? = some slot := by
  rw [slot_eq] at hs
  obtain ⟨q, hq, hk⟩ := Option.bind_eq_some_iff.mp hs
  exact ⟨q, hq, h.chained c q hq, hk⟩

theorem Ok.obtained_of_le (h : w.Ok) {j : ℕ} (hjk : j ≤ k) (hk : w.Obtained c k) :
    w.Obtained c j := by
  obtain ⟨slot, hs, hc⟩ := hk
  obtain ⟨q, hq, hchain, hslot⟩ := h.slot_chained hs
  obtain ⟨p, hp, hpc⟩ := hchain.created_of_le hjk hslot hc
  exact ⟨p, by rw [slot_eq, hq]; exact hp, hpc⟩

theorem Ok.obtained_before_sent (h : w.Ok) (hk : w.Sent c (k + 1)) : w.Obtained c k := by
  obtain ⟨slot, hs, hsent⟩ := hk
  obtain ⟨q, hq, hchain, hslot⟩ := h.slot_chained hs
  obtain ⟨p, hp, hpc⟩ := hchain.gated (k + 1) slot hslot (Or.inl hsent) k rfl
  exact ⟨p, by rw [slot_eq, hq]; exact hp, hpc⟩

/-- When a step sends the request of a call, the call before it has been obtained already. -/
theorem Ok.obtained_of_sends (h : w.Ok) {a : Act} (ha : a.Enabled w) (hno : ¬ w.Sent c (k + 1))
    (hsent : (w.step a).Sent c (k + 1)) : w.Obtained c k := by
  obtain ⟨slot, hs, hsent⟩ := hsent
  rw [slot_eq] at hs
  obtain ⟨q', hq', hslot⟩ := Option.bind_eq_some_iff.mp hs
  obtain ⟨ctx', hctx', hseq⟩ := Option.map_eq_some_iff.mp hq'
  rcases context_of_step ha hctx' with ⟨ctx, hctx, -⟩ | ⟨d, j, rfl, rfl⟩
  · obtain ⟨q, hq⟩ : ∃ q, w.sequencer c = some q := ⟨ctx.sequencer, by rw [sequencer, hctx]; rfl⟩
    obtain ⟨q'', hq'', hc⟩ := step_changes ha hq
    obtain rfl : q'' = q' := Option.some.inj (hq''.symm.trans hq')
    have hjust : q.Justified (k + 1) := by
      cases hc with
      | same => exact Or.inl ⟨slot, hslot, hsent⟩
      | claim id => exact CreationSequencer.claimSlot_justified hslot hsent
      | poll j fault => exact CreationSequencer.pollSlot_justified (h.chained c _ hq) hslot hsent
      | answer j failure hid => exact CreationSequencer.answerSlot_justified hslot hsent
      | drop j => exact CreationSequencer.dropSlot_justified hslot hsent
    rcases hjust with ⟨old, hold, holds⟩ | hbefore
    · exact absurd ⟨old, by rw [slot_eq, hq]; exact hold, holds⟩ hno
    · obtain ⟨p, hp, hpc⟩ := hbefore k rfl
      exact ⟨p, by rw [slot_eq, hq]; exact hp, hpc⟩
  · simp [← hseq, CreationSequencer.new] at hslot

/-- A call that failed or was dropped keeps every later call of its context from sending. -/
theorem Ok.not_sent_of_lost (h : w.Ok) {j : ℕ} (hjk : j < k) (hj : w.Lost c j) {acts : List Act}
    (ha : w.Follows acts) : ¬ (w.run acts).Sent c k := by
  intro hsent
  obtain ⟨slot, hs, hlost⟩ := hj
  obtain ⟨q, hq, hchain, hslot⟩ := h.slot_chained hs
  have hok := hchain.ok j slot hslot
  have hover : slot.stage = .ended ∨ slot.stage = .dropped := by
    rcases hlost with hd | ⟨msg, hf⟩
    · exact Or.inr hd
    · left
      by_contra hne
      simp [hok.inFlight_of_not_ended hne] at hf
  have hnot : slot.tx.state ≠ .created := by
    rcases hlost with hd | ⟨msg, hf⟩
    · simp [hok.dropped hd]
    · simp [hf]
  have hkept := slot_over_run h ha hs hover
  obtain ⟨k, rfl⟩ : ∃ i, k = i + 1 := ⟨k - 1, by omega⟩
  have hle : j ≤ k := by omega
  obtain ⟨p, hp, hpc⟩ := (h.run ha).obtained_of_le hle ((h.run ha).obtained_before_sent hsent)
  obtain rfl : p = slot := Option.some.inj (hp.symm.trans hkept)
  exact hnot hpc

theorem Ok.exists_of_obtained (h : w.Ok) {slot : CreationSlot} (hs : w.slot c k = some slot)
    (hc : slot.tx.state = .created) : slot.id ∈ w.server := by
  obtain ⟨q, -, hchain, hslot⟩ := h.slot_chained hs
  exact (hchain.ok k slot hslot).stored hc

theorem Ok.exists_of_handleId (h : w.Ok) {id : String} (hid : w.handleId c k = some (.ok id)) :
    id ∈ w.server := by
  obtain ⟨slot, hs, hid⟩ := Option.bind_eq_some_iff.mp hid
  obtain ⟨q, -, hchain, hslot⟩ := h.slot_chained hs
  have hok := hchain.ok k slot hslot
  unfold awaitCreatedId Channel.waitFor at hid
  cases hst : slot.tx.state with
  | inFlight => cases hsend : slot.tx.sender <;> simp [hst, hsend] at hid
  | created =>
    simp [hst] at hid
    exact hid ▸ hok.stored hst
  | failed msg => simp [hst] at hid

theorem Ok.not_blocked (h : w.Ok) (hidle : ∀ j < k, ¬ w.Running c j) : ¬ w.Blocked c k := by
  rintro ⟨q, slot, hq, hslot, -, hblocked⟩
  have hsome := (h.chained c q hq).predecessorOk_isSome hslot fun j p hj hp => ?_
  · rw [hblocked] at hsome
    cases hsome
  · obtain rfl : k = j + 1 := by
      cases k with
      | zero => cases hj
      | succ k => cases hj; rfl
    have hno := hidle j (by omega)
    by_contra hover
    simp only [not_or] at hover
    refine hno ⟨p, by rw [slot_eq, hq]; exact hp, ?_⟩
    cases hst : p.stage <;> simp_all

end World

/-- Creations reach the server as a call-order prefix: in every state of every run,
what a context has obtained is a prefix of its calls; a call sends its request when
the one before it has been obtained, and never after an earlier one was lost; a
child context sends only under a promise that exists; a handle gives only ids that
exist; and a call with no running call before it does not wait on one. -/
theorem creations_in_call_order {server preload : List String}
    (hpre : ∀ id ∈ preload, id ∈ server) {acts : List Act}
    (hacts : (World.start server preload).Follows acts) :
    let w := (World.start server preload).run acts
    (∀ c j k, j ≤ k → w.Obtained c k → w.Obtained c j) ∧
    (∀ a c k, a.Enabled w → ¬ w.Sent c (k + 1) → (w.step a).Sent c (k + 1) → w.Obtained c k) ∧
    (∀ c j k later, j < k → w.Lost c j → w.Follows later → ¬ (w.run later).Sent c k) ∧
    (∀ c k p j ctx, w.contexts[c]? = some ctx → ctx.parent = some (p, j) → w.Sent c k →
      ∃ slot, w.slot p j = some slot ∧ slot.id ∈ w.server) ∧
    (∀ c k id, w.handleId c k = some (.ok id) → id ∈ w.server) ∧
    ∀ c k, (∀ j < k, ¬ w.Running c j) → ¬ w.Blocked c k := by
  intro w
  have h : w.Ok := (World.Ok.start hpre).run hacts
  refine ⟨fun c j k => h.obtained_of_le, fun a c k ha => h.obtained_of_sends ha,
    fun c j k later hjk hl hf => h.not_sent_of_lost hjk hl hf, ?_,
    fun c k id => h.exists_of_handleId, fun c k => h.not_blocked⟩
  intro c k p j ctx hctx hp _
  obtain ⟨slot, hs, hc⟩ := h.opened c ctx hctx p j hp
  exact ⟨slot, hs, h.exists_of_obtained hs hc⟩

def twoCalls : List Act :=
  [.claim 0 "p", .claim 0 "q", .poll 0 0 none, .poll 0 1 none, .store "q", .answer 0 1 [] none]

theorem creations_in_call_order_two :
    (World.start ["p"] ["p"]).Follows twoCalls ∧
      "q" ∈ ((World.start ["p"] ["p"]).run twoCalls).server ∧
      ((World.start ["p"] ["p"]).run twoCalls).Obtained 0 0 := by
  have hacts : (World.start ["p"] ["p"]).Follows twoCalls := by
    refine ⟨trivial, trivial, trivial, trivial, trivial, ⟨by simp, fun _ slot hs => ?_⟩, trivial⟩
    obtain rfl := Option.some.inj hs
    decide
  have h := creations_in_call_order (fun _ hid => hid) hacts
  exact ⟨hacts, h.2.2.2.2.1 0 1 "q" rfl, h.1 0 0 1 (by decide) ⟨_, rfl, rfl⟩⟩

end Sequencing

end Resonate
