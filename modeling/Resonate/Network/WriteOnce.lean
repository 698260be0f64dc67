import Resonate.Network.Run
import Resonate.Network.Queues
import Mathlib.Data.List.Induction

/-!
# Promises are write-once

What no action changes about a promise: its identity, and its outcome once it has
one. An entry of the promise queue carries the deadline of its promise, so a tick
takes a promise out of pending only when that deadline is reached.
-/

namespace Resonate.Network
open Lib

/-- What later states keep of a promise. -/
structure DurablePromise.Kept (p q : DurablePromise) : Prop where
  id : q.id = p.id
  param : q.param = p.param
  tags : q.tags = p.tags
  timeoutAt : q.timeoutAt = p.timeoutAt
  createdAt : q.createdAt = p.createdAt
  outcome : p.state ≠ .pending →
    q.state = p.state ∧ q.value = p.value ∧ q.settledAt = p.settledAt

namespace DurablePromise.Kept

variable {p q r : DurablePromise}

theorem refl (p : DurablePromise) : p.Kept p := ⟨rfl, rfl, rfl, rfl, rfl, fun _ => ⟨rfl, rfl, rfl⟩⟩

theorem trans (h : p.Kept q) (h' : q.Kept r) : p.Kept r where
  id := h'.id.trans h.id
  param := h'.param.trans h.param
  tags := h'.tags.trans h.tags
  timeoutAt := h'.timeoutAt.trans h.timeoutAt
  createdAt := h'.createdAt.trans h.createdAt
  outcome hp := by
    obtain ⟨hs, hv, ht⟩ := h.outcome hp
    obtain ⟨hs', hv', ht'⟩ := h'.outcome (by rwa [hs])
    exact ⟨hs'.trans hs, hv'.trans hv, ht'.trans ht⟩

theorem of_pending (hp : p.state = .pending) (hid : q.id = p.id) (hparam : q.param = p.param)
    (htags : q.tags = p.tags) (ht : q.timeoutAt = p.timeoutAt) (hc : q.createdAt = p.createdAt) :
    p.Kept q := ⟨hid, hparam, htags, ht, hc, fun h => absurd hp h⟩

end DurablePromise.Kept

def Act.Writes (act : Act) (a : String) : Prop :=
  act = .expire a ∨ act = .tickExpire a ∨ ∃ state value, act = .settle a state value

section Step

variable {now : Int} {terminal : Prop} {L : Ledger} {act : Act} {a : String} {p : DurablePromise}

theorem kept_after (hg : act.Guard now terminal L) (hp : L.state.promises.lookup a = some p) :
    ∃ q, L.state.promiseAfter now a act = some q ∧ p.Kept q ∧
      (p.state = .pending → q.state ≠ .pending → act.Writes a) := by
  have hsame : ∃ q, L.state.promises.lookup a = some q ∧ p.Kept q ∧
      (p.state = .pending → q.state ≠ .pending → act.Writes a) :=
    ⟨p, hp, .refl p, fun h h' => absurd h h'⟩
  have hnew : ∀ b, L.state.promises.lookup b = none → a ≠ b := by
    rintro b hb rfl
    simp [hb] at hp
  have hpending : ∀ b, L.state.isPending b = true → a = b → p.state = .pending := by
    rintro b hb rfl
    obtain ⟨q, hq, hs⟩ := ServerState.isPending_iff.mp hb
    rw [hp] at hq
    obtain rfl := Option.some.inj hq
    exact hs
  cases act with
  | expire b =>
    obtain ⟨q, hq, hs, -⟩ := ServerState.isDue_iff.mp hg
    simp only [ServerState.promiseAfter]
    split_ifs with h
    · have hpe := hpending b (ServerState.isPending_iff.mpr ⟨q, hq, hs⟩) h
      rw [hp]
      exact ⟨_, rfl, .of_pending hpe rfl rfl rfl rfl rfl, fun _ _ => Or.inl (h ▸ rfl)⟩
    · exact hsame
  | tickExpire b =>
    simp only [ServerState.promiseAfter]
    split_ifs with h
    · rw [hp]
      exact ⟨_, rfl, .of_pending (hpending b hg h) rfl rfl rfl rfl rfl,
        fun _ _ => Or.inr (Or.inl (h ▸ rfl))⟩
    · exact hsame
  | settle b state value =>
    simp only [ServerState.promiseAfter]
    split_ifs with h
    · rw [hp]
      exact ⟨_, rfl, .of_pending (hpending b hg.1 h) rfl rfl rfl rfl rfl,
        fun _ _ => Or.inr (Or.inr ⟨state, value, h ▸ rfl⟩)⟩
    · exact hsame
  | enqueue b | wake b | register b c =>
    refine ⟨_, by simp only [ServerState.promiseAfter, hp]; rfl, ?_⟩
    dsimp only
    split_ifs
    · exact ⟨⟨rfl, rfl, rfl, rfl, rfl, fun _ => ⟨rfl, rfl, rfl⟩⟩, fun h h' => absurd h h'⟩
    · exact ⟨.refl p, fun h h' => absurd h h'⟩
  | subscribe b address =>
    simp only [ServerState.promiseAfter]
    split_ifs
    · rw [hp]
      exact ⟨_, rfl, ⟨rfl, rfl, rfl, rfl, rfl, fun _ => ⟨rfl, rfl, rfl⟩⟩,
        fun h h' => absurd h h'⟩
    · exact hsame
  | addExpired b req | addPending b req | addFulfilled b req | addAcquired b req pid ttl =>
    simpa only [ServerState.promiseAfter, if_neg (hnew b hg.2.1)] using hsame
  | _ => exact hsame

end Step

def TimeoutsTrue (s : ServerState) : Prop :=
  ∀ a, ∀ e ∈ s.pEntries a, ∃ p, s.promises.lookup a = some p ∧ p.timeoutAt = e.timeout

namespace TimeoutsTrue

variable {now : Int} {terminal : Prop} {L : Ledger} {act : Act}

theorem step (h : TimeoutsTrue L.state) (hg : act.Guard now terminal L) :
    TimeoutsTrue (L.step now act).state := by
  intro a e he
  rw [Ledger.step, ServerState.perform_pEntries] at he
  rw [Ledger.step, ServerState.perform_promises]
  have hkeep : e ∈ L.state.pEntries a → ∃ p, L.state.promiseAfter now a act = some p ∧
      p.timeoutAt = e.timeout := by
    intro he
    obtain ⟨p, hp, ht⟩ := h a e he
    obtain ⟨q, hq, hkept, -⟩ := kept_after hg hp
    exact ⟨q, hq, hkept.timeoutAt.trans ht⟩
  cases act with
  | expire b | tickExpire b | settle b state value =>
    simp only [ServerState.pEntriesAfter] at he
    split_ifs at he with ha
    · cases he
    · exact hkeep he
  | addPending b req | addAcquired b req pid ttl =>
    simp only [ServerState.pEntriesAfter] at he
    split_ifs at he with ha
    · obtain ⟨rfl, -⟩ := ha
      rcases List.mem_cons.mp he with rfl | he
      · exact ⟨pendingPromise a req now, by simp [ServerState.promiseAfter], rfl⟩
      · exact hkeep (List.mem_of_mem_tail he)
    · exact hkeep he
  | _ => exact hkeep he

theorem exec {s : ServerState} (h : TimeoutsTrue s) (op : Op) : TimeoutsTrue (s.exec op) :=
  (exec_performs s op).invariant (I := fun L => TimeoutsTrue L.state)
    (fun _ _ hg _ hi => hi.step hg) h

theorem init : TimeoutsTrue ServerState.init := fun _ _ he => (nomatch he)

theorem run (ops : List Op) : TimeoutsTrue (ServerState.init.run ops) :=
  Machine.invariant (G := fun _ _ => True) (fun _ op _ h => h.exec op) init
    (Machine.along_of_forall fun _ _ _ => trivial)

theorem due {s : ServerState} (h : TimeoutsTrue s) {t : Int} {a : String} {p : DurablePromise}
    (hp : s.promises.lookup a = some p) (ha : a ∈ s.duePromises t) : p.timeoutAt ≤ t := by
  simp only [ServerState.duePromises, List.mem_map, List.mem_filter, decide_eq_true_eq] at ha
  obtain ⟨e, ⟨he, ht, -⟩, rfl⟩ := ha
  obtain ⟨q, hq, hqt⟩ := h e.id e (ServerState.mem_pTimeouts.mp he)
  rw [hp] at hq
  obtain rfl := Option.some.inj hq
  omega

end TimeoutsTrue

def Names (req : Json) (a : String) : Prop :=
  a ∈ namedPromises (ReqKind.ofName (kindOf req)) req ∨
    ∃ r, settleRequest req = some r ∧ a = (strField r "id").getD ((strField req "id").getD "")

/-- The operations that may take a promise out of pending. -/
def Op.MaySettle (a : String) (p : DurablePromise) : Op → Prop
  | apply _ req => Names req a
  | tick now => p.timeoutAt ≤ now

/-- One step: what it keeps of a promise, and when it may settle it. -/
theorem exec_kept {s : ServerState} (hs : TimeoutsTrue s) (op : Op) {a : String}
    {p : DurablePromise} (hp : s.promises.lookup a = some p) :
    ∃ q, (s.exec op).promises.lookup a = some q ∧ p.Kept q ∧
      (p.state = .pending → q.state ≠ .pending → op.MaySettle a p) := by
  have hstep : ∀ (P : Act → Prop), (∀ act, P act → act.Writes a → op.MaySettle a p) →
      ∀ L act, act.Guard op.now op.Terminal L → P act →
        (∃ q, L.state.promises.lookup a = some q ∧ p.Kept q ∧
          (p.state = .pending → q.state ≠ .pending → op.MaySettle a p)) →
        ∃ q, (L.step op.now act).state.promises.lookup a = some q ∧ p.Kept q ∧
          (p.state = .pending → q.state ≠ .pending → op.MaySettle a p) := by
    intro P hP L act hg hpa hi
    obtain ⟨q, hq, hkept, hset⟩ := hi
    obtain ⟨r, hr, hkept', hset'⟩ := kept_after hg hq
    rw [Ledger.step, ServerState.perform_promises]
    refine ⟨r, hr, hkept.trans hkept', fun hpend hrs => ?_⟩
    by_cases hqs : q.state = .pending
    · exact hP act hpa (hset' hqs hrs)
    · exact hset hpend hqs
  have hinit : ∃ q, s.promises.lookup a = some q ∧ p.Kept q ∧
      (p.state = .pending → q.state ≠ .pending → op.MaySettle a p) :=
    ⟨p, hp, .refl p, fun h h' => absurd h h'⟩
  cases op with
  | apply now req =>
    refine (ServerState.apply_performs s now req).invariant (hstep _ fun act hact hw => ?_) hinit
    rcases hw with rfl | rfl | ⟨state, value, rfl⟩
    · exact Or.inl hact
    · exact hact.elim
    · obtain ⟨r, hr, -, -, hid⟩ := hact
      exact Or.inr ⟨r, hr, hid⟩
  | tick now =>
    refine (ServerState.tick_performs_due s now).invariant (hstep _ fun act hact hw => ?_) hinit
    rcases hw with rfl | rfl | ⟨state, value, rfl⟩
    · exact hact.1.elim
    · exact hs.due hp (hact.2 a rfl)
    · exact hact.1.elim

theorem kept_run (ops ops' : List Op) {a : String} {p : DurablePromise}
    (hp : (ServerState.init.run ops).promises.lookup a = some p) :
    ∃ q, (ServerState.init.run (ops ++ ops')).promises.lookup a = some q ∧ p.Kept q := by
  induction ops' using List.reverseRecOn with
  | nil => exact ⟨p, by simpa using hp, .refl p⟩
  | append_singleton ops' op ih =>
    obtain ⟨q, hq, hkept⟩ := ih
    obtain ⟨r, hr, hkept', -⟩ := exec_kept (TimeoutsTrue.run (ops ++ ops')) op hq
    refine ⟨r, ?_, hkept.trans hkept'⟩
    rw [← List.append_assoc, ServerState.run, Machine.run_append]
    exact hr

/-- A promise is never removed and keeps its identity, and its outcome once it has
left pending; a step takes it out of pending only if the request names it or the
step is a tick at or after its deadline. -/
theorem promise_write_once (ops : List Op) (a : String) (p : DurablePromise)
    (hp : (ServerState.init.run ops).promises.lookup a = some p) :
    (∀ ops', ∃ q, (ServerState.init.run (ops ++ ops')).promises.lookup a = some q ∧ p.Kept q) ∧
      ∀ op q, ((ServerState.init.run ops).exec op).promises.lookup a = some q →
        p.state = .pending → q.state ≠ .pending → op.MaySettle a p := by
  refine ⟨fun ops' => kept_run ops ops' hp, fun op q hq hpend hqs => ?_⟩
  obtain ⟨r, hr, -, hmay⟩ := exec_kept (TimeoutsTrue.run ops) op hp
  rw [hq] at hr
  obtain rfl := Option.some.inj hr
  exact hmay hpend hqs

/-- A promise settled as resolved keeps its value through a second settlement. -/
theorem promise_write_once_resolved :
    ∃ p, (ServerState.init.run [.apply 0 (.obj [("kind", .str "promise.create"), ("id", .str "a")]),
        .apply 1 (.obj [("kind", .str "promise.settle"), ("id", .str "a"),
          ("value", .num 7)])]).promises.lookup
          "a" = some p ∧ p.state = .resolved ∧ p.value = .num 7 ∧
      ∀ ops', ∃ q, (ServerState.init.run ([.apply 0
        (.obj [("kind", .str "promise.create"), ("id", .str "a")]),
        .apply 1 (.obj [("kind", .str "promise.settle"), ("id", .str "a"), ("value", .num 7)])] ++
          ops')).promises.lookup "a" = some q ∧ p.Kept q :=
  ⟨_, rfl, rfl, rfl, (promise_write_once _ "a" _ rfl).1⟩

end Resonate.Network
