import Resonate.Network.Rest

/-!
# Timers

A targeted promise that nobody asks to settle is pending until its deadline and expires in
the first tick from then on, at the latest. The tasks that are suspended on a promise are
woken in the step that settles it.
-/

namespace Resonate.Network
open Lib

def Op.AsksFor (a : String) : Op → Prop
  | apply _ req => ∃ r, settleRequest req = some r ∧
    a = (strField r "id").getD ((strField req "id").getD "")
  | tick _ => False

/-- The promise is a timer: it resolves when it expires. -/
def DurablePromise.isTimer (p : DurablePromise) : Prop :=
  p.tags.lookup "resonate:timer" = some "true"

def ServerState.SuspendedOn (s : ServerState) (b a : String) : Prop :=
  (∃ v, s.SuspendedAt b v) ∧ ∃ p, s.promises.lookup a = some p ∧ b ∈ p.awaiters

variable {now : Int} {s s₁ s₂ : ServerState} {op : Op} {a b : String} {m : Move}
variable {p q : DurablePromise}

/-- A promise that leaves pending unasked has expired, at or after its deadline. -/
theorem late_of_settled (hc : Coherent s) (hop : op.Typed) (hno : ¬ op.AsksFor a)
    (hq : (s.deliver op).promises.lookup a = some q) (hst : q.state ≠ .pending) :
    s.isSettled a = true ∨ q.Expired ∧ q.timeoutAt ≤ op.now := by
  have hinv := (exec_moves hc.cleared hop).invariant
    (I := fun s' => ∀ q, s'.promises.lookup a = some q → q.state ≠ .pending →
      s.isSettled a = true ∨ q.Expired ∧ q.timeoutAt ≤ op.now) (hc.cleared.start op) ?_ ?_
  · exact hinv.2 q hq hst
  · intro s₁ m s₂ hc₁ hlabel hm hI q hq hst
    cases hp : s₁.promises.lookup a with
    | none =>
      rcases m.promise_of_none hc₁ hm hp hq with ⟨r, act, -, -, rfl, -⟩ | ⟨r, -, rfl, ht⟩
      · exact absurd rfl hst
      · exact Or.inr ⟨⟨rfl, rfl, rfl⟩, ht⟩
    | some p =>
      obtain ⟨q', hq', hk, hcase⟩ := m.promise_of_some hc₁ hm hp
      obtain rfl := Option.some.inj (hq'.symm.trans hq)
      rcases hcase with hs | ⟨hx, hdue, -⟩ | ⟨-, -, state, value, rfl, -⟩
      · rw [hs] at hst
        refine (hI p hp hst).imp_right fun h => ⟨h.1.of_kept hk, ?_⟩
        rw [hk.timeoutAt]
        exact h.2
      · obtain ⟨p', hp', -, ht⟩ := ServerState.isDue_iff.mp hdue
        obtain rfl := Option.some.inj (hp.symm.trans hp')
        exact Or.inr ⟨hx, by rw [hk.timeoutAt]; exact ht⟩
      · cases op with
        | tick now => exact hlabel.elim
        | apply now req =>
          obtain ⟨r, hr, -, -, hid⟩ := hlabel
          exact absurd ⟨r, hr, hid⟩ hno
  · have hsame : (op.start { s with outgoing := [] }).promises = s.promises := by cases op <;> rfl
    intro q hq hst
    rw [hsame] at hq
    exact Or.inl (ServerState.isSettled_iff.mpr ⟨q, hq, hst⟩)

theorem Moves.settled {P : Move → Prop} (h : Moves now P s₁ s₂) (hc : Coherent s₁)
    (hs : s₁.isSettled a = true) : s₂.isSettled a = true := by
  refine (h.invariant (I := fun s' => s'.isSettled a = true) hc (fun s₁ m s₂ hc₁ _ hm hI => ?_) hs).2
  obtain ⟨p, hp, hst⟩ := ServerState.isSettled_iff.mp hI
  obtain ⟨q, hq, hk, -⟩ := m.promise_of_some hc₁ hm hp
  exact ServerState.isSettled_iff.mpr ⟨q, hq, by rwa [(hk.outcome hst).1]⟩

theorem tick_settles (hc : Coherent s) (hp : s.promises.lookup a = some p)
    (htarget : p.targeted = true) (ht : p.timeoutAt ≤ now) : (s.tick now).isSettled a = true := by
  by_cases hst : p.state = .pending
  · have hdue : a ∈ s.duePromises now := hc.mem_duePromises.mpr ⟨p, hp, hst, ht, htarget⟩
    refine tickTasks_moves.settled ((tickPromises_moves hc).coherent hc) ?_
    have hbulk : Settles now ServerState.expireRecord (s.duePromises now) s
        (s.tickPromises now) := hc.settles_bulk
    have hpr := hbulk.promise a
    rw [hp, Option.map_some, if_pos hdue] at hpr
    exact ServerState.isSettled_iff.mpr ⟨_, hpr, ServerState.timeoutState_ne_pending _⟩
  · exact (tick_moves hc).settled hc (ServerState.isSettled_iff.mpr ⟨p, hp, hst⟩)

theorem Coherent.own_fulfilled (hc : Coherent s) (hp : s.promises.lookup a = some p)
    (htarget : p.targeted = true) (hst : p.state ≠ .pending) : s.taskIs a .fulfilled := by
  obtain ⟨t, ht⟩ := (hc.cell a).targeted p hp htarget
  exact ⟨t, ht, ((hc.cell a).fulfilled_iff p hp t ht).mpr hst⟩

theorem ServerState.SuspendedOn.parkedOn (h : s.SuspendedOn b a) (ha : s.isPending a = true) :
    ∃ v, ParkedOn ⟨{ s with outgoing := [] }, ∅⟩ b v [a] := by
  obtain ⟨⟨v, hv⟩, p, hp, hb⟩ := h
  obtain ⟨p', hp', hst⟩ := ServerState.isPending_iff.mp ha
  obtain rfl := Option.some.inj (hp.symm.trans hp')
  refine ⟨v, parkedOn_iff.mpr ⟨hv, fun c hc => ?_⟩⟩
  rw [List.mem_singleton.mp hc]
  exact ⟨p, hp, hst, hb⟩

theorem Op.Typed.terminal (h : op.Typed) : op.Terminal := by
  cases op with
  | tick now => trivial
  | apply now req => exact h.1

/-- The step that settles a promise makes the tasks suspended on it pending, unless it
settles their own promises. -/
theorem deliver_wakes (hc : Coherent s) (hop : op.Typed) (h : s.SuspendedOn b a)
    (ha : s.isPending a = true) (hset : (s.deliver op).isSettled a = true)
    (hown : (s.deliver op).isSettled b = false) : (s.deliver op).taskIs b .pending := by
  obtain ⟨v, hpark⟩ := h.parkedOn ha
  cases fate_exec hc.cleared.awaiters.wf hop.terminal hpark with
  | parked hp =>
    obtain ⟨q, hq, hqs, -⟩ := (parkedOn_iff.mp hp).2 a (List.mem_singleton_self a)
    have hpend : (s.deliver op).isPending a = true := ServerState.isPending_iff.mpr ⟨q, hq, hqs⟩
    rw [ServerState.not_isPending_of_isSettled hset] at hpend
    cases hpend
  | woken t ht hst hv => exact ⟨t, ht, hst⟩
  | fulfilled t ht hst hnow hwas =>
    have hsettled : (s.deliver op).isSettled b = true := hnow
    rw [hown] at hsettled
    cases hsettled

theorem deliver_suspendedOn (hc : Coherent s) (hop : op.Typed) (h : s.SuspendedOn b a)
    (ha : s.isPending a = true) : (s.deliver op).SuspendedOn b a ∨
      ∀ v, ¬ (s.deliver op).SuspendedAt b v := by
  obtain ⟨v, hpark⟩ := h.parkedOn ha
  have hother : ∀ (t : Task) (st : TaskState), (s.deliver op).tasks.lookup b = some t →
      t.state = st → st ≠ .suspended → ∀ v, ¬ (s.deliver op).SuspendedAt b v := by
    rintro t st ht rfl hne v ⟨u, hu, hus, -⟩
    obtain rfl := Option.some.inj (ht.symm.trans hu)
    exact hne hus
  cases fate_exec hc.cleared.awaiters.wf hop.terminal hpark with
  | parked hp =>
    obtain ⟨q, hq, -, hb⟩ := (parkedOn_iff.mp hp).2 a (List.mem_singleton_self a)
    exact Or.inl ⟨⟨v, hp.task⟩, q, hq, hb⟩
  | woken t ht hst hv => exact Or.inr (hother t _ ht hst (by decide))
  | fulfilled t ht hst hnow hwas => exact Or.inr (hother t _ ht hst (by decide))

theorem suspendedOn_of_deliver (hop : op.Typed) (hno : ∀ v, ¬ s.SuspendedAt b v) {v : Int}
    (h : (s.deliver op).SuspendedAt b v) : ∃ now req, op = .apply now req ∧ Suspends req b ∧
      ∀ a ∈ callbacksOf req, (s.promises.lookup a).isSome = true → (s.deliver op).SuspendedOn b a := by
  have hsus := op_suspends (s := { s with outgoing := [] }) hop.terminal (hno v) h
  cases op with
  | tick now => exact hsus.elim
  | apply now req =>
    refine ⟨now, req, rfl, hsus, fun a ha hex => ?_⟩
    obtain ⟨hk, hid⟩ := hsus
    have he : (s.apply now req).1 =
        ((s.prepared now req).taskSuspend ((req.get "corrId").getD .null) req).1 := by
      rw [ServerState.apply_eq_dispatch hk]
      rfl
    rw [deliver_apply, he] at h ⊢
    obtain ⟨p, hp, -, hb⟩ := taskSuspend_parks_on hid (prepared_not_suspendedAt (hno v)) h ha
      (prepared_promise hex)
    exact ⟨⟨v, h⟩, p, hp, hb⟩

end Resonate.Network
