import Resonate.Network.Moves
import Resonate.Network.WriteOnce

/-!
# A deadline dominates every settlement

What one operation can make of a promise: it stays as it is, it is created, it expires,
or a request settles it before its deadline. Over a run whose times never decrease this
fixes the time of settlement of every promise.
-/

namespace Resonate.Network
open Lib

structure DurablePromise.Expired (p : DurablePromise) : Prop where
  settledAt : p.settledAt = some p.timeoutAt
  value : p.value = .null
  state : p.state = ServerState.timeoutState p.tags

/-- The operation expires the promise: on creation, on access or by a tick. -/
def Op.Expires (s : ServerState) (a : String) : Op → Prop
  | apply now req =>
    (∃ r, createRequest req = some r ∧ strField r "id" = some a ∧
      s.promises.lookup a = none ∧ timeoutAtOf r ≤ now) ∨
    a ∈ namedPromises (ReqKind.ofName (kindOf req)) req ∧ s.isDue now a = true
  | tick now => a ∈ s.duePromises now

/-- The request asks to settle the promise as `r` says, while it is pending and not due. -/
structure Requests (s : ServerState) (now : Int) (req : Json) (a : String) (r : Json) : Prop where
  settle : settleRequest req = some r
  id : a = (strField r "id").getD ((strField req "id").getD "")
  pending : s.isPending a = true
  not_due : s.isDue now a = false

/-- What an operation makes of the promise under `a`. -/
inductive Becomes (s : ServerState) (op : Op) (a : String) (q : DurablePromise) : Prop where
  | kept (p : DurablePromise) (hp : s.promises.lookup a = some p) (hk : p.Kept q)
    (hs : q.state = p.state)
  | created (hn : s.promises.lookup a = none) (hq : q.state = .pending) (hc : q.createdAt = op.now)
    (ht : op.now < q.timeoutAt) (hr : ∃ now req r, op = .apply now req ∧ createRequest req = some r)
  | expired (hp : s.isSettled a = false) (hx : op.Expires s a) (hq : q.Expired)
    (hc : q.createdAt = q.timeoutAt ∨ ∃ p, s.promises.lookup a = some p ∧ p.Kept q)
  | requested (now : Int) (req r : Json) (hop : op = .apply now req) (hr : Requests s now req a r)
    (hq : q.state ≠ .pending ∧ q.settledAt = some now ∧ q.state = settleStateOf r ∧
      q.value = valueOf r)
    (hp : ∃ p, s.promises.lookup a = some p ∧ p.Kept q ∧ now < p.timeoutAt)

section Step

variable {now : Int} {s s₁ s₂ : ServerState} {op : Op} {a : String} {m : Move}
variable {p q q' : DurablePromise}

theorem DurablePromise.Expired.ne_pending (h : q.Expired) : q.state ≠ .pending := by
  rw [h.state]
  exact ServerState.timeoutState_ne_pending _

theorem DurablePromise.Expired.of_kept (h : q.Expired) (hk : q.Kept q') : q'.Expired := by
  obtain ⟨hs, hv, ht⟩ := hk.outcome h.ne_pending
  exact ⟨by rw [ht, hk.timeoutAt, h.settledAt], hv.trans h.value, by rw [hs, hk.tags, h.state]⟩

theorem Move.promise_of_some (hc : Coherent s₁) (hm : m.Step now s₁ s₂)
    (hp : s₁.promises.lookup a = some p) : ∃ q, s₂.promises.lookup a = some q ∧ p.Kept q ∧
      (q.state = p.state ∨
        (q.Expired ∧ s₁.isDue now a = true ∧ ∃ ids, m = .expire ids ∧ a ∈ ids) ∨
        (s₁.isPending a = true ∧ s₁.isDue now a = false ∧ ∃ state value, m = .settle a state value ∧
          state ≠ .pending ∧ q.settledAt = some now ∧ q.state = state ∧ q.value = value)) := by
  have hok := (hc.cell a).promise p hp
  cases m with
  | plain act =>
    obtain ⟨hplain, hg, rfl⟩ := hm
    rw [ServerState.perform_promises]
    obtain ⟨q, hq, hkept, hw⟩ := kept_after hg hp
    refine ⟨q, hq, hkept, Or.inl ?_⟩
    by_cases hst : p.state = .pending
    · by_contra hne
      rcases hw hst (fun h => hne (h.trans hst.symm)) with rfl | rfl | ⟨_, _, rfl⟩ <;> exact hplain
    · exact (hkept.outcome hst).1
  | settle id state value =>
    obtain ⟨hpend, hdue, hst, rfl⟩ := hm
    have hpr := (hc.settles_at now hst value hpend).promise a
    rw [hp, Option.map_some] at hpr
    refine ⟨_, hpr, ?_, ?_⟩
    · split_ifs with ha
      · obtain rfl := List.mem_singleton.mp ha
        obtain ⟨p', hp', hst'⟩ := ServerState.isPending_iff.mp hpend
        obtain rfl := Option.some.inj (hp.symm.trans hp')
        exact .of_pending hst' rfl rfl rfl rfl rfl
      · exact ⟨rfl, rfl, rfl, rfl, rfl, fun _ => ⟨rfl, rfl, rfl⟩⟩
    · split_ifs with ha
      · obtain rfl := List.mem_singleton.mp ha
        exact Or.inr (Or.inr ⟨hpend, hdue, state, value, rfl, hst, rfl, rfl, rfl⟩)
      · exact Or.inl rfl
  | expire ids =>
    obtain ⟨-, hdue, hs⟩ := hm
    have hpr := hs.promise a
    rw [hp, Option.map_some] at hpr
    refine ⟨_, hpr, ?_, ?_⟩
    · split_ifs with ha
      · obtain ⟨p', hp', hst, -⟩ := ServerState.isDue_iff.mp (hdue a ha)
        obtain rfl := Option.some.inj (hp.symm.trans hp')
        exact .of_pending hst rfl rfl rfl rfl rfl
      · exact ⟨rfl, rfl, rfl, rfl, rfl, fun _ => ⟨rfl, rfl, rfl⟩⟩
    · split_ifs with ha
      · obtain ⟨p', hp', hst, -⟩ := ServerState.isDue_iff.mp (hdue a ha)
        obtain rfl := Option.some.inj (hp.symm.trans hp')
        exact Or.inr (Or.inl ⟨⟨rfl, (hok.pending hst).1, rfl⟩, hdue a ha, ids, rfl, ha⟩)
      · exact Or.inl rfl
  | expireNew id req =>
    obtain ⟨-, hn, -, hs⟩ := hm
    have hpr := (hc.expireNew hn hs).1 a
    have hne : a ≠ id := by
      intro h
      rw [h, hn] at hp
      cases hp
    rw [if_neg hne, hp] at hpr
    exact ⟨p, hpr, .refl p, Or.inl rfl⟩

theorem Move.promise_of_none (hc : Coherent s₁) (hm : m.Step now s₁ s₂)
    (hn : s₁.promises.lookup a = none) (hq : s₂.promises.lookup a = some q) :
    (∃ r act, m = .plain act ∧ (act = .addPending a r ∨ ∃ pid ttl, act = .addAcquired a r pid ttl) ∧
      q = pendingPromise a r now ∧ now < timeoutAtOf r) ∨
      ∃ r, (m = .plain (.addFulfilled a r) ∨ m = .expireNew a r) ∧ q = expiredPromise a r ∧
        timeoutAtOf r ≤ now := by
  cases m with
  | plain act =>
    obtain ⟨hplain, hg, rfl⟩ := hm
    rw [ServerState.perform_promises] at hq
    cases act with
    | addPending id req =>
      simp only [ServerState.promiseAfter, hn] at hq
      split_ifs at hq with ha
      subst ha
      exact Or.inl ⟨req, _, rfl, Or.inl rfl, (Option.some.inj hq).symm, hg.2.2⟩
    | addAcquired id req pid ttl =>
      simp only [ServerState.promiseAfter, hn] at hq
      split_ifs at hq with ha
      subst ha
      exact Or.inl ⟨req, _, rfl, Or.inr ⟨pid, ttl, rfl⟩, (Option.some.inj hq).symm, hg.2.2.2⟩
    | addFulfilled id req =>
      simp only [ServerState.promiseAfter, hn] at hq
      split_ifs at hq with ha
      subst ha
      exact Or.inr ⟨req, Or.inl rfl, (Option.some.inj hq).symm, hg.2.2.2⟩
    | addExpired id req => exact hplain.elim
    | _ => simp [ServerState.promiseAfter, hn] at hq
  | settle id state value =>
    obtain ⟨hpend, -, hst, rfl⟩ := hm
    rw [(hc.settles_at now hst value hpend).promise a, hn] at hq
    cases hq
  | expire ids =>
    obtain ⟨-, -, hs⟩ := hm
    rw [hs.promise a, hn] at hq
    cases hq
  | expireNew id req =>
    obtain ⟨-, hn', ht, hs⟩ := hm
    rw [(hc.expireNew hn' hs).1 a, hn] at hq
    split_ifs at hq with ha
    subst ha
    exact Or.inr ⟨req, Or.inr rfl, (Option.some.inj hq).symm, ht⟩

theorem Becomes.of_kept (h : Becomes s op a q) (hk : q.Kept q') (hs : q'.state = q.state) :
    Becomes s op a q' := by
  cases h with
  | kept p hp hk' hs' => exact .kept p hp (hk'.trans hk) (hs.trans hs')
  | created hn hq hc ht hr =>
    exact .created hn (hs.trans hq) (hk.createdAt.trans hc) (by rwa [hk.timeoutAt]) hr
  | expired hp hx hq hc =>
    refine .expired hp hx (hq.of_kept hk) (hc.imp (fun hc => ?_) fun hc => ?_)
    · rw [hk.createdAt, hk.timeoutAt, hc]
    · obtain ⟨p, hp, hk'⟩ := hc
      exact ⟨p, hp, hk'.trans hk⟩
  | requested now req r hop hr hq hp =>
    obtain ⟨p, hp, hk', ht⟩ := hp
    obtain ⟨hst, hv, hsa⟩ := hk.outcome hq.1
    exact .requested now req r hop hr ⟨by rw [hst]; exact hq.1, hsa.trans hq.2.1, hst.trans hq.2.2.1,
      hv.trans hq.2.2.2⟩ ⟨p, hp, hk'.trans hk, ht⟩

theorem not_isSettled_of_pending (hp : s.promises.lookup a = some p) (hst : p.state = .pending) :
    s.isSettled a = false := by
  simp [ServerState.isSettled, hp, hst]

theorem createRequest_settleRequest {req r r' : Json} (h : createRequest req = some r)
    (h' : settleRequest req = some r') : False := by
  unfold createRequest settleRequest at *
  split at h
  · simp_all
  · simp_all
  · simp_all
  · cases h

theorem Becomes.expire (h : Becomes s op a p) (hst : p.state = .pending)
    (hk : p.Kept q) (hx : q.Expired) (ht : p.timeoutAt ≤ op.now) {ids : List String}
    (hm : op.Moves s (.expire ids)) (ha : a ∈ ids) : Becomes s op a q := by
  cases h with
  | kept p₀ hp₀ hk₀ hs₀ =>
    have hst₀ : p₀.state = .pending := hs₀.symm.trans hst
    refine .expired (not_isSettled_of_pending hp₀ hst₀) ?_ hx (Or.inr ⟨p₀, hp₀, hk₀.trans hk⟩)
    cases op with
    | apply now req =>
      refine Or.inr ⟨hm a ha, ServerState.isDue_iff.mpr ⟨p₀, hp₀, hst₀, ?_⟩⟩
      rw [← hk₀.timeoutAt]
      exact ht
    | tick now =>
      obtain rfl : ids = s.duePromises now := hm
      exact ha
  | created hn hq hcr htr hr => exact absurd ht (not_le.mpr htr)
  | expired hp hx' hq hcr => exact absurd hst hq.ne_pending
  | requested now req r hop hr hq hp => exact absurd hst hq.1

theorem Becomes.settle (h : Becomes s op a p) (hst : p.state = .pending) (hk : p.Kept q)
    (ht : op.now < p.timeoutAt) {state : PromiseState} {value : Json} (hne : state ≠ .pending)
    (hm : op.Moves s (.settle a state value)) (hq : q.settledAt = some op.now ∧ q.state = state ∧
      q.value = value) : Becomes s op a q := by
  cases op with
  | tick now => exact hm.elim
  | apply now req =>
    obtain ⟨r, hr, rfl, rfl, hid⟩ := hm
    cases h with
    | kept p₀ hp₀ hk₀ hs₀ =>
      have hst₀ : p₀.state = .pending := hs₀.symm.trans hst
      have ht₀ : now < p₀.timeoutAt := by
        rw [← hk₀.timeoutAt]
        exact ht
      refine .requested now req r rfl ⟨hr, hid, ServerState.isPending_iff.mpr ⟨p₀, hp₀, hst₀⟩, ?_⟩
        ⟨by rwa [hq.2.1], hq⟩ ⟨p₀, hp₀, hk₀.trans hk, ht₀⟩
      simp [ServerState.isDue, hp₀, hst₀, ht₀]
    | created hn hq' hcr htr hr' =>
      obtain ⟨_, _, r', heq, hr'⟩ := hr'
      cases heq
      exact (createRequest_settleRequest hr' hr).elim
    | expired hp hx' hq' hcr => exact absurd hst hq'.ne_pending
    | requested now req r hop hr hq' hp => exact absurd hst hq'.1

theorem Becomes.create (hc : Coherent s₁) (hm : m.Step op.now s₁ s₂) (hlabel : op.Moves s m)
    (hn₁ : s₁.promises.lookup a = none) (hn : s.promises.lookup a = none)
    (hq : s₂.promises.lookup a = some q) : Becomes s op a q := by
  rcases m.promise_of_none hc hm hn₁ hq with ⟨r, act, rfl, hact, rfl, ht⟩ | ⟨r, hnew, rfl, ht⟩
  · refine .created hn rfl rfl ht ?_
    cases op with
    | tick now => rcases hact with rfl | ⟨pid, ttl, rfl⟩ <;> exact hlabel.elim
    | apply now req =>
      refine ⟨now, req, r, rfl, ?_⟩
      rcases hact with rfl | ⟨pid, ttl, rfl⟩ <;> exact hlabel.1.1
  · have hno : s.isSettled a = false := by simp [ServerState.isSettled, hn]
    refine .expired hno ?_ ⟨rfl, rfl, rfl⟩ (Or.inl rfl)
    cases op with
    | tick now => rcases hnew with rfl | rfl <;> exact hlabel.elim
    | apply now req =>
      refine Or.inl ⟨r, ?_, ?_, hn, ht⟩
      · rcases hnew with rfl | rfl
        · exact hlabel.1.1
        · exact hlabel.1
      · rcases hnew with rfl | rfl
        · exact hlabel.1.2
        · exact hlabel.2

def Follows (s : ServerState) (op : Op) (a : String) (s₁ : ServerState) : Prop :=
  (s₁.promises.lookup a = none → s.promises.lookup a = none) ∧
    ∀ q, s₁.promises.lookup a = some q → Becomes s op a q

theorem Follows.start (hs : s₁.promises = s.promises) : Follows s op a s₁ := by
  rw [Follows, hs]
  exact ⟨id, fun p hp => .kept p hp (.refl p) rfl⟩

theorem Follows.step (h : Follows s op a s₁) (hc : Coherent s₁) (hlabel : op.Moves s m)
    (hm : m.Step op.now s₁ s₂) : Follows s op a s₂ := by
  obtain ⟨hnone, hsome⟩ := h
  cases hp : s₁.promises.lookup a with
  | none =>
    exact ⟨fun _ => hnone hp, fun q hq => .create hc hm hlabel hp (hnone hp) hq⟩
  | some p =>
    obtain ⟨q', hq', hk, hcase⟩ := m.promise_of_some hc hm hp
    refine ⟨fun hn => by simp [hq'] at hn, fun q hq => ?_⟩
    obtain rfl := Option.some.inj (hq'.symm.trans hq)
    rcases hcase with hs | ⟨hx, hdue, ids, rfl, ha⟩ | ⟨hpend, hdue, state, value, rfl, hne, hq⟩
    · exact (hsome p hp).of_kept hk hs
    · obtain ⟨p', hp', hst, ht⟩ := ServerState.isDue_iff.mp hdue
      obtain rfl := Option.some.inj (hp.symm.trans hp')
      exact (hsome p hp).expire hst hk hx ht hlabel ha
    · obtain ⟨p', hp', hst⟩ := ServerState.isPending_iff.mp hpend
      obtain rfl := Option.some.inj (hp.symm.trans hp')
      refine (hsome p hp).settle hst hk ?_ hne hlabel hq
      by_contra hle
      rw [ServerState.isDue_iff.mpr ⟨p, hp, hst, not_lt.mp hle⟩] at hdue
      cases hdue

/-- Every promise after an operation of the SDK. -/
theorem becomes_exec (hc : Coherent s) (hop : op.Typed)
    (hq : (s.exec op).promises.lookup a = some q) : Becomes s op a q := by
  have hinv := (exec_moves hc hop).invariant (I := Follows s op a) (hc.start op)
    (fun _ _ _ hc₁ hlabel hm h => h.step hc₁ hlabel hm) (.start (by cases op <;> rfl))
  exact hinv.2.2 q hq

end Step

section Runs

variable {ops : List Op} {a : String} {p : DurablePromise}

/-- The operation after `pre` takes the promise out of pending, or creates it settled. -/
def SettledBy (pre : List Op) (op : Op) (a : String) : Prop :=
  (ServerState.init.run pre).isSettled a = false ∧
    (ServerState.init.run (pre ++ [op])).isSettled a = true

def ExpiredIn (ops : List Op) (a : String) : Prop :=
  ∃ pre op post, ops = pre ++ op :: post ∧ SettledBy pre op a ∧
    op.Expires (ServerState.init.run pre) a

def RequestedIn (ops : List Op) (a : String) (now : Int) (r : Json) : Prop :=
  ∃ pre req post, ops = pre ++ .apply now req :: post ∧ SettledBy pre (.apply now req) a ∧
    Requests (ServerState.init.run pre) now req a r

structure DurablePromise.Timely (p : DurablePromise) (now : Int) : Prop where
  created : p.state = .pending → p.createdAt ≤ now ∧ p.createdAt ≤ p.timeoutAt
  settled : p.state ≠ .pending → ∃ t, p.settledAt = some t ∧ p.createdAt ≤ t ∧ t ≤ p.timeoutAt

theorem pending_of_not_isSettled {s : ServerState} (hp : s.promises.lookup a = some p)
    (h : s.isSettled a = false) : p.state = .pending := by
  simpa [ServerState.isSettled, hp] using h

theorem timely_exec {s : ServerState} (hc : Coherent s) {op : Op} (hop : op.Typed) {now : Int}
    (hs : ∀ p, s.promises.lookup a = some p → p.Timely now) (hnow : now ≤ op.now)
    (hp : (s.exec op).promises.lookup a = some p) : p.Timely op.now := by
  have hb := becomes_exec hc hop hp
  clear hp
  cases hb with
  | kept p₀ hp₀ hk hst =>
    refine ⟨fun h => ?_, fun h => ?_⟩
    · obtain ⟨hle, hle'⟩ := (hs p₀ hp₀).created (hst.symm.trans h)
      rw [hk.createdAt, hk.timeoutAt]
      exact ⟨hle.trans hnow, hle'⟩
    · have h₀ : p₀.state ≠ .pending := by rwa [← hst]
      obtain ⟨t, ht, hle⟩ := (hs p₀ hp₀).settled h₀
      refine ⟨t, (hk.outcome h₀).2.2.trans ht, ?_⟩
      rw [hk.createdAt, hk.timeoutAt]
      exact hle
  | created hn hq hcr ht hr =>
    exact ⟨fun _ => ⟨hcr.le, by rw [hcr]; exact ht.le⟩, fun h => absurd hq h⟩
  | expired hno hx hq hcr =>
    refine ⟨fun h => absurd h hq.ne_pending, fun _ => ⟨p.timeoutAt, hq.settledAt, ?_, le_rfl⟩⟩
    rcases hcr with hcr | ⟨p₀, hp₀, hk⟩
    · exact hcr.le
    · rw [hk.createdAt, hk.timeoutAt]
      exact ((hs p₀ hp₀).created (pending_of_not_isSettled hp₀ hno)).2
  | requested t req r hop' hr hq hp =>
    subst hop'
    obtain ⟨p₀, hp₀, hk, ht⟩ := hp
    obtain ⟨p', hp', hst⟩ := ServerState.isPending_iff.mp hr.pending
    obtain rfl := Option.some.inj (hp₀.symm.trans hp')
    refine ⟨fun h => absurd h hq.1, fun _ => ⟨t, hq.2.1, ?_, ?_⟩⟩
    · rw [hk.createdAt]
      exact ((hs p₀ hp₀).created hst).1.trans hnow
    · rw [hk.timeoutAt]
      exact ht.le

theorem run_append_one (ops : List Op) (op : Op) :
    ServerState.init.run (ops ++ [op]) = (ServerState.init.run ops).exec op :=
  Machine.run_append ..

theorem DurablePromise.Timely.mono {t t' : Int} (h : p.Timely t) (hle : t ≤ t') : p.Timely t' :=
  ⟨fun hp => ⟨(h.created hp).1.trans hle, (h.created hp).2⟩, h.settled⟩

theorem timely_run (ops : List Op) (ht : ∀ op ∈ ops, op.Typed)
    (hm : (ops.map Op.now).Pairwise (· ≤ ·)) {last : Int} (hlast : ∀ op ∈ ops, op.now ≤ last)
    (hp : (ServerState.init.run ops).promises.lookup a = some p) : p.Timely last := by
  induction ops using List.reverseRecOn generalizing a p last with
  | nil => cases hp
  | append_singleton ops op ih =>
    rw [List.map_append, List.pairwise_append] at hm
    obtain ⟨hm, -, hle⟩ := hm
    have htyped : ∀ o ∈ ops, o.Typed := fun o ho => ht o (by simp [ho])
    have hbound : ∀ o ∈ ops, o.now ≤ op.now := fun o ho =>
      hle o.now (List.mem_map_of_mem ho) op.now (by simp)
    rw [run_append_one] at hp
    have hexec : p.Timely op.now := timely_exec (Coherent.run htyped) (ht op (by simp))
      (fun q hq => ih htyped hm hbound hq) le_rfl hp
    exact hexec.mono (hlast op (by simp))

theorem settled_by (ops : List Op) (ht : ∀ op ∈ ops, op.Typed)
    (hp : (ServerState.init.run ops).promises.lookup a = some p) (hst : p.state ≠ .pending) :
    ∃ pre op post, ops = pre ++ op :: post ∧ SettledBy pre op a ∧
      Becomes (ServerState.init.run pre) op a p := by
  induction ops using List.reverseRecOn generalizing p with
  | nil => cases hp
  | append_singleton ops op ih =>
    have htyped : ∀ o ∈ ops, o.Typed := fun o ho => ht o (by simp [ho])
    have hp' := hp
    rw [run_append_one] at hp'
    have hb := becomes_exec (Coherent.run htyped) (ht op (by simp)) hp'
    by_cases hno : (ServerState.init.run ops).isSettled a = false
    · exact ⟨ops, op, [], rfl, ⟨hno, ServerState.isSettled_iff.mpr ⟨p, hp, hst⟩⟩, hb⟩
    · obtain ⟨p₀, hp₀, hst₀⟩ := ServerState.isSettled_iff.mp (by simpa using hno)
      obtain ⟨pre, o, post, hops, hby, hb₀⟩ := ih htyped hp₀ hst₀
      obtain ⟨q, hq, hk, -⟩ := exec_kept (TimeoutsTrue.run ops) op hp₀
      obtain rfl := Option.some.inj (hq.symm.trans hp')
      exact ⟨pre, o, post ++ [op], by simp [hops], hby, hb₀.of_kept hk (hk.outcome hst₀).1⟩

/-- What becomes of a promise in the operation that settles it is its final outcome. -/
theorem becomes_of_settledBy {ops pre post : List Op} {op : Op} (ht : ∀ op ∈ ops, op.Typed)
    (hp : (ServerState.init.run ops).promises.lookup a = some p) (hops : ops = pre ++ op :: post)
    (hby : SettledBy pre op a) :
    Becomes (ServerState.init.run pre) op a p ∧ p.state ≠ .pending := by
  subst hops
  obtain ⟨q, hq, hst⟩ := ServerState.isSettled_iff.mp hby.2
  obtain ⟨p', hp', hk⟩ := kept_run (pre ++ [op]) post hq
  rw [List.append_assoc, List.singleton_append] at hp'
  obtain rfl := Option.some.inj (hp.symm.trans hp')
  obtain ⟨hs, -, -⟩ := hk.outcome hst
  rw [run_append_one] at hq
  have hpre : ∀ o ∈ pre, o.Typed := fun o ho => ht o (by simp [ho])
  exact ⟨(becomes_exec (Coherent.run hpre) (ht op (by simp)) hq).of_kept hk hs, by rwa [hs]⟩

theorem Becomes.settles {s : ServerState} {op : Op} (h : Becomes s op a p)
    (hno : s.isSettled a = false) (hst : p.state ≠ .pending) :
    op.Expires s a ∧ p.Expired ∨ ∃ now req r, op = .apply now req ∧ Requests s now req a r ∧
      p.settledAt = some now ∧ p.state = settleStateOf r ∧ p.value = valueOf r ∧
      now < p.timeoutAt := by
  cases h with
  | kept p₀ hp₀ hk hs =>
    exact absurd (hs.trans (pending_of_not_isSettled hp₀ hno)) hst
  | created hn hq hcr ht hr => exact absurd hq hst
  | expired hp hx hq hcr => exact Or.inl ⟨hx, hq⟩
  | requested now req r hop hr hq hp =>
    obtain ⟨p₀, -, hk, ht⟩ := hp
    exact Or.inr ⟨now, req, r, hop, hr, hq.2.1, hq.2.2.1, hq.2.2.2, by rwa [hk.timeoutAt]⟩

theorem Requests.not_expires {s : ServerState} {now : Int} {req r : Json}
    (h : Requests s now req a r) : ¬ (Op.apply now req).Expires s a := by
  intro hx
  rcases hx with ⟨r', -, -, hn, -⟩ | ⟨-, hdue⟩
  · obtain ⟨p, hp, -⟩ := ServerState.isPending_iff.mp h.pending
    simp [hn] at hp
  · simp [h.not_due] at hdue

/-- A deadline dominates every settlement. -/
theorem deadline_dominates (ops : List Op) (ht : ∀ op ∈ ops, op.Typed)
    (hm : (ops.map Op.now).Pairwise (· ≤ ·)) (a : String) (p : DurablePromise)
    (hp : (ServerState.init.run ops).promises.lookup a = some p) :
    (p.state = .pending → p.value = .null ∧ p.settledAt = none) ∧
      (p.state ≠ .pending → ∃ t, p.settledAt = some t ∧ p.createdAt ≤ t ∧ t ≤ p.timeoutAt ∧
        (t = p.timeoutAt ↔ ExpiredIn ops a) ∧
        (t = p.timeoutAt → p.value = .null ∧
          p.state = if p.tags.lookup "resonate:timer" = some "true" then .resolved
            else .rejectedTimedout) ∧
        (t < p.timeoutAt ↔ ∃ r, RequestedIn ops a t r ∧ p.state = settleStateOf r ∧
          p.value = valueOf r)) ∧
      ∀ pre op post, ops = pre ++ op :: post → SettledBy pre op a → p.timeoutAt ≤ op.now →
        p.settledAt = some p.timeoutAt ∧ p.value = .null := by
  have hby := fun pre op post (hops : ops = pre ++ op :: post) (hby : SettledBy pre op a) =>
    let h := becomes_of_settledBy ht hp hops hby
    h.1.settles hby.1 h.2
  refine ⟨fun hst => (((Coherent.run ht).cell a).promise p hp).pending hst, fun hst => ?_,
    fun pre op post hops hset hlate => ?_⟩
  · obtain ⟨last, hlast⟩ := (ops.map Op.now).toFinset.exists_le
    have hbound : ∀ op ∈ ops, op.now ≤ last := fun op hop =>
      hlast op.now (List.mem_toFinset.mpr (List.mem_map_of_mem hop))
    obtain ⟨t, hsa, hcr, hle⟩ := (timely_run ops ht hm hbound hp).settled hst
    obtain ⟨pre, op, post, hops, hset, -⟩ := settled_by ops ht hp hst
    have hcases := hby pre op post hops hset
    refine ⟨t, hsa, hcr, hle, ⟨fun heq => ?_, fun hx => ?_⟩, fun heq => ?_, fun hlt => ?_, fun hx => ?_⟩
    · rcases hcases with ⟨hx, -⟩ | ⟨now, req, r, rfl, -, hsa', -, -, hlt⟩
      · exact ⟨pre, op, post, hops, hset, hx⟩
      · rw [hsa] at hsa'
        cases hsa'
        omega
    · obtain ⟨pre', op', post', hops', hset', hx⟩ := hx
      rcases hby pre' op' post' hops' hset' with ⟨-, hq⟩ | ⟨now, req, r, rfl, hr, -⟩
      · exact Option.some.inj (hsa.symm.trans hq.settledAt)
      · exact (hr.not_expires hx).elim
    · rcases hcases with ⟨-, hq⟩ | ⟨now, req, r, -, -, hsa', -, -, hlt⟩
      · exact ⟨hq.value, hq.state⟩
      · rw [hsa] at hsa'
        cases hsa'
        omega
    · rcases hcases with ⟨-, hq⟩ | ⟨now, req, r, rfl, hr, hsa', hs, hv, -⟩
      · have heq := Option.some.inj (hsa.symm.trans hq.settledAt)
        omega
      · obtain rfl := Option.some.inj (hsa.symm.trans hsa')
        exact ⟨r, ⟨pre, req, post, hops, hset, hr⟩, hs, hv⟩
    · obtain ⟨r, ⟨pre', req', post', hops', hset', hr⟩, -⟩ := hx
      rcases hby pre' _ post' hops' hset' with ⟨hx, -⟩ | ⟨now, req, r', heq, -, hsa', -, -, hlt⟩
      · exact (hr.not_expires hx).elim
      · rw [hsa] at hsa'
        cases hsa'
        exact hlt
  · rcases hby pre op post hops hset with ⟨-, hq⟩ | ⟨now, req, r, rfl, -, -, -, -, hlt⟩
    · exact ⟨hq.settledAt, hq.value⟩
    · exact absurd hlate (not_le.mpr hlt)

/-- One promise is settled by `task.fulfill` before its deadline, the other expires. -/
theorem deadline_dominates_fulfilled :
    ExpiredIn (fulfilledRun ++ [Op.tick 200]) "a" ∧
      ∃ r, RequestedIn (fulfilledRun ++ [Op.tick 200]) "b" 2 r := by
  have ht : ∀ op ∈ fulfilledRun ++ [Op.tick 200], op.Typed := by
    intro op hop
    rcases List.mem_append.mp hop with hop | hop
    · exact fulfilledRun_typed op hop
    · rw [List.mem_singleton.mp hop]
      trivial
  have hm : ((fulfilledRun ++ [Op.tick 200]).map Op.now).Pairwise (· ≤ ·) := by decide
  obtain ⟨p, hp, hst, hsa⟩ : ∃ p, (ServerState.init.run (fulfilledRun ++ [Op.tick 200])).promises.lookup
      "a" = some p ∧ p.state ≠ .pending ∧ p.settledAt = some p.timeoutAt :=
    ⟨_, rfl, by decide, by decide⟩
  obtain ⟨q, hq, hqst, hqsa⟩ : ∃ q, (ServerState.init.run
    (fulfilledRun ++ [Op.tick 200])).promises.lookup
      "b" = some q ∧ q.state ≠ .pending ∧ q.settledAt = some 2 ∧ 2 < q.timeoutAt :=
    ⟨_, rfl, by decide, by decide, by decide⟩
  obtain ⟨t, hta, -, -, hx, -⟩ := (deadline_dominates _ ht hm "a" p hp).2.1 hst
  obtain ⟨t', htb, -, -, -, -, hr⟩ := (deadline_dominates _ ht hm "b" q hq).2.1 hqst
  obtain rfl := Option.some.inj (hqsa.1.symm.trans htb)
  obtain ⟨r, hr, -⟩ := hr.mp hqsa.2
  exact ⟨hx.mp (Option.some.inj (hta.symm.trans hsa)), r, hr⟩

end Runs

end Resonate.Network
