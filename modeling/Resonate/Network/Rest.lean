import Resonate.Network.Listeners

/-!
# Settlements and rest

The promises that leave Pending in a step, and what changes only with them: a promise is
due when it expires, and an acquired task at rest, that is without recorded resumes, stays
at rest.
-/

namespace Resonate.Network
open Lib

def ServerState.left (s s' : ServerState) : List String :=
  s.promises.keys.filter fun a => s.isPending a && !s'.isPending a

/-- The task has no recorded resumes while it is acquired. -/
def ServerState.Rested (s : ServerState) (id : String) : Prop :=
  ∀ t, s.tasks.lookup id = some t → t.state = .acquired → t.resumes = []

theorem ServerState.mem_left {s s' : ServerState} {a : String} :
    a ∈ s.left s' ↔ s.isPending a = true ∧ s'.isPending a = false := by
  simp only [ServerState.left, List.mem_filter, Bool.and_eq_true, Bool.not_eq_true',
    and_iff_right_iff_imp]
  intro h
  obtain ⟨p, hp, -⟩ := ServerState.isPending_iff.mp h.1
  exact AList.lookup_isSome.mp (by rw [hp]; rfl)

section Step

variable {now : Int} {s s₁ s₂ : ServerState} {op : Op} {a id : String} {m : Move}
variable {P : Move → Prop}

theorem isPending_of_left_nil (hleft : s.left s₁ = []) (h : s.isPending a = true) :
    s₁.isPending a = true := by
  by_contra hno
  have hmem : a ∈ s.left s₁ := ServerState.mem_left.mpr ⟨h, by simpa using hno⟩
  rw [hleft] at hmem
  cases hmem

theorem isPending_false_of_kept {p q : DurablePromise} (hp : s.promises.lookup a = some p)
    (hq : s₁.promises.lookup a = some q) (hk : p.Kept q) (h : s.isPending a = false) :
    s₁.isPending a = false := by
  have hst : p.state ≠ .pending := by simpa [ServerState.isPending, hp] using h
  simpa [ServerState.isPending, hq, (hk.outcome hst).1] using hst

theorem Follows.left (h : Follows s op a s₁) (hlabel : op.Moves s m) (hm : m.Step op.now s₁ s₂)
    (hc : Coherent s₁) (ha : a ∈ s₁.left s₂) : a ∈ s.left s₂ := by
  obtain ⟨hpend, hno⟩ := ServerState.mem_left.mp ha
  obtain ⟨p, hp, hst⟩ := ServerState.isPending_iff.mp hpend
  refine ServerState.mem_left.mpr ⟨?_, hno⟩
  have hb := h.2 p hp
  cases hb with
  | kept p₀ hp₀ hk hs => exact ServerState.isPending_iff.mpr ⟨p₀, hp₀, hs.symm.trans hst⟩
  | expired hset hx hq hcr => exact absurd hst hq.ne_pending
  | requested now req r hop hr hq hp' => exact absurd hst hq.1
  | created hn hq hcr ht hr =>
    obtain ⟨q, hq', hk, hcase⟩ := m.promise_of_some hc hm hp
    rcases hcase with hs | ⟨hx, hdue, -⟩ | ⟨-, -, state, value, rfl, -⟩
    · rw [ServerState.isPending_iff.mpr ⟨q, hq', hs.trans hst⟩] at hno
      cases hno
    · obtain ⟨p', hp', -, hle⟩ := ServerState.isDue_iff.mp hdue
      obtain rfl := Option.some.inj (hp.symm.trans hp')
      omega
    · obtain ⟨now, req, r, rfl, hr⟩ := hr
      obtain ⟨r', hr', -⟩ := hlabel
      exact (createRequest_settleRequest hr hr').elim

theorem ServerState.taskAfter_rested {act : Act} (hp : act.Plain) (h : s.Rested id) {t : Task}
    (ht : s.taskAfter id act = some t) (hst : t.state = .acquired) : t.resumes = [] := by
  have hsame : s.tasks.lookup id = some t → t.resumes = [] := fun h' => h t h' hst
  have hedit : ∀ b (f : Task → Task), (∀ u, (f u).state = .acquired → (f u).resumes = []) →
      (if id = b then (s.tasks.lookup id).map f else s.tasks.lookup id) = some t →
        t.resumes = [] := by
    intro b f hf h'
    split_ifs at h'
    · obtain ⟨u, -, rfl⟩ := Option.map_eq_some_iff.mp h'
      exact hf u hst
    · exact hsame h'
  cases act with
  | grant b pid ttl => exact hedit b (acquireTask pid ttl) (fun _ _ => rfl) ht
  | release b u => exact hedit b releaseTask (fun _ hu => by cases hu) ht
  | clearResumes b => exact hedit b (fun t => { t with resumes := [] }) (fun _ _ => rfl) ht
  | suspend b => exact hedit b Network.suspendTask (fun _ hu => by cases hu) ht
  | addPending b req =>
    simp only [ServerState.taskAfter] at ht
    split_ifs at ht
    · rw [← Option.some.inj ht]
    · exact hsame ht
  | addFulfilled b req =>
    simp only [ServerState.taskAfter] at ht
    split_ifs at ht
    · rw [← Option.some.inj ht]
      rfl
    · exact hsame ht
  | addAcquired b req pid ttl =>
    simp only [ServerState.taskAfter] at ht
    split_ifs at ht
    · rw [← Option.some.inj ht]
    · exact hsame ht
  | enqueue b | wake b | expire b | tickExpire b | settle b state value | addExpired b req =>
    exact hp.elim
  | _ => exact hsame ht

theorem Settles.rested {f : DurablePromise → DurablePromise} {l : List String}
    (h : Settles now f l s₁ s₂) (hf : Outcome f) (hl : ∀ d ∈ l, s₁.isPending d = true)
    (hr : s₁.Rested id) : s₂.Rested id ∨ ∃ a, a ∈ s₁.left s₂ := by
  cases l with
  | nil =>
    refine Or.inl fun t ht hst => ?_
    rw [h.other id List.not_mem_nil] at ht
    obtain ⟨u, hu, rfl⟩ := Option.map_eq_some_iff.mp ht
    exact hr u hu hst
  | cons d l =>
    obtain ⟨p, hp, -⟩ := ServerState.isPending_iff.mp (hl d List.mem_cons_self)
    refine Or.inr ⟨d, ServerState.mem_left.mpr ⟨hl d List.mem_cons_self, ?_⟩⟩
    have hpr := h.promise d
    rw [hp, Option.map_some, if_pos List.mem_cons_self] at hpr
    simpa [ServerState.isPending, hpr] using hf.state p

theorem Move.rested (hc : Coherent s₁) (hm : m.Step now s₁ s₂) (h : s₁.Rested id) :
    s₂.Rested id ∨ ∃ a, a ∈ s₁.left s₂ := by
  cases m with
  | plain act =>
    obtain ⟨hplain, -, rfl⟩ := hm
    refine Or.inl fun t ht hst => ?_
    rw [ServerState.perform_tasks] at ht
    exact ServerState.taskAfter_rested hplain h ht hst
  | settle a state value =>
    obtain ⟨hpend, -, hst, rfl⟩ := hm
    refine (hc.settles_at now hst value hpend).rested (Outcome.settle hst value now) ?_ h
    intro d hd
    rwa [List.mem_singleton.mp hd]
  | expire ids =>
    obtain ⟨-, hdue, hs⟩ := hm
    exact hs.rested Outcome.expire (fun d hd => isPending_of_isDue (hdue d hd)) h
  | expireNew a req =>
    obtain ⟨-, hn, -, hs⟩ := hm
    refine Or.inl fun t ht hst => ?_
    rw [(hc.expireNew hn hs).2.1 id] at ht
    split_ifs at ht
    · rw [← Option.some.inj ht]
      rfl
    · exact h t ht hst

/-- The moves of an operation leave an acquired task at rest, unless a promise leaves
pending. -/
theorem Moves.rested (hm : Moves op.now P s₁ s₂) (hP : ∀ m, P m → op.Moves s m)
    (hc : Coherent s₁) (hpr : s₁.promises = s.promises) (h : s₁.Rested id) :
    s₂.Rested id ∨ ∃ a, a ∈ s.left s₂ := by
  have hinv := hm.invariant
    (I := fun s' => (∀ a, Follows s op a s') ∧ (s'.Rested id ∨ ∃ a, a ∈ s.left s')) hc ?_
    ⟨fun a => .start hpr, Or.inl h⟩
  · exact hinv.2.2
  · intro s₁ m s₂ hc₁ hm hstep hI
    obtain ⟨hf, hor⟩ := hI
    refine ⟨fun a => (hf a).step hc₁ (hP m hm) hstep, ?_⟩
    rcases hor with hrest | ⟨a, ha⟩
    · exact (Move.rested hc₁ hstep hrest).imp_right fun ⟨a, ha⟩ =>
        ⟨a, (hf a).left (hP m hm) hstep hc₁ ha⟩
    · obtain ⟨hpend, hno⟩ := ServerState.mem_left.mp ha
      refine Or.inr ⟨a, ServerState.mem_left.mpr ⟨hpend, ?_⟩⟩
      cases hp : s₁.promises.lookup a with
      | none =>
        obtain ⟨p, hp₀, -⟩ := ServerState.isPending_iff.mp hpend
        rw [(hf a).1 hp] at hp₀
        cases hp₀
      | some p =>
        obtain ⟨q, hq, hk, -⟩ := m.promise_of_some hc₁ hstep hp
        exact isPending_false_of_kept hp hq hk hno

theorem deliver_rested (hc : Coherent s) (hop : op.Typed) (h : s.Rested id) :
    (s.deliver op).Rested id ∨ ∃ a, a ∈ s.left (s.deliver op) := by
  have hmoves := exec_moves hc.cleared hop
  refine hmoves.rested (s := s) (fun m hm => ?_) (hc.cleared.start op) (by cases op <;> rfl)
    (by cases op <;> exact h)
  cases op with
  | apply now req => exact hm
  | tick now => exact hm

end Step

end Resonate.Network
