import Resonate.Network.Moves

/-!
# The order of expiry

Two settlements of the same promises in different orders agree on everything but the
versions of the tasks they fulfil and the messages for these. A tick is one such
settlement of the due promises, their expiry one at a time another.
-/

namespace Resonate.Network
open Lib

/-- Two tasks that differ at most in the order of their resumes. -/
structure Task.Same (t u : Task) : Prop where
  id : t.id = u.id
  state : t.state = u.state
  version : t.version = u.version
  pid : t.pid = u.pid
  ttl : t.ttl = u.ttl
  resumes : ∀ d, d ∈ t.resumes ↔ d ∈ u.resumes

/-- Two states that differ at most in the order of messages and resumes, and in the
versions of fulfilled tasks and the execute messages for these. -/
structure ExpiryAgrees (s₁ s₂ : ServerState) : Prop where
  promises : ∀ a, s₁.promises.lookup a = s₂.promises.lookup a
  deadlines : s₁.pTimeouts = s₂.pTimeouts
  fulfilled : ∀ a, s₁.taskIs a .fulfilled ↔ s₂.taskIs a .fulfilled
  task : ∀ a, ¬ s₁.taskIs a .fulfilled →
    Option.Rel Task.Same (s₁.tasks.lookup a) (s₂.tasks.lookup a)
  timers : ∀ a, (s₁.tTimeouts.filter fun e => e.id = a) = s₂.tTimeouts.filter fun e => e.id = a
  unblocks : (s₁.outgoing.filter isUnblock).Perm (s₂.outgoing.filter isUnblock)
  executes : ∀ a t, s₁.tasks.lookup a = some t → t.state ≠ .fulfilled →
    s₁.outgoing.filter (ServerState.isExecuteFor a) = s₂.outgoing.filter (ServerState.isExecuteFor a)

section Order

variable {now : Int} {s s₁ s₂ : ServerState} {l l' : List String}
variable {f : DurablePromise → DurablePromise} {a : String} {t : Task}

theorem resumedBy_same {ds ds' : List String} (h : ds.Perm ds') (t : Task) :
    (resumedBy ds t).Same (resumedBy ds' t) := by
  obtain ⟨hid, hpid, httl⟩ := resumedBy_fields ds t
  obtain ⟨hid', hpid', httl'⟩ := resumedBy_fields ds' t
  suffices hsame : (resumedBy ds t).state = (resumedBy ds' t).state ∧
      (resumedBy ds t).version = (resumedBy ds' t).version ∧
        ∀ d, d ∈ (resumedBy ds t).resumes ↔ d ∈ (resumedBy ds' t).resumes from
    ⟨hid.trans hid'.symm, hsame.1, hsame.2.1, hpid.trans hpid'.symm, httl.trans httl'.symm,
      hsame.2.2⟩
  by_cases hs : t.state = .suspended
  · by_cases he : ds = []
    · have he' : ds' = [] := by
        rw [he] at h
        exact h.nil_eq.symm
      rw [he, he']
      exact ⟨rfl, rfl, fun _ => Iff.rfl⟩
    · have he' : ds' ≠ [] := by
        intro he'
        rw [he'] at h
        exact he h.eq_nil
      obtain ⟨hst, hv, hr⟩ := resumedBy_suspended hs he
      obtain ⟨hst', hv', hr'⟩ := resumedBy_suspended hs he'
      exact ⟨hst.trans hst'.symm, hv.trans hv'.symm,
        fun d => (hr d).trans (h.mem_iff.trans (hr' d).symm)⟩
  · by_cases hf : t.state = .fulfilled
    · rw [resumedBy_fulfilled hf, resumedBy_fulfilled hf]
      exact ⟨rfl, rfl, fun _ => Iff.rfl⟩
    · obtain ⟨hst, hv, hr⟩ := resumedBy_of_ne_suspended ds hs
      obtain ⟨hst', hv', hr'⟩ := resumedBy_of_ne_suspended ds' hs
      refine ⟨hst.trans hst'.symm, hv.trans hv'.symm, fun d => ?_⟩
      rw [hr hf, hr' hf, h.mem_iff]

theorem resumedBy_fulfilled_iff (ds : List String) (t : Task) :
    (resumedBy ds t).state = .fulfilled ↔ t.state = .fulfilled := by
  constructor
  · intro h
    by_contra hf
    exact resumedBy_state_ne_fulfilled hf h
  · intro h
    rw [resumedBy_fulfilled h]
    exact h

theorem Settles.taskIs_fulfilled (h : Settles now f l s s₁) :
    s₁.taskIs a .fulfilled ↔ ∃ t, s.tasks.lookup a = some t ∧ (a ∈ l ∨ t.state = .fulfilled) := by
  unfold ServerState.taskIs
  by_cases ha : a ∈ l
  · obtain ⟨v, hv⟩ := h.own a ha
    rw [hv]
    cases s.tasks.lookup a <;> simp [ha]
  · rw [h.other a ha]
    cases s.tasks.lookup a with
    | none => simp
    | some t =>
      have hf := resumedBy_fulfilled_iff (s.awaitedIn l a) t
      rw [resumedBy] at hf
      simp [ha, hf]

/-- Settlements of the same promises in different orders agree. -/
theorem Settles.agree (h : Settles now f l s s₁) (h' : Settles now f l' s s₂) (hl : l.Perm l') :
    ExpiryAgrees s₁ s₂ := by
  have hin : ∀ a, (s.awaitedIn l a).Perm (s.awaitedIn l' a) := fun a => hl.filter _
  have hnil : ∀ a, s.awaitedIn l a = [] ↔ s.awaitedIn l' a = [] := by
    intro a
    rw [← List.length_eq_zero_iff, (hin a).length_eq, List.length_eq_zero_iff]
  have hother : ∀ a, ¬ s₁.taskIs a .fulfilled → a ∈ l → s.tasks.lookup a = none := by
    intro a hno ha
    rw [h.taskIs_fulfilled] at hno
    cases ht : s.tasks.lookup a with
    | none => rfl
    | some t => exact absurd ⟨t, ht, Or.inl ha⟩ hno
  refine ⟨fun a => ?_, ?_, fun a => ?_, fun a hno => ?_, fun a => ?_, ?_, fun a t ht hf => ?_⟩
  · rw [h.promise, h'.promise]
    simp only [hl.mem_iff]
  · rw [h.pTimeouts, h'.pTimeouts]
    simp only [hl.mem_iff]
  · rw [h.taskIs_fulfilled, h'.taskIs_fulfilled]
    simp only [hl.mem_iff]
  · by_cases ha : a ∈ l
    · have hn := hother a hno ha
      obtain ⟨v, hv⟩ := h.own a ha
      obtain ⟨v', hv'⟩ := h'.own a (hl.mem_iff.mp ha)
      rw [hv, hv', hn]
      exact .none
    · rw [h.other a ha, h'.other a fun ha' => ha (hl.mem_iff.mpr ha')]
      cases s.tasks.lookup a with
      | none => exact .none
      | some t => exact .some (resumedBy_same (hin a) t)
  · have hes := h.tEntries a
    have hes' := h'.tEntries a
    simp only [hl.mem_iff, hnil] at hes
    exact hes.trans hes'.symm
  · have hu := h.unblocks
    have hu' := h'.unblocks
    simp only [ServerState.unblocks] at hu hu'
    rw [hu, hu']
    exact (hl.flatMap_right _).append_left _
  · have ha : a ∉ l := by
      intro ha
      obtain ⟨v, hv⟩ := h.own a ha
      rw [ht] at hv
      obtain ⟨u, -, rfl⟩ := Option.map_eq_some_iff.mp hv.symm
      exact hf rfl
    have hex := h.executes a ha
    have hex' := h'.executes a fun ha' => ha (hl.mem_iff.mpr ha')
    simp only [hnil] at hex
    exact hex.trans hex'.symm

theorem Coherent.settles_each {ids : List String} (h : Coherent s) (hn : ids.Nodup)
    (hd : ∀ d ∈ ids, s.isDue now d = true) :
    Settles now ServerState.expireRecord ids s (s.autoTimeouts now ids) := by
  unfold ServerState.autoTimeouts
  induction ids generalizing s with
  | nil => exact .nil s
  | cons d ds ih =>
    obtain ⟨hdds, hds⟩ := List.nodup_cons.mp hn
    have hone := h.expire_one (hd d (by simp))
    have hc : Coherent (s.tryAutoTimeout now d) :=
      h.step (m := .expire [d]) ⟨List.nodup_singleton d, by simpa using hd d (by simp), hone⟩
    have hrest : ∀ b ∈ ds, (s.tryAutoTimeout now d).isDue now b = true := by
      intro b hb
      have hne : b ≠ d := fun hbd => hdds (by rwa [← hbd])
      rw [isDue_tryAutoTimeout, hd b (by simp [hb])]
      simpa using hne
    refine hone.trans (ih hc hds hrest) .expire fun b hb hbd => hdds ?_
    rwa [← List.mem_singleton.mp hbd]

/-- Expiring the due targeted promises one at a time, in any order, agrees with the
promise phases of a tick. -/
theorem expiry_any_order (ops : List Op) (h : ∀ op ∈ ops, op.Typed) (now : Int)
    (ids : List String) (hn : ids.Nodup)
    (hids : ∀ a, a ∈ ids ↔ ∃ p, (ServerState.init.run ops).promises.lookup a = some p ∧
      p.state = .pending ∧ p.timeoutAt ≤ now ∧ (p.tags.lookup "resonate:target").isSome) :
    ExpiryAgrees (ids.foldl (fun s id => s.tryAutoTimeout now id) (ServerState.init.run ops))
      ((ServerState.init.run ops).tickPromises now) := by
  have hc := Coherent.run h
  have hdue : ∀ d ∈ ids, (ServerState.init.run ops).isDue now d = true := by
    intro d hd
    obtain ⟨p, hp, hst, ht, -⟩ := (hids d).mp hd
    exact ServerState.isDue_iff.mpr ⟨p, hp, hst, ht⟩
  have hperm : ids.Perm ((ServerState.init.run ops).duePromises now) :=
    (List.perm_ext_iff_of_nodup hn (hc.nodup_duePromises now)).mpr fun a =>
      (hids a).trans hc.mem_duePromises.symm
  exact (hc.settles_each hn hdue).agree hc.settles_bulk hperm

/-- Two due promises, one awaited by the other's task, expired against the tick's order. -/
theorem expiry_any_order_twin :
    ExpiryAgrees (["b", "a"].foldl (fun s id => s.tryAutoTimeout 100 id) (ServerState.init.run twinRun))
      ((ServerState.init.run twinRun).tickPromises 100) := by
  have htyped : ∀ op ∈ twinRun, op.Typed := fun op h =>
    fulfilledRun_typed op (List.mem_append_left _ h)
  refine expiry_any_order twinRun htyped 100 ["b", "a"] (by decide) fun a => ?_
  have hdue : (ServerState.init.run twinRun).duePromises 100 = ["a", "b"] := by decide
  have hmem : a ∈ (ServerState.init.run twinRun).duePromises 100 ↔ _ :=
    (Coherent.run htyped).mem_duePromises
  rw [hdue] at hmem
  exact Iff.trans (by simp [or_comm]) hmem

end Order

end Resonate.Network
