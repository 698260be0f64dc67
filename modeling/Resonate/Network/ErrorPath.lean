import Resonate.Network.Moves

/-!
# The error path of the local network

A request that `apply` refuses has expired the due promises it names, and a heartbeat
has renewed the leases listed before its invalid entry. `LocalNetwork::send` returns
before it dispatches messages. The two lists of effects are empty exactly when no named
promise has somebody to tell and no lease moves.
-/

namespace Resonate.Network
open Lib

namespace ServerState

/-- The messages `LocalNetwork::send` hands to `dispatch_messages`. -/
def dispatched (s : ServerState) (now : Int) (req : Json) : List OutgoingMessage :=
  match s.apply now (unwrapRequestEnvelope req) with
  | (_, .error _) => []
  | (s, .ok _) => s.outgoing

def Wakeable (s : ServerState) (b : String) : Prop :=
  s.taskIs b .suspended ∧ (s.targetOf b).isSome = true

def subscribersOf (s : ServerState) (a : String) : List String :=
  (s.promises.lookup a).elim [] DurablePromise.subscribers

/-- Expiring the promises in this order sends a message: one that is due has a subscriber,
or an awaiter that can be woken and has not been fulfilled by its own expiry. -/
def Tells (s : ServerState) (now : Int) (ids : List String) : Prop :=
  ∃ pre a post, ids = pre ++ a :: post ∧ s.isDue now a = true ∧
    (s.subscribersOf a ≠ [] ∨
      ∃ b ∈ s.awaitersOf a, s.Wakeable b ∧ ¬ (b ∈ pre ++ [a] ∧ s.isDue now b = true))

section Silent

variable {s : ServerState} {now : Int} {id a b : String}

theorem wakeable_iff : s.Wakeable b ↔ s.resumeMessage b ≠ none := by
  unfold Wakeable taskIs resumeMessage executeFor
  cases s.tasks.lookup b with
  | none => simp
  | some t =>
    cases s.targetOf b <;> by_cases hs : t.state = .suspended <;> simp [hs, Option.filter_some]

theorem upsert_ne_nil {α : Type} (p : α → Bool) (f : α → α) (new : α) (xs : List α) :
    upsert p f new xs ≠ [] := by
  cases xs with
  | nil => simp [upsert]
  | cons x xs =>
    rw [upsert]
    split_ifs <;> simp

theorem sendExecute_outgoing_nil (v : Int) :
    (s.sendExecute b v).outgoing = [] ↔ s.outgoing = [] ∧ s.targetOf b = none := by
  unfold sendExecute targetOf
  cases (s.promises.lookup b).bind (·.tags.lookup "resonate:target") with
  | none => simp
  | some address => simp [sendExecuteMessage, upsert_ne_nil]

theorem resumeAwaiter_outgoing_nil :
    (resumeAwaiter id now s b).outgoing = [] ↔ s.outgoing = [] ∧ ¬ s.Wakeable b := by
  unfold resumeAwaiter Wakeable taskIs
  cases ht : s.tasks.lookup b with
  | none => simp
  | some t =>
    obtain ⟨i, state, version, pid, ttl, resumes⟩ := t
    cases state with
    | suspended =>
      dsimp only
      rw [sendExecute_outgoing_nil]
      have htarget : ∀ (m : HashMap Task) (time : Int),
          (({ s with tasks := m } : ServerState).setTTimeout b 0 time).targetOf b = s.targetOf b :=
        fun _ _ => rfl
      rw [htarget]
      simp [setTTimeout, Option.isSome_iff_ne_none]
    | _ => simp

theorem wakeable_resumeAwaiter (h : ¬ s.Wakeable b) :
    (resumeAwaiter id now s b).Wakeable a ↔ s.Wakeable a := by
  by_cases hab : a = b
  · subst hab
    have hr := (resumeAwaiter_resume_self s id a now).2
    simp [wakeable_iff, hr, wakeable_iff.not_left.mp h]
  · rw [wakeable_iff, wakeable_iff, (resumeAwaiter_resume_ne s id b now hab).2]

theorem foldl_resumeAwaiter_outgoing_nil (l : List String) :
    (l.foldl (resumeAwaiter id now) s).outgoing = [] ↔
      s.outgoing = [] ∧ ∀ b ∈ l, ¬ s.Wakeable b := by
  induction l generalizing s with
  | nil => simp
  | cons x xs ih =>
    rw [List.foldl_cons, ih, resumeAwaiter_outgoing_nil]
    simp only [List.mem_cons, forall_eq_or_imp, and_assoc]
    refine and_congr_right fun _ => and_congr_right fun hx => ?_
    simp only [wakeable_resumeAwaiter hx]

theorem notifySubscribers_outgoing_nil :
    (s.notifySubscribers a).outgoing = [] ↔ s.outgoing = [] ∧ s.subscribersOf a = [] := by
  rw [notifySubscribers_outgoing, List.append_eq_nil_iff, noticesOf, subscribersOf]
  cases s.promises.lookup a <;> simp [DurablePromise.notices]

theorem awaitersOf_expire : (s.expire a).awaitersOf b = s.awaitersOf b :=
  awaitersOf_record .expire b

theorem subscribersOf_expire : (s.expire a).subscribersOf b = s.subscribersOf b := by
  simp only [subscribersOf, expire, delPTimeout_promises, HashMap.lookup_modify]
  by_cases h : b = a
  · cases s.promises.lookup b <;> simp [h, expireRecord]
  · simp [h]

theorem targetOf_expire : (s.expire a).targetOf b = s.targetOf b := by
  simp only [targetOf, expire, delPTimeout_promises, HashMap.lookup_modify]
  by_cases h : b = a
  · cases s.promises.lookup b <;> simp [h, expireRecord]
  · simp [h]

theorem wakeable_enqueueSettle : (s.enqueueSettle a).Wakeable b ↔ s.Wakeable b ∧ b ≠ a := by
  by_cases h : b = a
  · subst h
    have hno : ¬ (s.enqueueSettle b).Wakeable b := by
      intro hw
      obtain ⟨⟨t, ht, hst⟩, -⟩ := hw
      rw [enqueueSettle_tasks, if_pos rfl] at ht
      have hf := s.taskOfSettled_fulfilled b (show t ∈ s.taskOfSettled b from ht)
      simp [hst] at hf
    simp [hno]
  · rw [wakeable_iff, wakeable_iff, (resume_enqueueSettle 0 h).2]
    simp [h]

theorem wakeable_expire : (s.expire a).Wakeable b ↔ s.Wakeable b := by
  unfold Wakeable
  rw [targetOf_expire]
  rfl

theorem tryAutoTimeout_outgoing_nil (hd : s.isDue now a = true) :
    (s.tryAutoTimeout now a).outgoing = [] ↔ s.outgoing = [] ∧ s.subscribersOf a = [] ∧
      ∀ b ∈ s.awaitersOf a, b ≠ a → ¬ s.Wakeable b := by
  have hsub : (((s.expire a).enqueueSettle a).resumeAwaiters a now).subscribersOf a =
      s.subscribersOf a := by
    have hx : (s.expire a).subscribersOf a = s.subscribersOf a := subscribersOf_expire
    rw [← hx]
    simp only [subscribersOf, resumeAwaiters_promises, enqueueSettle_promises]
    cases (s.expire a).promises.lookup a with
    | none => rfl
    | some p =>
      simp only [Option.map_some, if_true, Option.elim_some]
      split_ifs <;> rfl
  have hres : (((s.expire a).enqueueSettle a).resumeAwaiters a now).outgoing =
      ((((s.expire a).enqueueSettle a).awaitersOf a).foldl (resumeAwaiter a now)
        ((s.expire a).enqueueSettle a)).outgoing := rfl
  rw [tryAutoTimeout_of_due _ _ _ hd, settled, notifySubscribers_outgoing_nil, hsub, hres,
    foldl_resumeAwaiter_outgoing_nil, enqueueSettle_outgoing, awaitersOf_enqueueSettle,
    awaitersOf_expire]
  simp only [wakeable_enqueueSettle, wakeable_expire]
  have hout : (s.expire a).outgoing = s.outgoing := rfl
  rw [hout, and_assoc, and_comm (a := ∀ b ∈ _, _)]
  refine and_congr_right fun _ => and_congr_right fun _ => ?_
  constructor
  · intro h b hb hne hw
    refine h b ?_ ⟨hw, hne⟩
    split_ifs
    · simpa [hne] using hb
    · exact hb
  · intro h b hb hw
    refine h b ?_ hw.2 hw.1
    split_ifs at hb
    · exact (List.mem_filter.mp hb).1
    · exact hb

theorem subscribersOf_tryAutoTimeout (h : b ≠ a) :
    (s.tryAutoTimeout now a).subscribersOf b = s.subscribersOf b := by
  by_cases hd : s.isDue now a = true
  · have hx : (s.expire a).subscribersOf b = s.subscribersOf b := subscribersOf_expire
    rw [tryAutoTimeout_of_due _ _ _ hd, ← hx]
    simp only [subscribersOf, settled_promises]
    cases (s.expire a).promises.lookup b with
    | none => rfl
    | some p =>
      simp only [Option.map_some, Option.elim_some, chainRecord, if_neg h]
      split_ifs <;> rfl
  · rw [tryAutoTimeout_of_not_due _ _ _ (by simpa using hd)]

theorem mem_awaitersOf_tryAutoTimeout (h : b ≠ a) {c : String} (hc : c ≠ a) :
    c ∈ (s.tryAutoTimeout now a).awaitersOf b ↔ c ∈ s.awaitersOf b := by
  by_cases hd : s.isDue now a = true
  · have hx : (s.expire a).awaitersOf b = s.awaitersOf b := awaitersOf_expire
    rw [tryAutoTimeout_of_due _ _ _ hd, ← hx]
    simp only [awaitersOf, settled_promises]
    cases (s.expire a).promises.lookup b with
    | none => rfl
    | some p =>
      simp only [Option.map_some, chainRecord, if_neg h]
      split_ifs
      · simp [hc]
      · rfl
  · rw [tryAutoTimeout_of_not_due _ _ _ (by simpa using hd)]

theorem resumedTask_ne_suspended (d : String) (t : Task) : (resumedTask d t).state ≠ .suspended := by
  obtain ⟨i, state, version, pid, ttl, resumes⟩ := t
  cases state <;> simp [resumedTask]

theorem targetOf_settled : (s.settled a now).targetOf b = s.targetOf b := by
  simp only [targetOf, settled_promises]
  cases s.promises.lookup b with
  | none => rfl
  | some p =>
    simp only [Option.map_some, Option.bind_some, chainRecord]
    split_ifs <;> rfl

theorem wakeable_tryAutoTimeout (hd : s.isDue now a = true)
    (hq : ∀ c ∈ s.awaitersOf a, c ≠ a → ¬ s.Wakeable c) :
    (s.tryAutoTimeout now a).Wakeable b ↔ s.Wakeable b ∧ b ≠ a := by
  rw [tryAutoTimeout_of_due _ _ _ hd]
  unfold Wakeable taskIs
  rw [targetOf_settled, targetOf_expire, settled_tasks]
  by_cases hb : b = a
  · subst hb
    simp only [if_true, ne_eq, not_true_eq_false, and_false, iff_false, not_and]
    intro ht
    obtain ⟨t, ht, hst⟩ := ht
    have hf := (s.expire b).taskOfSettled_fulfilled b ht
    simp [hst] at hf
  · rw [if_neg hb, awaitersOf_expire]
    have htask : (s.expire a).tasks.lookup b = s.tasks.lookup b := rfl
    rw [htask]
    by_cases hm : b ∈ s.awaitersOf a
    · have hno := hq b hm hb
      simp only [hb, ne_eq, not_false_eq_true, and_true]
      refine iff_of_false (fun h => ?_) hno
      obtain ⟨⟨t, ht, hst⟩, -⟩ := h
      rw [if_pos hm] at ht
      obtain ⟨u, -, rfl⟩ := Option.map_eq_some_iff.mp ht
      exact resumedTask_ne_suspended a u hst
    · simp [hm, hb]

theorem tells_cons_of_not_due {ids : List String} (hd : s.isDue now a = false) :
    s.Tells now (a :: ids) ↔ s.Tells now ids := by
  constructor
  · intro h
    obtain ⟨pre, x, post, hids, hx, htell⟩ := h
    cases pre with
    | nil =>
      obtain rfl : a = x := (List.cons.inj hids).1
      rw [hd] at hx
      cases hx
    | cons y pre =>
      obtain ⟨rfl, hrest⟩ := List.cons.inj hids
      refine ⟨pre, x, post, hrest, hx, htell.imp id fun hb => ?_⟩
      obtain ⟨b, hb, hw, hno⟩ := hb
      exact ⟨b, hb, hw, fun h => hno ⟨List.mem_cons_of_mem a h.1, h.2⟩⟩
  · intro h
    obtain ⟨pre, x, post, hids, hx, htell⟩ := h
    refine ⟨a :: pre, x, post, by rw [hids]; rfl, hx, htell.imp id fun hb => ?_⟩
    obtain ⟨b, hb, hw, hno⟩ := hb
    refine ⟨b, hb, hw, fun h => hno ⟨?_, h.2⟩⟩
    rcases List.mem_cons.mp h.1 with rfl | hmem
    · rw [hd] at h
      cases h.2
    · exact hmem

theorem silent_of_not_tells {ids : List String} (hd : s.isDue now a = true)
    (h : ¬ s.Tells now (a :: ids)) :
    s.subscribersOf a = [] ∧ ∀ b ∈ s.awaitersOf a, b ≠ a → ¬ s.Wakeable b := by
  constructor
  · by_contra hsub
    exact h ⟨[], a, ids, rfl, hd, Or.inl hsub⟩
  · intro b hb hne hw
    exact h ⟨[], a, ids, rfl, hd, Or.inr ⟨b, hb, hw, fun hmem => hne (by simpa using hmem.1)⟩⟩

theorem tells_cons_of_due {ids : List String} (hd : s.isDue now a = true)
    (hsub : s.subscribersOf a = []) (hq : ∀ b ∈ s.awaitersOf a, b ≠ a → ¬ s.Wakeable b) :
    s.Tells now (a :: ids) ↔ (s.tryAutoTimeout now a).Tells now ids := by
  have hdue : ∀ b, (s.tryAutoTimeout now a).isDue now b = true ↔ s.isDue now b = true ∧ b ≠ a := by
    intro b
    rw [isDue_tryAutoTimeout]
    simp
  constructor
  · intro h
    obtain ⟨pre, x, post, hids, hx, htell⟩ := h
    have hxa : x ≠ a := by
      intro hxa
      rw [hxa] at htell
      rcases htell with hs | ⟨b, hb, hw, hno⟩
      · exact hs hsub
      · refine hno ?_
        by_cases hba : b = a
        · subst hba
          exact ⟨by simp, hd⟩
        · exact absurd hw (hq b hb hba)
    cases pre with
    | nil => exact absurd (List.cons.inj hids).1.symm hxa
    | cons y pre =>
      obtain ⟨rfl, hrest⟩ := List.cons.inj hids
      refine ⟨pre, x, post, hrest, (hdue x).mpr ⟨hx, hxa⟩, htell.imp (fun hs => ?_) fun hb => ?_⟩
      · rwa [subscribersOf_tryAutoTimeout hxa]
      · obtain ⟨b, hb, hw, hno⟩ := hb
        have hba : b ≠ a := by
          intro hba
          exact hno ⟨by simp [hba], hba ▸ hd⟩
        refine ⟨b, (mem_awaitersOf_tryAutoTimeout hxa hba).mpr hb,
          (wakeable_tryAutoTimeout hd hq).mpr ⟨hw, hba⟩, fun hmem => ?_⟩
        exact hno ⟨List.mem_cons_of_mem a hmem.1, ((hdue b).mp hmem.2).1⟩
  · intro h
    obtain ⟨pre, x, post, hids, hx, htell⟩ := h
    obtain ⟨hx, hxa⟩ := (hdue x).mp hx
    refine ⟨a :: pre, x, post, by rw [hids]; rfl, hx, htell.imp (fun hs => ?_) fun hb => ?_⟩
    · rwa [subscribersOf_tryAutoTimeout hxa] at hs
    · obtain ⟨b, hb, hw, hno⟩ := hb
      obtain ⟨hw, hba⟩ := (wakeable_tryAutoTimeout hd hq).mp hw
      refine ⟨b, (mem_awaitersOf_tryAutoTimeout hxa hba).mp hb, hw, fun hmem => hno ⟨?_, ?_⟩⟩
      · exact (List.mem_cons.mp hmem.1).resolve_left hba
      · exact (hdue b).mpr ⟨hmem.2, hba⟩

/-- Expiring the named promises sends nothing exactly when there is nobody to tell. -/
theorem autoTimeouts_outgoing_nil (s : ServerState) (now : Int) (ids : List String) :
    (s.autoTimeouts now ids).outgoing = [] ↔ s.outgoing = [] ∧ ¬ s.Tells now ids := by
  unfold autoTimeouts
  induction ids generalizing s with
  | nil =>
    have hno : ¬ s.Tells now [] := by
      intro h
      obtain ⟨pre, x, post, hids, -⟩ := h
      simp at hids
    simp [hno]
  | cons a ids ih =>
    rw [List.foldl_cons, ih]
    by_cases hd : s.isDue now a = true
    · rw [tryAutoTimeout_outgoing_nil hd]
      constructor
      · intro h
        obtain ⟨⟨ho, hsub, hq⟩, hrest⟩ := h
        exact ⟨ho, fun ht => hrest ((tells_cons_of_due hd hsub hq).mp ht)⟩
      · intro h
        obtain ⟨ho, hno⟩ := h
        obtain ⟨hsub, hq⟩ := silent_of_not_tells hd hno
        exact ⟨⟨ho, hsub, hq⟩, fun ht => hno ((tells_cons_of_due hd hsub hq).mpr ht)⟩
    · have hd' : s.isDue now a = false := by simpa using hd
      rw [tryAutoTimeout_of_not_due _ _ _ hd', tells_cons_of_not_due hd']

end Silent

section Heartbeat

variable {s : ServerState} {now : Int} {pid : String} {refs : List Json}

def Renews (s : ServerState) (now : Int) (pid : String) (ref : Json) (id : String)
    (deadline : Int) : Prop :=
  requireStr ref "id" = .ok id ∧ ∃ t, s.tasks.lookup id = some t ∧ t.state = .acquired ∧
    t.pid = some pid ∧ ((ref.get "version").bind Json.asI64).all (· = t.version) = true ∧
      deadline = saturatingAdd now (t.ttl.getD 30000)

/-- An entry before the first invalid one asks for another deadline than its lease has. -/
def Extends (s : ServerState) (now : Int) (pid : String) (refs : List Json) : Prop :=
  ∃ pre ref post id deadline, refs = pre ++ ref :: post ∧
    (∀ r ∈ pre, ∃ i, requireStr r "id" = .ok i) ∧ s.Renews now pid ref id deadline ∧
      (s.tTimeouts.filter fun e => e.id = id).head? ≠ some ⟨id, 1, deadline⟩

theorem upsert_self {α : Type} {p : α → Bool} {f : α → α} {new e : α} {xs : List α}
    (h : (xs.filter p).head? = some e) (hf : f e = e) : upsert p f new xs = xs := by
  induction xs with
  | nil => simp at h
  | cons x xs ih =>
    rw [upsert]
    rw [List.filter_cons] at h
    split_ifs at h ⊢ with hp
    · obtain rfl := Option.some.inj h
      rw [hf]
    · rw [ih h]

theorem setTTimeout_self {id : String} {k : ℕ} {time : Int}
    (h : (s.tTimeouts.filter fun e => e.id = id).head? = some ⟨id, k, time⟩) :
    s.setTTimeout id k time = s := by
  have hp : (fun e : TTimeout => e.id == id) = fun e => decide (e.id = id) := by
    funext e
    exact beq_eq_decide ..
  have hself : upsert (fun e : TTimeout => e.id == id)
      (fun e => { e with typ := k, timeout := time }) ⟨id, k, time⟩ s.tTimeouts = s.tTimeouts := by
    rw [hp]
    exact upsert_self h rfl
  rw [setTTimeout, hself]

theorem heartbeatOne_cases (now : Int) (pid : String) {ref : Json} {id : String}
    (hid : requireStr ref "id" = .ok id) :
    (∃ d, s.Renews now pid ref id d ∧
      s.heartbeatOne now pid id ((ref.get "version").bind Json.asI64) = s.setTTimeout id 1 d) ∨
      (∀ d, ¬ s.Renews now pid ref id d) ∧
        s.heartbeatOne now pid id ((ref.get "version").bind Json.asI64) = s := by
  unfold heartbeatOne
  cases ht : s.tasks.lookup id with
  | none =>
    refine Or.inr ⟨fun d h => ?_, rfl⟩
    obtain ⟨-, t, ht', -⟩ := h
    simp [ht] at ht'
  | some t =>
    dsimp only
    split_ifs with h
    · exact Or.inl ⟨_, ⟨hid, t, ht, h.1, h.2.1, h.2.2, rfl⟩, rfl⟩
    · refine Or.inr ⟨fun d hr => h ?_, rfl⟩
      obtain ⟨-, u, hu, hst, hpid, hv, -⟩ := hr
      obtain rfl := Option.some.inj (ht.symm.trans hu)
      exact ⟨hst, hpid, hv⟩

theorem heartbeatAll_keeps (pid : String) (refs : List Json) {id : String} {t : Task}
    (ht : s.tasks.lookup id = some t) (h : (s.tEntries id).head? =
      some ⟨id, 1, saturatingAdd now (t.ttl.getD 30000)⟩) :
    ((s.heartbeatAll now pid refs).1.tEntries id).head? =
      some ⟨id, 1, saturatingAdd now (t.ttl.getD 30000)⟩ := by
  induction refs generalizing s with
  | nil => exact h
  | cons ref refs ih =>
    unfold heartbeatAll
    cases hr : requireStr ref "id" with
    | error e => exact h
    | ok i =>
      dsimp only
      rcases heartbeatOne_cases now pid hr with ⟨d, ⟨-, u, hu, -, -, -, rfl⟩, heq⟩ | ⟨-, heq⟩
      · rw [heq]
        refine ih ht ?_
        rw [setTTimeout_tEntries]
        split_ifs with hid
        · subst hid
          obtain rfl := Option.some.inj (ht.symm.trans hu)
          rfl
        · exact h
      · rw [heq]
        exact ih ht h

theorem extends_cons {ref : Json} {id : String} (hid : requireStr ref "id" = .ok id)
    (hno : ∀ d, s.Renews now pid ref id d →
      (s.tTimeouts.filter fun e => e.id = id).head? = some ⟨id, 1, d⟩) :
    s.Extends now pid (ref :: refs) ↔ s.Extends now pid refs := by
  constructor
  · intro h
    obtain ⟨pre, x, post, i, d, hrefs, hpre, hr, hne⟩ := h
    cases pre with
    | nil =>
      obtain rfl : ref = x := (List.cons.inj hrefs).1
      obtain rfl : id = i := Except.ok.inj (hid.symm.trans hr.1)
      exact absurd (hno d hr) hne
    | cons y pre =>
      exact ⟨pre, x, post, i, d, (List.cons.inj hrefs).2, fun r hr => hpre r (by simp [hr]), hr, hne⟩
  · intro h
    obtain ⟨pre, x, post, i, d, hrefs, hpre, hr, hne⟩ := h
    refine ⟨ref :: pre, x, post, i, d, by rw [hrefs]; rfl, fun r hr => ?_, hr, hne⟩
    rcases List.mem_cons.mp hr with rfl | hr
    · exact ⟨id, hid⟩
    · exact hpre r hr

theorem heartbeatAll_tTimeouts :
    (s.heartbeatAll now pid refs).1.tTimeouts = s.tTimeouts ↔ ¬ s.Extends now pid refs := by
  induction refs generalizing s with
  | nil =>
    refine iff_of_true rfl fun h => ?_
    obtain ⟨pre, x, post, i, d, hrefs, -⟩ := h
    simp at hrefs
  | cons ref refs ih =>
    unfold heartbeatAll
    cases hid : requireStr ref "id" with
    | error e =>
      refine iff_of_true rfl fun h => ?_
      obtain ⟨pre, x, post, i, d, hrefs, hpre, hr, -⟩ := h
      cases pre with
      | nil =>
        obtain rfl : ref = x := (List.cons.inj hrefs).1
        cases hid.symm.trans hr.1
      | cons y pre =>
        obtain rfl : ref = y := (List.cons.inj hrefs).1
        obtain ⟨j, hj⟩ := hpre ref (by simp)
        cases hid.symm.trans hj
    | ok id =>
      dsimp only
      rcases heartbeatOne_cases now pid hid with ⟨d, hr, heq⟩ | ⟨hno, heq⟩
      · rw [heq]
        by_cases hcur : (s.tTimeouts.filter fun e => e.id = id).head? = some ⟨id, 1, d⟩
        · rw [setTTimeout_self hcur, ih, extends_cons hid]
          intro d' hr'
          obtain ⟨-, t, ht, -, -, -, rfl⟩ := hr
          obtain ⟨-, t', ht', -, -, -, rfl⟩ := hr'
          obtain rfl := Option.some.inj (ht.symm.trans ht')
          exact hcur
        · refine iff_of_false (fun hsame => ?_) fun h => h ?_
          · obtain ⟨-, t, ht, -, -, -, rfl⟩ := hr
            have hset : ((s.setTTimeout id 1 (saturatingAdd now (t.ttl.getD 30000))).tEntries
                id).head? = some ⟨id, 1, saturatingAdd now (t.ttl.getD 30000)⟩ := by
              rw [setTTimeout_tEntries, if_pos rfl]
              rfl
            have hkeep := heartbeatAll_keeps pid refs
              (s := s.setTTimeout id 1 (saturatingAdd now (t.ttl.getD 30000))) ht hset
            rw [tEntries, hsame] at hkeep
            exact hcur hkeep
          · exact ⟨[], ref, refs, id, d, rfl, by simp, hr, hcur⟩
      · rw [heq, ih, extends_cons hid fun d hr => absurd hr (hno d)]

theorem heartbeatAll_frame (s : ServerState) (now : Int) (pid : String) (refs : List Json) :
    (s.heartbeatAll now pid refs).1.promises = s.promises ∧
      (s.heartbeatAll now pid refs).1.tasks = s.tasks ∧
      (s.heartbeatAll now pid refs).1.schedules = s.schedules ∧
      (s.heartbeatAll now pid refs).1.pTimeouts = s.pTimeouts ∧
      (s.heartbeatAll now pid refs).1.outgoing = s.outgoing := by
  induction refs generalizing s with
  | nil => exact ⟨rfl, rfl, rfl, rfl, rfl⟩
  | cons ref refs ih =>
    unfold heartbeatAll
    cases hid : requireStr ref "id" with
    | error e => exact ⟨rfl, rfl, rfl, rfl, rfl⟩
    | ok id =>
      dsimp only
      rcases heartbeatOne_cases now pid hid with ⟨d, -, heq⟩ | ⟨-, heq⟩
      · rw [heq]
        exact ih _
      · rw [heq]
        exact ih _

end Heartbeat

section Refused

variable {s s' : ServerState} {now : Int} {corrId req : Json} {x : ServerState × Reply}

def KeepsOnError (s : ServerState) (x : ServerState × Reply) : Prop :=
  ∀ e, x.2 = .error e → x.1 = s

theorem KeepsOnError.same (r : Reply) : KeepsOnError s (s, r) := fun _ _ => rfl

theorem KeepsOnError.reply (kind : ReqKind) (status : Int) (fields : List (String × Json)) :
    KeepsOnError s (s', Network.reply kind corrId status fields) := by
  intro e h
  cases h

theorem promiseGet_keeps : KeepsOnError s (s.promiseGet corrId req) := fun _ _ => promiseGet_fst

theorem promiseCreate_keeps : KeepsOnError s (s.promiseCreate now corrId req) := by
  unfold promiseCreate
  cases requireStr req "id" with
  | error e => exact .same _
  | ok id =>
    dsimp only
    cases s.promises.lookup id with
    | some p => exact .same _
    | none =>
      dsimp only
      split_ifs <;> exact .reply _ _ _

theorem promiseSettle_keeps : KeepsOnError s (s.promiseSettle now corrId req) := by
  unfold promiseSettle
  cases requireStr req "id" with
  | error e => exact .same _
  | ok id =>
    dsimp only
    cases s.promises.lookup id with
    | none => exact .same _
    | some p =>
      dsimp only
      split_ifs <;> exact .reply _ _ _

theorem promiseRegisterListener_keeps : KeepsOnError s (s.promiseRegisterListener corrId req) := by
  unfold promiseRegisterListener
  cases requireStr req "awaited" with
  | error e => exact .same _
  | ok awaited =>
    dsimp only
    cases requireStr req "address" with
    | error e => exact .same _
    | ok address =>
      dsimp only
      cases s.promises.lookup awaited <;> exact .reply _ _ _

theorem taskCreate_keeps : KeepsOnError s (s.taskCreate now corrId req) := by
  unfold taskCreate
  cases requireStr req "pid" with
  | error e => exact .same _
  | ok pid =>
    dsimp only
    cases requireStr (extractActionData (actionOf req)) "id" with
    | error e => exact .same _
    | ok id =>
      dsimp only
      cases s.tasks.lookup id with
      | some t =>
        dsimp only
        cases t.state <;> exact .reply _ _ _
      | none =>
        dsimp only
        split_ifs <;> exact .reply _ _ _

theorem taskAcquire_keeps : KeepsOnError s (s.taskAcquire now corrId req) := by
  unfold taskAcquire
  cases requireStr req "id" with
  | error e => exact .same _
  | ok id =>
    dsimp only
    cases s.tasks.lookup id with
    | none => exact .same _
    | some t =>
      dsimp only
      split_ifs <;> exact .reply _ _ _

theorem taskRelease_keeps : KeepsOnError s (s.taskRelease now corrId req) := by
  unfold taskRelease
  cases requireStr req "id" with
  | error e => exact .same _
  | ok id =>
    dsimp only
    cases s.tasks.lookup id with
    | none => exact .same _
    | some t =>
      dsimp only
      split_ifs <;> exact .reply _ _ _

theorem taskFulfill_keeps : KeepsOnError s (s.taskFulfill now corrId req) := by
  unfold taskFulfill
  cases requireStr req "id" with
  | error e => exact .same _
  | ok id =>
    dsimp only
    cases s.tasks.lookup id with
    | none => exact .same _
    | some t =>
      dsimp only
      split_ifs <;> exact .reply _ _ _

theorem taskFence_keeps : KeepsOnError s (s.taskFence now corrId req) := by
  have hinner : KeepsOnError s (s.fenceInner now corrId req) := by
    unfold fenceInner
    cases hk : (fenceAction req).1 with
    | true =>
      simp only [hk, if_true]
      exact promiseSettle_keeps
    | false =>
      simp only [hk, Bool.false_eq_true, if_false]
      exact promiseCreate_keeps
  unfold taskFence
  cases requireStr req "id" with
  | error e => exact .same _
  | ok id =>
    dsimp only
    cases s.tasks.lookup id with
    | none => exact .same _
    | some t =>
      dsimp only
      split_ifs
      · exact .same _
      · cases hx : s.fenceInner now corrId req with
        | mk s' r =>
          cases r with
          | error e =>
            have hs := hinner e (by rw [hx])
            rw [hx] at hs
            subst hs
            exact .same _
          | ok inner => exact .reply _ _ _

theorem taskSuspend_keeps : KeepsOnError s (s.taskSuspend corrId req) := by
  unfold taskSuspend
  cases requireStr req "id" with
  | error e => exact .same _
  | ok id =>
    dsimp only
    cases s.tasks.lookup id with
    | none => exact .same _
    | some t =>
      dsimp only
      split_ifs <;> exact .reply _ _ _

theorem scheduleCreate_keeps : KeepsOnError s (s.scheduleCreate now corrId req) := by
  unfold scheduleCreate
  cases requireStr req "id" with
  | error e => exact .same _
  | ok id =>
    dsimp only
    split_ifs
    · exact .reply _ _ _
    · cases s.schedules.lookup id with
      | some stub => exact .reply _ _ _
      | none =>
        dsimp only
        cases requireStr req "cron" with
        | error e => exact .same _
        | ok cron =>
          dsimp only
          cases requireStr req "promiseId" with
          | error e => exact .same _
          | ok promiseId => exact .reply _ _ _

theorem scheduleGet_keeps : KeepsOnError s (s.scheduleGet corrId req) := fun _ _ => scheduleGet_fst

theorem scheduleDelete_keeps : KeepsOnError s (s.scheduleDelete corrId req) := by
  unfold scheduleDelete
  cases requireStr req "id" with
  | error e => exact .same _
  | ok id =>
    dsimp only
    cases s.schedules.lookup id <;> exact .reply _ _ _

theorem dispatch_keeps {kind : ReqKind} (hk : kind ≠ .taskHeartbeat) :
    KeepsOnError s (s.dispatch now corrId req kind) := by
  cases kind with
  | promiseGet => exact promiseGet_keeps
  | promiseCreate => exact promiseCreate_keeps
  | promiseSettle => exact promiseSettle_keeps
  | promiseRegisterListener => exact promiseRegisterListener_keeps
  | taskCreate => exact taskCreate_keeps
  | taskAcquire => exact taskAcquire_keeps
  | taskRelease => exact taskRelease_keeps
  | taskFulfill => exact taskFulfill_keeps
  | taskFence => exact taskFence_keeps
  | taskSuspend => exact taskSuspend_keeps
  | taskHeartbeat => exact absurd rfl hk
  | scheduleCreate => exact scheduleCreate_keeps
  | scheduleGet => exact scheduleGet_keeps
  | scheduleDelete => exact scheduleDelete_keeps
  | scheduleSearch => exact .same _

end Refused

def MovesLease (s : ServerState) (now : Int) (req : Json) : Prop :=
  ReqKind.ofName (kindOf req) = some .taskHeartbeat ∧
    ∃ pid, requireStr req "pid" = .ok pid ∧
      s.Extends now pid (((req.get "tasks").bind Json.asArray).getD [])

theorem taskHeartbeat_fst {s : ServerState} {now : Int} {corrId req : Json} :
    (s.taskHeartbeat now corrId req).1 = match requireStr req "pid" with
      | .error _ => s
      | .ok pid => (s.heartbeatAll now pid (((req.get "tasks").bind Json.asArray).getD [])).1 := by
  unfold taskHeartbeat
  cases requireStr req "pid" with
  | error e => rfl
  | ok pid =>
    dsimp only
    split <;> rename_i heq <;> rw [heq]

/-- A heartbeat changes nothing but timers, and these exactly when it moves a lease. -/
theorem taskHeartbeat_frame (s : ServerState) (now : Int) (corrId : Json) {req : Json}
    (hk : ReqKind.ofName (kindOf req) = some .taskHeartbeat) :
    (s.taskHeartbeat now corrId req).1.promises = s.promises ∧
      (s.taskHeartbeat now corrId req).1.tasks = s.tasks ∧
      (s.taskHeartbeat now corrId req).1.schedules = s.schedules ∧
      (s.taskHeartbeat now corrId req).1.pTimeouts = s.pTimeouts ∧
      ((s.taskHeartbeat now corrId req).1.tTimeouts = s.tTimeouts ↔ ¬ s.MovesLease now req) := by
  rw [taskHeartbeat_fst]
  unfold MovesLease
  cases requireStr req "pid" with
  | error e => simp
  | ok pid =>
    obtain ⟨hp, ht, hs, hq, -⟩ := heartbeatAll_frame s now pid
      (((req.get "tasks").bind Json.asArray).getD [])
    refine ⟨hp, ht, hs, hq, heartbeatAll_tTimeouts.trans (not_congr ?_)⟩
    simp [hk]

end ServerState

/-- After a request that `apply` refuses, everything but the messages is what the expiry of
the named promises leaves, and the messages of that expiry are dispatched. -/
structure CleanError (s : ServerState) (now : Int) (req : Json) : Prop where
  promises : (s.apply now (unwrapRequestEnvelope req)).1.promises =
    (s.prepared now (unwrapRequestEnvelope req)).promises
  tasks : (s.apply now (unwrapRequestEnvelope req)).1.tasks =
    (s.prepared now (unwrapRequestEnvelope req)).tasks
  schedules : (s.apply now (unwrapRequestEnvelope req)).1.schedules =
    (s.prepared now (unwrapRequestEnvelope req)).schedules
  pTimeouts : (s.apply now (unwrapRequestEnvelope req)).1.pTimeouts =
    (s.prepared now (unwrapRequestEnvelope req)).pTimeouts
  tTimeouts : (s.apply now (unwrapRequestEnvelope req)).1.tTimeouts =
    (s.prepared now (unwrapRequestEnvelope req)).tTimeouts
  messages : ∀ m ∈ (s.prepared now (unwrapRequestEnvelope req)).outgoing, m ∈ s.dispatched now req

def namedBy (req : Json) : List String :=
  namedPromises (ReqKind.ofName (kindOf (unwrapRequestEnvelope req))) (unwrapRequestEnvelope req)

/-- The error path is clean exactly when the expiry of the named promises tells nobody and
no heartbeat has moved a lease. -/
theorem error_path_clean_iff (s : ServerState) (now : Int) (req : Json) (e : Error)
    (he : (s.apply now (unwrapRequestEnvelope req)).2 = .error e) :
    CleanError s now req ↔
      ¬ s.Tells now (namedBy req) ∧ ¬ s.MovesLease now (unwrapRequestEnvelope req) := by
  have hnone : s.dispatched now req = [] := by
    unfold ServerState.dispatched
    cases hx : s.apply now (unwrapRequestEnvelope req) with
    | mk s' r =>
      rw [hx] at he
      obtain rfl : r = .error e := he
      rfl
  have hmsg : (∀ m ∈ (s.prepared now (unwrapRequestEnvelope req)).outgoing,
      m ∈ s.dispatched now req) ↔ ¬ s.Tells now (namedBy req) := by
    rw [hnone]
    have hnil := ServerState.autoTimeouts_outgoing_nil { s with outgoing := [] } now (namedBy req)
    refine Iff.trans ?_ (hnil.trans (and_iff_right rfl))
    rw [List.eq_nil_iff_forall_not_mem]
    simp only [List.not_mem_nil, imp_false]
    rfl
  by_cases hk : ReqKind.ofName (kindOf (unwrapRequestEnvelope req)) = some .taskHeartbeat
  · have hprep : s.prepared now (unwrapRequestEnvelope req) = { s with outgoing := [] } := by
      rw [ServerState.prepared, hk]
      rfl
    have happly : (s.apply now (unwrapRequestEnvelope req)).1 =
        ({ s with outgoing := [] }.taskHeartbeat now
          (((unwrapRequestEnvelope req).get "corrId").getD .null) (unwrapRequestEnvelope req)).1 := by
      rw [ServerState.apply_eq_dispatch hk, hprep]
      rfl
    obtain ⟨hp, ht, hs, hq, hq'⟩ := ServerState.taskHeartbeat_frame { s with outgoing := [] }
      now (((unwrapRequestEnvelope req).get "corrId").getD .null) hk
    rw [← happly] at hp ht hs hq hq'
    constructor
    · intro h
      refine ⟨hmsg.mp h.messages, hq'.mp ?_⟩
      rw [h.tTimeouts, hprep]
    · intro h
      refine ⟨?_, ?_, ?_, ?_, ?_, hmsg.mpr h.1⟩
      · rw [hp, hprep]
      · rw [ht, hprep]
      · rw [hs, hprep]
      · rw [hq, hprep]
      · rw [hq'.mpr h.2, hprep]
  · have hsame : (s.apply now (unwrapRequestEnvelope req)).1 =
        s.prepared now (unwrapRequestEnvelope req) := by
      unfold ServerState.apply at he ⊢
      cases hkind : ReqKind.ofName (kindOf (unwrapRequestEnvelope req)) with
      | none => rfl
      | some kind =>
        rw [hkind] at he
        exact ServerState.dispatch_keeps (fun h => hk (by rw [hkind, h])) e he
    have hno : ¬ s.MovesLease now (unwrapRequestEnvelope req) := fun h => hk h.1
    constructor
    · intro h
      exact ⟨hmsg.mp h.messages, hno⟩
    · intro h
      refine ⟨?_, ?_, ?_, ?_, ?_, hmsg.mpr h.1⟩ <;> rw [hsame]

def lateRun : List Op :=
  [.apply 0 (request "promise.create" ⟨"c", none⟩ (PromiseCreateReq.toJson
      { id := "p", timeoutAt := 10, param := {}, tags := ∅ })),
    .apply 1 (request "promise.register_listener" ⟨"c", none⟩
      (.obj [("awaited", .str "p"), ("address", .str "local://uni@default/w")]))]

/-- A listener request without an address is refused after it has expired the promise, and
the first listener's message is not dispatched. -/
theorem error_path_drops_unblock :
    let req := envelope "promise.register_listener" ⟨"c", none⟩
      (.obj [("awaited", .str "p"), ("address", .str "")])
    (∃ e, ((ServerState.init.run lateRun).apply 20 (unwrapRequestEnvelope req)).2 = .error e) ∧
      ¬ CleanError (ServerState.init.run lateRun) 20 req := by
  refine ⟨⟨_, rfl⟩, fun h => ?_⟩
  have hm := h.messages ⟨"local://uni@default/w", _⟩ (List.mem_singleton_self _)
  exact nomatch hm

/-- The same request about a promise without a listener: it is refused, and the promise has
expired. -/
theorem error_path_clean_expired :
    let req := envelope "promise.register_listener" ⟨"c", none⟩
      (.obj [("awaited", .str "p"), ("address", .str "")])
    (∃ e, ((ServerState.init.run (lateRun.take 1)).apply 20 (unwrapRequestEnvelope req)).2 =
        .error e) ∧
      (((ServerState.init.run (lateRun.take 1)).apply 20
        (unwrapRequestEnvelope req)).1.promises.lookup "p").map (·.state) =
          some .rejectedTimedout ∧
      CleanError (ServerState.init.run (lateRun.take 1)) 20 req := by
  intro req
  refine ⟨⟨_, rfl⟩, by decide, (error_path_clean_iff _ 20 req _ rfl).mpr ⟨fun h => ?_, fun h => ?_⟩⟩
  · obtain ⟨pre, a, post, hids, -, htold⟩ := h
    have ha : a ∈ namedBy req := by simp [hids]
    obtain rfl : a = "p" := List.mem_singleton.mp ha
    rcases htold with hsub | ⟨b, hb, -⟩
    · exact hsub rfl
    · exact List.not_mem_nil hb
  · exact absurd h.1 (by decide)

end Resonate.Network
