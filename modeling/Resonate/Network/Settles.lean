import Resonate.Network.Coherent

/-!
# Settlements

What the settlement of a list of pending promises does to a coherent state, in
closed form: their tasks are fulfilled and withdrawn from all awaiters, the tasks
awaiting them are resumed, their subscribers are notified. A single settlement
has this form, one more settlement extends it, and so do the three phases of a
tick, which settle their promises together.
-/

namespace Resonate.Network
open Lib

namespace ServerState

def awaitedIn (s : ServerState) (l : List String) (a : String) : List String :=
  l.filter fun d => a ∈ s.awaitersOf d

def record (s : ServerState) (id : String) (f : DurablePromise → DurablePromise) : ServerState :=
  { s with promises := HashMap.modify s.promises id f }.delPTimeout id

theorem record_promises (s : ServerState) (id a : String) (f : DurablePromise → DurablePromise) :
    (s.record id f).promises.lookup a =
      if a = id then (s.promises.lookup a).map f else s.promises.lookup a := by
  simp [record]

@[simp] theorem record_withdraws (s : ServerState) (id a : String)
    (f : DurablePromise → DurablePromise) : (s.record id f).withdraws a = s.withdraws a := rfl

end ServerState

structure Outcome (f : DurablePromise → DurablePromise) : Prop where
  edit : ∀ p awaiters subscribers, f { p with awaiters := awaiters, subscribers := subscribers } =
    { f p with awaiters := awaiters, subscribers := subscribers }
  id : ∀ p, (f p).id = p.id
  tags : ∀ p, (f p).tags = p.tags
  state : ∀ p, (f p).state ≠ .pending

namespace Outcome

theorem expire : Outcome ServerState.expireRecord :=
  ⟨fun _ _ _ => rfl, fun _ => rfl, fun _ => rfl, fun _ => ServerState.timeoutState_ne_pending _⟩

theorem settle {state : PromiseState} (h : state ≠ .pending) (value : Json) (now : Int) :
    Outcome (settleRecord state value now) :=
  ⟨fun _ _ _ => rfl, fun _ => rfl, fun _ => rfl, fun _ => h⟩

variable {f : DurablePromise → DurablePromise} (h : Outcome f) (p : DurablePromise)
include h

theorem awaiters : (f p).awaiters = p.awaiters := by
  have he := congrArg DurablePromise.awaiters (h.edit p p.awaiters p.subscribers)
  exact he

theorem subscribers : (f p).subscribers = p.subscribers := by
  have he := congrArg DurablePromise.subscribers (h.edit p p.awaiters p.subscribers)
  exact he

theorem notices (awaiters : List String) :
    (f { p with awaiters := awaiters }).notices = (f p).notices := by
  have he := h.edit p awaiters p.subscribers
  rw [show ({ p with awaiters := awaiters } : DurablePromise) =
    { p with awaiters := awaiters, subscribers := p.subscribers } from rfl, he,
    DurablePromise.notices, DurablePromise.notices, h.subscribers]
  rfl

end Outcome

/-- `s'` is `s` with the promises of `l` settled by `f`, in this order. -/
structure Settles (now : Int) (f : DurablePromise → DurablePromise) (l : List String)
    (s s' : ServerState) : Prop where
  promise : ∀ a, s'.promises.lookup a = (s.promises.lookup a).map fun p =>
    if a ∈ l then { f p with awaiters := [], subscribers := [] }
    else { p with awaiters := p.awaiters.filter fun b => b ∉ l }
  own : ∀ a ∈ l, ∃ version, s'.tasks.lookup a =
    (s.tasks.lookup a).map fun t => ⟨t.id, .fulfilled, version, none, none, []⟩
  other : ∀ a, a ∉ l → s'.tasks.lookup a =
    (s.tasks.lookup a).map fun t => (s.awaitedIn l a).foldl (fun t d => resumedTask d t) t
  pTimeouts : s'.pTimeouts = s.pTimeouts.filter fun e => e.id ∉ l
  tEntries : ∀ a, s'.tEntries a =
    if a ∈ l then [] else if s.awaitedIn l a = [] then s.tEntries a
    else replaceHead (s.resumeTimer a now) (s.tEntries a)
  unblocks : s'.unblocks = s.unblocks ++ l.flatMap fun d =>
    (s.promises.lookup d).elim [] fun p => (f p).notices
  executes : ∀ a, a ∉ l → s'.executes a =
    if s.awaitedIn l a = [] then s.executes a
    else replaceHead (s.resumeMessage a) (s.executes a)

section One

variable {now : Int} {s : ServerState} {id : String} {f : DurablePromise → DurablePromise}

theorem Coherent.task_of_pending (h : Coherent s) (hp : s.isPending id = true) {t : Task}
    (ht : s.tasks.lookup id = some t) : t.state ≠ .fulfilled := by
  obtain ⟨p, hl, hs⟩ := ServerState.isPending_iff.mp hp
  intro hf
  exact ((h.cell id).fulfilled_iff p hl t ht).mp hf hs

theorem Coherent.withdraws (h : Coherent s) (hp : s.isPending id = true) :
    s.withdraws id = (s.tasks.lookup id).isSome := by
  unfold ServerState.withdraws
  cases ht : s.tasks.lookup id with
  | none => rfl
  | some t => simpa using h.task_of_pending hp ht

theorem Coherent.not_awaiter (h : Coherent s) (ht : s.tasks.lookup id = none) (a : String) :
    id ∉ s.awaitersOf a := by
  unfold ServerState.awaitersOf
  cases hp : s.promises.lookup a with
  | none => simp
  | some p =>
    intro hid
    obtain ⟨t, ht', -⟩ := h.awaiters.awaiter a p id hp hid
    simp [ht] at ht'

theorem Coherent.filter_awaiters (h : Coherent s) (hp : s.isPending id = true) {a : String}
    {p : DurablePromise} (hl : s.promises.lookup a = some p) :
    (if s.withdraws id then { p with awaiters := p.awaiters.filter fun b => b ≠ id } else p) =
      { p with awaiters := p.awaiters.filter fun b => b ∉ [id] } := by
  have hfun : (fun b : String => decide (b ∉ [id])) = fun b => decide (b ≠ id) := by simp
  rw [hfun]
  split_ifs with hw
  · rfl
  · rw [h.withdraws hp] at hw
    have hnot := h.not_awaiter (by simpa using hw) a
    rw [ServerState.awaitersOf, hl] at hnot
    have hself : (p.awaiters.filter fun b => b ≠ id) = p.awaiters :=
      List.filter_eq_self.mpr fun b hb => by
        have hne : b ≠ id := fun hbi => hnot (hbi ▸ hb)
        simpa using hne
    rw [hself]

theorem awaitersOf_record (hf : Outcome f) (a : String) :
    (s.record id f).awaitersOf a = s.awaitersOf a := by
  simp only [ServerState.awaitersOf, ServerState.record_promises]
  split_ifs
  · cases s.promises.lookup a with
    | none => rfl
    | some p => exact hf.awaiters p
  · rfl

theorem Coherent.not_self_awaiter (h : Coherent s) (hf : Outcome f) (hp : s.isPending id = true) :
    id ∉ ((s.record id f).enqueueSettle id).awaitersOf id := by
  rw [ServerState.awaitersOf_enqueueSettle, awaitersOf_record hf]
  rw [ServerState.record_withdraws, h.withdraws hp]
  cases ht : s.tasks.lookup id with
  | none => simpa using h.not_awaiter ht id
  | some t => simp

theorem mem_awaitersOf_enqueueSettle {s : ServerState} {a : String} (ha : a ≠ id) :
    a ∈ (s.enqueueSettle id).awaitersOf id ↔ a ∈ s.awaitersOf id := by
  rw [ServerState.awaitersOf_enqueueSettle]
  split_ifs
  · simp [ha]
  · rfl

theorem resume_enqueueSettle (now : Int) {s : ServerState} {a : String} (ha : a ≠ id) :
    (s.enqueueSettle id).resumeTimer a now = s.resumeTimer a now ∧
      (s.enqueueSettle id).resumeMessage a = s.resumeMessage a := by
  have ht : (s.enqueueSettle id).tasks.lookup a = s.tasks.lookup a := by
    rw [ServerState.enqueueSettle_tasks, if_neg ha]
  have htarget : (s.enqueueSettle id).targetOf a = s.targetOf a := by
    rw [ServerState.targetOf, ServerState.enqueueSettle_promises, ServerState.targetOf]
    cases s.promises.lookup a with
    | none => rfl
    | some p =>
      simp only [Option.map_some, Option.bind_some]
      split_ifs <;> rfl
  simp only [ServerState.resumeTimer, ServerState.resumeMessage, ServerState.executeFor, ht,
    htarget, and_self]

theorem awaitedIn_singleton {a : String} :
    s.awaitedIn [id] a = if a ∈ s.awaitersOf id then [id] else [] := by
  by_cases h : a ∈ s.awaitersOf id <;> simp [ServerState.awaitedIn, h]

theorem Coherent.settles_one (h : Coherent s) (hf : Outcome f) (hp : s.isPending id = true) :
    Settles now f [id] s ((s.record id f).settled id now) where
  promise a := by
    rw [ServerState.settled_promises, ServerState.record_promises]
    cases hl : s.promises.lookup a with
    | none => simp
    | some p =>
      by_cases ha : a = id
      · subst ha
        simp only [if_true, Option.map_some, ServerState.chainRecord, List.mem_singleton]
        split_ifs <;> rfl
      · rw [if_neg ha, Option.map_some, Option.map_some, if_neg (by simpa using ha : a ∉ [id]),
          ← h.filter_awaiters hp hl, ServerState.chainRecord, if_neg ha,
          ServerState.record_withdraws]
  own a ha := by
    obtain rfl := List.mem_singleton.mp ha
    rw [ServerState.settled_tasks, if_pos rfl]
    have ht' : (s.record a f).tasks.lookup a = s.tasks.lookup a := rfl
    rw [ServerState.taskOfSettled, ht']
    cases ht : s.tasks.lookup a with
    | some t => exact ⟨t.version, by simp [fulfillTask, h.task_of_pending hp ht]⟩
    | none =>
      obtain ⟨p, hl, hs⟩ := ServerState.isPending_iff.mp hp
      have hno : p.targeted = false := by
        by_contra htarget
        obtain ⟨t, ht'⟩ := (h.cell a).targeted p hl (by simpa using htarget)
        simp [ServerState.cell, ht] at ht'
      have htags : (s.record a f).hasTarget a = false := by
        rw [ServerState.hasTarget, ServerState.record_promises, if_pos rfl, hl]
        simpa [DurablePromise.targeted, hf.tags] using hno
      exact ⟨0, by simp [htags]⟩
  other a ha := by
    have hne : a ≠ id := by simpa using ha
    rw [ServerState.settled_tasks, if_neg hne, awaitersOf_record hf, awaitedIn_singleton]
    have ht' : (s.record id f).tasks.lookup a = s.tasks.lookup a := rfl
    rw [ht']
    split_ifs
    · rfl
    · simp
  pTimeouts := by
    have hq : ((s.record id f).settled id now).pTimeouts = (s.record id f).pTimeouts := by
      simp [ServerState.settled]
    rw [hq]
    exact List.filter_congr fun e _ => by simp
  tEntries a := by
    have hq : ((s.record id f).settled id now).tEntries a =
        ((((s.record id f).enqueueSettle id).resumeAwaiters id now).tEntries a) := by
      rw [ServerState.tEntries, ServerState.settled, ServerState.notifySubscribers_tTimeouts]
      rfl
    rw [hq, ServerState.resumeAwaiters_tEntries, ServerState.enqueueSettle_tEntries]
    have hsame : (s.record id f).tEntries a = s.tEntries a := rfl
    rw [hsame]
    by_cases ha : a = id
    · subst ha
      rw [if_neg (h.not_self_awaiter hf hp), if_pos (List.mem_singleton_self a)]
      rw [ServerState.record_withdraws, h.withdraws hp]
      cases ht : s.tasks.lookup a with
      | some t => simp
      | none =>
        have hes := (h.cell a).tEntries
        simp only [TimersOk, ServerState.cell, ht, Option.map_none] at hes
        simp [hes]
    · rw [if_neg (by simpa using ha : a ∉ [id]), awaitedIn_singleton]
      simp only [ha, false_and, if_false, mem_awaitersOf_enqueueSettle ha, awaitersOf_record hf,
        (resume_enqueueSettle now ha).1]
      have hr : (s.record id f).resumeTimer a now = s.resumeTimer a now := rfl
      rw [hr]
      by_cases hm : a ∈ s.awaitersOf id <;> simp [hm]
  unblocks := by
    have hq : ((s.record id f).settled id now).unblocks =
        (s.record id f).unblocks ++ ((s.record id f).enqueueSettle id).noticesOf id := by
      rw [ServerState.settled, ServerState.notifySubscribers_unblocks,
        ServerState.resumeAwaiters_unblocks, ServerState.noticesOf_resumeAwaiters,
        ServerState.unblocks, ServerState.enqueueSettle_outgoing]
      rfl
    rw [hq]
    obtain ⟨p, hl, -⟩ := ServerState.isPending_iff.mp hp
    have hn : ((s.record id f).enqueueSettle id).noticesOf id = (f p).notices := by
      rw [ServerState.noticesOf, ServerState.enqueueSettle_promises, ServerState.record_promises,
        if_pos rfl, hl]
      simp only [Option.map_some, Option.elim_some]
      split_ifs <;> rfl
    rw [hn]
    simp [hl]
    rfl
  executes a ha := by
    have hne : a ≠ id := by simpa using ha
    have hq : ((s.record id f).settled id now).executes a =
        (((s.record id f).enqueueSettle id).resumeAwaiters id now).executes a :=
      ServerState.notifySubscribers_executes ..
    have hr : (s.record id f).resumeMessage a = s.resumeMessage a := by
      simp [ServerState.resumeMessage, ServerState.executeFor, ServerState.targetOf,
        ServerState.record, hne]
    have he : ((s.record id f).enqueueSettle id).executes a = s.executes a := by
      rw [ServerState.executes, ServerState.enqueueSettle_outgoing]
      rfl
    rw [hq, ServerState.resumeAwaiters_executes, he, (resume_enqueueSettle now hne).2, hr,
      awaitedIn_singleton]
    simp only [mem_awaitersOf_enqueueSettle hne, awaitersOf_record hf]
    by_cases hm : a ∈ s.awaitersOf id <;> simp [hm]

end One

/-- A task resumed by several promises. -/
def resumedBy (ds : List String) (t : Task) : Task := ds.foldl (fun t d => resumedTask d t) t

section Resumed

variable (ds : List String) (t : Task)

theorem resumedTask_fields (d : String) :
    (resumedTask d t).id = t.id ∧ (resumedTask d t).pid = t.pid ∧ (resumedTask d t).ttl = t.ttl := by
  obtain ⟨id, state, version, pid, ttl, resumes⟩ := t
  cases state <;> exact ⟨rfl, rfl, rfl⟩

theorem resumedBy_fields :
    (resumedBy ds t).id = t.id ∧ (resumedBy ds t).pid = t.pid ∧ (resumedBy ds t).ttl = t.ttl := by
  induction ds generalizing t with
  | nil => exact ⟨rfl, rfl, rfl⟩
  | cons d ds ih =>
    obtain ⟨hid, hpid, httl⟩ := ih (resumedTask d t)
    obtain ⟨hid', hpid', httl'⟩ := resumedTask_fields t d
    exact ⟨hid.trans hid', hpid.trans hpid', httl.trans httl'⟩

theorem resumedBy_append (ds' : List String) :
    resumedBy (ds ++ ds') t = resumedBy ds' (resumedBy ds t) := List.foldl_append ..

variable {ds t}

theorem resumedBy_fulfilled (h : t.state = .fulfilled) : resumedBy ds t = t := by
  induction ds with
  | nil => rfl
  | cons d ds ih => exact (congrArg (resumedBy ds) (resumedTask_fulfilled h)).trans ih

theorem resumedBy_of_ne_suspended (ds : List String) (h : t.state ≠ .suspended) :
    (resumedBy ds t).state = t.state ∧ (resumedBy ds t).version = t.version ∧
      (t.state ≠ .fulfilled → ∀ x, x ∈ (resumedBy ds t).resumes ↔ x ∈ t.resumes ∨ x ∈ ds) := by
  induction ds generalizing t with
  | nil => exact ⟨rfl, rfl, fun _ x => by simp [resumedBy]⟩
  | cons d ds ih =>
    obtain ⟨id, state, version, pid, ttl, resumes⟩ := t
    cases state with
    | suspended => exact absurd rfl h
    | fulfilled =>
      obtain ⟨hs, hv, -⟩ := ih (t := ⟨id, .fulfilled, version, pid, ttl, resumes⟩) h
      exact ⟨hs, hv, fun hf => absurd rfl hf⟩
    | pending =>
      obtain ⟨hs, hv, hr⟩ := ih (t := ⟨id, .pending, version, pid, ttl, resumes.insert d⟩) h
      exact ⟨hs, hv, fun hf x => (hr hf x).trans (by simp [or_assoc, or_left_comm])⟩
    | acquired =>
      obtain ⟨hs, hv, hr⟩ := ih (t := ⟨id, .acquired, version, pid, ttl, resumes.insert d⟩) h
      exact ⟨hs, hv, fun hf x => (hr hf x).trans (by simp [or_assoc, or_left_comm])⟩
    | halted =>
      obtain ⟨hs, hv, hr⟩ := ih (t := ⟨id, .halted, version, pid, ttl, resumes.insert d⟩) h
      exact ⟨hs, hv, fun hf x => (hr hf x).trans (by simp [or_assoc, or_left_comm])⟩

theorem resumedBy_suspended (h : t.state = .suspended) (hne : ds ≠ []) :
    (resumedBy ds t).state = .pending ∧ (resumedBy ds t).version = t.version + 1 ∧
      ∀ x, x ∈ (resumedBy ds t).resumes ↔ x ∈ ds := by
  obtain ⟨id, state, version, pid, ttl, resumes⟩ := t
  obtain rfl : state = .suspended := h
  cases ds with
  | nil => exact absurd rfl hne
  | cons d ds =>
    obtain ⟨hs, hv, hr⟩ := resumedBy_of_ne_suspended ds
      (t := ⟨id, .pending, version + 1, pid, ttl, [d]⟩) (by simp)
    exact ⟨hs, hv, fun x => (hr (by simp) x).trans (by simp)⟩

theorem resumedBy_state_ne_fulfilled (h : t.state ≠ .fulfilled) :
    (resumedBy ds t).state ≠ .fulfilled := by
  by_cases hs : t.state = .suspended
  · by_cases hne : ds = []
    · rw [hne]
      exact h
    · simp [(resumedBy_suspended hs hne).1]
  · rwa [(resumedBy_of_ne_suspended _ hs).1]

end Resumed

section Keeps

variable {now : Int} {s s' : ServerState} {l : List String} {f : DurablePromise → DurablePromise}

theorem Settles.pEntries (h : Settles now f l s s') (a : String) :
    s'.pEntries a = if a ∈ l then [] else s.pEntries a := by
  rw [ServerState.pEntries, h.pTimeouts, List.filter_filter, ServerState.pEntries]
  split_ifs with ha
  · exact List.filter_eq_nil_iff.mpr fun e _ => by
      by_cases he : e.id = a <;> simp [he, ha]
  · refine List.filter_congr fun e _ => ?_
    by_cases he : e.id = a <;> simp [he, ha]

/-- A settlement leaves a coherent state. -/
theorem Coherent.settles (h : Coherent s) (hf : Outcome f) (hl : ∀ d ∈ l, s.isPending d = true)
    (hs : Settles now f l s s') : Coherent s' where
  awaiters := by
    constructor
    · constructor
      · intro a t ht
        have hex : ∃ u, s.tasks.lookup a = some u := by
          by_cases ha : a ∈ l
          · obtain ⟨v, hv⟩ := hs.own a ha
            rw [show s'.tasks.lookup a = some t from ht] at hv
            obtain ⟨u, hu, -⟩ := Option.map_eq_some_iff.mp hv.symm
            exact ⟨u, hu⟩
          · have hv := hs.other a ha
            rw [show s'.tasks.lookup a = some t from ht] at hv
            obtain ⟨u, hu, -⟩ := Option.map_eq_some_iff.mp hv.symm
            exact ⟨u, hu⟩
        obtain ⟨u, hu⟩ := hex
        obtain ⟨p, hp⟩ := h.awaiters.wf.promise_of_task a u hu
        exact ⟨_, by rw [hs.promise a, show s.promises.lookup a = some p from hp]; rfl⟩
      · intro a p hp
        have hp' : s'.promises.lookup a = some p := hp
        rw [hs.promise a] at hp'
        obtain ⟨q, hq, -⟩ := Option.map_eq_some_iff.mp hp'
        exact h.awaiters.wf.id_ne a q hq
    · intro a p hp hst _
      have hp' : s'.promises.lookup a = some p := hp
      rw [hs.promise a] at hp'
      obtain ⟨q, hq, rfl⟩ := Option.map_eq_some_iff.mp hp'
      split_ifs at hst ⊢
      · rfl
      · simp [h.awaiters.settled a q hq hst (Set.notMem_empty a)]
    · intro a p b hp hb
      have hp' : s'.promises.lookup a = some p := hp
      rw [hs.promise a] at hp'
      obtain ⟨q, hq, rfl⟩ := Option.map_eq_some_iff.mp hp'
      split_ifs at hb
      · cases hb
      · obtain ⟨hbq, hbl⟩ := List.mem_filter.mp hb
        obtain ⟨t, ht, htf⟩ := h.awaiters.awaiter a q b hq hbq
        exact ⟨_, by rw [hs.other b (by simpa using hbl), show s.tasks.lookup b = some t from ht]; rfl,
          resumedBy_state_ne_fulfilled htf⟩
  cell a := by
    have hc := h.cell a
    have hps := hs.pEntries a
    have hes := hs.tEntries a
    by_cases ha : a ∈ l
    · obtain ⟨p, hp, hpend⟩ := ServerState.isPending_iff.mp (hl a ha)
      obtain ⟨v, hv⟩ := hs.own a ha
      have hpr := hs.promise a
      rw [hp, Option.map_some, if_pos ha] at hpr
      rw [if_pos ha] at hps hes
      have htimers : ({ f p with awaiters := [], subscribers := [] } : DurablePromise).timers = [] :=
        if_neg fun hh => hf.state p hh.1
      have hcell : s'.cell a = ⟨some { f p with awaiters := [], subscribers := [] },
          (s.tasks.lookup a).map fun t => ⟨t.id, .fulfilled, v, none, none, []⟩,
          ({ f p with awaiters := [], subscribers := [] } : DurablePromise).timers, []⟩ := by
        rw [ServerState.cell, hpr, hv, hps, hes, htimers]
      rw [hcell]
      refine .new ⟨(hf.id p).trans (hc.promise p hp).id, fun hh => absurd hh (hf.state p),
        fun _ => rfl, List.nodup_nil⟩ ?_ ?_ ?_ ?_
      · intro t ht
        obtain ⟨u, hu, rfl⟩ := Option.map_eq_some_iff.mp ht
        exact ⟨(hc.task u hu).id, by simp, by simp, by simp⟩
      · intro t ht
        obtain ⟨u, hu, rfl⟩ := Option.map_eq_some_iff.mp ht
        exact iff_of_true rfl (hf.state p)
      · intro htarget
        have htp : p.targeted = true := by
          simpa [DurablePromise.targeted, hf.tags] using htarget
        obtain ⟨u, hu⟩ := hc.targeted p hp htp
        exact ⟨_, by rw [show s.tasks.lookup a = some u from hu]; rfl⟩
      · cases s.tasks.lookup a <;> rfl
    · rw [if_neg ha] at hps hes
      have hpr := hs.promise a
      simp only [if_neg ha] at hpr
      have ht := hs.other a ha
      have hcell : s'.cell a = ⟨s'.promises.lookup a, s'.tasks.lookup a, s.pEntries a,
          s'.tEntries a⟩ := by rw [ServerState.cell, hps]
      rw [hcell, hpr]
      have hedit : ∀ {task : Option Task} {es : List TTimeout},
          Cell.Ok a ⟨s.promises.lookup a, task, s.pEntries a, es⟩ →
          Cell.Ok a ⟨(s.promises.lookup a).map fun p =>
            { p with awaiters := p.awaiters.filter fun b => b ∉ l }, task, s.pEntries a, es⟩ := by
        intro task es hok
        cases hp : s.promises.lookup a with
        | none => rwa [hp] at hok
        | some p =>
          exact hok.setPromise hp (hok.promise p hp).settled (hok.promise p hp).nodup
      refine hedit ?_
      cases htask : s.tasks.lookup a with
      | none =>
        rw [htask] at ht
        have hempty : s'.tEntries a = s.tEntries a := by
          have hnone : s.resumeTimer a now = none := by simp [ServerState.resumeTimer, htask]
          rw [hes, hnone]
          split_ifs <;> rfl
        rw [ht, hempty]
        have hok := hc
        rw [ServerState.cell, htask] at hok
        exact hok
      | some t =>
        rw [htask, Option.map_some] at ht
        change _ = some (resumedBy (s.awaitedIn l a) t) at ht
        rw [ht]
        obtain ⟨hid, hpid, httl⟩ := resumedBy_fields (s.awaitedIn l a) t
        have hok := hc.task t htask
        have htes := hc.tEntries
        simp only [ServerState.cell, htask] at htes
        by_cases hsus : t.state = .suspended
        · by_cases hne : s.awaitedIn l a = []
          · rw [if_pos hne] at hes
            rw [hes, hne]
            have hok := hc
            rw [ServerState.cell, htask] at hok
            exact hok
          · obtain ⟨hst, -, -⟩ := resumedBy_suspended hsus hne
            have hnil : s.tEntries a = [] := by simpa [TimersOk, hsus] using htes
            rw [if_neg hne, hnil] at hes
            rw [hes]
            refine hc.setTask htask ⟨hid.trans hok.id, ?_, ?_, by simp [hst]⟩ (by simp [hst, hsus]) ?_
            · rw [hpid, hst]
              simp [hok.pid, hsus]
            · rw [httl, hst]
              simp [hok.ttl, hsus]
            · have hrt : s.resumeTimer a now = some (ServerState.retryTimer a now) := by
                simp [ServerState.resumeTimer, htask, hsus, Option.filter_some]
              rw [hrt, TimersOk, Option.map_some, hst]
              exact ⟨_, rfl⟩
        · obtain ⟨hst, -, -⟩ := resumedBy_of_ne_suspended (s.awaitedIn l a) hsus
          have hsame : s'.tEntries a = s.tEntries a := by
            have hnone : s.resumeTimer a now = none := by
              simp [ServerState.resumeTimer, htask, hsus, Option.filter_some]
            rw [hes, hnone]
            split_ifs <;> rfl
          rw [hsame]
          refine hc.setTask htask ⟨hid.trans hok.id, ?_, ?_, ?_⟩ (by rw [hst]) ?_
          · rw [hpid, hst]
            exact hok.pid
          · rw [httl, hst]
            exact hok.ttl
          · rw [hst]
            exact hok.not_halted
          · simpa only [TimersOk, Option.map_some, hst] using htes

end Keeps

section Compose

variable {now : Int} {s s₁ s₂ : ServerState} {l l' : List String}
variable {f : DurablePromise → DurablePromise} {a : String}

theorem resumedBy_ne_suspended {ds : List String} (hne : ds ≠ []) (t : Task) :
    (resumedBy ds t).state ≠ .suspended := by
  by_cases hs : t.state = .suspended
  · simp [(resumedBy_suspended hs hne).1]
  · rwa [(resumedBy_of_ne_suspended _ hs).1]

theorem awaitedIn_append (s : ServerState) (l l' : List String) (a : String) :
    s.awaitedIn (l ++ l') a = s.awaitedIn l a ++ s.awaitedIn l' a := List.filter_append ..

theorem Settles.awaitedIn (h : Settles now f l s s₁) (hd : ∀ d ∈ l', d ∉ l) (ha : a ∉ l) :
    s₁.awaitedIn l' a = s.awaitedIn l' a := by
  refine List.filter_congr fun d hdl => ?_
  rw [ServerState.awaitersOf, ServerState.awaitersOf, h.promise d]
  cases s.promises.lookup d with
  | none => rfl
  | some p => simp [hd d hdl, ha]

theorem Settles.targetOf (h : Settles now f l s s₁) (hf : Outcome f) (a : String) :
    s₁.targetOf a = s.targetOf a := by
  rw [ServerState.targetOf, h.promise a, ServerState.targetOf]
  cases s.promises.lookup a with
  | none => rfl
  | some p =>
    simp only [Option.map_some, Option.bind_some]
    split_ifs
    · rw [show ({ f p with awaiters := [], subscribers := [] } : DurablePromise).tags = p.tags from
        hf.tags p]
    · rfl

/-- A task that has been resumed is not resumed again. -/
theorem Settles.resume (h : Settles now f l s s₁) (hf : Outcome f) (ha : a ∉ l) :
    s₁.resumeTimer a now = (if s.awaitedIn l a = [] then s.resumeTimer a now else none) ∧
      s₁.resumeMessage a = if s.awaitedIn l a = [] then s.resumeMessage a else none := by
  have ht := h.other a ha
  simp only [ServerState.resumeTimer, ServerState.resumeMessage, ServerState.executeFor,
    h.targetOf hf, ht]
  by_cases he : s.awaitedIn l a = []
  · simp [he]
  · rw [if_neg he, if_neg he]
    cases s.tasks.lookup a with
    | none => exact ⟨rfl, rfl⟩
    | some t =>
      have hns := resumedBy_ne_suspended he t
      rw [resumedBy] at hns
      simp [Option.filter_some, hns]

theorem Settles.trans (h : Settles now f l s s₁) (h' : Settles now f l' s₁ s₂) (hf : Outcome f)
    (hd : ∀ d ∈ l', d ∉ l) : Settles now f (l ++ l') s s₂ where
  promise a := by
    rw [h'.promise a, h.promise a]
    cases s.promises.lookup a with
    | none => rfl
    | some p =>
      simp only [Option.map_some, Option.some.injEq, List.mem_append]
      by_cases ha' : a ∈ l'
      · have ha := hd a ha'
        simp only [ha, ha', if_true, if_false, or_true]
        exact congrArg (fun q : DurablePromise => { q with awaiters := [], subscribers := [] })
          (hf.edit p _ p.subscribers)
      · by_cases ha : a ∈ l
        · simp [ha, ha']
        · simp only [ha, ha', if_false, or_self, List.filter_filter]
          congr 1
          refine List.filter_congr fun b _ => ?_
          simp [not_or, Bool.and_comm]
  own a ha := by
    rcases List.mem_append.mp ha with ha | ha
    · obtain ⟨v, hv⟩ := h.own a ha
      refine ⟨v, ?_⟩
      rw [h'.other a fun ha' => hd a ha' ha, hv]
      cases s.tasks.lookup a with
      | none => rfl
      | some t =>
        simp only [Option.map_some]
        exact congrArg some (resumedBy_fulfilled rfl)
    · obtain ⟨v, hv⟩ := h'.own a ha
      refine ⟨v, ?_⟩
      rw [hv, h.other a (hd a ha)]
      cases s.tasks.lookup a with
      | none => rfl
      | some t =>
        have hid := (resumedBy_fields (s.awaitedIn l a) t).1
        rw [resumedBy] at hid
        simp [hid]
  other a ha := by
    obtain ⟨ha₁, ha₂⟩ := not_or.mp (mt List.mem_append.mpr ha)
    rw [h'.other a ha₂, h.other a ha₁, h.awaitedIn hd ha₁, awaitedIn_append, Option.map_map]
    congr 1
    funext t
    exact (resumedBy_append ..).symm
  pTimeouts := by
    rw [h'.pTimeouts, h.pTimeouts, List.filter_filter]
    refine List.filter_congr fun e _ => ?_
    simp [not_or, Bool.and_comm]
  tEntries a := by
    rw [h'.tEntries a, h.tEntries a]
    simp only [List.mem_append, awaitedIn_append, List.append_eq_nil_iff]
    by_cases ha' : a ∈ l'
    · simp [ha']
    · by_cases ha : a ∈ l
      · obtain ⟨v, hv⟩ := h.own a ha
        have hr : s₁.resumeTimer a now = none := by
          rw [ServerState.resumeTimer, hv]
          cases s.tasks.lookup a <;> simp [Option.filter_some]
        simp [ha, ha', hr]
      · simp only [ha, ha', if_false, or_self, h.awaitedIn hd ha, (h.resume hf ha).1]
        by_cases he : s.awaitedIn l a = []
        · simp [he]
        · simp [he]
  unblocks := by
    rw [h'.unblocks, h.unblocks, List.append_assoc, List.flatMap_append]
    congr 2
    refine List.flatMap_congr fun d hdl => ?_
    rw [h.promise d]
    cases s.promises.lookup d with
    | none => rfl
    | some p => simp [hd d hdl, hf.notices]
  executes a ha := by
    obtain ⟨ha₁, ha₂⟩ := not_or.mp (mt List.mem_append.mpr ha)
    rw [h'.executes a ha₂, h.executes a ha₁, h.awaitedIn hd ha₁, (h.resume hf ha₁).2]
    simp only [awaitedIn_append, List.append_eq_nil_iff]
    by_cases he : s.awaitedIn l a = []
    · simp [he]
    · simp [he]

theorem Settles.nil (s : ServerState) : Settles now f [] s s where
  promise a := by cases s.promises.lookup a <;> simp
  own a ha := nomatch ha
  other a _ := by cases s.tasks.lookup a <;> simp [ServerState.awaitedIn]
  pTimeouts := by simp
  tEntries a := by simp [ServerState.awaitedIn]
  unblocks := by simp
  executes a _ := by simp [ServerState.awaitedIn]

end Compose

end Resonate.Network
