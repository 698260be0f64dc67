import Resonate.Network.Settles
import Resonate.Network.Lease

/-!
# Expiry in bulk

The three promise phases of a tick, each in closed form over its work list.
Together they settle the due promises, as does their expiry one at a time in any
order, so the two agree.
-/

namespace Resonate.Network
open Lib

namespace ServerState

variable {now : Int} {s : ServerState} {ids : List String} {a : String}

section Phases

theorem tickSettle_promises (hp : s.isPending a = true) (b : String) :
    (s.tickSettle a).promises.lookup b = (s.promises.lookup b).map fun p =>
      if b = a then { expireRecord p with value := .null } else p := by
  rw [tickSettle, if_pos hp, tickExpire, delPTimeout_promises, HashMap.lookup_modify]
  by_cases h : b = a <;> simp [h]

theorem isPending_tickSettle (hp : s.isPending a = true) {b : String} (h : b ≠ a) :
    (s.tickSettle a).isPending b = s.isPending b := by
  rw [tickSettle, if_pos hp, isPending_tickExpire]
  simp [h]

theorem foldl_tickSettle (hn : ids.Nodup) (hp : ∀ d ∈ ids, s.isPending d = true) :
    (∀ a, (ids.foldl tickSettle s).promises.lookup a = (s.promises.lookup a).map fun p =>
      if a ∈ ids then { expireRecord p with value := .null } else p) ∧
      (ids.foldl tickSettle s).pTimeouts = s.pTimeouts.filter fun e => e.id ∉ ids := by
  induction ids generalizing s with
  | nil => exact ⟨fun a => by cases h : s.promises.lookup a <;> simp [h], by simp⟩
  | cons d ds ih =>
    obtain ⟨hd, hds⟩ := List.nodup_cons.mp hn
    have hpd := hp d (by simp)
    have hrest : ∀ b ∈ ds, (s.tickSettle d).isPending b = true := by
      intro b hb
      rw [isPending_tickSettle hpd (fun h => hd (h ▸ hb))]
      exact hp b (by simp [hb])
    obtain ⟨hpr, hq⟩ := ih hds hrest
    constructor
    · intro a
      rw [List.foldl_cons, hpr, tickSettle_promises hpd, Option.map_map]
      congr 1
      funext p
      by_cases ha : a = d
      · subst ha
        simp [hd]
      · simp [ha]
    · have hq' : (s.tickSettle d).pTimeouts = s.pTimeouts.filter fun e => e.id ≠ d := by
        rw [tickSettle, if_pos hpd]
        rfl
      rw [List.foldl_cons, hq, hq', List.filter_filter]
      refine List.filter_congr fun e _ => ?_
      simp [not_or, Bool.and_comm]

theorem tickSettle_frame (s : ServerState) (a : String) :
    (s.tickSettle a).tasks = s.tasks ∧ (s.tickSettle a).tTimeouts = s.tTimeouts ∧
      (s.tickSettle a).outgoing = s.outgoing := by
  unfold tickSettle
  split_ifs <;> exact ⟨rfl, rfl, rfl⟩

theorem foldl_tickSettle_frame (s : ServerState) (ids : List String) :
    (ids.foldl tickSettle s).tasks = s.tasks ∧ (ids.foldl tickSettle s).tTimeouts = s.tTimeouts ∧
      (ids.foldl tickSettle s).outgoing = s.outgoing := by
  induction ids generalizing s with
  | nil => exact ⟨rfl, rfl, rfl⟩
  | cons d ds ih =>
    obtain ⟨ht, hq, ho⟩ := ih (s.tickSettle d)
    obtain ⟨ht', hq', ho'⟩ := tickSettle_frame s d
    exact ⟨ht.trans ht', hq.trans hq', ho.trans ho'⟩

theorem withdraws_iff {d : String} :
    s.withdraws d = true ↔ ∃ t, s.tasks.lookup d = some t ∧ t.state ≠ .fulfilled := by
  unfold withdraws
  cases s.tasks.lookup d <;> simp

theorem withdraws_enqueueSettle {d : String} (h : a ≠ d) :
    (s.enqueueSettle d).withdraws a = s.withdraws a := by
  rw [withdraws, enqueueSettle_tasks, if_neg h, withdraws]

theorem foldl_enqueueSettle (hn : ids.Nodup) (hw : ∀ d ∈ ids, s.withdraws d = true) :
    (∀ a, (ids.foldl enqueueSettle s).promises.lookup a = (s.promises.lookup a).map fun p =>
      { p with awaiters := p.awaiters.filter fun b => b ∉ ids }) ∧
      (∀ a, (ids.foldl enqueueSettle s).tasks.lookup a =
        if a ∈ ids then (s.tasks.lookup a).map fulfillTask else s.tasks.lookup a) ∧
      (∀ a, (ids.foldl enqueueSettle s).tEntries a = if a ∈ ids then [] else s.tEntries a) := by
  induction ids generalizing s with
  | nil => exact ⟨fun a => by cases h : s.promises.lookup a <;> simp [h], by simp, by simp⟩
  | cons d ds ih =>
    obtain ⟨hd, hds⟩ := List.nodup_cons.mp hn
    have hwd := hw d (by simp)
    have hrest : ∀ b ∈ ds, (s.enqueueSettle d).withdraws b = true := by
      intro b hb
      rw [withdraws_enqueueSettle fun h => hd (by rwa [← h])]
      exact hw b (by simp [hb])
    obtain ⟨hpr, ht, hes⟩ := ih hds hrest
    refine ⟨fun a => ?_, fun a => ?_, fun a => ?_⟩
    · rw [List.foldl_cons, hpr, enqueueSettle_promises, Option.map_map]
      congr 1
      funext p
      simp only [hwd, if_true, Function.comp_apply, List.filter_filter]
      congr 1
      refine List.filter_congr fun b _ => ?_
      simp [not_or, Bool.and_comm]
    · rw [List.foldl_cons, ht, enqueueSettle_tasks]
      by_cases ha : a = d
      · subst ha
        obtain ⟨t, htask, -⟩ := withdraws_iff.mp hwd
        simp [hd, htask]
      · simp [ha]
    · rw [List.foldl_cons, hes, enqueueSettle_tEntries]
      by_cases ha : a = d
      · subst ha
        simp [hwd]
      · simp [ha]

theorem foldl_enqueueSettle_frame (s : ServerState) (ids : List String) :
    (ids.foldl enqueueSettle s).pTimeouts = s.pTimeouts ∧
      (ids.foldl enqueueSettle s).outgoing = s.outgoing := by
  induction ids generalizing s with
  | nil => exact ⟨rfl, rfl⟩
  | cons d ds ih =>
    obtain ⟨hq, ho⟩ := ih (s.enqueueSettle d)
    exact ⟨hq.trans (enqueueSettle_pTimeouts s d), ho.trans (enqueueSettle_outgoing s d)⟩

theorem awaitersOf_tickNotify {d b : String} (h : b ≠ d) :
    (s.tickNotify now d).awaitersOf b = s.awaitersOf b := by
  have hp := perform_promises now s b (.wake d)
  simp only [perform, promiseAfter, if_neg h, Option.map_id'] at hp
  rw [awaitersOf, hp, awaitersOf]

theorem awaitedIn_tickNotify {d : String} (hd : d ∉ ids) :
    (s.tickNotify now d).awaitedIn ids a = s.awaitedIn ids a := by
  refine List.filter_congr fun b hb => ?_
  rw [awaitersOf_tickNotify fun h => hd (by rwa [← h])]

theorem awaitedIn_cons (s : ServerState) (d : String) (ds : List String) (a : String) :
    s.awaitedIn (d :: ds) a =
      if a ∈ s.awaitersOf d then d :: s.awaitedIn ds a else s.awaitedIn ds a := by
  rw [awaitedIn, List.filter_cons, awaitedIn]
  simp

theorem resume_tickNotify (now : Int) (s : ServerState) (d a : String) :
    (s.tickNotify now d).resumeTimer a now =
        (if a ∈ s.awaitersOf d then none else s.resumeTimer a now) ∧
      (s.tickNotify now d).resumeMessage a =
        if a ∈ s.awaitersOf d then none else s.resumeMessage a := by
  have ht := perform_tasks now s a (.wake d)
  have hp := perform_promises now s a (.wake d)
  simp only [perform, taskAfter, promiseAfter] at ht hp
  have htarget : (s.tickNotify now d).targetOf a = s.targetOf a := by
    rw [targetOf, hp, targetOf]
    cases s.promises.lookup a with
    | none => rfl
    | some p =>
      simp only [Option.map_some, Option.bind_some]
      split_ifs <;> rfl
  simp only [resumeTimer, resumeMessage, executeFor, htarget, ht]
  split_ifs
  · cases s.tasks.lookup a with
    | none => exact ⟨rfl, rfl⟩
    | some t =>
      obtain ⟨i, state, version, pid, ttl, resumes⟩ := t
      cases state <;> exact ⟨rfl, rfl⟩
  · exact ⟨rfl, rfl⟩

theorem foldl_tickNotify (now : Int) (s : ServerState) (hn : ids.Nodup) :
    (∀ a, (ids.foldl (tickNotify now) s).promises.lookup a = (s.promises.lookup a).map fun p =>
      if a ∈ ids then { p with awaiters := [], subscribers := [] } else p) ∧
      (∀ a, (ids.foldl (tickNotify now) s).tasks.lookup a =
        (s.tasks.lookup a).map (resumedBy (s.awaitedIn ids a))) ∧
      (∀ a, (ids.foldl (tickNotify now) s).tEntries a =
        if s.awaitedIn ids a = [] then s.tEntries a
        else replaceHead (s.resumeTimer a now) (s.tEntries a)) ∧
      (∀ a, (ids.foldl (tickNotify now) s).executes a =
        if s.awaitedIn ids a = [] then s.executes a
        else replaceHead (s.resumeMessage a) (s.executes a)) ∧
      (ids.foldl (tickNotify now) s).unblocks = s.unblocks ++ ids.flatMap s.noticesOf := by
  induction ids generalizing s with
  | nil =>
    refine ⟨fun a => ?_, fun a => ?_, fun a => ?_, fun a => ?_, ?_⟩
    · cases h : s.promises.lookup a <;> simp [h]
    · cases h : s.tasks.lookup a <;> simp [h, resumedBy, awaitedIn]
    · simp [awaitedIn]
    · simp [awaitedIn]
    · simp
  | cons d ds ih =>
    obtain ⟨hd, hds⟩ := List.nodup_cons.mp hn
    obtain ⟨hpr, ht, hes, hex, hu⟩ := ih (s.tickNotify now d) hds
    have hpr' := fun a => perform_promises now s a (.wake d)
    have ht' := fun a => perform_tasks now s a (.wake d)
    have hes' := fun a => perform_tEntries now s a (.wake d)
    have hex' := fun a => perform_executes now s a (.wake d)
    have hu' := perform_unblocks now s (.wake d)
    simp only [perform, promiseAfter, taskAfter, tEntriesAfter, executesAfter, unblocksAfter]
      at hpr' ht' hes' hex' hu'
    refine ⟨fun a => ?_, fun a => ?_, fun a => ?_, fun a => ?_, ?_⟩
    · rw [List.foldl_cons, hpr, hpr', Option.map_map]
      congr 1
      funext p
      by_cases ha : a = d
      · subst ha
        simp [hd]
      · simp [ha]
    · rw [List.foldl_cons, ht, ht', awaitedIn_tickNotify hd, awaitedIn_cons]
      split_ifs with hm
      · rw [Option.map_map]
        rfl
      · rfl
    · rw [List.foldl_cons, hes, hes', awaitedIn_tickNotify hd, (resume_tickNotify now s d a).1]
      simp only [awaitedIn_cons]
      by_cases hm : a ∈ s.awaitersOf d <;> simp [hm]
    · rw [List.foldl_cons, hex, hex', awaitedIn_tickNotify hd,
        (resume_tickNotify now s d a).2]
      simp only [awaitedIn_cons]
      by_cases hm : a ∈ s.awaitersOf d <;> simp [hm]
    · rw [List.foldl_cons, hu, hu', List.append_assoc, List.flatMap_cons]
      congr 2
      refine List.flatMap_congr fun b hb => ?_
      have hne : b ≠ d := fun h => hd (by rwa [← h])
      rw [noticesOf, hpr' b, noticesOf]
      simp [hne]

theorem foldl_tickNotify_pTimeouts (now : Int) (s : ServerState) (ids : List String) :
    (ids.foldl (tickNotify now) s).pTimeouts = s.pTimeouts := by
  induction ids generalizing s with
  | nil => rfl
  | cons d ds ih =>
    refine (ih _).trans ?_
    rw [tickNotify, notifySubscribers_pTimeouts, resumeAwaiters_pTimeouts]

end Phases

end ServerState

section Bulk

variable {now : Int} {s s' : ServerState} {a : String}

theorem DurablePromise.mem_timers {p : DurablePromise} {e : PTimeout} :
    e ∈ p.timers ↔ (p.state = .pending ∧ p.targeted = true) ∧ e = ⟨p.id, p.timeoutAt⟩ := by
  unfold DurablePromise.timers
  split_ifs with h <;> simp [h]

theorem Coherent.mem_duePromises (h : Coherent s) :
    a ∈ s.duePromises now ↔ ∃ p, s.promises.lookup a = some p ∧ p.state = .pending ∧
      p.timeoutAt ≤ now ∧ p.targeted = true := by
  have hps := (h.cell a).pEntries
  simp only [ServerState.cell] at hps
  constructor
  · intro ha
    obtain ⟨e, he, hea⟩ := List.mem_map.mp ha
    obtain ⟨hmem, hdue⟩ := List.mem_filter.mp he
    simp only [decide_eq_true_eq] at hdue
    have hent : e ∈ s.pEntries a := by simp [ServerState.pEntries, hmem, hea]
    rw [hps] at hent
    cases hp : s.promises.lookup a with
    | none => simp [hp] at hent
    | some p =>
      rw [hp, Option.elim_some, DurablePromise.mem_timers] at hent
      obtain ⟨⟨hst, htarget⟩, rfl⟩ := hent
      exact ⟨p, rfl, hst, hdue.1, htarget⟩
  · intro hex
    obtain ⟨p, hp, hst, hdue, htarget⟩ := hex
    have hid := ((h.cell a).promise p hp).id
    have hent : ⟨p.id, p.timeoutAt⟩ ∈ s.pEntries a := by
      rw [hps, hp, Option.elim_some, DurablePromise.mem_timers]
      exact ⟨⟨hst, htarget⟩, rfl⟩
    refine List.mem_map.mpr ⟨_, List.mem_filter.mpr ⟨(List.mem_filter.mp hent).1, ?_⟩, hid⟩
    simpa [hdue, hid] using ServerState.isPending_iff.mpr ⟨p, hp, hst⟩

theorem Coherent.nodup_duePromises (h : Coherent s) (now : Int) : (s.duePromises now).Nodup := by
  have hlen : ∀ a, (s.pEntries a).length ≤ 1 := by
    intro a
    have hps := (h.cell a).pEntries
    simp only [ServerState.cell] at hps
    rw [hps]
    cases s.promises.lookup a with
    | none => simp
    | some p =>
      rw [Option.elim_some, DurablePromise.timers]
      split_ifs <;> simp
  have hall : (s.pTimeouts.map PTimeout.id).Nodup := by
    refine List.nodup_iff_count_le_one.mpr fun a => ?_
    rw [List.count, List.countP_map, List.countP_eq_length_filter]
    refine le_of_eq_of_le (congrArg List.length (List.filter_congr fun e _ => ?_)) (hlen a)
    simp [beq_eq_decide]
  exact hall.sublist (List.Sublist.map _ List.filter_sublist)

/-- The promise phases of a tick settle the due promises together. -/
theorem Coherent.settles_bulk (h : Coherent s) :
    Settles now ServerState.expireRecord (s.duePromises now) s (s.tickPromises now) := by
  have hn := h.nodup_duePromises now
  have hdue : ∀ d ∈ s.duePromises now, s.isPending d = true := fun d hd =>
    ServerState.isPending_of_duePromises hd
  have hw : ∀ d ∈ s.duePromises now, s.withdraws d = true := by
    intro d hd
    obtain ⟨p, hp, -, -, htarget⟩ := h.mem_duePromises.mp hd
    obtain ⟨t, ht⟩ := (h.cell d).targeted p hp htarget
    rw [h.withdraws (hdue d hd), show s.tasks.lookup d = some t from ht]
    rfl
  have hval : ∀ d ∈ s.duePromises now, ∀ p, s.promises.lookup d = some p → p.value = .null := by
    intro d hd p hp
    obtain ⟨q, hq, hst, -⟩ := h.mem_duePromises.mp hd
    rw [hp] at hq
    obtain rfl := Option.some.inj hq
    exact (((h.cell d).promise p hp).pending hst).1
  obtain ⟨hpr₁, hq₁⟩ := ServerState.foldl_tickSettle hn hdue
  obtain ⟨ht₁, htt₁, ho₁⟩ := ServerState.foldl_tickSettle_frame s (s.duePromises now)
  set l := s.duePromises now
  set s₁ := l.foldl ServerState.tickSettle s
  have hw₁ : ∀ d ∈ l, s₁.withdraws d = true := by
    intro d hd
    rw [ServerState.withdraws, ht₁]
    exact hw d hd
  obtain ⟨hpr₂, ht₂, hes₂⟩ := ServerState.foldl_enqueueSettle hn hw₁
  obtain ⟨hq₂, ho₂⟩ := ServerState.foldl_enqueueSettle_frame s₁ l
  set s₂ := l.foldl ServerState.enqueueSettle s₁
  obtain ⟨hpr₃, ht₃, hes₃, hex₃, hu₃⟩ := ServerState.foldl_tickNotify now s₂ hn
  have hq₃ := ServerState.foldl_tickNotify_pTimeouts now s₂ l
  have hend : s.tickPromises now = l.foldl (ServerState.tickNotify now) s₂ := rfl
  rw [← hend] at hpr₃ ht₃ hes₃ hex₃ hu₃ hq₃
  have haw : ∀ d, s₂.awaitersOf d = (s.awaitersOf d).filter fun b => b ∉ l := by
    intro d
    simp only [ServerState.awaitersOf, hpr₂, hpr₁]
    cases s.promises.lookup d with
    | none => rfl
    | some p =>
      simp only [Option.map_some]
      split_ifs <;> rfl
  have hin : ∀ a, a ∉ l → s₂.awaitedIn l a = s.awaitedIn l a := by
    intro a ha
    refine List.filter_congr fun d _ => ?_
    rw [haw]
    simp [ha]
  have hself : ∀ a ∈ l, s₂.awaitedIn l a = [] := by
    intro a ha
    refine List.filter_eq_nil_iff.mpr fun d _ => ?_
    rw [haw]
    simp [ha]
  have htarget : ∀ a, s₂.targetOf a = s.targetOf a := by
    intro a
    simp only [ServerState.targetOf, hpr₂, hpr₁]
    cases s.promises.lookup a with
    | none => rfl
    | some p =>
      simp only [Option.map_some, Option.bind_some]
      split_ifs <;> rfl
  have hres : ∀ a, a ∉ l → s₂.resumeTimer a now = s.resumeTimer a now ∧
      s₂.resumeMessage a = s.resumeMessage a := by
    intro a ha
    simp only [ServerState.resumeTimer, ServerState.resumeMessage, ServerState.executeFor, htarget,
      ht₂, if_neg ha, ht₁, and_self]
  exact {
    promise := by
      intro a
      rw [hpr₃, hpr₂, hpr₁, Option.map_map, Option.map_map]
      cases hp : s.promises.lookup a with
      | none => rfl
      | some p =>
        by_cases ha : a ∈ l
        · simp [ha, ServerState.expireRecord, hval a ha p hp]
        · simp [ha]
    own := by
      intro a ha
      obtain ⟨t, ht, hns⟩ := ServerState.withdraws_iff.mp (hw a ha)
      refine ⟨t.version, ?_⟩
      rw [ht₃, hself a ha, ht₂, if_pos ha, ht₁, ht]
      simp [fulfillTask, hns, resumedBy]
    other := by
      intro a ha
      rw [ht₃, hin a ha, ht₂, if_neg ha, ht₁]
      rfl
    pTimeouts := by rw [hq₃, hq₂, hq₁]
    tEntries := by
      intro a
      have hsame : s₁.tEntries a = s.tEntries a := by
        rw [ServerState.tEntries, htt₁, ServerState.tEntries]
      rw [hes₃, hes₂]
      by_cases ha : a ∈ l
      · simp [ha, hself a ha]
      · simp only [ha, if_false, hin a ha, (hres a ha).1, hsame]
    unblocks := by
      have hsame : s₂.unblocks = s.unblocks := by
        rw [ServerState.unblocks, ho₂, ho₁, ServerState.unblocks]
      rw [hu₃, hsame]
      congr 1
      refine List.flatMap_congr fun d hd => ?_
      rw [ServerState.noticesOf, hpr₂, hpr₁]
      cases hp : s.promises.lookup d with
      | none => rfl
      | some p =>
        simp only [Option.map_some, if_pos hd, Option.elim_some]
        rw [show Json.null = (ServerState.expireRecord p).value from (hval d hd p hp).symm]
        exact Outcome.expire.notices p _
    executes := by
      intro a ha
      have hsame : s₂.executes a = s.executes a := by
        rw [ServerState.executes, ho₂, ho₁, ServerState.executes]
      rw [hex₃, hin a ha, (hres a ha).2, hsame] }

end Bulk

end Resonate.Network
