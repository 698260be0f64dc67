import Resonate.Network.Invariants
import Resonate.Network.Messages

/-!
# A tick converges

A tick works off three lists that it collects up front. Every entry that is due is on one of
them, no phase makes another entry due, and each list is worked off, so nothing is due after
the tick and a second tick at the same time finds no work.
-/

namespace Resonate.Network
open Lib

structure ServerState.AtRest (s : ServerState) (now : Int) : Prop where
  promise : ∀ a p, s.promises.lookup a = some p → (p.tags.lookup "resonate:target").isSome →
    p.state = .pending → now < p.timeoutAt
  deadline : ∀ e ∈ s.pTimeouts, now < e.timeout
  timer : ∀ e ∈ s.tTimeouts, now < e.timeout

def Representable (now : Int) : Prop :=
  Json.i64Min ≤ now + pendingRetryTtl ∧ now + pendingRetryTtl ≤ Json.i64Max

section Phases

variable {now : Int} {s s' : ServerState} {a b id : String} {releases : List (String × Int)}
  {retries : List String} {e : TTimeout}

theorem retryTimer_later (hnow : Representable now) (a : String) :
    now < (ServerState.retryTimer a now).timeout := by
  unfold Representable pendingRetryTtl Json.i64Min Json.i64Max at hnow
  simp only [ServerState.retryTimer, wrapAdd, pendingRetryTtl]
  rw [Int.bmod_eq_of_le (by omega) (by omega)]
  omega

theorem mem_tTimeouts : e ∈ s.tTimeouts ↔ e ∈ s.tEntries e.id := by
  simp [ServerState.tEntries]

/-- Every timer that is due belongs to a task that one of the two lists still holds. -/
structure Listed (now : Int) (s : ServerState) (releases : List (String × Int))
    (retries : List String) : Prop where
  single : ∀ a, (s.tEntries a).length ≤ 1
  due : ∀ e ∈ s.tTimeouts, e.timeout ≤ now →
    (∃ t, s.tasks.lookup e.id = some t ∧ t.state = .acquired ∧ (e.id, t.version) ∈ releases) ∨
      (s.taskIs e.id .pending ∧ e.id ∈ retries)

theorem Listed.rearm {releases' : List (String × Int)} {retries' : List String}
    (h : Listed now s releases retries) (hnow : Representable now)
    (hes : ∀ a, s'.tEntries a = if a = b then ServerState.retryTimer b now :: (s.tEntries a).tail
      else s.tEntries a)
    (htasks : ∀ a, a ≠ b → s'.tasks.lookup a = s.tasks.lookup a)
    (hreleases : ∀ a v, a ≠ b → (a, v) ∈ releases → (a, v) ∈ releases')
    (hretries : ∀ a, a ≠ b → a ∈ retries → a ∈ retries') : Listed now s' releases' retries' where
  single a := by
    rw [hes]
    split_ifs
    · exact ServerState.length_replaceHead (h.single a) (some _)
    · exact h.single a
  due e he hdue := by
    have hent := mem_tTimeouts.mp he
    rw [hes] at hent
    split_ifs at hent with hb
    · have hnil : (s.tEntries e.id).tail = [] := by
        refine List.length_eq_zero_iff.mp ?_
        have hlen := h.single e.id
        rw [List.length_tail]
        omega
      rw [hnil, List.mem_singleton] at hent
      have hlater := retryTimer_later hnow b
      rw [← hent] at hlater
      exact absurd hdue (not_le_of_gt hlater)
    · rw [ServerState.taskIs, htasks e.id hb]
      refine (h.due e (mem_tTimeouts.mpr hent) hdue).imp ?_ ?_
      · rintro ⟨t, ht, hst, hmem⟩
        exact ⟨t, ht, hst, hreleases _ _ hb hmem⟩
      · exact fun hpend => ⟨hpend.1, hretries _ hb hpend.2⟩

theorem Listed.release {lease : String × Int} (hnow : Representable now)
    (h : Listed now s (lease :: releases) retries) :
      Listed now (s.tickRelease now lease) releases retries := by
  have hskip : (∀ t, s.tasks.lookup lease.1 = some t → ¬ (t.state = .acquired ∧ t.version = lease.2)) →
      Listed now s releases retries := by
    refine fun hno => ⟨h.single, fun e he hdue => (h.due e he hdue).imp_left ?_⟩
    rintro ⟨t, ht, hst, hmem⟩
    refine ⟨t, ht, hst, (List.mem_cons.mp hmem).resolve_left ?_⟩
    rintro rfl
    exact hno t ht ⟨hst, rfl⟩
  unfold ServerState.tickRelease
  cases ht : s.tasks.lookup lease.1 with
  | none => exact hskip fun t ht' => by cases ht.symm.trans ht'
  | some t =>
    dsimp only
    split_ifs with hlease
    · refine h.rearm hnow (fun a => ServerState.perform_tEntries now s a (.release lease.1 t))
        (fun a ha => ?_) (fun a v ha hmem => ?_) fun _ _ hmem => hmem
      · exact (ServerState.perform_tasks now s a (.release lease.1 t)).trans (if_neg ha)
      · refine (List.mem_cons.mp hmem).resolve_left ?_
        rintro rfl
        exact ha rfl
    · refine hskip fun t' ht' hlease' => hlease ?_
      obtain rfl := Option.some.inj (ht.symm.trans ht')
      exact hlease'

theorem Listed.retry (hnow : Representable now) (h : Listed now s [] (id :: retries)) :
    Listed now (s.tickRetry now id) [] retries := by
  have hskip : ¬ s.taskIs id .pending → Listed now s [] retries := by
    refine fun hno => ⟨h.single, fun e he hdue => (h.due e he hdue).imp_right ?_⟩
    rintro ⟨hpend, hmem⟩
    refine ⟨hpend, (List.mem_cons.mp hmem).resolve_left ?_⟩
    rintro rfl
    exact hno hpend
  unfold ServerState.tickRetry
  cases ht : s.tasks.lookup id with
  | none =>
    refine hskip ?_
    rintro ⟨t, ht', -⟩
    cases ht.symm.trans ht'
  | some t =>
    dsimp only
    split_ifs with hst
    · refine h.rearm hnow (fun a => ServerState.perform_tEntries now s a (.retry id t))
        (fun a _ => ServerState.perform_tasks now s a (.retry id t)) (fun _ _ _ hmem => hmem)
          fun a ha hmem => ?_
      exact (List.mem_cons.mp hmem).resolve_left ha
    · refine hskip ?_
      rintro ⟨t', ht', hst'⟩
      obtain rfl := Option.some.inj (ht.symm.trans ht')
      exact hst hst'

theorem Listed.foldl_release (hnow : Representable now) (h : Listed now s releases retries) :
    Listed now (releases.foldl (ServerState.tickRelease now) s) [] retries := by
  induction releases generalizing s with
  | nil => exact h
  | cons lease releases ih => exact ih (h.release hnow)

theorem Listed.foldl_retry (hnow : Representable now) (h : Listed now s [] retries) :
    Listed now (retries.foldl (ServerState.tickRetry now) s) [] [] := by
  induction retries generalizing s with
  | nil => exact h
  | cons id retries ih => exact ih (h.retry hnow)

theorem TimersOk.length_le {task : Option Task} {es : List TTimeout} (h : TimersOk a task es) :
    es.length ≤ 1 := by
  unfold TimersOk at h
  split at h
  · obtain ⟨time, rfl⟩ := h
    exact le_rfl
  · obtain ⟨time, rfl⟩ := h
    exact le_rfl
  · rw [h]
    exact Nat.zero_le 1

theorem Coherent.timer_before (hc : Coherent s) (hnow : Representable now)
    (he : e ∈ (s.tickPromises now).tTimeouts)
    (hdue : e.timeout ≤ now) : e.id ∉ s.duePromises now ∧ e ∈ s.tTimeouts := by
  have hbulk : Settles now ServerState.expireRecord (s.duePromises now) s (s.tickPromises now) :=
    hc.settles_bulk
  have hent := mem_tTimeouts.mp he
  rw [hbulk.tEntries] at hent
  split_ifs at hent with hmem haw
  · cases hent
  · exact ⟨hmem, mem_tTimeouts.mpr hent⟩
  · refine ⟨hmem, mem_tTimeouts.mpr ?_⟩
    cases hres : s.resumeTimer e.id now with
    | none =>
      rw [hres] at hent
      exact hent
    | some timer =>
      obtain ⟨-, -, rfl⟩ := Option.map_eq_some_iff.mp hres
      rw [hres, replaceHead_some] at hent
      refine List.mem_of_mem_tail ((List.mem_cons.mp hent).resolve_left fun heq => ?_)
      have hlater := retryTimer_later hnow e.id
      rw [← heq] at hlater
      exact absurd hdue (not_le_of_gt hlater)

/-- After the promise phases the lists hold the task of every timer that is due. -/
theorem Coherent.listed (hc : Coherent s) (hnow : Representable now) :
    Listed now (s.tickPromises now) (s.dueReleases now) (s.dueRetries now) where
  single a := (((tickPromises_moves hc).coherent hc).cell a).tEntries.length_le
  due e he hdue := by
    obtain ⟨hmem, hin⟩ := hc.timer_before hnow he hdue
    have hbulk : Settles now ServerState.expireRecord (s.duePromises now) s (s.tickPromises now) :=
      hc.settles_bulk
    obtain ⟨t, ht, hcase⟩ := hc.timersExact.of_timer e hin
    have hne : t.state ≠ .suspended := by
      rintro hsus
      rcases hcase with ⟨hst, -⟩ | ⟨hst, -⟩ <;> cases hsus.symm.trans hst
    obtain ⟨hstate, hversion, -⟩ := resumedBy_of_ne_suspended (s.awaitedIn (s.duePromises now) e.id) hne
    have hafter : (s.tickPromises now).tasks.lookup e.id =
        some (resumedBy (s.awaitedIn (s.duePromises now) e.id) t) := by
      rw [hbulk.other e.id hmem, ht]
      rfl
    rcases hcase with ⟨hst, htyp⟩ | ⟨hst, htyp⟩
    · refine Or.inr ⟨⟨_, hafter, hstate.trans hst⟩, List.mem_filterMap.mpr ⟨e, hin, ?_⟩⟩
      simp [hdue, htyp, ht, hst]
    · refine Or.inl ⟨_, hafter, hstate.trans hst, List.mem_filterMap.mpr ⟨e, hin, ?_⟩⟩
      simp [hdue, htyp, ht, hst, hversion]

theorem Coherent.timers_later (hc : Coherent s) (hnow : Representable now)
    (he : e ∈ (s.tick now).tTimeouts) :
    now < e.timeout := by
  have hleft : Listed now (s.tick now) [] [] := ((hc.listed hnow).foldl_release hnow).foldl_retry hnow
  by_contra hdue
  rcases hleft.due e he (not_lt.mp hdue) with ⟨t, -, -, hmem⟩ | ⟨-, hmem⟩ <;> cases hmem

theorem tick_promises (s : ServerState) (now : Int) :
    (s.tick now).promises = (s.tickPromises now).promises := by
  have hrelease : ∀ (leases : List (String × Int)) (s : ServerState),
      (leases.foldl (ServerState.tickRelease now) s).promises = s.promises := by
    intro leases
    induction leases with
    | nil => exact fun _ => rfl
    | cons lease leases ih =>
      intro s
      refine (ih _).trans ?_
      unfold ServerState.tickRelease
      split
      · split_ifs
        · exact ServerState.endLease_promises ..
        · rfl
      · rfl
  have hretry : ∀ (ids : List String) (s : ServerState),
      (ids.foldl (ServerState.tickRetry now) s).promises = s.promises := by
    intro ids
    induction ids with
    | nil => exact fun _ => rfl
    | cons id ids ih =>
      intro s
      refine (ih _).trans ?_
      unfold ServerState.tickRetry
      split
      · split_ifs
        · simp [ServerState.rearm]
        · rfl
      · rfl
  exact (hretry _ _).trans (hrelease _ _)

theorem Coherent.promises_later (hc : Coherent s) {q : DurablePromise}
    (hq : (s.tick now).promises.lookup a = some q)
    (htarget : q.targeted = true) (hst : q.state = .pending) : now < q.timeoutAt := by
  have hbulk : Settles now ServerState.expireRecord (s.duePromises now) s (s.tickPromises now) :=
    hc.settles_bulk
  rw [tick_promises, hbulk.promise] at hq
  obtain ⟨p, hp, rfl⟩ := Option.map_eq_some_iff.mp hq
  split_ifs at htarget hst ⊢ with hmem
  · exact absurd hst (ServerState.timeoutState_ne_pending _)
  · by_contra hdue
    exact hmem (hc.mem_duePromises.mpr ⟨p, hp, hst, not_lt.mp hdue, htarget⟩)

theorem Coherent.tick_atRest (hc : Coherent s) (hnow : Representable now) :
    (s.tick now).AtRest now where
  promise _ _ := hc.promises_later
  deadline e he := by
    have hc' : Coherent (s.tick now) := (tick_moves hc).coherent hc
    obtain ⟨p, hp, hst, htarget, htime⟩ := hc'.timersExact.of_deadline e he
    rw [htime]
    exact hc.promises_later hp htarget hst
  timer _ := hc.timers_later hnow

/-- A tick finds no work where nothing is due. -/
theorem ServerState.AtRest.tick_eq (h : s.AtRest now) : s.tick now = s := by
  have hpromises : s.duePromises now = [] := by
    rw [ServerState.duePromises, List.map_eq_nil_iff, List.filter_eq_nil_iff]
    intro e he hdue
    exact absurd (of_decide_eq_true hdue).1 (not_le_of_gt (h.deadline e he))
  have hreleases : s.dueReleases now = [] :=
    List.filterMap_eq_nil_iff.mpr fun e he => if_neg fun hdue =>
      absurd hdue.1 (not_le_of_gt (h.timer e he))
  have hretries : s.dueRetries now = [] :=
    List.filterMap_eq_nil_iff.mpr fun e he => if_neg fun hdue =>
      absurd hdue.1 (not_le_of_gt (h.timer e he))
  rw [ServerState.tick, hreleases, hretries, ServerState.tickPromises, hpromises]
  rfl

theorem ServerState.AtRest.deliver_eq (h : s.AtRest now) :
    s.deliver (.tick now) = { s with outgoing := [] } :=
  have hquiet : ServerState.AtRest { s with outgoing := [] } now := ⟨h.promise, h.deadline, h.timer⟩
  hquiet.tick_eq

def ServerState.sends (s : ServerState) : List Op → List OutgoingMessage
  | [] => []
  | op :: ops => (s.deliver op).outgoing ++ (s.deliver op).sends ops

theorem ServerState.AtRest.sends_ticks (h : s.AtRest now) (n : ℕ) :
    s.sends (List.replicate n (.tick now)) = [] := by
  induction n generalizing s with
  | zero => rfl
  | succ n ih =>
    rw [List.replicate_succ, sends, h.deliver_eq, List.nil_append]
    exact ih ⟨h.promise, h.deadline, h.timer⟩

theorem Coherent.sends_ticks (hc : Coherent s) (hnow : Representable now) (n : ℕ) :
    s.sends (List.replicate (n + 1) (.tick now)) = (s.deliver (.tick now)).outgoing := by
  have hrest : (s.deliver (.tick now)).AtRest now := hc.cleared.tick_atRest hnow
  rw [List.replicate_succ, ServerState.sends, hrest.sends_ticks, List.append_nil]

theorem deliver_executes_length (s : ServerState) (op : Op) (a : String) :
    ((s.deliver op).outgoing.filter (ServerState.isExecuteFor a)).length ≤ 1 :=
  (exec_performs { s with outgoing := [] } op).invariant (I := fun L => (L.state.executes a).length ≤ 1)
    (fun _ _ _ _ hI => ServerState.perform_executes_length _ _ hI _) (Nat.zero_le 1)

/-- After a tick nothing is due and a second tick at the same time changes nothing; however
many ticks come at that time, every message is sent once. -/
theorem tick_converges (ops : List Op) (h : ∀ op ∈ ops, op.Typed) (now : Int)
    (hnow : Representable now) :
    ((ServerState.init.run ops).tick now).AtRest now ∧
      ((ServerState.init.run ops).tick now).tick now = (ServerState.init.run ops).tick now ∧
      (∀ n, (ServerState.init.run ops).sends (List.replicate (n + 1) (.tick now)) =
        ((ServerState.init.run ops).deliver (.tick now)).outgoing) ∧
      (((ServerState.init.run ops).deliver (.tick now)).outgoing.filter isUnblock).Nodup ∧
      ∀ a, (((ServerState.init.run ops).deliver (.tick now)).outgoing.filter
        (ServerState.isExecuteFor a)).length ≤ 1 := by
  have hc := Coherent.run h
  have hrest := hc.tick_atRest hnow
  exact ⟨hrest, hrest.tick_eq, hc.sends_ticks hnow, (messages_exact ops h (.tick now) trivial).nodup,
    deliver_executes_length _ _⟩

/-- Three ticks notify the listener of `b` once. -/
theorem tick_converges_listened :
    ((ServerState.init.run listenedRun).tick 100).tick 100 = (ServerState.init.run listenedRun).tick
      100 ∧
      ((ServerState.init.run listenedRun).sends [.tick 100, .tick 100, .tick 100]).map
        OutgoingMessage.address = ["local://uni@default/p"] := by
  have hconv := tick_converges listenedRun listenedRun_typed 100 ⟨by decide, by decide⟩
  refine ⟨hconv.2.1, ?_⟩
  rw [show [Op.tick 100, Op.tick 100, Op.tick 100] = List.replicate 3 (Op.tick 100) from rfl,
    hconv.2.2.1 2]
  decide

end Phases

end Resonate.Network
