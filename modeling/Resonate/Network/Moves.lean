import Resonate.Network.Bulk
import Resonate.Network.Local

/-!
# What the server does to a coherent state

From a coherent state every request of the SDK and every tick is a sequence of
moves: an action outside a settlement, the settlement of one promise on request,
the expiry of due promises, or the creation of a promise past its deadline. Each
move leaves the state coherent, hence so does every run.
-/

namespace Resonate.Network
open Lib

inductive Move where
  | plain (act : Act)
  | settle (id : String) (state : PromiseState) (value : Json)
  | expire (ids : List String)
  | expireNew (id : String) (req : Json)

def Move.Step (now : Int) : Move → ServerState → ServerState → Prop
  | plain act, s, s' => act.Plain ∧ act.Guard now True ⟨s, ∅⟩ ∧ s' = s.perform now act
  | settle id state value, s, s' =>
    s.isPending id = true ∧ s.isDue now id = false ∧ state ≠ .pending ∧
      s' = (s.settleAt id state value now).settled id now
  | expire ids, s, s' =>
    ids.Nodup ∧ (∀ d ∈ ids, s.isDue now d = true) ∧ Settles now ServerState.expireRecord ids s s'
  | expireNew id req, s, s' =>
    id ≠ "" ∧ s.promises.lookup id = none ∧ timeoutAtOf req ≤ now ∧
      s' = (s.addExpired id req).settled id now

def Moves (now : Int) (P : Move → Prop) : ServerState → ServerState → Prop :=
  Relation.ReflTransGen fun s s' => ∃ m : Move, P m ∧ m.Step now s s'

section Expiries

variable {now : Int} {s s' : ServerState} {id a : String} {req : Json}

theorem isPending_of_isDue (h : s.isDue now id = true) : s.isPending id = true := by
  obtain ⟨p, hp, hs, -⟩ := ServerState.isDue_iff.mp h
  exact ServerState.isPending_iff.mpr ⟨p, hp, hs⟩

theorem addExpired_promises :
    (s.addExpired id req).promises.lookup a =
      if a = id then some (expiredPromise id req) else s.promises.lookup a := by
  simp [ServerState.addExpired]

theorem awaitersOf_addExpired_self : (s.addExpired id req).awaitersOf id = [] := by
  simp [ServerState.awaitersOf, addExpired_promises, expiredPromise]

/-- The chain of a promise created past its deadline wakes nobody. -/
theorem Coherent.expireNew (h : Coherent s) (hn : s.promises.lookup id = none)
    (hs : s' = (s.addExpired id req).settled id now) :
    (∀ a, s'.promises.lookup a =
      if a = id then some (expiredPromise id req) else s.promises.lookup a) ∧
      (∀ a, s'.tasks.lookup a =
        if a = id ∧ (expiredPromise id req).targeted = true then some (ServerState.fulfilledTask id)
        else s.tasks.lookup a) ∧
      (∀ a, s'.pEntries a = s.pEntries a) ∧ (∀ a, s'.tEntries a = s.tEntries a) ∧
      s'.unblocks = s.unblocks ∧ ∀ a, s'.executes a = s.executes a := by
  obtain ⟨ht, -, -⟩ := h.absent hn
  have ht' : (s.addExpired id req).tasks.lookup id = none := ht
  have hw : (s.addExpired id req).withdraws id = false := by simp [ServerState.withdraws, ht']
  have haw : ((s.addExpired id req).enqueueSettle id).awaitersOf id = [] := by
    simp [ServerState.awaitersOf_enqueueSettle, hw, awaitersOf_addExpired_self]
  subst hs
  refine ⟨fun a => ?_, fun a => ?_, fun a => ?_, fun a => ?_, ?_, fun a => ?_⟩
  · rw [ServerState.settled_promises, addExpired_promises]
    by_cases ha : a = id
    · subst ha
      simp [ServerState.chainRecord, hw, expiredPromise]
    · cases s.promises.lookup a <;> simp [ha, ServerState.chainRecord, hw]
  · have htarget : (s.addExpired id req).hasTarget id = (expiredPromise id req).targeted := by
      simp [ServerState.hasTarget, addExpired_promises, DurablePromise.targeted]
    have hother : (s.addExpired id req).tasks.lookup a = s.tasks.lookup a := rfl
    rw [ServerState.settled_tasks, ServerState.taskOfSettled, ht', htarget,
      awaitersOf_addExpired_self, hother]
    by_cases ha : a = id
    · subst ha
      simp [ht]
    · simp [ha]
  · simp only [ServerState.pEntries, ServerState.settled, ServerState.notifySubscribers_pTimeouts,
      ServerState.resumeAwaiters_pTimeouts, ServerState.enqueueSettle_pTimeouts]
    rfl
  · rw [ServerState.settled, ServerState.tEntries, ServerState.notifySubscribers_tTimeouts]
    refine (ServerState.resumeAwaiters_tEntries _ id a now).trans ?_
    rw [haw, ServerState.enqueueSettle_tEntries, hw]
    simp [ServerState.tEntries, ServerState.addExpired]
  · have hnot : ((s.addExpired id req).enqueueSettle id).noticesOf id = [] := by
      simp [ServerState.noticesOf, ServerState.enqueueSettle_promises, hw, addExpired_promises,
        DurablePromise.notices, expiredPromise]
    rw [ServerState.settled, ServerState.notifySubscribers_unblocks,
      ServerState.resumeAwaiters_unblocks, ServerState.noticesOf_resumeAwaiters, hnot,
      ServerState.unblocks, ServerState.enqueueSettle_outgoing]
    simp [ServerState.unblocks, ServerState.addExpired]
  · rw [ServerState.settled, ServerState.notifySubscribers_executes,
      ServerState.resumeAwaiters_executes, haw, ServerState.executes,
      ServerState.enqueueSettle_outgoing]
    simp [ServerState.executes, ServerState.addExpired]

theorem Coherent.expireNew_keeps (h : Coherent s) (hid : id ≠ "") (hn : s.promises.lookup id = none)
    (hs : s' = (s.addExpired id req).settled id now) : Coherent s' := by
  obtain ⟨hpr, ht, hps, hes, -, -⟩ := h.expireNew hn hs
  have hno := (h.absent hn).1
  refine ⟨⟨⟨?_, ?_⟩, ?_, ?_⟩, ?_⟩
  · intro a t hat
    have hat' : s'.tasks.lookup a = some t := hat
    rw [ht] at hat'
    change ∃ p, s'.promises.lookup a = some p
    rw [hpr]
    by_cases ha : a = id
    · exact ⟨_, if_pos ha⟩
    · simp only [ha, false_and, if_false] at hat' ⊢
      exact h.awaiters.wf.promise_of_task a t hat'
  · intro a p hap
    have hap' : s'.promises.lookup a = some p := hap
    rw [hpr] at hap'
    split_ifs at hap' with ha
    · rwa [ha]
    · exact h.awaiters.wf.id_ne a p hap'
  · intro a p hap hst hE
    have hap' : s'.promises.lookup a = some p := hap
    rw [hpr] at hap'
    split_ifs at hap'
    · obtain rfl := Option.some.inj hap'
      rfl
    · exact h.awaiters.settled a p hap' hst hE
  · intro a p b hap hb
    have hap' : s'.promises.lookup a = some p := hap
    rw [hpr] at hap'
    split_ifs at hap'
    · obtain rfl := Option.some.inj hap'
      cases hb
    · obtain ⟨t, hbt, hf⟩ := h.awaiters.awaiter a p b hap' hb
      refine ⟨t, ?_, hf⟩
      have hbt' : s.tasks.lookup b = some t := hbt
      change s'.tasks.lookup b = some t
      have hbi : b ≠ id := by
        intro hbi
        rw [hbi, hno] at hbt'
        cases hbt'
      rw [ht, if_neg fun hh => hbi hh.1]
      exact hbt'
  · intro a
    rw [ServerState.cell, hpr, ht, hps, hes]
    by_cases ha : a = id
    · subst ha
      obtain ⟨-, hps', hes'⟩ := h.absent hn
      simp only [if_true, true_and, hps', hes', hno]
      rw [← expiredPromise_timers a req]
      refine .new (expiredPromise_ok req) ?_ ?_ ?_ ?_
      · intro t h
        split_ifs at h
        · obtain rfl := Option.some.inj h
          exact fulfilledTask_ok a
        · cases h
      · intro t h
        split_ifs at h
        · obtain rfl := Option.some.inj h
          exact iff_of_true rfl (ServerState.timeoutState_ne_pending _)
        · cases h
      · intro htarget
        exact ⟨_, if_pos htarget⟩
      · split_ifs <;> rfl
    · simp only [ha, false_and, if_false]
      exact h.cell a

theorem Coherent.settles_at (h : Coherent s) (now : Int) {state : PromiseState} (hst : state ≠ .pending)
    (value : Json) (hp : s.isPending id = true) :
    Settles now (settleRecord state value now) [id] s
      ((s.settleAt id state value now).settled id now) :=
  h.settles_one (Outcome.settle hst value now) hp

theorem Coherent.cleared (h : Coherent s) : Coherent { s with outgoing := [] } :=
  have hp : Act.clearOutgoing.Plain := trivial
  have hg : Act.clearOutgoing.Guard 0 True ⟨s, ∅⟩ := trivial
  h.plain hp hg

/-- A move leaves a coherent state. -/
theorem Coherent.step (h : Coherent s) {m : Move} (hm : m.Step now s s') : Coherent s' := by
  cases m with
  | plain act =>
    obtain ⟨hp, hg, rfl⟩ := hm
    exact h.plain hp hg
  | settle id state value =>
    obtain ⟨hp, -, hst, rfl⟩ := hm
    exact h.settles (Outcome.settle hst value now) (by simpa using hp) (h.settles_at now hst value hp)
  | expire ids =>
    obtain ⟨-, hd, hs⟩ := hm
    exact h.settles .expire (fun d hdl => isPending_of_isDue (hd d hdl)) hs
  | expireNew id req =>
    obtain ⟨hid, hn, -, hs⟩ := hm
    exact h.expireNew_keeps hid hn hs

end Expiries

namespace Moves

variable {now : Int} {P : Move → Prop} {s s' s'' : ServerState}

theorem refl (s : ServerState) : Moves now P s s := Relation.ReflTransGen.refl

theorem trans (h : Moves now P s s') (h' : Moves now P s' s'') : Moves now P s s'' :=
  Relation.ReflTransGen.trans h h'

theorem one (m : Move) (hp : P m) (hm : m.Step now s s') : Moves now P s s' :=
  .single ⟨m, hp, hm⟩

/-- The invariant rule for the moves of one step, from a coherent state. -/
theorem invariant {I : ServerState → Prop} (h : Moves now P s s') (hc : Coherent s)
    (hstep : ∀ s m s', Coherent s → P m → m.Step now s s' → I s → I s') (hI : I s) :
    Coherent s' ∧ I s' := by
  induction h with
  | refl => exact ⟨hc, hI⟩
  | tail _ hm ih =>
    obtain ⟨m, hp, hm⟩ := hm
    exact ⟨ih.1.step hm, hstep _ m _ ih.1 hp hm ih.2⟩

theorem coherent (h : Moves now P s s') (hc : Coherent s) : Coherent s' :=
  (h.invariant (I := fun _ => True) hc (fun _ _ _ _ _ _ _ => trivial) trivial).1

theorem of_performs {p : Act → Prop} {E : Set String}
    (h : Performs now True p ⟨s, ∅⟩ ⟨s', E⟩) (hplain : ∀ act, p act → act.Plain)
    (hp : ∀ act, p act → P (.plain act)) : Moves now P s s' := by
  have hinv := h.invariant (I := fun L => L.unwoken = ∅ ∧ Moves now P s L.state)
    (fun L act hg hact hI => by
      obtain ⟨hw, hm⟩ := hI
      obtain ⟨state, unwoken⟩ := L
      obtain rfl : unwoken = ∅ := hw
      exact ⟨(hplain act hact).unwoken,
        hm.trans (one (.plain act) (hp act hact) ⟨hplain act hact, hg, rfl⟩)⟩)
    ⟨rfl, refl s⟩
  exact hinv.2

end Moves

/-- A request that fulfils a task settles the task's own promise. -/
def FulfillsOwn (req : Json) : Prop :=
  ReqKind.ofName (kindOf req) = some .taskFulfill →
    ∀ id, strField (extractActionData (actionOf req)) "id" = some id → strField req "id" = some id

/-- The requests of the SDK's typed `Sender` and `Core`. -/
def Op.Typed : Op → Prop
  | apply _ req => Network.Terminal req ∧ FulfillsOwn req
  | tick _ => True

def Act.Quiet : Act → Prop
  | clearOutgoing | subscribe .. => False
  | _ => True

/-- Messages are cleared before the moves of a request, and only
`promise.register_listener` subscribes. -/
def Act.Of (req : Json) (act : Act) : Prop :=
  act.From req ∧
    (act.Quiet ∨ ReqKind.ofName (kindOf req) = some .promiseRegisterListener ∧ act ≠ .clearOutgoing)

def Move.From (req : Json) : Move → Prop
  | plain act => act.Of req
  | settle id state value => (Act.settle id state value).From req
  | expire ids => ∀ id ∈ ids, id ∈ namedPromises (ReqKind.ofName (kindOf req)) req
  | expireNew id r => createRequest req = some r ∧ strField r "id" = some id

/-- The moves of a tick: the due promises expire, leases end, retries are re-armed. -/
def Move.FromTick (s : ServerState) (now : Int) : Move → Prop
  | plain act => act.FromTick
  | expire ids => ids = s.duePromises now
  | _ => False

def Op.Moves (s : ServerState) : Op → Move → Prop
  | apply _ req => Move.From req
  | tick now => Move.FromTick s now

def Op.start (s : ServerState) : Op → ServerState
  | apply _ _ => { s with outgoing := [] }
  | tick _ => s

section Handlers

variable {now : Int} {P : Move → Prop} {s : ServerState} {corrId req : Json}

theorem Coherent.isPending_of_acquired (h : Coherent s) {id : String}
    (ht : s.taskIs id .acquired) : s.isPending id = true := by
  obtain ⟨t, ht, hst⟩ := ht
  obtain ⟨p, hp⟩ := (h.cell id).task_promise t ht
  refine ServerState.isPending_iff.mpr ⟨p, hp, ?_⟩
  by_contra hne
  have hf := ((h.cell id).fulfilled_iff p hp t ht).mpr hne
  simp [hst] at hf

theorem promiseCreate_moves {r : Json}
    (hadd : ∀ id, strField r "id" = some id → P (.expireNew id r) ∧ P (.plain (.addPending id r))) :
    Moves now P s (s.promiseCreate now corrId r).1 := by
  unfold ServerState.promiseCreate
  cases hr : requireStr r "id" with
  | error e => exact Moves.refl _
  | ok id =>
    obtain ⟨hf, hne⟩ := requireStr_ok.mp hr
    cases hp : s.promises.lookup id with
    | some p => simp only [hp]; exact Moves.refl _
    | none =>
      simp only [hp]
      split_ifs with ht
      · exact Moves.one (.expireNew id r) (hadd id hf).1 ⟨hne, hp, ht, rfl⟩
      · exact Moves.one (.plain (.addPending id r)) (hadd id hf).2
          ⟨trivial, ⟨hne, hp, lt_of_not_ge ht⟩, rfl⟩

theorem promiseSettle_moves {r : Json}
    (hset : ∀ id, strField r "id" = some id → P (.settle id (settleStateOf r) (valueOf r)))
    (hst : settleStateOf r ≠ .pending)
    (hdue : ∀ id, strField r "id" = some id → s.isDue now id = false) :
    Moves now P s (s.promiseSettle now corrId r).1 := by
  unfold ServerState.promiseSettle
  cases hr : requireStr r "id" with
  | error e => exact Moves.refl _
  | ok id =>
    obtain ⟨hf, -⟩ := requireStr_ok.mp hr
    cases hp : s.promises.lookup id with
    | none => simp only [hp]; exact Moves.refl _
    | some p =>
      simp only [hp]
      split_ifs with hs
      · exact Moves.refl _
      · exact Moves.one (.settle id _ _) (hset id hf)
          ⟨ServerState.isPending_iff.mpr ⟨p, hp, by simpa using hs⟩, hdue id hf, hst, rfl⟩

theorem taskFulfill_moves (h : Coherent s)
    (hown : ∀ a, strField (extractActionData (actionOf req)) "id" = some a →
      strField req "id" = some a)
    (hset : ∀ id, strField req "id" = some id →
      P (.settle id (settleStateOf (extractActionData (actionOf req)))
        (valueOf (extractActionData (actionOf req)))))
    (hst : settleStateOf (extractActionData (actionOf req)) ≠ .pending)
    (hdue : ∀ id, strField req "id" = some id → s.isDue now id = false) :
    Moves now P s (s.taskFulfill now corrId req).1 := by
  unfold ServerState.taskFulfill
  cases hr : requireStr req "id" with
  | error e => exact Moves.refl _
  | ok id =>
    obtain ⟨hf, -⟩ := requireStr_ok.mp hr
    dsimp only
    cases ht : s.tasks.lookup id with
    | none => exact Moves.refl _
    | some t =>
      dsimp only
      split_ifs with hs hp
      · exact Moves.refl _
      all_goals
        have hacq : s.taskIs id .acquired := ⟨t, ht, by simpa using hs⟩
        have hid : (strField (extractActionData (actionOf req)) "id").getD id = id := by
          cases ha : strField (extractActionData (actionOf req)) "id" with
          | none => rfl
          | some a => exact Option.some.inj ((hown a ha).symm.trans hf)
        have hpend := h.isPending_of_acquired hacq
        rw [hid] at hp
      · rw [hid]
        exact Moves.one (.settle id _ _) (hset id hf) ⟨hpend, hdue id hf, hst, rfl⟩
      · exact absurd hpend hp

theorem strField_fenceAction (req : Json) {key : String} (hk : key ≠ "kind") :
    strField (fenceAction req).2 key = strField (extractActionData (actionOf req)) key := by
  rw [strField, fenceAction, Json.get_obj, Json.lookup_insert, if_neg hk, strField]
  cases extractActionData (actionOf req) <;> rfl

theorem taskFence_moves
    (hset : ∀ id, (fenceAction req).1 = true → strField (fenceAction req).2 "id" = some id →
      P (.settle id (settleStateOf (fenceAction req).2) (valueOf (fenceAction req).2)))
    (hst : (fenceAction req).1 = true → settleStateOf (fenceAction req).2 ≠ .pending)
    (hdue : ∀ id, strField (fenceAction req).2 "id" = some id → s.isDue now id = false)
    (hadd : ∀ id, (fenceAction req).1 = false → strField (fenceAction req).2 "id" = some id →
      P (.expireNew id (fenceAction req).2) ∧ P (.plain (.addPending id (fenceAction req).2))) :
    Moves now P s (s.taskFence now corrId req).1 := by
  have hinner : Moves now P s (s.fenceInner now corrId req).1 := by
    unfold ServerState.fenceInner
    cases hk : (fenceAction req).1 with
    | true =>
      simp only [hk, if_true]
      exact promiseSettle_moves (fun id h => hset id hk h) (hst hk) hdue
    | false =>
      simp only [hk, Bool.false_eq_true, if_false]
      exact promiseCreate_moves fun id h => hadd id hk h
  unfold ServerState.taskFence
  cases requireStr req "id" with
  | error e => exact Moves.refl _
  | ok id =>
    dsimp only
    cases s.tasks.lookup id with
    | none => exact Moves.refl _
    | some t =>
      dsimp only
      split_ifs
      · exact Moves.refl _
      · split <;> rename_i heq <;> rw [heq] at hinner <;> exact hinner

theorem dispatch_moves (h : Coherent s) {kind : ReqKind} (hk : ReqKind.ofName (kindOf req) = some kind)
    (ht : Terminal req) (hown : FulfillsOwn req)
    (hdue : ∀ id ∈ namedPromises (some kind) req, s.isDue now id = false) :
    Moves now (Move.From req) s (s.dispatch now corrId req kind).1 := by
  have hplain : ∀ {s'}, Performs now True (fun act => act.Plain ∧ act.Of req) ⟨s, ∅⟩ ⟨s', ∅⟩ →
      Moves now (Move.From req) s s' := fun hp =>
    Moves.of_performs hp (fun _ hact => hact.1) fun _ hact => hact.2
  have hnamed : ∀ {id : String}, strField req "id" = some id →
      (strField req "id").getD "" ∈ namedPromises (some kind) req → s.isDue now id = false := by
    intro id hid hmem
    rw [hid] at hmem
    exact hdue id hmem
  cases kind with
  | promiseGet =>
    simp only [ServerState.dispatch, ServerState.promiseGet_fst]
    exact Moves.refl _
  | promiseCreate =>
    have hc : createRequest req = some req := by simp [createRequest, hk]
    exact promiseCreate_moves fun id hid => ⟨⟨hc, hid⟩, ⟨hc, hid⟩, Or.inl trivial⟩
  | promiseSettle =>
    have hc : settleRequest req = some req := by simp [settleRequest, hk]
    exact promiseSettle_moves (fun id hid => ⟨req, hc, rfl, rfl, by simp [hid]⟩) (ht req hc)
      fun id hid => hnamed hid (by simp [namedPromises])
  | promiseRegisterListener =>
    exact hplain (ServerState.promiseRegisterListener_performs
      fun _ _ => ⟨trivial, trivial, Or.inr ⟨hk, by simp⟩⟩)
  | taskCreate =>
    have hc : createRequest req = some (extractActionData (actionOf req)) := by
      simp [createRequest, hk]
    exact hplain (ServerState.taskCreate_performs
      (fun id _ _ hid => ⟨trivial, Or.inr ⟨hk, hid⟩, Or.inl trivial⟩)
      fun id _ _ hid => ⟨⟨trivial, ⟨hc, hid⟩, Or.inl trivial⟩, trivial, ⟨hc, hid⟩, Or.inl trivial⟩)
  | taskAcquire =>
    exact hplain (ServerState.taskAcquire_performs
      fun id _ _ hid => ⟨trivial, Or.inl ⟨hk, hid⟩, Or.inl trivial⟩)
  | taskRelease =>
    exact hplain (ServerState.taskRelease_performs fun _ _ => ⟨trivial, trivial, Or.inl trivial⟩)
  | taskFulfill =>
    have hc : settleRequest req = some (extractActionData (actionOf req)) := by
      simp [settleRequest, hk]
    refine taskFulfill_moves h (hown hk) (fun id hid => ⟨_, hc, rfl, rfl, ?_⟩) (ht _ hc)
      fun id hid => hnamed hid (by simp [namedPromises])
    cases ha : strField (extractActionData (actionOf req)) "id" with
    | none => simp [hid]
    | some a => exact Option.some.inj (hid.symm.trans (hown hk a ha))
  | taskFence =>
    have hs (hf : (fenceAction req).1 = true) : settleRequest req = some (fenceAction req).2 := by
      simp [settleRequest, hk, hf]
    have hc (hf : (fenceAction req).1 = false) : createRequest req = some (fenceAction req).2 := by
      simp [createRequest, hk, hf]
    refine taskFence_moves (fun id hf hid => ⟨_, hs hf, rfl, rfl, by simp [hid]⟩)
      (fun hf => ht _ (hs hf)) (fun id hid => ?_)
      fun id hf hid => ⟨⟨hc hf, hid⟩, ⟨hc hf, hid⟩, Or.inl trivial⟩
    rw [strField_fenceAction req (by decide)] at hid
    exact hdue id (by simp [namedPromises, hid])
  | taskSuspend =>
    exact hplain (ServerState.taskSuspend_performs (fun _ => ⟨trivial, trivial, Or.inl trivial⟩)
      (fun id a hid ha => ⟨trivial, ⟨⟨hk, hid⟩, ha⟩, Or.inl trivial⟩)
      fun id hid => ⟨trivial, ⟨hk, hid⟩, Or.inl trivial⟩)
  | taskHeartbeat =>
    exact hplain (ServerState.taskHeartbeat_performs fun _ _ => ⟨trivial, trivial, Or.inl trivial⟩)
  | scheduleCreate =>
    exact hplain (ServerState.schedules_performs ServerState.scheduleCreate_fst
      fun _ => ⟨trivial, trivial, Or.inl trivial⟩)
  | scheduleGet =>
    simp only [ServerState.dispatch, ServerState.scheduleGet_fst]
    exact Moves.refl _
  | scheduleDelete =>
    exact hplain (ServerState.schedules_performs ServerState.scheduleDelete_fst
      fun _ => ⟨trivial, trivial, Or.inl trivial⟩)
  | scheduleSearch => exact Moves.refl _

theorem isDue_tryAutoTimeout (s : ServerState) (id a : String) :
    (s.tryAutoTimeout now id).isDue now a = (s.isDue now a && decide (a ≠ id)) := by
  by_cases hd : s.isDue now id = true
  · rw [ServerState.tryAutoTimeout_of_due _ _ _ hd, ServerState.isDue_settled,
      ServerState.isDue_expire]
  · rw [ServerState.tryAutoTimeout_of_not_due _ _ _ (by simpa using hd)]
    by_cases ha : a = id
    · subst ha
      simpa using hd
    · simp [ha]

theorem isDue_autoTimeouts (ids : List String) (a : String) :
    (s.autoTimeouts now ids).isDue now a = (s.isDue now a && decide (a ∉ ids)) := by
  unfold ServerState.autoTimeouts
  induction ids generalizing s with
  | nil => simp
  | cons id ids ih =>
    rw [List.foldl_cons, ih, isDue_tryAutoTimeout]
    by_cases ha : a = id <;> simp [ha]

theorem Coherent.expire_one (h : Coherent s) {id : String} (hd : s.isDue now id = true) :
    Settles now ServerState.expireRecord [id] s (s.tryAutoTimeout now id) := by
  rw [ServerState.tryAutoTimeout_of_due _ _ _ hd]
  exact h.settles_one .expire (isPending_of_isDue hd)

theorem autoTimeouts_moves {ids : List String} (h : Coherent s)
    (hx : ∀ id ∈ ids, P (.expire [id])) : Moves now P s (s.autoTimeouts now ids) := by
  unfold ServerState.autoTimeouts
  induction ids generalizing s with
  | nil => exact Moves.refl _
  | cons id ids ih =>
    have hone : Moves now P s (s.tryAutoTimeout now id) := by
      by_cases hd : s.isDue now id = true
      · exact Moves.one (.expire [id]) (hx id (by simp))
          ⟨List.nodup_singleton id, by simpa using hd, h.expire_one hd⟩
      · rw [ServerState.tryAutoTimeout_of_not_due _ _ _ (by simpa using hd)]
        exact Moves.refl _
    exact hone.trans (ih (hone.coherent h) fun b hb => hx b (by simp [hb]))

theorem prepared_moves (now : Int) (h : Coherent s) (req : Json)
    (hx : ∀ id ∈ namedPromises (ReqKind.ofName (kindOf req)) req, P (.expire [id])) :
    Moves now P { s with outgoing := [] } (s.prepared now req) :=
  autoTimeouts_moves h.cleared hx

theorem expire_from {id : String} (h : id ∈ namedPromises (ReqKind.ofName (kindOf req)) req) :
    Move.From req (.expire [id]) := by
  intro b hb
  rwa [List.mem_singleton.mp hb]

theorem isDue_prepared {id : String} (h : id ∈ namedPromises (ReqKind.ofName (kindOf req)) req) :
    (s.prepared now req).isDue now id = false := by
  rw [ServerState.prepared, isDue_autoTimeouts]
  simp [h]

theorem apply_moves (h : Coherent s) (ht : Terminal req) (hown : FulfillsOwn req) :
    Moves now (Move.From req) { s with outgoing := [] } (s.apply now req).1 := by
  have hp := prepared_moves now h req fun _ => expire_from
  unfold ServerState.apply
  cases hk : ReqKind.ofName (kindOf req) with
  | none => exact hp
  | some kind =>
    refine hp.trans (dispatch_moves (hp.coherent h.cleared) hk ht hown fun id hid => ?_)
    rw [← hk] at hid
    exact isDue_prepared hid

end Handlers

section Tick

variable {now : Int} {s : ServerState}

theorem tickPromises_moves (h : Coherent s) :
    Moves now (Move.FromTick s now) s (s.tickPromises now) := by
  have hdue : ∀ d ∈ s.duePromises now, s.isDue now d = true := by
    intro d hd
    obtain ⟨p, hp, hst, ht, -⟩ := h.mem_duePromises.mp hd
    exact ServerState.isDue_iff.mpr ⟨p, hp, hst, ht⟩
  exact Moves.one (.expire (s.duePromises now)) rfl ⟨h.nodup_duePromises now, hdue, h.settles_bulk⟩

theorem tickTasks_moves : Moves now (Move.FromTick s now) (s.tickPromises now) (s.tick now) := by
  have hrest : Performs now True (fun act => act.Plain ∧ act.FromTick) ⟨s.tickPromises now, ∅⟩
      ⟨s.tick now, ∅⟩ :=
    (Performs.foldl (fun lease _ _ =>
        ServerState.tickRelease_performs (fun _ _ => ⟨trivial, trivial⟩) lease) _).trans
      (Performs.foldl (fun id _ _ =>
        ServerState.tickRetry_performs (fun _ _ => ⟨trivial, trivial⟩) id) _)
  exact Moves.of_performs hrest (fun _ hact => hact.1) fun _ hact => hact.2

theorem tick_moves (h : Coherent s) : Moves now (Move.FromTick s now) s (s.tick now) :=
  (tickPromises_moves h).trans tickTasks_moves

/-- Every operation of the SDK is a sequence of moves. -/
theorem exec_moves (h : Coherent s) {op : Op} (hop : op.Typed) :
    Moves op.now (op.Moves s) (op.start s) (s.exec op) := by
  cases op with
  | apply now req => exact apply_moves h hop.1 hop.2
  | tick now => exact tick_moves h

theorem Coherent.init : Coherent ServerState.init where
  awaiters := {
    wf := WF.init
    settled := fun _ _ h => nomatch h
    awaiter := fun _ _ _ h => nomatch h }
  cell _ := {
    promise := fun _ h => nomatch h
    task := fun _ h => nomatch h
    task_promise := fun _ h => nomatch h
    fulfilled_iff := fun _ h => nomatch h
    targeted := fun _ h => nomatch h
    pEntries := rfl
    tEntries := rfl }

theorem Coherent.start (h : Coherent s) (op : Op) : Coherent (op.start s) := by
  cases op with
  | apply now req => exact h.cleared
  | tick now => exact h

theorem Coherent.exec (h : Coherent s) {op : Op} (hop : op.Typed) : Coherent (s.exec op) :=
  (exec_moves h hop).coherent (h.start op)

theorem Coherent.run {ops : List Op} (h : ∀ op ∈ ops, op.Typed) : Coherent (ServerState.init.run ops) :=
  Machine.invariant (G := fun _ op => op.Typed) (fun _ _ hop hc => hc.exec hop) .init
    (Machine.along_of_forall fun _ op hop => h op hop)

end Tick

theorem typed_of_not_settle {now : Int} {req : Json} (hr : settleRequest req = none)
    (hk : ReqKind.ofName (kindOf req) ≠ some .taskFulfill) : (Op.apply now req).Typed :=
  ⟨fun r h => by simp [hr] at h, fun h => absurd h hk⟩

def fulfilledRun : List Op :=
  twinRun ++ [.apply 1 (request "task.acquire" ⟨"c", none⟩ (taskAcquireData "b" 0 "w" 1000)),
    .apply 2 (request "task.fulfill" ⟨"c", none⟩ (taskFulfillData "b" 0 ⟨"c", none⟩
      { id := "b", state := .resolved, value := {} }))]

theorem fulfilledRun_typed : ∀ op ∈ fulfilledRun, op.Typed := by
  intro op hop
  simp only [fulfilledRun, twinRun, List.cons_append, List.nil_append, List.mem_cons,
    List.not_mem_nil, or_false] at hop
  rcases hop with rfl | rfl | rfl | rfl | rfl | rfl
  · exact typed_of_not_settle rfl (by decide)
  · exact typed_of_not_settle rfl (by decide)
  · exact typed_of_not_settle rfl (by decide)
  · exact typed_of_not_settle rfl (by decide)
  · exact typed_of_not_settle rfl (by decide)
  · refine ⟨fun r h => ?_, fun _ id h => ?_⟩
    · obtain rfl := Option.some.inj h
      decide
    · exact h

end Resonate.Network
