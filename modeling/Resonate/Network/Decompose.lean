import Resonate.Network.Actions

/-!
# Every request and every tick is a list of actions

`apply_performs` and `tick_performs`: a request performs guarded actions that
come from the request, a tick guarded actions of a tick, and both leave no
settlement half done. Every invariant of the server is proved from these two.
-/

namespace Resonate.Network
open Lib

theorem requireStr_ok {obj : Json} {field s : String} :
    requireStr obj field = .ok s ↔ strField obj field = some s ∧ s ≠ "" := by
  unfold requireStr
  cases strField obj field with
  | none => simp
  | some x =>
    dsimp only
    split_ifs with h
    · simp only [Except.ok.injEq, Option.some.injEq]
      constructor
      · rintro rfl
        exact ⟨rfl, h⟩
      · exact fun h' => h'.1
    · simp only [Option.some.injEq, false_iff, not_and, not_not]
      rintro rfl
      simpa using h

def settleRequest (req : Json) : Option Json :=
  match ReqKind.ofName (kindOf req) with
  | some .promiseSettle => some req
  | some .taskFulfill => some (extractActionData (actionOf req))
  | some .taskFence => if (fenceAction req).1 then some (fenceAction req).2 else none
  | _ => none

def createRequest (req : Json) : Option Json :=
  match ReqKind.ofName (kindOf req) with
  | some .promiseCreate => some req
  | some .taskCreate => some (extractActionData (actionOf req))
  | some .taskFence => if (fenceAction req).1 then none else some (fenceAction req).2
  | _ => none

def Grants (req : Json) (id : String) : Prop :=
  ReqKind.ofName (kindOf req) = some .taskAcquire ∧ strField req "id" = some id ∨
    ReqKind.ofName (kindOf req) = some .taskCreate ∧
      strField (extractActionData (actionOf req)) "id" = some id

def Suspends (req : Json) (id : String) : Prop :=
  ReqKind.ofName (kindOf req) = some .taskSuspend ∧ strField req "id" = some id

/-- What the actions of a request have to do with the request. -/
def Act.From (req : Json) : Act → Prop
  | expire id => id ∈ namedPromises (ReqKind.ofName (kindOf req)) req
  | settle id state value => ∃ r, settleRequest req = some r ∧ state = settleStateOf r ∧
      value = valueOf r ∧ id = (strField r "id").getD ((strField req "id").getD "")
  | addExpired id r | addPending id r | addFulfilled id r | addAcquired id r _ _ =>
    createRequest req = some r ∧ strField r "id" = some id
  | grant id _ _ => Grants req id
  | suspend id => Suspends req id
  | register id awaited => Suspends req id ∧ awaited ∈ callbacksOf req
  | tickExpire _ | retry _ _ => False
  | _ => True

def Act.FromTick : Act → Prop
  | tickExpire _ | enqueue _ | wake _ | release _ _ | retry _ _ => True
  | _ => False

def Terminal (req : Json) : Prop :=
  ∀ r, settleRequest req = some r → settleStateOf r ≠ .pending

namespace ServerState

variable {now : Int} {terminal : Prop} {P : Act → Prop} {E : Set String} {s : ServerState}

theorem isSettled_iff {id : String} :
    s.isSettled id = true ↔ ∃ p, s.promises.lookup id = some p ∧ p.state ≠ .pending := by
  unfold isSettled
  cases s.promises.lookup id <;> simp

theorem isPending_iff {id : String} :
    s.isPending id = true ↔ ∃ p, s.promises.lookup id = some p ∧ p.state = .pending := by
  unfold isPending
  cases s.promises.lookup id <;> simp

theorem not_isPending_of_isSettled {id : String} (h : s.isSettled id = true) :
    s.isPending id = false := by
  obtain ⟨p, hp, hs⟩ := isSettled_iff.mp h
  simp [isPending, hp, hs]

theorem isPending_enqueueSettle (id a : String) :
    (s.enqueueSettle id).isPending a = s.isPending a := by
  simp only [isPending, enqueueSettle_promises]
  cases s.promises.lookup a with
  | none => rfl
  | some p => simp only [Option.map_some]; split_ifs <;> rfl

theorem timeoutState_ne_pending (tags : HashMap String) : timeoutState tags ≠ .pending := by
  unfold timeoutState
  split_ifs <;> decide

theorem chain_performs {id : String} {p : DurablePromise} (hp : s.promises.lookup id = some p)
    (hset : terminal → p.state ≠ .pending) (hid : id ∉ E)
    (he : P (.enqueue id)) (hw : P (.wake id)) :
    Performs now terminal P ⟨s, insert id E⟩ ⟨s.settled id now, E⟩ := by
  have hs : terminal → s.isSettled id = true := fun ht => isSettled_iff.mpr ⟨p, hp, hset ht⟩
  have h1 : Performs now terminal P ⟨s, insert id E⟩ ⟨s.enqueueSettle id, insert id E⟩ :=
    Performs.one (.enqueue id) (Or.inl ⟨by simp, by simp [hp], hs⟩) he
  have hg : terminal → (s.enqueueSettle id).isPending id = false := fun ht => by
    rw [isPending_enqueueSettle]
    exact not_isPending_of_isSettled (hs ht)
  have h2 : Performs now terminal P ⟨s.enqueueSettle id, insert id E⟩ _ :=
    Performs.one (.wake id) hg hw
  have hE : (insert id E) \ {id} = E := Set.insert_sdiff_self_of_notMem hid
  simp only [Ledger.step, perform, Act.unwoken, hE] at h2
  exact h1.trans h2

theorem isDue_iff {id : String} :
    s.isDue now id = true ↔
      ∃ p, s.promises.lookup id = some p ∧ p.state = .pending ∧ p.timeoutAt ≤ now := by
  unfold isDue
  cases s.promises.lookup id <;> simp

theorem expire_performs {id : String} (hd : s.isDue now id = true) (hid : id ∉ E)
    (hx : P (.expire id)) (he : P (.enqueue id)) (hw : P (.wake id)) :
    Performs now terminal P ⟨s, E⟩ ⟨(s.expire id).settled id now, E⟩ := by
  obtain ⟨p, hp, -, -⟩ := isDue_iff.mp hd
  have hp' : (s.expire id).promises.lookup id = some (expireRecord p) := by simp [expire, hp]
  exact (Performs.one (L := ⟨s, E⟩) (.expire id) hd hx).trans
    (chain_performs hp' (fun _ => timeoutState_ne_pending _) hid he hw)

theorem autoTimeouts_performs {ids : List String} (hx : ∀ id ∈ ids, P (.expire id))
    (he : ∀ id, P (.enqueue id)) (hw : ∀ id, P (.wake id)) :
    Performs now terminal P ⟨s, ∅⟩ ⟨s.autoTimeouts now ids, ∅⟩ := by
  refine Performs.foldl (fun id hid s => ?_) s
  by_cases hd : s.isDue now id = true
  · rw [tryAutoTimeout_of_due _ _ _ hd]
    exact expire_performs hd (Set.notMem_empty id) (hx id hid) (he id) (hw id)
  · rw [tryAutoTimeout_of_not_due _ _ _ (by simpa using hd)]
    exact Performs.refl _

theorem promiseCreate_performs {corrId r : Json}
    (hadd : ∀ id, strField r "id" = some id → P (.addExpired id r) ∧ P (.addPending id r))
    (he : ∀ id, P (.enqueue id)) (hw : ∀ id, P (.wake id)) :
    Performs now terminal P ⟨s, ∅⟩ ⟨(s.promiseCreate now corrId r).1, ∅⟩ := by
  unfold promiseCreate
  cases hr : requireStr r "id" with
  | error e => exact Performs.refl _
  | ok id =>
    obtain ⟨hf, hne⟩ := requireStr_ok.mp hr
    cases hp : s.promises.lookup id with
    | some p => simp only [hp]; exact Performs.refl _
    | none =>
      simp only [hp]
      split_ifs with ht
      · have hp' : (s.addExpired id r).promises.lookup id = some (expiredPromise id r) := by
          simp [addExpired]
        exact (Performs.one (L := ⟨s, ∅⟩) (.addExpired id r) ⟨hne, hp, ht⟩ (hadd id hf).1).trans
          (chain_performs hp' (fun _ => timeoutState_ne_pending _) (Set.notMem_empty id)
            (he id) (hw id))
      · exact Performs.one (L := ⟨s, ∅⟩) (.addPending id r) ⟨hne, hp, lt_of_not_ge ht⟩
          (hadd id hf).2

theorem promiseSettle_performs {corrId r : Json}
    (hset : ∀ id, strField r "id" = some id → P (.settle id (settleStateOf r) (valueOf r)))
    (hst : terminal → settleStateOf r ≠ .pending)
    (he : ∀ id, P (.enqueue id)) (hw : ∀ id, P (.wake id)) :
    Performs now terminal P ⟨s, ∅⟩ ⟨(s.promiseSettle now corrId r).1, ∅⟩ := by
  unfold promiseSettle
  cases hr : requireStr r "id" with
  | error e => exact Performs.refl _
  | ok id =>
    obtain ⟨hf, -⟩ := requireStr_ok.mp hr
    cases hp : s.promises.lookup id with
    | none => simp only [hp]; exact Performs.refl _
    | some p =>
      simp only [hp]
      split_ifs with hs
      · exact Performs.refl _
      · have hg : (Act.settle id (settleStateOf r) (valueOf r)).Guard now terminal ⟨s, ∅⟩ :=
          ⟨isPending_iff.mpr ⟨p, hp, by simpa using hs⟩, hst⟩
        have hp' : (s.settleAt id (settleStateOf r) (valueOf r) now).promises.lookup id =
            some (settleRecord (settleStateOf r) (valueOf r) now p) := by simp [settleAt, hp]
        exact (Performs.one _ hg (hset id hf)).trans
          (chain_performs hp' hst (Set.notMem_empty id) (he id) (hw id))

theorem promiseRegisterListener_performs {corrId r : Json}
    (hsub : ∀ id address, P (.subscribe id address)) :
    Performs now terminal P ⟨s, E⟩ ⟨(s.promiseRegisterListener corrId r).1, E⟩ := by
  unfold promiseRegisterListener
  cases requireStr r "awaited" with
  | error e => exact Performs.refl _
  | ok id =>
    cases requireStr r "address" with
    | error e => exact Performs.refl _
    | ok address =>
      cases hp : s.promises.lookup id with
      | none => simp only [hp]; exact Performs.refl _
      | some p =>
        simp only [hp]
        split_ifs with hs
        · exact Performs.one (L := ⟨s, E⟩) (.subscribe id address)
            (isPending_iff.mpr ⟨p, hp, hs⟩) (hsub id address)
        · exact Performs.refl _

theorem taskCreate_performs {corrId req : Json}
    (hgrant : ∀ id pid ttl, strField (extractActionData (actionOf req)) "id" = some id →
      P (.grant id pid ttl))
    (hadd : ∀ id pid ttl, strField (extractActionData (actionOf req)) "id" = some id →
      P (.addFulfilled id (extractActionData (actionOf req))) ∧
        P (.addAcquired id (extractActionData (actionOf req)) pid ttl)) :
    Performs now terminal P ⟨s, E⟩ ⟨(s.taskCreate now corrId req).1, E⟩ := by
  unfold taskCreate
  cases requireStr req "pid" with
  | error e => exact Performs.refl _
  | ok pid =>
    dsimp only
    cases hr : requireStr (extractActionData (actionOf req)) "id" with
    | error e => exact Performs.refl _
    | ok id =>
      obtain ⟨hf, hne⟩ := requireStr_ok.mp hr
      cases ht : s.tasks.lookup id with
      | some t =>
        simp only [ht]
        cases hst : t.state with
        | pending =>
          exact Performs.one (L := ⟨s, E⟩) (.grant id pid (extractTtl req)) ⟨t, ht, hst⟩
            (hgrant id pid _ hf)
        | fulfilled => exact Performs.refl _
        | acquired => exact Performs.refl _
        | suspended => exact Performs.refl _
        | halted => exact Performs.refl _
      | none =>
        simp only [ht]
        split_ifs with hp hdue
        · exact Performs.refl _
        · exact Performs.one (L := ⟨s, E⟩) (.addFulfilled id _)
            ⟨hne, by simpa using hp, ht, hdue⟩ (hadd id pid 0 hf).1
        · exact Performs.one (L := ⟨s, E⟩) (.addAcquired id _ pid (extractTtl req))
            ⟨hne, by simpa using hp, ht, lt_of_not_ge hdue⟩ (hadd id pid _ hf).2

theorem taskAcquire_performs {corrId req : Json}
    (hgrant : ∀ id pid ttl, strField req "id" = some id → P (.grant id pid ttl)) :
    Performs now terminal P ⟨s, E⟩ ⟨(s.taskAcquire now corrId req).1, E⟩ := by
  unfold taskAcquire
  cases hr : requireStr req "id" with
  | error e => exact Performs.refl _
  | ok id =>
    dsimp only
    cases ht : s.tasks.lookup id with
    | none => exact Performs.refl _
    | some t =>
      dsimp only
      split_ifs with hs
      · exact Performs.refl _
      · exact Performs.one (L := ⟨s, E⟩) (.grant id _ _) ⟨t, ht, by simpa using hs⟩
          (hgrant id _ _ (requireStr_ok.mp hr).1)

theorem taskRelease_performs {corrId req : Json} (hrel : ∀ id t, P (.release id t)) :
    Performs now terminal P ⟨s, E⟩ ⟨(s.taskRelease now corrId req).1, E⟩ := by
  unfold taskRelease
  cases requireStr req "id" with
  | error e => exact Performs.refl _
  | ok id =>
    dsimp only
    cases ht : s.tasks.lookup id with
    | none => exact Performs.refl _
    | some t =>
      dsimp only
      split_ifs with hs
      · exact Performs.refl _
      · exact Performs.one (L := ⟨s, E⟩) (.release id t) ⟨ht, by simpa using hs⟩ (hrel id t)

theorem fulfill_performs {id promiseId : String} (hne : terminal → s.isPending promiseId = false)
    (ht : s.taskIs id .acquired) (hE : E \ {promiseId} = ∅)
    (he : P (.enqueue id)) (hw : P (.wake promiseId)) :
    Performs now terminal P ⟨s, E⟩
      ⟨((s.enqueueSettle id).resumeAwaiters promiseId now).notifySubscribers promiseId, ∅⟩ := by
  have h1 : Performs now terminal P ⟨s, E⟩ _ := Performs.one (.enqueue id) (Or.inr ht) he
  have h2 : Performs now terminal P ⟨s.enqueueSettle id, E⟩ _ :=
    Performs.one (.wake promiseId) (fun h => by rw [isPending_enqueueSettle]; exact hne h) hw
  simp only [Ledger.step, perform, Act.unwoken, hE] at h2
  exact h1.trans h2

theorem isPending_settleAt {id : String} {state : PromiseState} {value : Json}
    (h : state ≠ .pending) : (s.settleAt id state value now).isPending id = false := by
  simp only [isPending, settleAt, delPTimeout_promises, HashMap.lookup_modify, if_true]
  cases s.promises.lookup id <;> simp [settleRecord, h]

theorem taskFulfill_performs {corrId req : Json}
    (hset : ∀ id, P (.settle ((strField (extractActionData (actionOf req)) "id").getD id)
      (settleStateOf (extractActionData (actionOf req)))
      (valueOf (extractActionData (actionOf req)))) ∨ strField req "id" ≠ some id)
    (hst : terminal → settleStateOf (extractActionData (actionOf req)) ≠ .pending)
    (he : ∀ id, P (.enqueue id)) (hw : ∀ id, P (.wake id)) :
    Performs now terminal P ⟨s, ∅⟩ ⟨(s.taskFulfill now corrId req).1, ∅⟩ := by
  unfold taskFulfill
  cases hr : requireStr req "id" with
  | error e => exact Performs.refl _
  | ok id =>
    dsimp only
    cases ht : s.tasks.lookup id with
    | none => exact Performs.refl _
    | some t =>
      dsimp only
      have hid := (requireStr_ok.mp hr).1
      have hsettle := (hset id).resolve_right (not_not.mpr hid)
      set settle := extractActionData (actionOf req)
      set promiseId := (strField settle "id").getD id
      split_ifs with hs hp
      · exact Performs.refl _
      · have ha : t.state = .acquired := by simpa using hs
        refine (Performs.one (L := ⟨s, ∅⟩) (.settle promiseId _ _) ⟨hp, hst⟩ hsettle).trans
          (fulfill_performs (fun h => isPending_settleAt (hst h)) ⟨t, ht, ha⟩
            (by simp [Act.unwoken]) (he id) (hw promiseId))
      · have ha : t.state = .acquired := by simpa using hs
        exact fulfill_performs (fun _ => by simpa using hp) ⟨t, ht, ha⟩ (by simp) (he id)
          (hw promiseId)

theorem taskFence_performs {corrId req : Json}
    (hset : ∀ id, (fenceAction req).1 = true → strField (fenceAction req).2 "id" = some id →
      P (.settle id (settleStateOf (fenceAction req).2) (valueOf (fenceAction req).2)))
    (hst : terminal → (fenceAction req).1 = true → settleStateOf (fenceAction req).2 ≠ .pending)
    (hadd : ∀ id, (fenceAction req).1 = false → strField (fenceAction req).2 "id" = some id →
      P (.addExpired id (fenceAction req).2) ∧ P (.addPending id (fenceAction req).2))
    (he : ∀ id, P (.enqueue id)) (hw : ∀ id, P (.wake id)) :
    Performs now terminal P ⟨s, ∅⟩ ⟨(s.taskFence now corrId req).1, ∅⟩ := by
  have hinner : Performs now terminal P ⟨s, ∅⟩ ⟨(s.fenceInner now corrId req).1, ∅⟩ := by
    unfold fenceInner
    cases hk : (fenceAction req).1 with
    | true =>
      simp only [hk, if_true]
      exact promiseSettle_performs (fun id h => hset id hk h) (fun h => hst h hk) he hw
    | false =>
      simp only [hk, Bool.false_eq_true, if_false]
      exact promiseCreate_performs (fun id h => hadd id hk h) he hw
  unfold taskFence
  cases requireStr req "id" with
  | error e => exact Performs.refl _
  | ok id =>
    dsimp only
    cases s.tasks.lookup id with
    | none => exact Performs.refl _
    | some t =>
      dsimp only
      split_ifs
      · exact Performs.refl _
      · split <;> rename_i heq <;> rw [heq] at hinner <;> exact hinner

theorem taskIs_registerAwaiter {id a b : String} {st : TaskState} :
    (registerAwaiter a s b).taskIs id st ↔ s.taskIs id st := by
  unfold registerAwaiter
  split_ifs <;> rfl

theorem foldl_register_performs {id : String} {callbacks : List String}
    (hreg : ∀ a ∈ callbacks, P (.register id a)) (ht : s.taskIs id .acquired) :
    Performs now terminal P ⟨s, E⟩ ⟨callbacks.foldl (registerAwaiter id) s, E⟩ ∧
      (callbacks.foldl (registerAwaiter id) s).taskIs id .acquired := by
  induction callbacks generalizing s with
  | nil => exact ⟨Performs.refl _, ht⟩
  | cons a as ih =>
    obtain ⟨h, ht'⟩ := ih (fun b hb => hreg b (by simp [hb])) (taskIs_registerAwaiter.mpr ht)
    exact ⟨(Performs.one (L := ⟨s, E⟩) (.register id a) ht (hreg a (by simp))).trans h, ht'⟩

theorem taskSuspend_performs {corrId req : Json}
    (hclear : ∀ id, P (.clearResumes id))
    (hreg : ∀ id a, strField req "id" = some id → a ∈ callbacksOf req → P (.register id a))
    (hsus : ∀ id, strField req "id" = some id → P (.suspend id)) :
    Performs now terminal P ⟨s, E⟩ ⟨(s.taskSuspend corrId req).1, E⟩ := by
  unfold taskSuspend
  cases hr : requireStr req "id" with
  | error e => exact Performs.refl _
  | ok id =>
    dsimp only
    cases ht : s.tasks.lookup id with
    | none => exact Performs.refl _
    | some t =>
      have hid := (requireStr_ok.mp hr).1
      dsimp only
      split_ifs with hs hres hany
      · exact Performs.refl _
      · exact Performs.one (L := ⟨s, E⟩) (.clearResumes id) ⟨t, ht, by simpa using hs⟩ (hclear id)
      · exact (foldl_register_performs (fun a ha => hreg id a hid ha)
          ⟨t, ht, by simpa using hs⟩).1
      · obtain ⟨h, ht'⟩ : Performs now terminal P ⟨s, E⟩ ⟨_, E⟩ ∧ _ :=
          foldl_register_performs (fun a ha => hreg id a hid ha) ⟨t, ht, by simpa using hs⟩
        exact h.trans (Performs.one (L := ⟨_, E⟩) (.suspend id) ht' (hsus id hid))

theorem heartbeatAll_performs {pid : String} {refs : List Json}
    (hbeat : ∀ id t, P (.beat id t)) :
    Performs now terminal P ⟨s, E⟩ ⟨(s.heartbeatAll now pid refs).1, E⟩ := by
  induction refs generalizing s with
  | nil => exact Performs.refl _
  | cons ref refs ih =>
    unfold heartbeatAll
    cases requireStr ref "id" with
    | error e => exact Performs.refl _
    | ok id =>
      refine Performs.trans ?_ ih
      unfold heartbeatOne
      cases ht : s.tasks.lookup id with
      | none => exact Performs.refl _
      | some t =>
        dsimp only
        split_ifs with h
        · exact Performs.one (L := ⟨s, E⟩) (.beat id t) ⟨ht, h.1⟩ (hbeat id t)
        · exact Performs.refl _

theorem taskHeartbeat_performs {corrId req : Json} (hbeat : ∀ id t, P (.beat id t)) :
    Performs now terminal P ⟨s, E⟩ ⟨(s.taskHeartbeat now corrId req).1, E⟩ := by
  unfold taskHeartbeat
  cases requireStr req "pid" with
  | error e => exact Performs.refl _
  | ok pid =>
    dsimp only
    have h : Performs now terminal P ⟨s, E⟩ ⟨(s.heartbeatAll now pid
        (((req.get "tasks").bind Json.asArray).getD [])).1, E⟩ := heartbeatAll_performs hbeat
    split <;> rename_i heq <;> rw [heq] at h <;> exact h

theorem promiseGet_fst {corrId req : Json} : (s.promiseGet corrId req).1 = s := by
  unfold promiseGet
  split
  · rfl
  · split <;> rfl

theorem scheduleGet_fst {corrId req : Json} : (s.scheduleGet corrId req).1 = s := by
  unfold scheduleGet
  split
  · rfl
  · split <;> rfl

theorem scheduleCreate_fst {corrId req : Json} :
    ∃ m, (s.scheduleCreate now corrId req).1 = { s with schedules := m } := by
  unfold scheduleCreate
  split
  · exact ⟨_, rfl⟩
  · dsimp only
    split_ifs
    · exact ⟨_, rfl⟩
    · split
      · exact ⟨_, rfl⟩
      · split
        · exact ⟨_, rfl⟩
        · split <;> exact ⟨_, rfl⟩

theorem scheduleDelete_fst {corrId req : Json} :
    ∃ m, (s.scheduleDelete corrId req).1 = { s with schedules := m } := by
  unfold scheduleDelete
  split
  · exact ⟨_, rfl⟩
  · split <;> exact ⟨_, rfl⟩

theorem schedules_performs {s' : ServerState} (h : ∃ m, s' = { s with schedules := m })
    (hs : ∀ m, P (.schedules m)) : Performs now terminal P ⟨s, E⟩ ⟨s', E⟩ := by
  obtain ⟨m, rfl⟩ := h
  exact Performs.one (L := ⟨s, E⟩) (.schedules m) trivial (hs m)

theorem dispatch_performs {corrId req : Json} {kind : ReqKind}
    (hk : ReqKind.ofName (kindOf req) = some kind) :
    Performs now (Terminal req) (Act.From req) ⟨s, ∅⟩
      ⟨(s.dispatch now corrId req kind).1, ∅⟩ := by
  have he : ∀ id, Act.From req (.enqueue id) := fun _ => trivial
  have hw : ∀ id, Act.From req (.wake id) := fun _ => trivial
  cases kind with
  | promiseGet => simp only [dispatch, promiseGet_fst]; exact Performs.refl _
  | promiseCreate =>
    have hc : createRequest req = some req := by simp [createRequest, hk]
    exact promiseCreate_performs (fun id h => ⟨⟨hc, h⟩, ⟨hc, h⟩⟩) he hw
  | promiseSettle =>
    have hc : settleRequest req = some req := by simp [settleRequest, hk]
    exact promiseSettle_performs (fun id h => ⟨req, hc, rfl, rfl, by simp [h]⟩)
      (fun h => h req hc) he hw
  | promiseRegisterListener => exact promiseRegisterListener_performs fun _ _ => trivial
  | taskCreate =>
    have hc : createRequest req = some (extractActionData (actionOf req)) := by
      simp [createRequest, hk]
    exact taskCreate_performs (fun id _ _ h => Or.inr ⟨hk, h⟩)
      (fun id _ _ h => ⟨⟨hc, h⟩, ⟨hc, h⟩⟩)
  | taskAcquire => exact taskAcquire_performs fun id _ _ h => Or.inl ⟨hk, h⟩
  | taskRelease => exact taskRelease_performs fun _ _ => trivial
  | taskFulfill =>
    have hc : settleRequest req = some (extractActionData (actionOf req)) := by
      simp [settleRequest, hk]
    refine taskFulfill_performs (fun id => ?_) (fun h => h _ hc) he hw
    by_cases h : strField req "id" = some id
    · exact Or.inl ⟨_, hc, rfl, rfl, by simp [h]⟩
    · exact Or.inr h
  | taskFence =>
    have hs (h : (fenceAction req).1 = true) : settleRequest req = some (fenceAction req).2 := by
      simp [settleRequest, hk, h]
    have hc (h : (fenceAction req).1 = false) : createRequest req = some (fenceAction req).2 := by
      simp [createRequest, hk, h]
    exact taskFence_performs (fun id h hf => ⟨_, hs h, rfl, rfl, by simp [hf]⟩)
      (fun h hf => h _ (hs hf)) (fun id h hf => ⟨⟨hc h, hf⟩, ⟨hc h, hf⟩⟩) he hw
  | taskSuspend =>
    exact taskSuspend_performs (fun _ => trivial) (fun id a h ha => ⟨⟨hk, h⟩, ha⟩)
      (fun id h => ⟨hk, h⟩)
  | taskHeartbeat => exact taskHeartbeat_performs fun _ _ => trivial
  | scheduleCreate => exact schedules_performs scheduleCreate_fst fun _ => trivial
  | scheduleGet => simp only [dispatch, scheduleGet_fst]; exact Performs.refl _
  | scheduleDelete => exact schedules_performs scheduleDelete_fst fun _ => trivial
  | scheduleSearch => exact Performs.refl _

theorem prepared_performs {req : Json} (hc : P .clearOutgoing)
    (hx : ∀ id ∈ namedPromises (ReqKind.ofName (kindOf req)) req, P (.expire id))
    (he : ∀ id, P (.enqueue id)) (hw : ∀ id, P (.wake id)) :
    Performs now terminal P ⟨s, ∅⟩ ⟨s.prepared now req, ∅⟩ :=
  (Performs.one (L := ⟨s, ∅⟩) .clearOutgoing trivial hc).trans (autoTimeouts_performs hx he hw)

theorem apply_performs (s : ServerState) (now : Int) (req : Json) :
    Performs now (Terminal req) (Act.From req) ⟨s, ∅⟩ ⟨(s.apply now req).1, ∅⟩ := by
  have hp : Performs now (Terminal req) (Act.From req) ⟨s, ∅⟩ ⟨s.prepared now req, ∅⟩ :=
    prepared_performs trivial (fun _ h => h) (fun _ => trivial) (fun _ => trivial)
  unfold apply
  cases hk : ReqKind.ofName (kindOf req) with
  | none => exact hp
  | some kind => exact hp.trans (dispatch_performs hk)

section Tick

variable {ids : List String}

theorem isPending_tickExpire (id a : String) :
    (s.tickExpire id).isPending a = (s.isPending a && decide (a ≠ id)) := by
  simp only [isPending, tickExpire, delPTimeout_promises, HashMap.lookup_modify]
  by_cases h : a = id
  · cases s.promises.lookup a <;> simp [h, expireRecord, timeoutState_ne_pending]
  · simp [h]

theorem isSettled_tickExpire {id a : String} (h : s.isSettled a = true) :
    (s.tickExpire id).isSettled a = true := by
  obtain ⟨p, hp, hs⟩ := isSettled_iff.mp h
  by_cases ha : a = id
  · subst ha
    exact isSettled_iff.mpr ⟨_, by simp [tickExpire, hp]; rfl, timeoutState_ne_pending _⟩
  · exact isSettled_iff.mpr ⟨p, by simp [tickExpire, ha, hp], hs⟩

theorem isSettled_tickSettle {id a : String} (h : s.isSettled a = true) :
    (s.tickSettle id).isSettled a = true := by
  unfold tickSettle
  split_ifs
  · exact isSettled_tickExpire h
  · exact h

theorem isSettled_tickSettle_self {id : String}
    (h : s.isPending id = true ∨ s.isSettled id = true) : (s.tickSettle id).isSettled id = true := by
  rcases h with h | h
  · obtain ⟨p, hp, -⟩ := isPending_iff.mp h
    simp only [tickSettle, h, if_true]
    exact isSettled_iff.mpr ⟨_, by simp [tickExpire, hp]; rfl, timeoutState_ne_pending _⟩
  · exact isSettled_tickSettle h

theorem isPending_or_tickSettle {id a : String} (h : s.isPending a = true ∨ s.isSettled a = true) :
    (s.tickSettle id).isPending a = true ∨ (s.tickSettle id).isSettled a = true := by
  by_cases ha : a = id
  · subst ha
    exact Or.inr (isSettled_tickSettle_self h)
  · rcases h with h | h
    · left
      unfold tickSettle
      split_ifs
      · simp [isPending_tickExpire, h, ha]
      · exact h
    · exact Or.inr (isSettled_tickSettle h)

theorem foldl_tickSettle_settled {a : String} (h : s.isSettled a = true) :
    (ids.foldl tickSettle s).isSettled a = true := by
  induction ids generalizing s with
  | nil => exact h
  | cons id ids ih => exact ih (isSettled_tickSettle h)

theorem tickSettle_performs (hx : ∀ id ∈ ids, P (.tickExpire id))
    (hids : ∀ id ∈ ids, s.isPending id = true ∨ s.isSettled id = true)
    (hE : ∀ id ∈ ids, s.isPending id = false → id ∈ E) :
    Performs now terminal P ⟨s, E⟩ ⟨ids.foldl tickSettle s, E ∪ {id | id ∈ ids}⟩ ∧
      (∀ id ∈ ids, (ids.foldl tickSettle s).isSettled id = true) := by
  induction ids generalizing s E with
  | nil =>
    have h : E ∪ {id | id ∈ ([] : List String)} = E := by simp
    rw [h]
    exact ⟨Performs.refl _, by simp⟩
  | cons id ids ih =>
    have hset : ∀ b ∈ ids, (s.tickSettle id).isPending b = true ∨
        (s.tickSettle id).isSettled b = true := fun b hb =>
      isPending_or_tickSettle (hids b (by simp [hb]))
    have hins : ∀ b ∈ ids, (s.tickSettle id).isPending b = false → b ∈ insert id E := by
      intro b hb h
      by_cases hbi : b = id
      · simp [hbi]
      · refine Set.mem_insert_of_mem _ (hE b (by simp [hb]) ?_)
        unfold tickSettle at h
        split_ifs at h
        · simpa [isPending_tickExpire, hbi] using h
        · exact h
    have hstep : Performs now terminal P ⟨s, E⟩ ⟨s.tickSettle id, insert id E⟩ := by
      unfold tickSettle
      split_ifs with hp
      · exact Performs.one (L := ⟨s, E⟩) (.tickExpire id) hp (hx id (by simp))
      · rw [Set.insert_eq_of_mem (hE id (by simp) (by simpa using hp))]
        exact Performs.refl _
    have hsplit : E ∪ {b | b ∈ id :: ids} = insert id E ∪ {b | b ∈ ids} := by
      ext b
      simp only [Set.mem_union, Set.mem_insert_iff, Set.mem_ofPred_eq, List.mem_cons]
      tauto
    obtain ⟨h, hall⟩ := ih (fun b hb => hx b (by simp [hb])) hset hins
    refine ⟨hsplit ▸ hstep.trans h, fun b hb => ?_⟩
    rcases List.mem_cons.mp hb with rfl | hb
    · exact foldl_tickSettle_settled (s := s.tickSettle b)
        (isSettled_tickSettle_self (hids b (by simp)))
    · exact hall b hb

theorem isSettled_enqueueSettle (id a : String) :
    (s.enqueueSettle id).isSettled a = s.isSettled a := by
  simp only [isSettled, enqueueSettle_promises]
  cases s.promises.lookup a with
  | none => rfl
  | some p => simp only [Option.map_some]; split_ifs <;> rfl

theorem tickEnqueue_performs (he : ∀ id, P (.enqueue id))
    (hids : ∀ id ∈ ids, s.isSettled id = true) (hE : ∀ id ∈ ids, id ∈ E) :
    Performs now terminal P ⟨s, E⟩ ⟨ids.foldl enqueueSettle s, E⟩ ∧
      (∀ a, (ids.foldl enqueueSettle s).isSettled a = s.isSettled a) := by
  induction ids generalizing s with
  | nil => exact ⟨Performs.refl _, fun _ => rfl⟩
  | cons id ids ih =>
    have hid := hids id (by simp)
    obtain ⟨p, hp, -⟩ := isSettled_iff.mp hid
    obtain ⟨h, hall⟩ := ih (fun b hb => by
      rw [isSettled_enqueueSettle]
      exact hids b (by simp [hb])) fun b hb => hE b (by simp [hb])
    exact ⟨(Performs.one (L := ⟨s, E⟩) (.enqueue id)
      (Or.inl ⟨hE id (by simp), by simp [hp], fun _ => hid⟩) (he id)).trans h,
        fun a => (hall a).trans (isSettled_enqueueSettle id a)⟩

theorem isSettled_tickNotify (id a : String) :
    (s.tickNotify now id).isSettled a = s.isSettled a := by
  simp only [isSettled, tickNotify, notifySubscribers_promises, resumeAwaiters_promises]
  cases s.promises.lookup a with
  | none => rfl
  | some p => simp only [Option.map_some]; split_ifs <;> rfl

theorem tickNotify_performs (hw : ∀ id, P (.wake id))
    (hids : ∀ id ∈ ids, s.isSettled id = true) :
    Performs now terminal P ⟨s, E⟩ ⟨ids.foldl (tickNotify now) s, E \ {id | id ∈ ids}⟩ := by
  induction ids generalizing s E with
  | nil => simpa using Performs.refl _
  | cons id ids ih =>
    have hsplit : E \ {b | b ∈ id :: ids} = (E \ {id}) \ {b | b ∈ ids} := by
      ext b
      simp only [Set.mem_sdiff, Set.mem_ofPred_eq, List.mem_cons, Set.mem_singleton_iff]
      tauto
    rw [hsplit]
    exact (Performs.one (L := ⟨s, E⟩) (.wake id)
      (fun _ => not_isPending_of_isSettled (hids id (by simp))) (hw id)).trans
      (ih fun b hb => (isSettled_tickNotify id b).trans (hids b (by simp [hb])))

theorem isPending_of_duePromises {id : String} (h : id ∈ s.duePromises now) :
    s.isPending id = true := by
  simp only [duePromises, List.mem_map, List.mem_filter, decide_eq_true_eq] at h
  obtain ⟨pt, ⟨-, -, h⟩, rfl⟩ := h
  exact h

theorem tickPromises_performs (hx : ∀ id ∈ s.duePromises now, P (.tickExpire id))
    (he : ∀ id, P (.enqueue id)) (hw : ∀ id, P (.wake id)) :
    Performs now terminal P ⟨s, ∅⟩ ⟨s.tickPromises now, ∅⟩ := by
  have hp : ∀ id ∈ s.duePromises now, s.isPending id = true := fun _ h => isPending_of_duePromises h
  obtain ⟨h1, hset⟩ : Performs now terminal P ⟨s, ∅⟩ _ ∧ _ :=
    tickSettle_performs hx (fun id h => Or.inl (hp id h)) (fun id h hn => by simp [hp id h] at hn)
  obtain ⟨h2, hall⟩ : Performs now terminal P ⟨_, ∅ ∪ {id | id ∈ s.duePromises now}⟩ _ ∧ _ :=
    tickEnqueue_performs he hset fun id h => Or.inr h
  have h3 : Performs now terminal P ⟨_, ∅ ∪ {id | id ∈ s.duePromises now}⟩ _ :=
    tickNotify_performs hw (fun id h => by rw [hall]; exact hset id h)
  rw [Set.empty_union, Set.sdiff_self] at h3
  rw [Set.empty_union] at h1 h2
  exact (h1.trans h2).trans h3

theorem tickRelease_performs (hrel : ∀ id t, P (.release id t)) (lease : String × Int) :
    Performs now terminal P ⟨s, E⟩ ⟨s.tickRelease now lease, E⟩ := by
  unfold tickRelease
  cases ht : s.tasks.lookup lease.1 with
  | none => exact Performs.refl _
  | some t =>
    dsimp only
    split_ifs with h
    · exact Performs.one (L := ⟨s, E⟩) (.release lease.1 t) ⟨ht, h.1⟩ (hrel _ t)
    · exact Performs.refl _

theorem tickRetry_performs (hret : ∀ id t, P (.retry id t)) (id : String) :
    Performs now terminal P ⟨s, E⟩ ⟨s.tickRetry now id, E⟩ := by
  unfold tickRetry
  cases ht : s.tasks.lookup id with
  | none => exact Performs.refl _
  | some t =>
    dsimp only
    split_ifs with h
    · exact Performs.one (L := ⟨s, E⟩) (.retry id t) ⟨ht, h⟩ (hret _ t)
    · exact Performs.refl _

/-- A tick expires only promises of its work list. -/
theorem tick_performs_due (s : ServerState) (now : Int) :
    Performs now terminal
      (fun act => act.FromTick ∧ ∀ id, act = .tickExpire id → id ∈ s.duePromises now)
      ⟨s, ∅⟩ ⟨s.tick now, ∅⟩ := by
  refine ((tickPromises_performs ?_ ?_ ?_).trans (Performs.foldl (fun lease _ _ =>
    tickRelease_performs ?_ lease) _)).trans (Performs.foldl (fun id _ _ =>
    tickRetry_performs ?_ id) _)
  · intro id h
    exact ⟨trivial, by rintro _ ⟨⟩; exact h⟩
  all_goals simp [Act.FromTick]

theorem tick_performs (s : ServerState) (now : Int) :
    Performs now terminal Act.FromTick ⟨s, ∅⟩ ⟨s.tick now, ∅⟩ :=
  (tick_performs_due s now).mono fun _ h => h.1

end Tick

end ServerState

end Resonate.Network
