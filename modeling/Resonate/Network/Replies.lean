import Resonate.Network.Answers

/-!
# The replies of the server

What a request handler replies, by its kind: a refusal, or the records of its subject as
the server holds them after the request, in the fields the senders parse. The record of a
promise is read before the last actions of some handlers; none of those rewrites it.
-/

namespace Resonate.Network
open Lib

def Act.Rewrites : Act → Prop
  | .expire _ | .tickExpire _ | .settle _ _ _ => True
  | _ => False

namespace ServerState

def Displays (s s' : ServerState) : Prop :=
  ∀ a p, s.promises.lookup a = some p → ∃ q, s'.promises.lookup a = some q ∧
    q.toRecord = p.toRecord

def Records (s : ServerState) (a : String) (j : Json) : Prop :=
  ∃ q, s.promises.lookup a = some q ∧ j = q.toRecord

namespace Displays

variable {s s' s'' : ServerState} {a : String} {j : Json}

theorem refl (s : ServerState) : s.Displays s := fun _ p h => ⟨p, h, rfl⟩

theorem trans (h : s.Displays s') (h' : s'.Displays s'') : s.Displays s'' := by
  intro a p hp
  obtain ⟨q, hq, hk⟩ := h a p hp
  obtain ⟨r, hr, hk'⟩ := h' a q hq
  exact ⟨r, hr, hk'.trans hk⟩

theorem step {now : Int} {terminal : Prop} {L : Ledger} {act : Act}
    (hg : act.Guard now terminal L) (hact : ¬ act.Rewrites) :
    L.state.Displays (L.step now act).state := by
  intro a p hp
  have hnew : ∀ b, L.state.promises.lookup b = none → a ≠ b := by
    rintro b hb rfl
    simp [hb] at hp
  rw [Ledger.step, perform_promises]
  cases act with
  | expire | tickExpire | settle => exact absurd trivial hact
  | enqueue b | wake b | register b c =>
    simp only [promiseAfter, hp, Option.map_some]
    refine ⟨_, rfl, ?_⟩
    split_ifs <;> rfl
  | subscribe b address =>
    simp only [promiseAfter, hp, Option.map_some]
    split_ifs
    · exact ⟨_, rfl, rfl⟩
    · exact ⟨p, rfl, rfl⟩
  | addExpired b req | addPending b req | addFulfilled b req | addAcquired b req pid ttl =>
    simp only [promiseAfter, if_neg (hnew b hg.2.1), hp]
    exact ⟨p, rfl, rfl⟩
  | _ => exact ⟨p, hp, rfl⟩

theorem of_performs {now : Int} {terminal : Prop} {P : Act → Prop} {E E' : Set String}
    (h : Performs now terminal P ⟨s, E⟩ ⟨s', E'⟩) (hP : ∀ act, P act → ¬ act.Rewrites) :
    s.Displays s' :=
  h.invariant (I := fun L => s.Displays L.state)
    (fun _ act hg hp hI => hI.trans (step hg (hP act hp))) (.refl s)

theorem records (h : s.Displays s') (hj : s.Records a j) : s'.Records a j := by
  obtain ⟨p, hp, rfl⟩ := hj
  obtain ⟨q, hq, he⟩ := h a p hp
  exact ⟨q, hq, he.symm⟩

theorem settled {id : String} {now : Int} {p : DurablePromise} (hp : s.promises.lookup id = some p) :
    s.Displays (s.settled id now) :=
  of_performs (P := fun act => act = .enqueue id ∨ act = .wake id)
    (chain_performs hp (fun h : False => h.elim) (Set.notMem_empty id)
      (Or.inl rfl) (Or.inr rfl)) (by rintro act (rfl | rfl) h <;> exact h)

end Displays

theorem records_of_lookup {s : ServerState} {a : String} {p : DurablePromise}
    (h : s.promises.lookup a = some p) : s.Records a p.toRecord := ⟨p, h, rfl⟩

theorem records_recordOf {s : ServerState} {a : String} {p : DurablePromise}
    (h : s.promises.lookup a = some p) : s.Records a (s.recordOf a) :=
  ⟨p, h, by simp [recordOf, h]⟩

theorem records_preload {s : ServerState} {id : String} {j : Json} (h : j ∈ s.preload id) :
    ∃ b, s.Records b j := by
  unfold preload at h
  cases hb : (s.promises.lookup id).bind (·.tags.lookup "resonate:branch") with
  | none => simp [hb] at h
  | some branch =>
    simp only [hb, List.mem_map, List.mem_filter] at h
    obtain ⟨p, ⟨hp, -⟩, rfl⟩ := h
    obtain ⟨b, hb⟩ := HashMap.mem_values.mp hp
    exact ⟨b, p, hb, rfl⟩

end ServerState

def subjectOf (kind : ReqKind) (req : Json) : String :=
  match kind with
  | .promiseRegisterListener => (strField req "awaited").getD ""
  | .taskCreate => (strField (extractActionData (actionOf req)) "id").getD ""
  | .taskFence => (strField (fenceAction req).2 "id").getD ""
  | .taskFulfill =>
    (strField (extractActionData (actionOf req)) "id").getD ((strField req "id").getD "")
  | _ => (strField req "id").getD ""

def ReqKind.RepliesPromise : ReqKind → Prop
  | promiseGet | promiseCreate | promiseSettle | promiseRegisterListener | taskFulfill => True
  | _ => False

def ReqKind.RepliesTask : ReqKind → Prop
  | taskCreate | taskAcquire => True
  | _ => False

def ReqKind.RepliesSchedule : ReqKind → Prop
  | scheduleCreate | scheduleGet => True
  | _ => False

def ReqKind.RepliesNothing : ReqKind → Prop
  | taskRelease | taskSuspend | taskHeartbeat | scheduleDelete => True
  | _ => False

/-- The status and the fields of a reply to a request, in the state after it. A promise
that a fulfilment or a fence settles need not exist, and then its record is null. -/
inductive Shape (s : ServerState) (req : Json) : ReqKind → ℕ → List (String × Json) → Prop
  | refused {kind : ReqKind} {status : ℕ} {fields : List (String × Json)}
      (hs : status = 400 ∨ status = 404 ∨ status = 409)
      (hf : fields = [] ∨ ∃ message, fields = [("error", .str message)]) :
      Shape s req kind status fields
  | promise {kind : ReqKind} {status : ℕ} {j : Json} (hk : kind.RepliesPromise)
      (hs : status = 200 ∨ status = 201) (hj : s.Records (subjectOf kind req) j) :
      Shape s req kind status [("promise", j)]
  | missing (hn : s.promises.lookup (subjectOf .taskFulfill req) = none) :
      Shape s req .taskFulfill 200 [("promise", .null)]
  | task {kind : ReqKind} {status : ℕ} {t : Task} {j : Json} {l : List Json}
      (hk : kind.RepliesTask) (hs : status = 200 ∨ status = 201)
      (ht : s.tasks.lookup (subjectOf kind req) = some t) (hj : s.Records (subjectOf kind req) j)
      (hl : ∀ j ∈ l, ∃ b, s.Records b j) :
      Shape s req kind status [("task", t.toRecord), ("promise", j), ("preload", .arr l)]
  | fence {j : Json} {l : List Json}
      (hj : s.Records (subjectOf .taskFence req) j ∨ (fenceAction req).1 = true ∧
        s.promises.lookup (subjectOf .taskFence req) = none ∧ j = .null)
      (hl : ∀ j ∈ l, ∃ b, s.Records b j) :
      Shape s req .taskFence 200
        [("action", .obj [("data", .obj [("promise", j)])]), ("preload", .arr l)]
  | redirect {l : List Json} (hl : ∀ j ∈ l, ∃ b, s.Records b j) :
      Shape s req .taskSuspend 300 [("redirect", .bool true), ("preload", .arr l)]
  | schedule {kind : ReqKind} {status : ℕ} {stub : ScheduleStub} (hk : kind.RepliesSchedule)
      (hs : status = 200 ∨ status = 201)
      (hl : s.schedules.lookup (subjectOf kind req) = some stub) :
      Shape s req kind status [("schedule", stub.toRecord)]
  | schedules : Shape s req .scheduleSearch 200
      [("schedules", .arr ((HashMap.values s.schedules).map ScheduleStub.toRecord)),
        ("cursor", .null)]
  | nothing {kind : ReqKind} (hk : kind.RepliesNothing) : Shape s req kind 200 []

def Shaped (s : ServerState) (req : Json) (kind : ReqKind) (corrId : Json) (r : Reply) : Prop :=
  (∃ message, r = .error (.serverError 400 message)) ∨
    ∃ status fields, r = reply kind corrId (status : ℕ) fields ∧ Shape s req kind status fields

section Handlers

variable {s s' : ServerState} {now : Int} {kind : ReqKind} {corrId req j : Json} {id : String}

theorem requireStr_error {obj : Json} {field : String} {e : Error}
    (h : requireStr obj field = .error e) : ∃ message, e = .serverError 400 message := by
  unfold requireStr at h
  split at h
  · split_ifs at h
    exact ⟨_, (Except.error.inj h).symm⟩
  · exact ⟨_, (Except.error.inj h).symm⟩

theorem Shaped.of_requireStr {obj : Json} {field : String} {e : Error}
    (h : requireStr obj field = .error e) : Shaped s req kind corrId (.error e) := by
  obtain ⟨message, rfl⟩ := requireStr_error h
  exact Or.inl ⟨message, rfl⟩

theorem Shaped.of (status : ℕ) {fields : List (String × Json)}
    (h : Shape s req kind status fields) :
    Shaped s req kind corrId (reply kind corrId (status : ℕ) fields) :=
  Or.inr ⟨status, fields, rfl, h⟩

theorem Shaped.notFound (status : ℕ) (hs : status = 400 ∨ status = 404 ∨ status = 409)
    {message : String} :
    Shaped s req kind corrId (reply kind corrId (status : ℕ) [("error", .str message)]) :=
  .of status (.refused hs (Or.inr ⟨message, rfl⟩))

theorem Shaped.bare (status : ℕ) (hs : status = 400 ∨ status = 404 ∨ status = 409) :
    Shaped s req kind corrId (reply kind corrId (status : ℕ) []) :=
  .of status (.refused hs (Or.inl rfl))

theorem subjectOf_id (hid : requireStr req "id" = .ok id) : (strField req "id").getD "" = id := by
  rw [(requireStr_ok.mp hid).1]
  rfl

theorem promiseGet_shaped :
    Shaped (s.promiseGet corrId req).1 req .promiseGet corrId (s.promiseGet corrId req).2 := by
  unfold ServerState.promiseGet
  cases hid : requireStr req "id" with
  | error e => exact .of_requireStr hid
  | ok id =>
    dsimp only
    cases hp : s.promises.lookup id with
    | none => exact .notFound 404 (by simp)
    | some p =>
      refine .of 200 (.promise trivial (Or.inl rfl) ?_)
      change (s.Records ((strField req "id").getD "") _)
      rw [subjectOf_id hid]
      exact ServerState.records_of_lookup hp

variable (s now corrId) in
theorem promiseCreate_records (hid : requireStr req "id" = .ok id) :
    ∃ status j, (status = 200 ∨ status = 201) ∧
      (s.promiseCreate now corrId req).2 = reply .promiseCreate corrId (status : ℕ) [("promise", j)] ∧
        (s.promiseCreate now corrId req).1.Records id j := by
  simp only [ServerState.promiseCreate, hid]
  cases hp : s.promises.lookup id with
  | some p => exact ⟨200, _, Or.inl rfl, rfl, ServerState.records_of_lookup hp⟩
  | none =>
    dsimp only
    split_ifs with ht
    · have hnew : (s.addExpired id req).promises.lookup id = some (expiredPromise id req) := by
        simp [ServerState.addExpired]
      exact ⟨200, _, Or.inl rfl, rfl, (ServerState.Displays.settled hnew).records
        (ServerState.records_of_lookup hnew)⟩
    · have hnew : (s.addPending id req now).promises.lookup id =
          some (pendingPromise id req now) := by
        simp [ServerState.addPending_promises]
      exact ⟨201, _, Or.inr rfl, rfl, ServerState.records_of_lookup hnew⟩

variable (s now corrId) in
theorem promiseSettle_records (hid : requireStr req "id" = .ok id) :
    (s.promises.lookup id = none ∧ (s.promiseSettle now corrId req).1 = s ∧
      ∃ message, (s.promiseSettle now corrId req).2 =
        reply .promiseSettle corrId 404 [("error", .str message)]) ∨
    ∃ j, (s.promiseSettle now corrId req).2 = reply .promiseSettle corrId 200 [("promise", j)] ∧
      (s.promiseSettle now corrId req).1.Records id j := by
  simp only [ServerState.promiseSettle, hid]
  cases hp : s.promises.lookup id with
  | none => exact Or.inl ⟨rfl, rfl, _, rfl⟩
  | some p =>
    right
    dsimp only
    split_ifs with hne
    · exact ⟨_, rfl, ServerState.records_of_lookup hp⟩
    · have hnew : (s.settleAt id (settleStateOf req) (valueOf req) now).promises.lookup id =
          some (settleRecord (settleStateOf req) (valueOf req) now p) := by
        simp [ServerState.settleAt, hp]
      exact ⟨_, rfl, (ServerState.Displays.settled hnew).records
        (ServerState.records_of_lookup hnew)⟩

theorem promiseCreate_error {e : Error} (hid : requireStr req "id" = .error e) :
    s.promiseCreate now corrId req = (s, .error e) := by
  simp only [ServerState.promiseCreate, hid]

theorem promiseSettle_error {e : Error} (hid : requireStr req "id" = .error e) :
    s.promiseSettle now corrId req = (s, .error e) := by
  simp only [ServerState.promiseSettle, hid]

theorem promiseCreate_shaped : Shaped (s.promiseCreate now corrId req).1 req .promiseCreate corrId
    (s.promiseCreate now corrId req).2 := by
  cases hid : requireStr req "id" with
  | error e =>
    rw [promiseCreate_error hid]
    exact .of_requireStr hid
  | ok id =>
    obtain ⟨status, j, hs, hr, hj⟩ := promiseCreate_records s now corrId hid
    rw [hr]
    refine .of status (.promise trivial hs ?_)
    change ServerState.Records _ ((strField req "id").getD "") _
    rw [subjectOf_id hid]
    exact hj

theorem promiseSettle_shaped : Shaped (s.promiseSettle now corrId req).1 req .promiseSettle corrId
    (s.promiseSettle now corrId req).2 := by
  cases hid : requireStr req "id" with
  | error e =>
    rw [promiseSettle_error hid]
    exact .of_requireStr hid
  | ok id =>
    obtain ⟨-, -, message, hr⟩ | ⟨j, hr, hj⟩ := promiseSettle_records s now corrId hid
    · rw [hr]
      exact .notFound 404 (by simp)
    · rw [hr]
      refine .of 200 (.promise trivial (Or.inl rfl) ?_)
      change ServerState.Records _ ((strField req "id").getD "") _
      rw [subjectOf_id hid]
      exact hj

theorem promiseRegisterListener_shaped : Shaped (s.promiseRegisterListener corrId req).1 req
    .promiseRegisterListener corrId (s.promiseRegisterListener corrId req).2 := by
  unfold ServerState.promiseRegisterListener
  cases hid : requireStr req "awaited" with
  | error e => exact .of_requireStr hid
  | ok id =>
    dsimp only
    cases hadd : requireStr req "address" with
    | error e => exact .of_requireStr hadd
    | ok address =>
      dsimp only
      cases hp : s.promises.lookup id with
      | none => exact .notFound 404 (by simp)
      | some p =>
        have hsub : subjectOf .promiseRegisterListener req = id := by
          change (strField req "awaited").getD "" = id
          rw [(requireStr_ok.mp hid).1, Option.getD_some]
        refine .of 200 (.promise trivial (Or.inl rfl) ?_)
        rw [hsub]
        dsimp only
        split_ifs with hst
        · refine (ServerState.Displays.of_performs
            (Performs.one (.subscribe id address) (ServerState.isPending_iff.mpr ⟨p, hp, hst⟩) rfl :
              Performs 0 False (fun act => act = .subscribe id address) ⟨s, ∅⟩ ⟨_, ∅⟩) ?_).records
            (ServerState.records_of_lookup hp)
          rintro _ rfl h
          exact h
        · exact ServerState.records_of_lookup hp

theorem grantLease_records {pid : String} {ttl : Int} (hj : s.Records id j) :
    (s.grantLease id pid ttl now).Records id j := hj

theorem taskRecordOf_eq {t : Task} (h : s.tasks.lookup id = some t) :
    s.taskRecordOf id = t.toRecord := by
  simp [ServerState.taskRecordOf, h]

theorem taskCreate_shaped (hs : WF s) :
    Shaped (s.taskCreate now corrId req).1 req .taskCreate corrId
      (s.taskCreate now corrId req).2 := by
  unfold ServerState.taskCreate
  cases hpid : requireStr req "pid" with
  | error e => exact .of_requireStr hpid
  | ok pid =>
    dsimp only
    cases hid : requireStr (extractActionData (actionOf req)) "id" with
    | error e => exact .of_requireStr hid
    | ok id =>
      have hsub : subjectOf .taskCreate req = id := by
        change (strField (extractActionData (actionOf req)) "id").getD "" = id
        exact subjectOf_id hid
      dsimp only
      cases ht : s.tasks.lookup id with
      | some t =>
        obtain ⟨p, hp⟩ := hs.promise_of_task id t ht
        dsimp only
        cases hst : t.state with
        | pending =>
          have hgrant : (s.grantLease id pid (extractTtl req) now).tasks.lookup id =
              some (acquireTask pid (extractTtl req) t) := by
            simp [ServerState.grantLease, ht]
          dsimp only
          rw [taskRecordOf_eq hgrant]
          exact .of 200 (.task trivial (Or.inl rfl) (by rw [hsub]; exact hgrant)
            (by rw [hsub]; exact grantLease_records (ServerState.records_recordOf hp))
            fun j hj => ServerState.records_preload hj)
        | fulfilled =>
          exact .of 200 (.task trivial (Or.inl rfl) (by rw [hsub]; exact ht)
            (by rw [hsub]; exact ServerState.records_recordOf hp)
            fun j hj => ServerState.records_preload hj)
        | acquired => exact .notFound 409 (by simp)
        | suspended => exact .notFound 409 (by simp)
        | halted => exact .notFound 409 (by simp)
      | none =>
        dsimp only
        split_ifs with hp hdue
        · exact .notFound 409 (by simp)
        · refine .of 200 (.task trivial (Or.inl rfl) ?_ ?_ fun j hj => by cases hj)
          · simp [hsub, ServerState.addFulfilled]
          · rw [hsub]
            exact ServerState.records_of_lookup (by simp [ServerState.addFulfilled])
        · have hnew : (s.addAcquired id (extractActionData (actionOf req)) pid (extractTtl req)
              now).promises.lookup id =
                some (pendingPromise id (extractActionData (actionOf req)) now) := by
            simp [ServerState.addAcquired_promises]
          rw [taskRecordOf_eq (ServerState.addAcquired_task s id _ pid (extractTtl req) now)]
          refine .of 201 (.task trivial (Or.inr rfl) ?_ ?_
            fun j hj => ServerState.records_preload hj)
          · rw [hsub]
            exact ServerState.addAcquired_task s id _ pid (extractTtl req) now
          · rw [hsub]
            exact ServerState.records_recordOf hnew

theorem taskAcquire_shaped (hs : WF s) :
    Shaped (s.taskAcquire now corrId req).1 req .taskAcquire corrId
      (s.taskAcquire now corrId req).2 := by
  unfold ServerState.taskAcquire
  cases hid : requireStr req "id" with
  | error e => exact .of_requireStr hid
  | ok id =>
    have hsub : subjectOf .taskAcquire req = id := subjectOf_id hid
    dsimp only
    cases ht : s.tasks.lookup id with
    | none => exact .notFound 404 (by simp)
    | some t =>
      obtain ⟨p, hp⟩ := hs.promise_of_task id t ht
      dsimp only
      split_ifs with hst
      · exact .notFound 409 (by simp)
      · generalize hpid : (strField req "pid").getD "" = pid
        generalize max (extractTtl req) 1 = ttl
        have hgrant : (s.grantLease id pid ttl now).tasks.lookup id =
            some (acquireTask pid ttl t) := by
          simp [ServerState.grantLease, ht]
        rw [taskRecordOf_eq hgrant]
        exact .of 200 (.task trivial (Or.inl rfl) (by rw [hsub]; exact hgrant)
          (by rw [hsub]; exact grantLease_records (ServerState.records_recordOf hp))
          fun j hj => ServerState.records_preload hj)

/-- The record of a fulfilment is read before the last actions, which do not rewrite it. -/
theorem taskFulfill_shaped : Shaped (s.taskFulfill now corrId req).1 req .taskFulfill corrId
    (s.taskFulfill now corrId req).2 := by
  unfold ServerState.taskFulfill
  cases hid : requireStr req "id" with
  | error e => exact .of_requireStr hid
  | ok id =>
    dsimp only
    cases ht : s.tasks.lookup id with
    | none => exact .bare 404 (by simp)
    | some t =>
      dsimp only
      have hsub : subjectOf .taskFulfill req =
          (strField (extractActionData (actionOf req)) "id").getD id := by
        change (strField (extractActionData (actionOf req)) "id").getD
          ((strField req "id").getD "") = _
        rw [subjectOf_id hid]
      generalize (strField (extractActionData (actionOf req)) "id").getD id = promiseId at hsub
      have hchain : ∀ s₁ : ServerState, s₁.taskIs id .acquired →
          s₁.Displays (((s₁.enqueueSettle id).resumeAwaiters promiseId now).notifySubscribers
            promiseId) := by
        intro s₁ hacq
        refine ServerState.Displays.of_performs (E := ∅)
          (P := fun act => act = .enqueue id ∨ act = .wake promiseId)
          (ServerState.fulfill_performs (fun h : False => h.elim) hacq (by simp)
            (Or.inl rfl) (Or.inr rfl)) ?_
        rintro act (rfl | rfl) h <;> exact h
      have hshape : ∀ s₁ : ServerState, s₁.taskIs id .acquired →
          Shaped (((s₁.enqueueSettle id).resumeAwaiters promiseId now).notifySubscribers promiseId)
            req .taskFulfill corrId
              (reply .taskFulfill corrId 200 [("promise", s₁.recordOf promiseId)]) := by
        intro s₁ hacq
        cases hp : s₁.promises.lookup promiseId with
        | some p =>
          refine .of 200 (.promise trivial (Or.inl rfl) ?_)
          rw [hsub]
          exact (hchain s₁ hacq).records (ServerState.records_recordOf hp)
        | none =>
          have hnull : s₁.recordOf promiseId = .null := by simp [ServerState.recordOf, hp]
          rw [hnull]
          refine .of 200 (.missing ?_)
          rw [hsub, ServerState.notifySubscribers_promises, ServerState.resumeAwaiters_promises,
            ServerState.enqueueSettle_promises, hp]
          rfl
      split_ifs with hst hpend
      · exact .bare 409 (by simp)
      · exact hshape _ ⟨t, ht, not_not.mp hst⟩
      · exact hshape s ⟨t, ht, not_not.mp hst⟩

theorem taskFence_shaped : Shaped (s.taskFence now corrId req).1 req .taskFence corrId
    (s.taskFence now corrId req).2 := by
  unfold ServerState.taskFence
  cases hid : requireStr req "id" with
  | error e => exact .of_requireStr hid
  | ok id =>
    dsimp only
    cases ht : s.tasks.lookup id with
    | none => exact .bare 404 (by simp)
    | some t =>
      dsimp only
      split_ifs with hlease
      · exact .bare 409 (by simp)
      · cases hinner : requireStr (fenceAction req).2 "id" with
        | error e =>
          have hfi : s.fenceInner now corrId req = (s, .error e) := by
            rw [fenceInner_eq, promiseSettle_error hinner, promiseCreate_error hinner, ite_self]
          rw [hfi]
          exact .of_requireStr hinner
        | ok a =>
          have hsub : subjectOf .taskFence req = a := subjectOf_id hinner
          have hfi : ∃ s' inner, s.fenceInner now corrId req = (s', .ok inner) ∧
              (s'.Records a ((inner.get "promise").getD .null) ∨ (fenceAction req).1 = true ∧
                s'.promises.lookup a = none ∧ (inner.get "promise").getD .null = .null) := by
            rw [fenceInner_eq]
            split_ifs with hsettle
            · obtain ⟨hn, hs', message, hr⟩ | ⟨j, hr, hj⟩ := promiseSettle_records s now corrId hinner
              · exact ⟨s, _, Prod.ext hs' hr, Or.inr ⟨hsettle, hn, rfl⟩⟩
              · exact ⟨_, _, Prod.ext rfl hr, Or.inl hj⟩
            · obtain ⟨status, j, -, hr, hj⟩ := promiseCreate_records s now corrId hinner
              exact ⟨_, _, Prod.ext rfl hr, Or.inl hj⟩
          obtain ⟨s', inner, hfi, hj⟩ := hfi
          rw [hfi]
          refine .of 200 (.fence ?_ fun j hj => ServerState.records_preload hj)
          rw [hsub]
          exact hj

theorem taskSuspend_shaped : Shaped (s.taskSuspend corrId req).1 req .taskSuspend corrId
    (s.taskSuspend corrId req).2 := by
  unfold ServerState.taskSuspend
  cases hid : requireStr req "id" with
  | error e => exact .of_requireStr hid
  | ok id =>
    dsimp only
    cases ht : s.tasks.lookup id with
    | none => exact .bare 404 (by simp)
    | some t =>
      dsimp only
      split_ifs with hst hres hany
      · exact .bare 409 (by simp)
      · exact .of 300 (.redirect fun j hj => ServerState.records_preload hj)
      · exact .of 300 (.redirect fun j hj => ServerState.records_preload hj)
      · exact .of 200 (.nothing trivial)

theorem taskRelease_shaped : Shaped (s.taskRelease now corrId req).1 req .taskRelease corrId
    (s.taskRelease now corrId req).2 := by
  unfold ServerState.taskRelease
  cases hid : requireStr req "id" with
  | error e => exact .of_requireStr hid
  | ok id =>
    dsimp only
    cases ht : s.tasks.lookup id with
    | none => exact .bare 404 (by simp)
    | some t =>
      dsimp only
      split_ifs
      · exact .bare 409 (by simp)
      · exact .of 200 (.nothing trivial)

theorem heartbeatAll_error {s' : ServerState} {pid : String} {refs : List Json} {e : Error}
    (h : s.heartbeatAll now pid refs = (s', .error e)) : ∃ message, e = .serverError 400 message := by
  induction refs generalizing s with
  | nil => cases h
  | cons ref refs ih =>
    unfold ServerState.heartbeatAll at h
    cases hid : requireStr ref "id" with
    | error e' =>
      simp only [hid] at h
      obtain ⟨-, h⟩ := Prod.mk.inj h
      obtain rfl := Except.error.inj h
      exact requireStr_error hid
    | ok id =>
      simp only [hid] at h
      exact ih h

theorem taskHeartbeat_shaped : Shaped (s.taskHeartbeat now corrId req).1 req .taskHeartbeat corrId
    (s.taskHeartbeat now corrId req).2 := by
  unfold ServerState.taskHeartbeat
  cases hpid : requireStr req "pid" with
  | error e => exact .of_requireStr hpid
  | ok pid =>
    dsimp only
    cases hall : s.heartbeatAll now pid (((req.get "tasks").bind Json.asArray).getD []) with
    | mk s' r =>
      cases r with
      | error e =>
        obtain ⟨message, rfl⟩ := heartbeatAll_error hall
        exact Or.inl ⟨message, rfl⟩
      | ok u => exact .of 200 (.nothing trivial)

theorem scheduleCreate_shaped : Shaped (s.scheduleCreate now corrId req).1 req .scheduleCreate corrId
    (s.scheduleCreate now corrId req).2 := by
  unfold ServerState.scheduleCreate
  cases hid : requireStr req "id" with
  | error e => exact .of_requireStr hid
  | ok id =>
    have hsub : subjectOf .scheduleCreate req = id := subjectOf_id hid
    dsimp only
    split_ifs
    · exact .notFound 400 (by simp)
    · cases hl : s.schedules.lookup id with
      | some stub =>
        exact .of 200 (.schedule trivial (Or.inl rfl) (by rw [hsub]; exact hl))
      | none =>
        dsimp only
        cases hcron : requireStr req "cron" with
        | error e => exact .of_requireStr hcron
        | ok cron =>
          dsimp only
          cases hpr : requireStr req "promiseId" with
          | error e => exact .of_requireStr hpr
          | ok promiseId =>
            exact .of 201 (.schedule trivial (Or.inr rfl) (by rw [hsub]; simp))

theorem scheduleGet_shaped : Shaped (s.scheduleGet corrId req).1 req .scheduleGet corrId
    (s.scheduleGet corrId req).2 := by
  unfold ServerState.scheduleGet
  cases hid : requireStr req "id" with
  | error e => exact .of_requireStr hid
  | ok id =>
    have hsub : subjectOf .scheduleGet req = id := subjectOf_id hid
    dsimp only
    cases hl : s.schedules.lookup id with
    | some stub =>
      exact .of 200 (.schedule trivial (Or.inl rfl) (by rw [hsub]; exact hl))
    | none => exact .notFound 404 (by simp)

theorem scheduleDelete_shaped : Shaped (s.scheduleDelete corrId req).1 req .scheduleDelete corrId
    (s.scheduleDelete corrId req).2 := by
  unfold ServerState.scheduleDelete
  cases hid : requireStr req "id" with
  | error e => exact .of_requireStr hid
  | ok id =>
    dsimp only
    cases hl : s.schedules.lookup id with
    | some stub => exact .of 200 (.nothing trivial)
    | none => exact .notFound 404 (by simp)

/-- Every reply has the shape of its kind. -/
theorem dispatch_shaped (hs : WF s) (kind : ReqKind) :
    Shaped (s.dispatch now corrId req kind).1 req kind corrId
      (s.dispatch now corrId req kind).2 := by
  cases kind with
  | promiseGet => exact promiseGet_shaped
  | promiseCreate => exact promiseCreate_shaped
  | promiseSettle => exact promiseSettle_shaped
  | promiseRegisterListener => exact promiseRegisterListener_shaped
  | taskCreate => exact taskCreate_shaped hs
  | taskAcquire => exact taskAcquire_shaped hs
  | taskRelease => exact taskRelease_shaped
  | taskFulfill => exact taskFulfill_shaped
  | taskFence => exact taskFence_shaped
  | taskSuspend => exact taskSuspend_shaped
  | taskHeartbeat => exact taskHeartbeat_shaped
  | scheduleCreate => exact scheduleCreate_shaped
  | scheduleGet => exact scheduleGet_shaped
  | scheduleDelete => exact scheduleDelete_shaped
  | scheduleSearch => exact .of 200 .schedules

end Handlers

section Apply

variable {s : ServerState} {now : Int} {req : Json}

theorem WF.prepared (hs : WF s) (now : Int) (req : Json) : WF (s.prepared now req) :=
  have h : Performs now False (fun _ => True) ⟨s, ∅⟩ ⟨s.prepared now req, ∅⟩ :=
    ServerState.prepared_performs trivial (fun _ _ => trivial) (fun _ => trivial) fun _ => trivial
  h.invariant (I := fun L => WF L.state) (fun _ _ hg _ h => h.step hg) hs

variable (now) in
theorem apply_shaped (hs : WF s) {kind : ReqKind} (hk : ReqKind.ofName (kindOf req) = some kind) :
    Shaped (s.apply now req).1 req kind ((req.get "corrId").getD .null) (s.apply now req).2 := by
  rw [ServerState.apply_eq_dispatch hk]
  exact dispatch_shaped (hs.prepared now req) kind

end Apply

end Resonate.Network
