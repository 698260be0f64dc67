import Resonate.Network.Guarded

/-!
# Creating a task is creating its promise and acquiring it

A `task.create` on a targeted payload leaves what a `promise.create` of that payload and
a `task.acquire` of its id, at the same time, leave: the same promises, tasks and timeout
queues. It hands out the lease whenever the acquisition does.
-/

namespace Resonate.Network
open Lib

/-- The state aside from the messages it is about to send. -/
def ServerState.quiet (s : ServerState) : ServerState := { s with outgoing := [] }

def GrantsLease (r : Reply) : Prop :=
  ¬ Refuses r ∧ ∃ v, r = .ok v ∧
    ((v.get "task").bind (·.get "state")).bind Json.asStr = some TaskState.acquired.name

def createTask (head subHead : Head) (pid : String) (ttl : Int) (payload : Json) : Json :=
  request "task.create" head
    (.obj [("pid", .str pid), ("ttl", .num ttl),
      ("action", envelope "promise.create" subHead payload)])

section Queues

variable {α : Type}

theorem upsert_upsert {p : α → Bool} {f g : α → α} {new new' : α} (hnew : p new' = true)
    (hf : f new' = new) (hp : ∀ x, p (g x) = p x) (hg : ∀ x, f (g x) = f x) (xs : List α) :
    upsert p f new (upsert p g new' xs) = upsert p f new xs := by
  induction xs with
  | nil => simp [upsert, hnew, hf]
  | cons x xs ih =>
    by_cases hx : p x = true
    · simp [upsert, hx, hp, hg]
    · simp [upsert, hx, ih]

end Queues

namespace ServerState

variable {s : ServerState} {now : Int} {id : String}

theorem modify_insert (m : HashMap Task) (t : Task) (f : Task → Task) :
    HashMap.modify (m.insert id t) id f = m.insert id (f t) := by
  simp [HashMap.modify, AList.insert_insert]

theorem grantLease_addPending {req : Json} {pid : String} {ttl : Int}
    (htarget : ((extractTags req).lookup "resonate:target").isSome) :
    ((s.addPending id req now).quiet.grantLease id pid ttl now).quiet =
      (s.addAcquired id req pid ttl now).quiet := by
  obtain ⟨address, haddress⟩ := Option.isSome_iff_exists.mp htarget
  have hqueue : ∀ (typ : ℕ) (time : Int) (xs : List TTimeout),
      upsert (fun e => e.id == id) (fun e => { e with typ := 1, timeout := saturatingAdd now ttl })
        ⟨id, 1, saturatingAdd now ttl⟩
        (upsert (fun e => e.id == id) (fun e => { e with typ := typ, timeout := time })
          ⟨id, typ, time⟩ xs) =
      upsert (fun e => e.id == id) (fun e => { e with typ := 1, timeout := saturatingAdd now ttl })
        ⟨id, 1, saturatingAdd now ttl⟩ xs := by
    intro typ time xs
    apply upsert_upsert
    · exact beq_self_eq_true id
    · rfl
    · exact fun _ => rfl
    · exact fun _ => rfl
  simp only [addPending, addAcquired, pendingPromise, haddress, createTargetTask]
  cases delayOf (extractTags req) now with
  | some delay =>
    simp only [quiet, grantLease, setTTimeout, setPTimeout, modify_insert, hqueue]
    rfl
  | none =>
    simp only [quiet, grantLease, setTTimeout, setPTimeout, sendExecuteMessage, modify_insert,
      hqueue]
    rfl

theorem settled_addExpired {req : Json} (ht : s.tasks.lookup id = none)
    (htarget : ((extractTags req).lookup "resonate:target").isSome) :
    (s.addExpired id req).settled id now = s.addFulfilled id req := by
  have henqueue : (s.addExpired id req).enqueueSettle id = s.addFulfilled id req := by
    simp [enqueueSettle, addExpired, addFulfilled, ht, expiredPromise, htarget]
  have hresume : (s.addFulfilled id req).resumeAwaiters id now = s.addFulfilled id req := by
    simp [resumeAwaiters, awaitersOf, addFulfilled, expiredPromise, HashMap.modify,
      AList.insert_insert]
  have hnotify : (s.addFulfilled id req).notifySubscribers id = s.addFulfilled id req := by
    simp [notifySubscribers, addFulfilled, expiredPromise]
  rw [settled, henqueue, hresume, hnotify]

end ServerState

section Requests

variable {s : ServerState} {now : Int} {id pid : String} {ttl version : Int}
variable {head subHead acquireHead : Head} {fields : List (String × Json)}

theorem kindOf_createTask (payload : Json) :
    ReqKind.ofName (kindOf (createTask head subHead pid ttl payload)) = some .taskCreate := by
  rw [createTask, kindOf_request]
  rfl

theorem action_createTask (payload : Json) :
    extractActionData (actionOf (createTask head subHead pid ttl payload)) = payload := by
  rw [createTask, actionOf, get_request (by decide) (by decide)]
  rfl

theorem pid_createTask (payload : Json) :
    strField (createTask head subHead pid ttl payload) "pid" = some pid := by
  rw [createTask, strField, get_request (by decide) (by decide)]
  rfl

theorem ttl_createTask (payload : Json) (httl : 1 ≤ ttl) :
    extractTtl (createTask head subHead pid ttl payload) =
      max (extractTtl (request "task.acquire" acquireHead (taskAcquireData id version pid ttl))) 1 := by
  have hcreate : (createTask head subHead pid ttl payload).get "ttl" = some (.num ttl) := by
    rw [createTask, get_request (by decide) (by decide)]
    rfl
  have hacquire : (request "task.acquire" acquireHead (taskAcquireData id version pid ttl)).get "ttl" =
      some (.num ttl) := by
    rw [taskAcquireData, get_request (by decide) (by decide)]
    rfl
  rw [extractTtl, extractTtl, hcreate, hacquire]
  have hmax : (1 : Int) ≤ Json.i64Max := by decide
  rw [Option.bind_some, Json.asI64, Json.asU64]
  by_cases hi : Json.i64Min ≤ ttl ∧ ttl ≤ Json.i64Max
  · rw [if_pos hi]
    exact (max_eq_left httl).symm
  · rw [if_neg hi]
    by_cases hu : 0 ≤ ttl ∧ ttl < 2 ^ 64
    · rw [if_pos hu]
      exact (max_eq_left (le_min httl hmax)).symm
    · rw [if_neg hu]
      rfl

theorem id_acquireTask :
    strField (request "task.acquire" head (taskAcquireData id version pid ttl)) "id" = some id := by
  rw [taskAcquireData, strField, get_request (by decide) (by decide)]
  rfl

theorem pid_acquireTask :
    strField (request "task.acquire" head (taskAcquireData id version pid ttl)) "pid" = some pid := by
  rw [taskAcquireData, strField, get_request (by decide) (by decide)]
  rfl

theorem kindOf_acquireTask :
    ReqKind.ofName (kindOf (request "task.acquire" head (taskAcquireData id version pid ttl))) =
      some .taskAcquire := by
  rw [taskAcquireData, kindOf_request]
  rfl

theorem prepared_of_named {req : Json} (h : namedPromises (ReqKind.ofName (kindOf req)) req = [id]) :
    s.prepared now req = s.quiet.tryAutoTimeout now id := by
  rw [ServerState.prepared, h]
  rfl

end Requests

section Handlers

variable {s : ServerState} {now : Int} {id pid : String} {ttl : Int}
variable {c c' c'' create bare acquire : Json}

theorem grantsLease_reply {kind : ReqKind} {status : Int} {t : Task} {fields : List (String × Json)}
    (hs : 0 ≤ status ∧ status < 400) :
    GrantsLease (reply kind c status (("task", t.toRecord) :: fields)) ↔ t.state = .acquired := by
  have hrefuses : ¬ Refuses (reply kind c status (("task", t.toRecord) :: fields)) := fun h => by
    have := (refuses_reply (by omega)).mp h
    omega
  have hstate : ((Json.obj ([("kind", Json.str kind.name), ("corrId", c), ("status", .num status)] ++
      ("task", t.toRecord) :: fields)).get "task").bind (·.get "state") =
        some (.str t.state.name) := rfl
  constructor
  · rintro ⟨-, v, hv, hst⟩
    obtain rfl := Except.ok.inj hv
    rw [hstate] at hst
    have hname : t.state.name = TaskState.acquired.name := Option.some.inj hst
    have := congrArg TaskState.ofName hname
    simpa using this
  · intro hst
    refine ⟨hrefuses, _, rfl, ?_⟩
    rw [hstate, hst]
    rfl

theorem not_grantsLease_error {e : Error} : ¬ GrantsLease (.error e) := fun h => h.1 trivial

theorem not_grantsLease_refused {kind : ReqKind} {status : Int} {fields : List (String × Json)}
    (hs : 400 ≤ status ∧ status < 2 ^ 64) : ¬ GrantsLease (reply kind c status fields) :=
  fun h => h.1 ((refuses_reply (by omega)).mpr hs.1)

structure Steps (id pid : String) (ttl : Int) (create bare acquire : Json) : Prop where
  pid_ne : pid ≠ ""
  create_pid : strField create "pid" = some pid
  create_id : strField (extractActionData (actionOf create)) "id" = some id
  create_ttl : extractTtl create = ttl
  bare_id : strField bare "id" = some id
  fields : ∀ key, key ≠ "kind" → key ≠ "corrId" →
    bare.get key = (extractActionData (actionOf create)).get key
  target : ((extractTags (extractActionData (actionOf create))).lookup "resonate:target").isSome
  acquire_id : strField acquire "id" = some id
  acquire_pid : strField acquire "pid" = some pid
  acquire_ttl : max (extractTtl acquire) 1 = ttl

theorem requireStr_of_field {r : Json} {field a : String} (h : strField r field = some a)
    (ha : a ≠ "") : requireStr r field = .ok a := by
  simp [requireStr, h, ha]

theorem requireStr_empty {r : Json} {field : String} (h : strField r field = some "") :
    ∃ e, requireStr r field = .error e := by
  simp [requireStr, h]

theorem taskAcquire_pending (s : ServerState) (now : Int) (c : Json)
    (h : Steps id pid ttl create bare acquire) (hid : id ≠ "") {t : Task}
    (ht : s.tasks.lookup id = some t) (hst : t.state = .pending) :
    (s.taskAcquire now c acquire).1 = s.grantLease id pid ttl now ∧
      GrantsLease (s.taskAcquire now c acquire).2 := by
  have hlookup : (s.grantLease id pid ttl now).tasks.lookup id = some (acquireTask pid ttl t) := by
    simp [ServerState.grantLease, ServerState.setTTimeout, ht]
  simp only [ServerState.taskAcquire, requireStr_of_field h.acquire_id hid, ht, hst, h.acquire_pid,
    h.acquire_ttl, Option.getD_some, ne_eq, not_true_eq_false, if_false, ServerState.taskRecordOf,
    hlookup]
  exact ⟨trivial, (grantsLease_reply (by decide)).mpr rfl⟩

theorem taskAcquire_held (s : ServerState) (now : Int) (c : Json)
    (h : Steps id pid ttl create bare acquire) (hid : id ≠ "") {t : Task}
    (ht : s.tasks.lookup id = some t) (hst : t.state ≠ .pending) :
    (s.taskAcquire now c acquire).1 = s ∧ ¬ GrantsLease (s.taskAcquire now c acquire).2 := by
  simp only [ServerState.taskAcquire, requireStr_of_field h.acquire_id hid, ht, if_pos hst]
  exact ⟨trivial, not_grantsLease_refused (by decide)⟩

theorem taskAcquire_missing (s : ServerState) (now : Int) (c : Json)
    (h : Steps id pid ttl create bare acquire) (hid : id ≠ "")
    (ht : s.tasks.lookup id = none) :
    (s.taskAcquire now c acquire).1 = s ∧ ¬ GrantsLease (s.taskAcquire now c acquire).2 := by
  simp only [ServerState.taskAcquire, requireStr_of_field h.acquire_id hid, ht]
  exact ⟨trivial, not_grantsLease_refused (by decide)⟩

theorem isDue_promiseCreate (hfield : strField bare "id" = some id) (hdue : s.isDue now id = false) :
    (s.promiseCreate now c bare).1.isDue now id = false := by
  have hadded : ∀ (p : DurablePromise) (t : ServerState), t.promises.lookup id = some p →
      ¬ (p.state = .pending ∧ p.timeoutAt ≤ now) → t.isDue now id = false := by
    intro p t hp hnot
    refine Bool.eq_false_iff.mpr fun hd => ?_
    obtain ⟨q, hq, hst, htime⟩ := ServerState.isDue_iff.mp hd
    obtain rfl := Option.some.inj (hp.symm.trans hq)
    exact hnot ⟨hst, htime⟩
  by_cases hid : id = ""
  · subst hid
    obtain ⟨e, he⟩ := requireStr_empty hfield
    simpa only [ServerState.promiseCreate, he] using hdue
  simp only [ServerState.promiseCreate, requireStr_of_field hfield hid]
  cases hp : s.promises.lookup id with
  | some p => exact hdue
  | none =>
    dsimp only
    split_ifs with htime
    · rw [ServerState.isDue_settled]
      apply hadded (expiredPromise id bare)
      · simp [ServerState.addExpired]
      · exact fun h => ServerState.timeoutState_ne_pending _ h.1
    · apply hadded (pendingPromise id bare now)
      · rw [ServerState.addPending_promises]
        simp
      · exact fun h => htime h.2

theorem create_agrees_of_promise (h : Steps id pid ttl create bare acquire) (hid : id ≠ "")
    {p : DurablePromise} (hp : s.promises.lookup id = some p) :
    (s.taskCreate now c create).1.quiet = (s.quiet.taskAcquire now c'' acquire).1.quiet ∧
      (GrantsLease (s.taskCreate now c create).2 ↔
        GrantsLease (s.quiet.taskAcquire now c'' acquire).2) := by
  have hpid := requireStr_of_field h.create_pid h.pid_ne
  have hpayload := requireStr_of_field h.create_id hid
  cases ht : s.tasks.lookup id with
  | none =>
    obtain ⟨hstate, hgrant⟩ := taskAcquire_missing s.quiet now c'' h hid ht
    have hcreate : s.taskCreate now c create =
        (s, reply .taskCreate c 409 [("error", .str "Already exists")]) := by
      simp [ServerState.taskCreate, hpid, hpayload, ht, hp]
    rw [hcreate, hstate]
    exact ⟨rfl, iff_of_false (not_grantsLease_refused (by decide)) hgrant⟩
  | some t =>
    by_cases hst : t.state = .pending
    · obtain ⟨hstate, hgrant⟩ := taskAcquire_pending s.quiet now c'' h hid ht hst
      have hlookup : (s.grantLease id pid ttl now).tasks.lookup id = some (acquireTask pid ttl t) := by
        simp [ServerState.grantLease, ServerState.setTTimeout, ht]
      have hcreate : ∃ fields, s.taskCreate now c create =
          (s.grantLease id pid ttl now,
            reply .taskCreate c 200 (("task", (acquireTask pid ttl t).toRecord) :: fields)) := by
        simp only [ServerState.taskCreate, hpid, hpayload, ht, hst, h.create_ttl,
          ServerState.taskRecordOf, hlookup]
        exact ⟨_, rfl⟩
      obtain ⟨fields, hcreate⟩ := hcreate
      rw [hcreate, hstate]
      exact ⟨rfl, iff_of_true ((grantsLease_reply (by decide)).mpr rfl) hgrant⟩
    · obtain ⟨hstate, hgrant⟩ := taskAcquire_held s.quiet now c'' h hid ht hst
      have hcreate : (s.taskCreate now c create).1 = s ∧
          ¬ GrantsLease (s.taskCreate now c create).2 := by
        simp only [ServerState.taskCreate, hpid, hpayload, ht]
        cases hcase : t.state with
        | pending => exact absurd hcase hst
        | fulfilled =>
          refine ⟨rfl, fun hg => ?_⟩
          have hacq := (grantsLease_reply (by decide)).mp hg
          rw [hcase] at hacq
          cases hacq
        | acquired | suspended | halted => exact ⟨rfl, not_grantsLease_refused (by decide)⟩
      rw [hcreate.1, hstate]
      exact ⟨rfl, iff_of_false hcreate.2 hgrant⟩

theorem create_agrees_of_new (h : Steps id pid ttl create bare acquire) (hid : id ≠ "")
    (hp : s.promises.lookup id = none) (ht : s.tasks.lookup id = none) :
    (s.taskCreate now c create).1.quiet =
        ((s.promiseCreate now c' bare).1.quiet.taskAcquire now c'' acquire).1.quiet ∧
      (GrantsLease (s.taskCreate now c create).2 ↔
        GrantsLease ((s.promiseCreate now c' bare).1.quiet.taskAcquire now c'' acquire).2) := by
  have hpid := requireStr_of_field h.create_pid h.pid_ne
  have hpayload := requireStr_of_field h.create_id hid
  have hbare : (s.promiseCreate now c' bare).1 =
      (s.promiseCreate now c' (extractActionData (actionOf create))).1 :=
    (promiseCreate_congr h.fields).1
  rw [hbare]
  have htarget := h.target
  by_cases htime : timeoutAtOf (extractActionData (actionOf create)) ≤ now
  · have hcreated : (s.promiseCreate now c' (extractActionData (actionOf create))).1 =
        s.addFulfilled id (extractActionData (actionOf create)) := by
      simp only [ServerState.promiseCreate, hpayload, hp, if_pos htime]
      exact ServerState.settled_addExpired ht htarget
    have htask : (s.addFulfilled id (extractActionData (actionOf create))).quiet.tasks.lookup id =
        some (ServerState.fulfilledTask id) := by
      simp [ServerState.quiet, ServerState.addFulfilled]
    obtain ⟨hstate, hgrant⟩ := taskAcquire_held _ now c'' h hid htask
      (by simp [ServerState.fulfilledTask])
    have hcreate : ∃ fields, s.taskCreate now c create =
        (s.addFulfilled id (extractActionData (actionOf create)),
          reply .taskCreate c 200 (("task", (ServerState.fulfilledTask id).toRecord) :: fields)) := by
      simp only [ServerState.taskCreate, hpid, hpayload, ht, hp, Option.isSome_none, if_pos htime]
      exact ⟨_, rfl⟩
    obtain ⟨fields, hcreate⟩ := hcreate
    rw [hcreated, hcreate, hstate]
    refine ⟨rfl, iff_of_false (fun hg => ?_) hgrant⟩
    have hacq := (grantsLease_reply (by decide)).mp hg
    cases hacq
  · have hcreated : (s.promiseCreate now c' (extractActionData (actionOf create))).1 =
        s.addPending id (extractActionData (actionOf create)) now := by
      simp only [ServerState.promiseCreate, hpayload, hp, if_neg htime]
    have htask : (s.addPending id (extractActionData (actionOf create)) now).quiet.tasks.lookup id =
        some ⟨id, .pending, 0, none, none, []⟩ := by
      rw [ServerState.quiet, ServerState.addPending_tasks]
      simp [htarget]
    obtain ⟨hstate, hgrant⟩ := taskAcquire_pending _ now c'' h hid htask rfl
    have hacquired := s.addAcquired_task id (extractActionData (actionOf create)) pid ttl now
    have hcreate : ∃ fields, s.taskCreate now c create =
        (s.addAcquired id (extractActionData (actionOf create)) pid ttl now,
          reply .taskCreate c 201
            (("task", (⟨id, .acquired, 0, some pid, some ttl, []⟩ : Task).toRecord) :: fields)) := by
      simp only [ServerState.taskCreate, hpid, hpayload, ht, hp, Option.isSome_none, if_neg htime,
        h.create_ttl, ServerState.taskRecordOf, hacquired]
      exact ⟨_, rfl⟩
    obtain ⟨fields, hcreate⟩ := hcreate
    rw [hcreated, hcreate, hstate, ServerState.grantLease_addPending htarget]
    exact ⟨rfl, iff_of_true ((grantsLease_reply (by decide)).mpr rfl) hgrant⟩

/-- The handlers agree on a state in which the promise is not due. -/
theorem handlers_agree (now : Int) (c c' c'' : Json) (hs : WF s)
    (h : Steps id pid ttl create bare acquire) :
    (s.taskCreate now c create).1.quiet =
        ((s.promiseCreate now c' bare).1.quiet.taskAcquire now c'' acquire).1.quiet ∧
      (GrantsLease (s.taskCreate now c create).2 ↔
        GrantsLease ((s.promiseCreate now c' bare).1.quiet.taskAcquire now c'' acquire).2) := by
  by_cases hid : id = ""
  · subst hid
    obtain ⟨e, he⟩ := requireStr_empty h.create_id
    obtain ⟨e', he'⟩ := requireStr_empty h.bare_id
    obtain ⟨e'', he''⟩ := requireStr_empty h.acquire_id
    simp only [ServerState.taskCreate, ServerState.promiseCreate, ServerState.taskAcquire, he, he',
      he'', requireStr_of_field h.create_pid h.pid_ne]
    exact ⟨rfl, iff_of_false not_grantsLease_error not_grantsLease_error⟩
  · cases hp : s.promises.lookup id with
    | some p =>
      have hkept : (s.promiseCreate now c' bare).1 = s := by
        simp only [ServerState.promiseCreate, requireStr_of_field h.bare_id hid, hp]
      rw [hkept]
      exact create_agrees_of_promise h hid hp
    | none =>
      have ht : s.tasks.lookup id = none := by
        cases ht : s.tasks.lookup id with
        | none => rfl
        | some t =>
          obtain ⟨p, hp'⟩ := hs.promise_of_task id t ht
          rw [hp] at hp'
          cases hp'
      exact create_agrees_of_new h hid hp ht

end Handlers

/-- One request leaves what the two leave, and grants the lease whenever the second does. -/
structure AgreesWithSteps (s : ServerState) (now : Int) (create bare acquire : Json) : Prop where
  state : (s.apply now create).1.quiet = ((s.apply now bare).1.apply now acquire).1.quiet
  grants : GrantsLease (s.apply now create).2 ↔
    GrantsLease ((s.apply now bare).1.apply now acquire).2

/-- The three requests expire the same promise, and the second of the two finds nothing due. -/
theorem apply_agrees {s : ServerState} {now : Int} {id pid : String} {ttl : Int}
    {create bare acquire : Json} (hs : WF s)
    (hcreate : ReqKind.ofName (kindOf create) = some .taskCreate)
    (hbare : ReqKind.ofName (kindOf bare) = some .promiseCreate)
    (hacquire : ReqKind.ofName (kindOf acquire) = some .taskAcquire)
    (h : Steps id pid ttl create bare acquire) : AgreesWithSteps s now create bare acquire := by
  have hexpire : s.prepared now create = s.quiet.tryAutoTimeout now id := by
    apply prepared_of_named
    rw [hcreate, namedPromises, h.create_id]
    rfl
  have hbareExpire : s.prepared now bare = s.quiet.tryAutoTimeout now id := by
    apply prepared_of_named
    rw [hbare, namedPromises, h.bare_id]
    rfl
  have hprepared : s.prepared now create = s.prepared now bare := hexpire.trans hbareExpire.symm
  have hwf : WF (s.prepared now create) := by
    have hperforms : Performs now False (fun _ => True) ⟨s, ∅⟩ ⟨s.prepared now create, ∅⟩ :=
      ServerState.prepared_performs trivial (fun _ _ => trivial) (fun _ => trivial) fun _ => trivial
    exact hperforms.invariant (I := fun L => WF L.state) (fun _ _ hg _ hI => hI.step hg) hs
  have hdue : (s.prepared now bare).isDue now id = false := by
    rw [hbareExpire, isDue_tryAutoTimeout]
    simp
  have hsecond : (s.apply now bare).1.prepared now acquire = (s.apply now bare).1.quiet := by
    have hnamed : namedPromises (ReqKind.ofName (kindOf acquire)) acquire = [id] := by
      rw [hacquire, namedPromises, h.acquire_id]
      rfl
    rw [prepared_of_named hnamed]
    apply ServerState.tryAutoTimeout_of_not_due
    rw [ServerState.apply_eq_dispatch hbare]
    exact isDue_promiseCreate h.bare_id hdue
  have hagree := handlers_agree now ((create.get "corrId").getD .null)
    ((bare.get "corrId").getD .null) ((acquire.get "corrId").getD .null) hwf h
  have happly : (s.apply now bare).1.apply now acquire =
      ((s.prepared now create).promiseCreate now ((bare.get "corrId").getD .null)
        bare).1.quiet.taskAcquire now
        ((acquire.get "corrId").getD .null) acquire := by
    rw [ServerState.apply_eq_dispatch hacquire, hsecond, ServerState.apply_eq_dispatch hbare, hprepared]
    rfl
  have hcreated : s.apply now create =
      (s.prepared now create).taskCreate now ((create.get "corrId").getD .null) create :=
    ServerState.apply_eq_dispatch hcreate
  exact ⟨by rw [hcreated, happly]; exact hagree.1, by rw [hcreated, happly]; exact hagree.2⟩

/-- In every reachable state, `task.create` on a targeted payload agrees with `promise.create`
and then `task.acquire`. -/
theorem create_agrees (ops : List Op) (now : Int) {id pid : String} {ttl version : Int}
    {head subHead head' head'' : Head} {fields : List (String × Json)}
    (hid : strField (.obj fields) "id" = some id)
    (htarget : ((extractTags (.obj fields)).lookup "resonate:target").isSome) (hpid : pid ≠ "")
    (httl : 1 ≤ ttl) :
    AgreesWithSteps (ServerState.init.run ops) now (createTask head subHead pid ttl (.obj fields))
      (request "promise.create" head' (.obj fields))
      (request "task.acquire" head'' (taskAcquireData id version pid ttl)) := by
  have hbare : ∀ key, key ≠ "kind" → key ≠ "corrId" →
      (request "promise.create" head' (.obj fields)).get key = (Json.obj fields).get key :=
    fun key hk hc => get_request hk hc
  have hsteps : Steps id pid (extractTtl (createTask head subHead pid ttl (.obj fields)))
      (createTask head subHead pid ttl (.obj fields)) (request "promise.create" head' (.obj fields))
      (request "task.acquire" head'' (taskAcquireData id version pid ttl)) := by
    constructor
    · exact hpid
    · exact pid_createTask _
    · rw [action_createTask, hid]
    · rfl
    · rw [strField, hbare "id" (by decide) (by decide), ← hid, strField]
    · rw [action_createTask]
      exact hbare
    · rw [action_createTask]
      exact htarget
    · exact id_acquireTask
    · exact pid_acquireTask
    · exact (ttl_createTask _ httl).symm
  refine apply_agrees (WF.init.run ops) (kindOf_createTask _) ?_ kindOf_acquireTask hsteps
  rw [kindOf_request]
  rfl

def targetedPayload (id : String) (timeoutAt : Int) : List (String × Json) :=
  [("id", .str id), ("timeoutAt", .num timeoutAt), ("tags", .obj [("resonate:target", .str "w2")])]

/-- A task that is already pending, and a new one past its deadline. -/
theorem create_agrees_pending :
    AgreesWithSteps (ServerState.init.run fulfilledRun) 5
      (createTask ⟨"c-1", none⟩ ⟨"c-2", none⟩ "w2" 1 (.obj (targetedPayload "a" 100)))
      (request "promise.create" ⟨"c-3", none⟩ (.obj (targetedPayload "a" 100)))
      (request "task.acquire" ⟨"c-4", none⟩ (taskAcquireData "a" 0 "w2" 1)) ∧
    AgreesWithSteps ServerState.init 5
      (createTask ⟨"c-1", none⟩ ⟨"c-2", none⟩ "w2" 1 (.obj (targetedPayload "n" 4)))
      (request "promise.create" ⟨"c-3", none⟩ (.obj (targetedPayload "n" 4)))
      (request "task.acquire" ⟨"c-4", none⟩ (taskAcquireData "n" 0 "w2" 1)) :=
  ⟨create_agrees fulfilledRun 5 rfl (by decide) (by decide) (by decide),
    create_agrees [] 5 rfl (by decide) (by decide) (by decide)⟩

end Resonate.Network
