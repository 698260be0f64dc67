import Resonate.Network.Perform

/-!
# What the server does to its queues and messages

The two timeout queues are read by their entries for one id, the outgoing messages
by the unblock messages and by the execute messages for one task. An upsert
replaces the head of what is read, or adds it. As for promises and tasks, there
is one equation for each helper and one for each action.
-/

namespace Resonate.Network
open Lib

def isUnblock (m : OutgoingMessage) : Bool :=
  (m.message.get "kind").bind Json.asStr == some "unblock"

def DurablePromise.notices (p : DurablePromise) : List OutgoingMessage :=
  p.subscribers.map fun address => ⟨address, ServerState.unblockMessage p.toRecord⟩

namespace ServerState

section Views

variable (s : ServerState) (a : String)

def pEntries : List PTimeout := s.pTimeouts.filter fun e => e.id = a

def tEntries : List TTimeout := s.tTimeouts.filter fun e => e.id = a

def unblocks : List OutgoingMessage := s.outgoing.filter isUnblock

def executes : List OutgoingMessage := s.outgoing.filter (isExecuteFor a)

def targetOf : Option String := (s.promises.lookup a).bind (·.tags.lookup "resonate:target")

def executeFor (version : Int) : Option OutgoingMessage :=
  (s.targetOf a).map fun address => ⟨address, executeMessage a version⟩

def retryTimer (now : Int) : TTimeout := ⟨a, 0, wrapAdd now pendingRetryTtl⟩

def resumeMessage : Option OutgoingMessage :=
  ((s.tasks.lookup a).filter fun t => t.state = .suspended).bind fun t =>
    s.executeFor a (t.version + 1)

def resumeTimer (now : Int) : Option TTimeout :=
  ((s.tasks.lookup a).filter fun t => t.state = .suspended).map fun _ => retryTimer a now

end Views

theorem mem_pTimeouts {s : ServerState} {e : PTimeout} :
    e ∈ s.pTimeouts ↔ e ∈ s.pEntries e.id := by
  simp [pEntries]

section Helpers

variable (s : ServerState) (id a : String)

theorem setPTimeout_pEntries (t : Int) :
    (s.setPTimeout id t).pEntries a =
      if a = id then ⟨id, t⟩ :: (s.pEntries a).tail else s.pEntries a := by
  unfold setPTimeout pEntries
  by_cases h : a = id
  · subst h
    rw [if_pos rfl]
    have hp : (fun e : PTimeout => decide (e.id = a)) = fun e => e.id == a := by
      funext e
      exact (beq_eq_decide ..).symm
    rw [hp]
    refine filter_upsert (by simp) (fun x hx => ?_) _
    rw [eq_of_beq hx]
  · rw [if_neg h]
    refine filter_upsert_of_disjoint (by simp [Ne.symm h]) (fun x hx => ?_) (fun x hx => ?_) _
    · simpa [eq_of_beq hx] using Ne.symm h
    · rw [eq_of_beq hx]

theorem setTTimeout_tEntries (k : ℕ) (t : Int) :
    (s.setTTimeout id k t).tEntries a =
      if a = id then ⟨id, k, t⟩ :: (s.tEntries a).tail else s.tEntries a := by
  unfold setTTimeout tEntries
  by_cases h : a = id
  · subst h
    rw [if_pos rfl]
    have hp : (fun e : TTimeout => decide (e.id = a)) = fun e => e.id == a := by
      funext e
      exact (beq_eq_decide ..).symm
    rw [hp]
    refine filter_upsert (by simp) (fun x hx => ?_) _
    rw [eq_of_beq hx]
  · rw [if_neg h]
    refine filter_upsert_of_disjoint (by simp [Ne.symm h]) (fun x hx => ?_) (fun x hx => ?_) _
    · simpa [eq_of_beq hx] using Ne.symm h
    · rw [eq_of_beq hx]

theorem delPTimeout_pEntries :
    (s.delPTimeout id).pEntries a = if a = id then [] else s.pEntries a := by
  unfold delPTimeout pEntries
  rw [List.filter_filter]
  split_ifs with h
  · subst h
    simp
  · refine List.filter_congr fun e _ => ?_
    by_cases he : e.id = a <;> simp [he, h]

theorem delTTimeout_tEntries :
    (s.delTTimeout id).tEntries a = if a = id then [] else s.tEntries a := by
  unfold delTTimeout tEntries
  rw [List.filter_filter]
  split_ifs with h
  · subst h
    simp
  · refine List.filter_congr fun e _ => ?_
    by_cases he : e.id = a <;> simp [he, h]

theorem isExecuteFor_executeMessage (address b : String) (v : Int) :
    isExecuteFor b ⟨address, executeMessage a v⟩ = decide (a = b) := by
  by_cases h : a = b <;>
    simp [isExecuteFor, executeMessage, List.lookup_cons, Json.asStr, h]

theorem isUnblock_executeMessage (address : String) (v : Int) :
    isUnblock ⟨address, executeMessage a v⟩ = false := by
  simp [isUnblock, executeMessage, Json.asStr]

theorem isUnblock_unblockMessage (address : String) (record : Json) :
    isUnblock ⟨address, unblockMessage record⟩ = true := by
  simp [isUnblock, unblockMessage, Json.asStr]

theorem isExecuteFor_unblockMessage (address : String) (record : Json) :
    isExecuteFor a ⟨address, unblockMessage record⟩ = false := by
  simp [isExecuteFor, unblockMessage, List.lookup_cons, Json.asStr]

theorem kind_of_isExecuteFor {m : OutgoingMessage} (h : isExecuteFor a m = true) :
    (m.message.get "kind").bind Json.asStr = some "execute" := by
  simp only [isExecuteFor, Bool.and_eq_true, beq_iff_eq] at h
  exact h.1

theorem isUnblock_of_isExecuteFor {m : OutgoingMessage} (h : isExecuteFor a m = true) :
    isUnblock m = false := by
  rw [isUnblock, kind_of_isExecuteFor a h]
  rfl

theorem isExecuteFor_ne {m : OutgoingMessage} {b : String} (h : isExecuteFor a m = true)
    (hab : b ≠ a) : isExecuteFor b m = false := by
  simp only [isExecuteFor, Bool.and_eq_true, beq_iff_eq] at h
  simp [isExecuteFor, h.2, Ne.symm hab]

theorem sendExecuteMessage_executes (address : String) (v : Int) :
    (s.sendExecuteMessage address id v).executes a =
      if a = id then ⟨address, executeMessage id v⟩ :: (s.executes a).tail else s.executes a := by
  unfold sendExecuteMessage executes
  by_cases h : a = id
  · subst h
    rw [if_pos rfl]
    exact filter_upsert (by simp [isExecuteFor_executeMessage]) (fun _ _ => rfl) _
  · rw [if_neg h]
    exact filter_upsert_of_disjoint (by simp [isExecuteFor_executeMessage, Ne.symm h])
      (fun m hm => isExecuteFor_ne id hm h) (fun _ _ => rfl) _

theorem sendExecuteMessage_unblocks (address : String) (v : Int) :
    (s.sendExecuteMessage address id v).unblocks = s.unblocks :=
  filter_upsert_of_disjoint (isUnblock_executeMessage ..)
    (fun _ hm => isUnblock_of_isExecuteFor id hm) (fun _ _ => rfl) _

theorem sendExecute_executes (v : Int) :
    (s.sendExecute id v).executes a =
      if a = id then replaceHead (s.executeFor id v) (s.executes a) else s.executes a := by
  unfold sendExecute executeFor targetOf
  cases (s.promises.lookup id).bind (·.tags.lookup "resonate:target") with
  | none => simp
  | some address => exact sendExecuteMessage_executes ..

@[simp] theorem sendExecute_pTimeouts (v : Int) :
    (s.sendExecute id v).pTimeouts = s.pTimeouts := by
  unfold sendExecute
  split <;> rfl

@[simp] theorem sendExecute_tTimeouts (v : Int) :
    (s.sendExecute id v).tTimeouts = s.tTimeouts := by
  unfold sendExecute
  split <;> rfl

theorem sendExecute_tEntries (v : Int) : (s.sendExecute id v).tEntries a = s.tEntries a := by
  rw [tEntries, sendExecute_tTimeouts, tEntries]

theorem sendExecute_unblocks (v : Int) : (s.sendExecute id v).unblocks = s.unblocks := by
  unfold sendExecute
  split
  · exact sendExecuteMessage_unblocks ..
  · rfl

end Helpers

section Chain

variable (s : ServerState) (id a : String) (now : Int)

@[simp] theorem enqueueSettle_pTimeouts : (s.enqueueSettle id).pTimeouts = s.pTimeouts := by
  unfold enqueueSettle
  split
  · split_ifs <;> rfl
  · dsimp only
    split_ifs <;> rfl

@[simp] theorem enqueueSettle_outgoing : (s.enqueueSettle id).outgoing = s.outgoing := by
  unfold enqueueSettle
  split
  · split_ifs <;> rfl
  · dsimp only
    split_ifs <;> rfl

theorem enqueueSettle_tEntries :
    (s.enqueueSettle id).tEntries a = if a = id ∧ s.withdraws id then [] else s.tEntries a := by
  unfold enqueueSettle withdraws
  cases ht : s.tasks.lookup id with
  | none =>
    dsimp only
    split_ifs <;> simp_all [tEntries]
  | some t =>
    dsimp only
    split_ifs with hf h h
    · simp [hf] at h
    · rfl
    · rw [h.1]
      exact (delTTimeout_tEntries _ id id).trans (if_pos rfl)
    · have ha : a ≠ id := fun ha => h ⟨ha, by simpa using hf⟩
      exact (delTTimeout_tEntries _ id a).trans (if_neg ha)

@[simp] theorem resumeAwaiter_pTimeouts : (resumeAwaiter id now s a).pTimeouts = s.pTimeouts := by
  unfold resumeAwaiter
  split
  · rfl
  · split
    · exact sendExecute_pTimeouts ..
    · rfl
    · rfl

@[simp] theorem resumeAwaiter_unblocks : (resumeAwaiter id now s a).unblocks = s.unblocks := by
  unfold resumeAwaiter
  split
  · rfl
  · split
    · exact sendExecute_unblocks ..
    · rfl
    · rfl

theorem resumeAwaiter_tEntries (b : String) :
    (resumeAwaiter id now s a).tEntries b =
      if b = a then replaceHead (s.resumeTimer b now) (s.tEntries b) else s.tEntries b := by
  unfold resumeAwaiter resumeTimer
  by_cases h : b = a
  · subst h
    cases ht : s.tasks.lookup b with
    | none => simp
    | some t =>
      cases hs : t.state with
      | suspended =>
        simp only [hs, if_true, Option.filter_some, Option.map_some, replaceHead_some,
          decide_true]
        exact (sendExecute_tEntries ..).trans ((setTTimeout_tEntries _ b b 0 _).trans (if_pos rfl))
      | _ => simp [hs, tEntries, Option.filter_some]
  · rw [if_neg h]
    cases ht : s.tasks.lookup a with
    | none => rfl
    | some t =>
      obtain ⟨i, state, version, pid, ttl, resumes⟩ := t
      cases state with
      | suspended =>
        exact (sendExecute_tEntries ..).trans ((setTTimeout_tEntries _ a b 0 _).trans (if_neg h))
      | _ => rfl

theorem resumeAwaiter_executes (b : String) :
    (resumeAwaiter id now s a).executes b =
      if b = a then replaceHead (s.resumeMessage b) (s.executes b) else s.executes b := by
  unfold resumeAwaiter resumeMessage
  by_cases h : b = a
  · subst h
    cases ht : s.tasks.lookup b with
    | none => simp
    | some t =>
      cases hs : t.state with
      | suspended =>
        simp only [hs, if_true, Option.filter_some, Option.bind_some, decide_true]
        exact (sendExecute_executes _ b b _).trans (if_pos rfl)
      | _ => simp [hs, executes, Option.filter_some]
  · rw [if_neg h]
    cases ht : s.tasks.lookup a with
    | none => rfl
    | some t =>
      obtain ⟨i, state, version, pid, ttl, resumes⟩ := t
      cases state with
      | suspended =>
        exact (sendExecute_executes _ a b _).trans (if_neg h)
      | _ => rfl

theorem resumeAwaiter_resume_self :
    (resumeAwaiter id now s a).resumeTimer a now = none ∧
      (resumeAwaiter id now s a).resumeMessage a = none := by
  have ht := resumeAwaiter_tasks s id a now a
  rw [if_pos rfl] at ht
  rw [resumeTimer, resumeMessage, ht]
  cases s.tasks.lookup a with
  | none => exact ⟨rfl, rfl⟩
  | some t =>
    obtain ⟨i, state, version, pid, ttl, resumes⟩ := t
    cases state <;> exact ⟨rfl, rfl⟩

theorem resumeAwaiter_resume_ne {b : String} (h : b ≠ a) :
    (resumeAwaiter id now s a).resumeTimer b now = s.resumeTimer b now ∧
      (resumeAwaiter id now s a).resumeMessage b = s.resumeMessage b := by
  have ht := resumeAwaiter_tasks s id a now b
  rw [if_neg h] at ht
  simp only [resumeTimer, resumeMessage, executeFor, targetOf, ht, resumeAwaiter_promises, and_self]

theorem foldl_resumeAwaiter_pTimeouts (l : List String) :
    (l.foldl (resumeAwaiter id now) s).pTimeouts = s.pTimeouts := by
  induction l generalizing s with
  | nil => rfl
  | cons x xs ih => rw [List.foldl_cons, ih, resumeAwaiter_pTimeouts]

theorem foldl_resumeAwaiter_unblocks (l : List String) :
    (l.foldl (resumeAwaiter id now) s).unblocks = s.unblocks := by
  induction l generalizing s with
  | nil => rfl
  | cons x xs ih => rw [List.foldl_cons, ih, resumeAwaiter_unblocks]

theorem foldl_resumeAwaiter_tEntries (l : List String) :
    (l.foldl (resumeAwaiter id now) s).tEntries a =
      if a ∈ l then replaceHead (s.resumeTimer a now) (s.tEntries a) else s.tEntries a := by
  induction l generalizing s with
  | nil => simp
  | cons x xs ih =>
    rw [List.foldl_cons, ih, resumeAwaiter_tEntries]
    by_cases hx : a = x
    · subst hx
      simp [(resumeAwaiter_resume_self s id a now).1]
    · simp [hx, (resumeAwaiter_resume_ne s id x now hx).1]

theorem foldl_resumeAwaiter_executes (l : List String) :
    (l.foldl (resumeAwaiter id now) s).executes a =
      if a ∈ l then replaceHead (s.resumeMessage a) (s.executes a) else s.executes a := by
  induction l generalizing s with
  | nil => simp
  | cons x xs ih =>
    rw [List.foldl_cons, ih, resumeAwaiter_executes]
    by_cases hx : a = x
    · subst hx
      simp [(resumeAwaiter_resume_self s id a now).2]
    · simp [hx, (resumeAwaiter_resume_ne s id x now hx).2]

@[simp] theorem resumeAwaiters_pTimeouts : (s.resumeAwaiters id now).pTimeouts = s.pTimeouts :=
  foldl_resumeAwaiter_pTimeouts s id now _

@[simp] theorem resumeAwaiters_unblocks : (s.resumeAwaiters id now).unblocks = s.unblocks :=
  foldl_resumeAwaiter_unblocks s id now _

theorem resumeAwaiters_tEntries :
    (s.resumeAwaiters id now).tEntries a =
      if a ∈ s.awaitersOf id then replaceHead (s.resumeTimer a now) (s.tEntries a)
      else s.tEntries a :=
  foldl_resumeAwaiter_tEntries s id a now _

theorem resumeAwaiters_executes :
    (s.resumeAwaiters id now).executes a =
      if a ∈ s.awaitersOf id then replaceHead (s.resumeMessage a) (s.executes a)
      else s.executes a :=
  foldl_resumeAwaiter_executes s id a now _

def noticesOf : List OutgoingMessage := (s.promises.lookup id).elim [] DurablePromise.notices

theorem notifySubscribers_outgoing :
    (s.notifySubscribers id).outgoing = s.outgoing ++ s.noticesOf id := by
  unfold notifySubscribers noticesOf
  cases s.promises.lookup id with
  | none => simp
  | some p =>
    dsimp only
    split_ifs with h
    · simp [DurablePromise.notices, h]
    · rfl

@[simp] theorem notifySubscribers_pTimeouts :
    (s.notifySubscribers id).pTimeouts = s.pTimeouts := by
  unfold notifySubscribers
  split
  · rfl
  · split_ifs <;> rfl

@[simp] theorem notifySubscribers_tTimeouts :
    (s.notifySubscribers id).tTimeouts = s.tTimeouts := by
  unfold notifySubscribers
  split
  · rfl
  · split_ifs <;> rfl

theorem mem_noticesOf {m : OutgoingMessage} (h : m ∈ s.noticesOf id) :
    isUnblock m = true ∧ isExecuteFor a m = false := by
  unfold noticesOf at h
  cases hp : s.promises.lookup id with
  | none => simp [hp] at h
  | some p =>
    rw [hp] at h
    obtain ⟨address, -, rfl⟩ := List.mem_map.mp h
    exact ⟨isUnblock_unblockMessage .., isExecuteFor_unblockMessage ..⟩

theorem notifySubscribers_unblocks :
    (s.notifySubscribers id).unblocks = s.unblocks ++ s.noticesOf id := by
  have h : (s.noticesOf id).filter isUnblock = s.noticesOf id :=
    List.filter_eq_self.mpr fun m hm => (mem_noticesOf s id "" hm).1
  rw [unblocks, notifySubscribers_outgoing, List.filter_append, h, unblocks]

theorem notifySubscribers_executes : (s.notifySubscribers id).executes a = s.executes a := by
  have h : (s.noticesOf id).filter (isExecuteFor a) = [] :=
    List.filter_eq_nil_iff.mpr fun m hm => by simp [(mem_noticesOf s id a hm).2]
  rw [executes, notifySubscribers_outgoing, List.filter_append, h, List.append_nil, executes]

theorem noticesOf_resumeAwaiters : (s.resumeAwaiters id now).noticesOf id = s.noticesOf id := by
  unfold noticesOf
  rw [resumeAwaiters_promises]
  cases s.promises.lookup id with
  | none => rfl
  | some p => simp only [Option.map_some, if_true, Option.elim_some]; rfl

end Chain

section Actions

variable (now : Int) (s : ServerState)

def pEntriesAfter (a : String) : Act → List PTimeout
  | .expire id | .tickExpire id | .settle id _ _ => if a = id then [] else s.pEntries a
  | .addPending id req | .addAcquired id req _ _ =>
    if a = id ∧ ((extractTags req).lookup "resonate:target").isSome then
      ⟨id, timeoutAtOf req⟩ :: (s.pEntries a).tail
    else s.pEntries a
  | _ => s.pEntries a

def tEntriesAfter (a : String) : Act → List TTimeout
  | .enqueue id => if a = id ∧ s.withdraws id then [] else s.tEntries a
  | .wake id =>
    if a ∈ s.awaitersOf id then replaceHead (s.resumeTimer a now) (s.tEntries a) else s.tEntries a
  | .addPending id req =>
    if a = id ∧ ((extractTags req).lookup "resonate:target").isSome then
      ⟨id, 0, (delayOf (extractTags req) now).getD (wrapAdd now pendingRetryTtl)⟩ ::
        (s.tEntries a).tail
    else s.tEntries a
  | .addAcquired id _ _ ttl | .grant id _ ttl =>
    if a = id then ⟨id, 1, saturatingAdd now ttl⟩ :: (s.tEntries a).tail else s.tEntries a
  | .release id _ | .retry id _ =>
    if a = id then retryTimer id now :: (s.tEntries a).tail else s.tEntries a
  | .suspend id => if a = id then [] else s.tEntries a
  | .beat id t =>
    if a = id then ⟨id, 1, saturatingAdd now (t.ttl.getD 30000)⟩ :: (s.tEntries a).tail
    else s.tEntries a
  | _ => s.tEntries a

def unblocksAfter : Act → List OutgoingMessage
  | .clearOutgoing => []
  | .wake id => s.unblocks ++ s.noticesOf id
  | _ => s.unblocks

def executesAfter (a : String) : Act → List OutgoingMessage
  | .clearOutgoing => []
  | .wake id =>
    if a ∈ s.awaitersOf id then replaceHead (s.resumeMessage a) (s.executes a) else s.executes a
  | .addPending id req =>
    if a = id ∧ delayOf (extractTags req) now = none then
      replaceHead (((extractTags req).lookup "resonate:target").map fun address =>
        ⟨address, executeMessage id 0⟩) (s.executes a)
    else s.executes a
  | .release id t =>
    if a = id then replaceHead (s.executeFor id (t.version + 1)) (s.executes a) else s.executes a
  | .retry id t =>
    if a = id then replaceHead (s.executeFor id t.version) (s.executes a) else s.executes a
  | _ => s.executes a

theorem createTargetTask_pEntries (id address a : String) (tags : HashMap String) (t : Int) :
    (s.createTargetTask id address tags t now).pEntries a =
      if a = id then ⟨id, t⟩ :: (s.pEntries a).tail else s.pEntries a := by
  rw [← setPTimeout_pEntries]
  unfold createTargetTask
  dsimp only
  split <;> rfl

theorem createTargetTask_tEntries (id address a : String) (tags : HashMap String) (t : Int) :
    (s.createTargetTask id address tags t now).tEntries a =
      if a = id then
        ⟨id, 0, (delayOf tags now).getD (wrapAdd now pendingRetryTtl)⟩ :: (s.tEntries a).tail
      else s.tEntries a := by
  unfold createTargetTask
  dsimp only
  cases delayOf tags now with
  | none => exact setTTimeout_tEntries ..
  | some delay => exact setTTimeout_tEntries ..

theorem createTargetTask_unblocks (id address : String) (tags : HashMap String) (t : Int) :
    (s.createTargetTask id address tags t now).unblocks = s.unblocks := by
  unfold createTargetTask
  dsimp only
  cases delayOf tags now with
  | none => exact sendExecuteMessage_unblocks ..
  | some delay => rfl

theorem createTargetTask_executes (id address a : String) (tags : HashMap String) (t : Int) :
    (s.createTargetTask id address tags t now).executes a =
      if a = id ∧ delayOf tags now = none then ⟨address, executeMessage id 0⟩ :: (s.executes a).tail
      else s.executes a := by
  unfold createTargetTask
  dsimp only
  cases delayOf tags now with
  | none =>
    simp only [and_true]
    exact sendExecuteMessage_executes ..
  | some delay => simp [executes, setTTimeout, setPTimeout]

theorem addPending_eq (id : String) (req : Json) :
    s.addPending id req now =
      let s := { s with promises := s.promises.insert id (pendingPromise id req now) }
      match (extractTags req).lookup "resonate:target" with
      | some address =>
        s.createTargetTask id address (extractTags req) (timeoutAtOf req) now
      | none => s := rfl

theorem addPending_pEntries (id a : String) (req : Json) :
    (s.addPending id req now).pEntries a =
      if a = id ∧ ((extractTags req).lookup "resonate:target").isSome then
        ⟨id, timeoutAtOf req⟩ :: (s.pEntries a).tail
      else s.pEntries a := by
  rw [addPending_eq]
  cases (extractTags req).lookup "resonate:target" with
  | none => simp [pEntries]
  | some address =>
    simp only [Option.isSome_some, and_true]
    exact createTargetTask_pEntries ..

theorem addPending_tEntries (id a : String) (req : Json) :
    (s.addPending id req now).tEntries a =
      if a = id ∧ ((extractTags req).lookup "resonate:target").isSome then
        ⟨id, 0, (delayOf (extractTags req) now).getD (wrapAdd now pendingRetryTtl)⟩ ::
          (s.tEntries a).tail
      else s.tEntries a := by
  rw [addPending_eq]
  cases (extractTags req).lookup "resonate:target" with
  | none => simp [tEntries]
  | some address =>
    simp only [Option.isSome_some, and_true]
    exact createTargetTask_tEntries ..

theorem addPending_unblocks (id : String) (req : Json) :
    (s.addPending id req now).unblocks = s.unblocks := by
  rw [addPending_eq]
  cases (extractTags req).lookup "resonate:target" with
  | none => rfl
  | some address => exact createTargetTask_unblocks ..

theorem addPending_executes (id a : String) (req : Json) :
    (s.addPending id req now).executes a =
      if a = id ∧ delayOf (extractTags req) now = none then
        replaceHead (((extractTags req).lookup "resonate:target").map fun address =>
          ⟨address, executeMessage id 0⟩) (s.executes a)
      else s.executes a := by
  rw [addPending_eq]
  cases (extractTags req).lookup "resonate:target" with
  | none => simp [executes]
  | some address => exact createTargetTask_executes ..

theorem addAcquired_eq (id : String) (req : Json) (pid : String) (ttl : Int) :
    s.addAcquired id req pid ttl now =
      let s := { s with promises := s.promises.insert id (pendingPromise id req now) }
      let s := if ((extractTags req).lookup "resonate:target").isSome then
          s.setPTimeout id (timeoutAtOf req)
        else s
      let s := { s with tasks := s.tasks.insert id ⟨id, .acquired, 0, some pid, some ttl, []⟩ }
      s.setTTimeout id 1 (saturatingAdd now ttl) := rfl

theorem addAcquired_pEntries (id a : String) (req : Json) (pid : String) (ttl : Int) :
    (s.addAcquired id req pid ttl now).pEntries a =
      if a = id ∧ ((extractTags req).lookup "resonate:target").isSome then
        ⟨id, timeoutAtOf req⟩ :: (s.pEntries a).tail
      else s.pEntries a := by
  rw [addAcquired_eq]
  cases ((extractTags req).lookup "resonate:target").isSome with
  | false => simp [pEntries, setTTimeout]
  | true =>
    simp only [and_true]
    exact setPTimeout_pEntries ..

theorem addAcquired_tEntries (id a : String) (req : Json) (pid : String) (ttl : Int) :
    (s.addAcquired id req pid ttl now).tEntries a =
      if a = id then ⟨id, 1, saturatingAdd now ttl⟩ :: (s.tEntries a).tail else s.tEntries a := by
  rw [addAcquired_eq]
  cases ((extractTags req).lookup "resonate:target").isSome <;> exact setTTimeout_tEntries ..

theorem addAcquired_outgoing (id : String) (req : Json) (pid : String) (ttl : Int) :
    (s.addAcquired id req pid ttl now).outgoing = s.outgoing := by
  rw [addAcquired_eq]
  cases ((extractTags req).lookup "resonate:target").isSome <;> rfl

theorem registerAwaiter_queues (id awaited : String) :
    (registerAwaiter id s awaited).pTimeouts = s.pTimeouts ∧
      (registerAwaiter id s awaited).tTimeouts = s.tTimeouts ∧
      (registerAwaiter id s awaited).outgoing = s.outgoing := by
  unfold registerAwaiter
  split_ifs <;> exact ⟨rfl, rfl, rfl⟩

theorem endLease_pEntries (id a : String) (t : Task) :
    (s.endLease id t now).pEntries a = s.pEntries a := by
  rw [pEntries, endLease, sendExecute_pTimeouts]
  rfl

theorem perform_pEntries (a : String) (act : Act) :
    (s.perform now act).pEntries a = s.pEntriesAfter a act := by
  cases act with
  | expire id => exact delPTimeout_pEntries _ id a
  | tickExpire id => exact delPTimeout_pEntries _ id a
  | settle id state value => exact delPTimeout_pEntries _ id a
  | enqueue id => simp [perform, pEntriesAfter, pEntries]
  | wake id => simp [perform, pEntriesAfter, pEntries, tickNotify]
  | addPending id req => exact addPending_pEntries now s id a req
  | addAcquired id req pid ttl => exact addAcquired_pEntries now s id a req pid ttl
  | register id awaited => simp [perform, pEntriesAfter, pEntries, registerAwaiter_queues]
  | release id t => exact endLease_pEntries now s id a t
  | retry id t => simp [perform, pEntriesAfter, pEntries, rearm, setTTimeout]
  | _ => rfl

theorem perform_tEntries (a : String) (act : Act) :
    (s.perform now act).tEntries a = s.tEntriesAfter now a act := by
  cases act with
  | enqueue id => exact enqueueSettle_tEntries s id a
  | wake id =>
    rw [perform, tickNotify, tEntries, notifySubscribers_tTimeouts]
    exact resumeAwaiters_tEntries s id a now
  | addPending id req => exact addPending_tEntries now s id a req
  | addAcquired id req pid ttl => exact addAcquired_tEntries now s id a req pid ttl
  | grant id pid ttl => exact setTTimeout_tEntries _ id a 1 _
  | register id awaited => simp [perform, tEntriesAfter, tEntries, registerAwaiter_queues]
  | release id t =>
    exact (sendExecute_tEntries ..).trans (setTTimeout_tEntries _ id a 0 _)
  | retry id t => exact (sendExecute_tEntries ..).trans (setTTimeout_tEntries _ id a 0 _)
  | suspend id => exact delTTimeout_tEntries _ id a
  | beat id t => exact setTTimeout_tEntries _ id a 1 _
  | _ => rfl

theorem perform_unblocks (act : Act) : (s.perform now act).unblocks = s.unblocksAfter act := by
  cases act with
  | enqueue id => simp [perform, unblocksAfter, unblocks]
  | wake id =>
    rw [perform, tickNotify, notifySubscribers_unblocks, resumeAwaiters_unblocks,
      noticesOf_resumeAwaiters, unblocksAfter]
  | addPending id req => exact addPending_unblocks now s id req
  | addAcquired id req pid ttl => simp [perform, unblocksAfter, unblocks, addAcquired_outgoing]
  | register id awaited => simp [perform, unblocksAfter, unblocks, registerAwaiter_queues]
  | release id t => exact sendExecute_unblocks ..
  | retry id t => exact sendExecute_unblocks ..
  | _ => rfl

theorem perform_executes (a : String) (act : Act) :
    (s.perform now act).executes a = s.executesAfter now a act := by
  cases act with
  | enqueue id => simp [perform, executesAfter, executes]
  | wake id =>
    rw [perform, tickNotify, notifySubscribers_executes]
    exact resumeAwaiters_executes s id a now
  | addPending id req => exact addPending_executes now s id a req
  | addAcquired id req pid ttl => simp [perform, executesAfter, executes, addAcquired_outgoing]
  | register id awaited => simp [perform, executesAfter, executes, registerAwaiter_queues]
  | release id t => exact sendExecute_executes _ id a _
  | retry id t => exact sendExecute_executes _ id a _
  | _ => rfl

theorem length_replaceHead {α : Type} {xs : List α} (h : xs.length ≤ 1) (new : Option α) :
    (replaceHead new xs).length ≤ 1 := by
  cases new with
  | none => exact h
  | some x =>
    rw [replaceHead_some, List.length_cons, List.length_tail]
    omega

theorem perform_tEntries_length {a : String} (h : (s.tEntries a).length ≤ 1) (act : Act) :
    ((s.perform now act).tEntries a).length ≤ 1 := by
  rw [perform_tEntries]
  cases act with
  | wake id =>
    simp only [tEntriesAfter]
    split_ifs
    · exact length_replaceHead h _
    · exact h
  | enqueue id | suspend id =>
    simp only [tEntriesAfter]
    split_ifs
    · exact Nat.zero_le 1
    · exact h
  | addPending id req | addAcquired id req pid ttl | grant id pid ttl | release id t | retry id t
  | beat id t =>
    simp only [tEntriesAfter]
    split_ifs
    · exact length_replaceHead h (some _)
    · exact h
  | _ => exact h

theorem perform_executes_length {a : String} (h : (s.executes a).length ≤ 1) (act : Act) :
    ((s.perform now act).executes a).length ≤ 1 := by
  rw [perform_executes]
  cases act with
  | clearOutgoing => exact Nat.zero_le 1
  | wake id | addPending id req | release id t | retry id t =>
    simp only [executesAfter]
    split_ifs
    · exact length_replaceHead h _
    · exact h
  | _ => exact h

end Actions

end ServerState

end Resonate.Network
