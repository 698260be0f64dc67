import Resonate.Positions

/-!
# Structured concurrency

What a tree is blocked on travels by three routes: the todos of a context, those an
inline child hoists and those a spawned task ends with. Over all of them the todos of
an execution are the remote promises it found pending, and without todos every local
child it created is settled, as long as no function returns the suspension unless one
of its calls did.
-/

namespace Resonate
open Lib Lib.ForkJoin

/-- The request of an event succeeded, a resolved record has a value in `V` for its
position, and nothing panicked. -/
def Served (V : Position → Json → Prop) : Event → Prop
  | ⟨.create _ p _ _, a⟩ => ∃ record, a = .ok record ∧
      (record.state = .resolved → V p record.value.dataOrNull)
  | ⟨.settle .., a⟩ => ∃ record, a = .ok record
  | ⟨.panic _, _⟩ => False
  | _ => True

/-- A function returns the suspension only if a call has returned it, and a spawned
type reads the values in `V`. -/
def faithful (V : Position → Json → Prop) : Discipline where
  returns blocked r := isSuspended r = true → blocked = true
  spawns p ty := ∀ v, V p v → ∃ x, ty.ofValue v = .ok x

def pendingRemote : Event → Option String
  | ⟨.create .remote _ _ req, .ok record⟩ => if record.state = .pending then some req.id else none
  | _ => none

@[simp] theorem pendingRemote_run {p : Position} {slot : Slot} {req : PromiseCreateReq}
    {a : Except Error PromiseRecord} : pendingRemote ⟨.create .run p slot req, a⟩ = none := by
  cases a <;> rfl

@[simp] theorem pendingRemote_settle {p : Position} {id : String}
    {result : Except Error (Except String Json)} {a : Except Error PromiseRecord} :
    pendingRemote ⟨.settle p id result, a⟩ = none := rfl

def pendings (E : List Event) : List String := E.filterMap pendingRemote

def AllSettled (E : List Event) : Prop :=
  ∀ p slot req record, (⟨.create .run p slot req, .ok record⟩ : Event) ∈ E →
    record.state = .pending → ∃ result answer, (⟨.settle p req.id result, .ok answer⟩ : Event) ∈ E

/-- The suspension is settled as no child's result. -/
def NoSentinel (E : List Event) : Prop :=
  ∀ p id answer, (⟨.settle p id (.error .suspended), answer⟩ : Event) ∉ E

structure Tally (E : List Event) (todos : List String) : Prop where
  pendings : todos.Perm (pendings E)
  settled : todos = [] → AllSettled E
  unsuspended : NoSentinel E

namespace Tally

variable {E E' : List Event} {todos todos' : List String}

theorem nil : Tally [] [] := ⟨.nil, by simp [AllSettled], by simp [NoSentinel]⟩

theorem perm (h : Tally E todos) (hp : E.Perm E') : Tally E' todos := by
  refine ⟨h.pendings.trans (hp.filterMap _), fun ht p slot req record he hs => ?_, fun p id a he => ?_⟩
  · obtain ⟨result, answer, hm⟩ := h.settled ht p slot req record (hp.mem_iff.mpr he) hs
    exact ⟨result, answer, hp.mem_iff.mp hm⟩
  · exact h.unsuspended p id a (hp.mem_iff.mpr he)

theorem reorder (h : Tally E todos) (hp : todos.Perm todos') : Tally E todos' := by
  refine ⟨hp.symm.trans h.pendings, fun ht => ?_, h.unsuspended⟩
  subst ht
  exact h.settled (List.perm_nil.mp hp)

theorem append (h : Tally E todos) (h' : Tally E' todos') : Tally (E ++ E') (todos ++ todos') := by
  refine ⟨?_, fun ht p slot req record he hs => ?_, fun p id a he => ?_⟩
  · rw [Resonate.pendings, List.filterMap_append]
    exact h.pendings.append h'.pendings
  · obtain ⟨ht, ht'⟩ := List.append_eq_nil_iff.mp ht
    rcases List.mem_append.mp he with he | he
    · obtain ⟨result, answer, hm⟩ := h.settled ht p slot req record he hs
      exact ⟨result, answer, List.mem_append_left _ hm⟩
    · obtain ⟨result, answer, hm⟩ := h'.settled ht' p slot req record he hs
      exact ⟨result, answer, List.mem_append_right _ hm⟩
  · exact (List.mem_append.mp he).elim (h.unsuspended p id a) (h'.unsuspended p id a)

theorem quiet {e : Event} (he : e.1.place = none) (h : Tally E todos) : Tally (e :: E) todos := by
  refine ⟨?_, fun ht p slot req record hm hs => ?_, fun p id a hm => ?_⟩
  · have hnone : pendingRemote e = none := by
      obtain ⟨c, a⟩ := e
      cases c <;> first | rfl | cases he
    simpa [Resonate.pendings, hnone] using h.pendings
  · rcases List.mem_cons.mp hm with rfl | hm
    · cases he
    · obtain ⟨result, answer, hset⟩ := h.settled ht p slot req record hm hs
      exact ⟨result, answer, List.mem_cons_of_mem _ hset⟩
  · rcases List.mem_cons.mp hm with rfl | hm
    · cases he
    · exact h.unsuspended p id a hm

theorem users {own : List Event} (h : ∀ e ∈ own, e.1 = .user) : Tally (allEvents own []) [] := by
  induction own with
  | nil => exact nil
  | cons e own ih =>
    refine quiet ?_ (ih fun e he => h e (List.mem_cons_of_mem _ he))
    rw [h e (List.mem_cons_self ..)]
    rfl

variable {p : Position} {slot : Slot} {req : PromiseCreateReq} {record : PromiseRecord}

theorem created {kind : CallKind} (h : record.state ≠ .pending ∨ kind = .detached) :
    Tally [⟨.create kind p slot req, .ok record⟩] [] := by
  refine ⟨?_, fun _ p slot req record' he hs => ?_, fun p id a he => ?_⟩
  · rcases h with h | rfl
    · cases kind <;> simp [Resonate.pendings, pendingRemote, h]
    · simp [Resonate.pendings, pendingRemote]
  · cases List.mem_singleton.mp he
    rcases h with h | h
    · exact absurd hs h
    · cases h
  · cases List.mem_singleton.mp he

theorem remote (h : record.state = .pending) :
    Tally [⟨.create .remote p slot req, .ok record⟩] [req.id] := by
  refine ⟨by simp [Resonate.pendings, pendingRemote, h], by simp, fun p id a he => ?_⟩
  cases List.mem_singleton.mp he

theorem waiting (h : Tally E todos) (hne : todos ≠ []) (a : Except Error PromiseRecord) :
    Tally (⟨.create .run p slot req, a⟩ :: E) todos := by
  refine ⟨?_, fun ht => absurd ht hne, fun p id a he => ?_⟩
  · rw [Resonate.pendings, List.filterMap_cons, pendingRemote_run]
    exact h.pendings
  · rcases List.mem_cons.mp he with he | he
    · cases he
    · exact h.unsuspended p id a he

theorem child {own : List Event} {ext : List Kid} {result : Except Error (Except String Json)}
    {answer : PromiseRecord} (h : Tally (allEvents own ext) []) (hr : result ≠ .error .suspended)
    (a : Except Error PromiseRecord) :
    Tally (allEvents (⟨.create .run p slot req, a⟩ ::
      (own ++ [⟨.settle p req.id result, .ok answer⟩])) ext) [] := by
  refine Tally.perm ⟨?_, fun _ p' slot' req' record' he hs => ?_, fun p' id' a' he => ?_⟩
    (allEvents_settle _ _ own ext).symm
  · simp only [Resonate.pendings, List.filterMap_cons, pendingRemote_run, pendingRemote_settle]
    exact h.pendings
  · rcases List.mem_cons.mp he with he | he
    · cases he
    · rcases List.mem_cons.mp he with he | he
      · cases he
        exact ⟨result, answer, List.mem_cons_self ..⟩
      · obtain ⟨result', answer', hm⟩ := h.settled rfl p' slot' req' record' he hs
        exact ⟨result', answer', List.mem_cons_of_mem _ (List.mem_cons_of_mem _ hm)⟩
  · rcases List.mem_cons.mp he with he | he
    · cases he
      exact hr rfl
    · rcases List.mem_cons.mp he with he | he
      · cases he
      · exact h.unsuspended p' id' a' he

end Tally

section Results

theorem PromiseRecord.asResult_not_suspended {codec : Codec} {ty : Ty} {record : PromiseRecord}
    {result : Except Error Json} (h : record.asResult codec ty = some result) :
    isSuspended result = false := by
  unfold asResult at h
  split at h
  · obtain rfl := Option.some.inj h
    cases ty.ofValue record.value.dataOrNull <;> rfl
  · cases h
  · obtain rfl := Option.some.inj h
    unfold Codec.deserializeError
    cases (record.value.dataOrNull.get "message").bind Json.asStr <;> rfl

theorem ne_suspended {result : Except Error Json} {ty : Ty} (h : isSuspended result = false) :
    result.map ty.toValue ≠ .error .suspended := by
  rintro heq
  cases result with
  | ok v => cases heq
  | error e =>
    obtain rfl : e = .suspended := by simpa [Except.map] using heq
    cases h

theorem served_perm {V : Position → Json → Prop} {E E' : List Event} (h : ∀ e ∈ E, Served V e)
    (hp : E.Perm E') : ∀ e ∈ E', Served V e := fun e he => h e (hp.mem_iff.mpr he)

theorem served_append {V : Position → Json → Prop} {E E' : List Event} :
    (∀ e ∈ E ++ E', Served V e) ↔ (∀ e ∈ E, Served V e) ∧ ∀ e ∈ E', Served V e := by
  simp [or_imp, forall_and]

theorem served_cons {V : Position → Json → Prop} {e : Event} {E : List Event} :
    (∀ x ∈ e :: E, Served V x) ↔ Served V e ∧ ∀ x ∈ E, Served V x := by
  simp

end Results

section Accounts

variable {V : Position → Json → Prop} {sdk : Sdk}

def TallyMotive (V : Position → Json → Prop) : RunsMotive := fun s ks c own ext c' r =>
  (∀ e ∈ allEvents own ext, Served V e) → ∀ B : Prop, (s.blocked = true → B) →
  (∀ h ∈ s.handles, h.task < ks.length ∧
    ∀ o, (ks[h.task]?).bind Kid.result = some o → isSuspended (recv h.id o) = true → B) →
  ∃ todos hs, c'.remoteTodos = c.remoteTodos ++ todos ∧ c'.spawnedHandles = c.spawnedHandles ++ hs ∧
    ∀ ends, Ends (ks ++ ext) hs ends →
      Tally (allEvents own ext) (todos ++ ends.flatMap End.todos) ∧ (∀ o ∈ ends, o.error = none) ∧
      (isSuspended r = true → B ∨ todos ++ ends.flatMap End.todos ≠ [])

variable {kind : DurableKind} {name id : String} {c : Context} {call : Call} {ks : List Kid}
  {record : PromiseRecord} {own : List Event} {ext : List Kid} {r : Except Error Json}
  {position : Position} {slot : Slot} {req : PromiseCreateReq} {ty : Ty}

theorem CallRuns.tally {t : Except Error (List String)} (hs : ∀ e ∈ allEvents own ext, Served V e)
    (h : CallRuns (faithful V) sdk (TallyMotive V) kind name c call id ks record own ext r t) :
    ∃ todos, t = .ok todos ∧ Tally (allEvents own ext) todos ∧
      (isSuspended r = true → todos ≠ []) := by
  obtain ⟨own', rfl, h⟩ := h
  have hs' := (served_cons.mp hs).2
  cases kind with
  | function =>
    obtain ⟨⟨huser, hret⟩, rfl, rfl⟩ := h
    exact ⟨[], rfl, .quiet rfl (.users huser), fun hr => by cases hret hr⟩
  | workflow =>
    obtain ⟨c', ⟨-, hm⟩, ends, hends, rfl⟩ := h
    obtain ⟨todos, hs, htodos, hhs, hfin⟩ := hm hs' False (by simp [Scope.start])
      (by simp [Scope.start])
    simp only [Context.child, List.nil_append] at htodos hhs
    rw [hhs] at hends
    obtain ⟨htally, herr, hsus⟩ := hfin ends hends
    rw [List.findSome?_eq_none_iff.mpr herr, htodos]
    exact ⟨_, rfl, htally.quiet rfl, fun hr => (hsus hr).resolve_left not_false⟩

theorem InlineRuns.tally {X : PromiseRecord → List Event → List Kid → Except Error Json →
      Except Error (List String) → Prop}
    (hX : ∀ record own ext r t, (∀ e ∈ allEvents own ext, Served V e) → X record own ext r t →
      ∃ todos, t = .ok todos ∧ Tally (allEvents own ext) todos ∧ (isSuspended r = true → todos ≠ []))
    {todos : List String} (hs : ∀ e ∈ allEvents own ext, Served V e)
    (h : InlineRuns sdk ty position slot req X own ext todos r) :
    Tally (allEvents own ext) todos ∧ (isSuspended r = true → todos ≠ []) := by
  cases h with
  | failed e =>
    obtain ⟨record, h, -⟩ := (served_cons.mp hs).1
    cases h
  | recorded record _ h =>
    refine ⟨.created (Or.inl (PromiseRecord.not_pending_of_asResult h)), fun hr => ?_⟩
    rw [PromiseRecord.asResult_not_suspended h] at hr
    cases hr
  | broken record own ext result e hp h =>
    obtain ⟨todos, ht, -⟩ := hX _ _ _ _ _ (served_cons.mp hs).2 h
    cases ht
  | unsettled record own ext result e hp h =>
    obtain ⟨answer, ha⟩ := (served_cons.mp (served_perm hs (allEvents_settle _ _ own ext))).1
    cases ha
  | settled record own ext _ answer hp h =>
    have hs' := served_perm hs (allEvents_settle _ _ own ext)
    obtain ⟨todos, ht, htally, hsus⟩ := hX _ _ _ _ _ (served_cons.mp (served_cons.mp hs').2).2 h
    obtain rfl : [] = todos := by simpa using ht
    have hr : isSuspended r = false := by simpa using hsus
    exact ⟨htally.child (ne_suspended hr) _, fun h => by rw [hr] at h; cases h⟩
  | waiting record own ext _ todos hp hne h =>
    obtain ⟨todos', ht, htally, -⟩ := hX _ _ _ _ _ (served_cons.mp hs).2 h
    obtain rfl : todos = todos' := by simpa using ht
    exact ⟨htally.waiting hne _, fun _ => hne⟩

theorem RemoteRuns.tally {todos : List String} (hs : ∀ e ∈ own, Served V e)
    (h : RemoteRuns sdk ty position slot req own todos r) :
    Tally own todos ∧ (isSuspended r = true → todos ≠ []) := by
  cases h with
  | failed e =>
    obtain ⟨record, h, -⟩ := (served_cons.mp hs).1
    cases h
  | recorded record _ h =>
    refine ⟨.created (Or.inl (PromiseRecord.not_pending_of_asResult h)), fun hr => ?_⟩
    rw [PromiseRecord.asResult_not_suspended h] at hr
    cases hr
  | pending record hp => exact ⟨.remote hp, by simp⟩

theorem SpawnedRuns.tally {X : PromiseRecord → List Event → List Kid → Except Error Json →
      Except Error (List String) → Prop}
    (hX : ∀ record own ext r t, (∀ e ∈ allEvents own ext, Served V e) → X record own ext r t →
      ∃ todos, t = .ok todos ∧ Tally (allEvents own ext) todos ∧ (isSuspended r = true → todos ≠ []))
    (hty : ∀ v, V position v → ∃ x, ty.ofValue v = .ok x) {o : End}
    (hs : ∀ e ∈ allEvents own ext, Served V e)
    (h : SpawnedRuns sdk ty position slot req X own ext o) :
    Tally (allEvents own ext) o.todos ∧ o.error = none ∧
      ∀ id, isSuspended (recv id o) = true → o.todos ≠ [] := by
  cases h with
  | failed e =>
    obtain ⟨record, h, -⟩ := (served_cons.mp hs).1
    cases h
  | recorded record result h hd =>
    refine ⟨.created (Or.inl (PromiseRecord.not_pending_of_asResult h)), rfl, fun id hr => ?_⟩
    rw [recv, PromiseRecord.asResult_not_suspended h] at hr
    cases hr
  | undecodable record e hres h =>
    obtain ⟨record', ha, hv⟩ := (served_cons.mp hs).1
    cases ha
    obtain ⟨x, hx⟩ := hty _ (hv hres)
    rw [hx] at h
    cases h
  | broken record own ext result e hp h =>
    obtain ⟨todos, ht, -⟩ := hX _ _ _ _ _ (served_cons.mp hs).2 h
    cases ht
  | settled record own ext result answer hp hns h =>
    have hs' := served_perm hs (allEvents_settle _ _ own ext)
    obtain ⟨answer', rfl⟩ := (served_cons.mp hs').1
    obtain ⟨todos, ht, htally, hsus⟩ := hX _ _ _ _ _ (served_cons.mp (served_cons.mp hs').2).2 h
    obtain rfl : [] = todos := by simpa using ht
    refine ⟨htally.child (ne_suspended hns) _, rfl, fun id hr => ?_⟩
    rw [recv, hns] at hr
    cases hr
  | waiting record own ext result todos hp hw h =>
    obtain ⟨todos', ht, htally, hsus⟩ := hX _ _ _ _ _ (served_cons.mp hs).2 h
    obtain rfl : todos = todos' := by simpa using ht
    have hne : todos ≠ [] := hw.elim hsus id
    exact ⟨htally.waiting hne _, rfl, fun _ _ => hne⟩
  | panicked record own ext msg hp hmsg =>
    exact (hs _ (List.mem_append_left _ (List.mem_cons_of_mem _ hmsg))).elim

theorem Forked.tally {n : ℕ} {kid : Kid} {o : End} (ho : kid.result = some o)
    (hs : ∀ e ∈ kid.trace, Served V e)
    (h : Forked (faithful V) sdk (TallyMotive V) c n req kid) :
    Tally kid.trace o.todos ∧ o.error = none ∧
      ∀ id, isSuspended (recv id o) = true → o.todos ≠ [] := by
  cases h with
  | run ty kind name hid hty h =>
    obtain ⟨own, ext, htrace, h⟩ := h
    rw [htrace] at hs ⊢
    exact (h o ho).tally (fun _ _ _ _ _ => CallRuns.tally) hty hs
  | remote ty hid h =>
    obtain ⟨own, ext, htrace, h⟩ := h
    rw [htrace] at hs ⊢
    cases h o ho with
    | failed e =>
      obtain ⟨record, h, -⟩ := (served_cons.mp hs).1
      cases h
    | recorded record result hres =>
      refine ⟨.created (Or.inl (PromiseRecord.not_pending_of_asResult hres)), rfl, fun id hr => ?_⟩
      rw [recv, PromiseRecord.asResult_not_suspended hres] at hr
      cases hr
    | pending record hp => exact ⟨.remote hp, rfl, by simp [End.todos]⟩
  | detached h =>
    obtain ⟨own, ext, htrace, h⟩ := h
    rw [htrace] at hs ⊢
    cases h o ho with
    | failed e =>
      obtain ⟨record, h, -⟩ := (served_cons.mp hs).1
      cases h
    | created record => exact ⟨.created (Or.inr rfl), rfl, fun id hr => by cases hr⟩

theorem ScopedRuns.tally {s : Scope} {c' : Context}
    (h : ScopedRuns (faithful V) sdk s ks c own ext c' r) : TallyMotive V s ks c own ext c' r := by
  refine ScopedRuns.induction (motive := TallyMotive V) ?ret ?quiet ?build ?skip ?run ?await ?fork
    ?join h
  case ret =>
    intro s ks c r hr _ B hblocked _
    refine ⟨[], [], by simp, by simp, fun ends hends => ?_⟩
    cases hends
    exact ⟨.nil, by simp, fun h => Or.inl (hblocked (hr h))⟩
  case quiet =>
    intro s ks c e own ext c' r he ih hs B hB hh
    obtain ⟨todos, hs', ht, hhs, hfin⟩ := ih (served_cons.mp hs).2 B hB hh
    refine ⟨todos, hs', ht, hhs, fun ends hends => ?_⟩
    obtain ⟨htally, hrest⟩ := hfin ends hends
    refine ⟨htally.quiet ?_, hrest⟩
    obtain ⟨cmd, a⟩ := e
    cases cmd <;> first | rfl | exact he.elim
  case build => exact fun s ks c own ext c' r ih => ih
  case skip => exact fun s n ks c own ext c' r _ ih => ih
  case join =>
    intro s h o ks c own ext c' r hmem ho ih hs B hB hh
    refine ih hs B (fun hb => ?_) hh
    rcases Bool.or_eq_true _ _ |>.mp hb with hb | hb
    · exact hB hb
    · exact (hh h hmem).2 o ho hb
  case await =>
    intro s n ty req ks c own₁ todos₁ result own ext c' r _ _ hrun _ ih hs B hB hh
    rw [allEvents, List.append_assoc] at hs
    obtain ⟨hs₁, hs₂⟩ := served_append.mp hs
    obtain ⟨htally₁, hsus₁⟩ := hrun.tally hs₁
    obtain ⟨todos, hs', ht, hhs, hfin⟩ := ih hs₂ (B ∨ todos₁ ≠ [])
      (fun hb => (Bool.or_eq_true _ _ |>.mp hb).imp hB hsus₁)
      fun h hmem => ⟨(hh h hmem).1, fun o ho hr => Or.inl ((hh h hmem).2 o ho hr)⟩
    refine ⟨todos₁ ++ todos, hs', by simp [ht, Context.awaited], hhs, fun ends hends => ?_⟩
    obtain ⟨htally, herr, hsus⟩ := hfin ends hends
    rw [allEvents, List.append_assoc, List.append_assoc]
    refine ⟨htally₁.append htally, herr, fun hr => ?_⟩
    rcases hsus hr with (hb | hne) | hne
    · exact Or.inl hb
    · exact Or.inr (by simp [hne])
    · exact Or.inr fun h => hne (List.append_eq_nil_iff.mp h).2
  case run =>
    intro s n ty kind name req ks c own₁ ext₁ todos₁ result own ext c' r _ _ hrun _ ih hs B hB hh
    have hperm := allEvents_append own₁ own ext₁ ext
    obtain ⟨hs₁, hs₂⟩ := served_append.mp (served_perm hs hperm)
    obtain ⟨htally₁, hsus₁⟩ := hrun.tally (fun _ _ _ _ _ => CallRuns.tally) hs₁
    obtain ⟨todos, hs', ht, hhs, hfin⟩ := ih hs₂ (B ∨ todos₁ ≠ [])
      (fun hb => (Bool.or_eq_true _ _ |>.mp hb).imp hB hsus₁) (fun h hmem => by
        obtain ⟨hlt, hB'⟩ := hh h hmem
        refine ⟨by simp; omega, fun o ho hr => Or.inl (hB' o ?_ hr)⟩
        rwa [List.getElem?_append_left hlt] at ho)
    refine ⟨todos₁ ++ todos, hs', by simp [ht, Context.awaited], hhs, fun ends hends => ?_⟩
    rw [← List.append_assoc] at hends
    obtain ⟨htally, herr, hsus⟩ := hfin ends hends
    rw [List.append_assoc]
    refine ⟨(htally₁.append htally).perm hperm.symm, herr, fun hr => ?_⟩
    rcases hsus hr with (hb | hne) | hne
    · exact Or.inl hb
    · exact Or.inr (by simp [hne])
    · exact Or.inr fun h => hne (List.append_eq_nil_iff.mp h).2
  case fork =>
    intro s n req ks c kid own ext c' r _ hkid _ ih hs B hB hh
    have hperm := allEvents_fork own kid ext
    obtain ⟨hs₁, hs₂⟩ := served_append.mp (served_perm hs hperm)
    obtain ⟨todos, hs', ht, hhs, hfin⟩ := ih hs₂ (B ∨ ∃ o, kid.result = some o ∧ o.todos ≠ [])
      (fun hb => Or.inl (hB hb)) (fun h hmem => by
        rcases List.mem_cons.mp hmem with rfl | hmem
        · refine ⟨by simp, fun o ho hr => Or.inr ⟨o, by simpa using ho, ?_⟩⟩
          exact (hkid.tally (by simpa using ho) hs₁).2.2 _ hr
        · obtain ⟨hlt, hB'⟩ := hh h hmem
          refine ⟨by simp; omega, fun o ho hr => Or.inl (hB' o ?_ hr)⟩
          rwa [List.getElem?_append_left hlt] at ho)
    refine ⟨todos, (req.id, ks.length) :: hs', ht,
      by simp [hhs, Context.spawned, Context.claimSlot], fun ends hends => ?_⟩
    obtain ⟨o, ends', rfl, ho, hends⟩ := hends.fork
    obtain ⟨htally, herr, hsus⟩ := hfin ends' hends
    obtain ⟨htally₁, herr₁, -⟩ := hkid.tally ho hs₁
    have hall := ((htally₁.append htally).perm hperm.symm).reorder (List.perm_append_comm_assoc _ _ _)
    refine ⟨hall, by simpa [herr₁] using herr, fun hr => ?_⟩
    rcases hsus hr with (hb | ⟨o', ho', hne⟩) | hne
    · exact Or.inl hb
    · obtain rfl : o = o' := Option.some.inj (ho.symm.trans ho')
      exact Or.inr (by simp [hne])
    · refine Or.inr fun h => hne ?_
      simp_all

end Accounts

section Executions

variable {V : Position → Json → Prop} {core : Core} {taskId : String} {v : Int}
  {promise : PromiseRecord} {entry : RegistryEntry} {data : TaskData} {preload : List PromiseRecord}
  {ks ext : List Kid} {own : List Event} {d : Discipline}
  {x : Except Error (Except Error Json × List String)}

theorem Core.ExecuteRuns.tally (hkeeps : (entry.func data.args).Keeps (faithful V) [] .start)
    (h : core.ExecuteRuns taskId v promise entry data preload ks own ext x)
    (hs : ∀ e ∈ allEvents own ext, Served V e) :
    ∃ result todos, x = .ok (result, todos) ∧ Tally (allEvents own ext) todos ∧
      (isSuspended result = true → todos ≠ []) := by
  cases h with
  | function own result hk h =>
    obtain ⟨huser, hret⟩ := h.ends hkeeps
    exact ⟨result, [], rfl, .users huser, fun hr => by cases hret hr⟩
  | workflow own ext c result todos hk hr hc =>
    have hs' := (served_cons.mp hs).2
    obtain ⟨ends, hends, rfl⟩ := hc
    obtain ⟨todos, hs, htodos, hhs, hfin⟩ := (hr.scoped (c := rootContext promise data) hkeeps
      rfl).tally hs' False
      (by simp [Scope.start]) (by simp [Scope.start])
    simp only [rootContext, Context.root, List.nil_append] at htodos hhs
    rw [hhs] at hends
    obtain ⟨htally, herr, hsus⟩ := hfin ends hends
    rw [List.findSome?_eq_none_iff.mpr herr, htodos]
    exact ⟨result, _, rfl, htally.quiet rfl, fun hr => (hsus hr).resolve_left not_false⟩
  | panicked own ext msg hmsg => exact (hs _ (List.mem_append_left _ hmsg)).elim

theorem Core.ExecuteRuns.placed (hkeeps : (entry.func data.args).Keeps d [] .start)
    (h : core.ExecuteRuns taskId v promise entry data preload ks own ext x)
    (hp : NoPanic (allEvents own ext)) :
    Placed promise.id [] (fun _ => True) (allEvents own ext) := by
  cases h with
  | function own result hk h =>
    obtain ⟨huser, -⟩ := h.ends hkeeps
    exact .users huser
  | workflow own ext c result todos hk hr hc =>
    obtain ⟨ends, hends, -⟩ := hc
    obtain ⟨hs, hhs, hended⟩ := (hr.scoped (c := rootContext promise data) hkeeps rfl).handles
    simp only [rootContext, Context.root, List.nil_append] at hhs
    rw [hhs] at hends
    refine Placed.cons ?_ rfl rfl rfl
    exact ((hr.scoped (c := rootContext promise data) hkeeps rfl).placed rfl (hended ends hends)
      (noPanic_cons.mp hp).2).mono fun _ _ => trivial
  | panicked own ext msg hmsg =>
    exact absurd (hp _ (List.mem_append_left _ hmsg)) (by simp [Cmd.isPanic])

theorem Placed.pendings_nodup {root : String} {p : Position} {L : Call → Prop} {E : List Event}
    (h : Placed root p L E) : (pendings E).Nodup := by
  have hnames : ∀ (e : Event) (id : String), pendingRemote e = some id →
      ∃ q, e.1.names = some (q, id) ∧ e.1.creation = some (q.map Call.number) := by
    intro e id he
    unfold pendingRemote at he
    split at he
    · split at he
      · cases he
        exact ⟨_, rfl, rfl⟩
      · cases he
    · cases he
  obtain ⟨-, hnamed, hnodup⟩ := h
  induction E with
  | nil => exact List.nodup_nil
  | cons e E ih =>
    have htail := ih (fun e he => hnamed e (List.mem_cons_of_mem _ he))
      (hnodup.sublist ((List.sublist_cons_self e E).filterMap _))
    rw [pendings, List.filterMap_cons]
    split
    · exact htail
    · rename_i id he
      refine List.nodup_cons.mpr ⟨fun hid => ?_, htail⟩
      obtain ⟨e', he', hid'⟩ := List.mem_filterMap.mp hid
      obtain ⟨q, hq, hcr⟩ := hnames e id he
      obtain ⟨q', hq', hcr'⟩ := hnames e' id hid'
      have hsame := (hnamed e (List.mem_cons_self ..) q id hq).symm.trans
        (hnamed e' (List.mem_cons_of_mem _ he') q' id hq')
      rw [List.filterMap_cons, hcr] at hnodup
      refine (List.nodup_cons.mp hnodup).1 (List.mem_filterMap.mpr ⟨e', he', ?_⟩)
      rw [hcr', idOf_inj hsame]

/-- The request that concludes an execution with these events: it suspends on exactly what is
pending, or fulfils with the function's result once nothing is. -/
def ConcludesExactly (core : Core) (taskId : String) (v : Int) (promise : PromiseRecord)
    (E : List Event) (fin : Event) : Prop :=
  NoSentinel E ∧
    ((∃ (awaited : List String) (answer : Except Error SuspendResult),
        fin = ⟨.suspend taskId v (awaited.map fun id => ⟨id, taskId⟩), answer⟩ ∧
        awaited.Perm (pendings E) ∧ awaited.Nodup ∧ pendings E ≠ []) ∨
      ∃ result value answer,
        fin = ⟨.fulfill taskId v ⟨promise.id, (Core.recorded result).1, value⟩, answer⟩ ∧
        core.sdk.codec.encode (Core.recorded result).2 = .ok value ∧ isSuspended result = false ∧
        pendings E = [] ∧ AllSettled E)

theorem Core.Finalizes.exactly {result : Except Error Json} {todos : List String} {E : List Event}
    {fin : Event} (ht : Tally E todos) (hr : isSuspended result = true → todos ≠ [])
    (hn : (pendings E).Nodup) (h : core.Finalizes taskId v promise result todos fin) :
    ConcludesExactly core taskId v promise E fin := by
  refine ⟨ht.unsuspended, ?_⟩
  cases h with
  | fulfill value answer henc =>
    refine Or.inr ⟨result, value, answer, rfl, henc, by simpa using hr, ?_, ht.settled rfl⟩
    exact List.nil_perm.mp ht.pendings
  | suspend todos answer hne =>
    refine Or.inl ⟨todos, answer, rfl, ht.pendings, ht.pendings.nodup_iff.mpr hn, fun h => hne ?_⟩
    exact List.perm_nil.mp (h ▸ ht.pendings)

theorem noPanic_of_served {E : List Event} (h : ∀ e ∈ E, Served V e) : NoPanic E := by
  intro e he
  have hs := h e he
  obtain ⟨c, a⟩ := e
  cases c <;> first | rfl | exact hs.elim

/-- An execution whose requests succeed has a result, and what is sent for it is exact. -/
theorem Core.LastExecution.exactly {own₁ : List Event} {ext₁ : List Kid}
    (hkeeps : (entry.func data.args).Keeps (faithful V) [] .start)
    (h : core.LastExecution taskId v promise entry data ks own ext own₁ ext₁ x)
    (hs : ∀ e ∈ own ++ traces ext, Served V e) :
    ∃ result todos, x = .ok (result, todos) ∧ ∀ fin, core.Finalizes taskId v promise result todos fin →
      ConcludesExactly core taskId v promise (allEvents own₁ ext₁) fin := by
  obtain ⟨-, preload, own₀, ext₀, rfl, rfl, hx⟩ := h
  have hs₁ : ∀ e ∈ allEvents own₁ ext₁, Served V e := by
    intro e he
    refine hs e ?_
    rcases List.mem_append.mp he with he | he <;> simp [he]
  obtain ⟨result, todos, rfl, ht, hr⟩ := hx.tally hkeeps hs₁
  exact ⟨result, todos, rfl, fun fin hfin =>
    hfin.exactly ht hr (hx.placed hkeeps (noPanic_of_served hs₁)).pendings_nodup⟩

/-- In a run whose requests succeed, with functions that do not make up the suspension:
every fulfil and suspend is exact for the execution it concludes, and a handling that
returns has sent one for its last execution, if the codec encodes its result. -/
theorem structured_concurrency_exact {fuel : ℕ} (h : core.Executes promise entry data)
    (hkeeps : (entry.func data.args).Keeps (faithful V) [] .start) :
    (∀ (ls : List (Label Cmd Cmd.Answer)) (fin : Event) (n : Node Cmd Cmd.Answer End),
      fin.1.IsFinal → Steps (.mk (core.executeUntilBlocked taskId v promise fuel preload) [])
        (ls ++ [.own fin]) n → (∀ e ∈ ls.flatMap Label.event, Served V e) →
      ∃ own₁ ext ext₁ ext₂ x,
        (ls.flatMap Label.event).Perm (ls.flatMap Label.root ++ traces (ext ++ ext₂)) ∧
        core.LastExecution taskId v promise entry data [] (ls.flatMap Label.root) ext own₁ ext₁ x ∧
        ConcludesExactly core taskId v promise (allEvents own₁ ext₁) fin) ∧
    ∀ (ls : List (Label Cmd Cmd.Answer)) (n : Node Cmd Cmd.Answer End) (o : End),
      Steps (.mk (core.executeUntilBlocked taskId v promise fuel preload) []) ls n →
      n.result = some o → o ≠ .unfinished → (∀ e ∈ ls.flatMap Label.event, Served V e) →
      ∃ own own₁ ext ext₁ result todos rest,
        (ls.flatMap Label.event).Perm (ls.flatMap Label.root ++ traces ext) ∧
        ls.flatMap Label.root = own ++ rest ∧
        core.LastExecution taskId v promise entry data [] own ext own₁ ext₁ (.ok (result, todos)) ∧
        ((∃ encoded, core.sdk.codec.encode (Core.recorded result).2 = .ok encoded) →
          ∃ fin stop, rest = fin :: stop ∧
            ConcludesExactly core taskId v promise (allEvents own₁ ext₁) fin) := by
  constructor
  · intro ls fin n hf hs hserved
    obtain ⟨own₁, ext, ext₁, ext₂, result, todos, hperm, hlast, hfin⟩ := handling_finalizes h hf hs
    refine ⟨own₁, ext, ext₁, ext₂, _, hperm, hlast, ?_⟩
    obtain ⟨result', todos', heq, hex⟩ := hlast.exactly hkeeps fun e he =>
      served_perm hserved hperm e (by
        rcases List.mem_append.mp he with he | he <;> simp [he])
    cases heq
    exact hex fin hfin
  · intro ls n o hs ho hne hserved
    obtain ⟨own, own₁, ext, ext₁, x, tail, status, stop, hperm, hroot, hlast, hc, -⟩ :=
      handling_concludes h ho hne hs
    obtain ⟨result, todos, rfl, hex⟩ := hlast.exactly hkeeps fun e he =>
      served_perm hserved hperm e (by
        rw [hroot]
        rcases List.mem_append.mp he with he | he <;> simp [he])
    refine ⟨own, own₁, ext, ext₁, result, todos, _, hperm, by simpa using hroot, hlast,
      fun henc => ?_⟩
    cases hc with
    | unencoded result e herr =>
      obtain ⟨encoded, hok⟩ := henc
      rw [hok] at herr
      cases herr
    | fulfilled result value answer hv =>
      exact ⟨_, stop, rfl, hex _ (.fulfill result value answer hv)⟩
    | suspended result todos answer hne =>
      exact ⟨_, stop, rfl, hex _ (.suspend result todos _ hne)⟩

end Executions

section Witnesses

def waiter : Body := .next fun n => .await n (.promise ⟨.ok, .ok⟩ none {}) .ret

def pretender : Body :=
  .next fun n => .run n ⟨"child", .function, ⟨.ok, .ok⟩⟩ (.ok .null) none
    (.ret (.error .suspended)) .ret

def isSentinel : Event → Bool
  | ⟨.settle _ _ (.error .suspended), _⟩ => true
  | _ => false

theorem nullCodec_encodes (value : Json) : ∃ encoded, nullCodec.encode value = .ok encoded := by
  cases value <;> exact ⟨_, rfl⟩

end Witnesses

theorem waiter_suspends_exactly : ∃ ls n,
    Steps (.mk ((workflowCore waiter).executeUntilBlocked "t" 3 startedPromise 1 []) []) ls n ∧
      ∃ own own₁ ext ext₁ result todos fin stop,
        (ls.flatMap Label.event).Perm (ls.flatMap Label.root ++ traces ext) ∧
        ls.flatMap Label.root = own ++ fin :: stop ∧
        (workflowCore waiter).LastExecution "t" 3 startedPromise ⟨.workflow, fun _ => waiter⟩
          ⟨"main", .null⟩ [] own ext own₁ ext₁ (.ok (result, todos)) ∧
        ConcludesExactly (workflowCore waiter) "t" 3 startedPromise (allEvents own₁ ext₁) fin := by
  have h := Node.runAt_steps grantingReply [[], [], [], [], [], []]
    (.mk ((workflowCore waiter).executeUntilBlocked "t" 3 startedPromise 1 []) []) rfl
  have hkeeps : waiter.Keeps (faithful fun _ _ => True) [] .start :=
    ⟨by decide, by decide, fun r hr => by simp [Scope.saw, hr]⟩
  obtain ⟨own, own₁, ext, ext₁, result, todos, rest, hperm, hroot, hlast, hex⟩ :=
    (structured_concurrency_exact ⟨rfl, by decide, rfl, rfl⟩ hkeeps).2 _ _ _ h rfl (by simp)
      (List.forall_mem_cons.mpr ⟨trivial, List.forall_mem_cons.mpr ⟨trivial,
        List.forall_mem_cons.mpr ⟨trivial, List.forall_mem_cons.mpr ⟨⟨_, rfl, fun _ => trivial⟩,
          List.forall_mem_cons.mpr ⟨trivial, List.forall_mem_cons.mpr ⟨trivial,
            List.forall_mem_nil _⟩⟩⟩⟩⟩⟩)
  obtain ⟨fin, stop, rfl, hfin⟩ := hex (nullCodec_encodes _)
  exact ⟨_, _, h, own, own₁, ext, ext₁, result, todos, fin, stop, hperm, hroot, hlast, hfin⟩

/-- The child's promise is settled with the suspension, though nothing is pending. -/
theorem suspension_settled : ∃ ls n,
    Steps (.mk ((workflowCore pretender).executeUntilBlocked "t" 3 startedPromise 1 []) []) ls n ∧
      n.result = some (.returned (.ok .done)) ∧ pendings (ls.flatMap Label.event) = [] ∧
      (ls.flatMap Label.event).any isSentinel = true := by
  have h := Node.runAt_steps grantingReply [[], [], [], [], [], [], [], []]
    (.mk ((workflowCore pretender).executeUntilBlocked "t" 3 startedPromise 1 []) []) rfl
  exact ⟨_, _, h, rfl, rfl, rfl⟩

end Resonate
