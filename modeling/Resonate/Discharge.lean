import Resonate.Runs

/-!
# Every lease is discharged

What the task of a handling itself sends, in order. The execution of a function
only issues commands of the function's calls; so the commands of `Core` frame
it, and every way through them ends in an accepted fulfil, an accepted suspend
or a release. The one way around them is the decoding of the acquired record.
-/

namespace Resonate
open Lib Lib.ForkJoin

def Cmd.Between (c : Cmd) : Prop :=
  c.OfCalls ∨ (∃ id v action, c = .fulfill id v action) ∨ ∃ id v actions, c = .suspend id v actions

section Trace

variable (taskId : String) (v : Int) (t : List Event)

def FulfillAccepted : Prop :=
  ∃ action record, (⟨.fulfill taskId v action, .ok record⟩ : Event) ∈ t

def SuspendAccepted : Prop :=
  ∃ actions, (⟨.suspend taskId v actions, .ok .suspended⟩ : Event) ∈ t

def ReleaseSent : Prop := ∃ answer, (⟨.release taskId v, answer⟩ : Event) ∈ t

def Discharged : Prop :=
  FulfillAccepted taskId v t ∨ SuspendAccepted taskId v t ∨ ReleaseSent taskId v t

def HeartbeatStopped : Prop :=
  ∀ pre w post, t = pre ++ ⟨.heartbeatStart taskId w, ()⟩ :: post →
    (⟨.heartbeatStop taskId, ()⟩ : Event) ∈ post

end Trace

def isRedirect : Event → Bool
  | ⟨.suspend .., .ok (.redirect _)⟩ => true
  | _ => false

def Ended (taskId : String) (v : Int) (k : Except Error Status → Prog) (fuel : ℕ)
    (t : List Event) (q : Prog) : Prop :=
  (∀ e ∈ t, e.1.Between) ∧
    ((∃ res, q = k res ∧ (res = .ok .done → FulfillAccepted taskId v t) ∧
        (res = .ok .suspended → SuspendAccepted taskId v t)) ∨
      q = .ret .unfinished ∧ fuel ≤ t.countP isRedirect)

/-- The last commands of a handling: an accepted operation came before the
heartbeat's stop, or a release comes after it. -/
def FinishedBy (taskId : String) (v : Int) (mid last : List Event) : Prop :=
  (last = [⟨.heartbeatStop taskId, ()⟩] ∧
      (FulfillAccepted taskId v mid ∨ SuspendAccepted taskId v mid)) ∨
    ∃ answer, last = [⟨.heartbeatStop taskId, ()⟩, ⟨.release taskId v, answer⟩]

section Ended

variable {taskId : String} {v : Int} {k : Except Error Status → Prog} {fuel : ℕ}

theorem Ended.error {e : Error} : Ended taskId v k fuel [] (k (.error e)) :=
  ⟨by simp, Or.inl ⟨_, rfl, by simp, by simp⟩⟩

theorem Ended.prepend {s t : List Event} {q : Prog} {n : ℕ} (hs : ∀ e ∈ s, e.1.Between)
    (hn : n = s.countP isRedirect) (h : Ended taskId v k fuel t q) :
    Ended taskId v k (fuel + n) (s ++ t) q := by
  obtain ⟨hb, hq⟩ := h
  refine ⟨fun e he => (List.mem_append.mp he).elim (hs e) (hb e), ?_⟩
  rcases hq with ⟨res, rfl, hd, hsu⟩ | ⟨rfl, hf⟩
  · refine Or.inl ⟨res, rfl, fun h => ?_, fun h => ?_⟩
    · obtain ⟨a, r, hm⟩ := hd h
      exact ⟨a, r, List.mem_append_right s hm⟩
    · obtain ⟨a, hm⟩ := hsu h
      exact ⟨a, List.mem_append_right s hm⟩
  · refine Or.inr ⟨rfl, ?_⟩
    rw [List.countP_append]
    omega

end Ended

namespace Core

variable {core : Core} {taskId : String} {v : Int} {promise : PromiseRecord}
  {k : Except Error Status → Prog} {fuel : ℕ}

theorem fulfillTask_reaches (state : SettleState) (value : Json) :
    Reaches (Ended taskId v k fuel)
      (core.fulfillTask taskId v promise state value (done k)) := by
  unfold fulfillTask
  split
  · exact Reaches.self Ended.error
  · refine Reaches.call fun a => Reaches.self ⟨?_, Or.inl ?_⟩
    · simp [Cmd.Between]
    · cases a with
      | error e => exact ⟨_, rfl, by simp, by simp⟩
      | ok record =>
        refine ⟨_, rfl, fun _ => ⟨_, record, List.mem_cons_self ..⟩, by simp⟩

theorem execute_through {entry : RegistryEntry} {data : TaskData} {preload : List PromiseRecord}
    {k' : Except Error (Except Error Json × List String) → Prog} :
    Through Cmd.OfCalls (fun q => ∃ x, q = k' x)
      (core.execute taskId v promise entry data preload k') :=
  Through.of_does (fun ks => execute_does core taskId v promise entry data preload ks k')
    fun x => ⟨x, rfl⟩

theorem countP_isRedirect_ofCalls {t : List Event} (h : ∀ e ∈ t, e.1.OfCalls) :
    t.countP isRedirect = 0 := by
  refine List.countP_eq_zero.mpr fun e he => ?_
  obtain ⟨c, a⟩ := e
  have hc := h _ he
  cases c <;> simp [Cmd.OfCalls] at hc <;> simp [isRedirect]

theorem loop_reaches {entry : RegistryEntry} {data : TaskData} (preload : List PromiseRecord) :
    Reaches (Ended taskId v k fuel) (core.loop taskId v promise entry data k fuel preload) := by
  induction fuel generalizing preload with
  | zero => exact Reaches.self ⟨by simp, Or.inr ⟨rfl, Nat.zero_le _⟩⟩
  | succ fuel ih =>
    rw [loop]
    refine Reaches.trans execute_through ?_
    rintro t q ⟨ht, x, rfl⟩
    have hcalls : ∀ e ∈ t, e.1.Between := fun e he => Or.inl (ht e he)
    have hzero := countP_isRedirect_ofCalls ht
    have hpre : ∀ t' q', Ended taskId v k (fuel + 1) t' q' →
        Ended taskId v k (fuel + 1) (t ++ t') q' := fun t' q' h => h.prepend (n := 0) hcalls hzero.symm
    split
    · exact Reaches.self (hpre _ _ Ended.error)
    · exact (fulfillTask_reaches _ _).mono hpre
    · refine Reaches.call fun a => ?_
      cases a with
      | error e =>
        refine Reaches.self (hpre _ _ ⟨by simp [Cmd.Between], Or.inl ⟨_, rfl, by simp, by simp⟩⟩)
      | ok r =>
        cases r with
        | suspended =>
          refine Reaches.self (hpre _ _ ⟨by simp [Cmd.Between], Or.inl ⟨_, rfl, by simp, ?_⟩⟩)
          exact fun _ => ⟨_, List.mem_cons_self ..⟩
        | redirect preload =>
          refine (ih preload).mono fun t' q' h => hpre _ _ ?_
          exact h.prepend (s := [_]) (by simp [Cmd.Between]) rfl

theorem inner_reaches (preload : List PromiseRecord) :
    Reaches (Ended taskId v k fuel)
      (core.executeUntilBlockedInner taskId v promise fuel preload k) := by
  unfold executeUntilBlockedInner
  split
  · exact fulfillTask_reaches _ _
  · split
    · exact Reaches.self Ended.error
    · split
      · exact Reaches.self Ended.error
      · split
        · exact fulfillTask_reaches _ _
        · exact loop_reaches _

theorem executeUntilBlocked_own {ks ext : List Kid} {own : List Event} {o : End}
    {preload : List PromiseRecord} (hp : ¬ (promise.isTimer ∧ promise.state = .pending))
    (h : Behav ks (core.executeUntilBlocked taskId v promise fuel preload) own ext (some o)) :
    (∃ mid last, own = ⟨.heartbeatStart taskId v, ()⟩ :: (mid ++ last) ∧
        (∀ e ∈ mid, e.1.Between) ∧ FinishedBy taskId v mid last ∧ o ≠ .unfinished) ∨
      o = .unfinished ∧ fuel ≤ own.countP isRedirect := by
  rw [executeUntilBlocked, if_neg hp] at h
  cases h with
  | call a h =>
    obtain ⟨mid, q, ks', own', ext', hmid, hq, rfl⟩ := inner_reaches _ _ _ _ _ h
    obtain ⟨hb, hend⟩ := hmid
    rcases hend with ⟨res, rfl, hd, hs⟩ | ⟨rfl, hf⟩
    · left
      refine ⟨mid, own', rfl, hb, ?_⟩
      cases hq with
      | call a hq =>
        cases res with
        | ok status =>
          obtain ⟨rfl, -, ho⟩ := Behav.ret_iff.mp hq
          cases ho
          refine ⟨?_, by simp⟩
          cases status with
          | done => exact Or.inl ⟨rfl, Or.inl (hd rfl)⟩
          | suspended => exact Or.inl ⟨rfl, Or.inr (hs rfl)⟩
        | error e =>
          cases hq with
          | call a hq =>
            obtain ⟨rfl, -, ho⟩ := Behav.ret_iff.mp hq
            cases ho
            exact ⟨Or.inr ⟨a, rfl⟩, by simp⟩
    · right
      obtain ⟨-, -, ho⟩ := Behav.ret_iff.mp hq
      refine ⟨Option.some.inj ho, ?_⟩
      simp only [List.countP_cons, List.countP_append]
      omega

end Core

section Handling

variable {taskId : String} {v : Int} {mid last : List Event}

theorem FinishedBy.discharged (h : FinishedBy taskId v mid last) (e : Event) :
    Discharged taskId v (e :: (mid ++ last)) := by
  rcases h with ⟨-, ⟨a, r, hm⟩ | ⟨a, hm⟩⟩ | ⟨a, rfl⟩
  · exact Or.inl ⟨a, r, by simp [hm]⟩
  · exact Or.inr (Or.inl ⟨a, by simp [hm]⟩)
  · exact Or.inr (Or.inr ⟨a, by simp⟩)

theorem FinishedBy.heartbeatStopped (h : FinishedBy taskId v mid last)
    (hmid : ∀ e ∈ mid, e.1.Between) :
    HeartbeatStopped taskId (⟨.heartbeatStart taskId v, ()⟩ :: (mid ++ last)) := by
  have hstop : (⟨.heartbeatStop taskId, ()⟩ : Event) ∈ last := by
    rcases h with ⟨rfl, -⟩ | ⟨a, rfl⟩ <;> simp
  have hstart : ∀ w, (⟨.heartbeatStart taskId w, ()⟩ : Event) ∉ mid ++ last := by
    intro w hw
    rcases List.mem_append.mp hw with hw | hw
    · simpa [Cmd.Between, Cmd.OfCalls] using hmid _ hw
    · have hcmd := List.mem_map_of_mem (f := Sigma.fst) hw
      rcases h with ⟨rfl, -⟩ | ⟨a, rfl⟩ <;> simp at hcmd
  intro pre w post hsplit
  cases pre with
  | nil =>
    obtain ⟨-, rfl⟩ := List.cons.inj hsplit
    exact List.mem_append_right mid hstop
  | cons e pre =>
    obtain ⟨-, hsplit⟩ := List.cons.inj hsplit
    exact absurd (by simp [hsplit]) (hstart w)

end Handling

/-- A timer that is still pending: the handling drops its task. -/
def PromiseRecord.PendingTimer (p : PromiseRecord) : Prop := p.isTimer ∧ p.state = .pending

/-- A handling that returned by `o`, and sent `rest` once it held version `v`, has discharged
its lease and left no heartbeat running. One that has not returned is still being
redirected. -/
def LeaseDischarged (taskId : String) (v : Int) (promise : PromiseRecord) (fuel : ℕ) (o : End)
    (rest : List Event) : Prop :=
  (o = .unfinished ∧ fuel ≤ rest.countP isRedirect) ∨
    (o ≠ .unfinished ∧ (Discharged taskId v rest ∨ promise.PendingTimer) ∧
      HeartbeatStopped taskId rest)

theorem heartbeatStopped_nil {taskId : String} : HeartbeatStopped taskId [] := by
  intro pre w post h
  cases pre <;> cases h

theorem not_discharged_nil {taskId : String} {v : Int} : ¬ Discharged taskId v [] := by
  rintro (⟨a, r, h⟩ | ⟨a, h⟩ | ⟨a, h⟩) <;> cases h

theorem Codec.decodePromise_pendingTimer {codec : Codec} {p q : PromiseRecord}
    (h : codec.decodePromise p = .ok q) : q.PendingTimer ↔ p.PendingTimer := by
  obtain ⟨-, hst, htags⟩ := Codec.decodePromise_ok h
  rw [PromiseRecord.PendingTimer, PromiseRecord.PendingTimer, PromiseRecord.isTimer,
    PromiseRecord.isTimer, hst, htags]

/-- The lease of an acquired task is discharged exactly when the acquired record
decodes, or is a timer to drop. -/
theorem lease_discharged_iff {core : Core} {taskId : String} {version : Int} {fuel : ℕ}
    {ls : List (Label Cmd Cmd.Answer)} {n : Node Cmd Cmd.Answer End} {o : End}
    {result : TaskAcquireResult} {rest : List Event}
    (h : Steps (.mk (core.onMessage taskId version fuel) []) ls n) (ho : n.result = some o)
    (hacq : ls.flatMap Label.root =
      ⟨.acquire taskId version core.pid core.ttl, .ok result⟩ :: rest) :
    LeaseDischarged taskId result.task.version result.promise fuel o rest ↔
      (core.sdk.codec.decodePromise result.promise).isOk ∨ result.promise.PendingTimer := by
  obtain ⟨ext, hb, -⟩ := h.behav
  rw [hacq, ho, Core.onMessage] at hb
  cases hb with
  | call a hb =>
    dsimp only at hb
    cases hdec : core.sdk.codec.decodePromise result.promise with
    | error e =>
      rw [hdec] at hb
      obtain ⟨rfl, -, ho⟩ := Behav.ret_iff.mp hb
      cases ho
      simp [LeaseDischarged, not_discharged_nil, heartbeatStopped_nil, Except.isOk, Except.toBool]
    | ok promise =>
      rw [hdec] at hb
      dsimp only at hb
      have hiff := Codec.decodePromise_pendingTimer hdec
      refine iff_of_true ?_ (Or.inl rfl)
      by_cases ht : promise.isTimer ∧ promise.state = .pending
      · rw [Core.executeUntilBlocked, if_pos ht] at hb
        obtain ⟨rfl, -, ho⟩ := Behav.ret_iff.mp hb
        cases ho
        exact Or.inr ⟨by simp, Or.inr (hiff.mp ht), heartbeatStopped_nil⟩
      · rcases Core.executeUntilBlocked_own ht hb with
          ⟨mid, last, rfl, hmid, hlast, hne⟩ | hfuel
        · exact Or.inr ⟨hne, Or.inl (hlast.discharged _), hlast.heartbeatStopped hmid⟩
        · exact Or.inl hfuel

section Runs

def bareCore : Core where
  sdk := ⟨fun target => target.getD "default", id, nullCodec⟩
  registry _ := none
  pid := "p"
  ttl := 60000

def acquiredWith (param : Json) : TaskAcquireResult where
  task := ⟨"t", .acquired, 3, .null, some 60000, some "p"⟩
  promise := ⟨"t", .pending, { data := some param }, {}, ∅, 100000, 0, none⟩
  preload := []

def bareReply (param : Json) : (c : Cmd) → c.Answer
  | .acquire .. => .ok (acquiredWith param)
  | .now => (0 : Int)
  | .user => Json.null
  | .create .. | .settle .. | .fulfill .. | .suspend .. | .created .. =>
    .error (.networkError "down")
  | .release .. => .ok ()
  | .panic _ | .execute _ | .effects .. | .heartbeatStart .. | .heartbeatStop _ => ()

end Runs

theorem lease_discharged_null : ∃ ls n rest,
    Steps (.mk (bareCore.onMessage "t" 3 1) []) ls n ∧
      ls.flatMap Label.root = ⟨.acquire "t" 3 "p" 60000, .ok (acquiredWith .null)⟩ :: rest ∧
      LeaseDischarged "t" 3 (acquiredWith .null).promise 1
        (.returned (.error (.decodingError "invalid task data"))) rest := by
  have h := Node.runAt_steps (bareReply .null) [[], [], [], []]
    (.mk (bareCore.onMessage "t" 3 1) []) rfl
  exact ⟨_, _, _, h, rfl, (lease_discharged_iff h rfl rfl).mpr (Or.inl rfl)⟩

/-- A record whose parameter is not a string ends the handling after the
acquisition, with no release. -/
theorem undecodable_not_discharged : ∃ ls n rest,
    Steps (.mk (bareCore.onMessage "t" 3 1) []) ls n ∧
      ls.flatMap Label.root = ⟨.acquire "t" 3 "p" 60000, .ok (acquiredWith (.num 5))⟩ :: rest ∧
      n.result = some (.returned (.error (.decodingError "expected string or null data"))) ∧
      ¬ (acquiredWith (.num 5)).promise.PendingTimer ∧ ¬ Discharged "t" 3 rest := by
  have h := Node.runAt_steps (bareReply (.num 5)) [[]]
    (.mk (bareCore.onMessage "t" 3 1) []) rfl
  exact ⟨_, _, _, h, rfl, rfl, by simp [PromiseRecord.PendingTimer, PromiseRecord.isTimer,
    acquiredWith],
    not_discharged_nil⟩

end Resonate
