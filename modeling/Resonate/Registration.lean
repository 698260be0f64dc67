import Resonate.Completions

/-!
# Failed registrations

A handle is created with no other caller between its phases. The entry goes into the
subscriptions before the listener is registered, and a failed registration leaves it
there, so the next creation of the id sends no request and succeeds.
-/

namespace Resonate
open Lib Network

/-- `create_handle_from_id`, with the answer of the listener request it may send; the
handle is given by its id. -/
def createHandleFromId (subs : Subscriptions) (id : String)
    (answer : Except Error PromiseRecord) : Subscriptions × Except Error String :=
  match subs.lookup id with
  | some tx => (subs.insert id tx.subscribe, .ok id)
  | none =>
    let subs := subs.insert id (Watch.channel none)
    match answer with
    | .error e => (HashMap.modify subs id Watch.leave, .error e)
    | .ok promise =>
      (if promise.state ≠ .pending then HashMap.modify subs id fun tx => tx.send promise.result
        else subs, .ok id)

/-- The subscriptions are as before, and so is the result of the next creation of the id. -/
structure AsBefore (before after : Subscriptions) (id : String) : Prop where
  entries : ∀ a, after.lookup a = before.lookup a
  later : ∀ answer, (createHandleFromId after id answer).2 = (createHandleFromId before id answer).2

def FailsCleanly (subs : Subscriptions) (id : String) (answer : Except Error PromiseRecord) : Prop :=
  ∀ e, (createHandleFromId subs id answer).2 = .error e →
    AsBefore subs (createHandleFromId subs id answer).1 id

section Creation

variable {subs : Subscriptions} {id : String} {answer : Except Error PromiseRecord} {e : Error}

theorem createHandleFromId_found {tx : Watch PromiseResult} (h : subs.lookup id = some tx) :
    createHandleFromId subs id answer = (subs.insert id tx.subscribe, .ok id) := by
  rw [createHandleFromId, h]

theorem createHandleFromId_refused (h : subs.lookup id = none) :
    createHandleFromId subs id (.error e) =
      (HashMap.modify (subs.insert id (Watch.channel none)) id Watch.leave, .error e) := by
  rw [createHandleFromId, h]

theorem createHandleFromId_error (h : (createHandleFromId subs id answer).2 = .error e) :
    subs.lookup id = none ∧ answer = .error e := by
  cases hl : subs.lookup id with
  | some tx =>
    rw [createHandleFromId_found hl] at h
    cases h
  | none =>
    refine ⟨rfl, ?_⟩
    cases answer with
    | error e' =>
      rw [createHandleFromId_refused hl] at h
      rw [Except.error.inj h]
    | ok promise =>
      rw [createHandleFromId, hl] at h
      cases h

theorem lookup_refused (h : subs.lookup id = none) :
    (createHandleFromId subs id (.error e)).1.lookup id = some ⟨none, 0⟩ := by
  rw [createHandleFromId_refused h]
  simp [Watch.channel, Watch.leave]

end Creation

namespace Session

variable {x : Session} {r : Endpoint} {id : String} {sent now : Int}

/-- The phases of a creation with nothing in between make up `create_handle_from_id`. -/
theorem create_listen_answer (h : x.creating.lookup id = none) :
    (((x.create id).listen r id sent now).answer id).subscriptions =
        (createHandleFromId x.subscriptions id ((x.create id).listenerAnswer r id sent now)).1 ∧
      (((x.create id).listen r id sent now).answer id).handles =
        match (createHandleFromId x.subscriptions id
          ((x.create id).listenerAnswer r id sent now)).2 with
        | .ok id => id :: x.handles
        | .error _ => x.handles := by
  cases hl : x.subscriptions.lookup id with
  | some tx =>
    have hc : x.create id = { x with subscriptions := x.subscriptions.insert id tx.subscribe
                                     handles := id :: x.handles } := by
      rw [create, hl]
    rw [createHandleFromId_found hl, hc]
    simp [listen, answer, h]
  | none =>
    have hc : x.create id = { x with subscriptions := x.subscriptions.insert id (Watch.channel none)
                                     creating := x.creating.insert id .requesting } := by
      rw [create, hl]
    cases ha : (x.create id).listenerAnswer r id sent now with
    | error e =>
      rw [createHandleFromId_refused hl]
      rw [hc] at ha ⊢
      simp [listen, answer, serve, ha]
    | ok promise =>
      rw [createHandleFromId, hl]
      rw [hc] at ha ⊢
      simp [listen, answer, serve, ha]

end Session

/-- A creation fails cleanly exactly if the id has an entry or the registration succeeds:
whenever it returns an error, the entry stays and the next creation succeeds. -/
theorem failsCleanly_iff (subs : Subscriptions) (id : String)
    (answer : Except Error PromiseRecord) :
    FailsCleanly subs id answer ↔ (subs.lookup id).isSome ∨ ∃ promise, answer = .ok promise := by
  constructor
  · intro h
    cases hl : subs.lookup id with
    | some tx => exact Or.inl rfl
    | none =>
      cases answer with
      | ok promise => exact Or.inr ⟨promise, rfl⟩
      | error e =>
        have hfail : (createHandleFromId subs id (.error e)).2 = .error e := by
          rw [createHandleFromId_refused hl]
        have hsame := (h e hfail).entries id
        rw [lookup_refused hl, hl] at hsame
        cases hsame
  · intro h e he
    obtain ⟨hl, rfl⟩ := createHandleFromId_error he
    rcases h with h | ⟨promise, hp⟩
    · rw [hl] at h
      cases h
    · cases hp

/-- Two lookups of a promise that does not exist: the first fails, the second hands out a
handle that nothing will complete. -/
theorem missing_promise_handed_out :
    ¬ FailsCleanly ∅ "p" (.error (.serverError 404 "promise p not found")) ∧
      ∃ x : Session, x = Machine.run (Session.step Session.localEndpoint)
        (Session.start ServerState.init) [.create "p", .listen "p" 0 0, .answer "p"] ∧
      ((Session.start ServerState.init).create "p").listenerAnswer Session.localEndpoint "p" 0 0 =
        .error (.serverError 404 "promise p not found") ∧
      x.handles = [] ∧ x.subscriptions.lookup "p" = some ⟨none, 0⟩ ∧
      (x.create "p").handles = ["p"] ∧ (x.create "p").creating.lookup "p" = none := by
  refine ⟨fun h => ?_, _, rfl, rfl, rfl, rfl, rfl, rfl⟩
  have hsame := (h _ rfl).entries "p"
  cases hsame

end Resonate
