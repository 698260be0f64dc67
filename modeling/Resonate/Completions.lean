import Resonate.Handles

/-!
# No completion is lost

What handles hold is always the server's outcome. A completion reaches every handle as
long as each unblock message finds no entry, an entry with its value, or a live receiver,
and no refused request expires a promise that is listened to. The three pieces of state
are tied together by one clause: an entry without a value is attended by its creation, by
the listener on the server, or by a message in flight.
-/

namespace Resonate
open Lib Network

def Network.DurablePromise.outcome (p : DurablePromise) : PromiseResult :=
  ⟨p.state, valueToWireJson (Value.ofJson p.value)⟩

namespace Session

def Outcome (x : Session) (id : String) (v : PromiseResult) : Prop :=
  ∃ p, x.server.promises.lookup id = some p ∧ p.state ≠ .pending ∧ v = p.outcome

def Quiescent (x : Session) : Prop :=
  x.inFlight = [] ∧ ∀ id, x.creating.lookup id = none

/-- No handle holds anything but the server's outcome. -/
def Faithful (x : Session) : Prop :=
  ∀ id ∈ x.handles, ∀ v, x.holds id = some v → x.Outcome id v

def Complete (x : Session) : Prop :=
  ∀ id ∈ x.handles, ∀ p, x.server.promises.lookup id = some p → p.state ≠ .pending →
    x.done id = true ∧ x.holds id = some p.outcome

def Event.Typed : Event → Prop
  | .serve op => op.Typed
  | _ => True

variable (r : Endpoint)

def Succeeds (x : Session) : Event → Prop
  | .listen id sent now => x.creating.lookup id = some .requesting →
    ∃ promise, x.listenerAnswer r id sent now = .ok promise
  | _ => True

/-- An unblock message is not lost on an entry without value and without receiver, and a
refused request expires no promise that the instance listens to. -/
def Kept (x : Session) : Event → Prop
  | .unblock i => ∀ promise, x.inFlight[i]? = some promise →
    ∀ tx, x.subscriptions.lookup (unblockId promise) = some tx → tx.value = none → 0 < tx.receivers
  | .serve (.apply now req) => ∀ e, (x.server.apply now req).2 = .error e →
    ∀ id ∈ namedPromises (ReqKind.ofName (kindOf req)) req, x.server.isDue now id = true →
      r.unicast ∉ x.server.subscribersOf id
  | _ => True

/-- An entry without a value is attended: by the creation that inserted it, by the
listener on the server, or by a message in flight. -/
def Attended (x : Session) (id : String) : Prop :=
  x.creating.lookup id = some .requesting ∨
    (∃ promise, x.creating.lookup id = some (.answered (.ok promise)) ∧ promise.state ≠ .pending) ∨
    x.server.Listens id r.unicast ∨ ∃ promise ∈ x.inFlight, unblockId promise = id

structure Sound (x : Session) : Prop where
  coherent : Coherent x.server
  flight : ∀ promise ∈ x.inFlight, ∃ id p, x.server.promises.lookup id = some p ∧
    p.state ≠ .pending ∧ promise = p.toRecord
  stored : ∀ id tx v, x.subscriptions.lookup id = some tx → tx.value = some v → x.Outcome id v
  answered : ∀ id promise, x.creating.lookup id = some (.answered (.ok promise)) →
    promise.state ≠ .pending → x.Outcome id promise.result

structure Seated (x : Session) : Prop where
  receivers : ∀ id tx, x.subscriptions.lookup id = some tx →
    tx.receivers = x.handles.count id + (x.creating.lookup id).isSome.toNat
  entry : ∀ id, id ∈ x.handles ∨ (x.creating.lookup id).isSome = true →
    (x.subscriptions.lookup id).isSome = true
  ok : ∀ id e, x.creating.lookup id ≠ some (.answered (.error e))

def Tended (x : Session) : Prop :=
  ∀ id tx, x.subscriptions.lookup id = some tx → tx.value = none → x.Attended r id

variable {r} {x : Session} {id : String}

section Records

variable {p q : DurablePromise} {s : ServerState} {a : String}

theorem parsePromiseState_name (st : PromiseState) : parsePromiseState st.name = st := by
  simp [parsePromiseState]

theorem unblockResult_toRecord (p : DurablePromise) :
    unblockResult p.toRecord = p.outcome := by
  rw [unblockResult, get_toRecord_state, get_toRecord_value]
  simp [DurablePromise.outcome, Json.asStr, parsePromiseState_name]

theorem unblockId_toRecord (hc : Coherent s) (hp : s.promises.lookup a = some p) :
    unblockId p.toRecord = a := by
  rw [unblockId, get_toRecord_id]
  exact ((hc.cell a).promise p hp).id

theorem outcome_kept (hk : p.Kept q) (hst : p.state ≠ .pending) :
    q.outcome = p.outcome := by
  obtain ⟨hs, hv, -⟩ := hk.outcome hst
  rw [DurablePromise.outcome, DurablePromise.outcome, hs, hv]

theorem unblockPromise_some {message promise : Json} (h : unblockPromise message = some promise) :
    (message.get "kind").bind Json.asStr = some "unblock" ∧
      (message.get "data").bind (·.get "promise") = some promise := by
  unfold unblockPromise at h
  split_ifs at h with hk
  exact ⟨hk, h⟩

theorem unblockPromise_unblockMessage (record : Json) :
    unblockPromise (ServerState.unblockMessage record) = some record := rfl

end Records

section Serve

variable {op : Op} {v : PromiseResult}

theorem Outcome.serve (hc : Coherent x.server) (hop : op.Typed) (h : x.Outcome id v) :
    (x.serve r op).Outcome id v := by
  obtain ⟨p, hp, hst, rfl⟩ := h
  obtain ⟨q, hq, hk⟩ := deliver_kept hc hop hp
  refine ⟨q, hq, ?_, (outcome_kept hk hst).symm⟩
  rw [(hk.outcome hst).1]
  exact hst

theorem Sound.serve (h : x.Sound) (hop : op.Typed) : (x.serve r op).Sound where
  coherent := deliver_coherent h.coherent hop
  flight promise hmem := by
    rcases List.mem_append.mp hmem with hold | hnew
    · obtain ⟨id, p, hp, hst, rfl⟩ := h.flight promise hold
      obtain ⟨q, hq, hk⟩ := deliver_kept h.coherent hop hp
      refine ⟨id, q, hq, ?_, (hk.toRecord hst).symm⟩
      rw [(hk.outcome hst).1]
      exact hst
    · obtain ⟨msg, hmsg, hsome⟩ := List.mem_filterMap.mp hnew
      split_ifs at hsome
      obtain ⟨hkind, hpromise⟩ := unblockPromise_some hsome
      obtain ⟨id, q, hq, hst, heq⟩ := deliver_unblock h.coherent hop (messages_sub hmsg)
        (by simp [isUnblock, hkind])
      refine ⟨id, q, hq, hst, ?_⟩
      rw [heq] at hpromise
      exact (Option.some.inj hpromise).symm
  stored id tx v htx hv := (h.stored id tx v htx hv).serve h.coherent hop
  answered id promise hp hst := (h.answered id promise hp hst).serve h.coherent hop

theorem Seated.serve (h : x.Seated) (op : Op) : (x.serve r op).Seated := ⟨h.receivers, h.entry, h.ok⟩

theorem Attended.serve (hc : Coherent x.server) (hop : op.Typed) (hkept : x.Kept r (.serve op))
    (h : x.Attended r id) : (x.serve r op).Attended r id := by
  rcases h with h | h | h | h
  · exact Or.inl h
  · exact Or.inr (Or.inl h)
  · rcases deliver_listens hc hop h with h' | ⟨q, hq, hst, hmsg⟩
    · exact Or.inr (Or.inr (Or.inl h'))
    · refine Or.inr (Or.inr (Or.inr ⟨q.toRecord, List.mem_append_right _ ?_,
        unblockId_toRecord (deliver_coherent hc hop) hq⟩))
      refine List.mem_filterMap.mpr ⟨⟨r.unicast, ServerState.unblockMessage q.toRecord⟩, ?_,
        by simp [r.hears_unicast, unblockPromise_unblockMessage]⟩
      cases op with
      | tick now => exact hmsg
      | apply now req =>
        rw [deliver_apply] at hq hmsg
        unfold ServerState.messages
        cases hx : x.server.apply now req with
        | mk s' res =>
          rw [hx] at hmsg
          cases res with
          | ok resp => simpa only [hx] using hmsg
          | error e =>
            obtain ⟨p, hp, hpend, hmem⟩ := h
            have he : (x.server.apply now req).2 = .error e := by rw [hx]
            obtain ⟨q', hq', hst'⟩ := refused_pending hc he hp hpend fun hnamed => by
              by_contra hdue
              refine hkept e he id hnamed (by simpa using hdue) ?_
              simpa [ServerState.subscribersOf, hp] using hmem
            obtain rfl := Option.some.inj (hq.symm.trans hq')
            exact absurd hst' hst
  · obtain ⟨promise, hmem, hid⟩ := h
    exact Or.inr (Or.inr (Or.inr ⟨promise, List.mem_append_left _ hmem, hid⟩))

end Serve

section Create

theorem create_of_entry {tx : Watch PromiseResult} (h : x.subscriptions.lookup id = some tx) :
    x.create id = { x with subscriptions := x.subscriptions.insert id tx.subscribe,
                           handles := id :: x.handles } := by
  simp [create, h]

theorem create_of_none (h : x.subscriptions.lookup id = none) :
    x.create id = { x with subscriptions := x.subscriptions.insert id (Watch.channel none)
                           creating := x.creating.insert id .requesting } := by
  simp [create, h]

theorem Sound.create (h : x.Sound) (id : String) : (x.create id).Sound := by
  cases hid : x.subscriptions.lookup id with
  | some tx =>
    rw [create_of_entry hid]
    refine ⟨h.coherent, h.flight, fun a tx' v htx hv => ?_, h.answered⟩
    simp only [HashMap.lookup_insert_ite] at htx
    split_ifs at htx with ha
    · obtain rfl := Option.some.inj htx
      exact ha ▸ h.stored id tx v hid hv
    · exact h.stored a tx' v htx hv
  | none =>
    rw [create_of_none hid]
    refine ⟨h.coherent, h.flight, fun a tx v htx hv => ?_, fun a promise hp hst => ?_⟩
    · simp only [HashMap.lookup_insert_ite] at htx
      split_ifs at htx
      · obtain rfl := Option.some.inj htx
        cases hv
      · exact h.stored a tx v htx hv
    · simp only [HashMap.lookup_insert_ite] at hp
      split_ifs at hp
      · cases hp
      · exact h.answered a promise hp hst

theorem Seated.create (h : x.Seated) (id : String) : (x.create id).Seated := by
  cases hid : x.subscriptions.lookup id with
  | some tx =>
    rw [create_of_entry hid]
    refine ⟨fun a tx' htx => ?_, fun a ha => ?_, h.ok⟩
    · simp only [HashMap.lookup_insert_ite] at htx
      split_ifs at htx with ha
      · obtain rfl := Option.some.inj htx
        subst ha
        simp only [Watch.subscribe_receivers, h.receivers a tx hid, List.count_cons_self]
        omega
      · rw [h.receivers a tx' htx, List.count_cons_of_ne (Ne.symm ha)]
    · simp only [HashMap.lookup_insert_ite]
      split_ifs with hne
      · rfl
      · refine h.entry a (ha.imp_left fun hmem => ?_)
        exact (List.mem_cons.mp hmem).resolve_left hne
  | none =>
    rw [create_of_none hid]
    have hno : id ∉ x.handles ∧ (x.creating.lookup id).isSome = false := by
      constructor
      · intro hmem
        simpa [hid] using h.entry id (Or.inl hmem)
      · refine Bool.eq_false_iff.mpr fun hc => ?_
        simpa [hid] using h.entry id (Or.inr hc)
    refine ⟨fun a tx htx => ?_, fun a ha => ?_, fun a e he => ?_⟩
    · simp only [HashMap.lookup_insert_ite] at htx ⊢
      split_ifs at htx ⊢ with ha
      · obtain rfl := Option.some.inj htx
        subst ha
        simp [List.count_eq_zero.mpr hno.1]
      · exact h.receivers a tx htx
    · simp only [HashMap.lookup_insert_ite] at ha ⊢
      split_ifs at ha ⊢ with hne
      · rfl
      · exact h.entry a ha
    · simp only [HashMap.lookup_insert_ite] at he
      split_ifs at he
      · cases he
      · exact h.ok a e he

theorem Attended.creates {a : String} (h : x.Attended r a) : (x.create id).Attended r a := by
  cases hid : x.subscriptions.lookup id with
  | some tx =>
    rw [create_of_entry hid]
    exact h
  | none =>
    rw [create_of_none hid]
    by_cases ha : a = id
    · exact Or.inl (by simp [ha])
    · refine h.imp (fun h => ?_) (Or.imp_left fun h => ?_)
      · simpa [ha] using h
      · simpa [ha] using h

theorem Tended.create (h : x.Tended r) (id : String) : (x.create id).Tended r := by
  intro a tx htx hv
  cases hid : x.subscriptions.lookup id with
  | some tx' =>
    refine Attended.creates ?_
    rw [create_of_entry hid] at htx
    simp only [HashMap.lookup_insert_ite] at htx
    split_ifs at htx with ha
    · obtain rfl := Option.some.inj htx
      exact ha ▸ h id tx' hid hv
    · exact h a tx htx hv
  | none =>
    by_cases ha : a = id
    · rw [create_of_none hid]
      exact Or.inl (by simp [ha])
    · refine Attended.creates (h a tx ?_ hv)
      rw [create_of_none hid] at htx
      simpa [ha] using htx

end Create

section Answer

variable {promise : PromiseRecord} {a : String}

def told (subs : Subscriptions) (id : String) (promise : PromiseRecord) : Subscriptions :=
  if promise.state ≠ .pending then HashMap.modify subs id fun tx => tx.send promise.result else subs

theorem answer_of_ok (h : x.creating.lookup id = some (.answered (.ok promise))) :
    x.answer id = { x with subscriptions := told x.subscriptions id promise
                           creating := x.creating.erase id
                           handles := id :: x.handles } := by
  simp [answer, h, told]

theorem answer_of_requesting (h : x.creating.lookup id = some .requesting) : x.answer id = x := by
  simp [answer, h]

theorem answer_of_none (h : x.creating.lookup id = none) : x.answer id = x := by
  simp [answer, h]

theorem lookup_told {subs : Subscriptions} : (told subs id promise).lookup a =
    if a = id ∧ promise.state ≠ .pending then (subs.lookup id).map fun tx => tx.send promise.result
    else subs.lookup a := by
  unfold told
  split_ifs with hst h h
  · rw [HashMap.lookup_modify, if_pos h.1, h.1]
  · rw [HashMap.lookup_modify, if_neg fun ha => h ⟨ha, hst⟩]
  · exact absurd h.2 hst
  · rfl

theorem Seated.creation (h : x.Seated) (id : String) : x.creating.lookup id = none ∨
    x.creating.lookup id = some .requesting ∨
      ∃ promise, x.creating.lookup id = some (.answered (.ok promise)) := by
  cases hid : x.creating.lookup id with
  | none => exact Or.inl rfl
  | some stage =>
    cases stage with
    | requesting => exact Or.inr (Or.inl rfl)
    | answered answer =>
      cases answer with
      | error e => exact absurd hid (h.ok id e)
      | ok promise => exact Or.inr (Or.inr ⟨promise, rfl⟩)

theorem Sound.answer (h : x.Sound) (hseat : x.Seated) (id : String) : (x.answer id).Sound := by
  rcases hseat.creation id with hid | hid | ⟨promise, hid⟩
  · rwa [answer_of_none hid]
  · rwa [answer_of_requesting hid]
  · rw [answer_of_ok hid]
    refine ⟨h.coherent, h.flight, fun a tx v htx hv => ?_, fun a promise' hp hst => ?_⟩
    · simp only [lookup_told] at htx
      split_ifs at htx with ha
      · obtain ⟨tx', htx', rfl⟩ := Option.map_eq_some_iff.mp htx
        rcases tx'.send_value hv with hold | rfl
        · exact ha.1 ▸ h.stored id tx' v htx' hold
        · exact ha.1 ▸ h.answered id promise hid ha.2
      · exact h.stored a tx v htx hv
    · simp only [HashMap.lookup_erase_ite] at hp
      split_ifs at hp
      exact h.answered a promise' hp hst

theorem Seated.answer (h : x.Seated) (id : String) : (x.answer id).Seated := by
  rcases h.creation id with hid | hid | ⟨promise, hid⟩
  · rwa [answer_of_none hid]
  · rwa [answer_of_requesting hid]
  · rw [answer_of_ok hid]
    refine ⟨fun a tx htx => ?_, fun a ha => ?_, fun a e he => ?_⟩
    · have hold : ∃ tx', x.subscriptions.lookup a = some tx' ∧ tx'.receivers = tx.receivers := by
        simp only [lookup_told] at htx
        split_ifs at htx with ha
        · obtain ⟨tx', htx', rfl⟩ := Option.map_eq_some_iff.mp htx
          exact ⟨tx', by rw [ha.1, htx'], (Watch.send_receivers).symm⟩
        · exact ⟨tx, htx, rfl⟩
      obtain ⟨tx', htx', hr⟩ := hold
      rw [← hr, h.receivers a tx' htx', HashMap.lookup_erase_ite]
      by_cases ha : a = id
      · subst ha
        simp [hid]
      · rw [if_neg ha, List.count_cons_of_ne (Ne.symm ha)]
    · have hsome : (x.subscriptions.lookup a).isSome = true := by
        refine h.entry a ?_
        simp only [HashMap.lookup_erase_ite] at ha
        rcases ha with hmem | hc
        · rcases List.mem_cons.mp hmem with rfl | hmem
          · exact Or.inr (by simp [hid])
          · exact Or.inl hmem
        · split_ifs at hc
          · cases hc
          · exact Or.inr hc
      simp only [lookup_told]
      split_ifs with hc
      · rw [Option.isSome_map, ← hc.1]
        exact hsome
      · exact hsome
    · simp only [HashMap.lookup_erase_ite] at he
      split_ifs at he
      exact h.ok a e he

theorem Tended.answer (h : x.Tended r) (hseat : x.Seated) (id : String) :
    (x.answer id).Tended r := by
  rcases hseat.creation id with hid | hid | ⟨promise, hid⟩
  · rwa [answer_of_none hid]
  · rwa [answer_of_requesting hid]
  · rw [answer_of_ok hid]
    intro a tx htx hv
    simp only [lookup_told] at htx
    split_ifs at htx with ha
    · -- the creation itself holds a receiver
      obtain ⟨tx', htx', rfl⟩ := Option.map_eq_some_iff.mp htx
      have hr := hseat.receivers id tx' htx'
      simp only [hid, Option.isSome_some, Bool.toNat_true, (Watch.receivers_of_lost hv).2] at hr
      omega
    · rcases h a tx htx hv with h | ⟨promise', h, hst⟩ | h
      · refine Or.inl ?_
        have hne : a ≠ id := by
          intro heq
          rw [heq, hid] at h
          cases h
        simpa [hne] using h
      · refine Or.inr (Or.inl ⟨promise', ?_, hst⟩)
        have hne : a ≠ id := by
          intro heq
          rw [heq, hid] at h
          cases h
          exact ha ⟨heq, hst⟩
        simpa [hne] using h
      · exact Or.inr (Or.inr h)

end Answer

section Listen

variable {sent now : Int}

theorem listen_of_not_requesting (h : x.creating.lookup id ≠ some .requesting) :
    x.listen r id sent now = x := by
  unfold listen
  split
  · next hc => exact absurd hc h
  · rfl

theorem listen_of_requesting (h : x.creating.lookup id = some .requesting) :
    x.listen r id sent now =
      { x.serve r (.apply now (unwrapRequestEnvelope (listenerRequest r id sent))) with
        creating := x.creating.insert id (.answered (x.listenerAnswer r id sent now)) } := by
  simp only [listen, h]
  rfl

theorem Sound.listen (h : x.Sound) (hs : x.Succeeds r (.listen id sent now)) :
    (x.listen r id sent now).Sound := by
  by_cases hid : x.creating.lookup id = some .requesting
  · obtain ⟨promise, hans⟩ := hs hid
    obtain ⟨-, p, hp, hst, hv, -⟩ := listen_answered hans
    rw [listen_of_requesting hid, hans]
    have hy : (x.serve r (.apply now (unwrapRequestEnvelope (listenerRequest r id sent)))).Sound :=
      h.serve typed_listen
    refine ⟨hy.coherent, hy.flight, hy.stored, fun a promise' ha hst' => ?_⟩
    simp only [HashMap.lookup_insert_ite] at ha
    split_ifs at ha with hai
    · cases ha
      rw [hai]
      exact ⟨p, hp, by rwa [← hst], by rw [PromiseRecord.result, hst, hv]; rfl⟩
    · exact hy.answered a promise' ha hst'
  · rwa [listen_of_not_requesting hid]

theorem Seated.listen (h : x.Seated) (hs : x.Succeeds r (.listen id sent now)) :
    (x.listen r id sent now).Seated := by
  by_cases hid : x.creating.lookup id = some .requesting
  · obtain ⟨promise, hans⟩ := hs hid
    rw [listen_of_requesting hid, hans]
    have hsome : ∀ a, ((x.creating.insert id (.answered (.ok promise))).lookup a).isSome =
        (x.creating.lookup a).isSome := by
      intro a
      rw [HashMap.lookup_insert_ite]
      split_ifs with ha
      · rw [ha, hid]
        rfl
      · rfl
    refine ⟨fun a tx htx => ?_, fun a ha => ?_, fun a e he => ?_⟩
    · rw [hsome]
      exact h.receivers a tx htx
    · rw [hsome] at ha
      exact h.entry a ha
    · simp only [HashMap.lookup_insert_ite] at he
      split_ifs at he
      · cases he
      · exact h.ok a e he
  · rwa [listen_of_not_requesting hid]

theorem Tended.listen (h : x.Tended r) (hsound : x.Sound) (hs : x.Succeeds r (.listen id sent now)) :
    (x.listen r id sent now).Tended r := by
  by_cases hid : x.creating.lookup id = some .requesting
  · obtain ⟨promise, hans⟩ := hs hid
    obtain ⟨⟨resp, hresp⟩, p, hp, hst, -, hsub⟩ := listen_answered hans
    rw [listen_of_requesting hid, hans]
    intro a tx htx hv
    by_cases ha : a = id
    · subst ha
      by_cases hpend : promise.state = .pending
      · exact Or.inr (Or.inr (Or.inl ⟨p, hp, hst ▸ hpend, hsub (hst ▸ hpend)⟩))
      · exact Or.inr (Or.inl ⟨promise, by simp, hpend⟩)
    · have hkept : x.Kept r (.serve (.apply now (unwrapRequestEnvelope
        (listenerRequest r id sent)))) := by
        intro e he
        rw [listenerRequest, hresp] at he
        cases he
      rcases (h a tx htx hv).serve hsound.coherent typed_listen hkept with h | ⟨promise', h, hst'⟩ | h
      · exact Or.inl (by rw [HashMap.lookup_insert_ite, if_neg ha]; exact h)
      · exact Or.inr (Or.inl ⟨promise', by rw [HashMap.lookup_insert_ite, if_neg ha]; exact h, hst'⟩)
      · exact Or.inr (Or.inr h)
  · rwa [listen_of_not_requesting hid]

end Listen

section Arrive

variable {promise : Json} {i : ℕ} {a : String} {subs : Subscriptions}

def unblocked (subs : Subscriptions) (promise : Json) : Watch PromiseResult :=
  match subs.lookup (unblockId promise) with
  | some tx => tx.send (unblockResult promise)
  | none => (Watch.channel (some (unblockResult promise))).leave

theorem lookup_unblock : (Resonate.unblock subs promise).lookup a =
    if a = unblockId promise then some (unblocked subs promise) else subs.lookup a := by
  unfold Resonate.unblock unblocked
  cases subs.lookup (unblockId promise) <;> simp

theorem arrive_of_some (h : x.inFlight[i]? = some promise) :
    x.arrive i = { x with inFlight := x.inFlight.eraseIdx i
                          subscriptions := Resonate.unblock x.subscriptions promise } := by
  simp [arrive, h]

theorem arrive_of_none (h : x.inFlight[i]? = none) : x.arrive i = x := by
  simp [arrive, h]

theorem Sound.outcome_of_flight (h : x.Sound) (hp : promise ∈ x.inFlight) :
    x.Outcome (unblockId promise) (unblockResult promise) := by
  obtain ⟨id, p, hlook, hst, rfl⟩ := h.flight promise hp
  rw [unblockId_toRecord h.coherent hlook, unblockResult_toRecord]
  exact ⟨p, hlook, hst, rfl⟩

theorem Sound.arrive (h : x.Sound) (i : ℕ) : (x.arrive i).Sound := by
  cases hi : x.inFlight[i]? with
  | none => rwa [arrive_of_none hi]
  | some promise =>
    have hout := h.outcome_of_flight (List.mem_of_getElem? hi)
    rw [arrive_of_some hi]
    refine ⟨h.coherent, fun promise' hp => h.flight promise' (List.mem_of_mem_eraseIdx hp),
      fun a tx v htx hv => ?_, h.answered⟩
    simp only [lookup_unblock] at htx
    split_ifs at htx with ha
    · obtain rfl := Option.some.inj htx
      rw [ha]
      unfold unblocked at hv
      cases hsub : x.subscriptions.lookup (unblockId promise) with
      | some tx =>
        simp only [hsub] at hv
        rcases tx.send_value hv with hold | rfl
        · exact h.stored _ tx v hsub hold
        · exact hout
      | none =>
        simp only [hsub] at hv
        obtain rfl := Option.some.inj hv
        exact hout
    · exact h.stored a tx v htx hv

theorem Seated.arrive (h : x.Seated) (i : ℕ) : (x.arrive i).Seated := by
  cases hi : x.inFlight[i]? with
  | none => rwa [arrive_of_none hi]
  | some promise =>
    rw [arrive_of_some hi]
    refine ⟨fun a tx htx => ?_, fun a ha => ?_, h.ok⟩
    · simp only [lookup_unblock] at htx
      split_ifs at htx with ha
      · obtain rfl := Option.some.inj htx
        unfold unblocked
        cases hsub : x.subscriptions.lookup (unblockId promise) with
        | some tx =>
          simp only [Watch.send_receivers]
          rw [ha]
          exact h.receivers _ tx hsub
        | none =>
          have hno : ¬ (a ∈ x.handles ∨ (x.creating.lookup a).isSome = true) := by
            intro hc
            have hsome := h.entry a hc
            rw [ha, hsub] at hsome
            cases hsome
          rw [not_or] at hno
          simp [List.count_eq_zero.mpr hno.1, Bool.eq_false_iff.mpr hno.2]
      · exact h.receivers a tx htx
    · simp only [lookup_unblock]
      split_ifs
      · rfl
      · exact h.entry a ha

theorem Tended.arrive (h : x.Tended r) (hk : x.Kept r (.unblock i)) : (x.arrive i).Tended r := by
  cases hi : x.inFlight[i]? with
  | none => rwa [arrive_of_none hi]
  | some promise =>
    rw [arrive_of_some hi]
    intro a tx htx hv
    simp only [lookup_unblock] at htx
    split_ifs at htx with ha
    · obtain rfl := Option.some.inj htx
      unfold unblocked at hv
      cases hsub : x.subscriptions.lookup (unblockId promise) with
      | some tx =>
        simp only [hsub] at hv
        obtain ⟨hnone, hzero⟩ := Watch.receivers_of_lost hv
        have hpos := hk promise hi tx hsub hnone
        omega
      | none => simp [hsub] at hv
    · rcases h a tx htx hv with h | h | h | ⟨promise', hmem, hid⟩
      · exact Or.inl h
      · exact Or.inr (Or.inl h)
      · exact Or.inr (Or.inr (Or.inl h))
      · refine Or.inr (Or.inr (Or.inr ⟨promise', ?_, hid⟩))
        obtain ⟨j, hj⟩ := List.getElem?_of_mem hmem
        refine List.mem_eraseIdx_iff_getElem?.mpr ⟨j, fun hij => ?_, hj⟩
        rw [hij, hi] at hj
        obtain rfl := Option.some.inj hj
        exact ha hid.symm

end Arrive

section Drop

variable {a : String}

theorem drop_of_mem (h : id ∈ x.handles) :
    x.drop id = { x with subscriptions := HashMap.modify x.subscriptions id Watch.leave
                         handles := x.handles.erase id } := by
  simp [drop, h]

theorem drop_of_not_mem (h : id ∉ x.handles) : x.drop id = x := by
  simp [drop, h]

theorem lookup_leave {subs : Subscriptions} {tx : Watch PromiseResult}
    (h : (HashMap.modify subs id Watch.leave).lookup a = some tx) :
    ∃ tx', subs.lookup a = some tx' ∧ tx'.value = tx.value ∧
      tx.receivers = if a = id then tx'.receivers - 1 else tx'.receivers := by
  rw [HashMap.lookup_modify] at h
  split_ifs at h with ha
  · obtain ⟨tx', htx', rfl⟩ := Option.map_eq_some_iff.mp h
    exact ⟨tx', ha ▸ htx', rfl, by simp [ha]⟩
  · exact ⟨tx, h, rfl, by simp [ha]⟩

theorem Sound.drop (h : x.Sound) (id : String) : (x.drop id).Sound := by
  by_cases hid : id ∈ x.handles
  · rw [drop_of_mem hid]
    refine ⟨h.coherent, h.flight, fun a tx v htx hv => ?_, h.answered⟩
    obtain ⟨tx', htx', hval, -⟩ := lookup_leave htx
    exact h.stored a tx' v htx' (hval.trans hv)
  · rwa [drop_of_not_mem hid]

theorem Seated.drop (h : x.Seated) (id : String) : (x.drop id).Seated := by
  by_cases hid : id ∈ x.handles
  · rw [drop_of_mem hid]
    refine ⟨fun a tx htx => ?_, fun a ha => ?_, h.ok⟩
    · obtain ⟨tx', htx', -, hr⟩ := lookup_leave htx
      rw [hr, h.receivers a tx' htx', List.count_erase]
      have hpos := List.count_pos_iff.mpr hid
      by_cases ha : a = id
      · subst ha
        simp only [if_true, beq_self_eq_true]
        omega
      · simp [ha, Ne.symm ha]
    · have hsome := h.entry a (ha.imp_left List.mem_of_mem_erase)
      rw [HashMap.lookup_modify]
      split_ifs <;> simpa using hsome
  · rwa [drop_of_not_mem hid]

theorem Tended.drop (h : x.Tended r) (id : String) : (x.drop id).Tended r := by
  by_cases hid : id ∈ x.handles
  · rw [drop_of_mem hid]
    intro a tx htx hv
    obtain ⟨tx', htx', hval, -⟩ := lookup_leave htx
    exact h a tx' htx' (hval.trans hv)
  · rwa [drop_of_not_mem hid]

end Drop

structure Inv (x : Session) : Prop where
  sound : x.Sound
  seated : x.Seated

theorem Inv.start {s : ServerState} (h : Coherent s) : (start s).Inv where
  sound := ⟨h, by simp [Session.start], by simp [Session.start], by simp [Session.start]⟩
  seated := ⟨by simp [Session.start], by simp [Session.start], by simp [Session.start]⟩

theorem Inv.step (h : x.Inv) {e : Event} (ht : e.Typed) (hs : x.Succeeds r e) : (x.step r e).Inv := by
  cases e with
  | create id => exact ⟨h.sound.create id, h.seated.create id⟩
  | listen id sent now => exact ⟨h.sound.listen hs, h.seated.listen hs⟩
  | answer id => exact ⟨h.sound.answer h.seated id, h.seated.answer id⟩
  | unblock i => exact ⟨h.sound.arrive i, h.seated.arrive i⟩
  | drop id => exact ⟨h.sound.drop id, h.seated.drop id⟩
  | serve op => exact ⟨h.sound.serve ht, h.seated.serve op⟩

theorem Tended.step (h : x.Tended r) (hinv : x.Inv) {e : Event} (ht : e.Typed) (hs : x.Succeeds r e)
    (hk : x.Kept r e) : (x.step r e).Tended r := by
  cases e with
  | create id => exact h.create id
  | listen id sent now => exact h.listen hinv.sound hs
  | answer id => exact h.answer hinv.seated id
  | unblock i => exact h.arrive hk
  | drop id => exact h.drop id
  | serve op =>
    intro a tx htx hv
    exact (h a tx htx hv).serve hinv.sound.coherent ht hk

theorem Inv.faithful (h : x.Inv) : x.Faithful := by
  intro id _ v hv
  obtain ⟨tx, htx, hval⟩ := Option.bind_eq_some_iff.mp hv
  exact h.sound.stored id tx v htx hval

theorem Tended.complete (h : x.Tended r) (hinv : x.Inv) (hq : x.Quiescent) : x.Complete := by
  intro id hid p hp hst
  obtain ⟨tx, htx⟩ := Option.isSome_iff_exists.mp (hinv.seated.entry id (Or.inl hid))
  have hholds : x.holds id = tx.value := by simp [holds, htx]
  cases hv : tx.value with
  | some v =>
    obtain ⟨p', hp', -, rfl⟩ := hinv.sound.stored id tx v htx hv
    obtain rfl := Option.some.inj (hp.symm.trans hp')
    exact ⟨by rw [done, hholds, hv]; rfl, hholds.trans hv⟩
  | none =>
    exfalso
    rcases h id tx htx hv with hc | ⟨promise, hc, -⟩ | ⟨p', hp', hpend, -⟩ | ⟨promise, hmem, -⟩
    · rw [hq.2 id] at hc
      cases hc
    · rw [hq.2 id] at hc
      cases hc
    · obtain rfl := Option.some.inj (hp.symm.trans hp')
      exact hst hpend
    · rw [hq.1] at hmem
      cases hmem

/-- What handles hold is the server's outcome, and unless an unblock message is lost on an
entry without receivers, a quiescent state has told every handle. -/
theorem completions_told (r : Endpoint) (ops : List Op) (hops : ∀ op ∈ ops, op.Typed)
    (es : List Event) (h : Machine.Along (step r) (fun x e => e.Typed ∧ x.Succeeds r e)
      (start (ServerState.init.run ops)) es) :
    (Machine.run (step r) (start (ServerState.init.run ops)) es).Faithful ∧
      (Machine.Along (step r) (fun x e => x.Kept r e) (start (ServerState.init.run ops)) es →
        (Machine.run (step r) (start (ServerState.init.run ops)) es).Quiescent →
          (Machine.run (step r) (start (ServerState.init.run ops)) es).Complete) := by
  have hstart : (start (ServerState.init.run ops)).Inv := .start (Coherent.run hops)
  have hinv := Machine.invariant (I := Inv) (fun x e hg hI => hI.step hg.1 hg.2) hstart h
  refine ⟨hinv.faithful, fun hkept => ?_⟩
  have htended := Machine.invariant (I := fun x => x.Inv ∧ x.Tended r)
    (fun x e hg hI => ⟨hI.1.step hg.1.1 hg.1.2, hI.2.step hI.1 hg.1.1 hg.1.2 hg.2⟩)
    ⟨hstart, fun id tx htx => by simp [start] at htx⟩ (Machine.along_and.mpr ⟨h, hkept⟩)
  exact htended.2.complete hinv

def localEndpoint : Endpoint := ⟨⟨none⟩, "local://uni@default/w", fun _ => true, rfl⟩

def createOp : Op :=
  .apply 0 (request "promise.create" ⟨"c", none⟩ (PromiseCreateReq.toJson
    { id := "p", timeoutAt := 10, param := {}, tags := ∅ }))

def settleOp : Op :=
  .apply 2 (request "promise.settle" ⟨"c", none⟩ (PromiseSettleReq.toJson ⟨"p", .resolved, {}⟩))

theorem createOp_typed : createOp.Typed := typed_of_not_settle rfl (by decide)

theorem settleOp_typed : settleOp.Typed := by
  refine ⟨fun r h => ?_, fun hk => absurd hk (by decide)⟩
  obtain rfl := Option.some.inj h
  decide

def heldRun : List Event :=
  [.serve createOp, .create "p", .listen "p" 1 1, .answer "p", .serve settleOp, .unblock 0,
    .create "p"]

theorem completions_told_held :
    (Machine.run (step localEndpoint) (start ServerState.init) heldRun).Faithful ∧
      (Machine.run (step localEndpoint) (start ServerState.init) heldRun).Complete := by
  have hrun := completions_told localEndpoint [] (by simp) heldRun
    ⟨⟨createOp_typed, trivial⟩, ⟨trivial, trivial⟩, ⟨trivial, fun _ => ⟨_, rfl⟩⟩,
      ⟨trivial, trivial⟩, ⟨settleOp_typed, trivial⟩, ⟨trivial, trivial⟩, ⟨trivial, trivial⟩,
      trivial⟩
  refine ⟨hrun.1, hrun.2 ⟨fun e he => (by cases he), trivial, trivial, trivial,
    fun e he => (by cases he), fun promise hp tx htx hv => ?_, trivial, trivial⟩
    ⟨rfl, fun id => AList.lookup_empty id⟩⟩
  cases hp
  cases htx
  decide

def droppedRun : List Event :=
  [.serve createOp, .create "p", .listen "p" 1 1, .answer "p", .drop "p", .serve settleOp,
    .unblock 0, .create "p"]

/-- The message finds no receiver, and the second handle never learns the outcome. -/
theorem completion_lost :
    Machine.Along (step localEndpoint) (fun x e => e.Typed ∧ x.Succeeds localEndpoint e)
        (start ServerState.init) droppedRun ∧
      (Machine.run (step localEndpoint) (start ServerState.init) droppedRun).Quiescent ∧
      ¬ (Machine.run (step localEndpoint) (start ServerState.init) droppedRun).Complete := by
  refine ⟨⟨⟨createOp_typed, trivial⟩, ⟨trivial, trivial⟩, ⟨trivial, fun _ => ⟨_, rfl⟩⟩,
    ⟨trivial, trivial⟩, ⟨trivial, trivial⟩, ⟨settleOp_typed, trivial⟩, ⟨trivial, trivial⟩,
    ⟨trivial, trivial⟩, trivial⟩, ⟨rfl, fun id => AList.lookup_empty id⟩, fun h => ?_⟩
  have hdone := (h "p" (by decide) _ rfl (by decide)).1
  revert hdone
  decide

end Session

end Resonate
