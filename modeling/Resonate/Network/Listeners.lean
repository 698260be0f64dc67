import Resonate.Network.Messages
import Resonate.Network.ErrorPath
import Resonate.Send

/-!
# Listeners

What a step of the server does to a promise somebody listens to: the promise stays
pending with its listener, or it settles and the listener has a message. A request the
server refuses settles nothing but the due promises it names, and an answered
`promise.register_listener` returns the outcome or leaves the address registered.
-/

namespace Resonate
open Lib

structure PromiseRegisterListenerData where
  awaited : String
  address : String

def PromiseRegisterListenerData.toJson (d : PromiseRegisterListenerData) : Json :=
  .obj [("awaited", .str d.awaited), ("address", .str d.address)]

namespace Network

namespace ServerState

/-- The messages a step hands to `dispatch_messages`: none when the request is refused. -/
def messages (s : ServerState) : Op → List OutgoingMessage
  | .apply now req => match s.apply now req with
    | (_, .error _) => []
    | (s, .ok _) => s.outgoing
  | .tick now => (s.deliver (.tick now)).outgoing

def Listens (s : ServerState) (a address : String) : Prop :=
  ∃ p, s.promises.lookup a = some p ∧ p.state = .pending ∧ address ∈ p.subscribers

end ServerState

section Step

variable {now : Int} {s s' s₁ s₂ : ServerState} {op : Op} {a address : String} {m : Move}
variable {p q : DurablePromise}

theorem deliver_coherent (hc : Coherent s) (hop : op.Typed) : Coherent (s.deliver op) :=
  hc.cleared.exec hop

theorem deliver_apply (s : ServerState) (now : Int) (req : Json) :
    s.deliver (.apply now req) = (s.apply now req).1 := rfl

theorem deliver_messagesExact (hc : Coherent s) (hop : op.Typed) :
    MessagesExact op.now { s with outgoing := [] } (s.deliver op) := by
  cases op with
  | apply now req => exact apply_messagesExact hc hop.1 hop.2
  | tick now => exact tick_messagesExact hc.cleared rfl

theorem deliver_kept (hc : Coherent s) (hop : op.Typed) (hp : s.promises.lookup a = some p) :
    ∃ q, (s.deliver op).promises.lookup a = some q ∧ p.Kept q := by
  have hinv := (exec_moves hc.cleared hop).invariant
    (I := fun s' => ∃ q, s'.promises.lookup a = some q ∧ p.Kept q) (hc.cleared.start op) ?_ ?_
  · exact hinv.2
  · intro s₁ m s₂ hc₁ _ hm hI
    obtain ⟨q, hq, hk⟩ := hI
    obtain ⟨q', hq', hk', -⟩ := m.promise_of_some hc₁ hm hq
    exact ⟨q', hq', hk.trans hk'⟩
  · have hsame : (op.start { s with outgoing := [] }).promises = s.promises := by cases op <;> rfl
    exact ⟨p, by rw [hsame, hp], .refl p⟩

theorem Move.listener (hc : Coherent s₁) (hm : m.Step now s₁ s₂)
    (hp : s₁.promises.lookup a = some p) (hq : s₂.promises.lookup a = some q)
    (hst : q.state = .pending) (ha : address ∈ p.subscribers) : address ∈ q.subscribers := by
  by_cases hquiet : m.Quiet
  · rcases m.subscribers hc hm hquiet hp hq with h | h
    · rwa [h]
    · exact absurd hst h.1
  · cases m with
    | plain act =>
      obtain ⟨-, -, rfl⟩ := hm
      rw [ServerState.perform_promises] at hq
      cases act with
      | clearOutgoing =>
        simp only [ServerState.promiseAfter, hp] at hq
        rwa [← Option.some.inj hq]
      | subscribe id address' =>
        simp only [ServerState.promiseAfter, hp, Option.map_some] at hq
        split_ifs at hq
        · obtain rfl := Option.some.inj hq
          exact List.mem_insert_of_mem ha
        · obtain rfl := Option.some.inj hq
          exact ha
      | _ => exact absurd trivial hquiet
    | _ => exact absurd trivial hquiet

theorem deliver_listens (hc : Coherent s) (hop : op.Typed) (h : s.Listens a address) :
    (s.deliver op).Listens a address ∨
      ∃ q, (s.deliver op).promises.lookup a = some q ∧ q.state ≠ .pending ∧
        ⟨address, ServerState.unblockMessage q.toRecord⟩ ∈ (s.deliver op).outgoing := by
  obtain ⟨p, hp, hst, ha⟩ := h
  have hinv := (exec_moves hc.cleared hop).invariant
    (I := fun s' => ∃ q, s'.promises.lookup a = some q ∧ (q.state = .pending → address ∈ q.subscribers))
    (hc.cleared.start op) ?_ ?_
  · obtain ⟨-, q, hq, hmem⟩ := hinv
    by_cases hqs : q.state = .pending
    · exact Or.inl ⟨q, hq, hqs, hmem hqs⟩
    · refine Or.inr ⟨q, hq, hqs, ?_⟩
      have hmsg := ((deliver_messagesExact hc hop).unblock _).mpr
        ⟨a, p, q, address, hp, hst, hq, hqs, ha, rfl⟩
      exact (List.mem_filter.mp hmsg).1
  · intro s₁ m s₂ hc₁ _ hm hI
    obtain ⟨q, hq, hmem⟩ := hI
    obtain ⟨q', hq', hk, -⟩ := m.promise_of_some hc₁ hm hq
    refine ⟨q', hq', fun hst' => ?_⟩
    have hqs : q.state = .pending := by
      by_contra hne
      rw [(hk.outcome hne).1] at hst'
      exact hne hst'
    exact m.listener hc₁ hm hq hq' hst' (hmem hqs)
  · have hsame : (op.start { s with outgoing := [] }).promises = s.promises := by cases op <;> rfl
    exact ⟨p, by rw [hsame, hp], fun _ => ha⟩

theorem deliver_unblock (hc : Coherent s) (hop : op.Typed) {msg : OutgoingMessage}
    (h : msg ∈ (s.deliver op).outgoing) (hu : isUnblock msg = true) :
    ∃ a q, (s.deliver op).promises.lookup a = some q ∧ q.state ≠ .pending ∧
      msg.message = ServerState.unblockMessage q.toRecord := by
  obtain ⟨a, p, q, address, -, -, hq, hqs, -, rfl⟩ :=
    ((deliver_messagesExact hc hop).unblock msg).mp (List.mem_filter.mpr ⟨h, hu⟩)
  exact ⟨a, q, hq, hqs, rfl⟩

theorem messages_sub {msg : OutgoingMessage} (h : msg ∈ s.messages op) :
    msg ∈ (s.deliver op).outgoing := by
  cases op with
  | tick now => exact h
  | apply now req =>
    rw [deliver_apply]
    unfold ServerState.messages at h
    cases hx : s.apply now req with
    | mk s' r =>
      cases r with
      | error e => simp [hx] at h
      | ok resp => simpa [hx] using h

end Step

section Refused

variable {now : Int} {s : ServerState} {req : Json} {e : Error} {a : String} {p : DurablePromise}

theorem refused_promises (he : (s.apply now req).2 = .error e) :
    (s.apply now req).1.promises = (s.prepared now req).promises := by
  cases hkind : ReqKind.ofName (kindOf req) with
  | none => simp [ServerState.apply, hkind]
  | some kind =>
    rw [ServerState.apply_eq_dispatch hkind] at he ⊢
    by_cases hk : kind = .taskHeartbeat
    · subst hk
      exact (ServerState.taskHeartbeat_frame (s.prepared now req) now
        ((req.get "corrId").getD .null) hkind).1
    · rw [ServerState.dispatch_keeps hk e he]

theorem refused_pending (hc : Coherent s) (he : (s.apply now req).2 = .error e)
    (hp : s.promises.lookup a = some p) (hst : p.state = .pending)
    (hno : a ∈ namedPromises (ReqKind.ofName (kindOf req)) req → s.isDue now a = false) :
    ∃ q, (s.apply now req).1.promises.lookup a = some q ∧ q.state = .pending := by
  have hmoves : Moves now (fun m => ∃ id ∈ namedPromises (ReqKind.ofName (kindOf req)) req,
      m = .expire [id]) { s with outgoing := [] } (s.prepared now req) :=
    prepared_moves now hc req fun id hid => ⟨id, hid, rfl⟩
  have hinv := hmoves.invariant
    (I := fun s' => ∃ q, s'.promises.lookup a = some q ∧ p.Kept q ∧ q.state = .pending) hc.cleared ?_
    ⟨p, hp, .refl p, hst⟩
  · obtain ⟨-, q, hq, -, hqs⟩ := hinv
    exact ⟨q, by rw [refused_promises he, hq], hqs⟩
  · intro s₁ m s₂ hc₁ hlabel hm hI
    obtain ⟨q, hq, hk, hqs⟩ := hI
    obtain ⟨id, hid, rfl⟩ := hlabel
    obtain ⟨q', hq', hk', hcase⟩ := Move.promise_of_some hc₁ hm hq
    refine ⟨q', hq', hk.trans hk', ?_⟩
    rcases hcase with hs | ⟨-, hdue, ids, hids, ha⟩ | ⟨-, -, state, value, heq, -⟩
    · exact hs.trans hqs
    · obtain rfl : [id] = ids := by simpa using hids
      obtain rfl := List.mem_singleton.mp ha
      obtain ⟨q₀, hq₀, -, ht⟩ := ServerState.isDue_iff.mp hdue
      obtain rfl := Option.some.inj (hq.symm.trans hq₀)
      rw [hk.timeoutAt] at ht
      rw [ServerState.isDue_iff.mpr ⟨p, hp, hst, ht⟩] at hno
      cases hno hid
    · cases heq

end Refused

section Listen

def listenRequest (head : Head) (id address : String) : Json :=
  envelope "promise.register_listener" head (PromiseRegisterListenerData.toJson ⟨id, address⟩)

def listenResult (head : Head) (answer : Except Error Json) : Except Error PromiseRecord := do
  let (_, data) ← received "promise.register_listener" head.corrId false answer
  parsePromise data

variable {now : Int} {s : ServerState} {head : Head} {id address : String}

theorem get_toRecord_state (p : DurablePromise) : p.toRecord.get "state" =
    some (.str p.state.name) := by
  rfl
theorem get_toRecord_value (p : DurablePromise) : p.toRecord.get "value" = some p.value := by
  rfl
theorem get_toRecord_id (p : DurablePromise) : p.toRecord.get "id" = some (.str p.id) := by
  rfl

@[simp] theorem asFields_toRecord (p : DurablePromise) (names : List String) :
    p.toRecord.asFields names = p.toRecord := by
  rfl

theorem ofJson_toRecord {p : DurablePromise} {rec : PromiseRecord}
    (h : PromiseRecord.ofJson p.toRecord = some rec) :
    rec.state = p.state ∧ rec.value = Value.ofJson p.value := by
  simp only [PromiseRecord.ofJson, asFields_toRecord, Option.bind_eq_bind, Option.bind_eq_some_iff,
    get_toRecord_state, fieldOr, get_toRecord_value, Option.pure_def, Option.some.injEq] at h
  obtain ⟨id, -, state, hst, param, -, value, hv, tags, -, timeoutAt, -, createdAt, -, settledAt, -,
    rfl⟩ := h
  obtain ⟨_, rfl, hst⟩ := hst
  refine ⟨?_, hv.symm⟩
  simpa [PromiseState.ofJson, variantName] using hst.symm

theorem get_wrap {fields : List (String × Json)} {key : String} (hk : key ≠ "kind")
    (hc : key ≠ "corrId")
    (hs : key ≠ "status") :
    ((wrapResponseEnvelope (.obj fields)).get "data").bind (·.get key) = fields.lookup key := by
  change (Json.remove (Json.remove (Json.remove fields "kind") "corrId") "status").lookup key = _
  rw [Json.lookup_remove, Json.lookup_remove, Json.lookup_remove, if_neg hs, if_neg hc, if_neg hk]

theorem responseData_ok {resp : Json} {x : ℕ × Json} (h : responseData false resp = .ok x) :
    x.2 = (resp.get "data").getD (.obj []) ∧ x.1 < 400 ∧ x.1 =
      ((((resp.get "head").bind (·.get "status")).bind Json.asU64).getD 200).toNat % 2 ^ 16 := by
  unfold responseData at h
  simp only [Bool.false_eq_true, false_and, not_false_eq_true, and_true] at h
  split_ifs at h with hlt
  obtain rfl := Except.ok.inj h
  exact ⟨rfl, not_le.mp hlt, rfl⟩

theorem listenResult_ok {answer : Except Error Json} {rec : PromiseRecord}
    (h : listenResult head answer = .ok rec) : ∃ resp, answer = .ok resp ∧
      ((((resp.get "head").bind (·.get "status")).bind Json.asU64).getD 200).toNat % 2 ^ 16 < 400 ∧
      ∃ promise, ((resp.get "data").getD (.obj [])).get "promise" = some promise ∧
        PromiseRecord.ofJson promise = some rec := by
  cases answer with
  | error e => cases h
  | ok resp =>
    refine ⟨resp, rfl, ?_⟩
    change (received _ _ _ (.ok resp)).bind _ = _ at h
    change ((checkResponse _ _ resp).bind _).bind _ = _ at h
    unfold checkResponse at h
    dsimp only at h
    split_ifs at h
    · cases h
    · cases h
    · change (responseData false resp).bind _ = _ at h
      cases hd : responseData false resp with
      | error e => rw [hd] at h; cases h
      | ok x =>
        obtain ⟨hx, hlt, hst⟩ := responseData_ok hd
        refine ⟨hst ▸ hlt, ?_⟩
        rw [hd] at h
        change parsePromise x.2 = .ok rec at h
        rw [← hx]
        unfold parsePromise parseRecord at h
        cases hp : x.2.get "promise" with
        | none => simp [hp] at h
        | some promise =>
          refine ⟨promise, rfl, ?_⟩
          simp only [hp] at h
          cases hr : PromiseRecord.ofJson promise with
          | none => simp [hr] at h
          | some r =>
            simp only [hr, Except.ok.injEq] at h
            rw [h]

theorem kindOf_listen :
    ReqKind.ofName (kindOf (unwrapRequestEnvelope (listenRequest head id address))) =
      some .promiseRegisterListener := by
  rw [listenRequest, ← request, PromiseRegisterListenerData.toJson, kindOf_request]
  rfl

theorem awaited_listen :
    strField (unwrapRequestEnvelope (listenRequest head id address)) "awaited" = some id := by
  rw [listenRequest, ← request, PromiseRegisterListenerData.toJson, strField,
    get_request (by decide) (by decide)]
  rfl

theorem address_listen :
    strField (unwrapRequestEnvelope (listenRequest head id address)) "address" = some address := by
  rw [listenRequest, ← request, PromiseRegisterListenerData.toJson, strField,
    get_request (by decide) (by decide)]
  rfl

theorem typed_listen :
    (Op.apply now (unwrapRequestEnvelope (listenRequest head id address))).Typed := by
  refine typed_of_not_settle ?_ ?_
  · simp [settleRequest, kindOf_listen]
  · simp [kindOf_listen]

theorem send_snd {req resp : Json} (h : (s.send now req).2 = .ok resp) :
    ∃ flat, (s.apply now (unwrapRequestEnvelope req)).2 = .ok flat ∧
      resp = wrapResponseEnvelope flat := by
  unfold ServerState.send at h
  cases hx : s.apply now (unwrapRequestEnvelope req) with
  | mk s' r =>
    cases r with
    | error e => simp [hx] at h
    | ok flat =>
      simp only [hx, Except.ok.injEq] at h
      exact ⟨flat, rfl, h.symm⟩

/-- An answered listener request tells the outcome, or has registered the address. -/
theorem listen_answered {rec : PromiseRecord}
    (h : listenResult head (s.send now (listenRequest head id address)).2 = .ok rec) :
    (∃ resp, (s.apply now (unwrapRequestEnvelope (listenRequest head id address))).2 = .ok resp) ∧
      ∃ p, (s.deliver (.apply now
          (unwrapRequestEnvelope (listenRequest head id address)))).promises.lookup id = some p ∧
        rec.state = p.state ∧ rec.value = Value.ofJson p.value ∧
        (p.state = .pending → address ∈ p.subscribers) := by
  obtain ⟨resp, hresp, hst, promise, hpromise, hrec⟩ := listenResult_ok h
  obtain ⟨flat, hflat, rfl⟩ := send_snd hresp
  refine ⟨⟨flat, hflat⟩, ?_⟩
  rw [deliver_apply]
  rw [ServerState.apply_eq_dispatch kindOf_listen] at hflat ⊢
  simp only [ServerState.dispatch, ServerState.promiseRegisterListener] at hflat ⊢
  cases hid : requireStr (unwrapRequestEnvelope (listenRequest head id address)) "awaited" with
  | error e => simp [hid] at hflat
  | ok awaited =>
    obtain rfl : id = awaited := by
      have hf := (requireStr_ok.mp hid).1
      rw [awaited_listen] at hf
      exact Option.some.inj hf
    cases hadd : requireStr (unwrapRequestEnvelope (listenRequest head id address)) "address" with
    | error e => simp [hid, hadd] at hflat
    | ok address' =>
      obtain rfl : address = address' := by
        have hf := (requireStr_ok.mp hadd).1
        rw [address_listen] at hf
        exact Option.some.inj hf
      simp only [hid, hadd] at hflat ⊢
      cases hp : (s.prepared now (unwrapRequestEnvelope
        (listenRequest head id address))).promises.lookup
          id with
      | none =>
        simp only [hp] at hflat
        obtain rfl := Except.ok.inj hflat
        have hst' : (404 : ℕ) % 2 ^ 16 < 400 := hst
        exact absurd hst' (by decide)
      | some p =>
        simp only [hp] at hflat ⊢
        obtain rfl := Except.ok.inj hflat
        have hget : promise = p.toRecord := by
          have : some p.toRecord = some promise := hpromise
          exact (Option.some.inj this).symm
        obtain ⟨hs, hv⟩ := ofJson_toRecord (hget ▸ hrec)
        by_cases hpend : p.state = .pending
        · rw [if_pos hpend]
          refine ⟨{ p with subscribers := p.subscribers.insert address }, ?_, hs, hv, fun _ => ?_⟩
          · simp [ServerState.subscribe, hp]
          · exact List.mem_insert_self
        · rw [if_neg hpend]
          exact ⟨p, hp, hs, hv, fun h => absurd h hpend⟩

end Listen

end Network

end Resonate
