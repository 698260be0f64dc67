import Resonate.Network.Replies
import Resonate.Network.RoundTrip
import Resonate.Network.Messages

/-!
# What the server shows of a promise

The records of promises that leave the server: those in the answers of the local network
and those in its unblock messages. Whatever the requests are, each of them is a record its
promise had during the step, so that the records of one promise agree over a whole run:
its creation never changes, and a settled record is the last one.
-/

namespace Resonate

/-- What a record of a promise says about every later one: it was created alike, and an
outcome stays. -/
structure PromiseRecord.Precedes (r r' : PromiseRecord) : Prop where
  param : r'.param = r.param
  tags : r'.tags = r.tags
  timeoutAt : r'.timeoutAt = r.timeoutAt
  createdAt : r'.createdAt = r.createdAt
  outcome : r.state ≠ .pending → r' = r

namespace Network
open Lib

def dataRecords (data : Json) : List Json :=
  (data.get "promise").toList ++
    (((data.get "action").bind (·.get "data")).bind (·.get "promise")).toList ++
      ((data.get "preload").bind Json.asArray).getD []

def noticeRecord (m : OutgoingMessage) : Option Json :=
  if isUnblock m then (m.message.get "data").bind (·.get "promise") else none

namespace ServerState

def answered (s : ServerState) (now : Int) (req : Json) : List Json :=
  match (s.apply now req).2 with
  | .ok flat => dataRecords (((wrapResponseEnvelope flat).get "data").getD .null)
  | .error _ => []

/-- The promise records a step shows, in its answer and in its messages. -/
def shown (s : ServerState) (op : Op) : List Json :=
  (match op with
    | .apply now req => s.answered now req
    | .tick _ => []) ++ (s.deliver op).outgoing.filterMap noticeRecord

def Grows (s s' : ServerState) : Prop :=
  ∀ a p, s.promises.lookup a = some p → ∃ q, s'.promises.lookup a = some q ∧ p.Kept q

structure Had (s s' : ServerState) (a : String) (p : DurablePromise) : Prop where
  after : ∀ p₀, s.promises.lookup a = some p₀ → p₀.Kept p
  before : ∃ q, s'.promises.lookup a = some q ∧ p.Kept q

/-- The JSON value is a record that a promise had between the two states, or null. -/
def Witnessed (s s' : ServerState) (j : Json) : Prop :=
  j = .null ∨ ∃ a p, s.Had s' a p ∧ j = p.toRecord

namespace Grows

variable {s s' s'' : ServerState} {a : String} {p : DurablePromise}

theorem refl (s : ServerState) : s.Grows s := fun _ p h => ⟨p, h, .refl p⟩

theorem trans (h : s.Grows s') (h' : s'.Grows s'') : s.Grows s'' := by
  intro a p hp
  obtain ⟨q, hq, hk⟩ := h a p hp
  obtain ⟨r, hr, hk'⟩ := h' a q hq
  exact ⟨r, hr, hk.trans hk'⟩

theorem of_performs {now : Int} {terminal : Prop} {P : Act → Prop} {E E' : Set String}
    (h : Performs now terminal P ⟨s, E⟩ ⟨s', E'⟩) : s.Grows s' := by
  intro a p hp
  refine h.invariant (I := fun L => ∃ q, L.state.promises.lookup a = some q ∧ p.Kept q)
    (fun L act hg _ hI => ?_) ⟨p, hp, .refl p⟩
  obtain ⟨q, hq, hk⟩ := hI
  obtain ⟨r, hr, hk', -⟩ := kept_after hg hq
  rw [Ledger.step, perform_promises]
  exact ⟨r, hr, hk.trans hk'⟩

theorem of_promises (h : s'.promises = s.promises) : s.Grows s' :=
  fun _ p hp => ⟨p, by rw [h, hp], .refl p⟩

theorem had_mid (h : s.Grows s') (h' : s'.Grows s'') (hp : s'.promises.lookup a = some p) :
    s.Had s'' a p where
  after p₀ h₀ := by
    obtain ⟨q, hq, hk⟩ := h a p₀ h₀
    obtain rfl := Option.some.inj (hp.symm.trans hq)
    exact hk
  before := h' a p hp

end Grows

theorem Had.mono {s₀ s s' s₁ : ServerState} {a : String} {p : DurablePromise} (h : s.Had s' a p)
    (h₀ : s₀.Grows s) (h₁ : s'.Grows s₁) : s₀.Had s₁ a p where
  after p₀ hp₀ := by
    obtain ⟨q, hq, hk⟩ := h₀ a p₀ hp₀
    exact hk.trans (h.after q hq)
  before := by
    obtain ⟨q, hq, hk⟩ := h.before
    obtain ⟨r, hr, hk'⟩ := h₁ a q hq
    exact ⟨r, hr, hk.trans hk'⟩

end ServerState

section Answers

variable {s s' s₀ s₁ : ServerState} {now : Int} {req j : Json}

theorem ServerState.Grows.witnessed {a : String} (h : s.Grows s') (hj : s'.Records a j) :
    s.Witnessed s' j := by
  obtain ⟨p, hp, rfl⟩ := hj
  exact Or.inr ⟨a, p, h.had_mid (.refl _) hp, rfl⟩

theorem reply_get (kind : ReqKind) (c : Json) (status : Int) (fields : List (String × Json))
    {key : String} (hk : key ≠ "kind") (hc : key ≠ "corrId") (hs : key ≠ "status") :
    (((wrapResponseEnvelope (.obj ([("kind", .str kind.name), ("corrId", c),
      ("status", .num status)] ++ fields))).get "data").getD .null).get key = fields.lookup key := by
  have hskip : ([("kind", .str kind.name), ("corrId", c), ("status", .num status)] ++ fields :
      List (String × Json)).lookup key = fields.lookup key := by
    simp only [List.cons_append, List.nil_append, List.lookup_cons, beq_eq_false_iff_ne.mpr hk,
      beq_eq_false_iff_ne.mpr hc, beq_eq_false_iff_ne.mpr hs]
  rw [← hskip, ← get_wrap hk hc hs]
  rfl

theorem Shape.records {kind : ReqKind} {status : ℕ} {fields : List (String × Json)}
    (h : Shape s req kind status fields)
    (hj : j ∈ (fields.lookup "promise").toList ++
      (((fields.lookup "action").bind (·.get "data")).bind (·.get "promise")).toList ++
        ((fields.lookup "preload").bind Json.asArray).getD []) :
    j = .null ∨ ∃ a, s.Records a j := by
  cases h with
  | refused hs hf =>
    obtain rfl | ⟨message, rfl⟩ := hf
    · cases hj
    · cases hj
  | promise hk hs hj' =>
    obtain rfl : j = _ := by simpa [List.lookup_cons] using hj
    exact Or.inr ⟨_, hj'⟩
  | missing hn =>
    obtain rfl : j = _ := by simpa [List.lookup_cons] using hj
    exact Or.inl rfl
  | task hk hs ht hj' hl =>
    simp [List.lookup_cons, Json.asArray] at hj
    rcases hj with rfl | hj
    · exact Or.inr ⟨_, hj'⟩
    · exact Or.inr (hl j hj)
  | fence hj' hl =>
    simp [List.lookup_cons, Json.asArray] at hj
    rcases hj with rfl | hj
    · exact hj'.elim (fun h => Or.inr ⟨_, h⟩) fun h => Or.inl h.2.2
    · exact Or.inr (hl j hj)
  | redirect hl =>
    simp [List.lookup_cons, Json.asArray] at hj
    exact Or.inr (hl j hj)
  | schedule | schedules | nothing => simp [List.lookup_cons] at hj

theorem answered_witnessed (hs : WF s) (hj : j ∈ s.answered now req) :
    s.Witnessed (s.apply now req).1 j := by
  unfold ServerState.answered at hj
  cases hr : (s.apply now req).2 with
  | error e => simp [hr] at hj
  | ok flat =>
    simp only [hr] at hj
    cases hk : ReqKind.ofName (kindOf req) with
    | none =>
      unfold ServerState.apply at hr
      simp only [hk] at hr
      cases hr
    | some kind =>
      obtain ⟨message, herr⟩ | ⟨status, fields, hrep, hshape⟩ := apply_shaped now hs hk
      · rw [hr] at herr
        cases herr
      · obtain rfl := Except.ok.inj (hr.symm.trans hrep)
        simp only [dataRecords] at hj
        rw [reply_get _ _ _ _ (by decide) (by decide) (by decide),
          reply_get _ _ _ _ (by decide) (by decide) (by decide),
          reply_get _ _ _ _ (by decide) (by decide) (by decide)] at hj
        have hgrows : s.Grows (s.apply now req).1 :=
          .of_performs (ServerState.apply_performs s now req)
        obtain rfl | ⟨a, ha⟩ := hshape.records hj
        · exact Or.inl rfl
        · exact hgrows.witnessed ha

end Answers

section Messages

variable {s s' : ServerState} {op : Op} {j : Json}

def Notified (s₀ : ServerState) (L : Ledger) : Prop :=
  s₀.Grows L.state ∧ ∀ m ∈ L.state.unblocks, ∃ a p, s₀.Had L.state a p ∧
    m.message = ServerState.unblockMessage p.toRecord

theorem Notified.step {s₀ : ServerState} {now : Int} {terminal : Prop} {L : Ledger} {act : Act}
    (hg : act.Guard now terminal L) (h : Notified s₀ L) : Notified s₀ (L.step now act) := by
  have hgrow : L.state.Grows (L.step now act).state := by
    intro a p hp
    obtain ⟨q, hq, hk, -⟩ := kept_after hg hp
    rw [Ledger.step, ServerState.perform_promises]
    exact ⟨q, hq, hk⟩
  refine ⟨h.1.trans hgrow, fun m hm => ?_⟩
  have hold : m ∈ L.state.unblocks → ∃ a p, s₀.Had (L.step now act).state a p ∧
      m.message = ServerState.unblockMessage p.toRecord := by
    intro hm
    obtain ⟨a, p, hp, hmsg⟩ := h.2 m hm
    exact ⟨a, p, hp.mono (.refl _) hgrow, hmsg⟩
  rw [Ledger.step, ServerState.perform_unblocks] at hm
  cases act with
  | clearOutgoing => cases hm
  | wake id =>
    rcases List.mem_append.mp hm with hm | hm
    · exact hold hm
    · unfold ServerState.noticesOf at hm
      cases hp : L.state.promises.lookup id with
      | none => simp [hp] at hm
      | some p =>
        rw [hp] at hm
        obtain ⟨address, -, rfl⟩ := List.mem_map.mp hm
        exact ⟨id, p, h.1.had_mid hgrow hp, rfl⟩
  | _ => exact hold hm

theorem deliver_performs (s : ServerState) (op : Op) :
    Performs op.now op.Terminal (fun _ => True) ⟨{ s with outgoing := [] }, ∅⟩ ⟨s.deliver op, ∅⟩ :=
  (exec_performs { s with outgoing := [] } op).mono fun _ _ => trivial

theorem deliver_grows (s : ServerState) (op : Op) : s.Grows (s.deliver op) :=
  have hempty : s.Grows { s with outgoing := [] } := .of_promises rfl
  hempty.trans (.of_performs (deliver_performs s op))

theorem told_witnessed (hj : j ∈ (s.deliver op).outgoing.filterMap noticeRecord) :
    s.Witnessed (s.deliver op) j := by
  have hstart : Notified s ⟨{ s with outgoing := [] }, ∅⟩ :=
    ⟨.of_promises rfl, fun m hm => by cases hm⟩
  obtain ⟨m, hm, hmj⟩ := List.mem_filterMap.mp hj
  unfold noticeRecord at hmj
  split_ifs at hmj with hu
  obtain ⟨a, p, hp, hmsg⟩ := ((deliver_performs s op).invariant
    (fun _ _ hg _ hI => hI.step hg) hstart).2 m (List.mem_filter.mpr ⟨hm, hu⟩)
  rw [hmsg] at hmj
  obtain rfl : p.toRecord = j := Option.some.inj hmj
  exact Or.inr ⟨a, p, hp, rfl⟩

/-- Every record a step shows is one its promise had during the step. -/
theorem shown_witnessed (hs : WF s) (hj : j ∈ s.shown op) : s.Witnessed (s.deliver op) j := by
  unfold ServerState.shown at hj
  rcases List.mem_append.mp hj with hj | hj
  · cases op with
    | apply now req => exact answered_witnessed hs hj
    | tick now => cases hj
  · exact told_witnessed hj

end Messages

def Keyed (s : ServerState) : Prop := ∀ a p, s.promises.lookup a = some p → p.id = a

namespace Keyed

theorem step {now : Int} {terminal : Prop} {L : Ledger} {act : Act} (h : Keyed L.state)
    (hg : act.Guard now terminal L) : Keyed (L.step now act).state := by
  intro a q hq
  rw [Ledger.step, ServerState.perform_promises] at hq
  cases hp : L.state.promises.lookup a with
  | some p =>
    obtain ⟨q', hq', hk, -⟩ := kept_after hg hp
    obtain rfl := Option.some.inj (hq.symm.trans hq')
    exact hk.id.trans (h a p hp)
  | none =>
    cases act with
    | addExpired id req | addPending id req | addFulfilled id req | addAcquired id req pid ttl =>
      simp only [ServerState.promiseAfter, hp] at hq
      split_ifs at hq with ha
      obtain rfl := Option.some.inj hq
      exact ha.symm
    | _ => simp [ServerState.promiseAfter, hp] at hq

theorem deliver {s : ServerState} (h : Keyed s) (op : Op) : Keyed (s.deliver op) :=
  (deliver_performs s op).invariant (I := fun L => Keyed L.state) (fun _ _ hg _ hI => hI.step hg) h

end Keyed

def ServerState.delivered (s : ServerState) (ops : List Op) : ServerState :=
  Machine.run ServerState.deliver s ops

theorem delivered_keyed (ops : List Op) : Keyed (ServerState.init.delivered ops) :=
  Machine.invariant (G := fun _ _ => True) (fun _ op _ h => h.deliver op) (fun _ _ h => by cases h)
    (Machine.along_of_forall fun _ _ _ => trivial)

theorem delivered_grows (s : ServerState) (ops : List Op) : s.Grows (s.delivered ops) :=
  Machine.ordered (G := fun _ _ => True) (I := fun _ => True) (R := ServerState.Grows)
    ServerState.Grows.refl (fun _ _ _ => ServerState.Grows.trans) (fun _ _ _ _ => trivial)
    (fun s op _ _ => deliver_grows s op) trivial (Machine.along_of_forall fun _ _ _ => trivial)

theorem delivered_wf (ops : List Op) : WF (ServerState.init.delivered ops) := by
  refine Machine.invariant (G := fun _ _ => True) (fun s op _ h => ?_) WF.init
    (Machine.along_of_forall fun _ _ _ => trivial)
  exact (deliver_performs s op).invariant (I := fun L => WF L.state) (fun _ _ hg _ hI => hI.step hg)
    ⟨h.promise_of_task, h.id_ne⟩

theorem DurablePromise.Kept.precedes {p q : DurablePromise} {r r' : PromiseRecord} (h : p.Kept q)
    (hr : PromiseRecord.ofJson p.toRecord = some r)
    (hr' : PromiseRecord.ofJson q.toRecord = some r') : r.Precedes r' := by
  obtain ⟨hp, rfl⟩ := promiseRecord_of_ofJson hr
  obtain ⟨hq, rfl⟩ := promiseRecord_of_ofJson hr'
  refine ⟨?_, h.tags, h.timeoutAt, h.createdAt, fun hne => ?_⟩
  · simp only [DurablePromise.record, h.param]
  · obtain ⟨hs, hv, ht⟩ := h.outcome hne
    simp only [DurablePromise.record, h.id, h.param, h.tags, h.timeoutAt, h.createdAt, hs, hv, ht]

/-- Over any run of requests and ticks, whatever the requests and the times, a record of a
promise that the server shows, in an answer or in a message, is borne out by every record
of that promise it shows in a later step. -/
theorem shown_records_agree (ops ops' : List Op) (op op' : Op) (j j' : Json)
    (r r' : PromiseRecord) (hj : j ∈ (ServerState.init.delivered ops).shown op)
    (hj' : j' ∈ (ServerState.init.delivered (ops ++ op :: ops')).shown op')
    (hr : PromiseRecord.ofJson j = some r) (hr' : PromiseRecord.ofJson j' = some r')
    (hid : r'.id = r.id) : r.Precedes r' := by
  have hstep : ServerState.init.delivered (ops ++ op :: ops') =
      ((ServerState.init.delivered ops).deliver op).delivered ops' :=
    Machine.run_append ..
  have hkeyed := delivered_keyed (ops ++ op :: ops')
  obtain rfl | ⟨a, p, hp, rfl⟩ := shown_witnessed (delivered_wf ops) hj
  · cases hr
  obtain rfl | ⟨b, p', hp', rfl⟩ := shown_witnessed (delivered_wf _) hj'
  · cases hr'
  obtain ⟨q, hq, hk⟩ := hp.before
  obtain ⟨q', hq', hk'⟩ := delivered_grows _ ops' a q hq
  rw [← hstep] at hq'
  have ha : p.id = a := by rw [← hk.id, ← hk'.id, hkeyed a q' hq']
  have hb : p'.id = b := by
    obtain ⟨q'', hq'', hk''⟩ := hp'.before
    rw [← hk''.id, (hkeyed.deliver op') b q'' hq'']
  rw [(promiseRecord_of_ofJson hr).2, (promiseRecord_of_ofJson hr').2] at hid
  obtain rfl : b = a := by rw [← hb, ← ha]; exact hid
  exact ((hk.trans hk').trans (hp'.after q' hq')).precedes hr hr'

def createdRun : List Op := [.apply 0 (.obj [("kind", .str "promise.create"), ("id", .str "a")])]

def settlementOf (n : Int) : Op :=
  .apply 1 (.obj [("kind", .str "promise.settle"), ("id", .str "a"), ("value", .num n)])

/-- The answer to a settlement, borne out by the answer to a second one. -/
theorem shown_records_agree_resolved :
    ∃ r r' : PromiseRecord, r.state = .resolved ∧ r.settledAt = some 1 ∧ r.Precedes r' := by
  have hj : (ServerState.init.delivered (createdRun ++ [settlementOf 7])).recordOf "a" ∈
      (ServerState.init.delivered createdRun).shown (settlementOf 7) := List.mem_cons_self
  have hj' : (ServerState.init.delivered (createdRun ++ [settlementOf 7])).recordOf "a" ∈
      (ServerState.init.delivered (createdRun ++ settlementOf 7 :: [])).shown (settlementOf 8) :=
    List.mem_cons_self
  exact ⟨_, _, rfl, rfl, shown_records_agree createdRun [] _ _ _ _ _ _ hj hj' rfl rfl rfl⟩

end Network

end Resonate
