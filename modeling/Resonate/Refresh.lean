import Resonate.Completions
import Resonate.Lib.Trace

/-!
# The refresh of subscriptions

A background task asks again, in rounds, for every promise whose entry has no value yet.
Messages may be lost before and during a round, creations may fail, and handles may come and
go: a handle holds nothing but the server's outcome, and one round tells every handle whose
promise was settled when it began, as long as its own request is answered.
-/

namespace Resonate
open Lib Network

/-- The instance with its refresh task: the ids of the round that are left, and the answer that
is about to be told. -/
structure Refreshing where
  session : Session
  due : List String
  answer : Option (String × PromiseRecord)

inductive Refreshing.Event where
  | session (e : Session.Event)
  | lost (i : ℕ)
  | failed (id : String)
  | round (ids : List String)
  | asked (id : String) (answer : Except Error PromiseRecord)
  | told

namespace Session

def lose (x : Session) (i : ℕ) : Session := { x with inFlight := x.inFlight.eraseIdx i }

def tell (x : Session) (id : String) (promise : PromiseRecord) : Session :=
  { x with subscriptions := told x.subscriptions id promise }

/-- A creation whose request failed gives its receiver up; its entry stays. -/
def fail (x : Session) (id : String) : Session :=
  match x.creating.lookup id with
  | some .requesting =>
    { x with subscriptions := HashMap.modify x.subscriptions id Watch.leave
             creating := x.creating.erase id }
  | _ => x

def Waits (x : Session) (id : String) : Prop :=
  ∃ tx, x.subscriptions.lookup id = some tx ∧ tx.value = none

end Session

namespace Refreshing

def start (server : ServerState) : Refreshing := ⟨.start server, [], none⟩

def Idle (x : Refreshing) : Prop := x.due = [] ∧ x.answer = none

/-- A step of the instance, of the network or of the refresh task. A request of the task is
answered, or fails and is skipped; one that fails on its way back is a step of the server
besides. -/
inductive Step (r : Endpoint) : Refreshing → Event → Refreshing → Prop
  | session (x : Refreshing) (e : Session.Event) (ht : e.Typed) (hs : x.session.Succeeds r e) :
      Step r x (.session e) { x with session := x.session.step r e }
  | lost (x : Refreshing) (i : ℕ) : Step r x (.lost i) { x with session := x.session.lose i }
  | failed (x : Refreshing) (id : String) :
      Step r x (.failed id) { x with session := x.session.fail id }
  | round (x : Refreshing) (ids : List String) (hidle : x.Idle) (hdistinct : ids.Nodup)
      (hids : ∀ id, id ∈ ids ↔ x.session.Waits id) : Step r x (.round ids) { x with due := ids }
  | asked (x : Refreshing) (id : String) (rest : List String) (sent now : Int)
      (promise : PromiseRecord) (hdue : x.due = id :: rest) (hfree : x.answer = none)
      (hanswer : x.session.listenerAnswer r id sent now = .ok promise) :
      Step r x (.asked id (.ok promise))
        ⟨x.session.serve r (.apply now (unwrapRequestEnvelope (Session.listenerRequest r id sent))),
          rest, some (id, promise)⟩
  | skipped (x : Refreshing) (id : String) (rest : List String) (err : Error)
      (hdue : x.due = id :: rest) (hfree : x.answer = none) :
      Step r x (.asked id (.error err)) { x with due := rest }
  | told (x : Refreshing) (id : String) (promise : PromiseRecord)
      (h : x.answer = some (id, promise)) :
      Step r x .told { x with session := x.session.tell id promise, answer := none }

end Refreshing

namespace Session

variable {r : Endpoint} {x : Session} {id : String} {promise : PromiseRecord} {v : PromiseResult}
  {e : Event} {op : Op} {sent now : Int}

theorem done_iff : x.done id = true ↔
    ∃ tx v, x.subscriptions.lookup id = some tx ∧ tx.value = some v := by
  unfold done holds
  cases x.subscriptions.lookup id with
  | none => simp
  | some tx =>
    rw [Option.bind_some, Option.isSome_iff_exists]
    simp

theorem done_of_entries {y : Session} (h : ∀ tx, x.subscriptions.lookup id = some tx → tx.value.isSome →
    ∃ tx', y.subscriptions.lookup id = some tx' ∧ tx'.value.isSome) (hd : x.done id = true) :
    y.done id = true := by
  obtain ⟨tx, v, htx, hv⟩ := done_iff.mp hd
  obtain ⟨tx', htx', hsome⟩ := h tx htx (Option.isSome_of_eq_some hv)
  obtain ⟨v', hv'⟩ := Option.isSome_iff_exists.mp hsome
  exact done_iff.mpr ⟨tx', v', htx', hv'⟩

theorem send_isSome {tx : Watch PromiseResult} (h : tx.value.isSome) (v : PromiseResult) :
    (tx.send v).value.isSome := by
  unfold Watch.send
  split_ifs
  · exact h
  · rfl

theorem done_create (hd : x.done id = true) (a : String) : (x.create a).done id = true := by
  refine done_of_entries (fun tx htx hv => ?_) hd
  unfold create
  cases ha : x.subscriptions.lookup a with
  | some tx' =>
    simp only [HashMap.lookup_insert_ite]
    split_ifs with h
    · obtain rfl := Option.some.inj ((h ▸ ha).symm.trans htx)
      exact ⟨_, rfl, hv⟩
    · exact ⟨tx, htx, hv⟩
  | none =>
    have hne : id ≠ a := by
      rintro rfl
      rw [ha] at htx
      cases htx
    simp only [HashMap.lookup_insert_ite, if_neg hne]
    exact ⟨tx, htx, hv⟩

theorem done_told (hd : x.done id = true) (a : String) (promise : PromiseRecord) :
    (x.tell a promise).done id = true := by
  refine done_of_entries (fun tx htx hv => ?_) hd
  simp only [tell, lookup_told]
  split_ifs with h
  · rw [← h.1, htx]
    exact ⟨_, rfl, send_isSome hv _⟩
  · exact ⟨tx, htx, hv⟩

theorem done_modify_leave {subs : Subscriptions} {a : String} {tx : Watch PromiseResult}
    (htx : subs.lookup id = some tx) (hv : tx.value.isSome) :
    ∃ tx', (HashMap.modify subs a Watch.leave).lookup id = some tx' ∧ tx'.value.isSome := by
  rw [HashMap.lookup_modify]
  split_ifs with h
  · subst h
    rw [htx]
    exact ⟨_, rfl, hv⟩
  · exact ⟨tx, htx, hv⟩

theorem done_drop (hd : x.done id = true) (a : String) : (x.drop a).done id = true := by
  by_cases ha : a ∈ x.handles
  · rw [drop_of_mem ha]
    exact done_of_entries (fun tx htx hv => done_modify_leave htx hv) hd
  · rwa [drop_of_not_mem ha]

theorem done_answer (hseat : x.Seated) (hd : x.done id = true) (a : String) :
    (x.answer a).done id = true := by
  rcases hseat.creation a with ha | ha | ⟨promise, ha⟩
  · rwa [answer_of_none ha]
  · rwa [answer_of_requesting ha]
  · rw [answer_of_ok ha]
    exact done_told hd a promise

theorem done_arrive (hd : x.done id = true) (i : ℕ) : (x.arrive i).done id = true := by
  cases hi : x.inFlight[i]? with
  | none => rwa [arrive_of_none hi]
  | some promise =>
    rw [arrive_of_some hi]
    refine done_of_entries (fun tx htx hv => ?_) hd
    simp only [lookup_unblock]
    split_ifs with h
    · refine ⟨_, rfl, ?_⟩
      rw [unblocked, ← h, htx]
      exact send_isSome hv _
    · exact ⟨tx, htx, hv⟩

theorem listen_subscriptions (a : String) :
    (x.listen r a sent now).subscriptions = x.subscriptions := by
  by_cases ha : x.creating.lookup a = some .requesting
  · rw [listen_of_requesting ha]
    rfl
  · rw [listen_of_not_requesting ha]

theorem done_step (hinv : x.Inv) (hd : x.done id = true) (e : Event) : (x.step r e).done id = true := by
  cases e with
  | create a => exact done_create hd a
  | listen a sent now =>
    exact done_of_entries (fun tx htx hv => ⟨tx, by rw [step, listen_subscriptions]; exact htx, hv⟩) hd
  | answer a => exact done_answer hinv.seated hd a
  | unblock i => exact done_arrive hd i
  | drop a => exact done_drop hd a
  | serve op => exact hd

theorem handles_step (hinv : x.Inv) (hid : id ∈ x.handles) (he : e ≠ .drop id) :
    id ∈ (x.step r e).handles := by
  cases e with
  | create a =>
    rw [step, create]
    split
    · exact List.mem_cons_of_mem _ hid
    · exact hid
  | listen a sent now =>
    rw [step]
    by_cases ha : x.creating.lookup a = some .requesting
    · rw [listen_of_requesting ha]
      exact hid
    · rwa [listen_of_not_requesting ha]
  | answer a =>
    rw [step]
    rcases hinv.seated.creation a with ha | ha | ⟨promise, ha⟩
    · rwa [answer_of_none ha]
    · rwa [answer_of_requesting ha]
    · rw [answer_of_ok ha]
      exact List.mem_cons_of_mem _ hid
  | unblock i =>
    rw [step]
    cases hi : x.inFlight[i]? with
    | none => rwa [arrive_of_none hi]
    | some promise => rwa [arrive_of_some hi]
  | drop a =>
    have hne : id ≠ a := fun heq => he (heq ▸ rfl)
    rw [step]
    by_cases ha : a ∈ x.handles
    · rw [drop_of_mem ha]
      exact (List.mem_erase_of_ne hne).mpr hid
    · rwa [drop_of_not_mem ha]
  | serve op => exact hid

theorem Outcome.step (hinv : x.Inv) (h : x.Outcome id v) (ht : e.Typed) :
    (x.step r e).Outcome id v := by
  cases e with
  | create a =>
    rw [Session.step, create]
    split <;> exact h
  | listen a sent now =>
    rw [Session.step]
    by_cases ha : x.creating.lookup a = some .requesting
    · rw [listen_of_requesting ha]
      exact Outcome.serve (r := r) hinv.sound.coherent typed_listen h
    · rwa [listen_of_not_requesting ha]
  | answer a =>
    rw [Session.step]
    rcases hinv.seated.creation a with ha | ha | ⟨promise, ha⟩
    · rwa [answer_of_none ha]
    · rwa [answer_of_requesting ha]
    · rw [answer_of_ok ha]
      exact h
  | unblock i =>
    rw [Session.step]
    cases hi : x.inFlight[i]? with
    | none => rwa [arrive_of_none hi]
    | some promise => rwa [arrive_of_some hi]
  | drop a =>
    rw [Session.step]
    by_cases ha : a ∈ x.handles
    · rwa [drop_of_mem ha]
    · rwa [drop_of_not_mem ha]
  | serve op => exact h.serve hinv.sound.coherent ht

theorem fail_of_requesting (h : x.creating.lookup id = some .requesting) :
    x.fail id = { x with subscriptions := HashMap.modify x.subscriptions id Watch.leave
                         creating := x.creating.erase id } := by
  simp [fail, h]

theorem fail_of_not_requesting (h : x.creating.lookup id ≠ some .requesting) : x.fail id = x := by
  unfold fail
  split
  · next hc => exact absurd hc h
  · rfl

theorem done_fail (hd : x.done id = true) (a : String) : (x.fail a).done id = true := by
  by_cases ha : x.creating.lookup a = some .requesting
  · rw [fail_of_requesting ha]
    exact done_of_entries (fun tx htx hv => done_modify_leave htx hv) hd
  · rwa [fail_of_not_requesting ha]

theorem Sound.lose (h : x.Sound) (i : ℕ) : (x.lose i).Sound :=
  ⟨h.coherent, fun promise hp => h.flight promise (List.mem_of_mem_eraseIdx hp), h.stored, h.answered⟩

theorem Inv.lose (h : x.Inv) (i : ℕ) : (x.lose i).Inv :=
  ⟨h.sound.lose i, ⟨h.seated.receivers, h.seated.entry, h.seated.ok⟩⟩

theorem Sound.fail (h : x.Sound) (id : String) : (x.fail id).Sound := by
  by_cases hid : x.creating.lookup id = some .requesting
  · rw [fail_of_requesting hid]
    refine ⟨h.coherent, h.flight, fun a tx v htx hv => ?_, fun a promise ha hst => ?_⟩
    · obtain ⟨tx', htx', hval, -⟩ := lookup_leave htx
      exact h.stored a tx' v htx' (hval.trans hv)
    · simp only [HashMap.lookup_erase_ite] at ha
      split_ifs at ha
      exact h.answered a promise ha hst
  · rwa [fail_of_not_requesting hid]

theorem Seated.fail (h : x.Seated) (id : String) : (x.fail id).Seated := by
  by_cases hid : x.creating.lookup id = some .requesting
  · rw [fail_of_requesting hid]
    refine ⟨fun a tx htx => ?_, fun a ha => ?_, fun a e he => ?_⟩
    · obtain ⟨tx', htx', -, hr⟩ := lookup_leave htx
      rw [hr, h.receivers a tx' htx', HashMap.lookup_erase_ite]
      by_cases ha : a = id
      · subst ha
        simp [hid]
      · simp [ha]
    · have hsome : (x.subscriptions.lookup a).isSome = true := by
        refine h.entry a (ha.imp_right fun hc => ?_)
        simp only [HashMap.lookup_erase_ite] at hc
        split_ifs at hc
        · cases hc
        · exact hc
      rw [HashMap.lookup_modify]
      split_ifs with hc
      · rw [Option.isSome_map]
        exact hsome
      · exact hsome
    · simp only [HashMap.lookup_erase_ite] at he
      split_ifs at he
      exact h.ok a e he
  · rwa [fail_of_not_requesting hid]

theorem Inv.fail (h : x.Inv) (id : String) : (x.fail id).Inv := ⟨h.sound.fail id, h.seated.fail id⟩

theorem Inv.serve (h : x.Inv) (hop : op.Typed) : (x.serve r op).Inv :=
  ⟨h.sound.serve hop, h.seated.serve op⟩

theorem Inv.tell (h : x.Inv) (hout : promise.state ≠ .pending → x.Outcome id promise.result) :
    (x.tell id promise).Inv where
  sound := by
    refine ⟨h.sound.coherent, h.sound.flight, fun a tx v htx hv => ?_, h.sound.answered⟩
    simp only [Session.tell, lookup_told] at htx
    split_ifs at htx with ha
    · obtain ⟨tx', htx', rfl⟩ := Option.map_eq_some_iff.mp htx
      rcases tx'.send_value hv with hold | rfl
      · exact ha.1 ▸ h.sound.stored id tx' v htx' hold
      · exact ha.1 ▸ hout ha.2
    · exact h.sound.stored a tx v htx hv
  seated := by
    refine ⟨fun a tx htx => ?_, fun a ha => ?_, h.seated.ok⟩
    · simp only [Session.tell, lookup_told] at htx
      split_ifs at htx with ha
      · obtain ⟨tx', htx', rfl⟩ := Option.map_eq_some_iff.mp htx
        rw [Watch.send_receivers, ha.1]
        exact h.seated.receivers id tx' htx'
      · exact h.seated.receivers a tx htx
    · simp only [Session.tell, lookup_told]
      split_ifs with hc
      · rw [Option.isSome_map, ← hc.1]
        exact h.seated.entry a ha
      · exact h.seated.entry a ha

theorem done_tell (h : x.Inv) (hid : id ∈ x.handles) (hst : promise.state ≠ .pending) :
    (x.tell id promise).done id = true := by
  obtain ⟨tx, htx⟩ := Option.isSome_iff_exists.mp (h.seated.entry id (Or.inl hid))
  have hpos : tx.receivers ≠ 0 := by
    have hcount := List.count_pos_iff.mpr hid
    rw [h.seated.receivers id tx htx]
    omega
  refine done_iff.mpr ⟨tx.send promise.result, promise.result, ?_, ?_⟩
  · simp [Session.tell, lookup_told, hst, htx]
  · simp [Watch.send, hpos]

theorem Inv.holds_outcome (h : x.Inv) {p : DurablePromise} (hd : x.done id = true)
    (hout : x.Outcome id p.outcome) : x.holds id = some p.outcome := by
  obtain ⟨tx, v, htx, hv⟩ := done_iff.mp hd
  obtain ⟨q, hq, -, hqv⟩ := h.sound.stored id tx v htx hv
  obtain ⟨q', hq', -, hpv⟩ := hout
  obtain rfl := Option.some.inj (hq.symm.trans hq')
  rw [holds, htx, Option.bind_some, hv, hpv, hqv]

end Session

namespace Refreshing

open Session (Outcome)

variable {r : Endpoint} {x y z : Refreshing} {e : Event} {id : String} {v : PromiseResult}

structure Inv (x : Refreshing) : Prop where
  session : x.session.Inv
  answer : ∀ id promise, x.answer = some (id, promise) → promise.state ≠ .pending →
    x.session.Outcome id promise.result

theorem Step.outcome (hinv : x.Inv) (hs : Step r x e y) (h : x.session.Outcome id v) :
    y.session.Outcome id v := by
  cases hs with
  | session e ht hs => exact h.step hinv.session ht
  | lost i => exact h
  | failed a =>
    simp only [Session.fail]
    split <;> exact h
  | round ids => exact h
  | asked a rest sent now promise =>
    exact Outcome.serve (r := r) hinv.session.sound.coherent typed_listen h
  | skipped a rest err => exact h
  | told a promise => exact h

theorem Inv.step (hinv : x.Inv) (hs : Step r x e y) : y.Inv := by
  have hkept : ∀ a v, x.session.Outcome a v → y.session.Outcome a v := fun _ _ => hs.outcome hinv
  cases hs with
  | session e ht hs =>
    exact ⟨hinv.session.step ht hs, fun a promise ha hst => hkept a _ (hinv.answer a promise ha hst)⟩
  | lost i => exact ⟨hinv.session.lose i, hinv.answer⟩
  | failed a =>
    exact ⟨hinv.session.fail a, fun b promise hb hst => hkept b _ (hinv.answer b promise hb hst)⟩
  | round ids => exact ⟨hinv.session, hinv.answer⟩
  | asked a rest sent now promise hdue hfree hanswer =>
    refine ⟨hinv.session.serve typed_listen, fun b promise' hb hst => ?_⟩
    obtain ⟨rfl, rfl⟩ := Prod.mk.inj (Option.some.inj hb)
    obtain ⟨-, p, hp, hstate, hv, -⟩ := listen_answered hanswer
    exact ⟨p, hp, by rwa [← hstate], by rw [PromiseRecord.result, hstate, hv]; rfl⟩
  | skipped a rest err => exact ⟨hinv.session, hinv.answer⟩
  | told a promise h =>
    exact ⟨hinv.session.tell (hinv.answer a promise h), fun b promise' hb => by cases hb⟩

theorem Inv.start {s : ServerState} (h : Coherent s) : (start s).Inv :=
  ⟨.start h, fun id promise h => by cases h⟩

theorem Inv.run {es : List Event} (hinv : x.Inv) (h : Trace (Step r) x es y) : y.Inv :=
  h.invariant (I := fun _ y => y.Inv) hinv fun _ _ _ _ _ hI hs => hI.step hs

/-- The handle has been told, or the round is about to tell it. -/
structure Heals (p : DurablePromise) (id : String) (x : Refreshing) : Prop where
  held : id ∈ x.session.handles
  outcome : x.session.Outcome id p.outcome
  told : x.session.done id = true ∨ id ∈ x.due ∨
    ∃ promise, x.answer = some (id, promise) ∧ promise.state ≠ .pending

variable {p : DurablePromise}

/-- A round begins with every id whose handle has not been told. -/
theorem Heals.round {ids : List String} (hinv : x.Inv) (hs : Step r x (.round ids) y)
    (hid : id ∈ x.session.handles) (hout : x.session.Outcome id p.outcome) : Heals p id y := by
  cases hs with
  | round _ hidle hdistinct hids =>
    refine ⟨hid, hout, ?_⟩
    obtain ⟨tx, htx⟩ := Option.isSome_iff_exists.mp (hinv.session.seated.entry id (Or.inl hid))
    cases hv : tx.value with
    | some v => exact Or.inl (Session.done_iff.mpr ⟨tx, v, htx, hv⟩)
    | none => exact Or.inr (Or.inl ((hids id).mpr ⟨tx, htx, hv⟩))

theorem Heals.step (h : Heals p id x) (hinv : x.Inv) (hs : Step r x e y)
    (hanswered : ∀ a, e = .asked id a → ∃ promise, a = .ok promise)
    (hkeep : e ≠ .session (.drop id)) : Heals p id y := by
  have hout := hs.outcome hinv h.outcome
  cases hs with
  | session e ht hs =>
    exact ⟨Session.handles_step hinv.session h.held (fun he => hkeep (congrArg Event.session he)), hout,
      h.told.imp_left fun hd => Session.done_step hinv.session hd e⟩
  | lost i => exact ⟨h.held, hout, h.told⟩
  | failed a =>
    refine ⟨?_, hout, h.told.imp_left fun hd => Session.done_fail hd a⟩
    simp only [Session.fail]
    split <;> exact h.held
  | round ids hidle hdistinct hids =>
    refine ⟨h.held, hout, h.told.imp_right fun hdue => ?_⟩
    rcases hdue with hdue | ⟨promise, hanswer, -⟩
    · rw [hidle.1] at hdue
      cases hdue
    · rw [hidle.2] at hanswer
      cases hanswer
  | asked a rest sent now promise hdue hfree hanswer =>
    refine ⟨h.held, hout, h.told.imp_right fun htell => ?_⟩
    rcases htell with hmem | ⟨promise', hanswer', -⟩
    · rw [hdue] at hmem
      rcases List.mem_cons.mp hmem with rfl | hmem
      · -- the promise is settled, and so is the record that answers
        obtain ⟨-, q, hq, hstate, -, -⟩ := listen_answered hanswer
        obtain ⟨q', hq', hst, -⟩ := hout
        obtain rfl := Option.some.inj (hq.symm.trans hq')
        exact Or.inr ⟨promise, rfl, by rwa [hstate]⟩
      · exact Or.inl hmem
    · rw [hfree] at hanswer'
      cases hanswer'
  | skipped a rest err hdue hfree =>
    refine ⟨h.held, hout, h.told.imp_right fun htell => ?_⟩
    rcases htell with hmem | ⟨promise', hanswer', -⟩
    · rw [hdue] at hmem
      rcases List.mem_cons.mp hmem with rfl | hmem
      · obtain ⟨promise, hp⟩ := hanswered _ rfl
        cases hp
      · exact Or.inl hmem
    · rw [hfree] at hanswer'
      cases hanswer'
  | told a promise hanswer =>
    refine ⟨h.held, hout, ?_⟩
    rcases h.told with hd | hdue | ⟨promise', hanswer', hst⟩
    · exact Or.inl (Session.done_told hd a promise)
    · exact Or.inr (Or.inl hdue)
    · obtain ⟨rfl, rfl⟩ := Prod.mk.inj (Option.some.inj (hanswer.symm.trans hanswer'))
      exact Or.inl (Session.done_tell hinv.session h.held hst)

theorem Heals.run {es : List Event} (h : Heals p id x) (hinv : x.Inv) (hrun : Trace (Step r) x es y)
    (hanswered : ∀ a, .asked id a ∈ es → ∃ promise, a = .ok promise)
    (hkeep : .session (.drop id) ∉ es) : Heals p id y := by
  induction hrun with
  | nil => exact h
  | snoc hrun hs ih =>
    refine (ih (fun a ha => hanswered a (List.mem_append_left _ ha))
      fun hd => hkeep (List.mem_append_left _ hd)).step (hinv.run hrun) hs (fun a ha => ?_) fun hd => ?_
    · exact hanswered a (by simp [ha])
    · exact hkeep (by simp [hd])

/-- In every run handles hold nothing but the server's outcome, and after a round every
handle of a promise that was settled when the round began is done and holds its outcome,
unless it was dropped or its own request failed. -/
theorem refresh_tells (r : Endpoint) (ops : List Op) (hops : ∀ op ∈ ops, op.Typed)
    {es es' : List Event} {ids : List String}
    (hbefore : Trace (Step r) (start (ServerState.init.run ops)) es x)
    (hround : Step r x (.round ids) y) (hafter : Trace (Step r) y es' z) :
    z.session.Faithful ∧
      (z.Idle → ∀ id ∈ x.session.handles, ∀ p, x.session.server.promises.lookup id = some p →
        p.state ≠ .pending → (∀ a, .asked id a ∈ es' → ∃ promise, a = .ok promise) →
        .session (.drop id) ∉ es' →
          z.session.done id = true ∧ z.session.holds id = some p.outcome) := by
  have hx : x.Inv := Inv.run (.start (Coherent.run hops)) hbefore
  have hy := hx.step hround
  have hz := hy.run hafter
  refine ⟨hz.session.faithful, fun hidle id hid p hp hst hanswered hkeep => ?_⟩
  have hheals := (Heals.round hx hround hid ⟨p, hp, hst, rfl⟩).run hy hafter hanswered hkeep
  have hdone : z.session.done id = true := by
    rcases hheals.told with hd | hdue | ⟨promise, hanswer, -⟩
    · exact hd
    · rw [hidle.1] at hdue
      cases hdue
    · rw [hidle.2] at hanswer
      cases hanswer
  exact ⟨hdone, hz.session.holds_outcome hdone hheals.outcome⟩

theorem trace_session {es : List Session.Event}
    (h : Machine.Along (Session.step r) (fun x e => e.Typed ∧ x.Succeeds r e) x.session es) :
    Trace (Step r) x (es.map .session)
      { x with session := Machine.run (Session.step r) x.session es } := by
  induction es generalizing x with
  | nil => exact .nil
  | cons e es ih =>
    obtain ⟨⟨ht, hs⟩, h⟩ := h
    have hstep : Trace (Step r) x [.session e] { x with session := x.session.step r e } :=
      Trace.nil.snoc (.session x e ht hs)
    exact hstep.trans (ih h)

open Session (localEndpoint createOp settleOp createOp_typed settleOp_typed)

def heldEvents : List Session.Event :=
  [.serve createOp, .create "p", .listen "p" 1 1, .answer "p", .serve settleOp]

def afterLoss : Refreshing where
  session := (Machine.run (Session.step localEndpoint) (.start ServerState.init) heldEvents).lose 0
  due := []
  answer := none

/-- The next round tells the handle. -/
theorem refresh_tells_lost : ∃ es z, Trace (Step localEndpoint) (start ServerState.init) es z ∧
    .lost 0 ∈ es ∧ z.session.inFlight = [] ∧ z.session.done "p" = true := by
  have halong : Machine.Along (Session.step localEndpoint)
      (fun x e => e.Typed ∧ x.Succeeds localEndpoint e) (.start ServerState.init) heldEvents :=
    ⟨⟨createOp_typed, trivial⟩, ⟨trivial, trivial⟩, ⟨trivial, fun _ => ⟨_, rfl⟩⟩,
      ⟨trivial, trivial⟩, ⟨settleOp_typed, trivial⟩, trivial⟩
  have hbefore : Trace (Step localEndpoint) (start ServerState.init)
      (heldEvents.map .session ++ [.lost 0]) afterLoss := (trace_session halong).snoc (.lost _ 0)
  have hentry : afterLoss.session.subscriptions = (∅ : Subscriptions).insert "p" ⟨none, 1⟩ := rfl
  have hround : Step localEndpoint afterLoss (.round ["p"]) { afterLoss with due := ["p"] } := by
    refine .round _ ["p"] ⟨rfl, rfl⟩ (List.nodup_singleton _) fun id => ?_
    rw [List.mem_singleton, Session.Waits, hentry, HashMap.lookup_insert_ite]
    split_ifs with hid
    · exact ⟨fun _ => ⟨_, rfl, rfl⟩, fun _ => hid⟩
    · simp [hid]
  have hasked := Trace.nil.snoc (Step.asked { afterLoss with due := ["p"] } (r := localEndpoint)
    "p" [] 3 3 _ rfl rfl rfl)
  have hafter := hasked.snoc (.told _ "p" _ rfl)
  have htold := (refresh_tells localEndpoint [] (by simp) hbefore hround hafter).2 ⟨rfl, rfl⟩ "p"
    (by decide) _ rfl (by decide) (fun a ha => ?_) (by simp)
  · exact ⟨_, _, (hbefore.snoc hround).trans hafter, by simp, rfl, htold.1⟩
  · rcases List.mem_cons.mp ha with ha | ha
    · exact ⟨_, (Event.asked.inj ha).2⟩
    · cases List.mem_singleton.mp ha

end Refreshing

end Resonate
