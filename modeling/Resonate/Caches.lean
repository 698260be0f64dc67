import Resonate.Backing
import Resonate.Handling

/-!
# What the caches show

The pending records in the cache of an execution, and in the answers on their way to it, are
of promises it may call pending. A spawned task that is answered from them waits for such
promises only.
-/

namespace Resonate
open Lib Lib.ForkJoin Network

namespace Effects

/-- The cached records are of their own promises, and the pending ones may be called pending. -/
def Backed (seen : Set String) (e : Effects) : Prop :=
  ∀ id r, e.cache.lookup id = some r → r.id = id ∧ (r.state = .pending → id ∈ seen)

variable {seen seen' : Set String} {e : Effects} {sender : Sender}

theorem Backed.mono (h : e.Backed seen) (hs : seen ⊆ seen') : e.Backed seen' :=
  fun id r hr => (h id r hr).imp_right fun hp hst => hs (hp hst)

theorem sender_insertMonotonic (e : Effects) (record : PromiseRecord) :
    (e.insertMonotonic record).sender = e.sender := by
  unfold Effects.insertMonotonic
  split_ifs <;> rfl

theorem Backed.insertMonotonic (h : e.Backed seen) {record : PromiseRecord}
    (hr : record.state = .pending → record.id ∈ seen) : (e.insertMonotonic record).Backed seen := by
  unfold Effects.insertMonotonic
  split_ifs
  · exact h
  · intro id r hl
    simp only [HashMap.lookup_insert_ite] at hl
    split_ifs at hl with heq
    · obtain rfl := Option.some.inj hl
      exact ⟨heq.symm, fun hst => heq ▸ hr hst⟩
    · exact h id r hl

theorem Backed.absorb (h : e.Backed seen) {records : List PromiseRecord} (hr : Known seen records) :
    (e.absorb records).Backed seen ∧ (e.absorb records).sender = e.sender := by
  unfold Effects.absorb
  induction records generalizing e with
  | nil => exact ⟨h, rfl⟩
  | cons record records ih =>
    have htail : Known seen records := fun r hmem => hr r (List.mem_cons_of_mem _ hmem)
    rw [List.foldl_cons]
    cases hd : e.codec.decodePromise record with
    | error err => exact ih h htail
    | ok decoded =>
      obtain ⟨hid, hst, -⟩ := Codec.decodePromise_ok hd
      have hins : (e.insertMonotonic decoded).Backed seen := by
        refine h.insertMonotonic fun hp => ?_
        rw [hid]
        exact hr record List.mem_cons_self (hst ▸ hp)
      rw [← sender_insertMonotonic e decoded]
      exact ih hins htail

theorem backed_new {codec : Codec} {taskId : String} {version : Int} {preload : List PromiseRecord}
    (h : Known seen preload) : (Effects.new sender codec taskId version preload).Backed seen ∧
      (Effects.new sender codec taskId version preload).sender = sender :=
  Backed.absorb (fun id r hr => by cases hr) h

end Effects

def Effects.Answers (sender : Sender) (seen : Set String) (id : String) (now : Int)
    (answer : Except Error Json) : Prop :=
  ∀ e : Effects, e.sender = sender → ∀ res, e.fenceResult now answer = .ok res →
    res.promise.id = id ∧ Known seen (res.promise :: res.preload)

theorem Effects.Backed.received {seen : Set String} {e : Effects} {id : String} {now : Int}
    {answer : Except Error Json} (h : e.Backed seen)
    (hans : Effects.Answers e.sender seen id now answer) :
    (e.received (e.fenceResult now answer)).1.Backed seen ∧
      (e.received (e.fenceResult now answer)).1.sender = e.sender ∧
      ∀ r, (e.received (e.fenceResult now answer)).2 = .ok r → r.state = .pending → id ∈ seen := by
  cases hres : e.fenceResult now answer with
  | error err => exact ⟨h, rfl, fun r hr => by cases hr⟩
  | ok res =>
    obtain ⟨hid, hknown⟩ := hans e rfl res hres
    have hpromise : res.promise.state = .pending → res.promise.id ∈ seen :=
      hknown res.promise List.mem_cons_self
    obtain ⟨habs, hsender⟩ := h.absorb fun r hmem => hknown r (List.mem_cons_of_mem _ hmem)
    unfold Effects.received
    dsimp only
    cases hd : (e.absorb res.preload).codec.decodePromise res.promise with
    | error err => exact ⟨habs, hsender, fun r hr => by cases hr⟩
    | ok decoded =>
      obtain ⟨hdid, hst, -⟩ := Codec.decodePromise_ok hd
      refine ⟨habs.insertMonotonic fun hp => ?_, ?_, fun r hr hp => ?_⟩
      · rw [hdid]
        exact hpromise (hst ▸ hp)
      · exact (Effects.sender_insertMonotonic _ decoded).trans hsender
      · obtain rfl := Except.ok.inj hr
        rw [← hid]
        exact hpromise (hst ▸ hp)

def Cmd.Durable : Cmd → Prop
  | .create .. | .settle .. => True
  | _ => False

/-- A creation that is answered pending is of a promise that may be called pending. -/
def Cmd.Answered (seen : Set String) : (c : Cmd) → c.Answer → Prop
  | .create _ _ _ req, a => ∀ r, a = .ok r → r.state = .pending → req.id ∈ seen
  | _, _ => True

/-- What is on its way to a task: the answer to a durable operation, or to a request other
than a suspension. -/
def Flight.Backed (sender : Sender) (seen : Set String) (f : Flight) : Prop :=
  match f.cmd with
  | .create _ _ _ req => Effects.Answers sender seen req.id f.sent f.answer
  | .settle _ id _ => Effects.Answers sender seen id f.sent f.answer
  | .suspend .. => False
  | _ => True

section Answers

variable {seen seen' : Set String} {sender : Sender} {f : Flight} {taskId : String} {c : Cmd}

theorem Known.mono {records : List PromiseRecord} (h : Known seen records) (hs : seen ⊆ seen') :
    Known seen' records := fun r hr hst => hs (h r hr hst)

theorem Flight.Backed.mono (h : f.Backed sender seen) (hs : seen ⊆ seen') :
    f.Backed sender seen' := by
  have hans : ∀ id, Effects.Answers sender seen id f.sent f.answer →
      Effects.Answers sender seen' id f.sent f.answer := fun id ha e he res hres =>
    (ha e he res hres).imp_right fun hk => hk.mono hs
  unfold Flight.Backed at h ⊢
  cases hc : f.cmd with
  | create kind position slot req =>
    rw [hc] at h
    exact hans _ h
  | settle position id result =>
    rw [hc] at h
    exact hans _ h
  | suspend id v actions =>
    rw [hc] at h
    exact h
  | _ => trivial

theorem Flight.Backed.reply {e : Effects} {e' : Option Effects} {a : f.cmd.Answer}
    (h : f.Backed sender seen) (he : e.Backed seen) (hs : e.sender = sender)
    (hr : f.cmd.reply sender f.sent (some e) f.answer = some (e', a)) :
    f.cmd.Answered seen a ∧ ∀ e₁, e' = some e₁ → e₁.Backed seen ∧ e₁.sender = sender := by
  obtain ⟨path, cmd, sent, answer⟩ := f
  subst hs
  cases cmd with
  | create kind position slot req =>
    obtain ⟨rfl, rfl⟩ := Prod.mk.inj (Option.some.inj hr)
    obtain ⟨hb, hsender, hpend⟩ := he.received h
    refine ⟨hpend, fun e₁ h₁ => ?_⟩
    obtain rfl := Option.some.inj h₁
    exact ⟨hb, hsender⟩
  | settle position id result =>
    obtain ⟨rfl, rfl⟩ := Prod.mk.inj (Option.some.inj hr)
    obtain ⟨hb, hsender, -⟩ := he.received h
    refine ⟨trivial, fun e₁ h₁ => ?_⟩
    obtain rfl := Option.some.inj h₁
    exact ⟨hb, hsender⟩
  | acquire id v pid ttl | fulfill id v action | suspend id v actions | release id v =>
    obtain ⟨rfl, rfl⟩ := Prod.mk.inj (Option.some.inj hr)
    refine ⟨trivial, fun e₁ h₁ => ?_⟩
    obtain rfl := Option.some.inj h₁
    exact ⟨he, rfl⟩
  | _ => cases hr

theorem Cmd.AtOnce.answered {e : Effects} {a : c.Answer} (h : c.AtOnce (some e) a)
    (he : e.Backed seen) : c.Answered seen a := by
  cases c with
  | create kind position slot req =>
    obtain ⟨e', he', hans⟩ := h
    obtain rfl := Option.some.inj he'
    intro r hr hst
    unfold Effects.createPromise at hans
    cases hl : e.cache.lookup req.id with
    | some cached =>
      rw [hl] at hans
      obtain rfl : Except.ok cached = a := Begun.answered.inj hans
      obtain rfl := Except.ok.inj hr
      exact (he req.id cached hl).2 hst
    | none =>
      simp only [hl] at hans
      cases henc : e.codec.encode req.param.dataOrNull with
      | error err =>
        simp only [henc] at hans
        obtain rfl : Except.error err = a := Begun.answered.inj hans
        cases hr
      | ok param =>
        simp only [henc] at hans
        cases hans
  | _ => trivial

theorem Cmd.answered_of_not_durable {a : c.Answer} (h : ¬ c.Durable) : c.Answered seen a := by
  cases c with
  | create kind position slot req => exact absurd trivial h
  | _ => trivial

theorem Ghost.Allows.executes {g : Ghost} (h : g.Allows taskId c) (hd : c.Durable) : g.Executes := by
  cases c with
  | create kind position slot req => exact h
  | settle position id result => exact h
  | _ => exact hd.elim

theorem Cmd.answered_univ (c : Cmd) (a : c.Answer) : c.Answered Set.univ a := by
  cases c with
  | create kind position slot req => exact fun _ _ _ => trivial
  | _ => trivial

/-- A task stays where it is with a backed answer, unless it begins an execution or
suspends. -/
theorem Ghost.after_self {g : Ghost} {a : c.Answer} (h : c.Answered g.seen a)
    (hs : ∀ id v actions, c ≠ .suspend id v actions) (he : ∀ id v preload, c ≠ .effects id v preload) :
    g.After c a g := by
  cases c with
  | create kind position slot req => exact ⟨Ghost.le_refl g, h⟩
  | suspend id v actions => exact absurd rfl (hs id v actions)
  | effects id v preload => exact absurd rfl (he id v preload)
  | _ => exact Ghost.le_refl g

end Answers

theorem Flight.backed_send {s : ServerState} (hc : Coherent s) {sender : Sender}
    {subNow : ℕ → Int} {now serverNow : Int} {effects : Option Effects} {c : Cmd} {req : Json}
    {path : List ℕ} (hr : c.request sender subNow now effects = some req)
    (he : c.Durable → ∀ e, effects = some e → e.sender = sender)
    (hs : ∀ id v actions, c ≠ .suspend id v actions) :
    Flight.Backed sender
      {id | (s.deliver (.apply serverNow (unwrapRequestEnvelope req))).isPending id = true}
      ⟨path, c, now, (s.send serverNow req).2⟩ := by
  have hfence : ∀ (e : Effects) (id : String) (action : Json), e.sender = sender →
      Effects.Acts id action → req = e.fenceRequest (subNow 0) now action →
      Effects.Answers sender
        {id | (s.deliver (.apply serverNow (unwrapRequestEnvelope req))).isPending id = true} id now
        (s.send serverNow req).2 := by
    intro e id action hsender hact hreq e' he' res hres
    have hsame : e'.fenceResult now (s.send serverNow req).2 =
        e.fenceResult now (s.send serverNow req).2 := by
      unfold Effects.fenceResult
      rw [he', hsender]
    subst hreq
    rw [hsame] at hres
    obtain ⟨⟨hshow, hid⟩, hpre⟩ := Effects.fence_shows hc hact hres
    refine ⟨hid, fun r hmem hst => ?_⟩
    rcases List.mem_cons.mp hmem with rfl | hmem
    · exact hshow.pending hst
    · exact (hpre r hmem).pending hst
  cases c with
  | create kind position slot r =>
    obtain ⟨e, action, heff, hf, hreq⟩ := Cmd.request_create hr
    exact hfence e r.id action (he trivial e heff) (Effects.createPromise_acts hf) hreq
  | settle position id result =>
    obtain ⟨e, action, heff, hf, hreq⟩ := Cmd.request_settle hr
    exact hfence e id action (he trivial e heff) (Effects.settlePromise_acts hf) hreq
  | suspend id v actions => exact (hs id v actions rfl).elim
  | _ => trivial

inductive Within (taskId : String) (seen : Set String) : Node Cmd Cmd.Answer End → Prop
  | mk (p : Prog) (kids : List (Node Cmd Cmd.Answer End))
      (hp : p.Safe (backing taskId) ⟨seen, .child, Set.univ⟩)
      (hk : ∀ n, n ∈ kids → Within taskId seen n) : Within taskId seen (.mk p kids)

namespace Within

variable {seen seen' : Set String} {taskId : String} {path : List ℕ} {c : Cmd}
variable {n n' : Node Cmd Cmd.Answer End} {l : Label Cmd Cmd.Answer}

theorem mono (h : Within taskId seen n) (hs : seen ⊆ seen') : Within taskId seen' n := by
  induction h with
  | mk p kids hp hk ih =>
    exact .mk p kids (hp.mono (backing_monotone taskId) ⟨hs, rfl, fun _ hi => hi⟩) ih

theorem callsAt (h : Within taskId seen n) (hc : CallsAt path n c) :
    Ghost.Allows taskId ⟨seen, .child, Set.univ⟩ c := by
  induction hc with
  | here c k kids =>
    cases h with
    | mk _ _ hp hk => exact hp.1
  | kid p kids i path m c hi hc ih =>
    cases h with
    | mk _ _ hp hk => exact ih (hk m (List.mem_of_getElem? hi))

theorem calls (h : Within taskId seen n) (hc : CallsAt path n c) :
    (∀ id v actions, c ≠ .suspend id v actions) ∧ ∀ id v preload, c ≠ .effects id v preload := by
  have hallow := h.callsAt hc
  refine ⟨fun id v actions heq => ?_, fun id v preload heq => ?_⟩
  · subst heq
    obtain ⟨hm | hm, -⟩ := hallow <;> cases hm
  · subst heq
    cases hallow.1

theorem result (h : Within taskId seen n) {o : End} (ho : n.result = some o) :
    ∀ id ∈ o.todos, id ∈ seen := by
  cases h with
  | mk p kids hp hk =>
    cases p with
    | ret o' =>
      obtain rfl := Option.some.inj ho
      exact hp
    | _ => cases ho

theorem stepAt (h : Within taskId seen n) (hs : StepAt path n l n')
    (hl : ∀ e ∈ l.event, e.1.Answered seen e.2) : Within taskId seen n' := by
  induction hs with
  | call c k kids a =>
    have hcalls := h.calls (.here c k kids)
    cases h with
    | mk _ _ hp hk =>
      have hans : c.Answered seen a := hl ⟨c, a⟩ (List.mem_singleton_self _)
      exact .mk _ _ (hp.2 a _ (Ghost.after_self hans hcalls.1 hcalls.2)) hk
  | fork child k kids =>
    cases h with
    | mk _ _ hp hk =>
      refine .mk _ _ (hp.2.2 _ _ ⟨Ghost.le_refl _, trivial⟩) fun n hn => ?_
      rcases List.mem_append.mp hn with hn | hn
      · exact hk n hn
      · rw [List.mem_singleton.mp hn]
        exact .mk _ _ (hp.2.1 _ ⟨fun _ hid => hid, rfl⟩) fun _ hm => by cases hm
  | join i k kids o ho =>
    cases h with
    | mk _ _ hp hk =>
      obtain ⟨m, hm, hres⟩ := Option.bind_eq_some_iff.mp ho
      have htodos := (hk m (List.mem_of_getElem? hm)).result hres
      exact .mk _ _ (hp o _ ⟨Ghost.le_refl _, fun _ => htodos⟩) hk
  | kid p kids i path m m' l hi hs ih =>
    rw [Label.event_lower] at hl
    cases h with
    | mk _ _ hp hk =>
      refine .mk _ _ hp fun n hn => ?_
      rcases List.mem_or_eq_of_mem_set hn with hn | rfl
      · exact hk n hn
      · exact ih (hk m (List.mem_of_getElem? hi)) hl

end Within

end Resonate
