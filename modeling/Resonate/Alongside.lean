import Resonate.Undisturbed
import Resonate.Executions
import Resonate.Lib.Simulation

/-!
# Executions alongside each other

Two executions of one workflow under one lease, with caches of their own. A cached record
spares the one a request that the other sends, and does nothing else: each step of the one is
matched by steps of the other that show the same answers.
-/

namespace Resonate
open Lib Lib.ForkJoin Lib.Simulation Network

section Server

variable {s s' : ServerState}

def Network.ServerState.SameRecords (s s' : ServerState) : Prop :=
  s' = { s with outgoing := s'.outgoing }

namespace Network.ServerState.SameRecords

theorem refl (s : ServerState) : s.SameRecords s := rfl

theorem trans {s'' : ServerState} (h : s.SameRecords s') (h' : s'.SameRecords s'') :
    s.SameRecords s'' := by
  unfold SameRecords at *
  rw [h', h]

theorem symm (h : s.SameRecords s') : s'.SameRecords s := by
  unfold SameRecords at *
  rw [h]

theorem view (h : s.SameRecords s') (a : String) : s'.view a = s.view a := by rw [h]; rfl

theorem calm (h : s.SameRecords s') {now : Int} (hc : s.Calm now) : s'.Calm now := by
  rw [h]
  exact hc

theorem deliver (h : s.SameRecords s') (op : Op) : s'.deliver op = s.deliver op := by
  rw [h]
  rfl

theorem send (h : s.SameRecords s') (now : Int) (req : Json) :
    (s'.send now req).2 = (s.send now req).2 := by
  rw [h]
  rfl

end Network.ServerState.SameRecords

end Server

namespace Effects

variable {e e' : Effects} {id : String}

theorem createPromise_congr (hcodec : e'.codec = e.codec) {req : PromiseCreateReq}
    (h : e.cache.lookup req.id = none) (h' : e'.cache.lookup req.id = none) :
    e'.createPromise req = e.createPromise req := by
  simp only [createPromise, h, h', hcodec]

theorem createPromise_fresh {req : PromiseCreateReq} {action : Json}
    (h : e.createPromise req = .fence action) : e.cache.lookup req.id = none := by
  unfold createPromise at h
  cases hl : e.cache.lookup req.id with
  | none => rfl
  | some cached => simp [hl] at h

theorem settlePromise_congr (hcodec : e'.codec = e.codec) {result : Except Error (Except String Json)}
    (h : ∀ r, e.cache.lookup id = some r → r.state = .pending)
    (h' : ∀ r, e'.cache.lookup id = some r → r.state = .pending) :
    e'.settlePromise id result = e.settlePromise id result := by
  have hnone : ∀ e : Effects, (∀ r, e.cache.lookup id = some r → r.state = .pending) →
      (e.cache.lookup id).filter (fun r => decide (r.state ≠ .pending)) = none := by
    intro e he
    cases hl : e.cache.lookup id with
    | none => rfl
    | some r => simp [Option.filter, he r hl]
  simp only [settlePromise, hnone e h, hnone e' h', hcodec]

theorem received_congr (hcodec : e'.codec = e.codec) (result : Except Error TaskFenceResult) :
    (e'.received result).2 = (e.received result).2 := by
  have hdecode : ∀ (e : Effects) (res : TaskFenceResult),
      (e.received (.ok res)).2 = e.codec.decodePromise res.promise := by
    intro e res
    unfold received
    dsimp only
    rw [absorb_eq e]
    dsimp only
    cases e.codec.decodePromise res.promise <;> rfl
  cases result with
  | error err => rfl
  | ok res => rw [hdecode, hdecode, hcodec]

end Effects

theorem Cmd.reply_congr {c : Cmd} {id : String} {sender : Sender} {now : Int} {e e' : Effects}
    {answer : Except Error Json} {e₁ : Option Effects} {a : c.Answer} (ht : c.target = some id)
    (hsender : e'.sender = e.sender) (hcodec : e'.codec = e.codec)
    (hr : c.reply sender now (some e) answer = some (e₁, a)) :
    ∃ e₂, c.reply sender now (some e') answer = some (e₂, a) := by
  have hresult : e'.fenceResult now answer = e.fenceResult now answer := by
    rw [Effects.fenceResult, Effects.fenceResult, hsender]
  have hsame : (e'.received (e'.fenceResult now answer)).2 =
      (e.received (e.fenceResult now answer)).2 := by
    rw [hresult, Effects.received_congr hcodec]
  cases c with
  | create kind position slot req | settle position id result =>
    obtain ⟨-, rfl⟩ := Prod.mk.inj (Option.some.inj hr)
    exact ⟨_, congrArg (fun a => some (some _, a)) hsame⟩
  | _ => cases ht

namespace Handling

def Did.results : Did → List (List ℕ × Event)
  | .answered _ ⟨.effects .., _⟩ => []
  | .answered path e => [(path, e)]
  | _ => []

def Did.Within (During : Set Int) : Did → Prop
  | .sent f op => f.cmd.Durable ∧ op.now ∈ During
  | _ => True

/-- A step while nobody else changes the server and no promise falls due. -/
def Undisturbed (During : Set Int) (a : ServerState × Handling) (did : Did)
    (b : ServerState × Handling) : Prop :=
  (∀ now ∈ During, a.1.Calm now) ∧ did.Within During ∧ Step a.1 a.2 did b.1 b.2

namespace Undisturbed

variable {During : Set Int} {s s' : ServerState} {x x' : Handling} {f : Flight} {op : Op}
  {path : List ℕ} {e : Event}

theorem sent (hcalm : ∀ now ∈ During, s.Calm now) (hs : Step s x (.sent f op) s' x')
    (hd : f.cmd.Durable) (hnow : op.now ∈ During) :
    Undisturbed During (s, x) (.sent f op) (s', x') :=
  ⟨hcalm, ⟨hd, hnow⟩, hs⟩

theorem answered (hcalm : ∀ now ∈ During, s.Calm now) (hs : Step s x (.answered path e) s' x') :
    Undisturbed During (s, x) (.answered path e) (s', x') :=
  ⟨hcalm, trivial, hs⟩

theorem silent (hcalm : ∀ now ∈ During, s.Calm now) (hs : Step s x .silent s' x') :
    Undisturbed During (s, x) .silent (s', x') :=
  ⟨hcalm, trivial, hs⟩

end Undisturbed

def Encodes (s : ServerState) (x : Handling) : Prop :=
  ∀ path kind position slot req, CallsAt path x.node (.create kind position slot req) →
    (s.promises.lookup req.id).isSome →
    ∃ value, x.core.sdk.codec.encode req.param.dataOrNull = .ok value

namespace Recalling

variable {root : String} {version : Int} {S : Tokens} {s : ServerState} {x : Handling} {path : List ℕ}
  {kind : CallKind} {p : Position} {slot : Slot} {req : PromiseCreateReq} {id : String}
  {result : Except Error (Except String Json)} {cache : HashMap PromiseRecord}

theorem cached_create (h : x.Recalling root version S s)
    (hc : CallsAt path x.node (.create kind p slot req))
    (hrec : (x.operations root version cache).Recalls (Fresh root S x.flights) s) {r : PromiseRecord}
    (hl : cache.lookup req.id = some r) : x.core.sdk.codec.reads s req.id = .ok r :=
  hrec req.id r hl (h.fresh_create hc).2

theorem cached_settle (h : x.Recalling root version S s)
    (hc : CallsAt path x.node (.settle p id result)) (hf : ∀ f ∈ x.flights, f.path ≠ path)
    (hrec : (x.operations root version cache).Recalls (Fresh root S x.flights) s) {r : PromiseRecord}
    (hl : cache.lookup id = some r) : r.state = .pending := by
  obtain ⟨-, -, hfresh, hpending⟩ := h.fresh_settle hc hf
  exact (Codec.reads_pending h.coherent (hrec id r hl hfresh)).mpr hpending

end Recalling

/-- Two executions with caches of their own, of which the one waits for answers to creations
that the other does not need. -/
structure Alongside (root : String) (version : Int) (S : Tokens) (s : ServerState) (x : Handling)
    (t : ServerState) (y : Handling) : Prop where
  server : s.SameRecords t
  core : y.core = x.core
  sender : y.sender = x.sender
  node : y.node = x.node
  one : x.Recalling root version S s
  other : y.Recalling root version S t
  flights : ∀ f ∈ y.flights, f ∈ x.flights
  spared : ∀ f ∈ x.flights, f ∈ y.flights ∨
    ∃ kind position slot req, f.cmd = .create kind position slot req

namespace Alongside

variable {root : String} {version : Int} {S : Tokens} {s t : ServerState} {x y : Handling}
  {During : Set Int} {path : List ℕ} {c : Cmd} {subNow : ℕ → Int} {now serverNow : Int} {req : Json}
  {cache cache' : HashMap PromiseRecord} {kind : CallKind} {p : Position} {slot : Slot}
  {r : PromiseCreateReq} {l : Label Cmd Cmd.Answer} {n : Node Cmd Cmd.Answer End}

theorem operations (h : Alongside root version S s x t y) (cache : HashMap PromiseRecord) :
    y.operations root version cache = x.operations root version cache := by
  rw [Handling.operations, Handling.operations, h.sender, h.core]

theorem calm (h : Alongside root version S s x t y) (hcalm : ∀ now ∈ During, s.Calm now) :
    ∀ now ∈ During, t.Calm now := fun now hnow => h.server.calm (hcalm now hnow)

theorem send_both (h : Alongside root version S s x t y)
    (hcalm : ∀ now ∈ During, s.Calm now) (hc : CallsAt path x.node c) (hd : c.Durable)
    (hnow : serverNow ∈ During) (hf : ∀ f ∈ x.flights, f.path ≠ path)
    (hr : c.request y.sender subNow now (effectsAt path y.effects) = some req)
    (hone : ({ x with flights := ⟨path, c, now, (s.send serverNow req).2⟩ :: x.flights } :
      Handling).Recalling root version S (s.deliver (.apply serverNow (unwrapRequestEnvelope req))))
    (hother : ({ y with flights := ⟨path, c, now, (t.send serverNow req).2⟩ :: y.flights } :
      Handling).Recalling root version S (t.deliver (.apply serverNow (unwrapRequestEnvelope req)))) :
    ∃ t' y', Undisturbed During (t, y) (.sent ⟨path, c, now, (s.send serverNow req).2⟩
        (.apply serverNow (unwrapRequestEnvelope req))) (t', y') ∧
      Alongside root version S (s.deliver (.apply serverNow (unwrapRequestEnvelope req)))
        { x with flights := ⟨path, c, now, (s.send serverNow req).2⟩ :: x.flights } t' y' := by
  have hstep := Step.send t y path c subNow now serverNow req (h.node ▸ hc)
    (fun f hmem => hf f (h.flights f hmem)) hr
  rw [h.server.send, h.server.deliver] at hstep hother
  refine ⟨_, _, .sent (h.calm hcalm) hstep hd hnow, .refl _, h.core, h.sender, h.node, hone, hother,
    fun f hmem => ?_, fun f hmem => ?_⟩
  · rcases List.mem_cons.mp hmem with rfl | hmem
    · exact List.mem_cons_self
    · exact List.mem_cons_of_mem _ (h.flights f hmem)
  · rcases List.mem_cons.mp hmem with rfl | hmem
    · exact Or.inl List.mem_cons_self
    · exact (h.spared f hmem).imp_left (List.mem_cons_of_mem _)

/-- The one sends a request: the other sends it too, unless the one asks for a promise that
exists. -/
theorem send (h : Alongside root version S s x t y)
    (hv : Json.i64Min ≤ version ∧ version ≤ Json.i64Max) (hcalm : ∀ now ∈ During, s.Calm now)
    (hc : CallsAt path x.node c) (hd : c.Durable) (hnow : serverNow ∈ During)
    (hf : ∀ f ∈ x.flights, f.path ≠ path)
    (hr : c.request x.sender subNow now (effectsAt path x.effects) = some req) :
    ∃ dids t' y', Runs (Undisturbed During) (t, y) dids (t', y') ∧ dids.flatMap Did.results = [] ∧
      Alongside root version S (s.deliver (.apply serverNow (unwrapRequestEnvelope req)))
        { x with flights := ⟨path, c, now, (s.send serverNow req).2⟩ :: x.flights } t' y' := by
  obtain ⟨cache, heff, hrec⟩ := h.one.cache
  obtain ⟨cache', heff', hrec'⟩ := h.other.cache
  have hc' : CallsAt path y.node c := h.node ▸ hc
  have hf' : ∀ f ∈ y.flights, f.path ≠ path := fun f hmem => hf f (h.flights f hmem)
  cases c with
  | create kind p slot r =>
    obtain ⟨e, action, he, hfence, rfl⟩ := Cmd.request_create hr
    rw [heff, effectsAt_single] at he
    obtain rfl := Option.some.inj he
    obtain ⟨hone, hsame⟩ := h.one.send_create hv subNow now (hcalm _ hnow) hc hf hfence
    by_cases hex : (s.view r.id).isSome
    · refine ⟨[], t, y, .nil _, rfl, ?_, h.core, h.sender, h.node, hone, h.other,
        fun f hmem => List.mem_cons_of_mem _ (h.flights f hmem), fun f hmem => ?_⟩
      · have hdeliver : s.SameRecords (s.deliver (.apply serverNow (unwrapRequestEnvelope
            ((x.operations root version cache).fenceRequest (subNow 0) now action)))) := by
          rw [hsame hex]
          rfl
        exact hdeliver.symm.trans h.server
      · rcases List.mem_cons.mp hmem with rfl | hmem
        · exact Or.inr ⟨kind, p, slot, r, rfl⟩
        · exact h.spared f hmem
    · have hmiss : cache'.lookup r.id = none := by
        cases hl : cache'.lookup r.id with
        | none => rfl
        | some cached =>
          have hread := h.other.cached_create hc' hrec' hl
          have hsome := Codec.view_of_reads hread
          rw [h.server.view] at hsome
          exact absurd hsome hex
      have hfence' : (y.operations root version cache').createPromise r = .fence action := by
        rw [← hfence]
        refine Effects.createPromise_congr ?_ (Effects.createPromise_fresh hfence) hmiss
        exact congrArg (fun core => core.sdk.codec) h.core
      have hother := (h.other.send_create hv subNow now (h.calm hcalm _ hnow) hc' hf' hfence').1
      have hr' : (Cmd.create kind p slot r).request y.sender subNow now (effectsAt path y.effects) =
          some ((x.operations root version cache).fenceRequest (subNow 0) now action) := by
        rw [heff', effectsAt_single, Cmd.request, Option.bind_some, hfence']
        rw [h.operations]
        rfl
      rw [h.operations] at hother
      obtain ⟨t', y', hstep, hafter⟩ := h.send_both hcalm hc hd hnow hf hr' hone hother
      exact ⟨_, t', y', .single hstep, rfl, hafter⟩
  | settle p id result =>
    obtain ⟨e, action, he, hfence, rfl⟩ := Cmd.request_settle hr
    rw [heff, effectsAt_single] at he
    obtain rfl := Option.some.inj he
    have hone := h.one.send_settle hv subNow now (hcalm _ hnow) hc hf hfence
    have hfence' : (y.operations root version cache').settlePromise id result = .fence action := by
      rw [← hfence]
      refine Effects.settlePromise_congr ?_ (fun r hl => ?_) fun r hl => ?_
      · exact congrArg (fun core => core.sdk.codec) h.core
      · exact h.one.cached_settle hc hf hrec hl
      · exact h.other.cached_settle hc' hf' hrec' hl
    have hother := h.other.send_settle hv subNow now (h.calm hcalm _ hnow) hc' hf' hfence'
    have hr' : (Cmd.settle p id result).request y.sender subNow now (effectsAt path y.effects) =
        some ((x.operations root version cache).fenceRequest (subNow 0) now action) := by
      rw [heff', effectsAt_single, Cmd.request, Option.bind_some, hfence']
      rw [h.operations]
      rfl
    rw [h.operations] at hother
    obtain ⟨t', y', hstep, hafter⟩ := h.send_both hcalm hc hd hnow hf hr' hone hother
    exact ⟨_, t', y', .single hstep, rfl, hafter⟩
  | _ => exact hd.elim

/-- The other comes to the answer of a creation by itself: from its cache, or by a request that
changes nothing. -/
theorem answers_create (h : Alongside root version S s x t y)
    (hv : Json.i64Min ≤ version ∧ version ≤ Json.i64Max) (hcalm : ∀ now ∈ During, s.Calm now)
    (hnow : now ∈ During) (hf : ∀ f ∈ y.flights, f.path ≠ path) (hs : StepAt path x.node l n)
    (hl : l.event = [⟨.create kind p slot r, x.core.sdk.codec.reads s r.id⟩])
    (henc : ∃ value, x.core.sdk.codec.encode r.param.dataOrNull = .ok value)
    (hsome : (s.view r.id).isSome) :
    ∃ dids t' y', Runs (Undisturbed During) (t, y) dids (t', y') ∧
      dids.flatMap Did.results = [(path, ⟨.create kind p slot r, x.core.sdk.codec.reads s r.id⟩)] ∧
      t.SameRecords t' ∧ y'.core = y.core ∧ y'.sender = y.sender ∧ y'.node = n ∧
      y'.flights = y.flights ∧ y'.Recalling root version ((usage true).afterAll S l.event) t' := by
  obtain ⟨cache, heff, hrec⟩ := h.other.cache
  have hstep : StepAt path y.node l n := h.node ▸ hs
  have hc : CallsAt path y.node (.create kind p slot r) :=
    hstep.callsAt (by rw [hl]; exact List.mem_singleton_self _)
  have hcodec : y.core.sdk.codec = x.core.sdk.codec := congrArg (fun core => core.sdk.codec) h.core
  have hreads : y.core.sdk.codec.reads t r.id = x.core.sdk.codec.reads s r.id := by
    rw [hcodec, Codec.reads_congr (h.server.view r.id)]
  cases hlookup : cache.lookup r.id with
  | some cached =>
    have hcached : x.core.sdk.codec.reads s r.id = .ok cached :=
      hreads.symm.trans (h.other.cached_create hc hrec hlookup)
    have ha : Cmd.AtOnce (effectsAt path y.effects) (.create kind p slot r)
        (x.core.sdk.codec.reads s r.id) := by
      refine ⟨y.operations root version cache, by rw [heff, effectsAt_single], ?_⟩
      simp only [Effects.createPromise, hlookup, hcached]
    exact ⟨_, t, _, .single (.answered (h.calm hcalm) (.atOnce t y path _ _ l n hf hstep hl ha)), rfl,
      .refl t, rfl, rfl, rfl, rfl, h.other.atOnce hf hstep hl ha⟩
  | none =>
    obtain ⟨value, henc⟩ := henc
    obtain ⟨action, hfence⟩ : ∃ action,
        (y.operations root version cache).createPromise r = .fence action := by
      simp only [Effects.createPromise, hlookup, hcodec, henc]
      exact ⟨_, rfl⟩
    obtain ⟨hsent, hsame⟩ :=
      h.other.send_create hv (fun _ => 0) 0 (h.calm hcalm now hnow) hc hf hfence
    have hsame := hsame ((h.server.view r.id).symm ▸ hsome)
    have hrequest : (Cmd.create kind p slot r).request y.sender (fun _ => 0) 0
        (effectsAt path y.effects) =
          some ((y.operations root version cache).fenceRequest 0 0 action) := by
      simp only [heff, effectsAt_single, Cmd.request, Option.bind_some, hfence]
    have hsend := Step.send t y path (.create kind p slot r) (fun _ => 0) 0 now _ hc hf hrequest
    rw [hsame] at hsend hsent
    generalize (t.send now ((y.operations root version cache).fenceRequest 0 0 action)).2 = answer
      at hsend hsent
    have hmem : (⟨path, .create kind p slot r, 0, answer⟩ : Flight) ∈
        (⟨path, .create kind p slot r, 0, answer⟩ :: y.flights : List Flight) := List.mem_cons_self
    obtain ⟨e, hreply⟩ := hsent.reply_create hmem
    have hreads' : y.core.sdk.codec.reads { t with outgoing := [] } r.id =
        x.core.sdk.codec.reads s r.id := hreads
    rw [hreads'] at hreply
    have hreceive := Step.receive { t with outgoing := [] }
      { y with flights := ⟨path, .create kind p slot r, 0, answer⟩ :: y.flights }
      ⟨path, .create kind p slot r, 0, answer⟩ _ e l n hmem hstep hl hreply
    have hflights : (List.filter (fun g : Flight => g.path ≠ path) y.flights) = y.flights :=
      List.filter_eq_self.mpr fun g hg => by simpa using hf g hg
    have hcalm' : ∀ now ∈ During, ({ t with outgoing := [] } : ServerState).Calm now :=
      h.calm hcalm
    have hsent' := Undisturbed.sent (h.calm hcalm) hsend trivial hnow
    refine ⟨_, _, _, .cons hsent' (.single (.answered hcalm' hreceive)), rfl, rfl, rfl, rfl, rfl, ?_,
      hsent.receive hmem hstep hl hreply⟩
    simpa using hflights

theorem goes_on (h : Alongside root version S s x t y) (path : List ℕ) {S' : Tokens}
    {t' : ServerState} {x' y' : Handling} (hserver : t.SameRecords t')
    (hone : x'.Recalling root version S' s) (hother : y'.Recalling root version S' t')
    (hx : x'.core = x.core ∧ x'.sender = x.sender ∧ x'.node = n)
    (hy : y'.core = y.core ∧ y'.sender = y.sender ∧ y'.node = n)
    (hxf : ∀ f, f ∈ x'.flights ↔ f ∈ x.flights ∧ f.path ≠ path)
    (hyf : ∀ f, f ∈ y'.flights ↔ f ∈ y.flights ∧ f.path ≠ path) :
    Alongside root version S' s x' t' y' where
  server := h.server.trans hserver
  core := (hy.1.trans h.core).trans hx.1.symm
  sender := (hy.2.1.trans h.sender).trans hx.2.1.symm
  node := hy.2.2.trans hx.2.2.symm
  one := hone
  other := hother
  flights f hf := (hxf f).mpr ⟨h.flights f ((hyf f).mp hf).1, ((hyf f).mp hf).2⟩
  spared f hf := (h.spared f ((hxf f).mp hf).1).imp_left fun hmem =>
    (hyf f).mpr ⟨hmem, ((hxf f).mp hf).2⟩

theorem receive (h : Alongside root version S s x t y)
    (hv : Json.i64Min ≤ version ∧ version ≤ Json.i64Max) (hcalm : ∀ now ∈ During, s.Calm now)
    (hnow : now ∈ During) (henc : Encodes s x) {f : Flight} (hf : f ∈ x.flights)
    {a : f.cmd.Answer} {e : Option Effects} (hs : StepAt f.path x.node l n)
    (hl : l.event = [⟨f.cmd, a⟩])
    (hr : f.cmd.reply x.sender f.sent (effectsAt f.path x.effects) f.answer = some (e, a)) :
    ∃ dids t' y', Runs (Undisturbed During) (t, y) dids (t', y') ∧
      dids.flatMap Did.results = (Did.answered f.path ⟨f.cmd, a⟩).results ∧
      Alongside root version ((usage true).afterAll S l.event) s
        ⟨x.core, x.sender, n, x.told f.path e, x.flights.filter fun g => g.path ≠ f.path⟩ t' y' := by
  have hone := h.one.receive hf hs hl hr
  by_cases hmem : f ∈ y.flights
  · obtain ⟨e', hr'⟩ : ∃ e', f.cmd.reply y.sender f.sent (effectsAt f.path y.effects) f.answer =
        some (e', a) := by
      obtain ⟨cache, heff, -⟩ := h.one.cache
      obtain ⟨cache', heff', -⟩ := h.other.cache
      obtain ⟨id, promise, preload, htarget, -⟩ := h.one.tells f hf
      rw [heff, effectsAt_single] at hr
      have hsame : (x.operations root version cache').sender =
            (x.operations root version cache).sender ∧
          (x.operations root version cache').codec = (x.operations root version cache).codec :=
        ⟨rfl, rfl⟩
      rw [heff', effectsAt_single, h.sender, h.operations]
      exact Cmd.reply_congr htarget hsame.1 hsame.2 hr
    have hs' : StepAt f.path y.node l n := h.node ▸ hs
    have hother := h.other.receive hmem hs' hl hr'
    exact ⟨_, t, _, .single (.answered (h.calm hcalm) (.receive t y f a e' l n hmem hs' hl hr')),
      by simp, h.goes_on f.path (.refl t) hone hother ⟨rfl, rfl, rfl⟩ ⟨rfl, rfl, rfl⟩ (by simp)
        (by simp)⟩
  · obtain ⟨kind, p, slot, r, hcmd⟩ := (h.spared f hf).resolve_left hmem
    have hpath : ∀ g ∈ y.flights, g.path ≠ f.path := fun g hg heq =>
      hmem (h.one.apart g (h.flights g hg) f hf heq ▸ hg)
    have hc := h.one.calls f hf
    obtain ⟨path, c, sent, answer⟩ := f
    obtain rfl : c = _ := hcmd
    obtain ⟨id, promise, preload, htarget, ht⟩ := h.one.tells _ hf
    obtain rfl : r.id = id := Option.some.inj htarget
    obtain ⟨e', hread⟩ := h.one.reply_create hf
    obtain rfl : x.core.sdk.codec.reads s r.id = a :=
      (Prod.mk.inj (Option.some.inj (hread.symm.trans hr))).2
    have hsome := (ht.current (h.one.fresh_create hc).2).1
    obtain ⟨dids, t', y', hrun, hres, hserver, hcore, hsender, hnode, hflights, hother⟩ :=
      h.answers_create hv hcalm hnow hpath hs hl
        (henc path kind p slot r hc (ServerState.view_isSome ▸ hsome)) hsome
    refine ⟨dids, t', y', hrun, hres, h.goes_on path hserver hone hother ⟨rfl, rfl, rfl⟩
      ⟨hcore, hsender, hnode⟩ (by simp) fun g => ?_⟩
    rw [hflights]
    exact ⟨fun hg => ⟨hg, hpath g hg⟩, fun hg => hg.1⟩

theorem atOnce (h : Alongside root version S s x t y)
    (hv : Json.i64Min ≤ version ∧ version ≤ Json.i64Max) (hcalm : ∀ now ∈ During, s.Calm now)
    (hnow : now ∈ During) (henc : Encodes s x) (hf : ∀ f ∈ x.flights, f.path ≠ path)
    {a : c.Answer} (hs : StepAt path x.node l n) (hl : l.event = [⟨c, a⟩])
    (ha : c.AtOnce (effectsAt path x.effects) a) :
    ∃ dids t' y', Runs (Undisturbed During) (t, y) dids (t', y') ∧
      dids.flatMap Did.results = (Did.answered path ⟨c, a⟩).results ∧
      Alongside root version ((usage true).afterAll S l.event) s
        ⟨x.core, x.sender, n, x.opened c, x.flights⟩ t' y' := by
  have hone := h.one.atOnce hf hs hl ha
  have hf' : ∀ f ∈ y.flights, f.path ≠ path := fun f hmem => hf f (h.flights f hmem)
  have hs' : StepAt path y.node l n := h.node ▸ hs
  have hsame : ∀ (z : Handling) (effects : List (ℕ × Effects)), (∀ f ∈ z.flights, f.path ≠ path) →
      ∀ f, f ∈ (⟨z.core, z.sender, n, effects, z.flights⟩ : Handling).flights ↔
        f ∈ z.flights ∧ f.path ≠ path :=
    fun z effects hz f => ⟨fun hmem => ⟨hmem, hz f hmem⟩, fun hmem => hmem.1⟩
  -- the other answers it at once too
  have both : c.AtOnce (effectsAt path y.effects) a →
      ∃ dids t' y', Runs (Undisturbed During) (t, y) dids (t', y') ∧
        dids.flatMap Did.results = (Did.answered path ⟨c, a⟩).results ∧
        Alongside root version ((usage true).afterAll S l.event) s
          ⟨x.core, x.sender, n, x.opened c, x.flights⟩ t' y' := by
    intro ha'
    exact ⟨_, t, _, .single (.answered (h.calm hcalm) (.atOnce t y path c a l n hf' hs' hl ha')),
      by simp, h.goes_on path (.refl t) hone (h.other.atOnce hf' hs' hl ha') ⟨rfl, rfl, rfl⟩
        ⟨rfl, rfl, rfl⟩ (hsame x _ hf) (hsame y _ hf')⟩
  have hc : CallsAt path x.node c := hs.callsAt (by rw [hl]; exact List.mem_singleton_self _)
  obtain ⟨cache, heff, hrec⟩ := h.one.cache
  obtain ⟨cache', heff', hrec'⟩ := h.other.cache
  have hcodec : (x.operations root version cache').codec =
    (x.operations root version cache).codec := rfl
  have hc' : CallsAt path y.node c := h.node ▸ hc
  cases c with
  | create kind p slot r =>
    rw [heff, effectsAt_single] at ha
    obtain ⟨e, he, hans⟩ := ha
    obtain rfl := Option.some.inj he
    cases hlookup : cache.lookup r.id with
    | some cached =>
      have hread := h.one.cached_create hc hrec hlookup
      have hsome := Codec.view_of_reads hread
      obtain rfl : x.core.sdk.codec.reads s r.id = a := by
        simp only [Effects.createPromise, hlookup] at hans
        exact hread.trans (Begun.answered.inj hans)
      obtain ⟨dids, t', y', hrun, hres, hserver, hcore, hsender, hnode, hflights, hother⟩ :=
        h.answers_create hv hcalm hnow hf' hs hl
          (henc path kind p slot r hc (ServerState.view_isSome ▸ hsome)) hsome
      refine ⟨dids, t', y', hrun, hres, h.goes_on path hserver hone hother ⟨rfl, rfl, rfl⟩
        ⟨hcore, hsender, hnode⟩ (hsame x _ hf) fun g => ?_⟩
      rw [hflights]
      exact ⟨fun hg => ⟨hg, hf' g hg⟩, fun hg => hg.1⟩
    | none =>
      have hmiss : cache'.lookup r.id = none := by
        cases hl' : cache'.lookup r.id with
        | none => rfl
        | some cached =>
          have hsome := Codec.view_of_reads (h.other.cached_create hc' hrec' hl')
          rw [h.server.view, ServerState.view_isSome] at hsome
          obtain ⟨value, henc⟩ := henc path kind p slot r hc hsome
          simp [Effects.createPromise, hlookup, henc] at hans
      refine both ⟨_, by rw [heff', effectsAt_single], ?_⟩
      rw [← hans, h.operations]
      exact Effects.createPromise_congr hcodec hlookup hmiss
  | settle p id result =>
    rw [heff, effectsAt_single] at ha
    obtain ⟨e, he, hans⟩ := ha
    obtain rfl := Option.some.inj he
    refine both ⟨_, by rw [heff', effectsAt_single], ?_⟩
    rw [← hans, h.operations]
    refine Effects.settlePromise_congr hcodec (fun r hl => ?_) fun r hl => ?_
    · exact h.one.cached_settle hc hf hrec hl
    · exact h.other.cached_settle hc' hf' hrec' hl
  | _ => exact both ha

/-- Every step of the one is matched by the other. -/
theorem step (h : Alongside root version S s x t y)
    (hv : Json.i64Min ≤ version ∧ version ≤ Json.i64Max) (hnow : now ∈ During) {did : Did}
    {s' : ServerState} {x' : Handling} (henc : Encodes s x)
    (hs : Undisturbed During (s, x) did (s', x')) :
    ∃ dids t' y', Runs (Undisturbed During) (t, y) dids (t', y') ∧
      dids.flatMap Did.results = did.results ∧ ∃ S', Alongside root version S' s' x' t' y' := by
  obtain ⟨hcalm, hwithin, hs⟩ := hs
  cases hs with
  | send path c subNow now' serverNow req hc hf hr =>
    obtain ⟨dids, t', y', hrun, hres, hafter⟩ := h.send hv hcalm hc hwithin.1 hwithin.2 hf hr
    exact ⟨dids, t', y', hrun, hres, S, hafter⟩
  | receive f a e l n hf hs hl hr =>
    obtain ⟨dids, t', y', hrun, hres, hafter⟩ := h.receive hv hcalm hnow henc hf hs hl hr
    exact ⟨dids, t', y', hrun, hres, _, hafter⟩
  | atOnce path c a l n hf hs hl ha =>
    obtain ⟨dids, t', y', hrun, hres, hafter⟩ := h.atOnce hv hcalm hnow henc hf hs hl ha
    exact ⟨dids, t', y', hrun, hres, _, hafter⟩
  | silent path n hs =>
    have hs' : StepAt path y.node .silent n := h.node ▸ hs
    refine ⟨_, t, _, .single (.silent (h.calm hcalm) (.silent t y path n hs')), rfl, S,
      h.server, h.core, h.sender, rfl, h.one.silent hs, h.other.silent hs', h.flights, h.spared⟩

end Alongside

end Handling

end Resonate
