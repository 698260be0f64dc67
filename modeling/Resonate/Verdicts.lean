import Resonate.Recorded
import Resonate.Sleeps
import Resonate.Transparency

/-!
# What callers are handed

The caller of a local child is handed the child's own result once the settlement is answered:
inline with any record, spawned with anything. A request may be lost, and so may its answer;
the promise may be settled by others, or expire. What the caller is handed is what the server
records if the settlement finds the lease held and the promise pending, or the verdict there
already.
-/

namespace Resonate
open Lib Lib.ForkJoin Network

section Calls

variable (sdk : Sdk) (ty : Ty) (slot : Slot) (req : PromiseCreateReq) (result : Except Error Json)

def spawnedAt (position : Position) : Bool := position.getLast?.any fun call => call.spawned

@[simp] theorem spawnedAt_concat (position : Position) (call : Call) :
    spawnedAt (position ++ [call]) = call.spawned := by
  simp [spawnedAt]

/-- The caller of a local child is handed the child's own result. -/
def Hands (position : Position) (answer : Except Error PromiseRecord) : Prop :=
  spawnedAt position = true ∨ ∃ r, answer = .ok r

/-- An inline call whose child left nothing outstanding. -/
theorem runIntoFuture_finalize (position : Position) (k : List String → Except Error Json → Prog) :
    ∃ after, runIntoFuture sdk ty position slot req (fun _ finish => finish result (.ok [])) k =
        .call (.create .run position slot req) after ∧
      ∀ record, record.asResult sdk.codec ty = none → after (.ok record) =
        .call (.settle position req.id (result.map ty.toValue)) fun
          | .error e => k [] (.error e)
          | .ok _ => k [] result := by
  refine ⟨_, rfl, fun record hrecord => ?_⟩
  simp only [hrecord]
  refine congrArg (Proc.call _) (funext fun answer => ?_)
  cases answer <;> rfl

/-- A spawned call whose child left nothing outstanding. -/
theorem finishSpawned_finalize (position : Position) (id : String) (h : isSuspended result = false) :
    finishSpawned ty position id result (.ok []) =
      .call (.settle position id (result.map ty.toValue)) fun _ =>
        .ret (.finished (some result) (.done (.ok ()))) := by
  simp [finishSpawned, h]

/-- A spawned call that finds a settled record hands over what an inline one does, up to the
text of an error. -/
theorem spawnedRun_asResult {position : Position} {id : String}
    {execute : PromiseRecord → (Except Error Json → Except Error (List String) → Prog) → Prog}
    {record : PromiseRecord} (h : record.asResult sdk.codec ty = some result) : ∃ sent outcome,
      spawnedRun sdk ty position id execute record = .ret (.finished (some sent) outcome) ∧
        sent.toOption = result.toOption := by
  unfold PromiseRecord.asResult at h
  unfold spawnedRun
  cases hst : record.state with
  | pending => simp [hst] at h
  | resolved =>
    simp only [hst, Option.some.injEq] at h
    subst h
    dsimp only
    cases serde (ty.ofValue record.value.dataOrNull) with
    | ok v => exact ⟨_, _, rfl, rfl⟩
    | error e => exact ⟨_, _, rfl, rfl⟩
  | rejected | rejectedCanceled | rejectedTimedout =>
    simp only [hst, Option.some.injEq] at h
    subst h
    exact ⟨_, _, rfl, rfl⟩

end Calls

def HandsOver (id : String) (result : Except Error (Except String Json)) : Event → Prop
  | ⟨.settle position id' result', answer⟩ => id' = id ∧ result' = result ∧ Hands position answer
  | _ => False

/-- A request that settles a child finds the lease held and the promise pending, or the verdict
recorded already, whenever the caller is to be handed the result: inline, if the answer is heard
and is a record that decodes. -/
def Cmd.Lands (codec : Codec) (s : ServerState) (heard : Bool) : Cmd → Op → Prop
  | .settle position id result, .apply serverNow req =>
    let p := s.prepared serverNow req
    spawnedAt position = true ∨
        heard = true ∧ p.Admits req ∧ (∃ r, codec.reads p id = .ok r) →
      p.Admits req ∧ p.isPending id = true ∨ codec.Recorded p id result
  | _, _ => True

/-- A settlement that is not handled by the server has its verdict recorded already, whenever the
caller is to be handed the result: inline, if a settled record is cached. -/
def Cmd.Stands (codec : Codec) (s : ServerState) (effects : Option Effects) : Cmd → Prop
  | .settle position id result =>
    spawnedAt position = true ∨
        (∃ e r, effects = some e ∧ e.cache.lookup id = some r ∧ r.state ≠ .pending) →
      codec.Recorded s id result
  | _ => True

def Cmd.Trusted (codec : Codec) : Cmd → Prop
  | .settle _ _ (.ok (.ok v)) => codec.RoundTrips v
  | _ => True

namespace Cluster

/-- What a step over a network that loses requests and answers did; a worker is given as it was
before the step. -/
inductive Deed where
  | served (op : Op)
  | began
  | worked (x : Handling) (d : Handling.Did)
  | unsent (x : Handling) (path : List ℕ) (c : Cmd)
  | unheard (x : Handling) (f : Flight) (op : Op)

/-- A step of a cluster: a request of anyone or a tick, a worker that starts a program, a step of
a worker, a request that does not arrive, or one whose answer does not. -/
inductive Lossy : Cluster → Deed → Cluster → Prop
  | serve (w : Cluster) (op : Op) : Lossy w (.served op) { w with server := w.server.deliver op }
  | begin (w : Cluster) (core : Core) (sender : Sender) (prog : Prog) :
      Lossy w .began { w with workers := w.workers ++ [.start core sender prog] }
  | work (w : Cluster) (i : ℕ) (x x' : Handling) (d : Handling.Did) (s' : ServerState)
      (hi : w.workers[i]? = some x) (hs : x.Step w.server d s' x') :
      Lossy w (.worked x d) ⟨s', w.workers.set i x'⟩
  | unsent (w : Cluster) (i : ℕ) (x : Handling) (path : List ℕ) (c : Cmd) (subNow : ℕ → Int)
      (now : Int) (req : Json) (err : Error) (hi : w.workers[i]? = some x)
      (hc : CallsAt path x.node c) (hf : ∀ f ∈ x.flights, f.path ≠ path)
      (hr : c.request x.sender subNow now (Handling.effectsAt path x.effects) = some req) :
      Lossy w (.unsent x path c)
        ⟨w.server, w.workers.set i { x with flights := ⟨path, c, now, .error err⟩ :: x.flights }⟩
  | unheard (w : Cluster) (i : ℕ) (x x' : Handling) (f : Flight) (op : Op) (s' : ServerState)
      (err : Error) (hi : w.workers[i]? = some x) (hs : x.Step w.server (.sent f op) s' x') :
      Lossy w (.unheard x f op)
        ⟨s', w.workers.set i { x with flights := { f with answer := .error err } :: x.flights }⟩

def Deed.Hands (codec : Codec) (id : String) (result : Except Error (Except String Json)) :
    Deed → Prop
  | .worked x (.answered _ e) => x.core.sdk.codec = codec ∧ HandsOver id result e
  | _ => False

def Deed.Meets (w : Cluster) : Deed → Prop
  | .worked x (.sent f op) => f.cmd.Lands x.core.sdk.codec w.server true op
  | .worked x (.answered path e) => (∀ f ∈ x.flights, f.path ≠ path) →
    e.1.Stands x.core.sdk.codec w.server (Handling.effectsAt path x.effects)
  | .unsent x path c => c.Stands x.core.sdk.codec w.server (Handling.effectsAt path x.effects)
  | .unheard x f op => f.cmd.Lands x.core.sdk.codec w.server false op
  | _ => True

def Deed.Trusted : Deed → Prop
  | .worked x (.sent f _) | .unheard x f _ => f.cmd.Trusted x.core.sdk.codec
  | _ => True

end Cluster

def Flight.Vouched (sender : Sender) (codec : Codec) (s : ServerState) (f : Flight) : Prop :=
  ∀ position id result, f.cmd = .settle position id result →
    ∀ e : Effects, e.sender = sender → e.codec = codec →
      Hands position (e.received (e.fenceResult f.sent f.answer)).2 → codec.Recorded s id result

structure Handling.Vouched (s : ServerState) (x : Handling) : Prop where
  effects : ∀ entry ∈ x.effects, entry.2.sender = x.sender ∧ entry.2.codec = x.core.sdk.codec
  flights : ∀ f ∈ x.flights, f.Vouched x.sender x.core.sdk.codec s

def Network.ServerState.Keeps (s s' : ServerState) : Prop :=
  ∀ (codec : Codec) id result, codec.Recorded s id result → codec.Recorded s' id result

section Workers

variable {s s' : ServerState} {x x' : Handling} {path : List ℕ} {c : Cmd} {e e' : Effects}
  {effects : List (ℕ × Effects)} {d : Handling.Did} {event : Event}

theorem Cmd.reply_effects {sender : Sender} {now : Int} {effects : Option Effects}
    {answer : Except Error Json} {a : c.Answer}
    (hr : c.reply sender now effects answer = some (some e, a)) :
    ∃ e', effects = some e' ∧ e.sender = e'.sender ∧ e.codec = e'.codec := by
  cases c with
  | create kind position slot req | settle position id result =>
    obtain ⟨e', he', hreply⟩ := Option.map_eq_some_iff.mp hr
    obtain ⟨heff, -⟩ := Prod.mk.inj hreply
    obtain rfl := Option.some.inj heff
    refine ⟨e', he', ?_⟩
    rw [Effects.received_eq]
    exact ⟨rfl, rfl⟩
  | acquire | fulfill | suspend | release =>
    obtain ⟨rfl, -⟩ := Prod.mk.inj (Option.some.inj hr)
    exact ⟨e, rfl, rfl, rfl⟩
  | _ => cases hr

theorem Handling.effectsAt_mem (h : effectsAt path effects = some e) :
    ∃ entry ∈ effects, entry.2 = e := by
  induction effects with
  | nil => cases h
  | cons entry effects ih =>
    rw [effectsAt] at h
    split_ifs at h
    · exact ⟨entry, List.mem_cons_self, Option.some.inj h⟩
    · obtain ⟨entry', hmem, he⟩ := ih h
      exact ⟨entry', List.mem_cons_of_mem _ hmem, he⟩

theorem Handling.mem_setEffects {entry : ℕ × Effects} (h : entry ∈ setEffects path e' effects) :
    entry.2 = e' ∨ entry ∈ effects := by
  induction effects with
  | nil => cases h
  | cons first effects ih =>
    rw [setEffects] at h
    split_ifs at h
    · rcases List.mem_cons.mp h with rfl | h
      · exact Or.inl rfl
      · exact Or.inr (List.mem_cons_of_mem _ h)
    · rcases List.mem_cons.mp h with rfl | h
      · exact Or.inr List.mem_cons_self
      · exact (ih h).imp_right (List.mem_cons_of_mem _)

namespace Handling.Vouched

theorem mono (h : x.Vouched s) (hk : s.Keeps s') : x.Vouched s' where
  effects := h.effects
  flights f hf position id result hc e hs hcodec hhands :=
    hk _ _ _ (h.flights f hf position id result hc e hs hcodec hhands)

theorem cons (h : x.Vouched s) {f : Flight} (hf : f.Vouched x.sender x.core.sdk.codec s) :
    ({ x with flights := f :: x.flights } : Handling).Vouched s where
  effects := h.effects
  flights g hg := by
    rcases List.mem_cons.mp hg with rfl | hg
    · exact hf
    · exact h.flights g hg

theorem own (h : x.Vouched s) (he : Handling.effectsAt path x.effects = some e) :
    e.sender = x.sender ∧ e.codec = x.core.sdk.codec := by
  obtain ⟨entry, hmem, rfl⟩ := effectsAt_mem he
  exact h.effects entry hmem

end Handling.Vouched

section Settle

variable {sender : Sender} {codec : Codec} {position : Position} {id : String}
  {result : Except Error (Except String Json)} {action : Json} {subNow now serverNow : Int}
  {heard : Bool} {f : Flight} {op : Op} {err : Error}

theorem received_congr (hs : e.sender = e'.sender) (hc : e.codec = e'.codec)
    (answer : Except Error Json) :
    (e.received (e.fenceResult now answer)).2 = (e'.received (e'.fenceResult now answer)).2 := by
  have hresult : e.fenceResult now answer = e'.fenceResult now answer := by
    rw [Effects.fenceResult, Effects.fenceResult, hs]
  rw [Effects.received_snd, Effects.received_snd, hresult, hc]

theorem spawned_of_error (h : Hands position (e.received (e.fenceResult now (.error err))).2) :
    spawnedAt position = true := by
  rcases h with h | ⟨r, hr⟩
  · exact h
  · cases hr

/-- A settlement that lands is recorded, if the caller is handed the result. -/
theorem recorded_of_lands (hwf : WF s) (hfence : e.settlePromise id result = .fence action)
    (ht : (Cmd.settle position id result).Trusted e.codec)
    (hlands : (Cmd.settle position id result).Lands e.codec s heard
      (.apply serverNow (e.flatFence subNow now action)))
    (h : spawnedAt position = true ∨ heard = true ∧ ∃ r, (e.received (e.fenceResult now
      (s.send serverNow (e.fenceRequest subNow now action)).2)).2 = .ok r) :
    e.codec.Recorded (s.deliver (.apply serverNow (e.flatFence subNow now action))) id result := by
  have hrt : ∀ v, result = .ok (.ok v) → e.codec.RoundTrips v := by
    rintro v rfl
    exact ht
  refine (Effects.settled_recorded_iff hwf hrt hfence).mpr ?_
  rcases h with hsp | ⟨hheard, r, hr⟩
  · exact hlands (Or.inl hsp)
  · obtain ⟨hadm, hpend | hreads⟩ := Effects.settled_heard hwf hfence hr
    · exact Or.inl ⟨hadm, hpend⟩
    · exact hlands (Or.inr ⟨hheard, hadm, r, hreads⟩)

namespace Handling.Vouched

theorem sent (h : x.Vouched s) (hwf : WF s) (hs : x.Step s (.sent f op) s' x')
    (ht : f.cmd.Trusted x.core.sdk.codec) (hlands : f.cmd.Lands x.core.sdk.codec s true op) :
    f.Vouched x.sender x.core.sdk.codec s' := by
  cases hs with
  | send path c subNow now serverNow req hc hf hr =>
    rintro position id result rfl e hsender hcodec hhands
    obtain ⟨e', action, he', hfence, rfl⟩ := Cmd.request_settle hr
    obtain ⟨hsender', hcodec'⟩ := h.own he'
    rw [received_congr (hsender.trans hsender'.symm) (hcodec.trans hcodec'.symm)] at hhands
    rw [← hcodec'] at ht hlands ⊢
    exact recorded_of_lands hwf hfence ht hlands (hhands.imp_right fun hr => ⟨rfl, hr⟩)

theorem unheard (h : x.Vouched s) (hwf : WF s) (hs : x.Step s (.sent f op) s' x')
    (ht : f.cmd.Trusted x.core.sdk.codec) (hlands : f.cmd.Lands x.core.sdk.codec s false op) :
    ({ f with answer := .error err } : Flight).Vouched x.sender x.core.sdk.codec s' := by
  cases hs with
  | send path c subNow now serverNow req hc hf hr =>
    rintro position id result rfl e hsender hcodec hhands
    obtain ⟨e', action, he', hfence, rfl⟩ := Cmd.request_settle hr
    have hcodec' := (h.own he').2
    rw [← hcodec'] at ht hlands ⊢
    exact recorded_of_lands hwf hfence ht hlands (Or.inl (spawned_of_error hhands))

theorem unsent (hst : c.Stands x.core.sdk.codec s (effectsAt path x.effects)) {now : Int} :
    Flight.Vouched x.sender x.core.sdk.codec s ⟨path, c, now, .error err⟩ := by
  rintro position id result rfl e - - hhands
  exact hst (Or.inl (spawned_of_error hhands))

theorem step (h : x.Vouched s) (hk : s.Keeps s') (hs : x.Step s d s' x')
    (hsent : ∀ f op, d = .sent f op → f.Vouched x.sender x.core.sdk.codec s') : x'.Vouched s' := by
  have h' := h.mono hk
  cases hs with
  | send path c subNow now serverNow req hc hf hr => exact h'.cons (hsent _ _ rfl)
  | receive f a e l n hf hs hl hr =>
    refine ⟨fun entry hmem => ?_, fun g hg => h'.flights g (List.mem_of_mem_filter hg)⟩
    cases e with
    | none => exact h.effects entry hmem
    | some e =>
      obtain ⟨e', he', hsender, hcodec⟩ := Cmd.reply_effects hr
      obtain ⟨hsender', hcodec'⟩ := h.own he'
      rcases mem_setEffects hmem with heq | hmem
      · rw [heq]
        exact ⟨hsender.trans hsender', hcodec.trans hcodec'⟩
      · exact h.effects entry hmem
  | atOnce path c a l n hf hs hl ha =>
    refine ⟨fun entry hmem => ?_, h'.flights⟩
    cases c with
    | effects taskId version preload =>
      rcases List.mem_cons.mp hmem with rfl | hmem
      · rw [Effects.new, Effects.absorb_eq]
        exact ⟨rfl, rfl⟩
      · exact h.effects entry hmem
    | _ => exact h.effects entry hmem
  | silent path n hs => exact ⟨h'.effects, h'.flights⟩

theorem handed (h : x.Vouched s) (hs : x.Step s (.answered path event) s' x')
    (hat : (∀ f ∈ x.flights, f.path ≠ path) →
      event.1.Stands x.core.sdk.codec s (effectsAt path x.effects))
    (hhands : HandsOver id result event) : x.core.sdk.codec.Recorded s id result := by
  cases hs with
  | receive f a e l n hf hs hl hr =>
    obtain ⟨path, cmd, sent, answer⟩ := f
    cases cmd with
    | settle position id' result' =>
      obtain ⟨rfl, rfl, hhands⟩ := hhands
      obtain ⟨e', he', hreply⟩ := Option.map_eq_some_iff.mp hr
      obtain ⟨-, rfl⟩ := Prod.mk.inj hreply
      obtain ⟨hsender, hcodec⟩ := h.own he'
      exact h.flights _ hf position id' result' rfl e' hsender hcodec hhands
    | _ => exact hhands.elim
  | atOnce path c a l n hf hs hl ha =>
    cases c with
    | settle position id' result' =>
      obtain ⟨rfl, rfl, hhands⟩ := hhands
      refine hat hf (hhands.imp_right ?_)
      rintro ⟨r, rfl⟩
      obtain ⟨e, he, hans⟩ := ha
      obtain ⟨hl, hst⟩ := Effects.settlePromise_answered hans
      exact ⟨e, r, he, hl, hst⟩
    | _ => exact hhands.elim

end Handling.Vouched

end Settle

end Workers

namespace Cluster

variable {w w' : Cluster} {d : Deed} {codec : Codec} {id : String}
  {result : Except Error (Except String Json)}

structure Vouches (w : Cluster) : Prop where
  wf : WF w.server
  timeouts : TimeoutsTrue w.server
  workers : ∀ x ∈ w.workers, x.Vouched w.server

theorem Lossy.server (h : Lossy w d w') :
    (∃ op, w'.server = w.server.deliver op) ∨ w'.server = w.server := by
  cases h with
  | serve op => exact Or.inl ⟨op, rfl⟩
  | begin | unsent => exact Or.inr rfl
  | work i x x' d s' hi hs | unheard i x x' f op s' err hi hs =>
    rcases hs.server with ⟨f, op, -, rfl⟩ | ⟨-, rfl⟩
    · exact Or.inl ⟨op, rfl⟩
    · exact Or.inr rfl

theorem Vouches.server (h : w.Vouches) (hs : Lossy w d w') :
    WF w'.server ∧ TimeoutsTrue w'.server ∧ w.server.Keeps w'.server := by
  rcases hs.server with ⟨op, heq⟩ | heq
  · have hclear : TimeoutsTrue ({ w.server with outgoing := [] } : ServerState) := h.timeouts
    rw [heq]
    exact ⟨h.wf.deliver op, hclear.exec op, fun codec id result hr => hr.deliver h.timeouts op⟩
  · rw [heq]
    exact ⟨h.wf, h.timeouts, fun codec id result hr => hr⟩

theorem Vouches.moved (h : w.Vouches) (hs : Lossy w d w') {i : ℕ} {x : Handling}
    (hw : w'.workers = w.workers.set i x) (hx : x.Vouched w'.server) : w'.Vouches := by
  obtain ⟨hwf, ht, hkeeps⟩ := h.server hs
  refine ⟨hwf, ht, fun y hy => ?_⟩
  rw [hw] at hy
  rcases List.mem_or_eq_of_mem_set hy with hy | rfl
  · exact (h.workers y hy).mono hkeeps
  · exact hx

theorem Vouches.step (h : w.Vouches) (hm : d.Meets w) (ht : d.Trusted) (hs : Lossy w d w') :
    w'.Vouches := by
  obtain ⟨hwf, htimeouts, hkeeps⟩ := h.server hs
  have hlossy := hs
  cases hs with
  | serve op => exact ⟨hwf, htimeouts, fun x hx => (h.workers x hx).mono hkeeps⟩
  | begin core sender prog =>
    refine ⟨hwf, htimeouts, fun x hx => ?_⟩
    rcases List.mem_append.mp hx with hx | hx
    · exact h.workers x hx
    · rw [List.mem_singleton.mp hx]
      exact ⟨fun entry hmem => (by cases hmem), fun f hf => (by cases hf)⟩
  | work i x x' d s' hi hs =>
    have hx := h.workers x (List.mem_of_getElem? hi)
    refine h.moved hlossy rfl (hx.step hkeeps hs fun f op hd => ?_)
    subst hd
    exact hx.sent h.wf hs ht hm
  | unsent i x path c subNow now req err hi hc hf hr =>
    have hx := h.workers x (List.mem_of_getElem? hi)
    exact h.moved hlossy rfl (hx.cons (Handling.Vouched.unsent hm))
  | unheard i x x' f op s' err hi hs =>
    have hx := h.workers x (List.mem_of_getElem? hi)
    exact h.moved hlossy rfl ((hx.mono hkeeps).cons (hx.unheard h.wf hs ht hm))

theorem Vouches.handed (h : w.Vouches) (hm : d.Meets w) (hs : Lossy w d w')
    (hhands : d.Hands codec id result) : codec.Recorded w'.server id result := by
  have hkeeps := (h.server hs).2.2
  cases hs with
  | work i x x' d s' hi hs =>
    cases d with
    | answered path event =>
      obtain ⟨rfl, hhands⟩ := hhands
      exact hkeeps _ _ _ ((h.workers x (List.mem_of_getElem? hi)).handed hs hm hhands)
    | sent | silent => exact hhands.elim
  | _ => exact hhands.elim

/-- In every run over a network that loses requests and answers, with requests of anyone in
between, whose settlements land: what the caller of a local child is handed is recorded from
then on, and a call that short-circuits on the record hands over the same verdict. -/
theorem verdicts_recorded {ds : List Deed} {w : Cluster}
    (h : Trace (fun w d w' => d.Meets w ∧ Lossy w d w') .init ds w) (ht : ∀ d ∈ ds, d.Trusted) :
    ∀ d ∈ ds, ∀ (codec : Codec) (id : String) (result : Except Error (Except String Json)),
      d.Hands codec id result → codec.Recorded w.server id result ∧
        ∀ r q, w.server.Shows r → r.id = id → codec.decodePromise r = .ok q →
          ∀ ty, q.Replays codec ty result := by
  have hinit : Cluster.init.Vouches := ⟨.init, .init, fun x hx => by cases hx⟩
  have hrun : (∀ d ∈ ds, d.Trusted) → w.Vouches ∧ ∀ d ∈ ds, ∀ codec id result,
      d.Hands codec id result → codec.Recorded w.server id result := by
    refine h.invariant (I := fun ds w => (∀ d ∈ ds, d.Trusted) → w.Vouches ∧ ∀ d ∈ ds,
      ∀ codec id result, d.Hands codec id result → codec.Recorded w.server id result)
      (fun _ => ⟨hinit, fun d hd => by cases hd⟩) fun ds w d w' _ ih hs ht => ?_
    obtain ⟨hm, hs⟩ := hs
    obtain ⟨hw, hds⟩ := ih fun d hd => ht d (List.mem_append_left _ hd)
    refine ⟨hw.step hm (ht d (by simp)) hs, fun d' hd' codec id result hhands => ?_⟩
    rcases List.mem_append.mp hd' with hd' | hd'
    · exact (hw.server hs).2.2 _ _ _ (hds d' hd' codec id result hhands)
    · obtain rfl := List.mem_singleton.mp hd'
      exact hw.handed hm hs hhands
  intro d hd codec id result hhands
  have hrec := (hrun ht).2 d hd codec id result hhands
  exact ⟨hrec, fun r q hs hid hq ty => hrec.replays hs hid hq ty⟩

section Pay

open Handling (about about_atOnce checkoutCore checkoutRun checkoutPromise checkoutEntry
  payRecord payReq paid)

def payCore : Core :=
  { checkoutCore .ok with
    sdk := { (checkoutCore .ok).sdk with codec := singleCodec .null "null" "bnVsbA==" } }

def payServer : ServerState := checkoutRun.foldl ServerState.deliver .init

def payEffects : List (ℕ × Effects) :=
  [(0, Effects.new ⟨none⟩ payCore.sdk.codec "t" 0 [payRecord])]

def payWorker (k : (Cmd.settle [⟨0, false⟩] "t:0" (.ok (.ok .null))).Answer → Prog) : Handling :=
  about payCore ⟨none⟩ (.settle [⟨0, false⟩] "t:0" (.ok (.ok .null))) k payEffects

def LandedRun (ds : List Deed) (w : Cluster) : Prop :=
  Trace (fun w d w' => d.Meets w ∧ Lossy w d w') .init ds w ∧ ∀ d ∈ ds, d.Trusted

theorem LandedRun.snoc {ds : List Deed} (h : LandedRun ds w) (hm : d.Meets w) (ht : d.Trusted)
    (hs : Lossy w d w') : LandedRun (ds ++ [d]) w' := by
  refine ⟨h.1.snoc ⟨hm, hs⟩, fun d' hd => ?_⟩
  rcases List.mem_append.mp hd with hd | hd
  · exact h.2 d' hd
  · rwa [List.mem_singleton.mp hd]

theorem LandedRun.atOnce {ds : List Deed} {s : ServerState} {core : Core} {sender : Sender} {c : Cmd}
    {k : c.Answer → Prog} {effects : List (ℕ × Effects)} {a : c.Answer}
    (h : LandedRun ds ⟨s, [about core sender c k effects]⟩)
    (hc : c.Stands core.sdk.codec s (Handling.effectsAt [] effects))
    (ha : c.AtOnce (Handling.effectsAt [] effects) a) :
    ∃ ds', LandedRun ds'
      ⟨s, [⟨core, sender, .mk (k a) [], (about core sender c k effects).opened c, []⟩]⟩ :=
  ⟨_, h.snoc (d := .worked (about core sender c k effects) (.answered [] ⟨c, a⟩))
    (fun _ => hc) trivial
    (.work ⟨s, [about core sender c k effects]⟩ 0 _ _ _ s rfl (about_atOnce ha))⟩

theorem pay_executing : ∃ k, payCore.executing 0 checkoutPromise checkoutEntry ⟨"checkout", .null⟩ =
    .call .now k ∧ ∃ k₁, k (5 : Int) = .call (.create .run [⟨0, false⟩] ⟨[], 0⟩ payReq) k₁ ∧
      ∃ k₂, k₁ (.ok paid) = .call (.execute "t:0") k₂ ∧
        ∃ k₃, k₂ () = .call (.settle [⟨0, false⟩] "t:0" (.ok (.ok .null))) k₃ :=
  ⟨_, rfl, _, rfl, _, rfl, _, rfl⟩

theorem pay_runs : ∃ ds k, LandedRun ds ⟨payServer, [payWorker k]⟩ := by
  obtain ⟨k, hk, k₁, hk₁, k₂, hk₂, k₃, hk₃⟩ := pay_executing
  have hexec : payCore.Executes checkoutPromise checkoutEntry ⟨"checkout", .null⟩ :=
    ⟨rfl, by decide, rfl, rfl⟩
  have hstart : LandedRun [] .init := ⟨.nil, fun d hd => by cases hd⟩
  have hserved := (hstart.snoc (d := .served _) trivial trivial (.serve _ checkoutRun[0])).snoc
    (d := .served _) trivial trivial (.serve _ checkoutRun[1])
  have hbegun := hserved.snoc (d := .began) trivial trivial
    (.begin _ payCore ⟨none⟩ (payCore.executeUntilBlocked "t" 0 checkoutPromise 1 [payRecord]))
  have hprog : payCore.executeUntilBlocked "t" 0 checkoutPromise 1 [payRecord] =
      .call (.heartbeatStart "t" 0) fun _ => .call (.effects "t" 0 [payRecord]) fun _ =>
        .call .now k := by
    rw [← hk]
    exact Core.executeUntilBlocked_once hexec rfl [payRecord]
  rw [hprog] at hbegun
  obtain ⟨_, h⟩ := LandedRun.atOnce (c := .heartbeatStart "t" 0) (a := ()) hbegun trivial trivial
  obtain ⟨_, h⟩ := LandedRun.atOnce (c := .effects "t" 0 [payRecord]) (a := ()) h trivial trivial
  obtain ⟨_, h⟩ := LandedRun.atOnce (c := .now) (a := (5 : Int)) h trivial trivial
  rw [hk₁] at h
  obtain ⟨_, h⟩ := LandedRun.atOnce (c := .create .run [⟨0, false⟩] ⟨[], 0⟩ payReq) (a := .ok paid) h
    trivial ⟨_, rfl, rfl⟩
  rw [hk₂] at h
  obtain ⟨_, h⟩ := LandedRun.atOnce (c := .execute "t:0") (a := ()) h trivial trivial
  rw [hk₃] at h
  exact ⟨_, k₃, h⟩

def payRequest : Json :=
  Effects.fenceRequest ⟨⟨none⟩, payCore.sdk.codec, "t", 0, ∅⟩ 5 5
    (PromiseSettleReq.toJson ⟨"t:0", .resolved, { data := some (.str "") }⟩)

def payOp : Op := .apply 5 (unwrapRequestEnvelope payRequest)

def payFlight (s : ServerState) : Flight :=
  ⟨[], .settle [⟨0, false⟩] "t:0" (.ok (.ok .null)), 5, (s.send 5 payRequest).2⟩

section Settle

variable {s : ServerState} {k : (Cmd.settle [⟨0, false⟩] "t:0" (.ok (.ok .null))).Answer → Prog}

theorem pay_sent : Lossy ⟨s, [payWorker k]⟩ (.worked (payWorker k) (.sent (payFlight s) payOp))
    ⟨s.deliver payOp, [{ payWorker k with flights := [payFlight s] }]⟩ :=
  .work ⟨s, [payWorker k]⟩ 0 _ _ _ _ rfl (.send s (payWorker k) [] _ (fun _ => 5) 5 5 payRequest
    (.here _ k []) (fun f hf => by cases hf) rfl)

def payAnswered (s : ServerState)
    (k : (Cmd.settle [⟨0, false⟩] "t:0" (.ok (.ok .null))).Answer → Prog) (r : PromiseRecord) : Deed :=
  .worked { payWorker k with flights := [payFlight s] }
    (.answered [] ⟨.settle [⟨0, false⟩] "t:0" (.ok (.ok .null)), (.ok r : Except Error PromiseRecord)⟩)

theorem payAnswered_hands (r : PromiseRecord) :
    (payAnswered s k r).Hands payCore.sdk.codec "t:0" (.ok (.ok .null)) :=
  ⟨rfl, rfl, rfl, Or.inr ⟨r, rfl⟩⟩

theorem pay_answered {e : Option Effects} {r : PromiseRecord}
    (hr : (payFlight s).cmd.reply ⟨none⟩ 5 (Handling.effectsAt [] payEffects) (payFlight s).answer =
      some (e, (.ok r : Except Error PromiseRecord))) :
    ∃ w', Lossy ⟨s.deliver payOp, [{ payWorker k with flights := [payFlight s] }]⟩
      (payAnswered s k r) w' ∧ w'.server = s.deliver payOp :=
  ⟨_, .work ⟨s.deliver payOp, [{ payWorker k with flights := [payFlight s] }]⟩ 0 _ _ _ _ rfl
    (.receive (s.deliver payOp) { payWorker k with flights := [payFlight s] } (payFlight s)
      (.ok r : Except Error PromiseRecord) e _ _ (List.mem_singleton_self _) (.call _ k [] _) rfl hr),
    rfl⟩

end Settle

def cancelOp : Op :=
  .apply 5 (request "promise.settle" ⟨"c9", none⟩
    (PromiseSettleReq.toJson ⟨"t:0", .rejectedCanceled, {}⟩))

theorem pay_reply : ∃ e r, (payFlight payServer).cmd.reply ⟨none⟩ 5 (Handling.effectsAt [] payEffects)
    (payFlight payServer).answer = some (e, (.ok r : Except Error PromiseRecord)) :=
  ⟨_, _, rfl⟩

theorem cancel_reply : ∃ e r, (payFlight (payServer.deliver cancelOp)).cmd.reply ⟨none⟩ 5
    (Handling.effectsAt [] payEffects) (payFlight (payServer.deliver cancelOp)).answer =
      some (e, (.ok r : Except Error PromiseRecord)) :=
  ⟨_, _, rfl⟩

/-- The settlement finds the promise pending. -/
theorem verdicts_recorded_paid : ∃ ds w,
    (∃ d ∈ ds, Deed.Hands payCore.sdk.codec "t:0" (.ok (.ok .null)) d) ∧
      Trace (fun w d w' => d.Meets w ∧ Lossy w d w') .init ds w ∧
      payCore.sdk.codec.Recorded w.server "t:0" (.ok (.ok .null)) := by
  obtain ⟨ds, k, hrun⟩ := pay_runs
  obtain ⟨e, r, hr⟩ := pay_reply
  obtain ⟨w, hs, -⟩ := pay_answered (k := k) hr
  have hlands : Deed.Meets ⟨payServer, [payWorker k]⟩
      (.worked (payWorker k) (.sent (payFlight payServer) payOp)) :=
    fun _ => Or.inl ⟨⟨"t", rfl, _, rfl, rfl, rfl⟩, rfl⟩
  have htrusted : payCore.sdk.codec.RoundTrips .null := singleCodec_roundTrips (by decide) (by decide)
  have hsent := hrun.snoc hlands htrusted pay_sent
  have hmeets : ∀ w, (payAnswered payServer k r).Meets w :=
    fun _ hf => absurd rfl (hf _ (List.mem_singleton_self _))
  have hanswered := hsent.snoc (hmeets _) trivial hs
  have hmem := List.mem_append_right
    (ds ++ [.worked (payWorker k) (.sent (payFlight payServer) payOp)])
    (List.mem_singleton_self (payAnswered payServer k r))
  exact ⟨_, w, ⟨_, hmem, payAnswered_hands r⟩, hanswered.1,
    (verdicts_recorded hanswered.1 hanswered.2 _ hmem _ _ _ (payAnswered_hands r)).1⟩

/-- A client cancels the promise while the child runs: the settlement is answered with the
cancelled record, and the caller is handed the child's value. -/
theorem cancelled_unrecorded : ∃ ds d w, Trace Lossy .init (ds ++ [d]) w ∧
    d.Hands payCore.sdk.codec "t:0" (.ok (.ok .null)) ∧
      (∃ p, w.server.promises.lookup "t:0" = some p ∧ p.state = .rejectedCanceled) ∧
      ¬ payCore.sdk.codec.Recorded w.server "t:0" (.ok (.ok .null)) := by
  obtain ⟨ds, k, hrun, -⟩ := pay_runs
  obtain ⟨e, r, hr⟩ := cancel_reply
  obtain ⟨w, hs, hw⟩ := pay_answered (k := k) hr
  have hlossy : Trace Lossy .init ds ⟨payServer, [payWorker k]⟩ :=
    hrun.invariant (I := fun ds w => Trace Lossy .init ds w) .nil fun _ _ _ _ _ ih hs => ih.snoc hs.2
  have hcancelled := hlossy.snoc (.serve _ cancelOp)
  obtain ⟨p, hp, hst⟩ : ∃ p, w.server.promises.lookup "t:0" = some p ∧
      p.state = .rejectedCanceled := by
    rw [hw]
    exact ⟨_, rfl, rfl⟩
  refine ⟨_, _, w, (hcancelled.snoc pay_sent).snoc hs, payAnswered_hands r, ⟨p, hp, hst⟩, ?_⟩
  rintro ⟨q, hq, hres, -⟩
  obtain rfl := Option.some.inj (hp.symm.trans hq)
  rw [hst] at hres
  cases hres

end Pay

end Cluster

end Resonate
