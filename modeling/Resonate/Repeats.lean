import Resonate.Caches
import Resonate.Regimes
import Resonate.Sleeps

/-!
# No child is run again

Once the promise of a child is settled, a worker that takes up a task afterwards never runs
the child: whatever preload and answers it is given, none of them shows the promise pending.
-/

namespace Resonate
open Lib Lib.ForkJoin Network

/-- Nothing that a handling is told shows the promise of the child pending, and the child is
not run. -/
def afresh (child : String) : Terms Cmd Cmd.Answer where
  Pre
    | .execute a => a ≠ child
    | .effects _ _ preload => Known {a | a ≠ child} preload
    | _ => True
  Post
    | .acquire taskId _ _ _, a => ∀ result, a = .ok result →
      result.promise.id = taskId ∧ Known {a | a ≠ child} result.preload
    | .suspend .., a => ∀ preload, a = .ok (.redirect preload) → Known {a | a ≠ child} preload
    | c, a => c.Answered {a | a ≠ child} a

variable {child taskId : String} {sender : Sender} {s : ServerState}

theorem afresh_conduct (version : Int) :
    Conduct (afresh child) taskId version (Known {a | a ≠ child}) where
  free c hc := by
    cases c with
    | now | user | panic | create | created | settle => trivial
    | _ => exact hc.elim
  execute _ _ _ _ r hr hst := hr r rfl hst
  effects _ h := h
  fulfill _ _ := trivial
  suspend _ := trivial
  redirect _ preload h := h preload rfl
  release := trivial
  heartbeat := ⟨trivial, trivial⟩

def Flight.Afresh (sender : Sender) (child : String) (f : Flight) : Prop :=
  match f.cmd with
  | .acquire taskId _ _ _ => ∀ result, acquireResult (sender.makeHead f.sent) f.answer = .ok result →
    result.promise.id = taskId ∧ Known {a | a ≠ child} result.preload
  | .suspend .. => ∀ preload, suspendResult (sender.makeHead f.sent) f.answer =
    .ok (.redirect preload) → Known {a | a ≠ child} preload
  | _ => f.Backed sender {a | a ≠ child}

theorem Flight.Afresh.backed {f : Flight} (h : f.Afresh sender child) (hd : f.cmd.Durable) :
    f.Backed sender {a | a ≠ child} := by
  obtain ⟨path, cmd, sent, answer⟩ := f
  cases cmd with
  | create kind position slot req => exact h
  | settle position id result => exact h
  | _ => exact hd.elim

def afreshRegime (codec : Codec) (sender : Sender) (child : String) : Regime codec sender where
  terms := afresh child
  Caches e := e.Backed {a | a ≠ child} ∧ e.sender = sender
  Answers := Flight.Afresh sender child
  opened _ _ _ h := Effects.backed_new h
  atOnce c effects a _ he ha := by
    cases c with
    | create kind position slot req =>
      obtain ⟨e, rfl, hans⟩ := id ha
      exact Cmd.AtOnce.answered ha (he e rfl).1
    | acquire | suspend => exact ha.elim
    | _ => trivial
  reply f effects e a _ hf he hr := by
    obtain ⟨path, cmd, sent, answer⟩ := f
    cases cmd with
    | acquire taskId version pid ttl | suspend taskId version actions =>
      obtain ⟨rfl, rfl⟩ := Prod.mk.inj (Option.some.inj hr)
      exact ⟨hf, he⟩
    | create kind position slot req | settle position id result =>
      obtain ⟨e₀, rfl, -⟩ := Option.map_eq_some_iff.mp hr
      obtain ⟨hcache, hs⟩ := he e₀ rfl
      exact (hf.backed trivial).reply hcache hs hr
    | fulfill taskId version action | release taskId version =>
      obtain ⟨rfl, rfl⟩ := Prod.mk.inj (Option.some.inj hr)
      exact ⟨trivial, he⟩
    | _ => cases hr

theorem Flight.afresh_send (hc : Coherent s) {subNow : ℕ → Int} {now serverNow : Int}
    {effects : Option Effects} {c : Cmd} {req : Json} {path : List ℕ}
    (hr : c.request sender subNow now effects = some req)
    (he : ∀ e, effects = some e → e.Backed {a | a ≠ child} ∧ e.sender = sender)
    (hset : (s.deliver (.apply serverNow (unwrapRequestEnvelope req))).isPending child = false) :
    Flight.Afresh sender child ⟨path, c, now, (s.send serverNow req).2⟩ := by
  have hseen : {a | (s.deliver (.apply serverNow (unwrapRequestEnvelope req))).isPending a = true} ⊆
      {a | a ≠ child} := by
    rintro a ha rfl
    exact absurd ha (by simp [hset])
  have hknown : ∀ records : List PromiseRecord, (∀ r ∈ records,
      (s.deliver (.apply serverNow (unwrapRequestEnvelope req))).Shows r) →
        Known {a | a ≠ child} records :=
    fun records hshow r hmem hst => hseen ((hshow r hmem).pending hst)
  have hbacked : (∀ id v actions, c ≠ .suspend id v actions) →
      Flight.Backed sender {a | a ≠ child} ⟨path, c, now, (s.send serverNow req).2⟩ :=
    fun hs => (Flight.backed_send hc hr (fun _ e h => (he e h).2) hs).mono hseen
  cases c with
  | acquire taskId version pid ttl =>
    obtain rfl := Option.some.inj hr
    intro result hres
    obtain ⟨hgrant, -⟩ := acquire_granted hc hres
    exact ⟨hgrant.promise.1, hknown _ hgrant.preload⟩
  | suspend taskId version actions =>
    obtain rfl := Option.some.inj hr
    intro preload hres
    obtain ⟨-, hshow, -⟩ := suspend_redirect hc hres
    exact hknown _ hshow
  | _ => exact hbacked fun id v actions heq => by cases heq

theorem onMessage_afresh (core : Core) (sender : Sender) (taskId : String) (version : Int) (fuel : ℕ) :
    (Handling.start core sender (core.onMessage taskId version fuel)).Under
      (afreshRegime core.sdk.codec sender child) :=
  .start (Core.onMessage_conforms afresh_conduct trivial (fun result h => h result rfl) _) rfl

namespace Cluster

variable {w w' : Cluster} {d : Did} {n : ℕ}

/-- The promise of the child is settled, and no worker from the `n`th on ever runs it. -/
structure Afresh (child : String) (n : ℕ) (w : Cluster) : Prop where
  inv : Inv child w
  settled : w.server.isSettled child = true
  begun : n ≤ w.workers.length
  workers : ∀ i x, n ≤ i → w.workers[i]? = some x →
    x.Under (afreshRegime x.core.sdk.codec x.sender child)

theorem Afresh.step (h : Afresh child n w) (hs : Step w d w') : Afresh child n w' := by
  have hinv := h.inv.step hs
  have hset : w'.server.isSettled child = true := by
    obtain ⟨p, hp, hst⟩ := ServerState.isSettled_iff.mp h.settled
    obtain ⟨q, hq, hk⟩ := h.inv.kept hs hp
    exact ServerState.isSettled_iff.mpr ⟨q, hq, (hk.outcome hst).1 ▸ hst⟩
  cases hs with
  | serve op hop => exact ⟨hinv, hset, h.begun, h.workers⟩
  | begin core sender taskId version fuel =>
    refine ⟨hinv, hset, ?_, fun i x hi hx => ?_⟩
    · rw [List.length_append]
      exact h.begun.trans (Nat.le_add_right _ _)
    · by_cases hlt : i < w.workers.length
      · rw [List.getElem?_append_left hlt] at hx
        exact h.workers i x hi hx
      · rw [List.getElem?_append_right (Nat.not_lt.mp hlt)] at hx
        obtain rfl := List.mem_singleton.mp (List.mem_of_getElem? hx)
        exact onMessage_afresh core sender taskId version fuel
  | work j y y' d s' hj hs =>
    refine ⟨hinv, hset, by rw [List.length_set]; exact h.begun, fun i x hi hx => ?_⟩
    rw [List.getElem?_set] at hx
    split_ifs at hx with hij hlt
    · subst hij
      obtain rfl := Option.some.inj hx
      have hunder := h.workers j y hi hj
      have hsame : y'.core = y.core ∧ y'.sender = y.sender := by
        cases hs <;> exact ⟨rfl, rfl⟩
      rw [hsame.1, hsame.2]
      refine hunder.step hs fun f op hd => ?_
      subst hd
      obtain ⟨subNow, serverNow, req, effects, -, he, hr, rfl, hans⟩ := hunder.sent hs
      have hdeliver : s' = w.server.deliver (.apply serverNow (unwrapRequestEnvelope req)) := by
        obtain ⟨g, op, hd, hserver⟩ | ⟨hno, -⟩ := hs.server
        · obtain ⟨-, rfl⟩ := Handling.Did.sent.inj hd
          exact hserver
        · exact absurd rfl (hno _ _)
      obtain ⟨path, c, sent, answer⟩ := f
      obtain rfl : answer = _ := hans
      refine Flight.afresh_send h.inv.coherent hr he ?_
      rw [← hdeliver]
      exact ServerState.not_isPending_of_isSettled hset
    · exact h.workers i x hi hx

/-- Once the promise of a child is settled, no worker that takes up an execute message
afterwards ever runs the child, whatever functions it runs, whatever becomes of its requests
and whatever others do. -/
theorem settled_child_not_run (ds ds' : List Did) (w w' : Cluster) (child : String)
    (h : Trace Step .init ds w) (hset : w.server.isSettled child = true)
    (h' : Trace Step w ds' w') (i : ℕ) (x : Handling) (hi : w.workers.length ≤ i)
    (hx : w'.workers[i]? = some x) (path : List ℕ) : ¬ CallsAt path x.node (.execute child) := by
  intro hcall
  have hstart : Afresh child w.workers.length w :=
    ⟨(Inv.init child).trace h, hset, le_refl _, fun j y hj hy => by
      rw [List.getElem?_eq_none hj] at hy
      cases hy⟩
  have hI := h'.invariant (I := fun _ w => Afresh child _ w) hstart
    fun _ _ _ _ _ hI hs => hI.step hs
  exact (hI.workers i x hi hx).callsAt hcall rfl

section Charge

open Handling (about about_atOnce about_send about_receive checkoutCore)

variable {s : ServerState} {core : Core} {c : Cmd} {k : c.Answer → Prog}
  {effects : List (ℕ × Effects)} {ds : List Did}

theorem issued {a : c.Answer} (h : Trace Step w ds ⟨s, [about core sender c k effects]⟩)
    (ha : c.AtOnce (Handling.effectsAt [] effects) a) :
    Trace Step w (ds ++ [.worked (.answered [] ⟨c, a⟩)])
      ⟨s, [⟨core, sender, .mk (k a) [], (about core sender c k effects).opened c, []⟩]⟩ :=
  h.snoc (.work _ 0 _ _ _ _ rfl (about_atOnce ha))

theorem exchanged (h : Trace Step w ds ⟨s, [about core sender c k effects]⟩) (now : Int)
    {req : Json} {e : Option Effects} {a : c.Answer}
    (hr : c.request sender (fun _ => now) now (Handling.effectsAt [] effects) = some req)
    (ha : c.reply sender now (Handling.effectsAt [] effects) (s.send now req).2 = some (e, a)) :
    ∃ d, Trace Step w (ds ++ [.worked d] ++ [.worked (.answered [] ⟨c, a⟩)])
      ⟨s.deliver (.apply now (unwrapRequestEnvelope req)),
        [⟨core, sender, .mk (k a) [], (about core sender c k effects).told [] e, []⟩]⟩ :=
  ⟨_, (h.snoc (.work _ 0 _ _ _ _ rfl (about_send (fun _ => now) now now hr))).snoc
    (.work _ 0 _ _ _ _ rfl (about_receive ha))⟩

def chargeText : String := "eyJmdW5jIjoiY2hlY2tvdXQiLCJhcmdzIjpudWxsfQ=="

def chargeCore : Core :=
  { checkoutCore .ok with
    sdk := { (checkoutCore .ok).sdk with
      codec := singleCodec (paramData "checkout" .null)
        "\x7b\"func\":\"checkout\",\"args\":null\x7d" chargeText } }

def chargeOp : Op :=
  .apply 0 (unwrapRequestEnvelope (envelope "promise.create" ⟨"c0", none⟩ (PromiseCreateReq.toJson
    { id := "t", timeoutAt := 1000, param := { data := some (.str chargeText) }
      tags := [⟨"resonate:target", "local://any@default"⟩].toAList })))

def childOp : Op := .apply 0 (.obj [("kind", .str "promise.create"), ("id", .str "t:0"),
  ("timeoutAt", .num 10)])

def childSettled : Op := .apply 1 (.obj [("kind", .str "promise.settle"), ("id", .str "t:0"),
  ("state", .str "resolved")])

def settledServer : ServerState :=
  ((ServerState.init.deliver chargeOp).deliver childOp).deliver childSettled

def chargePromise : PromiseRecord where
  id := "t"
  state := .pending
  param := { data := some (paramData "checkout" .null) }
  value := { data := some .null }
  tags := [⟨"resonate:target", "local://any@default"⟩].toAList
  timeoutAt := 1000
  createdAt := 0
  settledAt := none

def chargeGrant : TaskAcquireResult where
  task := ⟨"t", .acquired, 0, .null, some 60000, some "w1"⟩
  promise := { chargePromise with param := { data := some (.str chargeText) }, value := {} }
  preload := []

def chargeCall : Cmd :=
  .create .run [⟨0, false⟩] ⟨[], 0⟩
    { id := "t:0"
      timeoutAt := 1000
      param := { data := some (.num 1) }
      tags := (Core.rootContext chargePromise ⟨"checkout", .null⟩).childTags "local" "t" "t" }

def chargedRecord : PromiseRecord where
  id := "t:0"
  state := .resolved
  param := { data := some .null }
  value := { data := some .null }
  tags := ∅
  timeoutAt := 10
  createdAt := 0
  settledAt := some 1

theorem charge_program : ∃ k₁, chargeCore.executeUntilBlocked "t" 0 chargePromise 1 [] =
      .call (.heartbeatStart "t" 0) k₁ ∧ ∃ k₂, k₁ () = .call (.effects "t" 0 []) k₂ ∧
    ∃ k₃, k₂ () = .call .now k₃ ∧ ∃ k₄, k₃ (3 : Int) = .call chargeCall k₄ :=
  ⟨_, rfl, _, rfl, _, rfl, _, rfl⟩

def heldServer : ServerState := settledServer.deliver
  (.apply 2 (unwrapRequestEnvelope (acquireRequest ⟨"sr-2", none⟩ "t" 0 "w1" 60000)))

theorem charge_acquired : ∃ ds, Trace Step ⟨settledServer, []⟩ ds
    ⟨heldServer, [⟨chargeCore, ⟨none⟩, .mk (chargeCore.executeUntilBlocked "t" 0 chargePromise 1 [])
      [], [], []⟩]⟩ := by
  obtain ⟨d, h⟩ := exchanged (c := .acquire "t" 0 "w1" 60000) (a := .ok chargeGrant) (e := none)
    (Trace.nil.snoc (Step.begin ⟨settledServer, []⟩ chargeCore ⟨none⟩ "t" 0 1)) 2 rfl rfl
  exact ⟨_, h⟩

/-- A worker takes up "t" after its first child was settled, and the creation of the child is
answered with the settled record. -/
theorem settled_child_not_run_created : ∃ ds w ds' w' x, Trace Step .init ds w ∧
    w.server.isSettled "t:0" = true ∧ w.workers = [] ∧
    Trace Step w
      (ds' ++ [.worked (.answered [] ⟨chargeCall, (.ok chargedRecord : Except Error _)⟩)]) w' ∧
    w'.workers[0]? = some x ∧ ∀ path, ¬ CallsAt path x.node (.execute "t:0") := by
  have hplace := Step.serve .init chargeOp (typed_of_not_settle rfl (by decide))
  have hcreate := Step.serve ⟨ServerState.init.deliver chargeOp, []⟩ childOp
    (typed_of_not_settle rfl (by decide))
  have hsettle := Step.serve ⟨(ServerState.init.deliver chargeOp).deliver childOp, []⟩ childSettled
    ⟨fun r hr => by obtain rfl := Option.some.inj hr; decide, fun hk => by cases hk⟩
  have h := ((Trace.nil.snoc hplace).snoc hcreate).snoc hsettle
  have hset : settledServer.isSettled "t:0" = true := rfl
  obtain ⟨ds', hrun⟩ := charge_acquired
  obtain ⟨k₁, h₁, k₂, h₂, k₃, h₃, k₄, h₄⟩ := charge_program
  rw [h₁] at hrun
  have hrun := issued (c := .heartbeatStart "t" 0) (a := ()) hrun trivial
  rw [h₂] at hrun
  have hrun := issued (c := .effects "t" 0 []) (a := ()) hrun trivial
  rw [h₃] at hrun
  have hrun := issued (c := .now) (a := (3 : Int)) hrun trivial
  rw [h₄] at hrun
  obtain ⟨d, hrun⟩ := exchanged (c := chargeCall) (a := .ok chargedRecord) (e := some _) hrun 3 rfl rfl
  exact ⟨_, _, _, _, _, h, hset, rfl, hrun, rfl,
    settled_child_not_run _ _ _ _ "t:0" h hset hrun 0 _ (le_refl _) rfl⟩

end Charge

end Cluster

end Resonate
