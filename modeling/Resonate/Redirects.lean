import Resonate.Caches
import Resonate.Lib.Trace
import Resonate.Suspension

/-!
# Redirects

The handling of a task that was acquired, beside a server that serves whoever else there is.
An execution waits for promises it was shown pending after the acquisition, or after the last
suspension. So a suspension is only redirected when some promise has left pending since, and
there are no more re-executions than settlements.
-/

namespace Resonate
open Lib Lib.ForkJoin Network

/-- The acquisition of a task by an execute message, or by its creation, on a server that has
served any requests and ticks. -/
inductive Acquired : ServerState → String → TaskAcquireResult → Prop
  | acquire (ops : List Op) (hops : ∀ op ∈ ops, op.Typed) (now : Int) (head : Head) (id : String)
      (version : Int) (pid : String) (ttl : Int) (result : TaskAcquireResult)
      (h : acquireResult head ((ServerState.init.run ops).send now
        (acquireRequest head id version pid ttl)).2 = .ok result) :
      Acquired ((ServerState.init.run ops).deliver (.apply now (unwrapRequestEnvelope
        (acquireRequest head id version pid ttl)))) id result
  | create (ops : List Op) (hops : ∀ op ∈ ops, op.Typed) (now : Int) (head subHead : Head)
      (pid : String) (ttl : Int) (action : PromiseCreateReq) (result : TaskAcquireResult)
      (h : createResult head ((ServerState.init.run ops).send now
        (createRequestOf head subHead pid ttl action)).2 = .ok result) :
      Acquired ((ServerState.init.run ops).deliver (.apply now (unwrapRequestEnvelope
        (createRequestOf head subHead pid ttl action)))) result.task.id result

structure Held where
  server : ServerState
  worker : Handling

def Flight.redirected (sender : Sender) (f : Flight) : Bool :=
  match f.cmd with
  | .suspend .. => match suspendResult (sender.makeHead f.sent) f.answer with
    | .ok (.redirect _) => true
    | _ => false
  | _ => false

namespace Held

inductive Did where
  | served (op : Op)
  | worked (d : Handling.Did)

structure Label where
  did : Did
  left : List String

inductive Step : Held → Label → Held → Prop
  | serve (w : Held) (op : Op) (hop : op.Typed) :
      Step w ⟨.served op, w.server.left (w.server.deliver op)⟩
        { w with server := w.server.deliver op }
  | work (w : Held) (d : Handling.Did) (s' : ServerState) (x' : Handling)
      (hs : w.worker.Step w.server d s' x') : Step w ⟨.worked d, w.server.left s'⟩ ⟨s', x'⟩

def start (s : ServerState) (core : Core) (sender : Sender) (taskId : String)
    (result : TaskAcquireResult) (promise : PromiseRecord) (fuel : ℕ) : Held :=
  ⟨s, .start core sender
    (core.executeUntilBlocked taskId result.task.version promise fuel result.preload)⟩

def Label.Suspends (l : Label) : Prop :=
  ∃ f op id version actions, l.did = .worked (.sent f op) ∧ f.cmd = .suspend id version actions

def Label.redirected (sender : Sender) (l : Label) : Bool :=
  match l.did with
  | .worked (.sent f _) => f.redirected sender
  | _ => false

def Label.settlements (l : Label) : ℕ := l.left.length

def Label.executes (l : Label) : Bool :=
  match l.did with
  | .worked (.answered _ ⟨.effects .., _⟩) => true
  | _ => false

def reexecutions (ls : List Label) : ℕ := ls.countP Label.executes - 1

/-- The promises that may be called pending: those that are, or all of them when some
promise has left pending since the last suspension. -/
def seen (fresh : Prop) (s : ServerState) : Set String := {id | fresh ∨ s.isPending id = true}

/-- The root and the tasks of the current execution, from the number `base` on, may call the
promises of a set pending. -/
structure Going (taskId : String) (known : Set String) (base : ℕ) (mode : Mode) (p : Prog)
    (kids : List (Node Cmd Cmd.Answer End)) : Prop where
  safe : p.Safe (backing taskId) ⟨known, mode, {i | base ≤ i}⟩
  spawned : ∀ i n, base ≤ i → kids[i]? = some n → Within taskId known n

section Going

variable {taskId : String} {known known' : Set String} {base : ℕ} {mode : Mode} {p : Prog}
variable {kids : List (Node Cmd Cmd.Answer End)} {path : List ℕ} {l : Lib.ForkJoin.Label Cmd Cmd.Answer}
variable {n : Node Cmd Cmd.Answer End}

theorem Going.mono (h : Going taskId known base mode p kids) (hk : known ⊆ known') :
    Going taskId known' base mode p kids where
  safe := h.safe.mono (backing_monotone taskId) ⟨hk, rfl, fun _ hi => hi⟩
  spawned i n hi hn := (h.spawned i n hi hn).mono hk

theorem Going.stepAt (h : Going taskId known base mode p kids) (hb : base ≤ kids.length)
    (hs : StepAt path (.mk p kids) l n)
    (hl : Handling.owns base path = true → ∀ e ∈ l.event, e.1.Answered known e.2)
    (hroot : path = [] → ∀ e ∈ l.event, (∀ id v actions, e.1 ≠ .suspend id v actions) ∧
      ∀ id v preload, e.1 ≠ .effects id v preload) :
    ∃ p' kids', n = .mk p' kids' ∧ Going taskId known base mode p' kids' ∧
      kids.length ≤ kids'.length ∧ (mode = .idle → kids'.length = kids.length) := by
  cases hs with
  | call c k kids a =>
    have hans : c.Answered known a := hl rfl ⟨c, a⟩ (List.mem_singleton_self _)
    obtain ⟨hsus, heff⟩ := hroot rfl ⟨c, a⟩ (List.mem_singleton_self _)
    exact ⟨_, _, rfl, ⟨h.safe.2 a _ (Ghost.after_self hans hsus heff), h.spawned⟩, le_refl _,
      fun _ => rfl⟩
  | fork child k kids =>
    refine ⟨_, _, rfl, ⟨h.safe.2.2 _ _ ⟨Ghost.le_refl _, hb⟩, fun i n hi hn => ?_⟩, by simp,
      fun hm => ?_⟩
    · rcases lt_or_ge i kids.length with hlt | hge
      · rw [List.getElem?_append_left hlt] at hn
        exact h.spawned i n hi hn
      · rw [List.getElem?_append_right hge] at hn
        rw [List.mem_singleton.mp (List.mem_of_getElem? hn)]
        exact .mk _ _ (h.safe.2.1 _ ⟨fun _ hid => hid, rfl⟩) fun _ hm => by cases hm
    · have hx : mode = .live ∨ mode = .child := h.safe.1
      rw [hm] at hx
      rcases hx with hx | hx <;> cases hx
  | join i k kids o ho =>
    obtain ⟨m, hm, hres⟩ := Option.bind_eq_some_iff.mp ho
    have htodos : base ≤ i → ∀ id ∈ o.todos, id ∈ known := fun hi =>
      (h.spawned i m hi hm).result hres
    exact ⟨_, _, rfl, ⟨h.safe o _ ⟨Ghost.le_refl _, htodos⟩, h.spawned⟩, le_refl _, fun _ => rfl⟩
  | kid p kids i path m m' l hi hs =>
    refine ⟨_, _, rfl, ⟨h.safe, fun j n hj hn => ?_⟩, by simp, fun _ => by simp⟩
    rw [List.getElem?_set] at hn
    split_ifs at hn with hij hlt
    · subst hij
      obtain rfl := Option.some.inj hn
      refine (h.spawned i m hj hi).stepAt hs fun e he => hl (decide_eq_true hj) e ?_
      rwa [Label.event_lower]
    · exact h.spawned j n hj hn

theorem within_stepAt {p' : Prog} {kids' : List (Node Cmd Cmd.Answer End)} {g : Ghost}
    (hp : p.Safe (backing taskId) g) (hk : ∀ n ∈ kids, Within taskId Set.univ n)
    (hs : StepAt path (.mk p kids) l (.mk p' kids')) : ∀ n ∈ kids', Within taskId Set.univ n := by
  cases hs with
  | call c k kids a => exact hk
  | fork child k kids =>
    intro n hn
    rcases List.mem_append.mp hn with hn | hn
    · exact hk n hn
    · rw [List.mem_singleton.mp hn]
      exact .mk _ _ (hp.2.1 _ ⟨fun _ _ => trivial, rfl⟩) fun _ hm => by cases hm
  | join i k kids o ho => exact hk
  | kid p kids i path m m' l hi hs =>
    intro n hn
    rcases List.mem_or_eq_of_mem_set hn with hn | rfl
    · exact hk n hn
    · exact (hk m (List.mem_of_getElem? hi)).stepAt hs fun e _ => Cmd.answered_univ e.1 e.2

end Going

/-- The cache of the current execution: there is none yet, or its pending records may be
called pending. -/
inductive Cached (known : Set String) (sender : Sender) (base spawned : ℕ) :
    Mode → List (ℕ × Effects) → Prop
  | idle (effects : List (ℕ × Effects)) (hb : base = spawned) :
      Cached known sender base spawned .idle effects
  | live (e : Effects) (rest : List (ℕ × Effects)) (hb : base ≤ spawned) (he : e.Backed known)
      (hs : e.sender = sender) : Cached known sender base spawned .live ((base, e) :: rest)

/-- How far the handling is: it runs or may begin an execution, it has asked to suspend, or
its last execution is over. An execution may begin while there is one to spare. -/
inductive Phase (taskId : String) (fresh : Prop) (spare : ℕ) (s : ServerState) (x : Handling)
    (kids : List (Node Cmd Cmd.Answer End)) : Prog → Prop
  | going (p : Prog) (base : ℕ) (mode : Mode) (hg : Going taskId (seen fresh s) base mode p kids)
      (hc : Cached (seen fresh s) x.sender base kids.length mode x.effects)
      (hf : ∀ f ∈ x.flights, Handling.owns base f.path = true → f.Backed x.sender (seen fresh s))
      (hr : fresh ∨ s.Rested taskId) (hm : mode = .idle → 0 < spare) :
      Phase taskId fresh spare s x kids p
  | asked (id : String) (v : Int) (actions : List PromiseRegisterCallbackData)
      (k : Except Error SuspendResult → Prog) (g : Ghost)
      (hp : (Proc.call (Cmd.suspend id v actions) k : Prog).Safe (backing taskId) g)
      (hf : ∃ f ∈ x.flights, f.path = [])
      (hr : ∀ f ∈ x.flights, f.path = [] → ∀ preload,
        suspendResult (x.sender.makeHead f.sent) f.answer = .ok (.redirect preload) →
          Known (seen fresh s) preload ∧ (fresh ∨ s.Rested taskId) ∧ 0 < spare) :
      Phase taskId fresh spare s x kids (.call (.suspend id v actions) k)
  | ended (p : Prog) (hg : Going taskId Set.univ 0 .over p kids) : Phase taskId fresh spare s x kids p

inductive Inv (taskId : String) (fresh : Prop) (spare : ℕ) (s : ServerState) (x : Handling) : Prop
  | mk (p : Prog) (kids : List (Node Cmd Cmd.Answer End)) (hn : x.node = .mk p kids)
      (hp : Phase taskId fresh spare s x kids p) (hk : ∀ n ∈ kids, Within taskId Set.univ n)
      (hf : ∀ f ∈ x.flights, ∀ i rest, f.path = i :: rest → i < kids.length) :
      Inv taskId fresh spare s x

section Invariant

variable {taskId : String} {fresh fresh' : Prop} {spare spare' : ℕ} {s s' : ServerState}
variable {x x' : Handling} {kids : List (Node Cmd Cmd.Answer End)} {p : Prog} {op : Op}

theorem Cached.mono {known known' : Set String} {sender : Sender} {base spawned : ℕ} {mode : Mode}
    {effects : List (ℕ × Effects)} (h : Cached known sender base spawned mode effects)
    (hk : known ⊆ known') : Cached known' sender base spawned mode effects := by
  cases h with
  | idle effects hb => exact .idle effects hb
  | live e rest hb he hs => exact .live e rest hb (he.mono hk) hs

theorem Phase.mono (h : Phase taskId fresh spare s x kids p) (hf : fresh → fresh')
    (hk : seen fresh s ⊆ seen fresh' s') (hr : s.Rested taskId → fresh' ∨ s'.Rested taskId) :
    Phase taskId fresh' spare s' x kids p := by
  have hrest : fresh ∨ s.Rested taskId → fresh' ∨ s'.Rested taskId := fun h =>
    h.elim (fun hfr => Or.inl (hf hfr)) hr
  cases h with
  | going p base mode hg hc hfl hr hm =>
    exact .going p base mode (hg.mono hk) (hc.mono hk) (fun f hmem hown => (hfl f hmem hown).mono hk)
      (hrest hr) hm
  | asked id v actions k g hp hfl hr =>
    refine .asked id v actions k g hp hfl fun f hmem hpath preload hres => ?_
    obtain ⟨hknown, hr, hs⟩ := hr f hmem hpath preload hres
    exact ⟨hknown.mono hk, hrest hr, hs⟩
  | ended p hg => exact .ended p hg

theorem Inv.mono (h : Inv taskId fresh spare s x) (hf : fresh → fresh') :
    Inv taskId fresh' spare s x := by
  cases h with
  | mk p kids hn hp hk hfl =>
    exact .mk p kids hn (hp.mono hf (fun id hid => hid.imp_left hf) Or.inr) hk hfl

theorem advance (hc : Coherent s) (hop : op.Typed) :
    seen fresh s ⊆ seen (fresh ∨ 0 < (s.left (s.deliver op)).length) (s.deliver op) ∧
      (s.Rested taskId → (fresh ∨ 0 < (s.left (s.deliver op)).length) ∨
        (s.deliver op).Rested taskId) := by
  refine ⟨fun id hid => ?_, fun hr => ?_⟩
  · rcases hid with hfr | hpend
    · exact Or.inl (Or.inl hfr)
    · rcases Nat.eq_zero_or_pos (s.left (s.deliver op)).length with hz | hpos
      · exact Or.inr (isPending_of_left_nil (List.length_eq_zero_iff.mp hz) hpend)
      · exact Or.inl (Or.inr hpos)
  · rcases deliver_rested hc hop hr with hr' | ⟨a, ha⟩
    · exact Or.inr hr'
    · exact Or.inl (Or.inr (List.length_pos_of_mem ha))

theorem Inv.serve (h : Inv taskId fresh spare s x) (hc : Coherent s) (hop : op.Typed) :
    Inv taskId (fresh ∨ 0 < (s.left (s.deliver op)).length) spare (s.deliver op) x := by
  obtain ⟨hk, hr⟩ := advance hc hop
  cases h with
  | mk p kids hn hp hkids hfl => exact .mk p kids hn (hp.mono Or.inl hk hr) hkids hfl

theorem Phase.safe (h : Phase taskId fresh spare s x kids p) : ∃ g, p.Safe (backing taskId) g := by
  cases h with
  | going p base mode hg hc hfl hr hm => exact ⟨_, hg.safe⟩
  | asked id v actions k g hp hfl hr => exact ⟨g, hp⟩
  | ended p hg => exact ⟨_, hg.safe⟩

theorem Going.owned {known : Set String} {sender : Sender} {base : ℕ} {mode : Mode}
    {effects : List (ℕ × Effects)} {path : List ℕ} {c : Cmd}
    (h : Going taskId known base mode p kids) (hc : Cached known sender base kids.length mode effects)
    (hcall : CallsAt path (.mk p kids) c) (hown : Handling.owns base path = true) :
    (∃ e, Handling.effectsAt path effects = some e ∧ e.Backed known ∧ e.sender = sender) ∨
      mode = .idle ∧ ¬ c.Durable := by
  cases hc with
  | live e rest hb he hs => exact Or.inl ⟨e, by rw [Handling.effectsAt, if_pos hown], he, hs⟩
  | idle effects hb =>
    refine Or.inr ⟨rfl, fun hd => ?_⟩
    rcases hcall.root_or_kid with ⟨rfl, k, rfl⟩ | ⟨i, rest, n, rfl, hi, hcall⟩
    · have hx : Ghost.Executes ⟨known, .idle, {i | base ≤ i}⟩ := h.safe.1.executes hd
      rcases hx with hx | hx <;> cases hx
    · have hle : base ≤ i := of_decide_eq_true hown
      have hlt := (List.getElem?_eq_some_iff.mp hi).1
      omega

theorem Inv.fulfills (h : Inv taskId fresh spare s x) {path : List ℕ} {c : Cmd}
    (hcall : CallsAt path x.node c) : ∀ id v action, c = .fulfill id v action → action.id = id := by
  intro id v action heq
  subst heq
  cases h with
  | mk p kids hn hp hk hfl =>
    rw [hn] at hcall
    rcases hcall.root_or_kid with ⟨rfl, k, rfl⟩ | ⟨i, rest, n, rfl, hi, hcall⟩
    · obtain ⟨g, hsafe⟩ := hp.safe
      exact hsafe.1.2.2.trans hsafe.1.2.1.symm
    · exact absurd rfl ((hk n (List.mem_of_getElem? hi)).callsAt hcall).1

theorem Flight.redirected_iff {sender : Sender} {f : Flight} {id : String} {v : Int}
    {actions : List PromiseRegisterCallbackData} (hf : f.cmd = .suspend id v actions) :
    f.redirected sender = true ↔
      ∃ preload, suspendResult (sender.makeHead f.sent) f.answer = .ok (.redirect preload) := by
  unfold Flight.redirected
  rw [hf]
  cases suspendResult (sender.makeHead f.sent) f.answer with
  | error e => simp
  | ok r => cases r <;> simp

theorem Inv.send (h : Inv taskId fresh spare s x) (hc : Coherent s) {path : List ℕ} {c : Cmd}
    {subNow : ℕ → Int} {now serverNow : Int} {req : Json} (hcall : CallsAt path x.node c)
    (hfree : ∀ f ∈ x.flights, f.path ≠ path)
    (hr : c.request x.sender subNow now (Handling.effectsAt path x.effects) = some req)
    (hs : ∀ id v actions, c ≠ .suspend id v actions) :
    Inv taskId
      (fresh ∨ 0 < (s.left (s.deliver (.apply serverNow (unwrapRequestEnvelope req)))).length) spare
      (s.deliver (.apply serverNow (unwrapRequestEnvelope req)))
      { x with flights := ⟨path, c, now, (s.send serverNow req).2⟩ :: x.flights } := by
  have hop : (Op.apply serverNow (unwrapRequestEnvelope req)).Typed :=
    Cmd.request_typed hr (h.fulfills hcall)
  have hserve := h.serve hc hop
  cases h with
  | mk p kids hn hp hk hfl =>
    cases hserve with
    | mk p' kids' hn' hp' hk' hfl' =>
      obtain ⟨rfl, rfl⟩ := Node.mk.inj (hn.symm.trans hn')
      rw [hn] at hcall
      refine .mk p kids hn ?_ hk fun f hf i rest hpath => ?_
      · cases hp' with
        | going p base mode hg hc' hfl' hr' hm =>
          refine .going p base mode hg hc' (fun f hf hown => ?_) hr' hm
          rcases List.mem_cons.mp hf with rfl | hf
          · refine Flight.Backed.mono (Flight.backed_send hc hr (fun hd e he => ?_) hs)
              fun id hid => Or.inr hid
            rcases hg.owned hc' hcall hown with ⟨e', he', -, hsender⟩ | ⟨-, hno⟩
            · obtain rfl := Option.some.inj (he.symm.trans he')
              exact hsender
            · exact absurd hd hno
          · exact hfl' f hf hown
        | asked id v actions k g hsafe hroot hr' =>
          obtain ⟨f₀, hf₀, hpath₀⟩ := hroot
          refine .asked id v actions k g hsafe ⟨f₀, List.mem_cons_of_mem _ hf₀, hpath₀⟩
            fun f hf hpath => ?_
          rcases List.mem_cons.mp hf with rfl | hf
          · exact absurd (hpath₀.trans hpath.symm) (hfree f₀ hf₀)
          · exact hr' f hf hpath
        | ended p hg => exact .ended p hg
      · rcases List.mem_cons.mp hf with rfl | hf
        · rcases hcall.root_or_kid with ⟨hnil, -⟩ | ⟨j, rest', n, hcons, hj, -⟩
          · exact absurd (hpath.symm.trans hnil) (List.cons_ne_nil _ _)
          · obtain ⟨rfl, -⟩ := List.cons.inj (hpath.symm.trans hcons)
            exact (List.getElem?_eq_some_iff.mp hj).1
        · exact hfl f hf i rest hpath

/-- A suspension is redirected only if some promise has left pending since the last one, or
does so now. -/
theorem Inv.suspend (h : Inv taskId fresh spare s x) (hc : Coherent s) {path : List ℕ}
    {id : String} {v : Int} {actions : List PromiseRegisterCallbackData} {subNow : ℕ → Int}
    {now serverNow : Int} {req : Json} (hcall : CallsAt path x.node (.suspend id v actions))
    (hfree : ∀ f ∈ x.flights, f.path ≠ path)
    (hr : (Cmd.suspend id v actions).request x.sender subNow now
      (Handling.effectsAt path x.effects) = some req) :
    let s' := s.deliver (.apply serverNow (unwrapRequestEnvelope req))
    let f : Flight := ⟨path, .suspend id v actions, now, (s.send serverNow req).2⟩
    (f.redirected x.sender = true → fresh ∨ 0 < (s.left s').length) ∧
      Inv taskId False (spare + if f.redirected x.sender then 1 else 0) s'
        { x with flights := f :: x.flights } := by
  intro s' f
  obtain rfl := Option.some.inj hr
  cases h with
  | mk p kids hn hp hk hfl =>
    rw [hn] at hcall
    rcases hcall.root_or_kid with ⟨rfl, k, rfl⟩ | ⟨i, rest, n, rfl, hi, hcall⟩
    · have hredir : f.redirected x.sender = true → ∃ preload,
          suspendResult (x.sender.makeHead now) f.answer = .ok (.redirect preload) :=
        (Flight.redirected_iff rfl).mp
      cases hp with
      | going p base mode hg hcache hback hrest hm =>
        obtain ⟨-, rfl, hawaits⟩ := hg.safe.1
        refine ⟨fun hf => ?_, .mk _ kids hn ?_ hk fun f' hf' i rest hpath => ?_⟩
        · obtain ⟨preload, hres⟩ := hredir hf
          obtain ⟨-, -, hleft⟩ := suspend_redirect hc hres
          by_contra hno
          obtain ⟨hnf, hz⟩ := not_or.mp hno
          obtain ⟨a, ha⟩ := hleft (hrest.resolve_left hnf) fun b hb => by
            obtain ⟨i, hi, rfl⟩ := List.mem_mapIdx.mp hb
            exact (hawaits _ (List.getElem_mem hi)).resolve_left hnf
          exact hz (List.length_pos_of_mem ha)
        · refine .asked id v actions k _ hg.safe ⟨f, List.mem_cons_self, rfl⟩
            fun f' hf' hpath preload hres => ?_
          rcases List.mem_cons.mp hf' with rfl | hf'
          · obtain ⟨hrested, hshows, -⟩ := suspend_redirect hc hres
            refine ⟨fun r hmem hst => Or.inr ((hshows r hmem).pending hst), Or.inr hrested, ?_⟩
            have hyes : f.redirected x.sender = true := (Flight.redirected_iff rfl).mpr ⟨preload, hres⟩
            rw [if_pos hyes]
            omega
          · exact absurd hpath (hfree f' hf')
        · rcases List.mem_cons.mp hf' with rfl | hf'
          · cases hpath
          · exact hfl f' hf' i rest hpath
      | asked id v actions k g hsafe hroot hr' =>
        obtain ⟨f₀, hf₀, hpath₀⟩ := hroot
        exact absurd hpath₀ (hfree f₀ hf₀)
      | ended p hg =>
        obtain ⟨hm | hm, -⟩ := hg.safe.1 <;> cases hm
    · exact absurd rfl (((hk n (List.mem_of_getElem? hi)).calls hcall).1 id v actions)

theorem Cached.grow {known : Set String} {sender : Sender} {base spawned spawned' : ℕ} {mode : Mode}
    {effects : List (ℕ × Effects)} (h : Cached known sender base spawned mode effects)
    (hle : spawned ≤ spawned') (heq : mode = .idle → spawned' = spawned) :
    Cached known sender base spawned' mode effects := by
  cases h with
  | idle effects hb => exact .idle effects (hb.trans (heq rfl).symm)
  | live e rest hb he hs => exact .live e rest (hb.trans hle) he hs

theorem Cached.base_le {known : Set String} {sender : Sender} {base spawned : ℕ} {mode : Mode}
    {effects : List (ℕ × Effects)} (h : Cached known sender base spawned mode effects) :
    base ≤ spawned := by
  cases h with
  | idle effects hb => exact hb.le
  | live e rest hb he hs => exact hb

def Agrees (taskId : String) (x : Handling) (path : List ℕ) (l : Lib.ForkJoin.Label Cmd Cmd.Answer)
    (effects : List (ℕ × Effects)) : Prop :=
  ∀ known base mode p kids, x.node = .mk p kids → Going taskId known base mode p kids →
    Cached known x.sender base kids.length mode x.effects →
    (∀ f ∈ x.flights, Handling.owns base f.path = true → f.Backed x.sender known) →
      (Handling.owns base path = true → ∀ e ∈ l.event, e.1.Answered known e.2) ∧
        Cached known x.sender base kids.length mode effects

theorem Inv.quiet (h : Inv taskId fresh spare s x) {path : List ℕ}
    {l : Lib.ForkJoin.Label Cmd Cmd.Answer} {n : Node Cmd Cmd.Answer End}
    {effects : List (ℕ × Effects)} {flights : List Flight} (hs : StepAt path x.node l n)
    (hroot : path = [] → ∀ e ∈ l.event, (∀ id v actions, e.1 ≠ .suspend id v actions) ∧
      ∀ id v preload, e.1 ≠ .effects id v preload)
    (hans : Agrees taskId x path l effects) (hsub : ∀ f ∈ flights, f ∈ x.flights)
    (hkeep : path ≠ [] → ∀ f ∈ x.flights, f.path = [] → f ∈ flights) :
    Inv taskId fresh spare s { x with node := n, effects, flights } := by
  cases h with
  | mk p kids hn hp hk hfl =>
    have hs' := hs
    rw [hn] at hs'
    obtain ⟨g, hsafe⟩ := hp.safe
    have hinv : ∀ p' kids', n = .mk p' kids' → kids.length ≤ kids'.length →
        Phase taskId fresh spare s { x with node := n, effects, flights } kids' p' →
        Inv taskId fresh spare s { x with node := n, effects, flights } := by
      rintro p' kids' rfl hle hphase
      refine .mk p' kids' rfl hphase (within_stepAt hsafe hk hs') fun f hf i rest hpath => ?_
      exact (hfl f (hsub f hf) i rest hpath).trans_le hle
    cases hp with
    | going p base mode hg hc hback hr hm =>
      obtain ⟨hev, hc'⟩ := hans _ base mode p kids hn hg hc hback
      obtain ⟨p', kids', hn', hg', hle, hidle⟩ := hg.stepAt hc.base_le hs' hev hroot
      refine hinv p' kids' hn' hle (.going p' base mode hg' (hc'.grow hle hidle) ?_ hr hm)
      exact fun f hf hown => hback f (hsub f hf) hown
    | asked id v actions k g hp hroot' hr =>
      rcases hs'.of_call with ⟨rfl, a, rfl, -⟩ | ⟨hpath, kids', hn', hlen⟩
      · exact absurd rfl ((hroot rfl ⟨_, a⟩ (List.mem_singleton_self _)).1 id v actions)
      · obtain ⟨f₀, hf₀, hpath₀⟩ := hroot'
        exact hinv _ kids' hn' hlen.ge (.asked id v actions k g hp
          ⟨f₀, hkeep hpath f₀ hf₀ hpath₀, hpath₀⟩
          fun f hf hpath => hr f (hsub f hf) hpath)
    | ended p hg =>
      obtain ⟨p', kids', hn', hg', hle, -⟩ := hg.stepAt (Nat.zero_le _) hs'
        (fun _ e _ => Cmd.answered_univ e.1 e.2) hroot
      exact hinv p' kids' hn' hle (.ended p' hg')

theorem Inv.silent (h : Inv taskId fresh spare s x) {path : List ℕ} {n : Node Cmd Cmd.Answer End}
    (hs : StepAt path x.node .silent n) : Inv taskId fresh spare s { x with node := n } :=
  h.quiet hs (fun _ e he => by cases he)
    (fun known base mode p kids _ _ hc _ => ⟨fun _ e he => (by cases he), hc⟩) (fun _ hf => hf)
    fun _ _ hf _ => hf

theorem Inv.at_root (h : Inv taskId fresh spare s x) {path : List ℕ} {c : Cmd}
    (hcall : CallsAt path x.node c)
    (hc : (∃ id v actions, c = .suspend id v actions) ∨ ∃ id v preload, c = .effects id v preload) :
    path = [] := by
  cases h with
  | mk p kids hn hp hk hfl =>
    rw [hn] at hcall
    rcases hcall.root_or_kid with ⟨hpath, -⟩ | ⟨i, rest, n, rfl, hi, hcall⟩
    · exact hpath
    · obtain ⟨hsus, heff⟩ := (hk n (List.mem_of_getElem? hi)).calls hcall
      rcases hc with ⟨id, v, actions, rfl⟩ | ⟨id, v, preload, rfl⟩
      · exact absurd rfl (hsus id v actions)
      · exact absurd rfl (heff id v preload)

theorem Inv.atOnce (h : Inv taskId fresh spare s x) {path : List ℕ} {c : Cmd} {a : c.Answer}
    {l : Lib.ForkJoin.Label Cmd Cmd.Answer} {n : Node Cmd Cmd.Answer End}
    (hs : StepAt path x.node l n) (hl : l.event = [⟨c, a⟩])
    (ha : c.AtOnce (Handling.effectsAt path x.effects) a)
    (heff : ∀ id v preload, c ≠ .effects id v preload) :
    Inv taskId fresh spare s { x with node := n } := by
  have hsus : ∀ id v actions, c ≠ .suspend id v actions := by
    rintro id v actions rfl
    exact ha
  have hcall : CallsAt path x.node c := hs.callsAt (by rw [hl]; exact List.mem_singleton_self _)
  refine h.quiet hs (fun _ e he => ?_) (fun known base mode p kids hn hg hc hback =>
    ⟨fun hown e he => ?_, hc⟩)
    (fun _ hf => hf) fun _ _ hf _ => hf
  · rw [hl] at he
    rw [List.mem_singleton.mp he]
    exact ⟨hsus, heff⟩
  · rw [hl] at he
    rw [List.mem_singleton.mp he]
    rw [hn] at hcall
    rcases hg.owned hc hcall hown with ⟨e', he', hb, -⟩ | ⟨-, hno⟩
    · rw [he'] at ha
      exact ha.answered hb
    · exact Cmd.answered_of_not_durable hno

theorem Inv.begin (h : Inv taskId fresh spare s x) {path : List ℕ} {id : String} {v : Int}
    {preload : List PromiseRecord} {a : (Cmd.effects id v preload).Answer}
    {l : Lib.ForkJoin.Label Cmd Cmd.Answer} {n : Node Cmd Cmd.Answer End}
    (hfree : ∀ f ∈ x.flights, f.path ≠ path) (hs : StepAt path x.node l n)
    (hl : l.event = [⟨.effects id v preload, a⟩]) : ∃ spare', spare = spare' + 1 ∧
      Inv taskId fresh spare' s { x with node := n, effects := x.opened (.effects id v preload) } := by
  have hcall : CallsAt path x.node (.effects id v preload) :=
    hs.callsAt (by rw [hl]; exact List.mem_singleton_self _)
  obtain rfl := h.at_root hcall (Or.inr ⟨id, v, preload, rfl⟩)
  cases h with
  | mk p kids hn hp hk hfl =>
    rw [hn] at hs hcall
    rcases hcall.root_or_kid with ⟨-, k, rfl⟩ | ⟨i, rest, m, hnil, -⟩
    · obtain ⟨-, a', rfl, rfl⟩ | ⟨hpath, -⟩ := hs.of_call
      · cases hp with
        | going p base mode hg hc hback hr hm =>
          obtain ⟨rfl, hknown⟩ := hg.safe.1
          cases hc with
          | idle effects hb =>
            subst hb
            obtain ⟨spare', rfl⟩ : ∃ spare', spare = spare' + 1 := ⟨spare - 1, by have := hm rfl; omega⟩
            obtain ⟨hcached, hsender⟩ : (Effects.new x.sender x.core.sdk.codec id v preload).Backed
                (seen fresh s) ∧ _ := Effects.backed_new hknown
            have hspawned : x.spawned = kids.length := by rw [Handling.spawned, hn]
            refine ⟨spare', rfl, .mk _ kids rfl (.going _ kids.length .live ?_ ?_ ?_ hr ?_) hk hfl⟩
            · exact ⟨hg.safe.2 _ _ ⟨fun _ hid => hid, rfl⟩, hg.spawned⟩
            · rw [Handling.opened, hspawned]
              exact .live _ _ (le_refl _) hcached hsender
            · intro f hf hown
              cases hpath : f.path with
              | nil => exact absurd hpath (hfree f hf)
              | cons i rest =>
                rw [hpath] at hown
                have hle : kids.length ≤ i := of_decide_eq_true hown
                have hlt := hfl f hf i rest hpath
                omega
            · exact fun hm => by cases hm
        | ended p hg => cases hg.safe.1.1
      · exact absurd rfl hpath
    · cases hnil

theorem Cached.told {known : Set String} {base spawned : ℕ} {mode : Mode} {path : List ℕ}
    {e : Option Effects} (h : Cached known x.sender base spawned mode x.effects)
    (he : Handling.owns base path = true → ∀ e₁, e = some e₁ →
      e₁.Backed known ∧ e₁.sender = x.sender) :
    Cached known x.sender base spawned mode (x.told path e) := by
  obtain ⟨core, sender, node, effects, flights⟩ := x
  cases e with
  | none => exact h
  | some e₁ =>
    cases h with
    | idle effects hb => exact .idle _ hb
    | live e₀ rest hb he₀ hs =>
      simp only [Handling.told, Handling.setEffects]
      split_ifs with hown
      · obtain ⟨hb₁, hs₁⟩ := he hown e₁ rfl
        exact .live e₁ rest hb hb₁ hs₁
      · exact .live e₀ _ hb he₀ hs

theorem Inv.receive (h : Inv taskId fresh spare s x) {f : Flight} {a : f.cmd.Answer}
    {e : Option Effects} {l : Lib.ForkJoin.Label Cmd Cmd.Answer} {n : Node Cmd Cmd.Answer End}
    (hf : f ∈ x.flights) (hs : StepAt f.path x.node l n) (hl : l.event = [⟨f.cmd, a⟩])
    (hr : f.cmd.reply x.sender f.sent (Handling.effectsAt f.path x.effects) f.answer = some (e, a))
    (hsus : ∀ id v actions, f.cmd ≠ .suspend id v actions) :
    Inv taskId fresh spare s { x with
      node := n
      effects := x.told f.path e
      flights := x.flights.filter fun g => g.path ≠ f.path } := by
  have heff : ∀ id v preload, f.cmd ≠ .effects id v preload := by
    obtain ⟨path, cmd, sent, answer⟩ := f
    rintro id v preload rfl
    cases hr
  have hcall : CallsAt f.path x.node f.cmd := hs.callsAt (by rw [hl]; exact List.mem_singleton_self _)
  refine h.quiet hs (fun _ ev hev => ?_) (fun known base mode p kids hn hg hc hback => ?_)
    (fun g hg => List.mem_of_mem_filter hg) fun hpath g hg hroot => ?_
  · rw [hl] at hev
    rw [List.mem_singleton.mp hev]
    exact ⟨hsus, heff⟩
  · rw [hn] at hcall
    have hown : Handling.owns base f.path = true → f.cmd.Answered known a ∧
        ((∀ e₁, e = some e₁ → e₁.Backed known ∧ e₁.sender = x.sender) ∨ mode = .idle) := by
      intro hown
      rcases hg.owned hc hcall hown with ⟨e₀, he₀, hb, hsender⟩ | ⟨hm, hno⟩
      · rw [he₀] at hr
        obtain ⟨hans, hcache⟩ := (hback f hf hown).reply hb hsender hr
        exact ⟨hans, Or.inl hcache⟩
      · exact ⟨Cmd.answered_of_not_durable hno, Or.inr hm⟩
    refine ⟨fun ho ev hev => ?_, ?_⟩
    · rw [hl] at hev
      rw [List.mem_singleton.mp hev]
      exact (hown ho).1
    · cases mode with
      | idle =>
        cases hc with
        | idle effects hb => exact .idle _ hb
      | _ => exact hc.told fun ho => (hown ho).2.resolve_right (by simp)
  · refine List.mem_filter.mpr ⟨hg, decide_eq_true ?_⟩
    rw [hroot]
    exact Ne.symm hpath

theorem Inv.resume (h : Inv taskId fresh spare s x) {f : Flight} {a : f.cmd.Answer}
    {e : Option Effects} {l : Lib.ForkJoin.Label Cmd Cmd.Answer} {n : Node Cmd Cmd.Answer End}
    (hf : f ∈ x.flights) (hs : StepAt f.path x.node l n) (hl : l.event = [⟨f.cmd, a⟩])
    (hr : f.cmd.reply x.sender f.sent (Handling.effectsAt f.path x.effects) f.answer = some (e, a))
    {id : String} {v : Int} {actions : List PromiseRegisterCallbackData}
    (hsus : f.cmd = .suspend id v actions) :
    Inv taskId fresh spare s { x with
      node := n
      effects := x.told f.path e
      flights := x.flights.filter fun g => g.path ≠ f.path } := by
  have hcall : CallsAt f.path x.node f.cmd := hs.callsAt (by rw [hl]; exact List.mem_singleton_self _)
  have hpath := h.at_root hcall (Or.inl ⟨id, v, actions, hsus⟩)
  obtain ⟨path, cmd, sent, answer⟩ := f
  obtain rfl : path = [] := hpath
  obtain rfl : cmd = _ := hsus
  obtain ⟨-, rfl⟩ := Prod.mk.inj (Option.some.inj hr)
  cases h with
  | mk p kids hn hp hk hfl =>
    dsimp only at hs hcall
    rw [hn] at hs hcall
    have hflights : ∀ g ∈ x.flights.filter fun g => g.path ≠ [], ∀ i rest, g.path = i :: rest →
        i < kids.length := fun g hg => hfl g (List.mem_of_mem_filter hg)
    rcases hcall.root_or_kid with ⟨-, k, rfl⟩ | ⟨i, rest, m, hnil, -⟩
    · obtain ⟨-, a', rfl, rfl⟩ | ⟨hpath, -⟩ := hs.of_call
      · obtain ⟨-, heq⟩ := Sigma.mk.inj (List.singleton_inj.mp hl)
        obtain rfl := eq_of_heq heq
        cases hp with
        | going p base mode hg hc hback hr hm => exact (hback _ hf rfl).elim
        | ended p hg => obtain ⟨hm | hm, -⟩ := hg.safe.1 <;> cases hm
        | asked id v actions k g hp hroot hr' =>
          refine .mk _ kids rfl ?_ hk hflights
          cases hres : suspendResult (x.sender.makeHead sent) answer with
          | error err =>
            exact .ended _ ⟨hp.2 (.error err) _ rfl, fun i m _ hi => hk m (List.mem_of_getElem? hi)⟩
          | ok r =>
            cases r with
            | suspended =>
              exact .ended _ ⟨hp.2 (.ok .suspended) _ rfl,
                fun i m _ hi => hk m (List.mem_of_getElem? hi)⟩
            | redirect preload =>
              obtain ⟨hknown, hrest, hspare⟩ := hr' _ hf rfl preload hres
              refine .going _ kids.length .idle ⟨hp.2 (.ok (.redirect preload)) _ ⟨rfl, hknown⟩,
                fun i m hle hi => ?_⟩ (.idle _ rfl) (fun g hg hown => ?_) hrest fun _ => hspare
              · have hlt := (List.getElem?_eq_some_iff.mp hi).1
                omega
              · cases hpath : g.path with
                | nil => exact absurd hpath (of_decide_eq_true (List.mem_filter.mp hg).2)
                | cons i rest =>
                  rw [hpath] at hown
                  have hle : kids.length ≤ i := of_decide_eq_true hown
                  have hlt := hflights g hg i rest hpath
                  omega
      · exact absurd rfl hpath
    · cases hnil

theorem Label.executes_answered {path : List ℕ} {c : Cmd} {a : c.Answer} {left : List String}
    (h : ∀ id v preload, c ≠ .effects id v preload) :
    Label.executes ⟨.worked (.answered path ⟨c, a⟩), left⟩ = false := by
  cases c with
  | effects id v preload => exact absurd rfl (h id v preload)
  | _ => rfl

structure Advances (taskId : String) (fresh : Prop) (spare : ℕ) (w : Held) (l : Label) (w' : Held) :
    Prop where
  coherent : Coherent w'.server
  sender : w'.worker.sender = w.worker.sender
  used : l.redirected w.worker.sender = true → fresh ∨ 0 < l.settlements
  kept : ∃ spare', Inv taskId (¬ l.Suspends ∧ (fresh ∨ 0 < l.settlements)) spare' w'.server w'.worker ∧
    (if l.executes then 1 else 0) + spare' ≤
      spare + if l.redirected w.worker.sender then 1 else 0

theorem Advances.plain {w w' : Held} {l : Label} (hc : Coherent w'.server)
    (hsender : w'.worker.sender = w.worker.sender) (hsus : ¬ l.Suspends)
    (hred : l.redirected w.worker.sender = false) (hexec : l.executes = false)
    (h : Inv taskId (fresh ∨ 0 < l.settlements) spare w'.server w'.worker) :
    Advances taskId fresh spare w l w' where
  coherent := hc
  sender := hsender
  used hr := by rw [hred] at hr; cases hr
  kept := ⟨spare, h.mono fun hf => ⟨hsus, hf⟩, by simp [hred, hexec]⟩

theorem Inv.work (h : Inv taskId fresh spare s x) (hc : Coherent s) {d : Handling.Did}
    (hs : x.Step s d s' x') :
    Advances taskId fresh spare ⟨s, x⟩ ⟨.worked d, s.left s'⟩ ⟨s', x'⟩ := by
  cases hs with
  | send path c subNow now serverNow req hcall hfree hr =>
    have hop : (Op.apply serverNow (unwrapRequestEnvelope req)).Typed :=
      Cmd.request_typed hr (h.fulfills hcall)
    have hc' := deliver_coherent hc hop
    by_cases hsus : ∃ id v actions, c = .suspend id v actions
    · obtain ⟨id, v, actions, rfl⟩ := hsus
      obtain ⟨hused, hinv⟩ := h.suspend hc hcall hfree hr
      refine ⟨hc', rfl, hused, _, hinv.mono False.elim, ?_⟩
      simp only [Label.executes, Label.redirected, Bool.false_eq_true, if_false, Nat.zero_add]
      exact le_refl _
    · push Not at hsus
      refine .plain hc' rfl ?_ ?_ rfl (h.send hc hcall hfree hr hsus)
      · rintro ⟨f, op, id, v, actions, heq, hf⟩
        obtain ⟨rfl, -⟩ := Handling.Did.sent.inj (Did.worked.inj heq)
        exact hsus id v actions hf
      · cases c with
        | suspend id v actions => exact absurd rfl (hsus id v actions)
        | _ => rfl
  | receive f a e l n hf hst hl hr =>
    have heff : ∀ id v preload, f.cmd ≠ .effects id v preload := by
      obtain ⟨path, cmd, sent, answer⟩ := f
      rintro id v preload rfl
      cases hr
    refine .plain hc rfl (by rintro ⟨f', op, id, v, actions, heq, -⟩; cases heq) rfl
      (Label.executes_answered heff) (Inv.mono ?_ Or.inl)
    by_cases hsus : ∃ id v actions, f.cmd = .suspend id v actions
    · obtain ⟨id, v, actions, hsus⟩ := hsus
      exact h.resume hf hst hl hr hsus
    · push Not at hsus
      exact h.receive hf hst hl hr hsus
  | atOnce path c a l n hfree hst hl ha =>
    by_cases heff : ∃ id v preload, c = .effects id v preload
    · obtain ⟨id, v, preload, rfl⟩ := heff
      obtain ⟨spare', rfl, hinv⟩ := h.begin hfree hst hl
      refine ⟨hc, rfl, fun hr => (by cases hr), spare', hinv.mono fun hf => ⟨?_, Or.inl hf⟩, ?_⟩
      · rintro ⟨f', op, id, v, actions, heq, -⟩
        cases heq
      · simp only [Label.executes, Label.redirected, if_true]
        omega
    · push Not at heff
      have hopened : x.opened c = x.effects := by
        cases c with
        | effects id v preload => exact absurd rfl (heff id v preload)
        | _ => rfl
      refine .plain hc rfl (by rintro ⟨f', op, id, v, actions, heq, -⟩; cases heq) rfl
        (Label.executes_answered heff) (Inv.mono ?_ Or.inl)
      rw [hopened]
      exact h.atOnce hst hl ha heff
  | silent path n hst =>
    refine .plain hc rfl (by rintro ⟨f', op, id, v, actions, heq, -⟩; cases heq) rfl rfl ?_
    exact (h.silent hst).mono Or.inl

theorem Inv.step {w w' : Held} {l : Label} (h : Inv taskId fresh spare w.server w.worker)
    (hc : Coherent w.server) (hs : Step w l w') : Advances taskId fresh spare w l w' := by
  cases hs with
  | serve op hop =>
    refine .plain (deliver_coherent hc hop) rfl ?_ rfl rfl (h.serve hc hop)
    rintro ⟨f', op, id, v, actions, heq, -⟩
    cases heq
  | work d s' x' hs => exact h.work hc hs

end Invariant

section Run

variable {s : ServerState} {core : Core} {sender : Sender} {taskId : String}
variable {result : TaskAcquireResult} {promise : PromiseRecord} {fuel : ℕ} {ls : List Label} {w : Held}

theorem acquired_granted (h : Acquired s taskId result) : Coherent s ∧ Granted s taskId result := by
  cases h with
  | acquire ops hops now head id version pid ttl result h =>
    exact ⟨deliver_coherent (Coherent.run hops) typed_acquire,
      (acquire_granted (Coherent.run hops) h).1⟩
  | create ops hops now head subHead pid ttl action result h =>
    have hgrant := create_granted (Coherent.run hops) h
    refine ⟨deliver_coherent (Coherent.run hops) typed_create, ?_⟩
    rw [hgrant.task]
    exact hgrant

theorem inv_start (h : Granted s taskId result)
    (hdec : core.sdk.codec.decodePromise result.promise = .ok promise) (fresh : Prop) :
    Inv taskId fresh 1 (start s core sender taskId result promise fuel).server
      (start s core sender taskId result promise fuel).worker := by
  have hid : promise.id = taskId := (Codec.decodePromise_ok hdec).1.trans h.promise.1
  have hknown : Known (seen fresh s) result.preload := fun r hr hst =>
    Or.inr ((h.preload r hr).pending hst)
  refine .mk _ [] rfl (.going _ 0 .idle ⟨Core.executeUntilBlocked_safe hid rfl hknown, ?_⟩
    (.idle _ rfl) (fun f hf => by cases hf) (Or.inr h.rested) fun _ => Nat.one_pos)
    (fun n hn => by cases hn) fun f hf => by cases hf
  exact fun i n _ hi => by cases hi

structure Kept (taskId : String) (sender : Sender) (ls : List Label) (w : Held) : Prop where
  coherent : Coherent w.server
  same : w.worker.sender = sender
  inv : ∃ spare, Inv taskId (Fresh Label.Suspends Label.settlements ls) spare w.server w.worker ∧
    ls.countP Label.executes + spare ≤ ls.countP (Label.redirected sender) + 1

theorem Kept.step {w' : Held} {l : Label} (h : Kept taskId sender ls w) (hs : Step w l w') :
    (l.redirected sender = true →
      Fresh Label.Suspends Label.settlements ls ∨ 0 < l.settlements) ∧
        Kept taskId sender (ls ++ [l]) w' := by
  obtain ⟨spare, hinv, hle⟩ := h.inv
  have hadv := hinv.step h.coherent hs
  refine ⟨fun hred => hadv.used (by rwa [h.same]), hadv.coherent, hadv.sender.trans h.same, ?_⟩
  obtain ⟨spare', hinv', hle'⟩ := hadv.kept
  refine ⟨spare', hinv'.mono fun hf => hf.2.elim (fun h => h.snoc hf.1) (.of_supply hf.1), ?_⟩
  rw [h.same] at hle'
  simp only [List.countP_append, List.countP_singleton]
  omega

theorem kept_trace (h : Acquired s taskId result)
    (hdec : core.sdk.codec.decodePromise result.promise = .ok promise)
    (ht : Trace Step (start s core sender taskId result promise fuel) ls w) :
    Kept taskId sender ls w := by
  obtain ⟨hc, hgrant⟩ := acquired_granted h
  exact ht.invariant (I := Kept taskId sender) ⟨hc, rfl, 1, inv_start hgrant hdec _, le_refl _⟩
    fun _ _ _ _ _ hk hs => (hk.step hs).2

/-- Between two suspensions of a handling, and between the acquisition and the first one, some
promise leaves pending if the later one is redirected; so there are no more re-executions than
redirects, and no more redirects than settlements. -/
theorem redirects_bounded (h : Acquired s taskId result)
    (hdec : core.sdk.codec.decodePromise result.promise = .ok promise)
    (ht : Trace Step (start s core sender taskId result promise fuel) ls w) :
    Supplied Label.Suspends (Label.redirected sender) Label.settlements ls ∧
      reexecutions ls ≤ ls.countP (Label.redirected sender) ∧
        ls.countP (Label.redirected sender) ≤ (ls.map Label.settlements).sum := by
  have hsup : Supplied Label.Suspends (Label.redirected sender) Label.settlements ls := by
    refine supplied_of_fresh fun pre l post hls _ hred => ?_
    rw [hls] at ht
    obtain ⟨w₁, hpre, hrest⟩ := ht.append_inv
    obtain ⟨w₂, hs, -⟩ := hrest.cons_inv
    exact ((kept_trace h hdec hpre).step hs).1 hred
  obtain ⟨spare, -, hle⟩ := (kept_trace h hdec ht).inv
  refine ⟨hsup, ?_, (hsup.countP_le fun l hl => ?_).1⟩
  · unfold reexecutions
    omega
  · obtain ⟨did, left⟩ := l
    cases did with
    | served op => cases hl
    | worked d =>
      cases d with
      | sent f op =>
        obtain ⟨path, cmd, sent, answer⟩ := f
        cases cmd with
        | suspend id v actions => exact ⟨_, op, id, v, actions, rfl, rfl⟩
        | _ => cases hl
      | _ => cases hl

end Run

section Settled

def waiterCore : Core :=
  let core := workflowCore waiter
  { core with sdk.codec.fromText := fun _ => .ok (.obj [("func", .str "main")]) }

def waiterRequest : Json := createRequestOf ⟨"sr-0", none⟩ ⟨"sr-0", none⟩ "p" 60000
  ⟨"t", 100000, { data := some (.str "x") }, ∅⟩

def waiterServer : ServerState :=
  (ServerState.init.run []).deliver (.apply 0 (unwrapRequestEnvelope waiterRequest))

def waiterPromise (data value : Value) : PromiseRecord :=
  ⟨"t", .pending, data, value, ∅, 100000, 0, none⟩

def waiterResult : TaskAcquireResult where
  task := ⟨"t", .acquired, 0, .null, some 60000, some "p"⟩
  promise := waiterPromise { data := some (.str "x") } {}
  preload := []

def waiterStart : Held := start waiterServer waiterCore ⟨none⟩ "t" waiterResult
  (waiterPromise { data := some (.obj [("func", .str "main")]) } { data := some .null }) 2

def settleAwaited : Op := .apply 2 (request "promise.settle" ⟨"c", none⟩
  (PromiseSettleReq.toJson ⟨"t:0", .resolved, { data := some .null }⟩))

theorem settleAwaited_typed : settleAwaited.Typed := by
  refine ⟨fun r hr => ?_, fun hk => by cases hk⟩
  obtain rfl := Option.some.inj hr
  decide

theorem waiter_redirected : ∃ ls w, Trace Step waiterStart ls w ∧ reexecutions ls = 1 ∧
    (ls.map Label.settlements).sum = 1 := by
  have hbeat := Handling.Step.atOnce waiterServer waiterStart.worker [] (.heartbeatStart "t" 0) () _ _
    (fun f hf => by cases hf) (.call _ _ _ _) rfl trivial
  refine ⟨_, _, ((((((((Trace.nil.snoc (.work _ _ _ _ hbeat)).snoc (.work _ _ _ _
    (.atOnce _ _ [] (.effects "t" 0 []) () _ _ ?_ (.call _ _ _ _) rfl trivial))).snoc (.work _ _ _ _
    (.atOnce _ _ [] .now (0 : Int) _ _ ?_ (.call _ _ _ _) rfl trivial))).snoc (.work _ _ _ _
    (.send _ _ [] (.create _ _ _ _) (fun _ => 1) 1 1 _ (.here _ _ _) ?_ rfl))).snoc (.work _ _ _ _
    (.receive _ _ _ _ _ _ _ (List.mem_singleton_self _) (.call _ _ _ _) rfl rfl))).snoc
    (.serve _ settleAwaited settleAwaited_typed)).snoc (.work _ _ _ _
    (.send _ _ [] (.suspend _ _ _) (fun _ => 3) 3 3 _ (.here _ _ _) ?_ rfl))).snoc (.work _ _ _ _
    (.receive _ _ _ _ _ _ _ (List.mem_singleton_self _) (.call _ _ _ _) rfl rfl))).snoc (.work _ _ _ _
    (.atOnce _ _ [] (.effects _ _ _) () _ _ ?_ (.call _ _ _ _) rfl trivial)), rfl, rfl⟩
  all_goals exact fun f hf => by cases hf

/-- One settlement, and one re-execution. -/
theorem redirects_bounded_settled : ∃ ls w, Trace Step waiterStart ls w ∧ reexecutions ls = 1 ∧
    Supplied Label.Suspends (Label.redirected ⟨none⟩) Label.settlements ls := by
  have hacq : Acquired waiterServer "t" waiterResult :=
    .create [] (fun op hop => by cases hop) 0 ⟨"sr-0", none⟩ ⟨"sr-0", none⟩ "p" 60000
      ⟨"t", 100000, { data := some (.str "x") }, ∅⟩ waiterResult rfl
  obtain ⟨ls, w, ht, hre, -⟩ := waiter_redirected
  exact ⟨ls, w, ht, hre, (redirects_bounded hacq rfl ht).1⟩

end Settled

end Held

end Resonate
