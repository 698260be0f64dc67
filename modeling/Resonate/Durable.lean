import Resonate.Heeding
import Resonate.Network.Offers

/-!
# Durable execution

Any number of workers handle the tasks of a plan against one server, and any of them may be
interrupted at any point: it crashes, its lease ends, it suspends or releases its task, it is
redirected, its requests and answers overtake those of others. Whatever happens, a planned
promise that is settled is resolved with its planned value.
-/

namespace Resonate
open Lib Lib.ForkJoin Network

namespace Network

variable {s : ServerState} {now : Int} {id pid : String} {version ttl v : Int} {op : Op}

def ServerState.held (s : ServerState) : Set String := {a | (s.promises.lookup a).isSome}

theorem held_deliver (hc : Coherent s) (hop : op.Typed) : s.held ⊆ (s.deliver op).held := by
  intro a ha
  obtain ⟨p, hp⟩ := Option.isSome_iff_exists.mp ha
  obtain ⟨q, hq, -⟩ := deliver_kept hc hop hp
  exact Option.isSome_of_eq_some hq

theorem stage_deliver (hs : WF s) (op : Op) (id : String) : s.stage id ≤ (s.deliver op).stage id :=
  exec_stage_le (s := { s with outgoing := [] }) ⟨hs.promise_of_task, hs.id_ne⟩ op id

theorem holds_deliver (hs : WF s) (op : Op) (h : s.Holds id v) :
    (s.deliver op).Holds id v ∨ LeaseOver (s.deliver op) id v := by
  have hle := stage_deliver hs op id
  rw [ServerState.holds_iff] at h ⊢
  rw [h] at hle
  rcases eq_or_lt_of_le hle with heq | hlt
  · exact Or.inl heq.symm
  · exact Or.inr hlt

theorem holds_prepared (hs : WF s) {req : Json} (h : s.Holds id v)
    (h' : (s.deliver (.apply now req)).Holds id v) : (s.prepared now req).Holds id v := by
  have hle := s.prepared_stage_le hs now req id
  have hrest : (s.prepared now req).stage id ≤ (s.deliver (.apply now req)).stage id := by
    rw [deliver_apply, ServerState.apply]
    cases hk : ReqKind.ofName (kindOf req) with
    | none => exact le_refl _
    | some kind =>
      have hwf := ServerState.prepared_wf hs now req
      exact (ServerState.dispatch_performs hk).stage_le hwf id
  rw [ServerState.holds_iff] at h h' ⊢
  rw [h] at hle
  rw [h'] at hrest
  exact le_antisymm hrest hle

theorem ofJson_task_version {t : Task} {r : TaskRecord} (h : TaskRecord.ofJson t.toRecord = some r) :
    IsI64 r.version ∧ r.version = t.version := by
  have hversion : t.toRecord.get "version" = some (.num t.version) := rfl
  simp only [TaskRecord.ofJson, asFields_task_toRecord, hversion, Option.bind_eq_bind,
    Option.bind_eq_some_iff, Option.pure_def, Option.some.injEq] at h
  obtain ⟨id, -, state, -, version, ⟨_, rfl, hv⟩, resumes, -, ttl, -, pid, -, rfl⟩ := h
  obtain ⟨hi, rfl⟩ := isI64_of_asI64 hv
  exact ⟨hi, rfl⟩

theorem acquire_holds {head : Head} {result : TaskAcquireResult}
    (h : acquireResult head (s.send now (acquireRequest head id version pid ttl)).2 = .ok result) :
    IsI64 result.task.version ∧ (s.deliver (.apply now (unwrapRequestEnvelope
      (acquireRequest head id version pid ttl)))).Holds id result.task.version := by
  obtain ⟨x, hx, hparse⟩ := acquireResult_ok h
  obtain ⟨⟨w, hw, hwr⟩, -⟩ := parseTaskAcquire_ok hparse
  have happly : s.apply now (unwrapRequestEnvelope (acquireRequest head id version pid ttl)) =
      (s.prepared now _).taskAcquire now _ _ := ServerState.apply_eq_dispatch kindOf_acquire
  rw [deliver_apply]
  unfold ServerState.taskAcquire at happly
  cases hid : requireStr (unwrapRequestEnvelope (acquireRequest head id version pid ttl)) "id" with
  | error e =>
    simp only [hid] at happly
    exact (received_refused hx (congrArg Prod.snd happly)).elim
  | ok id' =>
    have hf := (requireStr_ok.mp hid).1
    rw [id_acquire] at hf
    obtain rfl := Option.some.inj hf
    simp only [hid] at happly
    cases ht : (s.prepared now (unwrapRequestEnvelope
        (acquireRequest head id version pid ttl))).tasks.lookup id with
    | none =>
      simp only [ht] at happly
      have hst := (received_reply (n := 404) hx (by decide) (congrArg Prod.snd happly)).1
      omega
    | some t =>
      simp only [ht] at happly
      by_cases hst : t.state = .pending
      · rw [if_neg (not_not.mpr hst)] at happly
        obtain ⟨-, -, hget⟩ := received_reply (n := 200) hx (by decide) (congrArg Prod.snd happly)
        rw [happly]
        have htask := hget "task" (by decide) (by decide) (by decide)
        obtain rfl := Option.some.inj (hw.symm.trans htask)
        rw [ServerState.taskRecordOf, ServerState.grantLease_task ht] at hwr
        obtain ⟨hi, hv⟩ := ofJson_task_version hwr
        exact ⟨hi, _, ServerState.grantLease_task ht _ _ _, rfl, hv.symm⟩
      · rw [if_pos hst] at happly
        have hst' := (received_reply (n := 409) hx (by decide) (congrArg Prod.snd happly)).1
        omega

end Network

def leased (taskId : String) (version : Int) : Terms Cmd Cmd.Answer where
  Pre
    | .effects id v _ => id = taskId ∧ v = version
    | .fulfill id v action => id = taskId ∧ v = version ∧ action.id = taskId
    | .suspend id v _ | .release id v => id = taskId ∧ v = version
    | .acquire .. => False
    | _ => True
  Post _ _ := True

theorem leased_conduct (taskId : String) (version : Int) :
    Conduct (leased taskId version) taskId version fun _ => True where
  free c hc := by
    cases c with
    | now | user | panic | create | created | settle => trivial
    | _ => exact hc.elim
  execute _ _ _ _ _ _ _ := trivial
  effects _ _ := ⟨rfl, rfl⟩
  fulfill _ _ := ⟨rfl, rfl, rfl⟩
  suspend _ := ⟨rfl, rfl⟩
  redirect _ _ _ := trivial
  release := ⟨rfl, rfl⟩
  heartbeat := ⟨trivial, trivial⟩

def leasedRegime (codec : Codec) (sender : Sender) (taskId : String) (version : Int) :
    Regime codec sender where
  terms := leased taskId version
  Caches e := e.taskId = taskId ∧ e.taskVersion = version
  Answers _ := True
  opened id v preload h := by
    rw [Effects.new, Effects.absorb_eq]
    exact h
  atOnce _ _ _ _ _ _ := trivial
  reply f effects e a _ _ he hr := by
    refine ⟨trivial, fun e' he' => ?_⟩
    subst he'
    obtain ⟨path, cmd, sent, answer⟩ := f
    cases cmd with
    | create | settle =>
      obtain ⟨e₀, rfl, heq⟩ := Option.map_eq_some_iff.mp hr
      obtain ⟨heq, -⟩ := Prod.mk.inj heq
      obtain rfl := Option.some.inj heq
      rw [Effects.received_eq]
      exact he e₀ rfl
    | acquire | fulfill | suspend | release =>
      obtain ⟨rfl, -⟩ := Prod.mk.inj (Option.some.inj hr)
      exact he e' rfl
    | _ => cases hr

section Requests

variable {codec : Codec} {plan : Plan codec} {held : Set String} {s : ServerState} {sender : Sender}
  {subNow : ℕ → Int} {now serverNow version : Int} {effects : Option Effects} {c : Cmd} {req : Json}
  {taskId : String} {path : List ℕ}

theorem unwrap_fence (e : Effects) (subNow now : Int) (action : Json) :
    unwrapRequestEnvelope (e.fenceRequest subNow now action) = e.flatFence subNow now action := rfl

theorem Cmd.request_idle (hr : c.request sender subNow now effects = some req)
    (hc : (∃ id v pid ttl, c = .acquire id v pid ttl) ∨ (∃ id v actions, c = .suspend id v actions) ∨
      ∃ id v, c = .release id v) : createRequest (unwrapRequestEnvelope req) = none ∧
        settleRequest (unwrapRequestEnvelope req) = none := by
  unfold createRequest settleRequest
  rcases hc with ⟨id, v, pid, ttl, rfl⟩ | ⟨id, v, actions, rfl⟩ | ⟨id, v, rfl⟩
  · obtain rfl := Option.some.inj hr
    simp only [kindOf_acquire]
    exact ⟨trivial, trivial⟩
  · obtain rfl := Option.some.inj hr
    simp only [kindOf_suspend]
    exact ⟨trivial, trivial⟩
  · obtain rfl := Option.some.inj hr
    simp only [kindOf_release]
    exact ⟨trivial, trivial⟩

theorem Cmd.request_heeds (hr : c.request sender subNow now effects = some req)
    (hpre : (plan.terms held taskId version).Pre c)
    (he : ∀ e, effects = some e → plan.Cached held sender taskId version e) :
    plan.HeedsRequest (unwrapRequestEnvelope req) := by
  cases c with
  | create kind position slot creq =>
    obtain ⟨e, action, heff, hf, rfl⟩ := Cmd.request_create hr
    exact Plan.heeds_create (he e heff).codec hpre hf
  | settle position id result =>
    obtain ⟨e, action, heff, hf, rfl⟩ := Cmd.request_settle hr
    obtain ⟨-, j, rfl, hj⟩ := hpre
    exact Plan.heeds_settle (he e heff).codec hj hf
  | fulfill id v action =>
    obtain rfl := Option.some.inj hr
    obtain ⟨rfl, rfl, hid, hst, j, hj, hw⟩ := hpre
    obtain ⟨id', state, value⟩ := action
    obtain rfl : id' = id := hid
    obtain rfl : state = .resolved := hst
    exact Plan.heeds_fulfill hj hw
  | acquire | suspend | release =>
    obtain ⟨hcreate, hsettle⟩ := Cmd.request_idle hr (by simp)
    exact .idle hcreate hsettle
  | _ => cases hr

theorem id_fulfill {head subHead : Head} {id : String} {action : PromiseSettleReq} :
    strField (unwrapRequestEnvelope (envelope "task.fulfill" head
      (taskFulfillData id version subHead action))) "id" = some id := by
  rw [← Network.request, taskFulfillData, strField, get_request (by decide) (by decide)]
  rfl

/-- A request under a lease that is over creates and settles nothing, as long as a fulfilment
does not find the task acquired by somebody else. -/
theorem Cmd.request_refused (serverNow : Int) (hs : WF s) (hover : LeaseOver s taskId version)
    (hv : IsI64 version) (hr : c.request sender subNow now effects = some req)
    (hpre : (leased taskId version).Pre c)
    (he : ∀ e, effects = some e → e.taskId = taskId ∧ e.taskVersion = version)
    (hful : ∀ v action, c = .fulfill taskId v action → ¬ s.taskIs taskId .acquired) :
    s.deliver (.apply serverNow (unwrapRequestEnvelope req)) =
        s.prepared serverNow (unwrapRequestEnvelope req) ∨
      createRequest (unwrapRequestEnvelope req) = none ∧
        settleRequest (unwrapRequestEnvelope req) = none := by
  have hfence : ∀ (e : Effects) (action : Json), effects = some e →
      req = e.fenceRequest (subNow 0) now action →
        s.deliver (.apply serverNow (unwrapRequestEnvelope req)) =
          s.prepared serverNow (unwrapRequestEnvelope req) := by
    rintro e action heff rfl
    obtain ⟨rfl, rfl⟩ := he e heff
    have hf : FenceRequest (e.flatFence (subNow 0) now action) e.taskId e.taskVersion :=
      Effects.fenceRequest_flatFence hv
    rw [deliver_apply, unwrap_fence, fence_apply hs hf.kind hf.id_eq hf.version_eq hover]
  cases c with
  | create kind position slot creq =>
    obtain ⟨e, action, heff, -, hreq⟩ := Cmd.request_create hr
    exact Or.inl (hfence e action heff hreq)
  | settle position id result =>
    obtain ⟨e, action, heff, -, hreq⟩ := Cmd.request_settle hr
    exact Or.inl (hfence e action heff hreq)
  | fulfill id v action =>
    obtain rfl := Option.some.inj hr
    obtain ⟨rfl, rfl, -⟩ := hpre
    refine Or.inl ?_
    have hwf := ServerState.prepared_wf hs serverNow (unwrapRequestEnvelope (envelope "task.fulfill"
      (sender.makeHead now) (taskFulfillData id v (sender.makeHead (subNow 0)) action)))
    obtain ⟨t, ht⟩ := (hover.mono (s.prepared_stage_le hs serverNow _ id)).exists_task
    have hno : t.state ≠ .acquired := fun hst =>
      hful v action rfl (ServerState.taskIs_acquired_prepared.mp ⟨t, ht, hst⟩).1
    rw [deliver_apply, ServerState.apply_eq_dispatch kindOf_fulfill, dispatch_not_acquired
      List.mem_cons_self (ServerState.requireStr_of_task hwf id_fulfill ht) ht hno]
  | suspend | release => exact Or.inr (Cmd.request_idle hr (by simp))
  | acquire => exact hpre.elim
  | _ => cases hr

theorem Plan.Followed.prepared (hf : plan.Followed s) (hc : Coherent s) (hnow : IsI64 serverNow)
    (ht : plan.InTime (s.prepared serverNow req)) : plan.Followed (s.prepared serverNow req) :=
  Plan.Followed.moves (s := { s with outgoing := [] }) (P := fun m => ∃ id, m = .expire [id]) hf
    hc.cleared hnow (prepared_moves serverNow hc req fun id _ => ⟨id, rfl⟩)
    (by rintro m ⟨id, rfl⟩; exact trivial) ht

theorem Cmd.request_answers (hc : Coherent s) (hwf : WF s) (hv : IsI64 version)
    (hr : c.request sender subNow now effects = some req)
    (hpre : (plan.terms s.held taskId version).Pre c)
    (he : ∀ e, effects = some e → plan.Cached s.held sender taskId version e)
    (hheld : (s.deliver (.apply serverNow (unwrapRequestEnvelope req))).held ⊆ held)
    (hf : plan.Followed (s.deliver (.apply serverNow (unwrapRequestEnvelope req))))
    (hlease : (s.prepared serverNow (unwrapRequestEnvelope req)).Holds taskId version) :
    plan.Answers held sender ⟨path, c, now, (s.send serverNow req).2⟩ := by
  cases c with
  | create kind position slot creq =>
    obtain ⟨e, action, heff, hfence, rfl⟩ := Cmd.request_create hr
    obtain ⟨rfl, -, ⟨rfl, rfl⟩, -⟩ := he e heff
    have hact := Effects.createPromise_acts hfence
    obtain ⟨w, -, rfl⟩ := Plan.createPromise_encoded hfence
    obtain ⟨hsome, hans⟩ := Effects.create_admitted { creq with param := w } hwf hv hlease hpre.named
    exact hf.answered hc hact hpre.planned hheld hsome hans
  | settle position id result =>
    obtain ⟨e, action, heff, hfence, rfl⟩ := Cmd.request_settle hr
    obtain ⟨rfl, -, ⟨rfl, rfl⟩, -⟩ := he e heff
    obtain ⟨hid, j, rfl, hj⟩ := hpre
    have hact := Effects.settlePromise_acts hfence
    obtain ⟨sreq, rfl, rfl, -⟩ := Effects.settlePromise_fence hfence
    obtain ⟨p, hp⟩ := Option.isSome_iff_exists.mp hid
    have hans := Effects.settle_admitted sreq hwf hv hlease (hwf.id_ne sreq.id p hp)
    have hsome := held_deliver hc (hact.typed e (subNow 0) now serverNow) hid
    exact hf.answered hc hact (Option.isSome_of_eq_some hj) hheld hsome hans
  | suspend id v actions =>
    obtain rfl := Option.some.inj hr
    intro preload hres
    obtain ⟨-, hshow, -⟩ := suspend_redirect hc hres
    exact fun r hmem => hf.reads (deliver_coherent hc typed_suspend) hheld (hshow r hmem)
  | _ => trivial

end Requests

/-- What the acquisition of a planned task got: the promise with its function and arguments,
records that agree with the plan, and a lease that is held or over. -/
structure Plan.Granted {codec : Codec} (plan : Plan codec) (s : ServerState) (taskId : String)
    (result : TaskAcquireResult) : Prop where
  version : IsI64 result.task.version
  promise : result.promise.id = taskId ∧ result.promise.state = .pending
  decodes : ∃ q, codec.decodePromise result.promise = .ok q ∧
    plan.task taskId = TaskData.ofJson q.param.dataOrNull
  preload : ∀ r ∈ result.preload, plan.Reads s.held r
  lease : LeaseOver s taskId result.task.version ∨ s.Holds taskId result.task.version

/-- Where the handling of a planned task is: it acquires the task, it works on it under a lease
that is over or held, or it has nothing more to do. -/
inductive Handling.Guided {codec : Codec} (plan : Plan codec) (s : ServerState) (x : Handling) : Prop
  | acquiring (taskId : String) (version : Int) (fuel : ℕ) (hfit : plan.Fits x.core)
      (hp : (plan.value taskId).isSome)
      (hn : x.node = .mk (x.core.onMessage taskId version fuel) []) (he : x.effects = [])
      (hf : ∀ f ∈ x.flights, f.path = [] ∧ ∀ result,
        acquireResult (x.sender.makeHead f.sent) f.answer = .ok result → plan.Granted s taskId result)
  | working (taskId : String) (version : Int) (hv : IsI64 version)
      (hleased : x.Under (leasedRegime codec x.sender taskId version))
      (hplan : LeaseOver s taskId version ∨ s.Holds taskId version ∧
        ∀ held, s.held ⊆ held → x.Under (plan.regime held x.sender taskId version))
  | dropped (ho : x.node.Only fun _ => False)

/-- A request is handled at a time of the server's clock, it lets no planned promise time out,
and a fulfilment that finds its task acquired is sent under the lease of that acquisition. -/
structure Plan.Fair {codec : Codec} (plan : Plan codec) (s : ServerState) (f : Flight) (op : Op) :
    Prop where
  now : IsI64 op.now
  inTime : plan.InTime (s.deliver op)
  current : ∀ id v action, f.cmd = .fulfill id v action → s.taskIs id .acquired → s.Holds id v

section Workers

variable {codec : Codec} {plan : Plan codec} {s s' : ServerState} {x x' : Handling}
  {d : Handling.Did} {f : Flight} {op : Op} {taskId : String} {version : Int}
  {result : TaskAcquireResult}

theorem Plan.Reads.mono {held held' : Set String} {r : PromiseRecord} (h : plan.Reads held r)
    (hheld : held ⊆ held') : plan.Reads held' r := ⟨hheld h.1, h.2⟩

theorem lease_deliver (hwf : WF s) (op : Op)
    (h : LeaseOver s taskId version ∨ s.Holds taskId version) :
    LeaseOver (s.deliver op) taskId version ∨ (s.deliver op).Holds taskId version := by
  rcases h with hover | hheld
  · exact Or.inl (hover.mono (stage_deliver hwf op taskId))
  · exact (holds_deliver hwf op hheld).symm

theorem Plan.Granted.deliver (h : plan.Granted s taskId result) (hc : Coherent s) (hwf : WF s)
    (hop : op.Typed) : plan.Granted (s.deliver op) taskId result :=
  ⟨h.version, h.promise, h.decodes, fun r hr => (h.preload r hr).mono (held_deliver hc hop),
    lease_deliver hwf op h.lease⟩

namespace Handling.Guided

theorem deliver (h : x.Guided plan s) (hc : Coherent s) (hwf : WF s) (hop : op.Typed) :
    x.Guided plan (s.deliver op) := by
  cases h with
  | acquiring taskId version fuel hfit hp hn he hf =>
    exact .acquiring taskId version fuel hfit hp hn he fun f hfl => ⟨(hf f hfl).1, fun result hr =>
      ((hf f hfl).2 result hr).deliver hc hwf hop⟩
  | working taskId version hv hleased hplan =>
    refine .working taskId version hv hleased ?_
    rcases hplan with hover | ⟨hheld, hunder⟩
    · exact Or.inl (hover.mono (stage_deliver hwf op taskId))
    · exact (holds_deliver hwf op hheld).symm.imp_right fun hlease =>
        ⟨hlease, fun held hle => hunder held ((held_deliver hc hop).trans hle)⟩
  | dropped ho => exact .dropped ho

theorem sent (h : x.Guided plan s) (hc : Coherent s) (hwf : WF s) (hfollow : plan.Followed s)
    (hs : x.Step s (.sent f op) s' x') (hfair : plan.Fair s f op) :
    op.Typed ∧ plan.Followed (s.deliver op) := by
  cases hs with
  | send path c subNow now serverNow req hcall hfree hr =>
    cases h with
    | acquiring taskId version fuel hfit hp hn he hf =>
      rw [hn, Core.onMessage] at hcall
      obtain ⟨rfl, rfl⟩ := hcall.of_leaf
      obtain ⟨hcreate, hsettle⟩ := Cmd.request_idle hr (by simp)
      have htyped : (Op.apply serverNow (unwrapRequestEnvelope req)).Typed :=
        Cmd.request_typed hr fun id v action heq => by cases heq
      exact ⟨htyped, (Plan.HeedsRequest.idle hcreate hsettle).followed hfollow hc htyped hfair.now
        hfair.inTime⟩
    | working taskId version hv hleased hplan =>
      have hpre : (leased taskId version).Pre c := hleased.callsAt hcall
      have htyped : (Op.apply serverNow (unwrapRequestEnvelope req)).Typed :=
        Cmd.request_typed hr fun id v action heq => by
          subst heq
          exact hpre.2.2.trans hpre.1.symm
      refine ⟨htyped, ?_⟩
      rcases hplan with hover | ⟨hheld, hunder⟩
      · have hful : ∀ v action, c = .fulfill taskId v action → ¬ s.taskIs taskId .acquired := by
          rintro v action rfl hacq
          obtain ⟨-, rfl, -⟩ := hpre
          exact hover.not_holds (hfair.current taskId v action rfl hacq)
        rcases Cmd.request_refused serverNow hwf hover hv hr hpre (hleased.effectsAt path) hful
          with hrefused | ⟨hcreate, hsettle⟩
        · have htime := hfair.inTime
          rw [hrefused] at htime ⊢
          exact hfollow.prepared hc hfair.now htime
        · exact (Plan.HeedsRequest.idle hcreate hsettle).followed hfollow hc htyped hfair.now
            hfair.inTime
      · have hregime := hunder s.held (le_refl _)
        exact (Cmd.request_heeds hr (hregime.callsAt hcall) (hregime.effectsAt path)).followed hfollow
          hc htyped hfair.now hfair.inTime
    | dropped ho => exact (ho.callsAt hcall).elim

theorem send (h : x.Guided plan s) (hc : Coherent s) (hwf : WF s) (hfollow : plan.Followed s)
    (hs : x.Step s (.sent f op) s' x') (hfair : plan.Fair s f op) : x'.Guided plan (s.deliver op) := by
  obtain ⟨htyped, hfollow'⟩ := h.sent hc hwf hfollow hs hfair
  have hc' := deliver_coherent hc htyped
  cases h with
  | acquiring taskId version fuel hfit hp hn he hf =>
    cases hs with
    | send path c subNow now serverNow req hcall hfree hr =>
      rw [hn, Core.onMessage] at hcall
      obtain ⟨rfl, rfl⟩ := hcall.of_leaf
      obtain rfl := Option.some.inj hr
      refine .acquiring taskId version fuel hfit hp hn he fun g hg => ?_
      rcases List.mem_cons.mp hg with rfl | hg
      · refine ⟨rfl, fun result hres => ?_⟩
        obtain ⟨hgrant, hst⟩ := acquire_granted hc hres
        obtain ⟨hid, hshow⟩ := hgrant.promise
        obtain ⟨hv, hlease⟩ := acquire_holds hres
        obtain ⟨q, hq, -, htask⟩ := hfollow'.shown hc' hshow (hid ▸ hp)
        exact ⟨hv, ⟨hid, hst⟩, ⟨q, hq, hid ▸ htask⟩, fun r hmem =>
          hfollow'.reads hc' (fun _ ha => ha) (hgrant.preload r hmem), Or.inr hlease⟩
      · exact ⟨(hf g hg).1, fun result hres => ((hf g hg).2 result hres).deliver hc hwf htyped⟩
  | working taskId version hv hleased hplan =>
    have hsame : x'.sender = x.sender := by cases hs; rfl
    refine .working taskId version hv ?_ ?_
    · rw [hsame]
      exact hleased.step hs fun _ _ _ => trivial
    · rcases hplan with hover | ⟨hheld, hunder⟩
      · exact Or.inl (hover.mono (stage_deliver hwf op taskId))
      · refine (holds_deliver hwf op hheld).symm.imp_right fun hlease => ⟨hlease, fun held hle => ?_⟩
        have hunder' := hunder held ((held_deliver hc htyped).trans hle)
        have hregime := hunder s.held (le_refl _)
        rw [hsame]
        refine hunder'.step hs fun g op' hd => ?_
        obtain ⟨rfl, rfl⟩ := Handling.Did.sent.inj hd
        cases hs with
        | send path c subNow now serverNow req hcall hfree hr =>
          exact Cmd.request_answers hc hwf hv hr (hregime.callsAt hcall) (hregime.effectsAt path) hle
            hfollow' (holds_prepared hwf hheld hlease)
  | dropped ho =>
    cases hs with
    | send path c subNow now serverNow req hcall hfree hr => exact (ho.callsAt hcall).elim

theorem acquired {core : Core} {sender : Sender} {fuel : ℕ} {promise : PromiseRecord}
    (hfit : plan.Fits core) (hp : (plan.value taskId).isSome) (h : plan.Granted s taskId result)
    (hdec : core.sdk.codec.decodePromise result.promise = .ok promise) :
    Handling.Guided plan s ⟨core, sender, .mk (core.executeUntilBlocked taskId result.task.version
      promise fuel result.preload) [], [], []⟩ := by
  obtain ⟨v, hv⟩ := Option.isSome_iff_exists.mp hp
  obtain ⟨q, hq, htask⟩ := h.decodes
  obtain ⟨hid, hst, -⟩ := Codec.decodePromise_ok hdec
  rw [hfit.codec] at hdec
  obtain rfl := Except.ok.inj (hdec.symm.trans hq)
  have hpid : promise.id = taskId := hid.trans h.promise.1
  refine .working taskId result.task.version h.version ?_ (h.lease.imp_right fun hlease =>
    ⟨hlease, fun held hle => ?_⟩)
  · exact .start (Core.executeUntilBlocked_conforms (leased_conduct _ _) hpid trivial _) hfit.codec
  · exact .start (Core.executeUntilBlocked_meets hfit hpid (hst.trans h.promise.2) hv htask
      fun r hr => (h.preload r hr).mono hle) hfit.codec

theorem quiet (h : x.Guided plan s) (hs : x.Step s d s' x') (hd : ∀ f op, d ≠ .sent f op) :
    x'.Guided plan s := by
  cases h with
  | acquiring taskId version fuel hfit hp hn he hf =>
    cases hs with
    | send => exact absurd rfl (hd _ _)
    | receive f a e l n hmem hs hl hr =>
      rw [hn, Core.onMessage] at hs
      obtain ⟨hpath, a', rfl, rfl⟩ := hs.of_leaf
      have hnone : ∀ g ∈ x.flights, g.path = f.path := fun g hg => (hf g hg).1.trans hpath.symm
      have hclear : (x.flights.filter fun g => g.path ≠ f.path) = [] :=
        List.filter_eq_nil_iff.mpr fun g hg => by simp [hnone g hg]
      obtain ⟨path, cmd, sent, answer⟩ := f
      obtain ⟨rfl, ha⟩ := Sigma.mk.inj (List.singleton_inj.mp hl)
      obtain rfl := eq_of_heq ha
      obtain ⟨he', ha'⟩ := Prod.mk.inj (Option.some.inj hr)
      have htold : x.told path e = [] := by
        rw [← he', he]
        exact he
      dsimp only at hclear ⊢
      rw [htold, hclear]
      cases a' with
      | error err => exact .dropped (Node.Only.start trivial)
      | ok result =>
        obtain hgrant := (hf _ hmem).2 result ha'
        obtain ⟨q, hq, -⟩ := hgrant.decodes
        rw [← hfit.codec] at hq
        dsimp only
        rw [hq]
        exact acquired hfit hp hgrant hq
    | atOnce path c a l n hfree hs hl ha =>
      rw [hn, Core.onMessage] at hs
      obtain ⟨-, a', rfl, rfl⟩ := hs.of_leaf
      obtain ⟨rfl, -⟩ := Sigma.mk.inj (List.singleton_inj.mp hl)
      exact ha.elim
    | silent path n hs =>
      rw [hn, Core.onMessage] at hs
      obtain ⟨-, a', hl, -⟩ := hs.of_leaf
      cases hl
  | working taskId version hv hleased hplan =>
    have hsame : x'.sender = x.sender := by cases hs <;> rfl
    refine .working taskId version hv ?_ (hplan.imp_right fun hheld =>
      ⟨hheld.1, fun held hle => ?_⟩)
    · rw [hsame]
      exact hleased.step hs fun f op heq => absurd heq (hd f op)
    · rw [hsame]
      exact (hheld.2 held hle).step hs fun f op heq => absurd heq (hd f op)
  | dropped ho =>
    cases hs with
    | send => exact absurd rfl (hd _ _)
    | receive f a e l n hmem hs hl hr => exact .dropped (ho.stepAt hs)
    | atOnce path c a l n hfree hs hl ha => exact .dropped (ho.stepAt hs)
    | silent path n hs => exact .dropped (ho.stepAt hs)

end Handling.Guided

end Workers

namespace Plan

variable {codec : Codec} (plan : Plan codec)

def HeedsOp : Op → Prop
  | .apply _ req => plan.HeedsRequest req
  | .tick _ => True

/-- A step of a cluster whose clients heed the plan and whose workers have its functions: a
request of a client or a tick, a worker that takes up an execute message of a planned task, a
step of a worker, or the end of one. -/
inductive Step : Cluster → Cluster → Prop
  | serve (w : Cluster) (op : Op) (hop : op.Typed) (hheeds : plan.HeedsOp op) (hnow : IsI64 op.now)
      (ht : plan.InTime (w.server.deliver op)) : Step w { w with server := w.server.deliver op }
  | begin (w : Cluster) (core : Core) (sender : Sender) (taskId : String) (version : Int) (fuel : ℕ)
      (hfit : plan.Fits core) (hp : (plan.value taskId).isSome) :
      Step w { w with
        workers := w.workers ++ [.start core sender (core.onMessage taskId version fuel)] }
  | work (w : Cluster) (i : ℕ) (x x' : Handling) (d : Handling.Did) (s' : ServerState)
      (hi : w.workers[i]? = some x) (hs : x.Step w.server d s' x')
      (hfair : ∀ f op, d = .sent f op → plan.Fair w.server f op) :
      Step w ⟨s', w.workers.set i x'⟩
  | crash (w : Cluster) (i : ℕ) : Step w { w with workers := w.workers.eraseIdx i }

structure Inv (w : Cluster) : Prop where
  coherent : Coherent w.server
  wf : WF w.server
  followed : plan.Followed w.server
  workers : ∀ x ∈ w.workers, x.Guided plan w.server

variable {plan} {w w' : Cluster}

theorem HeedsOp.heeds {s : ServerState} {op : Op} {m : Move} (h : plan.HeedsOp op)
    (hm : op.Moves s m) : plan.Heeds m := by
  cases op with
  | apply now req => exact HeedsRequest.heeds h hm
  | tick now =>
    cases m with
    | plain act =>
      cases act with
      | addPending | addFulfilled | addAcquired => exact id hm |>.elim
      | _ => trivial
    | expire ids => trivial
    | settle | expireNew => exact id hm |>.elim

theorem Followed.deliver {s : ServerState} {op : Op} (h : plan.Followed s) (hc : Coherent s)
    (hop : op.Typed) (hheeds : plan.HeedsOp op) (hnow : IsI64 op.now)
    (ht : plan.InTime (s.deliver op)) : plan.Followed (s.deliver op) :=
  Followed.moves (s := op.start { s with outgoing := [] }) (by cases op <;> exact h)
    (hc.cleared.start op) hnow (exec_moves hc.cleared hop) (fun _ hm => hheeds.heeds hm) ht

theorem Inv.init : plan.Inv .init where
  coherent := .init
  wf := .init
  followed _ _ _ hp := by cases hp
  workers _ hx := by cases hx

theorem Inv.step (h : plan.Inv w) (hs : plan.Step w w') : plan.Inv w' := by
  cases hs with
  | serve op hop hheeds hnow ht =>
    exact ⟨deliver_coherent h.coherent hop, h.wf.deliver op,
      h.followed.deliver h.coherent hop hheeds hnow ht,
      fun x hx => (h.workers x hx).deliver h.coherent h.wf hop⟩
  | begin core sender taskId version fuel hfit hp =>
    refine ⟨h.coherent, h.wf, h.followed, fun x hx => ?_⟩
    rcases List.mem_append.mp hx with hx | hx
    · exact h.workers x hx
    · rw [List.mem_singleton.mp hx]
      exact .acquiring taskId version fuel hfit hp rfl rfl fun f hf => by cases hf
  | work i x x' d s' hi hs hfair =>
    have hx := h.workers x (List.mem_of_getElem? hi)
    obtain ⟨f, op, rfl, hserver⟩ | ⟨hno, hserver⟩ := hs.server
    · obtain ⟨hop, hfollow⟩ := hx.sent h.coherent h.wf h.followed hs (hfair f op rfl)
      have hx' := hx.send h.coherent h.wf h.followed hs (hfair f op rfl)
      obtain rfl := hserver
      refine ⟨deliver_coherent h.coherent hop, h.wf.deliver op, hfollow, fun y hy => ?_⟩
      rcases List.mem_or_eq_of_mem_set hy with hy | rfl
      · exact (h.workers y hy).deliver h.coherent h.wf hop
      · exact hx'
    · obtain rfl := hserver
      refine ⟨h.coherent, h.wf, h.followed, fun y hy => ?_⟩
      rcases List.mem_or_eq_of_mem_set hy with hy | rfl
      · exact h.workers y hy
      · exact hx.quiet hs hno
  | crash i =>
    exact ⟨h.coherent, h.wf, h.followed, fun x hx => h.workers x (List.mem_of_mem_eraseIdx hx)⟩

theorem Inv.run (h : Relation.ReflTransGen plan.Step .init w) : plan.Inv w := by
  induction h with
  | refl => exact .init
  | tail _ hs ih => exact ih.step hs

/-- A function that follows the plan evaluates to the planned value of its promise. -/
theorem Fits.eval {core : Core} {entry : RegistryEntry} {data : TaskData} {id : String} {v : Json}
    (h : plan.Fits core) (hv : plan.value id = some v) (hdata : plan.task id = some data)
    (hentry : core.registry data.func = some entry) (told : Json) :
    (entry.func data.args).eval plan told id 0 [] = .ok v := by
  obtain ⟨hfunction, hworkflow⟩ := h.computes id v data entry hv hdata hentry
  cases hkind : entry.kind with
  | function => exact (hfunction hkind).eval told
  | workflow => exact (hworkflow hkind).eval rfl told fun x hx => by cases hx

/-- In every run of a cluster that heeds the plan, whatever crashes, overtakes or is repeated, a
planned promise that is settled is resolved with its planned value; where a task runs for it,
that is the value of a plain evaluation of its function, with no promises and no server. -/
theorem durable_execution_agrees (plan : Plan codec) (w : Cluster)
    (h : Relation.ReflTransGen plan.Step .init w) (id : String) (p : DurablePromise) (v : Json)
    (hv : plan.value id = some v) (hp : w.server.promises.lookup id = some p)
    (hset : p.state ≠ .pending) :
    p.state = .resolved ∧ (∃ y, codec.decode (Value.ofJson p.value) = .ok y ∧ y.getD .null = v) ∧
      ∀ core data entry told, plan.Fits core → plan.task id = some data →
        core.registry data.func = some entry →
          (entry.func data.args).eval plan told id 0 [] = .ok v := by
  have hsound := (Inv.run h).followed id p (Option.isSome_of_eq_some hv) hp
  obtain ⟨hst, y, hy, hval⟩ := hsound.outcome hset
  refine ⟨hst, ⟨y, hy, Option.some.inj (hval.symm.trans hv)⟩, ?_⟩
  exact fun core data entry told hfit hdata hentry => hfit.eval hv hdata hentry told

section Orders

def order : Json := paramData "order" .null

def orderText : String := "eyJmdW5jIjoib3JkZXIiLCJhcmdzIjpudWxsfQ=="

def orderCodec : Codec := singleCodec order "\x7b\"func\":\"order\",\"args\":null\x7d" orderText

theorem order_writes : orderCodec.Writes order :=
  ⟨⟨_, rfl⟩, singleCodec_roundTrips (by decide) (by decide)⟩

def orders : Plan orderCodec where
  value _ := some order
  task _ := some ⟨"order", .null⟩
  writes _ _ h := Option.some.inj h ▸ order_writes

def orderBody : Body :=
  .next fun n => .run n ⟨"pay", .function, ⟨.ok, .ok⟩⟩ (.ok order) none (.ret (.ok order)) .ret

def orderCore : Core where
  sdk := ⟨fun _ => "local://any@default", hashId fun _ => 0, orderCodec⟩
  registry name := if name = "order" then some ⟨.workflow, fun _ => orderBody⟩ else none
  pid := "w1"
  ttl := 60000

theorem orderBody_plain (id : String) : orderBody.Plain orders id 0 [] (some order) :=
  .next _ _ _ _ _ (.run _ _ _ 0 _ _ _ _ _ _ order ⟨order_writes, rfl⟩ ⟨order, rfl, rfl, rfl⟩
    (fun _ => .ret order) (fun h => by cases h) (.ret _ _ _ _) (.suspended _ _ _))

theorem orderCore_fits : orders.Fits orderCore where
  codec := rfl
  computes id v data entry hv hdata hentry := by
    obtain rfl := Option.some.inj hv
    obtain rfl := Option.some.inj hdata
    obtain rfl := Option.some.inj hentry
    exact ⟨fun h => (by cases h), fun _ => orderBody_plain id⟩

theorem inTime_of_entries {s : ServerState}
    (h : ∀ e ∈ s.promises.entries, e.2.state ≠ .rejectedTimedout) : plan.InTime s :=
  fun id p _ hl => h ⟨id, p⟩ (AList.mem_lookup_iff.mp hl)

/-- A run to a server with one worker, whose program is `p`. -/
def Reaches (plan : Plan codec) (s : ServerState) (core : Core) (sender : Sender) (p : Prog)
    (effects : List (ℕ × Effects)) : Prop :=
  Relation.ReflTransGen plan.Step .init ⟨s, [⟨core, sender, .mk p [], effects, []⟩]⟩

section Reaches

open Handling (about about_atOnce about_send about_receive)

variable {s : ServerState} {core : Core} {sender : Sender} {c : Cmd} {k : c.Answer → Prog}
  {effects : List (ℕ × Effects)}

theorem Reaches.atOnce (h : plan.Reaches s core sender (.call c k) effects) (a : c.Answer)
    (ha : c.AtOnce (Handling.effectsAt [] effects) a) :
    plan.Reaches s core sender (k a) ((about core sender c k effects).opened c) :=
  h.tail (.work ⟨s, [about core sender c k effects]⟩ 0 _ _ _ s rfl (about_atOnce ha)
    fun f op hd => by cases hd)

theorem Reaches.sent (h : plan.Reaches s core sender (.call c k) effects) (subNow : ℕ → Int)
    (now serverNow : Int) {req : Json}
    (hr : c.request sender subNow now (Handling.effectsAt [] effects) = some req)
    (hfair : plan.Fair s ⟨[], c, now, (s.send serverNow req).2⟩
      (.apply serverNow (unwrapRequestEnvelope req))) :
    Relation.ReflTransGen plan.Step .init ⟨s.deliver (.apply serverNow (unwrapRequestEnvelope req)),
      [{ about core sender c k effects with
        flights := [⟨[], c, now, (s.send serverNow req).2⟩] }]⟩ :=
  h.tail (.work ⟨s, [about core sender c k effects]⟩ 0 _ _ _ _ rfl
    (about_send subNow now serverNow hr) fun f op hd => by
      obtain ⟨rfl, rfl⟩ := Handling.Did.sent.inj hd
      exact hfair)

theorem Reaches.answered (h : plan.Reaches s core sender (.call c k) effects) (subNow : ℕ → Int)
    (now serverNow : Int) {req : Json} {e : Option Effects} {a : c.Answer}
    (hr : c.request sender subNow now (Handling.effectsAt [] effects) = some req)
    (hfair : plan.Fair s ⟨[], c, now, (s.send serverNow req).2⟩
      (.apply serverNow (unwrapRequestEnvelope req)))
    (ha : c.reply sender now (Handling.effectsAt [] effects) (s.send serverNow req).2 = some (e, a)) :
    plan.Reaches (s.deliver (.apply serverNow (unwrapRequestEnvelope req))) core sender (k a)
      ((about core sender c k effects).told [] e) :=
  (h.sent subNow now serverNow hr hfair).tail (.work _ 0 _ _ _ _ rfl (about_receive ha)
    fun f op hd => by cases hd)

end Reaches

def orderOp : Op :=
  .apply 0 (unwrapRequestEnvelope (envelope "promise.create" ⟨"c0", none⟩ (PromiseCreateReq.toJson
    { id := "t", timeoutAt := 1000, param := { data := some (.str orderText) }
      tags := [⟨"resonate:target", "local://any@default"⟩].toAList })))

def placedOrder : ServerState := ServerState.init.deliver orderOp

theorem order_heeds : orders.HeedsOp orderOp where
  creates r id hr hid _ := by
    obtain rfl := Option.some.inj hr
    exact ⟨⟨_, rfl, rfl⟩, fun h => by cases h⟩
  settles r id hr := by cases hr
  named r hr := by cases hr

theorem order_begun :
    orders.Reaches placedOrder orderCore ⟨none⟩ (orderCore.onMessage "t" 0 1) [] := by
  have hplaced := (Relation.ReflTransGen.refl (r := orders.Step) (a := .init)).tail
    (.serve .init orderOp (typed_of_not_settle rfl (by decide)) order_heeds ⟨by decide, by decide⟩
      (inTime_of_entries (by decide)))
  exact hplaced.tail (.begin _ orderCore ⟨none⟩ "t" 0 1 orderCore_fits rfl)

def orderPromise : PromiseRecord where
  id := "t"
  state := .pending
  param := { data := some order }
  value := { data := some .null }
  tags := [⟨"resonate:target", "local://any@default"⟩].toAList
  timeoutAt := 1000
  createdAt := 0
  settledAt := none

def orderGrant : TaskAcquireResult where
  task := ⟨"t", .acquired, 0, .null, some 60000, some "w1"⟩
  promise := { orderPromise with param := { data := some (.str orderText) }, value := {} }
  preload := []

def heldOrder : ServerState := placedOrder.deliver
  (.apply 1 (unwrapRequestEnvelope (acquireRequest ⟨"sr-1", none⟩ "t" 0 "w1" 60000)))

theorem order_acquired : orders.Reaches heldOrder orderCore ⟨none⟩
    (orderCore.executeUntilBlocked "t" 0 orderPromise 1 []) [] :=
  order_begun.answered (fun _ => 1) 1 1 (a := .ok orderGrant) (e := none) rfl
    ⟨⟨by decide, by decide⟩, inTime_of_entries (by decide), fun id v action hc => by cases hc⟩ rfl

def orderPayReq : PromiseCreateReq where
  id := "t:0"
  timeoutAt := 1000
  param := { data := some order }
  tags := (Core.rootContext orderPromise ⟨"order", .null⟩).childTags "local" "t" "t"

def orderPay : PromiseRecord :=
  { orderPromise with id := "t:0", tags := orderPayReq.tags, createdAt := 3 }

def orderPaid : PromiseRecord :=
  { orderPay with state := .resolved, value := { data := some order }, settledAt := some 4 }

def orderOutcome : PromiseSettleReq := ⟨"t", .resolved, { data := some (.str orderText) }⟩

theorem order_program : ∃ k₁, orderCore.executeUntilBlocked "t" 0 orderPromise 1 [] =
      .call (.heartbeatStart "t" 0) k₁ ∧
    ∃ k₂, k₁ () = .call (.effects "t" 0 []) k₂ ∧ ∃ k₃, k₂ () = .call .now k₃ ∧
    ∃ k₄, k₃ (2 : Int) = .call (.create .run [⟨0, false⟩] ⟨[], 0⟩ orderPayReq) k₄ ∧
    ∃ k₅, k₄ (.ok orderPay) = .call (.execute "t:0") k₅ ∧
    ∃ k₆, k₅ () = .call (.settle [⟨0, false⟩] "t:0" (.ok (.ok order))) k₆ ∧
    ∃ k₇, k₆ (.ok orderPaid) = .call (.fulfill "t" 0 orderOutcome) k₇ :=
  ⟨_, rfl, _, rfl, _, rfl, _, rfl, _, rfl, _, rfl, _, rfl⟩

def orderCache : Effects := Effects.new ⟨none⟩ orderCodec "t" 0 []

def orderCreate : Json := orderCache.fenceRequest 3 3
  (PromiseCreateReq.toJson { orderPayReq with param := { data := some (.str orderText) } })

def begunOrder : ServerState := heldOrder.deliver (.apply 3 (unwrapRequestEnvelope orderCreate))

theorem order_created {k : Except Error PromiseRecord → Prog} (h : orders.Reaches heldOrder orderCore
    ⟨none⟩ (.call (.create .run [⟨0, false⟩] ⟨[], 0⟩ orderPayReq) k) [(0, orderCache)]) :
    orders.Reaches begunOrder orderCore ⟨none⟩ (k (.ok orderPay))
      [(0, orderCache.insertMonotonic orderPay)] :=
  h.answered (fun _ => 3) 3 3 (a := .ok orderPay)
    (e := some (orderCache.insertMonotonic orderPay)) rfl
    ⟨⟨by decide, by decide⟩, inTime_of_entries (by decide), fun id v action hc => by cases hc⟩ rfl

def orderSettle : Json := orderCache.fenceRequest 4 4
  (PromiseSettleReq.toJson ⟨"t:0", .resolved, { data := some (.str orderText) }⟩)

def paidOrder : ServerState := begunOrder.deliver (.apply 4 (unwrapRequestEnvelope orderSettle))

theorem order_paid {k : Except Error PromiseRecord → Prog} (h : orders.Reaches begunOrder orderCore
    ⟨none⟩ (.call (.settle [⟨0, false⟩] "t:0" (.ok (.ok order))) k)
      [(0, orderCache.insertMonotonic orderPay)]) :
    orders.Reaches paidOrder orderCore ⟨none⟩ (k (.ok orderPaid))
      [(0, (orderCache.insertMonotonic orderPay).insertMonotonic orderPaid)] :=
  h.answered (fun _ => 4) 4 4 (a := .ok orderPaid)
    (e := some ((orderCache.insertMonotonic orderPay).insertMonotonic orderPaid)) rfl
    ⟨⟨by decide, by decide⟩, inTime_of_entries (by decide), fun id v action hc => by cases hc⟩ rfl

def orderFulfill : Json :=
  envelope "task.fulfill" ⟨"sr-5", none⟩ (taskFulfillData "t" 0 ⟨"sr-5", none⟩ orderOutcome)

def doneOrder : ServerState := paidOrder.deliver (.apply 5 (unwrapRequestEnvelope orderFulfill))

def orderDone : DurablePromise where
  id := "t"
  state := .resolved
  param := (Value.mk none (some (.str orderText))).toJson
  value := orderOutcome.value.toJson
  tags := orderPromise.tags
  timeoutAt := 1000
  createdAt := 0
  settledAt := some 5
  awaiters := []
  subscribers := []

theorem order_done {k : Except Error PromiseRecord → Prog} {effects : List (ℕ × Effects)}
    (h : orders.Reaches paidOrder orderCore ⟨none⟩ (.call (.fulfill "t" 0 orderOutcome) k) effects) :
    ∃ workers, Relation.ReflTransGen orders.Step .init ⟨doneOrder, workers⟩ := by
  refine ⟨_, h.sent (fun _ => 5) 5 5 rfl ⟨⟨by decide, by decide⟩, inTime_of_entries (by decide),
    fun id v action hc _ => ?_⟩⟩
  cases hc
  exact ⟨_, rfl, rfl, rfl⟩

theorem order_run : ∃ workers, Relation.ReflTransGen orders.Step .init ⟨doneOrder, workers⟩ := by
  obtain ⟨k₁, h₁, k₂, h₂, k₃, h₃, k₄, h₄, k₅, h₅, k₆, h₆, k₇, h₇⟩ := order_program
  have h := order_acquired
  rw [h₁] at h
  have h := h.atOnce () trivial
  rw [h₂] at h
  have h := h.atOnce () trivial
  rw [h₃] at h
  have h := h.atOnce (2 : Int) trivial
  rw [h₄] at h
  have h := order_created h
  rw [h₅] at h
  have h := h.atOnce () trivial
  rw [h₆] at h
  have h := order_paid h
  rw [h₇] at h
  exact order_done h

/-- A worker that takes up an order, pays it and fulfils it. -/
theorem durable_execution_agrees_order : ∃ w p, Relation.ReflTransGen orders.Step .init w ∧
    w.server.promises.lookup "t" = some p ∧ p.state = .resolved ∧
      (∃ y, orderCodec.decode (Value.ofJson p.value) = .ok y ∧ y.getD .null = order) ∧
      ∀ told, orderBody.eval orders told "t" 0 [] = .ok order := by
  obtain ⟨workers, h⟩ := order_run
  have hp : doneOrder.promises.lookup "t" = some orderDone := rfl
  obtain ⟨hst, hval, heval⟩ :=
    durable_execution_agrees orders _ h "t" orderDone order rfl hp (by decide)
  exact ⟨_, orderDone, h, hp, hst, hval, fun told => heval orderCore ⟨"order", .null⟩ _ told
    orderCore_fits rfl rfl⟩

end Orders

end Plan

end Resonate
