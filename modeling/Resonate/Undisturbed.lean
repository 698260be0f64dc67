import Resonate.Recall

/-!
# An undisturbed execution

An execution that has its cache and holds its lease, while nothing is due and nobody else
changes the server. What its cache and the answers on their way tell of fresh promises is
what the server has, and the promise of a call that is begun is pending until its settlement
is sent.
-/

namespace Resonate
open Lib Lib.ForkJoin Network

/-- The call of the promise, if the execution has one, is not used up, and its settlement is
not on its way. -/
def Fresh (root : String) (S : Tokens) (flights : List Flight) (id : String) : Prop :=
  ∀ p, p ≠ [] → id = idOf root p → (∃ m, (numbers p, m) ∈ S) ∧
    ∀ f ∈ flights, f.cmd.stage ≠ some (numbers p, .begun)

section Commands

variable {c : Cmd} {x : List ℕ} {m : Stage}

theorem begins_of_begun (h : c.stage = some (x, .begun)) (a : c.Answer) : c.begins a = none := by
  cases c <;> cases h
  rfl

theorem begins_some {a : c.Answer} (h : c.begins a = some m) : ∃ position slot req record,
    c = .create .run position slot req ∧ HEq a (Except.ok record : Except Error PromiseRecord) ∧
      record.state = .pending := by
  unfold Cmd.begins at h
  split at h
  · rename_i position slot req record
    split_ifs at h with hst
    exact ⟨position, slot, req, record, rfl, HEq.rfl, hst⟩
  · cases h

theorem target_of_stage (h : c.stage = some (x, m)) : ∃ id, c.target = some id := by
  cases c <;> cases h <;> exact ⟨_, rfl⟩

theorem event_cases (l : Label Cmd Cmd.Answer) : l.event = [] ∨ ∃ e, l.event = [e] := by
  cases l with
  | silent => exact Or.inl rfl
  | own e | below e => exact Or.inr ⟨e, rfl⟩

end Commands

theorem Effects.settlePromise_fence {e : Effects} {id : String}
    {result : Except Error (Except String Json)} {action : Json}
    (h : e.settlePromise id result = .fence action) :
    ∃ req : PromiseSettleReq, req.id = id ∧ action = req.toJson ∧
      ∃ data, settlement result = .ok (req.state, data) ∧ e.codec.encode data = .ok req.value := by
  unfold settlePromise at h
  split at h
  · cases h
  · split at h
    · cases h
    · rename_i hsettle
      split at h
      · cases h
      · rename_i hencode
        exact ⟨_, rfl, (Begun.fence.inj h).symm, _, hsettle, hencode⟩

theorem Cmd.reply_target {c : Cmd} {sender : Sender} {now : Int} {e : Effects} {id : String}
    {e' : Option Effects} {answer : Except Error Json} {a : c.Answer} (ht : c.target = some id)
    (hr : c.reply sender now (some e) answer = some (e', a)) :
    e' = some (e.received (e.fenceResult now answer)).1 ∧
      HEq a (e.received (e.fenceResult now answer)).2 := by
  cases c with
  | create kind position slot req | settle position id result =>
    obtain ⟨rfl, rfl⟩ := Prod.mk.inj (Option.some.inj hr)
    exact ⟨rfl, HEq.rfl⟩
  | _ => cases ht

namespace Handling

abbrev operations (x : Handling) (root : String) (version : Int) (cache : HashMap PromiseRecord) :
    Effects := ⟨x.sender, x.core.sdk.codec, root, version, cache⟩

structure Recalling (root : String) (version : Int) (S : Tokens) (s : ServerState) (x : Handling) :
    Prop where
  wf : WF s
  coherent : Coherent s
  lease : s.Holds root version
  owns : x.node.Owns (Cmd.Names (Cmd.NamedBy root)) (usage true) S
  cache : ∃ cache, x.effects = [(0, x.operations root version cache)] ∧
    (x.operations root version cache).Recalls (Fresh root S x.flights) s
  calls : ∀ f ∈ x.flights, CallsAt f.path x.node f.cmd
  tells : ∀ f ∈ x.flights, ∃ id promise preload, f.cmd.target = some id ∧
    f.Tells x.sender (Fresh root S x.flights) s id promise preload
  apart : ∀ f ∈ x.flights, ∀ g ∈ x.flights, f.path = g.path → f = g
  begun : ∀ p, p ≠ [] → (numbers p, .begun) ∈ S →
    (∀ f ∈ x.flights, f.cmd.stage ≠ some (numbers p, .begun)) → s.isPending (idOf root p) = true

theorem effectsAt_single (path : List ℕ) (e : Effects) : effectsAt path [(0, e)] = some e := by
  cases path <;> rfl

theorem setEffects_single (path : List ℕ) (e e' : Effects) :
    setEffects path e' [(0, e)] = [(0, e')] := by
  cases path <;> rfl

namespace Recalling

variable {root : String} {version : Int} {S : Tokens} {s s' : ServerState} {x : Handling}
  {path : List ℕ} {kind : CallKind} {p : Position} {slot : Slot} {req : PromiseCreateReq}
  {id : String} {result : Except Error (Except String Json)} {l : Label Cmd Cmd.Answer}
  {n : Node Cmd Cmd.Answer End} {c : Cmd}

theorem fresh_create (h : x.Recalling root version S s)
    (hc : CallsAt path x.node (.create kind p slot req)) :
    req.id ≠ "" ∧ Fresh root S x.flights req.id := by
  obtain ⟨hname, hneeds⟩ := h.owns.callsAt hc
  have hcall : p ≠ [] → req.id = idOf root p → req.id ≠ "" ∧ Fresh root S x.flights req.id := by
    intro hp hid
    refine ⟨hid ▸ (idOf_ne hp).2, fun q hq hidq => ?_⟩
    have hnum : numbers p = numbers q := idOf_inj (hid.symm.trans hidq)
    refine ⟨⟨.todo, hnum ▸ hneeds _ rfl⟩, fun f hf hst => ?_⟩
    have hpath : f.path = path := h.owns.callsAt_inj (h.calls f hf) hc (hnum ▸ hst) rfl
    have hcmd := (h.calls f hf).unique (hpath ▸ hc)
    rw [hcmd] at hst
    exact absurd (Prod.mk.inj (Option.some.inj hst)).2 (by decide)
  cases kind with
  | detached => exact ⟨hname.1, fun q hq hid => absurd hid (hname.2 q hq)⟩
  | run | remote => exact hcall hname.1 hname.2

theorem fresh_settle (h : x.Recalling root version S s)
    (hc : CallsAt path x.node (.settle p id result)) (hf : ∀ f ∈ x.flights, f.path ≠ path) :
    p ≠ [] ∧ id = idOf root p ∧ Fresh root S x.flights id ∧ s.isPending id = true := by
  obtain ⟨⟨hp, hid⟩, hneeds⟩ := h.owns.callsAt hc
  have hnone : ∀ f ∈ x.flights, f.cmd.stage ≠ some (numbers p, .begun) := fun f hmem hst =>
    hf f hmem (h.owns.callsAt_inj (h.calls f hmem) hc hst rfl)
  refine ⟨hp, hid, fun q hq hidq => ?_, hid ▸ h.begun p hp (hneeds _ rfl) hnone⟩
  have hnum : numbers p = numbers q := idOf_inj (hid.symm.trans hidq)
  exact ⟨⟨.begun, hnum ▸ hneeds _ rfl⟩, hnum ▸ hnone⟩

theorem sent (h : x.Recalling root version S s) {f : Flight} (hc : CallsAt f.path x.node f.cmd)
    (hf : ∀ g ∈ x.flights, g.path ≠ f.path) (htarget : f.cmd.target = some id) (hwf : WF s')
    (hc' : Coherent s') {cache : HashMap PromiseRecord} {result : Except Error TaskFenceResult}
    (hresult : (x.operations root version cache).fenceResult f.sent f.answer = result)
    (hfenced : Effects.Fenced (x.operations root version cache) id s s' result)
    (hkept : Fresh root S (f :: x.flights) id →
      (s'.view id).isSome ∧ (s.view id = none ∨ s'.view id = s.view id)) :
    ({ x with flights := f :: x.flights } : Handling).Recalling root version S s' := by
  have hgrows : Grows (Fresh root S x.flights) (Fresh root S (f :: x.flights)) s s' := by
    refine ⟨fun a ha q hq hid => ?_, fun a ha => ?_⟩
    · obtain ⟨htoken, hnone⟩ := ha q hq hid
      exact ⟨htoken, fun g hg => hnone g (List.mem_cons_of_mem _ hg)⟩
    · by_cases heq : a = id
      · subst heq
        exact (hkept ha).2
      · exact Or.inr (hfenced.others a heq)
  have hself : f.Tells x.sender (Fresh root S (f :: x.flights)) s' id (s'.recordOf id)
      (s'.preload root) := by
    refine ⟨fun e he => ?_, fun r hr => (hc'.recordOf_shows rfl hr).1, fun hfr => ⟨(hkept hfr).1, rfl⟩,
      fun v hv r hr _ => ?_⟩
    · rw [← hfenced.answer, ← hresult, Effects.fenceResult, Effects.fenceResult, he]
    · unfold ServerState.preload at hv
      cases hb : (s'.promises.lookup root).bind (·.tags.lookup "resonate:branch") with
      | none => simp [hb] at hv
      | some branch =>
        simp only [hb, List.mem_map, List.mem_filter] at hv
        obtain ⟨q, ⟨hq, -⟩, rfl⟩ := hv
        obtain ⟨a, ha⟩ := HashMap.mem_values.mp hq
        rw [(hc'.shows ha hr).1, ServerState.recordOf, ha]
  refine ⟨hwf, hc', hfenced.lease, h.owns, ?_, ?_, ?_, ?_, ?_⟩
  · obtain ⟨cache, heff, hrec⟩ := h.cache
    exact ⟨cache, heff, hrec.grow hgrows⟩
  · intro g hg
    rcases List.mem_cons.mp hg with rfl | hg
    · exact hc
    · exact h.calls g hg
  · intro g hg
    rcases List.mem_cons.mp hg with rfl | hg
    · exact ⟨id, _, _, htarget, hself⟩
    · obtain ⟨a, promise, preload, ha, ht⟩ := h.tells g hg
      exact ⟨a, promise, preload, ha, ht.grow hgrows⟩
  · intro g hg g' hg' hpath
    rcases List.mem_cons.mp hg with heq | hg
    · rcases List.mem_cons.mp hg' with heq' | hg'
      · exact heq.trans heq'.symm
      · exact absurd (heq ▸ hpath).symm (hf g' hg')
    · rcases List.mem_cons.mp hg' with heq' | hg'
      · exact absurd (heq' ▸ hpath) (hf g hg)
      · exact h.apart g hg g' hg' hpath
  · intro q hq hmem hnone
    have hpend := h.begun q hq hmem fun g hg => hnone g (List.mem_cons_of_mem _ hg)
    have hfresh : Fresh root S (f :: x.flights) (idOf root q) := by
      intro q' hq' hid
      have hnum : numbers q = numbers q' := idOf_inj hid
      exact ⟨⟨.begun, hnum ▸ hmem⟩, hnum ▸ hnone⟩
    rcases hgrows.kept _ hfresh with hview | hview
    · obtain ⟨d, hd, -⟩ := ServerState.isPending_iff.mp hpend
      rw [ServerState.view_of_some hd] at hview
      cases hview
    · rw [ServerState.isPending_congr hview]
      exact hpend

/-- A task is answered, or forks or joins: its calls are used up, and the rest stays. -/
theorem answered (h : x.Recalling root version S s) (hs : StepAt path x.node l n)
    {flights : List Flight} (hF : ∀ g, g ∈ flights ↔ g ∈ x.flights ∧ g.path ≠ path)
    {cache : HashMap PromiseRecord}
    (hcache : (x.operations root version cache).Recalls (Fresh root S x.flights) s)
    (hbegins : ∀ c a, l.event = [⟨c, a⟩] → ∀ id, c.target = some id → c.begins a = some .begun →
      s.isPending id = true) :
    (⟨x.core, x.sender, n, [(0, x.operations root version cache)], flights⟩ : Handling).Recalling
      root version ((usage true).afterAll S l.event) s := by
  obtain ⟨hP, howns⟩ := h.owns.step hs.step
  -- the operations in flight are those of the other tasks
  have hother : ∀ g ∈ x.flights, ∀ q, g.cmd.stage = some (numbers q, .begun) →
      (∃ m, (numbers q, m) ∈ (usage true).afterAll S l.event) → g ∈ flights := by
    intro g hg q hst htoken
    refine (hF g).mpr ⟨hg, fun hpath => ?_⟩
    obtain ⟨a, ha⟩ := (hpath ▸ h.calls g hg).event hs
    obtain ⟨m, hm⟩ := htoken
    rw [ha] at hm
    rcases (Usage.mem_after hst a).mp hm with ⟨-, hne⟩ | ⟨-, hleft⟩
    · exact hne rfl
    · rw [show (usage true).leaves g.cmd a = g.cmd.begins a from rfl, begins_of_begun hst] at hleft
      cases hleft
  have hfresh : ∀ a, Fresh root ((usage true).afterAll S l.event) flights a →
      Fresh root S x.flights a := by
    intro a ha q hq hid
    obtain ⟨⟨m, hm⟩, hnone⟩ := ha q hq hid
    refine ⟨?_, fun g hg hst => hnone g (hother g hg q hst ⟨m, hm⟩) hst⟩
    rcases event_cases l with he | ⟨e, he⟩
    · rw [he] at hm
      exact ⟨m, hm⟩
    · rw [he] at hm
      exact Usage.key_after (hP e (by rw [he]; exact List.mem_singleton_self e)).2 hm
  have hgrows : Grows (Fresh root S x.flights) (Fresh root ((usage true).afterAll S l.event) flights)
      s s := ⟨hfresh, fun _ _ => Or.inr rfl⟩
  refine ⟨h.wf, h.coherent, h.lease, howns, ⟨cache, rfl, hcache.grow hgrows⟩, fun g hg => ?_,
    fun g hg => ?_, fun g hg g' hg' hpath => ?_, fun q hq hmem hnone => ?_⟩
  · exact (h.calls g ((hF g).mp hg).1).elsewhere hs ((hF g).mp hg).2
  · obtain ⟨a, promise, preload, ha, ht⟩ := h.tells g ((hF g).mp hg).1
    exact ⟨a, promise, preload, ha, ht.grow hgrows⟩
  · exact h.apart g ((hF g).mp hg).1 g' ((hF g').mp hg').1 hpath
  · have hold : (numbers q, .begun) ∈ S → s.isPending (idOf root q) = true := fun hS =>
      h.begun q hq hS fun g hg hst => hnone g (hother g hg q hst ⟨.begun, hmem⟩) hst
    rcases event_cases l with he | ⟨⟨c, a⟩, he⟩
    · rw [he] at hmem
      exact hold hmem
    · have hmem' := hmem
      rw [he] at hmem'
      rcases hmem' with ⟨hS, -⟩ | ⟨m, hneeds, hleft⟩
      · exact hold hS
      · obtain ⟨id, hid⟩ := target_of_stage hneeds
        have hpend := hbegins c a he id hid hleft
        obtain ⟨position, slot, req, record, rfl, -, -⟩ := begins_some hleft
        obtain ⟨-, hname⟩ := (hP _ (by rw [he]; exact List.mem_singleton_self _)).1
        obtain rfl : req.id = id := Option.some.inj hid
        have hnum : numbers position = numbers q := (Prod.mk.inj (Option.some.inj hneeds)).1
        rw [← idOf_congr hnum, ← hname]
        exact hpend

theorem send_create (h : x.Recalling root version S s)
    (hv : Json.i64Min ≤ version ∧ version ≤ Json.i64Max) (subNow : ℕ → Int) (now : Int)
    {serverNow : Int} (hcalm : s.Calm serverNow) (hc : CallsAt path x.node (.create kind p slot req))
    (hf : ∀ f ∈ x.flights, f.path ≠ path) {cache : HashMap PromiseRecord} {action : Json}
    (hfence : (x.operations root version cache).createPromise req = .fence action) :
    let r := (x.operations root version cache).fenceRequest (subNow 0) now action
    let s' := s.deliver (.apply serverNow (unwrapRequestEnvelope r))
    ({ x with flights := ⟨path, .create kind p slot req, now, (s.send serverNow r).2⟩ :: x.flights } :
      Handling).Recalling root version S s' ∧
      ((s.view req.id).isSome → s' = { s with outgoing := [] }) := by
  obtain ⟨req', hid, -, rfl⟩ := Effects.createPromise_fence hfence
  obtain ⟨hne, hfresh⟩ := h.fresh_create hc
  obtain ⟨hfenced, hsame, hsome⟩ := @Effects.create_calm (x.operations root version cache) s
    (subNow 0) now serverNow req' h.wf h.lease hcalm hv (hid ▸ hne)
  rw [hid] at hfenced hsame hsome
  refine ⟨?_, hsame⟩
  refine h.sent hc hf rfl (h.wf.deliver _) (deliver_coherent h.coherent
    ((Effects.Acts.create req' rfl).typed _ _ _ _)) rfl hfenced fun _ => ⟨hsome, ?_⟩
  cases hview : s.view req.id with
  | none => exact Or.inl rfl
  | some d =>
    have hkept := congrArg (fun s => s.view req.id) (hsame (by rw [hview]; rfl))
    exact Or.inr (hkept.trans hview)

theorem send_settle (h : x.Recalling root version S s)
    (hv : Json.i64Min ≤ version ∧ version ≤ Json.i64Max) (subNow : ℕ → Int) (now : Int)
    {serverNow : Int} (hcalm : s.Calm serverNow) (hc : CallsAt path x.node (.settle p id result))
    (hf : ∀ f ∈ x.flights, f.path ≠ path) {cache : HashMap PromiseRecord} {action : Json}
    (hfence : (x.operations root version cache).settlePromise id result = .fence action) :
    let r := (x.operations root version cache).fenceRequest (subNow 0) now action
    ({ x with flights := ⟨path, .settle p id result, now, (s.send serverNow r).2⟩ :: x.flights } :
      Handling).Recalling root version S (s.deliver (.apply serverNow (unwrapRequestEnvelope r))) := by
  obtain ⟨req', rfl, rfl, -⟩ := Effects.settlePromise_fence hfence
  obtain ⟨hp, hid, -, -⟩ := h.fresh_settle hc hf
  have hfenced := @Effects.settle_calm (x.operations root version cache) s (subNow 0) now
    serverNow req' h.wf h.lease hcalm hv (hid ▸ (idOf_ne hp).2)
    (hid ▸ (idOf_ne hp).1)
  refine h.sent hc hf rfl (h.wf.deliver _) (deliver_coherent h.coherent
    ((Effects.Acts.settle req' rfl).typed _ _ _ _)) rfl hfenced fun hfresh => ?_
  exact absurd rfl ((hfresh p hp hid).2 _ List.mem_cons_self)

/-- A creation that is answered with what the workflow reads begins its call if the promise is
pending. -/
theorem begins_pending (h : x.Recalling root version S s) (codec : Codec) {c : Cmd} {a : c.Answer}
    (hc : CallsAt path x.node c) (htarget : c.target = some id)
    (hread : ∀ kind p slot req, c = .create kind p slot req →
      ∀ r, HEq a (Except.ok r : Except Error PromiseRecord) → codec.reads s id = .ok r)
    (hb : c.begins a = some .begun) : s.isPending id = true := by
  obtain ⟨position, slot, req, record, rfl, ha, hst⟩ := begins_some hb
  exact (Codec.reads_pending h.coherent (hread _ _ _ _ rfl record ha)).mp hst

theorem reply_create (h : x.Recalling root version S s) {sent : Int} {answer : Except Error Json}
    (hf : ⟨path, .create kind p slot req, sent, answer⟩ ∈ x.flights) :
    ∃ e, (Cmd.create kind p slot req).reply x.sender sent (effectsAt path x.effects) answer =
      some (e, x.core.sdk.codec.reads s req.id) := by
  obtain ⟨cache, heff, hrec⟩ := h.cache
  obtain ⟨id, promise, preload, htarget, ht⟩ := h.tells _ hf
  obtain rfl : req.id = id := Option.some.inj htarget
  obtain ⟨-, hread⟩ := hrec.received ht
  rw [heff, effectsAt_single, ← hread (h.fresh_create (h.calls _ hf)).2]
  exact ⟨_, rfl⟩

theorem receive (h : x.Recalling root version S s) {f : Flight} (hf : f ∈ x.flights)
    {l : Label Cmd Cmd.Answer} {n : Node Cmd Cmd.Answer End} (hs : StepAt f.path x.node l n)
    {a : f.cmd.Answer} (hl : l.event = [⟨f.cmd, a⟩]) {e : Option Effects}
    (hr : f.cmd.reply x.sender f.sent (effectsAt f.path x.effects) f.answer = some (e, a)) :
    (⟨x.core, x.sender, n, x.told f.path e, x.flights.filter fun g => g.path ≠ f.path⟩ :
      Handling).Recalling root version ((usage true).afterAll S l.event) s := by
  obtain ⟨cache, heff, hrec⟩ := h.cache
  obtain ⟨id, promise, preload, htarget, ht⟩ := h.tells f hf
  have hread : ∀ kind p slot req, f.cmd = .create kind p slot req →
      ∀ r, HEq a (Except.ok r : Except Error PromiseRecord) → x.core.sdk.codec.reads s id = .ok r := by
    obtain ⟨path, c, sent, answer⟩ := f
    rintro kind p slot req rfl r ha
    obtain rfl : req.id = id := Option.some.inj htarget
    obtain ⟨e', he'⟩ := h.reply_create hf
    exact (Prod.mk.inj (Option.some.inj (he'.symm.trans hr))).2.trans (eq_of_heq ha)
  rw [heff, effectsAt_single] at hr
  obtain ⟨rfl, -⟩ := Cmd.reply_target htarget hr
  obtain ⟨hrec', -⟩ := hrec.received ht
  have hcache : ((x.operations root version cache).received
      ((x.operations root version cache).fenceResult f.sent f.answer)).1 =
      x.operations root version ((x.operations root version cache).received
        ((x.operations root version cache).fenceResult f.sent f.answer)).1.cache :=
    Effects.received_eq _ _
  rw [hcache] at hrec'
  rw [told, heff, setEffects_single, hcache]
  refine h.answered hs (fun g => by simp) hrec' fun c a' he id' hid' hb => ?_
  obtain ⟨rfl, heq⟩ := Sigma.mk.inj (List.cons.inj (hl.symm.trans he)).1
  obtain rfl := eq_of_heq heq
  obtain rfl := Option.some.inj (htarget.symm.trans hid')
  exact h.begins_pending x.core.sdk.codec (h.calls f hf) htarget hread hb

theorem atOnce (h : x.Recalling root version S s) (hf : ∀ f ∈ x.flights, f.path ≠ path) {c : Cmd}
    {a : c.Answer} {l : Label Cmd Cmd.Answer} {n : Node Cmd Cmd.Answer End}
    (hs : StepAt path x.node l n) (hl : l.event = [⟨c, a⟩])
    (ha : c.AtOnce (effectsAt path x.effects) a) :
    (⟨x.core, x.sender, n, x.opened c, x.flights⟩ : Handling).Recalling root version
      ((usage true).afterAll S l.event) s := by
  obtain ⟨cache, heff, hrec⟩ := h.cache
  have hc : CallsAt path x.node c := hs.callsAt (by rw [hl]; exact List.mem_singleton_self _)
  have hopened : x.opened c = [(0, x.operations root version cache)] := by
    cases c with
    | effects id v preload => exact ((h.owns.callsAt hc).1).elim
    | _ => exact heff
  rw [hopened]
  refine h.answered hs (fun g => ⟨fun hg => ⟨hg, hf g hg⟩, fun hg => hg.1⟩) hrec
    fun c' a' he id hid hb => ?_
  obtain ⟨rfl, heq⟩ := Sigma.mk.inj (List.cons.inj (hl.symm.trans he)).1
  obtain rfl := eq_of_heq heq
  refine h.begins_pending x.core.sdk.codec hc hid (fun kind p slot req hcmd r hr => ?_) hb
  subst hcmd
  obtain rfl : req.id = id := Option.some.inj hid
  obtain rfl := eq_of_heq hr
  rw [heff, effectsAt_single] at ha
  obtain ⟨e, he', hans⟩ := ha
  obtain rfl := Option.some.inj he'
  unfold Effects.createPromise at hans
  cases hl' : cache.lookup req.id with
  | some cached =>
    simp only [hl'] at hans
    obtain rfl : cached = r := Except.ok.inj (Begun.answered.inj hans)
    exact hrec req.id cached hl' (h.fresh_create hc).2
  | none =>
    simp only [hl'] at hans
    split at hans
    · cases Begun.answered.inj hans
    · cases hans

theorem silent (h : x.Recalling root version S s) {n : Node Cmd Cmd.Answer End}
    (hs : StepAt path x.node .silent n) :
    (⟨x.core, x.sender, n, x.effects, x.flights⟩ : Handling).Recalling root version S s := by
  obtain ⟨cache, heff, hrec⟩ := h.cache
  rw [heff]
  refine h.answered hs (fun g => ⟨fun hg => ⟨hg, fun hpath => ?_⟩, fun hg => hg.1⟩) hrec
    fun c a he => by cases he
  obtain ⟨a, ha⟩ := (hpath ▸ h.calls g hg).event hs
  cases ha

end Recalling

end Handling

end Resonate
