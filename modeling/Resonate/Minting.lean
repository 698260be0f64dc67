import Resonate.Lineage
import Resonate.Stages

/-!
# The ids of a tree

Whatever it is answered and however its tasks interleave, the handling of a promise asks
only for promises whose ids and declared lineages are those of its calls, and an execution
whose functions keep to their scopes asks for each of them once. The promises that are
dispatched again continue the tree, with the same origin.
-/

namespace Resonate
open Lib Lib.ForkJoin

def Cmd.Mints (hash : String → String) (root : String) (w : Lineage) : Cmd → Prop
  | .create kind position _ req => Minted hash root (w ++ lineage kind position) kind req
  | _ => True

def Cmd.lineage : Cmd → Option Lineage
  | .create kind position _ _ => some (Resonate.lineage kind position)
  | _ => none

section Handling

variable {core : Core} {root : String} {w : Lineage} {taskId : String} {version : Int}
  {promise : PromiseRecord} {entry : RegistryEntry} {data : TaskData}

theorem naming_mints {sdk : Sdk} (hroot : originSep ∉ root.toList)
    (hseg : ∀ s, Segment ("d" ++ sdk.hashId s)) :
    Naming sdk (Cmd.Mints sdk.hashId root w) (Context.Stands sdk.hashId root w) where
  same c c' hc hpos hid horigin hbranch :=
    ⟨horigin.trans hc.origin, by rw [hbranch, hid, hc.branch], by rw [hid, hpos, hc.id]⟩
  child c n sp name timeoutAt hc := hc.child
  run c n sp slot args timeout now req hc h :=
    ⟨hc.minted_call hroot (by decide) (localCreateReq_id h) (Or.inl hc.branch)
      (localCreateReq_declares h), fun _ => trivial⟩
  remote c n sp slot call now req hc h :=
    hc.minted_call hroot (by decide) (remoteReq_id h) (Or.inr (remoteReq_id h).symm)
      (remoteReq_declares h)
  detached c n slot func args timeout target now req hc h := by
    obtain ⟨hid, hdecl⟩ := detachedReq_declares h
    exact hc.minted_detached hroot hseg hid hdecl

abbrev MintsOnly (hash : String → String) (root : String) (w : Lineage) (p : Prog) : Prop :=
  p.Only (Cmd.Names (Cmd.Mints hash root w))

theorem fulfillTask_mints (state : SettleState) (value : Json) {hash : String → String}
    {k : Except Error PromiseRecord → Prog} (hk : ∀ a, MintsOnly hash root w (k a)) :
    MintsOnly hash root w (core.fulfillTask taskId version promise state value k) := by
  unfold Core.fulfillTask
  split
  · exact hk _
  · exact ⟨trivial, hk⟩

theorem loop_mints (hroot : originSep ∉ root.toList)
    (hseg : ∀ s, Segment ("d" ++ core.sdk.hashId s))
    (hp : (Core.rootContext promise data).Stands core.sdk.hashId root w)
    {k : Except Error Status → Prog} (hk : ∀ a, MintsOnly core.sdk.hashId root w (k a)) (fuel : ℕ)
    (preload : List PromiseRecord) :
    MintsOnly core.sdk.hashId root w (core.loop taskId version promise entry data k fuel preload) := by
  induction fuel generalizing preload with
  | zero => trivial
  | succ fuel ih =>
    rw [Core.loop]
    have huse : ∀ c, (usage false).needs c = none := fun _ => rfl
    refine (Proc.Owns.only_iff huse).mp (Core.execute_owned (d := ⟨fun _ _ => True, fun _ _ => True⟩)
      false (naming_mints hroot hseg) (fun _ => trivial) hp (fun h => by cases h) (Apart.empty _)
        preload fun res =>
        (Proc.Owns.only_iff huse).mpr ?_)
    cases res with
    | error e => exact hk _
    | ok x =>
      obtain ⟨result, todos⟩ := x
      cases todos with
      | nil =>
        refine fulfillTask_mints _ _ fun a => ?_
        cases a <;> exact hk _
      | cons todo todos =>
        refine ⟨trivial, fun a => ?_⟩
        cases a with
        | error e => exact hk _
        | ok r =>
          cases r with
          | suspended => exact hk _
          | redirect preload => exact ih preload

theorem executeUntilBlockedInner_mints (hroot : originSep ∉ root.toList)
    (hseg : ∀ s, Segment ("d" ++ core.sdk.hashId s))
    (hp : ∀ data, (Core.rootContext promise data).Stands core.sdk.hashId root w)
    {k : Except Error Status → Prog} (hk : ∀ a, MintsOnly core.sdk.hashId root w (k a)) (fuel : ℕ)
    (preload : List PromiseRecord) :
    MintsOnly core.sdk.hashId root w
      (core.executeUntilBlockedInner taskId version promise fuel preload k) := by
  have hdone : ∀ a, MintsOnly core.sdk.hashId root w (Core.done k a) := by
    intro a
    cases a <;> exact hk _
  unfold Core.executeUntilBlockedInner
  split
  · exact fulfillTask_mints _ _ hdone
  · split
    · exact hk _
    · split
      · exact hk _
      · split
        · exact fulfillTask_mints _ _ hdone
        · exact loop_mints hroot hseg (hp _) hk fuel preload

theorem executeUntilBlocked_mints (hroot : originSep ∉ root.toList)
    (hseg : ∀ s, Segment ("d" ++ core.sdk.hashId s))
    (hp : ∀ data, (Core.rootContext promise data).Stands core.sdk.hashId root w) (fuel : ℕ)
    (preload : List PromiseRecord) :
    MintsOnly core.sdk.hashId root w
      (core.executeUntilBlocked taskId version promise fuel preload) := by
  unfold Core.executeUntilBlocked
  split
  · trivial
  · refine ⟨trivial, fun _ => ?_⟩
    refine executeUntilBlockedInner_mints hroot hseg hp (fun result => ?_) fuel preload
    refine ⟨trivial, fun _ => ?_⟩
    cases result with
    | ok status => trivial
    | error e => exact ⟨trivial, fun _ => trivial⟩

end Handling

section Trees

def Asks (hash : String → String) (promise : PromiseRecord) (kind : CallKind) (position : Position)
    (req : PromiseCreateReq) : Prop :=
  ∃ (core : Core) (taskId : String) (version : Int) (fuel : ℕ) (preload : List PromiseRecord)
    (ls : List (Label Cmd Cmd.Answer)) (n : Node Cmd Cmd.Answer End) (slot : Slot)
    (answer : Except Error PromiseRecord), core.sdk.hashId = hash ∧
    Steps (.mk (core.executeUntilBlocked taskId version promise fuel preload) []) ls n ∧
    ⟨.create kind position slot req, answer⟩ ∈ ls.flatMap Label.event

/-- The promises that are dispatched in the tree of a root, with the calls that lead to
them: the root's, and those that a dispatched promise asks for. -/
inductive Dispatched (hash : String → String) (root : String) : Lineage → PromiseRecord → Prop
  | root (promise : PromiseRecord) (hid : promise.id = root)
      (htag : promise.tags.lookup "resonate:origin" = none ∨
        promise.tags.lookup "resonate:origin" = some root) : Dispatched hash root [] promise
  | again (w : Lineage) (promise : PromiseRecord) (kind : CallKind) (position : Position)
      (req : PromiseCreateReq) (promise' : PromiseRecord) (h : Dispatched hash root w promise)
      (hasks : Asks hash promise kind position req) (hid : promise'.id = req.id)
      (htags : promise'.tags = req.tags) : Dispatched hash root (w ++ lineage kind position) promise'

/-- The create requests of the tree of a root, with their lineages and, but for the
client's, the kinds of their calls. -/
inductive Requested (hash : String → String) (root : String) :
    Lineage → Option CallKind → PromiseCreateReq → Prop
  | client (codec : Codec) (func : String) (args : Json) (opts : Options) (now : Int)
      (req : PromiseCreateReq) (h : buildPromiseCreateReq codec root func args opts now = .ok req) :
      Requested hash root [] none req
  | call (w : Lineage) (promise : PromiseRecord) (kind : CallKind) (position : Position)
      (req : PromiseCreateReq) (h : Dispatched hash root w promise)
      (hasks : Asks hash promise kind position req) :
      Requested hash root (w ++ lineage kind position) (some kind) req

variable {hash : String → String} {root : String} {w : Lineage} {promise : PromiseRecord}
  {kind : CallKind} {position : Position} {req : PromiseCreateReq}

theorem Asks.minted (hroot : originSep ∉ root.toList) (hseg : ∀ s, Segment ("d" ++ hash s))
    (hp : ∀ data, (Core.rootContext promise data).Stands hash root w)
    (h : Asks hash promise kind position req) :
    Minted hash root (w ++ lineage kind position) kind req := by
  obtain ⟨core, taskId, version, fuel, preload, ls, n, slot, answer, rfl, hrun, he⟩ := h
  have hmints : MintsOnly core.sdk.hashId root w
      (core.executeUntilBlocked taskId version promise fuel preload) :=
    executeUntilBlocked_mints hroot hseg hp fuel preload
  have howns := (Proc.Owns.only_iff (u := usage false) (S := ∅) fun _ => rfl).mpr hmints
  exact ((Node.Owns.start howns).steps hrun).1 _ he

/-- A dispatched promise is handled in a root context of the tree. -/
theorem Dispatched.stands (hroot : originSep ∉ root.toList) (hseg : ∀ s, Segment ("d" ++ hash s))
    (h : Dispatched hash root w promise) (data : TaskData) :
    (Core.rootContext promise data).Stands hash root w := by
  induction h generalizing data with
  | root promise hid htag =>
    refine ⟨?_, rfl, by simpa [Core.rootContext, Context.root] using hid⟩
    rcases htag with htag | htag
    · simp [Core.rootContext, Context.root, htag, hid, originOf_self hroot]
    · simp [Core.rootContext, Context.root, htag]
  | again w promise kind position req promise' h hasks hid htags ih =>
    have hm := hasks.minted hroot hseg ih
    refine ⟨?_, rfl, ?_⟩
    · simp [Core.rootContext, Context.root, htags, hm.wellFormed.tagged]
    · simpa [Core.rootContext, Context.root, hid] using hm.id

theorem nodup_lineages {es : List Event} (h : (es.filterMap fun e => e.1.creation).Nodup) :
    (es.filterMap fun e => e.1.lineage).Nodup := by
  have hmap : (es.filterMap fun e => e.1.lineage).map (List.map Hop.number) =
      es.filterMap fun e => e.1.creation := by
    rw [List.map_filterMap]
    congr 1
    funext e
    obtain ⟨c, a⟩ := e
    cases c with
    | create kind position slot req => simp [Cmd.lineage, Cmd.creation, map_number_lineage]
    | _ => rfl
  rw [← hmap] at h
  exact h.of_map

theorem Requested.minted {v : Lineage} {kind : Option CallKind} (hroot : originSep ∉ root.toList)
    (hseg : ∀ s, Segment ("d" ++ hash s)) (h : Requested hash root v kind req) :
    WellFormed root req ∧ req.id = idAt hash root v ∧
      (kind = some .detached → OneSegment root req.id) := by
  cases h with
  | client codec func args opts now req h =>
    refine ⟨buildPromiseCreateReq_wellFormed h, (buildPromiseCreateReq_ok h).2.1, fun hk => ?_⟩
    cases hk
  | call w promise kind position req h hasks =>
    have hm := hasks.minted hroot hseg (h.stands hroot hseg)
    exact ⟨hm.wellFormed, hm.id, fun hk => hm.bounded (Option.some.inj hk)⟩

theorem lineage_sound (seahash : ByteArray → UInt64) {root : String}
    (hroot : validateRootId root = .ok ()) :
    (∀ v kind req, Requested (hashId seahash) root v kind req →
      WellFormed root req ∧ (kind = some .detached → OneSegment root req.id)) ∧
    (∀ v kind req root' v' kind' req', Requested (hashId seahash) root v kind req →
      validateRootId root' = .ok () → Requested (hashId seahash) root' v' kind' req' →
      Set.InjOn (hashId seahash)
        (rawIds (hashId seahash) root v ∪ rawIds (hashId seahash) root' v') →
      (root, v) ≠ (root', v') → req.id ≠ req'.id) ∧
    ∀ w promise (core : Core) taskId version entry data d preload ls n,
      Dispatched (hashId seahash) root w promise → core.sdk.hashId = hashId seahash →
      (entry.kind = .workflow → (entry.func data.args).Keeps d [] .start) →
      Steps (.mk (core.execute taskId version promise entry data preload fun _ =>
        .ret .unfinished) []) ls n →
      ((ls.flatMap Label.event).filterMap fun e => e.1.lineage).Nodup := by
  have hseg := segment_hashId seahash
  have hsep := validateRootId_ok hroot
  refine ⟨fun v kind req h => ?_, ?_, ?_⟩
  · have hm := h.minted hsep hseg
    exact ⟨hm.1, hm.2.2⟩
  · intro v kind req root' v' kind' req' h hroot' h' hinj hne heq
    have hsep' := validateRootId_ok hroot'
    have hid := (h.minted hsep hseg).2.1
    have hid' := (h'.minted hsep' hseg).2.1
    obtain ⟨rfl, rfl⟩ := idAt_inj hseg hsep hsep' hinj (hid.symm.trans (heq.trans hid'))
    exact hne rfl
  · intro w promise core taskId version entry data d preload ls n hd hcore hkeeps hrun
    have howned : Owned (Cmd.Mints core.sdk.hashId root w) true
        (core.execute taskId version promise entry data preload fun _ => .ret .unfinished)
        (below true [] Scope.start.Left ∪ ∅) :=
      Core.execute_owned true (naming_mints hsep (hcore ▸ hseg)) (fun _ => trivial)
        (hcore ▸ hd.stands hsep hseg data)
        (fun _ => hkeeps) (Apart.empty _) preload fun _ => ret_owned
    exact nodup_lineages (((Node.Owns.start howned).steps hrun).2 Cmd.creation .todo creation_stage
      begins_ne_todo).2

def flowHash : ByteArray → UInt64 := fun _ => 0x514d3b198dde8e9a

def flowBody : Body :=
  .next fun n => .detach n "audit" (.ok .null) none none fun _ =>
    .next fun m => .start m (.rpc ⟨.ok, .ok⟩ "pay" (.ok .null) none none) fun _ => .ret (.ok .null)

def flowEntry : RegistryEntry := ⟨.workflow, fun _ => flowBody⟩

def flowCore : Core where
  sdk := ⟨fun _ => "poll://any@default", hashId flowHash, nullCodec⟩
  registry name := if name = "flow" then some flowEntry else none
  pid := "p"
  ttl := 60000

def flowPromise : PromiseRecord where
  id := "wf"
  state := .pending
  timeoutAt := 100
  param := { data := some (paramData "flow" .null) }
  value := {}
  tags := buildRootTags "wf" "poll://any@default" ∅
  createdAt := 0
  settledAt := none

def flowReq (id func parent : String) : PromiseCreateReq where
  id := id
  timeoutAt := 100
  param := Context.taskData func .null
  tags := ((Context.root "wf" "wf" "flow" 100).childTags "global" id parent).insert
    "resonate:target" "poll://any@default"

def flowLabels : List (Label Cmd Cmd.Answer) :=
  [.own ⟨.effects "wf" 1 [], ()⟩, .own ⟨.now, (5 : Int)⟩, .silent, .own ⟨.now, (6 : Int)⟩, .silent,
    .below ⟨.create .detached [⟨0, true⟩] ⟨[], 0⟩ (flowReq "wf:d514d3b198dde8e9a" "audit" "wf"),
      .ok flowPromise⟩,
    .below ⟨.create .remote [⟨1, true⟩] ⟨[], 1⟩ (flowReq "wf:1" "pay" "wf"), .ok flowPromise⟩]

theorem flow_executes : ∃ n, Steps (.mk (flowCore.execute "wf" 1 flowPromise flowEntry
    ⟨"flow", .null⟩ []
    fun _ => .ret .unfinished) []) flowLabels n := by
  have hrun : ∃ ls n, Steps (.mk (flowCore.execute "wf" 1 flowPromise flowEntry ⟨"flow", .null⟩ []
      fun _ => .ret .unfinished) []) ls n ∧ ls = flowLabels :=
    ⟨_, _, .cons (.call _ _ _ ()) (.cons (.call _ _ _ (5 : Int)) (.cons (.fork _ _ _)
      (.cons (.call _ _ _ (6 : Int)) (.cons (.fork _ _ _)
      (.cons (.kid _ _ 0 _ _ _ rfl (.call _ _ _ (.ok flowPromise)))
      (.cons (.kid _ _ 1 _ _ _ rfl (.call _ _ _ (.ok flowPromise))) (.nil _))))))), rfl⟩
  obtain ⟨_, n, hrun, rfl⟩ := hrun
  exact ⟨n, hrun⟩

theorem flow_asks {e : Event} (he : e ∈ flowLabels.flatMap Label.event) {kind : CallKind}
    {position : Position} {slot : Slot} {req : PromiseCreateReq} {a : Except Error PromiseRecord}
    (h : e = ⟨.create kind position slot req, a⟩) :
      Asks (hashId flowHash) flowPromise kind position req := by
  have hrun : ∃ ls n, Steps (.mk (flowCore.executeUntilBlocked "wf" 1 flowPromise 1 []) []) ls n ∧
      ls = .own ⟨.heartbeatStart "wf" 1, ()⟩ :: flowLabels :=
    ⟨_, _, .cons (.call _ _ _ ()) (.cons (.call _ _ _ ())
      (.cons (.call _ _ _ (5 : Int)) (.cons (.fork _ _ _)
      (.cons (.call _ _ _ (6 : Int)) (.cons (.fork _ _ _)
      (.cons (.kid _ _ 0 _ _ _ rfl (.call _ _ _ (.ok flowPromise)))
      (.cons (.kid _ _ 1 _ _ _ rfl (.call _ _ _ (.ok flowPromise))) (.nil _)))))))), rfl⟩
  obtain ⟨_, n, hrun, rfl⟩ := hrun
  refine ⟨flowCore, "wf", 1, 1, [], _, n, slot, a, rfl, hrun, ?_⟩
  rw [List.flatMap_cons, ← h]
  exact List.mem_append_right _ he

theorem flow_dispatched : Dispatched (hashId flowHash) "wf" [] flowPromise :=
  .root flowPromise rfl (Or.inr rfl)

theorem lineage_sound_flow : ∃ req req',
    Requested (hashId flowHash) "wf" [.detached 0] (some .detached) req ∧
    Requested (hashId flowHash) "wf" [.call 1] (some .remote) req' ∧ WellFormed "wf" req ∧
    OneSegment "wf" req.id ∧ WellFormed "wf" req' ∧ req.id ≠ req'.id ∧
    ∃ n, Steps (.mk (flowCore.execute "wf" 1 flowPromise flowEntry ⟨"flow", .null⟩ []
      fun _ => .ret .unfinished) []) flowLabels n ∧
      ((flowLabels.flatMap Label.event).filterMap fun e => e.1.lineage).Nodup := by
  have hroot : validateRootId "wf" = .ok () := rfl
  have hdetached : Requested (hashId flowHash) "wf" [.detached 0] (some .detached)
      (flowReq "wf:d514d3b198dde8e9a" "audit" "wf") :=
    .call [] flowPromise .detached [⟨0, true⟩] _ flow_dispatched
      (flow_asks (List.mem_of_getElem? (i := 3) rfl) rfl)
  have hremote : Requested (hashId flowHash) "wf" [.call 1] (some .remote)
    (flowReq "wf:1" "pay" "wf") :=
    .call [] flowPromise .remote [⟨1, true⟩] _ flow_dispatched
      (flow_asks (List.mem_of_getElem? (i := 4) rfl) rfl)
  have hraw : ∀ x, x ∈ rawIds (hashId flowHash) "wf" [.detached 0] ∪
      rawIds (hashId flowHash) "wf" [.call 1] → x = "wf:0" := by
    rintro x (⟨v, n, hv, rfl⟩ | ⟨v, n, hv, rfl⟩)
    · cases v with
      | nil =>
        obtain ⟨t, ht⟩ := hv
        obtain rfl := Hop.detached.inj (List.cons.inj ht).1
        rfl
      | cons hop v => simpa using hv.length_le
    · cases v with
      | nil =>
        obtain ⟨t, ht⟩ := hv
        cases (List.cons.inj ht).1
      | cons hop v => simpa using hv.length_le
  have hinj : Set.InjOn (hashId flowHash) (rawIds (hashId flowHash) "wf" [.detached 0] ∪
      rawIds (hashId flowHash) "wf" [.call 1]) := by
    intro x hx y hy _
    rw [hraw x hx, hraw y hy]
  have hkeeps : flowBody.Keeps ⟨fun _ _ => True, fun _ _ => True⟩ [] .start := by
    refine ⟨by decide, List.mem_cons_self, fun e => ?_, fun h => ?_⟩
    · exact ⟨(by decide : 1 + 1 < 2 ^ 32), List.mem_cons_self, fun _ => trivial, fun _ => trivial⟩
    · exact ⟨(by decide : 1 + 1 < 2 ^ 32), List.mem_cons_self, fun _ => trivial, fun _ => trivial⟩
  obtain ⟨hwell, hdistinct, honce⟩ := lineage_sound flowHash hroot
  obtain ⟨n, hrun⟩ := flow_executes
  exact ⟨_, _, hdetached, hremote, (hwell _ _ _ hdetached).1, (hwell _ _ _ hdetached).2 rfl,
    (hwell _ _ _ hremote).1, hdistinct _ _ _ _ _ _ _ hdetached hroot hremote hinj (by decide), n, hrun,
    honce [] flowPromise flowCore "wf" 1 flowEntry ⟨"flow", .null⟩ _ [] _ _ flow_dispatched rfl
      (fun _ => hkeeps) hrun⟩

end Trees

end Resonate
