import Resonate.Plain

/-!
# Replays of plain functions

An execution of a function that follows a plan, from any records that agree with the plan,
hands every call its planned value or the suspension marker, settles children with their
planned values only, and ends with the function's planned value or with something to wait for.
-/

namespace Resonate
open Lib Lib.ForkJoin

namespace Plan

variable {codec : Codec} (plan : Plan codec)

def Agrees (r : PromiseRecord) : Prop :=
  ∀ j, plan.value r.id = some j →
    r.state = .pending ∨ r.state = .resolved ∧ r.value.dataOrNull = j

/-- A record of a promise that is held, as the server shows it, decodes and agrees with the
plan. -/
def Reads (held : Set String) (r : PromiseRecord) : Prop :=
  r.id ∈ held ∧ ((plan.value r.id).isSome → ∃ q, codec.decodePromise r = .ok q ∧ plan.Agrees q)

structure Asks (req : PromiseCreateReq) : Prop where
  named : req.id ≠ ""
  planned : (plan.value req.id).isSome
  takes : plan.Takes req.id req.param.dataOrNull
  timer : req.tags.lookup "resonate:timer" = some "true" → plan.value req.id = some .null

/-- What the handling of a planned task asks for under its lease, and what it is answered by a
server that holds the promises of a set. -/
def terms (held : Set String) (taskId : String) (version : Int) : Terms Cmd Cmd.Answer where
  Pre
    | .create _ _ _ req => plan.Asks req
    | .settle _ id result => id ∈ held ∧ ∃ j, result = .ok (.ok j) ∧ plan.value id = some j
    | .effects id v preload => id = taskId ∧ v = version ∧ ∀ r ∈ preload, plan.Reads held r
    | .fulfill id v action => id = taskId ∧ v = version ∧ action.id = taskId ∧
      action.state = .resolved ∧ ∃ j, plan.value taskId = some j ∧ codec.encode j = .ok action.value
    | .suspend id v _ => id = taskId ∧ v = version
    | .acquire .. => False
    | _ => True
  Post
    | .create _ _ _ req, a => ∃ r, a = .ok r ∧ r.id = req.id ∧ req.id ∈ held ∧ plan.Agrees r
    | .settle .., a => ∃ r, a = .ok r
    | .suspend .., a => ∀ preload, a = .ok (.redirect preload) → ∀ r ∈ preload, plan.Reads held r
    | _, _ => True

end Plan

namespace End

def Gives (v : Json) (o : End) : Prop := o = .finished (some (.ok v)) (.done (.ok ()))

def Waits (o : End) : Prop :=
  ∃ todos, todos ≠ [] ∧ o = .finished (some (.error .suspended)) (.suspended todos)

end End

def Yields (v : Json) (result : Except Error Json) (todos : List String) : Prop :=
  result = .ok v ∨ result = .error .suspended ∧ todos ≠ []

namespace Context

def Tracked (known : ℕ → End → Prop) (c : Context) : Prop :=
  ∀ h ∈ c.spawnedHandles, ∀ o, known h.2 o → (∃ v, o.Gives v) ∨ o.Waits

def Waiting (known : ℕ → End → Prop) (c : Context) : Prop :=
  c.remoteTodos ≠ [] ∨ ∃ h ∈ c.spawnedHandles, ∀ o, known h.2 o → o.Waits

variable {known known' : ℕ → End → Prop} {c : Context}

theorem Tracked.mono (h : c.Tracked known) (hk : ∀ i o, known' i o → known i o) :
    c.Tracked known' := fun x hx o ho => h x hx o (hk _ _ ho)

theorem Waiting.mono (h : c.Waiting known) (hk : ∀ i o, known' i o → known i o) :
    c.Waiting known' :=
  h.imp_right fun ⟨x, hx, hw⟩ => ⟨x, hx, fun o ho => hw o (hk _ _ ho)⟩

end Context

structure Context.Redeems (known : ℕ → End → Prop) (c : Context) (hs : List (ℕ × Json)) : Prop where
  tracked : c.Tracked known
  spawned : ∀ h ∈ hs, ∃ x ∈ c.spawnedHandles, x.2 = h.1
  redeemed : ∀ h ∈ hs, ∀ o, known h.1 o → o.Gives h.2 ∨ o.Waits

namespace Context.Redeems

variable {known known' : ℕ → End → Prop} {c : Context} {hs : List (ℕ × Json)}

theorem mono (h : c.Redeems known hs) (hk : ∀ i o, known' i o → known i o) :
    c.Redeems known' hs where
  tracked := h.tracked.mono hk
  spawned := h.spawned
  redeemed x hx o ho := h.redeemed x hx o (hk _ _ ho)

theorem fresh (h : c.spawnedHandles = []) : c.Redeems known [] where
  tracked x hx := by
    rw [h] at hx
    cases hx
  spawned _ hx := by cases hx
  redeemed _ hx := by cases hx

theorem called (h : c.Redeems known hs) (todos : List String) :
    Context.Redeems known { c.claimSlot with remoteTodos := c.remoteTodos ++ todos } hs :=
  ⟨h.tracked, h.spawned, h.redeemed⟩

theorem forked (h : c.Redeems known hs) {id : String} {task : ℕ} {v : Json}
    (hfresh : ∀ o, known task o) : Context.Redeems
      (Function.update known task fun o => o.Gives v ∨ o.Waits)
      { c.claimSlot with spawnedHandles := c.spawnedHandles ++ [(id, task)] } ((task, v) :: hs) := by
  have hnew : ∀ o, Function.update known task (fun o => o.Gives v ∨ o.Waits) task o →
      o.Gives v ∨ o.Waits := fun o ho => by rwa [Function.update_self] at ho
  have hold := h.mono (update_refines fun o (_ : o.Gives v ∨ o.Waits) => hfresh o)
  refine ⟨fun x hx o ho => ?_, fun x hx => ?_, fun x hx o ho => ?_⟩
  · rcases List.mem_append.mp hx with hx | hx
    · exact hold.tracked x hx o ho
    · obtain rfl := List.mem_singleton.mp hx
      exact (hnew o ho).imp_left fun hg => ⟨v, hg⟩
  · rcases List.mem_cons.mp hx with rfl | hx
    · exact ⟨(id, task), by simp, rfl⟩
    · obtain ⟨y, hy, heq⟩ := hold.spawned x hx
      exact ⟨y, List.mem_append_left _ hy, heq⟩
  · rcases List.mem_cons.mp hx with rfl | hx
    · exact hnew o ho
    · exact hold.redeemed x hx o ho

end Context.Redeems

section Flush

variable {T : Terms Cmd Cmd.Answer} {known : ℕ → End → Prop} {contract : End → Prop}

theorem flushLocalWork_meets {k : Except Error (List String) → Prog} {hs : List (String × ℕ)}
    {todos : List String} (hh : ∀ h ∈ hs, ∀ o, known h.2 o → (∃ v, o.Gives v) ∨ o.Waits)
    (hk : ∀ known' todos', (∀ i o, known' i o → known i o) →
      ((todos ≠ [] ∨ ∃ h ∈ hs, ∀ o, known h.2 o → o.Waits) → todos' ≠ []) →
        (k (.ok todos')).Meets T known' contract) :
    (flushLocalWork hs todos none k).Meets T known contract := by
  induction hs generalizing known todos with
  | nil =>
    refine hk known todos (fun _ _ h => h) fun h => h.resolve_right ?_
    rintro ⟨h, hmem, -⟩
    cases hmem
  | cons h hs ih =>
    intro o ho
    have hle : ∀ i o', Function.update known h.2 (· = o) i o' → known i o' :=
      update_refines fun o' heq => heq ▸ ho
    have hrest : ∀ h' ∈ hs, ∀ o', Function.update known h.2 (· = o) h'.2 o' →
        (∃ v, o'.Gives v) ∨ o'.Waits := fun h' hmem o' ho' =>
      hh h' (List.mem_cons_of_mem _ hmem) o' (hle _ _ ho')
    rcases hh h List.mem_cons_self o ho with ⟨v, rfl⟩ | ⟨childTodos, hne, rfl⟩
    · refine ih hrest fun known' todos' hle' hwait => hk known' todos' (fun i o' ho' =>
        hle i o' (hle' i o' ho')) fun hw => hwait (hw.imp_right ?_)
      rintro ⟨h', hmem, hwaits⟩
      rcases List.mem_cons.mp hmem with rfl | hmem
      · obtain ⟨t, -, heq⟩ := hwaits _ ho
        cases heq
      · exact ⟨h', hmem, fun o' ho' => hwaits o' (hle _ _ ho')⟩
    · exact ih hrest fun known' todos' hle' hwait => hk known' todos' (fun i o' ho' =>
        hle i o' (hle' i o' ho')) fun _ => hwait (Or.inl (by simp [hne]))

theorem collectRemoteTodos_meets {c : Context} {k : Except Error (List String) → Prog}
    (hc : c.Tracked known) (hk : ∀ known' todos, (∀ i o, known' i o → known i o) →
      (c.Waiting known → todos ≠ []) → (k (.ok todos)).Meets T known' contract) :
    (c.collectRemoteTodos k).Meets T known contract := by
  refine flushLocalWork_meets hc fun known' todos hle hwait => hk known' _ hle fun hw => ?_
  rcases hw with hw | hw
  · simp [hw]
  · simp [hwait (Or.inr hw)]

end Flush

section Calls

variable {codec : Codec} {plan : Plan codec} {held : Set String} {taskId : String}
  {version : Int} {known : ℕ → End → Prop} {contract : End → Prop} {sdk : Sdk} {ty : Ty}
  {position : Position} {slot : Slot} {req : PromiseCreateReq} {v : Json} {id : String}

theorem serde_ok {α : Type} {x : Except String α} {a : α} (h : x = .ok a) : serde x = .ok a := by
  subst h
  rfl

theorem Plan.Agrees.asResult {r : PromiseRecord} (h : plan.Agrees r) (sdk : Sdk)
    (hv : plan.Gives r.id ty v) :
    r.state = .pending ∨ r.asResult sdk.codec ty = some (.ok v) := by
  obtain ⟨j, hj, hof⟩ := hv
  refine (h j hj).imp_right ?_
  rintro ⟨hst, hval⟩
  rw [PromiseRecord.asResult, hst, hval]
  exact congrArg some (serde_ok hof)

theorem Plan.Records.gives (h : plan.Records id ty v) : plan.Gives id ty v := by
  obtain ⟨j, hj, -, hof⟩ := h
  exact ⟨j, hj, hof⟩

theorem Plan.Gives.isSome (h : plan.Gives id ty v) : (plan.value id).isSome := by
  obtain ⟨j, hj, -⟩ := h
  exact Option.isSome_of_eq_some hj

theorem Plan.Records.settles (h : plan.Records id ty v) (hid : id ∈ held) :
    (plan.terms held taskId version).Pre
      (.settle position id ((.ok v : Except Error Json).map ty.toValue)) := by
  obtain ⟨j, hj, hto, -⟩ := h
  refine ⟨hid, j, ?_, hj⟩
  change Except.ok (ty.toValue v) = _
  rw [hto]

theorem Body.Returns.leaf {b : Body} (h : b.Returns v) {panicked : String → Prog}
    {k : Except Error Json → Prog}
    (hk : (k (.ok v)).Meets (plan.terms held taskId version) known contract) :
    (b.leaf panicked k).Meets (plan.terms held taskId version) known contract := by
  induction h with
  | ret v => exact hk
  | user f v h ih => exact ⟨trivial, fun a _ => ih a hk⟩

theorem executeChild_meets {kind : DurableKind} {leaf : (Except Error Json → Prog) → Prog}
    {workflow : (Context → Except Error Json → Prog) → Prog}
    {k : Except Error Json → Except Error (List String) → Prog}
    (hleaf : kind = .function → ∀ m,
      (m (.ok v)).Meets (plan.terms held taskId version) known contract →
      (leaf m).Meets (plan.terms held taskId version) known contract)
    (hflow : kind = .workflow → ∀ m, (∀ known' c r, (∀ i o, known' i o → known i o) →
      c.Tracked known' → (r = .ok v ∨ r = .error .suspended ∧ c.Waiting known') →
        (m c r).Meets (plan.terms held taskId version) known' contract) →
      (workflow m).Meets (plan.terms held taskId version) known contract)
    (hk : ∀ known' r todos, (∀ i o, known' i o → known i o) → Yields v r todos →
      (k r (.ok todos)).Meets (plan.terms held taskId version) known' contract) :
    (executeChild kind id leaf workflow k).Meets (plan.terms held taskId version) known contract := by
  refine ⟨trivial, fun _ _ => ?_⟩
  cases kind with
  | function => exact hleaf rfl _ (hk known _ _ (fun _ _ h => h) (Or.inl rfl))
  | workflow =>
    refine hflow rfl _ fun known' c r hle hc hr => ?_
    refine collectRemoteTodos_meets hc fun known'' todos hle' hwait => hk known'' r todos
      (fun i o h => hle i o (hle' i o h)) ?_
    exact hr.imp_right fun ⟨hs, hw⟩ => ⟨hs, hwait hw⟩

theorem runIntoFuture_meets
    {execute : PromiseRecord → (Except Error Json → Except Error (List String) → Prog) → Prog}
    {k : List String → Except Error Json → Prog} (hreq : plan.Asks req)
    (hrec : plan.Records req.id ty v)
    (hexec : ∀ record m, (∀ known' r todos, (∀ i o, known' i o → known i o) → Yields v r todos →
      (m r (.ok todos)).Meets (plan.terms held taskId version) known' contract) →
        (execute record m).Meets (plan.terms held taskId version) known contract)
    (hk : ∀ known' todos r, (∀ i o, known' i o → known i o) → Yields v r todos →
      (k todos r).Meets (plan.terms held taskId version) known' contract) :
    (runIntoFuture sdk ty position slot req execute k).Meets (plan.terms held taskId version) known
      contract := by
  refine ⟨hreq, fun a ha => ?_⟩
  obtain ⟨record, rfl, hid, hheld, hagree⟩ := ha
  have hgives : plan.Gives record.id ty v := hid ▸ hrec.gives
  dsimp only
  rcases hagree.asResult sdk hgives with hpend | hres
  · rw [PromiseRecord.asResult_eq_none.mpr hpend]
    refine hexec record _ fun known' r todos hle hy => ?_
    cases todos with
    | nil =>
      obtain rfl : r = .ok v := hy.resolve_right fun h => h.2 rfl
      refine ⟨hrec.settles hheld, fun a ha => ?_⟩
      obtain ⟨settled, rfl⟩ := ha
      exact hk known' _ _ hle hy
    | cons todo todos => exact hk known' _ _ hle hy
  · rw [hres]
    exact hk known _ _ (fun _ _ h => h) (Or.inl rfl)

theorem blockOnRemote_meets {k : List String → Except Error Json → Prog} (hreq : plan.Asks req)
    (hv : plan.Gives req.id ty v) (hk : ∀ todos r, Yields v r todos →
      (k todos r).Meets (plan.terms held taskId version) known contract) :
    (blockOnRemote sdk ty position slot req k).Meets (plan.terms held taskId version) known
      contract := by
  refine ⟨hreq, fun a ha => ?_⟩
  obtain ⟨record, rfl, hid, hheld, hagree⟩ := ha
  have hgives : plan.Gives record.id ty v := hid ▸ hv
  dsimp only
  rcases hagree.asResult sdk hgives with hpend | hres
  · rw [PromiseRecord.asResult_eq_none.mpr hpend]
    exact hk _ _ (Or.inr ⟨rfl, by simp⟩)
  · rw [hres]
    exact hk _ _ (Or.inl rfl)

theorem finishSpawned_meets {r : Except Error Json} {todos : List String} (hy : Yields v r todos)
    (hrec : plan.Records id ty v) (hid : id ∈ held) :
    (finishSpawned ty position id r (.ok todos)).Meets (plan.terms held taskId version) known
      fun o => o.Gives v ∨ o.Waits := by
  rcases hy with rfl | ⟨rfl, hne⟩
  · cases todos with
    | nil => exact ⟨hrec.settles hid, fun _ _ => Or.inl rfl⟩
    | cons todo todos => exact Or.inr ⟨_, List.cons_ne_nil _ _, rfl⟩
  · exact Or.inr ⟨todos, hne, rfl⟩

theorem spawnedRun_meets
    {execute : PromiseRecord → (Except Error Json → Except Error (List String) → Prog) → Prog}
    (hreq : plan.Asks req) (hrec : plan.Records req.id ty v)
    (hexec : ∀ record m, (∀ known' r todos, Yields v r todos →
      (m r (.ok todos)).Meets (plan.terms held taskId version) known' fun o => o.Gives v ∨ o.Waits) →
        (execute record m).Meets (plan.terms held taskId version) known fun o => o.Gives v ∨ o.Waits) :
    (spawnSequenced .run position slot req
      (spawnedRun sdk ty position req.id execute)).Meets (plan.terms held taskId version) known
        fun o => o.Gives v ∨ o.Waits := by
  refine ⟨hreq, fun a ha => ?_⟩
  obtain ⟨record, rfl, hid, hheld, hagree⟩ := ha
  obtain ⟨j, hj, -, hof⟩ := id hrec
  dsimp only [spawnedRun]
  rcases hagree j (hid ▸ hj) with hst | ⟨hst, hval⟩
  · rw [hst]
    exact hexec record _ fun known' r todos hy => finishSpawned_meets hy hrec hheld
  · rw [hst, hval, serde_ok hof]
    exact Or.inl rfl

theorem spawnedRemote_meets (hreq : plan.Asks req) (hv : plan.Gives req.id ty v) :
    (spawnSequenced .remote position slot req
      (spawnedRemote sdk ty req.id)).Meets (plan.terms held taskId version) known
        fun o => o.Gives v ∨ o.Waits := by
  refine ⟨hreq, fun a ha => ?_⟩
  obtain ⟨record, rfl, hid, hheld, hagree⟩ := ha
  have hgives : plan.Gives record.id ty v := hid ▸ hv
  dsimp only [spawnedRemote]
  rcases hagree.asResult sdk hgives with hpend | hres
  · rw [PromiseRecord.asResult_eq_none.mpr hpend]
    exact Or.inr ⟨[req.id], by simp, rfl⟩
  · rw [hres]
    exact Or.inl rfl

theorem childTags_timer (c : Context) (scope branch parent : String) :
    (c.childTags scope branch parent).lookup "resonate:timer" = none := by
  simp [Context.childTags]

theorem joinId_ne (a : String) (n : ℕ) : joinId a (toString n) ≠ "" := by
  intro h
  obtain ⟨sep, -, hlist⟩ := joinId_toList a n
  rw [h] at hlist
  simp at hlist

theorem localCreateReq_asks (c : Context) (timeout : Option ℕ) (now : Int) {param : Json}
    (htakes : plan.Takes id param) (hrec : plan.Records id ty v) (hid : id ≠ "") :
    ∃ req, c.localCreateReq id (.ok param) timeout now = .ok req ∧ req.id = id ∧ plan.Asks req := by
  refine ⟨_, rfl, rfl, hid, hrec.gives.isSome, htakes, fun h => ?_⟩
  rw [childTags_timer] at h
  cases h

theorem remoteReq_asks (c : Context) (sdk : Sdk) (now : Int) {call : Remote} (h : plan.Calls id v call)
    (hid : id ≠ "") : ∃ req, c.remoteReq sdk id now call = .ok req ∧ req.id = id ∧ plan.Asks req ∧
      plan.Gives id call.ty v := by
  cases call with
  | rpc ty func args timeout target =>
    obtain ⟨a, rfl, htakes, hgives⟩ := h
    refine ⟨_, rfl, rfl, ⟨hid, hgives.isSome, htakes, fun h => ?_⟩, hgives⟩
    simp [childTags_timer] at h
  | sleep ty duration =>
    obtain ⟨htakes, hj, hof⟩ := h
    exact ⟨_, rfl, rfl, ⟨hid, Option.isSome_of_eq_some hj, htakes, fun _ => hj⟩, _, hj, hof⟩
  | promise ty timeout param =>
    obtain ⟨htakes, hgives⟩ := h
    refine ⟨_, rfl, rfl, ⟨hid, hgives.isSome, htakes, fun h => ?_⟩, hgives⟩
    rw [Context.promiseCreateReq, childTags_timer] at h
    cases h

end Calls

def Context.Ended (known : ℕ → End → Prop) (c : Context) (m : Option Json)
    (r : Except Error Json) : Prop :=
  c.Tracked known ∧ ((∃ v, m = some v ∧ r = .ok v) ∨ r = .error .suspended ∧ c.Waiting known)

def Accepts (T : Terms Cmd Cmd.Answer) (contract : End → Prop) (known : ℕ → End → Prop)
    (m : Option Json) (k : Context → Except Error Json → Prog) : Prop :=
  ∀ known' c r, (∀ i o, known' i o → known i o) → c.Ended known' m r →
    (k c r).Meets T known' contract

/-- Every execution of the function ends as its mode says. -/
def Body.Replays {codec : Codec} (plan : Plan codec) (held : Set String) (sdk : Sdk)
    (taskId : String) (version : Int) (b : Body) (id : String) (seq : ℕ) (hs : List (ℕ × Json))
    (m : Option Json) : Prop :=
  ∀ panicked (c : Context) k known contract, c.id = id → c.seq = seq → c.Redeems known hs →
    (m = none → c.Waiting known) → Accepts (plan.terms held taskId version) contract known m k →
      (b.exec sdk panicked c k).Meets (plan.terms held taskId version) known contract

namespace Accepts

variable {T : Terms Cmd Cmd.Answer} {contract : End → Prop} {known known' : ℕ → End → Prop}
  {m : Option Json} {k : Context → Except Error Json → Prog}

theorem mono (h : Accepts T contract known m k) (hk : ∀ i o, known' i o → known i o) :
    Accepts T contract known' m k :=
  fun known'' c r hle hr => h known'' c r (fun i o ho => hk i o (hle i o ho)) hr

theorem suspended (h : Accepts T contract known m k) : Accepts T contract known none k := by
  intro known' c r hle hr
  refine h known' c r hle ⟨hr.1, Or.inr (hr.2.resolve_left ?_)⟩
  rintro ⟨v, hv, -⟩
  cases hv

end Accepts

namespace Body.Replays

variable {codec : Codec} {plan : Plan codec} {held : Set String} {sdk : Sdk} {taskId : String}
  {version : Int} {id : String} {seq n : ℕ} {hs : List (ℕ × Json)} {m : Option Json} {v : Json}

theorem inline {f : Except Error Json → Body} {panicked : String → Prog} {c : Context}
    {k : Context → Except Error Json → Prog} {known : ℕ → End → Prop} {contract : End → Prop}
    {todos : List String} {r : Except Error Json}
    (hok : (f (.ok v)).Replays plan held sdk taskId version id seq hs m)
    (hsus : (f (.error .suspended)).Replays plan held sdk taskId version id seq hs none)
    (hid : c.id = id) (hseq : c.seq = seq) (hc : c.Redeems known hs) (hm : m = none → c.Waiting known)
    (hk : Accepts (plan.terms held taskId version) contract known m k) (hy : Yields v r todos) :
    ((f r).exec sdk panicked { c.claimSlot with remoteTodos := c.remoteTodos ++ todos } k).Meets
      (plan.terms held taskId version) known contract := by
  rcases hy with rfl | ⟨rfl, hne⟩
  · refine hok panicked _ k known contract hid hseq (hc.called todos) (fun h => ?_) hk
    exact (hm h).imp_left fun h => by simp [h]
  · exact hsus panicked _ k known contract hid hseq (hc.called todos)
      (fun _ => Or.inl (by simp [hne])) hk.suspended

theorem outline {f : Except Error Handle → Body} {panicked : String → Prog} {c : Context}
    {k : Context → Except Error Json → Prog} {known : ℕ → End → Prop} {contract : End → Prop}
    {kid : String} {task : ℕ}
    (h : ∀ slot task, (f (.ok ⟨kid, slot, task⟩)).Replays plan held sdk taskId version id seq
      ((task, v) :: hs) m)
    (hid : c.id = id) (hseq : c.seq = seq) (hc : c.Redeems known hs) (hm : m = none → c.Waiting known)
    (hk : Accepts (plan.terms held taskId version) contract known m k) (hfresh : ∀ o, known task o) :
    ((f (.ok ⟨kid, c.slot, task⟩)).exec sdk panicked
      { c.claimSlot with spawnedHandles := c.spawnedHandles ++ [(kid, task)] } k).Meets
        (plan.terms held taskId version) (Function.update known task fun o => o.Gives v ∨ o.Waits)
          contract := by
  have hle : ∀ i o, Function.update known task (fun o => o.Gives v ∨ o.Waits) i o → known i o :=
    update_refines fun o _ => hfresh o
  refine h c.slot task panicked _ k _ contract hid hseq (hc.forked hfresh) (fun h => ?_) (hk.mono hle)
  refine ((hm h).mono hle).imp_right ?_
  rintro ⟨x, hx, hw⟩
  exact ⟨x, List.mem_append_left _ hx, hw⟩

theorem child {b : Body} (h : b.Replays plan held sdk taskId version id 0 [] (some v))
    {panicked : String → Prog} {c : Context} {k : Context → Except Error Json → Prog}
    {known : ℕ → End → Prop} {contract : End → Prop} (hid : c.id = id) (hseq : c.seq = 0)
    (hnew : c.spawnedHandles = [])
    (hk : ∀ known' c r, (∀ i o, known' i o → known i o) → c.Tracked known' →
      (r = .ok v ∨ r = .error .suspended ∧ c.Waiting known') →
        (k c r).Meets (plan.terms held taskId version) known' contract) :
    (b.exec sdk panicked c k).Meets (plan.terms held taskId version) known contract := by
  refine h panicked c k known contract hid hseq (.fresh hnew) (fun h => by cases h) ?_
  intro known' c' r hle hr
  refine hk known' c' r hle hr.1 (hr.2.imp_left ?_)
  rintro ⟨w, hw, rfl⟩
  rw [Option.some.inj hw]

section Local

variable {fn : Fn} {param : Json} {timeout : Option ℕ} {b : Body}

theorem run {f : Except Error Json → Body} (htakes : plan.Takes (joinId id (toString n)) param)
    (hrec : plan.Records (joinId id (toString n)) fn.ty v)
    (hfunction : fn.kind = .function → b.Returns v)
    (hworkflow : fn.kind = .workflow →
      b.Replays plan held sdk taskId version (joinId id (toString n)) 0 [] (some v))
    (hok : (f (.ok v)).Replays plan held sdk taskId version id seq hs m)
    (hsus : (f (.error .suspended)).Replays plan held sdk taskId version id seq hs none) :
    (Body.run n fn (.ok param) timeout b f).Replays plan held sdk taskId version id seq hs m := by
  intro panicked c k known contract hid hseq hc hm hk
  subst hid
  rw [Body.exec]
  refine ⟨trivial, fun now _ => ?_⟩
  obtain ⟨req, hreq, hrid, hasks⟩ := localCreateReq_asks c timeout now htakes hrec
    (joinId_ne c.id n)
  dsimp only
  rw [Context.callId, hreq]
  refine runIntoFuture_meets hasks (hrid ▸ hrec) (fun record m' hm' => ?_)
    fun known' todos r hle hy => hok.inline hsus rfl hseq (hc.mono hle) (fun h => (hm h).mono hle)
      (hk.mono hle) hy
  refine executeChild_meets (fun hkind k' hk' => (hfunction hkind).leaf hk')
    (fun hkind k' hk' => ?_) hm'
  exact (hworkflow hkind).child (by rw [Context.child, hrid]) rfl rfl hk'

theorem spawn {f : Except Error Handle → Body} (htakes : plan.Takes (joinId id (toString n)) param)
    (hrec : plan.Records (joinId id (toString n)) fn.ty v)
    (hfunction : fn.kind = .function → b.Returns v)
    (hworkflow : fn.kind = .workflow →
      b.Replays plan held sdk taskId version (joinId id (toString n)) 0 [] (some v))
    (h : ∀ slot task, (f (.ok ⟨joinId id (toString n), slot, task⟩)).Replays plan held sdk taskId
      version id seq ((task, v) :: hs) m) :
    (Body.spawn n fn (.ok param) timeout b f).Replays plan held sdk taskId version id seq hs m := by
  intro panicked c k known contract hid hseq hc hm hk
  subst hid
  rw [Body.exec]
  refine ⟨trivial, fun now _ => ?_⟩
  obtain ⟨req, hreq, hrid, hasks⟩ := localCreateReq_asks c timeout now htakes hrec
    (joinId_ne c.id n)
  dsimp only
  rw [Context.callId, hreq]
  refine ⟨fun o => o.Gives v ∨ o.Waits, ?_, fun task hfresh => ?_⟩
  · refine spawnedRun_meets hasks (hrid ▸ hrec) fun record m' hm' => ?_
    refine executeChild_meets (fun hkind k' hk' => (hfunction hkind).leaf hk')
      (fun hkind k' hk' => ?_) fun known' r todos _ hy => hm' known' r todos hy
    exact (hworkflow hkind).child (by rw [Context.child, hrid]) rfl rfl hk'
  · rw [hrid]
    exact outline h rfl hseq hc hm hk hfresh

end Local

section Remote

variable {call : Remote}

theorem await {f : Except Error Json → Body} (hcall : plan.Calls (joinId id (toString n)) v call)
    (hok : (f (.ok v)).Replays plan held sdk taskId version id seq hs m)
    (hsus : (f (.error .suspended)).Replays plan held sdk taskId version id seq hs none) :
    (Body.await n call f).Replays plan held sdk taskId version id seq hs m := by
  intro panicked c k known contract hid hseq hc hm hk
  subst hid
  rw [Body.exec]
  refine ⟨trivial, fun now _ => ?_⟩
  obtain ⟨req, hreq, hrid, hasks, hgives⟩ := remoteReq_asks c sdk now hcall
    (joinId_ne c.id n)
  dsimp only
  rw [Context.callId, hreq]
  exact blockOnRemote_meets hasks (hrid ▸ hgives) fun todos r hy =>
    hok.inline hsus rfl hseq hc hm hk hy

theorem start {f : Except Error Handle → Body} (hcall : plan.Calls (joinId id (toString n)) v call)
    (h : ∀ slot task, (f (.ok ⟨joinId id (toString n), slot, task⟩)).Replays plan held sdk taskId
      version id seq ((task, v) :: hs) m) :
    (Body.start n call f).Replays plan held sdk taskId version id seq hs m := by
  intro panicked c k known contract hid hseq hc hm hk
  subst hid
  rw [Body.exec]
  refine ⟨trivial, fun now _ => ?_⟩
  obtain ⟨req, hreq, hrid, hasks, hgives⟩ := remoteReq_asks c sdk now hcall
    (joinId_ne c.id n)
  dsimp only
  rw [Context.callId, hreq]
  refine ⟨fun o => o.Gives v ∨ o.Waits, spawnedRemote_meets hasks (hrid ▸ hgives),
    fun task hfresh => ?_⟩
  rw [hrid]
  exact outline h rfl hseq hc hm hk hfresh

end Remote

theorem join {h : Handle} {f : Except Error Json → Body} (hmem : (h.task, v) ∈ hs)
    (hok : (f (.ok v)).Replays plan held sdk taskId version id seq hs m)
    (hsus : (f (.error .suspended)).Replays plan held sdk taskId version id seq hs none) :
    (Body.join h f).Replays plan held sdk taskId version id seq hs m := by
  intro panicked c k known contract hid hseq hc hm hk o ho
  have hle : ∀ i o', Function.update known h.task (· = o) i o' → known i o' :=
    update_refines fun o' heq => heq ▸ ho
  rcases hc.redeemed _ hmem o ho with rfl | ⟨todos, hne, rfl⟩
  · exact hok panicked c k _ contract hid hseq (hc.mono hle) (fun h => (hm h).mono hle) (hk.mono hle)
  · refine hsus panicked c k _ contract hid hseq (hc.mono hle) (fun _ => Or.inr ?_)
      (hk.mono hle).suspended
    obtain ⟨x, hx, heq⟩ := hc.spawned _ hmem
    refine ⟨x, hx, fun o' ho' => ⟨todos, hne, ?_⟩⟩
    rwa [heq, Function.update_self] at ho'

end Body.Replays

/-- An execution of a function that follows the plan ends with its planned value, or with the
suspension marker and something to wait for. -/
theorem Body.Plain.replays {codec : Codec} {plan : Plan codec} {held : Set String} {sdk : Sdk}
    {taskId : String} {version : Int} {id : String} {seq : ℕ} {hs : List (ℕ × Json)} {b : Body}
    {m : Option Json}
    (h : b.Plain plan id seq hs m) : b.Replays plan held sdk taskId version id seq hs m := by
  induction h with
  | ret id seq hs v =>
    exact fun _ c k known _ _ _ hc _ hk => hk known c _ (fun _ _ h => h)
      ⟨hc.tracked, Or.inl ⟨v, rfl, rfl⟩⟩
  | suspended id seq hs =>
    exact fun _ c k known _ _ _ hc hm hk => hk known c _ (fun _ _ h => h)
      ⟨hc.tracked, Or.inr ⟨rfl, hm rfl⟩⟩
  | user id seq hs f m h ih =>
    exact fun panicked c k known contract hid hseq hc hm hk =>
      ⟨trivial, fun a _ => ih a panicked c k known contract hid hseq hc hm hk⟩
  | next id seq hs f m h ih =>
    intro panicked c k known contract hid hseq hc hm hk
    rw [Body.exec, hseq]
    refine ih panicked _ k known contract hid ?_ ⟨hc.tracked, hc.spawned, hc.redeemed⟩ hm hk
    rw [Context.advance, hseq]
  | run id seq hs n fn param timeout child f m v htakes hrec hfunction _ _ _ ihc ihok ihsus =>
    exact .run htakes hrec hfunction ihc ihok ihsus
  | spawn id seq hs n fn param timeout child f m v htakes hrec hfunction _ _ ihc ih =>
    exact .spawn htakes hrec hfunction ihc ih
  | await id seq hs n call f m v hcall _ _ ihok ihsus => exact .await hcall ihok ihsus
  | start id seq hs n call f m v hcall _ ih => exact .start hcall ih
  | join id seq hs h f m v hmem _ _ ihok ihsus => exact .join hmem ihok ihsus
  | handleId id seq hs h f m _ ih =>
    exact fun panicked c k known contract hid hseq hc hm hk =>
      ⟨trivial, fun a _ => ih a panicked c k known contract hid hseq hc hm hk⟩

structure Plan.Fits {codec : Codec} (plan : Plan codec) (core : Core) : Prop where
  codec : core.sdk.codec = codec
  computes : ∀ id v data entry, plan.value id = some v → plan.task id = some data →
    core.registry data.func = some entry →
      (entry.kind = .function → (entry.func data.args).Returns v) ∧
      (entry.kind = .workflow → (entry.func data.args).Plain plan id 0 [] (some v))

namespace Core

variable {codec : Codec} {plan : Plan codec} {held : Set String} {core : Core} {taskId : String}
  {version : Int}
  {promise : PromiseRecord} {entry : RegistryEntry} {data : TaskData} {preload : List PromiseRecord}
  {v : Json} {known : ℕ → End → Prop} {fuel : ℕ}

theorem execute_meets (hfit : plan.Fits core) (hid : promise.id = taskId)
    (hv : plan.value taskId = some v) (hdata : plan.task taskId = some data)
    (hentry : core.registry data.func = some entry) (hpre : ∀ r ∈ preload, plan.Reads held r)
    {contract : End → Prop} {k : Except Error (Except Error Json × List String) → Prog}
    (hk : ∀ known' r todos, Yields v r todos →
      (k (.ok (r, todos))).Meets (plan.terms held taskId version) known' contract) :
    (core.execute taskId version promise entry data preload k).Meets (plan.terms held taskId version)
      known contract := by
  obtain ⟨hfunction, hworkflow⟩ := hfit.computes taskId v data entry hv hdata hentry
  unfold execute
  dsimp only
  cases hkind : entry.kind with
  | function => exact (hfunction hkind).leaf (hk known _ _ (Or.inl rfl))
  | workflow =>
    refine ⟨⟨rfl, rfl, hpre⟩, fun _ _ => ?_⟩
    have hreplay : (entry.func data.args).Replays plan held core.sdk taskId version taskId 0 []
        (some v) :=
      (hworkflow hkind).replays
    refine hreplay.child hid rfl rfl fun known' c r hle hc hr => ?_
    exact collectRemoteTodos_meets hc fun known'' todos hle' hwait => hk known'' r todos
      (hr.imp_right fun ⟨hs, hw⟩ => ⟨hs, hwait hw⟩)

theorem fulfillTask_meets (hfit : plan.Fits core) (hid : promise.id = taskId)
    (hv : plan.value taskId = some v) {contract : End → Prop} {k : Except Error Status → Prog}
    (hk : ∀ known' res, (k res).Meets (plan.terms held taskId version) known' contract) :
    (core.fulfillTask taskId version promise .resolved v (done k)).Meets
      (plan.terms held taskId version) known contract := by
  unfold fulfillTask
  obtain ⟨w, hw⟩ := (plan.writes taskId v hv).encodes
  rw [hfit.codec, hw]
  refine ⟨⟨rfl, rfl, hid, rfl, v, hv, hw⟩, fun a _ => ?_⟩
  cases a <;> exact hk known _

theorem loop_meets (hfit : plan.Fits core) (hid : promise.id = taskId)
    (hv : plan.value taskId = some v) (hdata : plan.task taskId = some data)
    (hentry : core.registry data.func = some entry) (hpre : ∀ r ∈ preload, plan.Reads held r)
    {k : Except Error Status → Prog}
    (hk : ∀ known' res, (k res).Meets (plan.terms held taskId version) known' fun _ => True) :
    (core.loop taskId version promise entry data k fuel preload).Meets
      (plan.terms held taskId version) known fun _ => True := by
  induction fuel generalizing preload known with
  | zero => exact trivial
  | succ fuel ih =>
    rw [loop]
    refine execute_meets hfit hid hv hdata hentry hpre fun known' r todos hy => ?_
    cases todos with
    | nil =>
      obtain rfl : r = .ok v := hy.resolve_right fun h => h.2 rfl
      exact fulfillTask_meets hfit hid hv hk
    | cons todo todos =>
      refine ⟨⟨rfl, rfl⟩, fun a ha => ?_⟩
      cases a with
      | error e => exact hk known' _
      | ok r =>
        cases r with
        | suspended => exact hk known' _
        | redirect preload => exact ih (ha preload rfl)

theorem executeUntilBlockedInner_meets (hfit : plan.Fits core) (hid : promise.id = taskId)
    (hst : promise.state = .pending) (hv : plan.value taskId = some v)
    (hdata : plan.task taskId = TaskData.ofJson promise.param.dataOrNull)
    (hpre : ∀ r ∈ preload, plan.Reads held r) {k : Except Error Status → Prog}
    (hk : ∀ known' res, (k res).Meets (plan.terms held taskId version) known' fun _ => True) :
    (core.executeUntilBlockedInner taskId version promise fuel preload k).Meets
      (plan.terms held taskId version) known fun _ => True := by
  unfold executeUntilBlockedInner
  rw [if_neg (by simp [hst])]
  cases hparse : TaskData.ofJson promise.param.dataOrNull with
  | none => exact hk known _
  | some data =>
    dsimp only
    cases hentry : core.registry data.func with
    | none => exact hk known _
    | some entry =>
      dsimp only
      rw [if_neg (by simp [hst])]
      exact loop_meets hfit hid hv (hdata.trans hparse) hentry hpre hk

theorem executeUntilBlocked_meets (hfit : plan.Fits core) (hid : promise.id = taskId)
    (hst : promise.state = .pending) (hv : plan.value taskId = some v)
    (hdata : plan.task taskId = TaskData.ofJson promise.param.dataOrNull)
    (hpre : ∀ r ∈ preload, plan.Reads held r) :
    (core.executeUntilBlocked taskId version promise fuel preload).Meets
      (plan.terms held taskId version) known fun _ => True := by
  unfold executeUntilBlocked
  split_ifs
  · exact trivial
  · refine ⟨trivial, fun _ _ => ?_⟩
    refine executeUntilBlockedInner_meets hfit hid hst hv hdata hpre fun known' res => ?_
    refine ⟨trivial, fun _ _ => ?_⟩
    cases res with
    | ok status => exact trivial
    | error e => exact ⟨trivial, fun _ _ => trivial⟩

end Core

end Resonate
