import Resonate.Positions

/-!
# Failed requests

A creation that fails on a spawned task is an error that task reports, and every
collection on the way up reports it again. A function that awaits what failed hides the
failure, unless a task it spawned reports one too, as when the sequencer aborts the creation
of an awaited call behind a failed one. An execution in which every failure is reported so is
an error, and the task is released. No child above a failure is settled.
-/

namespace Resonate
open Lib Lib.ForkJoin

def affine : Discipline := ⟨fun _ _ => True, fun _ _ => True⟩

/-- A request that failed, or a creation that was aborted. -/
def Failed : Event → Prop
  | ⟨.create .., .error _⟩ | ⟨.settle .., .error _⟩ => True
  | _ => False

def FailedCreation (p : Position) : Event → Prop
  | ⟨.create _ q _ _, .error _⟩ => q = p
  | _ => False

/-- A failed settle, which no task reports, or a panic. -/
def Unreported : Event → Prop
  | ⟨.settle .., .error _⟩ | ⟨.panic _, _⟩ => True
  | _ => False

/-- Below the context at `q` a creation failed on a path of spawned calls. -/
def Reports (E : List Event) (q : Position) : Prop :=
  ∃ rest, rest ≠ [] ∧ (∀ call ∈ rest, call.spawned = true) ∧ ∃ e ∈ E, FailedCreation (q ++ rest) e

/-- What failed is a creation, and each context on its way that awaits the next call there
reports a failure besides. -/
def FailsVisibly (E : List Event) (e : Event) : Prop :=
  ¬ Unreported e ∧ ∀ q n rest, FailedCreation (q ++ ⟨n, false⟩ :: rest) e → Reports E q

def AncestorsUnsettled (E : List Event) : Prop :=
  ∀ e ∈ E, Failed e → ∀ p, e.1.place = some p → ∀ q, q <+: p →
    ∀ id result answer, (⟨.settle q id result, answer⟩ : Event) ∉ E

section Events

variable {E E' : List Event}

theorem FailedCreation.place {p : Position} {e : Event} (h : FailedCreation p e) :
    e.1.place = some p := by
  obtain ⟨cmd, a⟩ := e
  cases cmd with
  | create kind q slot req =>
    cases a with
    | ok record => exact h.elim
    | error err => exact congrArg some h
  | _ => exact h.elim

theorem FailedCreation.failed {p : Position} {e : Event} (h : FailedCreation p e) : Failed e := by
  obtain ⟨cmd, a⟩ := e
  cases cmd with
  | create kind q slot req =>
    cases a with
    | ok record => exact h.elim
    | error err => trivial
  | _ => exact h.elim

theorem failedCreation_of_failed {e : Event} (h : Failed e) (hu : ¬ Unreported e) :
    ∃ p, FailedCreation p e := by
  obtain ⟨cmd, a⟩ := e
  cases cmd with
  | create kind q slot req =>
    cases a with
    | ok record => exact h.elim
    | error err => exact ⟨q, rfl⟩
  | settle p id result =>
    cases a with
    | ok record => exact h.elim
    | error err => exact absurd trivial hu
  | _ => exact h.elim

theorem of_unfailed (h : ∀ e ∈ E, ¬ Failed e) {P : Prop} : (∃ e ∈ E, Failed e) → P := by
  rintro ⟨e, he, hf⟩
  exact absurd hf (h e he)

namespace AncestorsUnsettled

theorem of_none (h : ∀ e ∈ E, ¬ Failed e) : AncestorsUnsettled E :=
  fun e he hf => absurd hf (h e he)

theorem perm (h : AncestorsUnsettled E) (hp : E.Perm E') : AncestorsUnsettled E' :=
  fun e he hf p hpl q hq id result answer hm =>
    h e (hp.mem_iff.mpr he) hf p hpl q hq id result answer (hp.mem_iff.mpr hm)

theorem failed {kind : CallKind} {p : Position} {slot : Slot} {req : PromiseCreateReq} {e : Error} :
    AncestorsUnsettled [⟨.create kind p slot req, .error e⟩] := by
  intro e he _ p _ q _ id result answer hm
  cases List.mem_singleton.mp hm

theorem cons {e : Event} (h : AncestorsUnsettled E) (hf : ¬ Failed e)
    (hs : ∀ q id result, e.1 ≠ .settle q id result) : AncestorsUnsettled (e :: E) := by
  intro e' he' hf' p hp q hq id result answer hm
  rcases List.mem_cons.mp he' with rfl | he'
  · exact hf hf'
  · rcases List.mem_cons.mp hm with rfl | hm
    · exact hs q id result rfl
    · exact h e' he' hf' p hp q hq id result answer hm

variable {root : String} {p : Position} {L L' : Call → Prop}

theorem append (h : AncestorsUnsettled E) (h' : AncestorsUnsettled E') (hp : Placed root p L E)
    (hp' : Placed root p L' E') (hd : ∀ call call', L call → L' call' → call.number ≠ call'.number) :
    AncestorsUnsettled (E ++ E') := by
  have hcross : ∀ {F F' : List Event} {M M' : Call → Prop}, Placed root p M F → Placed root p M' F' →
      (∀ call call', M call → M' call' → call.number ≠ call'.number) →
      ∀ e ∈ F, ∀ w, e.1.place = some w → ∀ q, q <+: w →
        ∀ id result answer, (⟨.settle q id result, answer⟩ : Event) ∉ F' := by
    intro F F' M M' hF hF' hd e he w hw q hq id result answer hm
    obtain ⟨call, rest, rfl, hM⟩ := hF.below e he w hw
    obtain ⟨call', rest', rfl, hM'⟩ := hF'.below _ hm q rfl
    rw [List.prefix_append_right_inj, List.cons_prefix_cons] at hq
    exact hd call call' hM hM' (by rw [hq.1])
  intro e he hf w hw q hq id result answer hm
  rcases List.mem_append.mp he with he | he <;> rcases List.mem_append.mp hm with hm | hm
  · exact h e he hf w hw q hq id result answer hm
  · exact hcross hp hp' hd e he w hw q hq id result answer hm
  · exact hcross hp' hp (fun c c' hc hc' heq => hd c' c hc' hc heq.symm) e he w hw q hq id result
      answer hm
  · exact h' e he hf w hw q hq id result answer hm

end AncestorsUnsettled

end Events

def VisibleFrom (p : Position) (E : List Event) : Prop :=
  ∀ e ∈ E, ¬ Unreported e ∧
    ∀ q n rest, FailedCreation (p ++ q ++ ⟨n, false⟩ :: rest) e → Reports E (p ++ q)

namespace VisibleFrom

variable {E E' : List Event} {p : Position} {root : String} {L L' : Call → Prop}

theorem below (h : VisibleFrom p E) (call : Call) : VisibleFrom (p ++ [call]) E := by
  refine fun e he => ⟨(h e he).1, fun q n rest hf => ?_⟩
  rw [List.append_assoc p] at hf ⊢
  exact (h e he).2 ([call] ++ q) n rest hf

theorem noPanic (h : VisibleFrom p E) : NoPanic E := by
  rintro ⟨c, a⟩ he
  have hu := (h _ he).1
  cases c <;> first | rfl | exact absurd trivial hu

theorem of_subset (h : VisibleFrom p E) (hsub : ∀ e ∈ E', e ∈ E)
    (hback : ∀ e ∈ E, (∃ w, FailedCreation w e) → e ∈ E') : VisibleFrom p E' := by
  refine fun e he => ⟨(h e (hsub e he)).1, fun q n rest hf => ?_⟩
  obtain ⟨rest', hne, hspawned, e', he', hf'⟩ := (h e (hsub e he)).2 q n rest hf
  exact ⟨rest', hne, hspawned, e', hback e' he' ⟨_, hf'⟩, hf'⟩

theorem perm (h : VisibleFrom p E) (hp : E.Perm E') : VisibleFrom p E' :=
  h.of_subset (fun _ he => hp.mem_iff.mpr he) fun _ he _ => hp.mem_iff.mp he

theorem tail {e : Event} (h : VisibleFrom p (e :: E)) (hf : ∀ w, ¬ FailedCreation w e) :
    VisibleFrom p E := by
  refine h.of_subset (fun _ => List.mem_cons_of_mem _) fun e' he' hw => ?_
  rcases List.mem_cons.mp he' with rfl | he'
  · obtain ⟨w, hw⟩ := hw
    exact absurd hw (hf w)
  · exact he'

theorem left (h : ∀ call, VisibleFrom (p ++ [call]) (E ++ E')) (hE : Placed root p L E)
    (hE' : Placed root p L' E') (hd : ∀ call call', L call → L' call' → call.number ≠ call'.number)
    (call : Call) : VisibleFrom (p ++ [call]) E := by
  intro e he
  obtain ⟨hu, hv⟩ := h call e (List.mem_append_left _ he)
  refine ⟨hu, fun q n rest hf => ?_⟩
  obtain ⟨rest', hne, hspawned, e', he', hf'⟩ := hv q n rest hf
  rcases List.mem_append.mp he' with he' | he'
  · exact ⟨rest', hne, hspawned, e', he', hf'⟩
  · obtain ⟨call₁, rest₁, heq, hL⟩ := hE.below e he _ hf.place
    obtain ⟨call₂, rest₂, heq', hL'⟩ := hE'.below e' he' _ hf'.place
    simp only [List.append_assoc, List.append_cancel_left_eq, List.cons_append,
      List.cons.injEq] at heq heq'
    exact absurd (by rw [← heq.1, ← heq'.1]) (hd call₁ call₂ hL hL')

theorem right (h : ∀ call, VisibleFrom (p ++ [call]) (E ++ E')) (hE : Placed root p L E)
    (hE' : Placed root p L' E') (hd : ∀ call call', L call → L' call' → call.number ≠ call'.number) :
    ∀ call, VisibleFrom (p ++ [call]) E' :=
  left (fun call => (h call).perm List.perm_append_comm) hE' hE
    fun call call' hL hL' heq => hd call' call hL' hL heq.symm

/-- In a whole context whose failures are visible, one of them is that of a spawned call. -/
theorem spawned (h : VisibleFrom p E) (hE : Placed root p L E) (hf : ∃ e ∈ E, Failed e) :
    ∃ e ∈ E, ∃ n rest, FailedCreation (p ++ ⟨n, true⟩ :: rest) e := by
  obtain ⟨e, he, hf⟩ := hf
  obtain ⟨hu, hv⟩ := h e he
  obtain ⟨w, hw⟩ := failedCreation_of_failed hf hu
  obtain ⟨⟨n, sp⟩, rest, rfl, -⟩ := hE.below e he w hw.place
  cases sp with
  | true => exact ⟨e, he, n, rest, hw⟩
  | false =>
    have hreports := hv [] n rest (by rwa [List.append_nil])
    rw [List.append_nil] at hreports
    obtain ⟨rest', hne, hspawned, e', he', hf'⟩ := hreports
    obtain ⟨⟨m, sp'⟩, rest', rfl⟩ := List.exists_cons_of_ne_nil hne
    have hsp : sp' = true := hspawned _ (List.mem_cons_self ..)
    exact ⟨e', he', m, rest', hsp ▸ hf'⟩

end VisibleFrom

section Reports

variable {root : String} {d : Discipline} {sdk : Sdk} {motive : RunsMotive} {kind : DurableKind}
  {name : String} {c : Context} {n : ℕ} {ks : List Kid} {ty : Ty} {position : Position} {slot : Slot}
  {req : PromiseCreateReq} {record : PromiseRecord} {own : List Event} {ext : List Kid}
  {r : Except Error Json}

def FailureMotive (root : String) : RunsMotive := fun _ ks c own ext c' _ =>
  ∃ hs, c'.spawnedHandles = c.spawnedHandles ++ hs ∧ ∀ ends, Ends (ks ++ ext) hs ends →
    c.id = idOf root c.position → (∀ call, VisibleFrom (c.position ++ [call]) (allEvents own ext)) →
    AncestorsUnsettled (allEvents own ext) ∧
      ((∃ e ∈ allEvents own ext, ∃ n rest, FailedCreation (c.position ++ ⟨n, true⟩ :: rest) e) →
        ∃ o ∈ ends, o.error.isSome)

theorem users_unfailed {own : List Event} (h : ∀ e ∈ own, e.1 = .user) : ∀ e ∈ own, ¬ Failed e := by
  rintro ⟨cmd, a⟩ he
  obtain rfl := h _ he
  exact id

theorem verdict_isSome {ends : List End} {todos : List String} (h : ∃ o ∈ ends, o.error.isSome) :
    ∃ e, verdict (ends.findSome? End.error) todos = .error e := by
  have hsome := List.findSome?_isSome_iff.mpr h
  obtain ⟨e, he⟩ := Option.isSome_iff_exists.mp hsome
  exact ⟨e, by rw [he]; rfl⟩

theorem CallRuns.failing {call : Call} {t : Except Error (List String)}
    (hid : req.id = idOf root (c.position ++ [call]))
    (hv : VisibleFrom (c.position ++ [call]) (allEvents own ext))
    (h : CallRuns d sdk (FailureMotive root) kind name c call req.id ks record own ext r t) :
    AncestorsUnsettled (allEvents own ext) ∧
      ((∃ e ∈ allEvents own ext, Failed e) → ∃ e, t = .error e) := by
  obtain ⟨own', rfl, h⟩ := h
  have hv' : VisibleFrom (c.position ++ [call]) (allEvents own' ext) := hv.tail fun w hw => hw
  cases kind with
  | function =>
    obtain ⟨⟨huser, -⟩, rfl, rfl⟩ := h
    have hnone : ∀ e ∈ allEvents (⟨.execute req.id, ()⟩ :: own') [], ¬ Failed e := by
      rw [allEvents, traces_nil, List.append_nil]
      exact List.forall_mem_cons.mpr ⟨fun hf => hf, users_unfailed huser⟩
    exact ⟨.of_none hnone, of_unfailed hnone⟩
  | workflow =>
    obtain ⟨c', ⟨hruns, hm⟩, ends, hends, rfl⟩ := h
    obtain ⟨hs, hhs, hfin⟩ := hm
    have hplaced := hruns.placed_of_ends hid hhs (by rwa [hhs] at hends) hv'.noPanic
    simp only [Context.child, List.nil_append] at hhs
    rw [hhs] at hends
    obtain ⟨hanc, herr⟩ := hfin ends hends hid hv'.below
    refine ⟨hanc.cons (e := ⟨.execute req.id, ()⟩) (fun hf => hf) (by simp), fun hfail => ?_⟩
    obtain ⟨e, he, hf⟩ := hfail
    rcases List.mem_cons.mp he with rfl | he
    · exact hf.elim
    · exact verdict_isSome (herr (hv'.spawned hplaced ⟨e, he, hf⟩))

def ReportsBelow (position : Position) (X : PromiseRecord → List Event → List Kid →
    Except Error Json → Except Error (List String) → Prop) : Prop :=
  ∀ record own ext r t, VisibleFrom position (allEvents own ext) → X record own ext r t →
    AncestorsUnsettled (allEvents own ext) ∧
      ((∃ e ∈ allEvents own ext, Failed e) → ∃ e, t = .error e)

section Children

variable {X : PromiseRecord → List Event → List Kid → Except Error Json →
    Except Error (List String) → Prop} {a : Except Error PromiseRecord}

theorem created_unfailed {kind : CallKind} :
    ¬ Failed (⟨.create kind position slot req, .ok record⟩ : Event) := fun hf => hf

theorem VisibleFrom.created {kind : CallKind}
    (h : VisibleFrom position (allEvents (⟨.create kind position slot req, .ok record⟩ :: own) ext)) :
    VisibleFrom position (allEvents own ext) := h.tail fun _ hf => hf

theorem VisibleFrom.settled {kind : CallKind} {id : String} {result : Except Error (Except String Json)}
    (h : VisibleFrom position (allEvents (⟨.create kind position slot req, .ok record⟩ ::
      (own ++ [⟨.settle position id result, a⟩])) ext)) :
    VisibleFrom position (allEvents own ext) :=
  ((h.perm (allEvents_settle _ _ own ext)).tail fun _ hf => hf).tail fun _ hf => hf

theorem settled_unfailed {kind : CallKind} {result : Except Error (Except String Json)} {id : String}
    {r : Except Error Json} {todos : List String} (hX : ReportsBelow position X)
    (hv : VisibleFrom position (allEvents (⟨.create kind position slot req, .ok record⟩ ::
      (own ++ [⟨.settle position id result, a⟩])) ext))
    (h : X record own ext r (.ok todos)) :
    ∀ e ∈ allEvents (⟨.create kind position slot req, .ok record⟩ ::
      (own ++ [⟨.settle position id result, a⟩])) ext, ¬ Failed e := by
  have hperm := allEvents_settle ⟨.create kind position slot req, .ok record⟩
    ⟨.settle position id result, a⟩ own ext
  intro e he hf
  rcases List.mem_cons.mp (hperm.mem_iff.mp he) with rfl | he'
  · cases a with
    | ok answer => exact hf
    | error err => exact (hv _ he).1 trivial
  · rcases List.mem_cons.mp he' with rfl | he'
    · exact hf
    · obtain ⟨err, herr⟩ := (hX _ _ _ _ _ hv.settled h).2 ⟨e, he', hf⟩
      cases herr

theorem SpawnedRuns.failing (hX : ReportsBelow position X) {o : End}
    (hv : VisibleFrom position (allEvents own ext))
    (h : SpawnedRuns sdk ty position slot req X own ext o) :
    AncestorsUnsettled (allEvents own ext) ∧
      ((∃ e ∈ allEvents own ext, Failed e) → o.error.isSome) := by
  have hcreated : ∀ {record : PromiseRecord} {own : List Event} {ext : List Kid},
      AncestorsUnsettled (allEvents own ext) →
      AncestorsUnsettled (allEvents (⟨.create .run position slot req, .ok record⟩ :: own) ext) :=
    fun h => h.cons created_unfailed (by simp)
  cases h with
  | failed e => exact ⟨.failed, fun _ => rfl⟩
  | recorded record result h hd | undecodable record e hs h =>
    refine ⟨hcreated (.of_none (by simp [allEvents])), fun hfail => ?_⟩
    obtain ⟨e, he, hf⟩ := hfail
    cases List.mem_singleton.mp he
    exact hf.elim
  | broken record own ext result e hp h => exact ⟨hcreated (hX _ _ _ _ _ hv.created h).1, fun _ => rfl⟩
  | waiting record own ext result todos hp hw h =>
    obtain ⟨hanc, herr⟩ := hX _ _ _ _ _ hv.created h
    refine ⟨hcreated hanc, fun hfail => ?_⟩
    obtain ⟨e, he, hf⟩ := hfail
    rcases List.mem_cons.mp he with rfl | he
    · exact hf.elim
    · obtain ⟨e', he'⟩ := herr ⟨e, he, hf⟩
      cases he'
  | settled record own ext result answer hp hns h =>
    have hnone := settled_unfailed hX hv h
    exact ⟨.of_none hnone, of_unfailed hnone⟩
  | panicked record own ext msg hp hmsg =>
    exact absurd trivial (hv _ (List.mem_append_left _ (List.mem_cons_of_mem _ hmsg))).1

/-- An awaited child that fails, or in which something fails, is not settled. -/
theorem InlineRuns.failing (hX : ReportsBelow position X) {todos : List String}
    (hv : VisibleFrom position (allEvents own ext))
    (h : InlineRuns sdk ty position slot req X own ext todos r) :
    AncestorsUnsettled (allEvents own ext) := by
  cases h with
  | failed e => exact .failed
  | recorded record result h => exact .of_none (List.forall_mem_singleton.mpr created_unfailed)
  | broken record own ext result e hp h | waiting record own ext result todos hp hne h =>
    exact (hX _ _ _ _ _ hv.created h).1.cons created_unfailed (by simp)
  | unsettled record own ext result e hp h | settled record own ext result answer hp h =>
    exact .of_none (settled_unfailed hX hv h)

end Children

theorem callRuns_reportsBelow {call : Call} (hid : req.id = idOf root (c.position ++ [call])) :
    ReportsBelow (c.position ++ [call])
      (CallRuns d sdk (FailureMotive root) kind name c call req.id ks) :=
  fun _ _ _ _ _ hv h => h.failing hid hv

theorem Forked.failing {kid : Kid} {o : End} (hc : c.id = idOf root c.position)
    (ho : kid.result = some o) (hv : VisibleFrom (c.position ++ [⟨n, true⟩]) kid.trace)
    (h : Forked d sdk (FailureMotive root) c n req kid) :
    AncestorsUnsettled kid.trace ∧ ((∃ e ∈ kid.trace, Failed e) → o.error.isSome) := by
  have hone : ∀ {kind : CallKind} {p : Position} {slot : Slot} {record : PromiseRecord}
    {E : List Event} {P : Prop},
      E = [⟨.create kind p slot req, .ok record⟩] →
      AncestorsUnsettled E ∧ ((∃ e ∈ E, Failed e) → P) := by
    rintro kind p slot record E P rfl
    refine ⟨AncestorsUnsettled.of_none ?_, fun hfail => ?_⟩
    · exact List.forall_mem_singleton.mpr fun hf => hf
    · obtain ⟨e, he, hf⟩ := hfail
      cases List.mem_singleton.mp he
      exact hf.elim
  cases h with
  | run ty kind name hid hty h =>
    obtain ⟨own, ext, htrace, h⟩ := h
    rw [htrace] at hv ⊢
    exact (h o ho).failing (callRuns_reportsBelow (hid.trans (callId_idOf _ hc))) hv
  | remote ty hid h =>
    obtain ⟨own, ext, htrace, h⟩ := h
    cases h o ho with
    | failed e =>
      rw [htrace]
      exact ⟨.failed, fun _ => rfl⟩
    | recorded record result h => exact hone htrace
    | pending record hp => exact hone htrace
  | detached h =>
    obtain ⟨own, ext, htrace, h⟩ := h
    cases h o ho with
    | failed e =>
      rw [htrace]
      exact ⟨.failed, fun _ => rfl⟩
    | created record => exact hone htrace

theorem Scope.left_ne {s : Scope} (sp : Bool) (hn : n ∈ s.built) (call call' : Call)
    (h : call = ⟨n, sp⟩) (hleft : (s.use n).Left call'.number) : call.number ≠ call'.number := by
  subst h
  exact fun heq => ((Scope.left_use hn).mp hleft).2 heq.symm

theorem Placed.not_spawned {E : List Event} (h : Placed root c.position (· = ⟨n, false⟩) E) {e : Event}
    (he : e ∈ E) {m : ℕ} {rest : Position} : ¬ FailedCreation (c.position ++ ⟨m, true⟩ :: rest) e := by
  intro hf
  obtain ⟨call, rest', heq, rfl⟩ := h.below e he _ hf.place
  simp at heq

theorem ScopedRuns.failing {s : Scope} {c' : Context} (h : ScopedRuns d sdk s ks c own ext c' r) :
    FailureMotive root s ks c own ext c' r := by
  refine ScopedRuns.induction (motive := FailureMotive root) ?ret ?quiet ?build ?skip ?run ?await ?fork
    ?join h
  case ret =>
    intro s ks c r _
    exact ⟨[], by simp, fun ends _ _ _ => ⟨.of_none (by simp [allEvents]), by simp [allEvents]⟩⟩
  case quiet =>
    intro s ks c e own ext c' r he ih
    obtain ⟨hs, hhs, hfin⟩ := ih
    refine ⟨hs, hhs, fun ends hends hc hv => ?_⟩
    have hf : ¬ Failed e := by
      obtain ⟨cmd, a⟩ := e
      cases cmd <;> first | exact fun hf => hf | exact he.elim
    obtain ⟨hanc, herr⟩ := hfin ends hends hc fun call => (hv call).tail fun w hw => hf hw.failed
    refine ⟨hanc.cons hf fun q id result heq => ?_, fun hfail => ?_⟩
    · rw [heq] at he
      exact he
    · obtain ⟨e', he', n, rest, hf'⟩ := hfail
      rcases List.mem_cons.mp he' with rfl | he'
      · exact absurd hf'.failed hf
      · exact herr ⟨e', he', n, rest, hf'⟩
  case build => exact fun s ks c own ext c' r ih => ih
  case skip => exact fun s n ks c own ext c' r _ ih => ih
  case join => exact fun s h o ks c own ext c' r _ _ ih => ih
  case await =>
    intro s n ty req ks c own₁ todos result own ext c' r hn hid hrun hrest ih
    obtain ⟨hs, hhs, hfin⟩ := ih
    refine ⟨hs, hhs, fun ends hends hc hv => ?_⟩
    rw [allEvents, List.append_assoc] at hv ⊢
    have hp₁ := hrun.placed (hid.trans (callId_idOf false hc))
    have hp₂ := hrest.placed_of_ends hc hhs hends (noPanic_append.mp (hv ⟨n, false⟩).noPanic).2
    have hd := Scope.left_ne false hn
    obtain ⟨hanc, herr⟩ := hfin ends hends hc (VisibleFrom.right hv hp₁ hp₂ hd)
    have hanc₁ : AncestorsUnsettled own₁ := by
      cases hrun with
      | failed e => exact .failed
      | recorded | pending => exact .of_none (List.forall_mem_singleton.mpr created_unfailed)
    refine ⟨hanc₁.append hanc hp₁ hp₂ hd, fun hfail => ?_⟩
    obtain ⟨e, he, m, rest, hf⟩ := hfail
    exact (List.mem_append.mp he).elim (fun he => absurd hf (hp₁.not_spawned he))
      fun he => herr ⟨e, he, m, rest, hf⟩
  case run =>
    intro s n ty kind name req ks c own₁ ext₁ todos result own ext c' r hn hid hrun hrest ih
    have hperm := allEvents_append own₁ own ext₁ ext
    obtain ⟨hs, hhs, hfin⟩ := ih
    refine ⟨hs, hhs, fun ends hends hc hv => ?_⟩
    rw [← List.append_assoc] at hends
    have hv' : ∀ call, VisibleFrom (c.position ++ [call]) (allEvents own₁ ext₁ ++ allEvents own ext) :=
      fun call => (hv call).perm hperm
    obtain ⟨hnp₁, hnp₂⟩ := noPanic_append.mp (hv' ⟨n, false⟩).noPanic
    have hp₁ := (hrun.mono fun _ _ _ _ _ hX => hX.toPlaced).placed
      (hid.trans (callId_idOf false hc)) hnp₁
    have hp₂ := hrest.placed_of_ends hc hhs hends hnp₂
    have hd := Scope.left_ne false hn
    obtain ⟨hanc, herr⟩ := hfin ends hends hc (VisibleFrom.right hv' hp₁ hp₂ hd)
    have hanc₁ := hrun.failing (callRuns_reportsBelow (hid.trans (callId_idOf _ hc)))
      (VisibleFrom.left hv' hp₁ hp₂ hd _)
    refine ⟨(hanc₁.append hanc hp₁ hp₂ hd).perm hperm.symm, fun hfail => ?_⟩
    obtain ⟨e, he, m, rest, hf⟩ := hfail
    exact (List.mem_append.mp (hperm.mem_iff.mp he)).elim (fun he => absurd hf (hp₁.not_spawned he))
      fun he => herr ⟨e, he, m, rest, hf⟩
  case fork =>
    intro s n req ks c kid own ext c' r hn hkid hrest ih
    have hperm := allEvents_fork own kid ext
    obtain ⟨hs, hhs, hfin⟩ := ih
    refine ⟨(req.id, ks.length) :: hs, by simp [hhs, Context.spawned, Context.claimSlot],
      fun ends hends hc hv => ?_⟩
    obtain ⟨o, ends', rfl, ho, hends⟩ := hends.fork
    have hv' : ∀ call, VisibleFrom (c.position ++ [call]) (kid.trace ++ allEvents own ext) :=
      fun call => (hv call).perm hperm
    obtain ⟨hnp₁, hnp₂⟩ := noPanic_append.mp (hv' ⟨n, true⟩).noPanic
    have hp₁ := hkid.toPlaced.placed hc ho hnp₁
    have hp₂ := hrest.placed_of_ends hc hhs hends hnp₂
    have hd := Scope.left_ne true hn
    obtain ⟨hanc, herr⟩ := hfin ends' hends hc (VisibleFrom.right hv' hp₁ hp₂ hd)
    obtain ⟨hanc₁, herr₁⟩ := hkid.failing hc ho (VisibleFrom.left hv' hp₁ hp₂ hd _)
    refine ⟨(hanc₁.append hanc hp₁ hp₂ hd).perm hperm.symm, fun hfail => ?_⟩
    obtain ⟨e, he, m, rest, hf⟩ := hfail
    rcases List.mem_append.mp (hperm.mem_iff.mp he) with he | he
    · exact ⟨o, List.mem_cons_self .., herr₁ ⟨e, he, hf.failed⟩⟩
    · obtain ⟨o', ho', hsome⟩ := herr ⟨e, he, m, rest, hf⟩
      exact ⟨o', List.mem_cons_of_mem _ ho', hsome⟩

end Reports

section Executions

variable {core : Core} {taskId : String} {v : Int} {promise : PromiseRecord} {entry : RegistryEntry}
  {data : TaskData} {preload : List PromiseRecord} {ks ext : List Kid} {own : List Event}
  {x : Except Error (Except Error Json × List String)}

theorem visibleFrom_root {E : List Event} (h : ∀ e ∈ E, FailsVisibly E e) : VisibleFrom [] E := h

theorem Core.ExecuteRuns.failing (hkeeps : (entry.func data.args).Keeps affine [] .start)
    (h : core.ExecuteRuns taskId v promise entry data preload ks own ext x)
    (hv : ∀ e ∈ allEvents own ext, FailsVisibly (allEvents own ext) e) :
    AncestorsUnsettled (allEvents own ext) ∧
      ((∃ e ∈ allEvents own ext, Failed e) → ∃ e, x = .error e) := by
  cases h with
  | function own result hk h =>
    obtain ⟨huser, -⟩ := h.ends hkeeps
    have hnone : ∀ e ∈ allEvents own [], ¬ Failed e := by
      rw [allEvents, traces_nil, List.append_nil]
      exact users_unfailed huser
    exact ⟨.of_none hnone, of_unfailed hnone⟩
  | workflow own ext c result todos hk hr hc =>
    obtain ⟨ends, hends, rfl⟩ := hc
    have hruns : ScopedRuns affine core.sdk .start ks (rootContext promise data) own ext c result :=
      hr.scoped (c := rootContext promise data) hkeeps rfl
    have hm : FailureMotive promise.id .start ks (rootContext promise data) own ext c result :=
      hruns.failing
    have hv' : VisibleFrom [] (allEvents own ext) := (visibleFrom_root hv).tail fun w hw => hw
    obtain ⟨hs, hhs, hfin⟩ := hm
    have hplaced : Placed promise.id [] _ (allEvents own ext) :=
      hruns.placed_of_ends rfl hhs (by rwa [hhs] at hends) hv'.noPanic
    simp only [rootContext, Context.root, List.nil_append] at hhs
    rw [hhs] at hends
    obtain ⟨hanc, herr⟩ := hfin ends hends rfl hv'.below
    refine ⟨hanc.cons (fun hf => hf) (by simp), fun hfail => ?_⟩
    obtain ⟨e, he, hf⟩ := hfail
    rcases List.mem_cons.mp he with rfl | he
    · exact hf.elim
    · obtain ⟨e', he'⟩ := verdict_isSome (herr (hv'.spawned hplaced ⟨e, he, hf⟩))
      exact ⟨e', by rw [he']; rfl⟩
  | panicked own ext msg hmsg => exact absurd trivial (hv _ (List.mem_append_left _ hmsg)).1

theorem Core.LastExecution.failing {own₁ : List Event} {ext₁ : List Kid}
    (hkeeps : (entry.func data.args).Keeps affine [] .start)
    (h : core.LastExecution taskId v promise entry data ks own ext own₁ ext₁ x)
    (hv : ∀ e ∈ allEvents own₁ ext₁, FailsVisibly (allEvents own₁ ext₁) e) :
    AncestorsUnsettled (allEvents own₁ ext₁) ∧
      ((∃ e ∈ allEvents own₁ ext₁, Failed e) → ∃ e, x = .error e) := by
  obtain ⟨-, preload, own₀, ext₀, -, -, hx⟩ := h
  exact hx.failing hkeeps hv

/-- Where every failure of an execution is reported: whatever is sent to fulfil or suspend the
task concludes an execution without a failed request, and a last execution with one is released,
with no ancestor of the failed call settled. -/
theorem failures_released {fuel : ℕ} (h : core.Executes promise entry data)
    (hkeeps : (entry.func data.args).Keeps affine [] .start) :
    (∀ (ls : List (Label Cmd Cmd.Answer)) (fin : Event) (n : Node Cmd Cmd.Answer End),
      fin.1.IsFinal → Steps (.mk (core.executeUntilBlocked taskId v promise fuel preload) [])
        (ls ++ [.own fin]) n →
      ∃ own₁ ext ext₁ ext₂ x,
        (ls.flatMap Label.event).Perm (ls.flatMap Label.root ++ traces (ext ++ ext₂)) ∧
        core.LastExecution taskId v promise entry data [] (ls.flatMap Label.root) ext own₁ ext₁ x ∧
        ((∀ e ∈ allEvents own₁ ext₁, FailsVisibly (allEvents own₁ ext₁) e) →
          ∀ e ∈ allEvents own₁ ext₁, ¬ Failed e)) ∧
    ∀ (ls : List (Label Cmd Cmd.Answer)) (n : Node Cmd Cmd.Answer End) (o : End),
      Steps (.mk (core.executeUntilBlocked taskId v promise fuel preload) []) ls n →
      n.result = some o → o ≠ .unfinished →
      ∃ own own₁ ext ext₁ x tail stop,
        (ls.flatMap Label.event).Perm (ls.flatMap Label.root ++ traces ext) ∧
        ls.flatMap Label.root = own ++ (tail ++ stop) ∧
        core.LastExecution taskId v promise entry data [] own ext own₁ ext₁ x ∧
        ((∀ e ∈ allEvents own₁ ext₁, FailsVisibly (allEvents own₁ ext₁) e) →
          AncestorsUnsettled (allEvents own₁ ext₁) ∧
          ((∃ e ∈ allEvents own₁ ext₁, Failed e) → tail = [] ∧
            ∃ answer, stop = [⟨.heartbeatStop taskId, ()⟩, ⟨.release taskId v, answer⟩])) := by
  constructor
  · intro ls fin n hf hs
    obtain ⟨own₁, ext, ext₁, ext₂, result, todos, hperm, hlast, -⟩ := handling_finalizes h hf hs
    refine ⟨own₁, ext, ext₁, ext₂, _, hperm, hlast, fun hv e he hfail => ?_⟩
    obtain ⟨e', he'⟩ := (hlast.failing hkeeps hv).2 ⟨e, he, hfail⟩
    cases he'
  · intro ls n o hs ho hne
    obtain ⟨own, own₁, ext, ext₁, x, tail, status, stop, hperm, hroot, hlast, hc, hstop⟩ :=
      handling_concludes h ho hne hs
    refine ⟨own, own₁, ext, ext₁, x, tail, stop, hperm, hroot, hlast, fun hv => ?_⟩
    obtain ⟨hanc, herr⟩ := hlast.failing hkeeps hv
    refine ⟨hanc, fun hfail => ?_⟩
    obtain ⟨e, rfl⟩ := herr hfail
    cases hc
    exact ⟨rfl, hstop⟩

end Executions

section Witnesses

def refusingReply : (c : Cmd) → c.Answer
  | .create .. => .error (.networkError "down")
  | c => grantingReply c

def propagator : Body := .next fun n => .await n (.promise ⟨.ok, .ok⟩ none {}) .ret

def abortingReply : (c : Cmd) → c.Answer
  | .create _ _ slot _ =>
    if slot.index = 0 then .error (.networkError "down")
    else .error (.promiseCreation "aborted: a previous promise creation in this workflow failed")
  | c => grantingReply c

def starter : Body :=
  .next fun n => .start n (.promise ⟨.ok, .ok⟩ none {}) fun _ =>
    .next fun m => .await m (.promise ⟨.ok, .ok⟩ none {}) .ret

def isRefused : Event → Bool
  | ⟨.create .., .ok _⟩ | ⟨.panic _, _⟩ => false
  | _ => true

section Refused

variable {sdk : Sdk} {ty : Ty} {p : Position} {slot : Slot} {req : PromiseCreateReq}
  {own : List Event} {ext : List Kid}

theorem SpawnedRemoteRuns.refused {o : End} (h : SpawnedRemoteRuns sdk ty p slot req own ext o)
    (hno : ∀ e ∈ own, isRefused e = true) :
    ∃ err, own = [⟨.create .remote p slot req, .error err⟩] ∧ ext = [] := by
  cases h with
  | failed err => exact ⟨err, rfl, rfl⟩
  | recorded | pending => exact absurd (hno _ (List.mem_singleton_self _)) (by simp [isRefused])

theorem RemoteRuns.refused {todos : List String} {result : Except Error Json}
    (h : RemoteRuns sdk ty p slot req own todos result) (hno : ∀ e ∈ own, isRefused e = true) :
    ∃ err, own = [⟨.create .remote p slot req, .error err⟩] := by
  cases h with
  | failed err => exact ⟨err, rfl⟩
  | recorded | pending => exact absurd (hno _ (List.mem_singleton_self _)) (by simp [isRefused])

end Refused

theorem starter_keeps : starter.Keeps affine [] .start :=
  ⟨by decide, by decide, fun _ => ⟨by decide, by decide, fun _ => trivial⟩,
    fun _ => ⟨by simp [Scope.start, Scope.build, Scope.use, Scope.hold],
      by simp [Scope.start, Scope.build, Scope.use, Scope.hold], fun _ => trivial⟩⟩

theorem starter_visible {preload : List PromiseRecord} {ks ext : List Kid} {own : List Event}
    {x : Except Error (Except Error Json × List String)}
    (h : (workflowCore starter).ExecuteRuns "t" 3 startedPromise ⟨.workflow, fun _ => starter⟩
      ⟨"main", .null⟩ preload ks own ext x) (hno : ∀ e ∈ allEvents own ext, isRefused e = true) :
    (∀ e ∈ allEvents own ext, FailsVisibly (allEvents own ext) e) ∧
      ∃ e ∈ allEvents own ext, Failed e := by
  cases h with
  | function own result hk => cases hk
  | panicked own ext msg hmsg =>
    exact absurd (hno _ (List.mem_append_left _ hmsg)) (by simp [isRefused])
  | workflow own ext c result todos hk hr hc =>
    obtain ⟨ends, hends, -⟩ := hc
    obtain ⟨now, own, rfl, kid, ext, rfl, ⟨ownk, extk, htrace, hkid⟩, hr⟩ := hr
    obtain ⟨now', own, rfl, own₁, todos', result', own₂, rfl, hrun, rfl, rfl, rfl, rfl⟩ := hr
    obtain ⟨o, ends', -, ho, -⟩ := Ends.fork hends
    have hkid' := hkid o ho
    obtain ⟨err, rfl, rfl⟩ := hkid'.refused fun e he => hno e
      (List.mem_append_right _ (by simp [htrace, he]))
    obtain ⟨err', rfl⟩ := hrun.refused fun e he => hno e (List.mem_append_left _ (by simp [he]))
    simp only [allEvents, traces_cons, traces_nil, htrace, List.append_nil, List.cons_append,
      List.nil_append]
    refine ⟨fun e he => ?_, _, .tail _ (.tail _ (.tail _ (.head _))), trivial⟩
    simp only [List.mem_cons, List.not_mem_nil, or_false] at he
    rcases he with rfl | rfl | rfl | rfl | rfl
    · exact ⟨id, fun _ _ _ hf => hf.elim⟩
    · exact ⟨id, fun _ _ _ hf => hf.elim⟩
    · exact ⟨id, fun _ _ _ hf => hf.elim⟩
    · refine ⟨id, fun q n rest hf => ?_⟩
      cases q with
      | nil =>
        exact ⟨[⟨0, true⟩], by simp, by simp, _, .tail _ (.tail _ (.tail _ (.tail _ (.head _)))), rfl⟩
      | cons call q => exact absurd (List.cons.inj hf).2 (by simp)
    · refine ⟨id, fun q n rest hf => ?_⟩
      cases q with
      | nil => exact absurd (congrArg Call.spawned (List.cons.inj hf).1) (by simp)
      | cons call q => exact absurd (List.cons.inj hf).2 (by simp)

def isFailed : Event → Bool
  | ⟨.create .., .error _⟩ | ⟨.settle .., .error _⟩ => true
  | _ => false

end Witnesses

theorem failures_released_starter : ∃ ls n own answer,
    Steps (.mk ((workflowCore starter).executeUntilBlocked "t" 3 startedPromise 1 []) []) ls n ∧
      (ls.flatMap Label.event).countP isFailed = 2 ∧
      ls.flatMap Label.root = own ++ [⟨.heartbeatStop "t", ()⟩, ⟨.release "t" 3, answer⟩] := by
  obtain ⟨ls, n, o, h, ho, hne, hcount, hall⟩ : ∃ ls n o,
      Steps (.mk ((workflowCore starter).executeUntilBlocked "t" 3 startedPromise 1 []) []) ls n ∧
        n.result = some o ∧ o ≠ .unfinished ∧ (ls.flatMap Label.event).countP isFailed = 2 ∧
        (ls.flatMap Label.event).all isRefused = true :=
    ⟨_, _, _, Node.runAt_steps abortingReply [[], [], [], [], [0], [], [], [], [], []] _ rfl, rfl,
      by simp, rfl, rfl⟩
  obtain ⟨own, own₁, ext, ext₁, x, tail, stop, hperm, hroot, hlast, hreleased⟩ :=
    (failures_released ⟨rfl, by decide, rfl, rfl⟩ starter_keeps).2 ls n o h ho hne
  obtain ⟨-, preload, own₀, ext₀, rfl, rfl, hx⟩ := hlast
  obtain ⟨hv, hfail⟩ := starter_visible hx fun e he => by
    refine List.all_eq_true.mp hall e (hperm.mem_iff.mpr ?_)
    rw [hroot]
    rcases List.mem_append.mp he with he | he <;> simp [he]
  obtain ⟨rfl, answer, rfl⟩ := (hreleased hv).2 hfail
  exact ⟨ls, n, _, answer, h, hcount, hroot⟩

/-- The failed creation of an awaited call is recorded as the workflow's result. -/
theorem failure_fulfilled : ∃ ls n,
    Steps (.mk ((workflowCore propagator).executeUntilBlocked "t" 3 startedPromise 1 []) []) ls n ∧
      n.result = some (.returned (.ok .done)) ∧ (ls.flatMap Label.event).any isFailed = true ∧
      (ls.flatMap Label.root).any isFulfilled = true := by
  have h := Node.runAt_steps refusingReply [[], [], [], [], [], []]
    (.mk ((workflowCore propagator).executeUntilBlocked "t" 3 startedPromise 1 []) []) rfl
  exact ⟨_, _, h, rfl, rfl, rfl⟩

end Resonate
