import Resonate.Scopes
import Resonate.Executions
import Mathlib.Data.List.Induction

/-!
# The positions of a tree

Within their scopes the functions of a tree create and settle promises at positions
below their own, each creation at a position of its own, under the id that the
position determines.
-/

namespace Resonate
open Lib Lib.ForkJoin

def allEvents (own : List Event) (ext : List Kid) : List Event := own ++ traces ext

theorem allEvents_append (own₁ own : List Event) (ext₁ ext : List Kid) :
    (allEvents (own₁ ++ own) (ext₁ ++ ext)).Perm (allEvents own₁ ext₁ ++ allEvents own ext) := by
  simp only [allEvents, traces_append, List.append_assoc]
  exact (List.perm_append_comm_assoc own (traces ext₁) (traces ext)).append_left own₁

theorem allEvents_fork (own : List Event) (kid : Kid) (ext : List Kid) :
    (allEvents own (kid :: ext)).Perm (kid.trace ++ allEvents own ext) := by
  simp only [allEvents, traces_cons]
  exact List.perm_append_comm_assoc own kid.trace (traces ext)

theorem allEvents_settle (e f : Event) (own : List Event) (ext : List Kid) :
    (allEvents (e :: (own ++ [f])) ext).Perm (f :: e :: allEvents own ext) := by
  simp only [allEvents, List.cons_append, List.append_assoc, List.nil_append]
  exact (List.Perm.cons e List.perm_middle).trans (List.Perm.swap f e _)

section Ended

def AllEnded (ext : List Kid) : Prop := ∀ kid ∈ ext, ∃ o, kid.result = some o

theorem AllEnded.nil : AllEnded [] := by simp [AllEnded]

theorem allEnded_append {ext ext' : List Kid} :
    AllEnded (ext ++ ext') ↔ AllEnded ext ∧ AllEnded ext' := by
  simp [AllEnded, or_imp, forall_and]

theorem allEnded_cons {kid : Kid} {ext : List Kid} :
    AllEnded (kid :: ext) ↔ (∃ o, kid.result = some o) ∧ AllEnded ext := by
  simp [AllEnded]

theorem Ends.fork {ks ext : List Kid} {kid : Kid} {id : String} {hs : List (String × ℕ)}
    {ends : List End} (h : Ends (ks ++ kid :: ext) ((id, ks.length) :: hs) ends) :
    ∃ o ends', ends = o :: ends' ∧ kid.result = some o ∧ Ends (ks ++ [kid] ++ ext) hs ends' := by
  cases h with
  | cons ho h =>
    refine ⟨_, _, rfl, by simpa using ho, ?_⟩
    rw [List.append_assoc]
    exact h

variable {d : Discipline} {sdk : Sdk} {motive : RunsMotive}

theorem CallRuns.ended {kind : DurableKind} {name id : String} {c : Context} {call : Call}
    {ks : List Kid} {record : PromiseRecord} {own : List Event} {ext : List Kid}
    {r : Except Error Json} {t : Except Error (List String)}
    (hm : ∀ s ks c own ext c' r, motive s ks c own ext c' r →
      ∃ hs, c'.spawnedHandles = c.spawnedHandles ++ hs ∧
        ∀ ends, Ends (ks ++ ext) hs ends → AllEnded ext)
    (h : CallRuns d sdk motive kind name c call id ks record own ext r t) : AllEnded ext := by
  obtain ⟨own', -, h⟩ := h
  cases kind with
  | function =>
    obtain ⟨-, rfl, -⟩ := h
    exact AllEnded.nil
  | workflow =>
    obtain ⟨c', ⟨-, hr⟩, ends, hends, -⟩ := h
    obtain ⟨hs, hhs, hended⟩ := hm _ _ _ _ _ _ _ hr
    rw [hhs] at hends
    exact hended ends hends

theorem InlineRuns.ended {ty : Ty} {position : Position} {slot : Slot} {req : PromiseCreateReq}
    {X : PromiseRecord → List Event → List Kid → Except Error Json → Except Error (List String) → Prop}
    (hX : ∀ record own ext r t, X record own ext r t → AllEnded ext) {own : List Event}
    {ext : List Kid} {todos : List String} {result : Except Error Json}
    (h : InlineRuns sdk ty position slot req X own ext todos result) : AllEnded ext := by
  cases h with
  | failed | recorded => exact AllEnded.nil
  | broken _ _ _ _ _ _ h | unsettled _ _ _ _ _ _ h | settled _ _ _ _ _ _ h
  | waiting _ _ _ _ _ _ _ h => exact hX _ _ _ _ _ h

/-- Every child forked by a function ends before its spawned tasks are collected. -/
theorem ScopedRuns.handles {s : Scope} {ks : List Kid} {c : Context} {own : List Event}
    {ext : List Kid} {c' : Context} {r : Except Error Json}
    (h : ScopedRuns d sdk s ks c own ext c' r) :
    ∃ hs, c'.spawnedHandles = c.spawnedHandles ++ hs ∧
      ∀ ends, Ends (ks ++ ext) hs ends → AllEnded ext := by
  refine ScopedRuns.induction (motive := fun _ ks c _ ext c' _ =>
    ∃ hs, c'.spawnedHandles = c.spawnedHandles ++ hs ∧
      ∀ ends, Ends (ks ++ ext) hs ends → AllEnded ext)
    ?ret ?quiet ?build ?skip ?run ?await ?fork ?join h
  case ret => exact fun s ks c r _ => ⟨[], by simp, fun _ _ => AllEnded.nil⟩
  case quiet => exact fun s ks c e own ext c' r _ ih => ih
  case build => exact fun s ks c own ext c' r ih => ih
  case skip => exact fun s n ks c own ext c' r _ ih => ih
  case join => exact fun s h o ks c own ext c' r _ _ ih => ih
  case await => exact fun s n ty req ks c own₁ todos result own ext c' r _ _ _ _ ih => ih
  case run =>
    intro s n ty kind name req ks c own₁ ext₁ todos result own ext c' r _ _ hrun _ ih
    obtain ⟨hs, hhs, hended⟩ := ih
    refine ⟨hs, hhs, fun ends hends => ?_⟩
    rw [← List.append_assoc] at hends
    exact allEnded_append.mpr ⟨hrun.ended fun _ _ _ _ _ hX => hX.ended (fun _ _ _ _ _ _ _ hm => hm),
      hended ends hends⟩
  case fork =>
    intro s n req ks c kid own ext c' r _ _ _ ih
    obtain ⟨hs, hhs, hended⟩ := ih
    refine ⟨(req.id, ks.length) :: hs, by simp [hhs, Context.spawned, Context.claimSlot], ?_⟩
    intro ends hends
    obtain ⟨o, ends', -, ho, hends⟩ := hends.fork
    exact allEnded_cons.mpr ⟨⟨o, ho⟩, hended ends' hends⟩

variable {kind : DurableKind} {name id : String} {c : Context} {call : Call} {ks : List Kid}
  {record : PromiseRecord} {own : List Event} {ext : List Kid} {r : Except Error Json}
  {t : Except Error (List String)}

theorem CallRuns.allEnded (h : CallRuns d sdk motive kind name c call id ks record own ext r t) :
    AllEnded ext := by
  obtain ⟨own', -, h⟩ := h
  cases kind with
  | function =>
    obtain ⟨-, rfl, -⟩ := h
    exact AllEnded.nil
  | workflow =>
    obtain ⟨c', ⟨hruns, -⟩, ends, hends, -⟩ := h
    obtain ⟨hs, hhs, hended⟩ := hruns.handles
    rw [hhs] at hends
    exact hended ends hends

end Ended

section Ids

def idOf (root : String) (p : Position) : String :=
  p.foldl (fun id call => joinId id (toString call.number)) root

variable {root : String}

theorem idOf_append (p : Position) (call : Call) :
    idOf root (p ++ [call]) = joinId (idOf root p) (toString call.number) := by
  simp [idOf]

theorem length_idOf (root : String) (p : Position) :
    root.toList.length + p.length ≤ (idOf root p).toList.length := by
  induction p using List.reverseRecOn with
  | nil => simp [idOf]
  | append_singleton p call ih =>
    rw [idOf_append, List.length_append, List.length_singleton]
    have := length_joinId (idOf root p) call.number
    omega

theorem idOf_inj {p q : Position} (h : idOf root p = idOf root q) :
    p.map Call.number = q.map Call.number := by
  induction p using List.reverseRecOn generalizing q with
  | nil =>
    have hlen := length_idOf root q
    rw [← h] at hlen
    have : q.length = 0 := by simpa [idOf] using hlen
    simp [List.length_eq_zero_iff.mp this]
  | append_singleton p call ih =>
    rcases q.eq_nil_or_concat with rfl | ⟨q, call', rfl⟩
    · have hlen := length_idOf root (p ++ [call])
      rw [h] at hlen
      simp [idOf] at hlen
    · rw [idOf_append, List.concat_eq_append, idOf_append] at h
      obtain ⟨hpq, hcall⟩ := joinId_inj h
      simp [ih hpq, hcall]

end Ids

namespace Cmd

def place : Cmd → Option Position
  | create _ p _ _ | settle p _ _ => some p
  | _ => none

def creation : Cmd → Option (List ℕ)
  | create _ p _ _ => some (p.map Call.number)
  | _ => none

def names : Cmd → Option (Position × String)
  | create .run p _ req | create .remote p _ req => some (p, req.id)
  | settle p id _ => some (p, id)
  | _ => none

def isPanic : Cmd → Bool
  | panic _ => true
  | _ => false

theorem creation_place {c : Cmd} {w : List ℕ} (h : c.creation = some w) :
    ∃ q, c.place = some q ∧ w = q.map Call.number := by
  cases c <;> cases h
  exact ⟨_, rfl, rfl⟩

end Cmd

/-- The durable operations among some events belong to calls below the position `p`,
by a first call in `L`; their ids are those of their positions; and no
position is created twice. -/
structure Placed (root : String) (p : Position) (L : Call → Prop) (E : List Event) : Prop where
  below : ∀ e ∈ E, ∀ q, e.1.place = some q → ∃ call rest, q = p ++ call :: rest ∧ L call
  named : ∀ e ∈ E, ∀ q id, e.1.names = some (q, id) → id = idOf root q
  nodup : (E.filterMap fun e => e.1.creation).Nodup

namespace Placed

variable {root : String} {p : Position} {L L' : Call → Prop} {E E' : List Event}

theorem nil : Placed root p L [] := ⟨by simp, by simp, by simp⟩

theorem perm (h : Placed root p L E) (hp : E.Perm E') : Placed root p L E' :=
  ⟨fun e he => h.below e (hp.mem_iff.mpr he), fun e he => h.named e (hp.mem_iff.mpr he),
    (hp.filterMap _).nodup_iff.mp h.nodup⟩

theorem mono (h : Placed root p L E) (hL : ∀ n, L n → L' n) : Placed root p L' E := by
  refine ⟨fun e he q hq => ?_, h.named, h.nodup⟩
  obtain ⟨call, rest, hqe, hn⟩ := h.below e he q hq
  exact ⟨call, rest, hqe, hL _ hn⟩

theorem cons {e : Event} (h : Placed root p L E) (hp : e.1.place = none) (hn : e.1.names = none)
    (hc : e.1.creation = none) : Placed root p L (e :: E) := by
  refine ⟨fun e' he' q hq => ?_, fun e' he' q id hq => ?_, by simpa [hc] using h.nodup⟩
  · rcases List.mem_cons.mp he' with rfl | he'
    · rw [hp] at hq
      cases hq
    · exact h.below e' he' q hq
  · rcases List.mem_cons.mp he' with rfl | he'
    · rw [hn] at hq
      cases hq
    · exact h.named e' he' q id hq

theorem users {own : List Event} (h : ∀ e ∈ own, e.1 = .user) :
    Placed root p L (allEvents own []) := by
  induction own with
  | nil => exact nil
  | cons e own ih =>
    have he : e.1.place = none ∧ e.1.names = none ∧ e.1.creation = none := by
      rw [h e (List.mem_cons_self ..)]
      exact ⟨rfl, rfl, rfl⟩
    exact (ih fun e he => h e (List.mem_cons_of_mem _ he)).cons he.1 he.2.1 he.2.2

theorem append (h : Placed root p L E) (h' : Placed root p L' E') 
    (hd : ∀ call call', L call → L' call' → call.number ≠ call'.number) :
    Placed root p (fun call => L call ∨ L' call) (E ++ E') := by
  refine ⟨fun e he q hq => ?_, fun e he => ?_, ?_⟩
  · rcases List.mem_append.mp he with he | he
    · exact (h.mono fun _ => Or.inl).below e he q hq
    · exact (h'.mono fun _ => Or.inr).below e he q hq
  · exact (List.mem_append.mp he).elim (h.named e) (h'.named e)
  · rw [List.filterMap_append, List.nodup_append]
    refine ⟨h.nodup, h'.nodup, fun w hw w' hw' heq => ?_⟩
    obtain ⟨e, he, hcr⟩ := List.mem_filterMap.mp hw
    obtain ⟨e', he', hcr'⟩ := List.mem_filterMap.mp hw'
    obtain ⟨q, hq, rfl⟩ := Cmd.creation_place hcr
    obtain ⟨q', hq', rfl⟩ := Cmd.creation_place hcr'
    obtain ⟨call, rest, rfl, hn⟩ := h.below e he q hq
    obtain ⟨call', rest', rfl, hn'⟩ := h'.below e' he' q' hq'
    simp only [List.map_append, List.map_cons, List.append_cancel_left_eq, List.cons.injEq] at heq
    exact hd _ _ hn hn' heq.1

variable {n : ℕ} {sp : Bool} {kind : CallKind} {slot : Slot} {req : PromiseCreateReq}

theorem create (h : Placed root (p ++ [⟨n, sp⟩]) L E)
    (hid : kind ≠ .detached → req.id = idOf root (p ++ [⟨n, sp⟩])) (a : Except Error PromiseRecord) :
    Placed root p (· = ⟨n, sp⟩) (⟨.create kind (p ++ [⟨n, sp⟩]) slot req, a⟩ :: E) := by
  refine ⟨fun e he q hq => ?_, fun e he q id hq => ?_, ?_⟩
  · rcases List.mem_cons.mp he with rfl | he
    · cases hq
      exact ⟨⟨n, sp⟩, [], rfl, rfl⟩
    · obtain ⟨call, rest, rfl, -⟩ := h.below e he q hq
      exact ⟨⟨n, sp⟩, call :: rest, by simp, rfl⟩
  · rcases List.mem_cons.mp he with rfl | he
    · cases kind <;> cases hq
      · exact hid (by decide)
      · exact hid (by decide)
    · exact h.named e he q id hq
  · simp only [List.filterMap_cons, Cmd.creation, List.nodup_cons]
    refine ⟨fun hw => ?_, h.nodup⟩
    obtain ⟨e, he, hcr⟩ := List.mem_filterMap.mp hw
    obtain ⟨q, hq, heq⟩ := Cmd.creation_place hcr
    obtain ⟨call, rest, rfl, -⟩ := h.below e he q hq
    simp at heq

theorem created (hid : kind ≠ .detached → req.id = idOf root (p ++ [⟨n, sp⟩]))
    (a : Except Error PromiseRecord) :
    Placed root p (· = ⟨n, sp⟩) [⟨.create kind (p ++ [⟨n, sp⟩]) slot req, a⟩] :=
  (nil (L := fun _ => True)).create hid a

theorem settle {id : String} (h : Placed root p (· = ⟨n, sp⟩) E) (hid : id = idOf root (p ++ [⟨n, sp⟩]))
    (result : Except Error (Except String Json)) (a : Except Error PromiseRecord) :
    Placed root p (· = ⟨n, sp⟩) (⟨.settle (p ++ [⟨n, sp⟩]) id result, a⟩ :: E) := by
  refine ⟨fun e he q hq => ?_, fun e he q id' hq => ?_, by simpa [Cmd.creation] using h.nodup⟩
  · rcases List.mem_cons.mp he with rfl | he
    · cases hq
      exact ⟨⟨n, sp⟩, [], rfl, rfl⟩
    · exact h.below e he q hq
  · rcases List.mem_cons.mp he with rfl | he
    · cases hq
      exact hid
    · exact h.named e he q id' hq

theorem settled {own : List Event} {ext : List Kid} {a a' : Except Error PromiseRecord}
    {result : Except Error (Except String Json)} (hid : req.id = idOf root (p ++ [⟨n, sp⟩]))
    (h : Placed root (p ++ [⟨n, sp⟩]) L (allEvents own ext)) :
    Placed root p (· = ⟨n, sp⟩) (allEvents (⟨.create kind (p ++ [⟨n, sp⟩]) slot req, a⟩ ::
      (own ++ [⟨.settle (p ++ [⟨n, sp⟩]) req.id result, a'⟩])) ext) :=
  ((h.create (fun _ => hid) a).settle hid result a').perm (allEvents_settle _ _ own ext).symm

end Placed

section Tree

def NoPanic (E : List Event) : Prop := ∀ e ∈ E, e.1.isPanic = false

theorem noPanic_append {E E' : List Event} : NoPanic (E ++ E') ↔ NoPanic E ∧ NoPanic E' := by
  simp [NoPanic, or_imp, forall_and]

theorem noPanic_cons {e : Event} {E : List Event} :
    NoPanic (e :: E) ↔ e.1.isPanic = false ∧ NoPanic E := by
  simp [NoPanic]

theorem NoPanic.perm {E E' : List Event} (h : NoPanic E) (hp : E.Perm E') : NoPanic E' :=
  fun e he => h e (hp.mem_iff.mpr he)

theorem NoPanic.settled {e f : Event} {own : List Event} {ext : List Kid}
    (h : NoPanic (allEvents (e :: (own ++ [f])) ext)) : NoPanic (allEvents own ext) :=
  (noPanic_cons.mp (noPanic_cons.mp (h.perm (allEvents_settle e f own ext))).2).2

def PlacedMotive (root : String) : RunsMotive := fun s _ c own ext _ _ =>
  c.id = idOf root c.position → AllEnded ext → NoPanic (allEvents own ext) →
    Placed root c.position (fun call => s.Left call.number) (allEvents own ext)

variable {root : String} {d : Discipline} {sdk : Sdk} {kind : DurableKind} {name : String}
  {c : Context} {n : ℕ} {sp : Bool} {ks : List Kid} {ty : Ty} {slot : Slot} {req : PromiseCreateReq}

theorem CallRuns.placed {record : PromiseRecord} {own : List Event} {ext : List Kid}
    {r : Except Error Json} {t : Except Error (List String)}
    (hid : req.id = idOf root (c.position ++ [⟨n, sp⟩])) (hp : NoPanic (allEvents own ext))
    (h : CallRuns d sdk (PlacedMotive root) kind name c ⟨n, sp⟩ req.id ks record own ext r t) :
    Placed root (c.position ++ [⟨n, sp⟩]) (fun _ => True) (allEvents own ext) := by
  have hended := h.allEnded
  obtain ⟨own', rfl, h⟩ := h
  have hp' := (noPanic_cons.mp hp).2
  refine Placed.cons ?_ rfl rfl rfl
  cases kind with
  | function =>
    obtain ⟨⟨huser, -⟩, rfl, -⟩ := h
    exact .users huser
  | workflow =>
    obtain ⟨c', ⟨-, hm⟩, -⟩ := h
    exact (hm hid hended hp').mono fun _ _ => trivial

theorem InlineRuns.placed {own : List Event} {ext : List Kid} {todos : List String}
    {result : Except Error Json} (hid : req.id = idOf root (c.position ++ [⟨n, sp⟩]))
    (hp : NoPanic (allEvents own ext))
    (h : InlineRuns sdk ty (c.position ++ [⟨n, sp⟩]) slot req
      (CallRuns d sdk (PlacedMotive root) kind name c ⟨n, sp⟩ req.id ks) own ext todos result) :
    Placed root c.position (· = ⟨n, sp⟩) (allEvents own ext) := by
  cases h with
  | failed e => exact Placed.created (fun _ => hid) _
  | recorded record result h => exact Placed.created (fun _ => hid) _
  | broken record own ext result e _ h =>
    exact (h.placed hid (noPanic_cons.mp hp).2).create (fun _ => hid) _
  | waiting record own ext result todos _ _ h =>
    exact (h.placed hid (noPanic_cons.mp hp).2).create (fun _ => hid) _
  | unsettled record own ext result e _ h | settled record own ext result e _ h =>
    exact (h.placed hid hp.settled).settled hid

theorem SpawnedRuns.placed {own : List Event} {ext : List Kid} {o : End}
    (hid : req.id = idOf root (c.position ++ [⟨n, sp⟩])) (hp : NoPanic (allEvents own ext))
    (h : SpawnedRuns sdk ty (c.position ++ [⟨n, sp⟩]) slot req
      (CallRuns d sdk (PlacedMotive root) kind name c ⟨n, sp⟩ req.id ks) own ext o) :
    Placed root c.position (· = ⟨n, sp⟩) (allEvents own ext) := by
  cases h with
  | failed e => exact Placed.created (fun _ => hid) _
  | recorded record result h => exact Placed.created (fun _ => hid) _
  | undecodable record e hs h => exact Placed.created (fun _ => hid) _
  | broken record own ext result e _ h =>
    exact (h.placed hid (noPanic_cons.mp hp).2).create (fun _ => hid) _
  | waiting record own ext result todos _ _ h =>
    exact (h.placed hid (noPanic_cons.mp hp).2).create (fun _ => hid) _
  | settled record own ext result answer _ _ h =>
    exact (h.placed hid hp.settled).settled hid
  | panicked record own ext msg _ hmsg =>
    exact absurd (hp _ (List.mem_append_left _ (List.mem_cons_of_mem _ hmsg))) (by simp [Cmd.isPanic])

theorem callId_idOf (sp : Bool) (hc : c.id = idOf root c.position) :
    c.callId n = idOf root (c.position ++ [⟨n, sp⟩]) := by
  rw [Context.callId, hc, idOf_append]

theorem RemoteRuns.placed {own : List Event} {todos : List String} {result : Except Error Json}
    (hid : req.id = idOf root (c.position ++ [⟨n, sp⟩]))
    (h : RemoteRuns sdk ty (c.position ++ [⟨n, sp⟩]) slot req own todos result) :
    Placed root c.position (· = ⟨n, sp⟩) own := by
  cases h <;> exact Placed.created (fun _ => hid) _

theorem Forked.placed {kid : Kid} {o : End} (hc : c.id = idOf root c.position)
    (ho : kid.result = some o) (hp : NoPanic kid.trace)
    (h : Forked d sdk (PlacedMotive root) c n req kid) :
      Placed root c.position (· = ⟨n, true⟩) kid.trace := by
  cases h with
  | run ty kind name hid hty h =>
    obtain ⟨own, ext, htrace, h⟩ := h
    rw [htrace] at hp ⊢
    exact (h o ho).placed (hid.trans (callId_idOf _ hc)) hp
  | remote ty hid h =>
    obtain ⟨own, ext, htrace, h⟩ := h
    rw [htrace]
    have hid' : req.id = idOf root (c.position ++ [⟨n, true⟩]) := hid.trans (callId_idOf _ hc)
    cases h o ho <;> exact Placed.created (fun _ => hid') _
  | detached h =>
    obtain ⟨own, ext, htrace, h⟩ := h
    rw [htrace]
    cases h o ho <;> exact Placed.created (fun h => absurd rfl h) _

theorem ScopedRuns.placed {s : Scope} {own : List Event} {ext : List Kid} {c' : Context}
    {r : Except Error Json} (h : ScopedRuns d sdk s ks c own ext c' r) :
    PlacedMotive root s ks c own ext c' r := by
  refine ScopedRuns.induction (motive := PlacedMotive root) ?ret ?quiet ?build ?skip ?run ?await ?fork
    ?join h
  case ret => exact fun s ks c r _ _ _ _ => Placed.nil
  case quiet =>
    intro s ks c e own ext c' r he ih hc hended hp
    have hq : e.1.place = none ∧ e.1.names = none ∧ e.1.creation = none := by
      obtain ⟨cmd, a⟩ := e
      cases cmd <;> first | exact ⟨rfl, rfl, rfl⟩ | exact he.elim
    exact (ih hc hended (noPanic_cons.mp hp).2).cons hq.1 hq.2.1 hq.2.2
  case build =>
    exact fun s ks c own ext c' r ih hc hended hp => (ih hc hended hp).mono fun _ => Scope.left_build.mp
  case skip =>
    exact fun s n ks c own ext c' r hn ih hc hended hp =>
      (ih hc hended hp).mono fun _ hm => ((Scope.left_use hn).mp hm).1
  case join => exact fun s h o ks c own ext c' r _ _ ih hc hended hp => ih hc hended hp
  case await =>
    intro s n ty req ks c own₁ todos result own ext c' r hn hid hrun _ ih hc hended hp
    rw [allEvents, List.append_assoc] at hp ⊢
    have hrest := ih hc hended (noPanic_append.mp hp).2
    refine ((hrun.placed (hid.trans (callId_idOf _ hc))).append hrest fun call call' hcall hleft
      heq => ?_).mono ?_
    · subst hcall
      exact ((Scope.left_use hn).mp hleft).2 heq.symm
    · rintro call (rfl | hm)
      · exact Or.inl hn
      · exact ((Scope.left_use hn).mp hm).1
  case run =>
    intro s n ty kind name req ks c own₁ ext₁ todos result own ext c' r hn hid hrun _ ih hc hended hp
    have hperm := allEvents_append own₁ own ext₁ ext
    obtain ⟨hp₁, hp₂⟩ := noPanic_append.mp (hp.perm hperm)
    have hrest := ih hc (allEnded_append.mp hended).2 hp₂
    refine (((hrun.placed (hid.trans (callId_idOf _ hc)) hp₁).append hrest
      fun call call' hcall hleft heq => ?_).perm hperm.symm).mono ?_
    · subst hcall
      exact ((Scope.left_use hn).mp hleft).2 heq.symm
    · rintro call (rfl | hm)
      · exact Or.inl hn
      · exact ((Scope.left_use hn).mp hm).1
  case fork =>
    intro s n req ks c kid own ext c' r hn hkid _ ih hc hended hp
    have hperm := allEvents_fork own kid ext
    obtain ⟨hp₁, hp₂⟩ := noPanic_append.mp (hp.perm hperm)
    obtain ⟨⟨o, ho⟩, hext⟩ := allEnded_cons.mp hended
    have hrest := ih hc hext hp₂
    refine (((hkid.placed hc ho hp₁).append hrest fun call call' hcall hleft heq => ?_).perm
      hperm.symm).mono ?_
    · subst hcall
      exact ((Scope.left_use hn).mp hleft).2 heq.symm
    · rintro call (rfl | hm)
      · exact Or.inl hn
      · exact ((Scope.left_use hn).mp hm).1

variable {motive : RunsMotive}

theorem CallRuns.toPlaced {call : Call} {id : String} {record : PromiseRecord} {own : List Event}
    {ext : List Kid} {r : Except Error Json} {t : Except Error (List String)}
    (h : CallRuns d sdk motive kind name c call id ks record own ext r t) :
    CallRuns d sdk (PlacedMotive root) kind name c call id ks record own ext r t :=
  h.mono (fun _ _ hL => hL) fun _ _ _ _ hr => ⟨hr.1, hr.1.placed⟩

theorem Forked.toPlaced {kid : Kid} (h : Forked d sdk motive c n req kid) :
    Forked d sdk (PlacedMotive root) c n req kid := by
  cases h with
  | run ty kind name hid hty h =>
    obtain ⟨own, ext, htrace, h⟩ := h
    exact .run ty kind name hid hty ⟨own, ext, htrace, fun o ho =>
      (h o ho).mono fun _ _ _ _ _ hX => hX.toPlaced⟩
  | remote ty hid h => exact .remote ty hid h
  | detached h => exact .detached h

theorem ScopedRuns.placed_of_ends {s : Scope} {own : List Event} {ext : List Kid} {c' : Context}
    {r : Except Error Json} {hs : List (String × ℕ)} {ends : List End}
    (h : ScopedRuns d sdk s ks c own ext c' r) (hc : c.id = idOf root c.position)
    (hhs : c'.spawnedHandles = c.spawnedHandles ++ hs) (hends : Ends (ks ++ ext) hs ends)
    (hp : NoPanic (allEvents own ext)) :
    Placed root c.position (fun call => s.Left call.number) (allEvents own ext) := by
  obtain ⟨hs', hhs', hended⟩ := h.handles
  obtain rfl : hs' = hs := List.append_cancel_left (hhs'.symm.trans hhs)
  exact h.placed hc (hended ends hends) hp

end Tree

end Resonate
