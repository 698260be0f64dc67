import Resonate.Network.Deadlines

/-!
# The messages of a step

What a step of the server sends, from the first message on: the unblock messages are
those of the promises that have left pending, one for each subscriber, and a task that
has become pending has its execute message. Both accounts are kept move by move.
-/

namespace Resonate.Network
open Lib

def Move.Quiet : Move → Prop
  | plain act => act.Quiet
  | _ => True

def Move.settles : Move → List String
  | settle id _ _ => [id]
  | expire ids => ids
  | _ => []

def noticesBetween (s s' : ServerState) (a : String) : List OutgoingMessage :=
  match s.promises.lookup a, s'.promises.lookup a with
  | some p, some q => p.subscribers.map fun address =>
    ⟨address, ServerState.unblockMessage q.toRecord⟩
  | _, _ => []

section Moves

variable {now : Int} {s s₁ s₂ : ServerState} {a : String} {m : Move} {p q : DurablePromise}

theorem DurablePromise.Kept.toRecord (h : p.Kept q) (hp : p.state ≠ .pending) :
    q.toRecord = p.toRecord := by
  obtain ⟨hs, hv, ht⟩ := h.outcome hp
  simp only [DurablePromise.toRecord, h.id, h.param, h.tags, h.timeoutAt, h.createdAt, hs, hv, ht]

theorem mem_noticesBetween {s' : ServerState} {msg : OutgoingMessage} :
    msg ∈ noticesBetween s s' a ↔ ∃ p q address, s.promises.lookup a = some p ∧
      s'.promises.lookup a = some q ∧ address ∈ p.subscribers ∧
        msg = ⟨address, ServerState.unblockMessage q.toRecord⟩ := by
  unfold noticesBetween
  cases s.promises.lookup a with
  | none => simp
  | some p =>
    cases s'.promises.lookup a with
    | none => simp
    | some q => simp [eq_comm]

theorem Move.subscribers (hc : Coherent s₁) (hm : m.Step now s₁ s₂) (hquiet : m.Quiet)
    (hp : s₁.promises.lookup a = some p) (hq : s₂.promises.lookup a = some q) :
    q.subscribers = p.subscribers ∨ q.state ≠ .pending ∧ q.subscribers = [] := by
  cases m with
  | plain act =>
    obtain ⟨hplain, hg, rfl⟩ := hm
    rw [ServerState.perform_promises] at hq
    left
    have hnew : ∀ b, s₁.promises.lookup b = none → a ≠ b := by
      intro b hb hab
      rw [hab, hb] at hp
      cases hp
    cases act with
    | expire id | tickExpire id | settle id state value | enqueue id | wake id | addExpired id req =>
      exact hplain.elim
    | subscribe id address => exact hquiet.elim
    | register id awaited =>
      simp only [ServerState.promiseAfter, hp, Option.map_some, Option.some.injEq] at hq
      rw [← hq]
      split_ifs <;> rfl
    | addPending id req | addFulfilled id req | addAcquired id req pid ttl =>
      simp only [ServerState.promiseAfter, if_neg (hnew id hg.2.1), hp] at hq
      rw [Option.some.inj hq]
    | _ =>
      simp only [ServerState.promiseAfter, hp] at hq
      rw [Option.some.inj hq]
  | settle id state value =>
    obtain ⟨hpend, -, hst, rfl⟩ := hm
    rw [(hc.settles_at now hst value hpend).promise a, hp, Option.map_some] at hq
    obtain rfl := Option.some.inj hq
    split_ifs
    · exact Or.inr ⟨hst, rfl⟩
    · exact Or.inl rfl
  | expire ids =>
    obtain ⟨-, -, hs⟩ := hm
    rw [hs.promise a, hp, Option.map_some] at hq
    obtain rfl := Option.some.inj hq
    split_ifs
    · exact Or.inr ⟨ServerState.timeoutState_ne_pending _, rfl⟩
    · exact Or.inl rfl
  | expireNew id req =>
    obtain ⟨-, hn, -, hs⟩ := hm
    have hne : a ≠ id := by
      intro h
      rw [h, hn] at hp
      cases hp
    rw [(hc.expireNew hn hs).1 a, if_neg hne, hp] at hq
    exact Or.inl (by rw [Option.some.inj hq])

theorem Move.isPending (hc : Coherent s₁) (hm : m.Step now s₁ s₂) :
    (∀ d ∈ m.settles, s₁.isPending d = true) ∧ m.settles.Nodup ∧
      ∀ a, s₁.isPending a = true → s₂.isPending a = decide (a ∉ m.settles) := by
  have hsettles : ∀ {f : DurablePromise → DurablePromise} {l : List String}, Outcome f →
      Settles now f l s₁ s₂ → ∀ a, s₁.isPending a = true → s₂.isPending a = decide (a ∉ l) := by
    intro f l hf hs a ha
    obtain ⟨p, hp, hst⟩ := ServerState.isPending_iff.mp ha
    rw [ServerState.isPending, hs.promise a, hp]
    by_cases hal : a ∈ l
    · simp [hal, hf.state p]
    · simp [hal, hst]
  have hkeep : (∀ ids, m ≠ .expire ids) → (∀ id state value, m ≠ .settle id state value) →
      ∀ a, s₁.isPending a = true → s₂.isPending a = true := by
    intro hx hset a ha
    obtain ⟨p, hp, hst⟩ := ServerState.isPending_iff.mp ha
    obtain ⟨q, hq, -, hcase⟩ := m.promise_of_some hc hm hp
    rcases hcase with hs | ⟨-, -, ids, h, -⟩ | ⟨-, -, state, value, h, -⟩
    · exact ServerState.isPending_iff.mpr ⟨q, hq, hs.trans hst⟩
    · exact absurd h (hx ids)
    · exact absurd h (hset a state value)
  cases m with
  | plain act =>
    exact ⟨by simp [settles], List.nodup_nil, fun a ha => by
      simp [settles, hkeep (by simp) (by simp) a ha]⟩
  | settle id state value =>
    obtain ⟨hpend, -, hst, rfl⟩ := hm
    exact ⟨by simpa [settles] using hpend, List.nodup_singleton id,
      hsettles (Outcome.settle hst value now) (hc.settles_at now hst value hpend)⟩
  | expire ids =>
    obtain ⟨hn, hd, hs⟩ := hm
    exact ⟨fun d hdl => isPending_of_isDue (hd d hdl), hn, hsettles .expire hs⟩
  | expireNew id req =>
    exact ⟨by simp [settles], List.nodup_nil, fun a ha => by
      simp [settles, hkeep (by simp) (by simp) a ha]⟩

theorem Move.unblocks (hc : Coherent s₁) (hm : m.Step now s₁ s₂) (hquiet : m.Quiet) :
    s₂.unblocks = s₁.unblocks ++ m.settles.flatMap (noticesBetween s₁ s₂) := by
  have hsettles : ∀ {f : DurablePromise → DurablePromise} {l : List String}, Outcome f →
      Settles now f l s₁ s₂ →
        s₂.unblocks = s₁.unblocks ++ l.flatMap (noticesBetween s₁ s₂) := by
    intro f l hf hs
    rw [hs.unblocks]
    congr 1
    refine List.flatMap_congr fun d hd => ?_
    rw [noticesBetween, hs.promise d]
    cases s₁.promises.lookup d with
    | none => rfl
    | some p =>
      simp only [Option.elim_some, Option.map_some, if_pos hd]
      rw [DurablePromise.notices, hf.subscribers]
      rfl
  cases m with
  | plain act =>
    obtain ⟨hplain, -, rfl⟩ := hm
    rw [ServerState.perform_unblocks]
    cases act with
    | expire id | tickExpire id | settle id state value | enqueue id | wake id | addExpired id req =>
      exact hplain.elim
    | clearOutgoing => exact hquiet.elim
    | _ => simp [ServerState.unblocksAfter, settles]
  | settle id state value =>
    obtain ⟨hpend, -, hst, rfl⟩ := hm
    exact hsettles (Outcome.settle hst value now) (hc.settles_at now hst value hpend)
  | expire ids => exact hsettles .expire hm.2.2
  | expireNew id req =>
    obtain ⟨-, hn, -, hs⟩ := hm
    obtain ⟨-, -, -, -, hu, -⟩ := hc.expireNew hn hs
    simp [hu, settles]

end Moves

/-- What has been told since `s₀`: the promises of `l` have left pending, and their
subscribers have their messages. -/
structure Told (s₀ s : ServerState) (l : List String) : Prop where
  kept : ∀ a p, s₀.promises.lookup a = some p → ∃ q, s.promises.lookup a = some q ∧ p.Kept q ∧
    (q.state = .pending → q.subscribers = p.subscribers)
  fresh : ∀ a q, s₀.promises.lookup a = none → s.promises.lookup a = some q → q.subscribers = []
  nodup : l.Nodup
  mem : ∀ a, a ∈ l ↔ s₀.isPending a = true ∧ s.isPending a = false
  unblocks : s.unblocks = l.flatMap (noticesBetween s₀ s)

section Told

variable {now : Int} {s₀ s₁ s₂ : ServerState} {l : List String} {m : Move}

theorem Told.start (s : ServerState) (h : s.outgoing = []) : Told s s [] where
  kept _ p hp := ⟨p, hp, .refl p, fun _ => rfl⟩
  fresh a q hn hq := by simp [hn] at hq
  nodup := List.nodup_nil
  mem a := by simp
  unblocks := by simp [ServerState.unblocks, h]

theorem flatMap_filter_of_nil {α β : Type} {f : α → List β} {P : α → Bool} {l : List α}
    (h : ∀ x ∈ l, P x = false → f x = []) : l.flatMap f = (l.filter P).flatMap f := by
  induction l with
  | nil => rfl
  | cons x xs ih =>
    rw [List.flatMap_cons, List.filter_cons, ih fun y hy => h y (by simp [hy])]
    split_ifs with hx
    · rw [List.flatMap_cons]
    · rw [h x (by simp) (by simpa using hx), List.nil_append]

theorem Told.step (h : Told s₀ s₁ l) (hc : Coherent s₁) (hm : m.Step now s₁ s₂)
    (hquiet : m.Quiet) : Told s₀ s₂ (l ++ m.settles.filter s₀.isPending) := by
  obtain ⟨hpend, hnodup, hstay⟩ := m.isPending hc hm
  have hsettled : ∀ a, s₀.isPending a = true → s₁.isPending a = false → s₂.isPending a = false := by
    intro a h₀ h₁
    obtain ⟨p, hp, -⟩ := ServerState.isPending_iff.mp h₀
    obtain ⟨q, hq, hk, -⟩ := h.kept a p hp
    have hqs : q.state ≠ .pending := by
      intro hqs
      rw [ServerState.isPending_iff.mpr ⟨q, hq, hqs⟩] at h₁
      cases h₁
    obtain ⟨r, hr, hk', -⟩ := m.promise_of_some hc hm hq
    simp [ServerState.isPending, hr, (hk'.outcome hqs).1, hqs]
  constructor
  · intro a p hp
    obtain ⟨q, hq, hk, hsub⟩ := h.kept a p hp
    obtain ⟨r, hr, hk', -⟩ := m.promise_of_some hc hm hq
    refine ⟨r, hr, hk.trans hk', fun hrs => ?_⟩
    have hqs : q.state = .pending := by
      by_contra hqs
      exact hqs ((hk'.outcome hqs).1.symm.trans hrs)
    rcases m.subscribers hc hm hquiet hq hr with hsame | ⟨hne, -⟩
    · exact hsame.trans (hsub hqs)
    · exact absurd hrs hne
  · intro a r hn hr
    cases hq : s₁.promises.lookup a with
    | none =>
      rcases m.promise_of_none hc hm hq hr with ⟨_, _, _, _, rfl, _⟩ | ⟨_, _, rfl, _⟩ <;> rfl
    | some q =>
      rcases m.subscribers hc hm hquiet hq hr with hsame | ⟨-, hnil⟩
      · exact hsame.trans (h.fresh a q hn hq)
      · exact hnil
  · refine List.nodup_append.mpr ⟨h.nodup, hnodup.filter _, ?_⟩
    intro a ha b hb hab
    subst hab
    have h₁ := hpend a (List.mem_filter.mp hb).1
    rw [((h.mem a).mp ha).2] at h₁
    cases h₁
  · intro a
    rw [List.mem_append, List.mem_filter, h.mem]
    cases h₁ : s₁.isPending a with
    | true =>
      have h₂ := hstay a h₁
      by_cases ha : a ∈ m.settles <;> simp [h₂, ha]
    | false =>
      have ha : a ∉ m.settles := by
        intro ha
        rw [hpend a ha] at h₁
        cases h₁
      simp only [ha, false_and, or_false, and_true]
      exact ⟨fun h₀ => ⟨h₀, hsettled a h₀ h₁⟩, fun h₀ => h₀.1⟩
  · rw [m.unblocks hc hm hquiet, h.unblocks, List.flatMap_append]
    congr 1
    · refine List.flatMap_congr fun d hd => ?_
      obtain ⟨h₀, h₁⟩ := (h.mem d).mp hd
      obtain ⟨p, hp, -⟩ := ServerState.isPending_iff.mp h₀
      obtain ⟨q, hq, -⟩ := h.kept d p hp
      have hqs : q.state ≠ .pending := by
        intro hqs
        rw [ServerState.isPending_iff.mpr ⟨q, hq, hqs⟩] at h₁
        cases h₁
      obtain ⟨r, hr, hk, -⟩ := m.promise_of_some hc hm hq
      simp only [noticesBetween, hp, hq, hr, hk.toRecord hqs]
    · have hnil : ∀ d ∈ m.settles, s₀.isPending d = false → noticesBetween s₁ s₂ d = [] := by
        intro d hd h₀
        obtain ⟨q, hq, hqs⟩ := ServerState.isPending_iff.mp (hpend d hd)
        have hn : s₀.promises.lookup d = none := by
          cases hp : s₀.promises.lookup d with
          | none => rfl
          | some p =>
            obtain ⟨q', hq', hk, -⟩ := h.kept d p hp
            obtain rfl := Option.some.inj (hq.symm.trans hq')
            have hps : p.state = .pending := by
              by_contra hps
              exact hps ((hk.outcome hps).1.symm.trans hqs)
            rw [ServerState.isPending_iff.mpr ⟨p, hp, hps⟩] at h₀
            cases h₀
        rw [noticesBetween, hq]
        cases s₂.promises.lookup d with
        | none => rfl
        | some r => simp [h.fresh d q hn hq]
      rw [flatMap_filter_of_nil hnil]
      refine List.flatMap_congr fun d hd => ?_
      obtain ⟨hd, h₀⟩ := List.mem_filter.mp hd
      obtain ⟨p, hp, -⟩ := ServerState.isPending_iff.mp h₀
      obtain ⟨q, hq, -, hsub⟩ := h.kept d p hp
      obtain ⟨q', hq', hqs⟩ := ServerState.isPending_iff.mp (hpend d hd)
      obtain rfl := Option.some.inj (hq.symm.trans hq')
      rw [noticesBetween, noticesBetween, hp, hq]
      cases s₂.promises.lookup d with
      | none => rfl
      | some r => simp only [hsub hqs]

end Told

/-- The task has been created with a delay that is still ahead. -/
def CreatedDelayed (now : Int) (s₀ s : ServerState) (a : String) : Prop :=
  s₀.tasks.lookup a = none ∧
    ∃ p, s.promises.lookup a = some p ∧ (delayOf p.tags now).isSome = true

/-- What has been sent since `s₀` to the worker of a task that has become pending. -/
structure Sent (now : Int) (s₀ s : ServerState) : Prop where
  task : ∀ a, s.tasks.lookup a = none → s₀.tasks.lookup a = none
  absent : ∀ a, s.promises.lookup a = none → s.executes a = []
  single : ∀ a t, s.tasks.lookup a = some t → t.state ≠ .fulfilled → (s.executes a).length ≤ 1
  pending : ∀ a t address, s.tasks.lookup a = some t → t.state = .pending →
    ¬ s₀.taskIs a .pending → s.targetOf a = some address →
      s.executes a = [⟨address, ServerState.executeMessage a t.version⟩] ∨
        s.executes a = [] ∧ CreatedDelayed now s₀ s a

section Sent

variable {now : Int} {s₀ s₁ s₂ : ServerState} {m : Move} {a : String} {t u : Task}

theorem Move.executes_absent (hc : Coherent s₁) (hm : m.Step now s₁ s₂) (hquiet : m.Quiet)
    (hn : s₁.promises.lookup a = none) (hn₂ : s₂.promises.lookup a = none) :
    s₂.executes a = s₁.executes a := by
  have ht := (hc.absent hn).1
  have hsettles : ∀ {f : DurablePromise → DurablePromise} {l : List String},
      (∀ d ∈ l, s₁.isPending d = true) → Settles now f l s₁ s₂ → s₂.executes a = s₁.executes a := by
    intro f l hl hs
    have ha : a ∉ l := by
      intro ha
      obtain ⟨p, hp, -⟩ := ServerState.isPending_iff.mp (hl a ha)
      simp [hn] at hp
    rw [hs.executes a ha]
    simp [ServerState.resumeMessage, ht]
  cases m with
  | plain act =>
    obtain ⟨hplain, hg, rfl⟩ := hm
    rw [ServerState.perform_promises] at hn₂
    rw [ServerState.perform_executes]
    cases act with
    | expire id | tickExpire id | settle id state value | enqueue id | wake id | addExpired id req =>
      exact hplain.elim
    | clearOutgoing => exact hquiet.elim
    | addPending id req =>
      simp only [ServerState.promiseAfter] at hn₂
      split_ifs at hn₂ with ha
      simp [ServerState.executesAfter, ha]
    | release id u | retry id u =>
      have hne : a ≠ id := by
        intro ha
        have hu : s₁.tasks.lookup id = some u := hg.1
        rw [← ha, ht] at hu
        cases hu
      simp [ServerState.executesAfter, hne]
    | _ => rfl
  | settle id state value =>
    obtain ⟨hpend, -, hst, rfl⟩ := hm
    exact hsettles (by simpa using hpend) (hc.settles_at now hst value hpend)
  | expire ids =>
    obtain ⟨-, hd, hs⟩ := hm
    exact hsettles (fun d hdl => isPending_of_isDue (hd d hdl)) hs
  | expireNew id req =>
    obtain ⟨-, hn', -, hs⟩ := hm
    exact (hc.expireNew hn' hs).2.2.2.2.2 a

theorem Settles.executes_task {f : DurablePromise → DurablePromise} {l : List String}
    (hs : Settles now f l s₁ s₂) (ht : s₂.tasks.lookup a = some t) (hf : t.state ≠ .fulfilled) :
    ∃ u, s₁.tasks.lookup a = some u ∧ u.state ≠ .fulfilled ∧
      (s₂.executes a = s₁.executes a ∧ (t.state = .pending → u.state = .pending ∧
        u.version = t.version) ∨
        s₂.executes a = replaceHead (s₁.executeFor a t.version) (s₁.executes a)) := by
  by_cases ha : a ∈ l
  · obtain ⟨v, hv⟩ := hs.own a ha
    rw [ht] at hv
    obtain ⟨u, -, rfl⟩ := Option.map_eq_some_iff.mp hv.symm
    exact absurd rfl hf
  · have hv := hs.other a ha
    rw [ht] at hv
    obtain ⟨u, hu, hres⟩ := Option.map_eq_some_iff.mp hv.symm
    change resumedBy (s₁.awaitedIn l a) u = t at hres
    have huf : u.state ≠ .fulfilled := by
      intro huf
      rw [resumedBy_fulfilled huf] at hres
      exact hf (hres ▸ huf)
    refine ⟨u, hu, huf, ?_⟩
    rw [hs.executes a ha]
    by_cases hus : u.state = .suspended
    · by_cases he : s₁.awaitedIn l a = []
      · rw [he] at hres
        refine Or.inl ⟨if_pos he, fun htp => ?_⟩
        rw [← hres] at htp
        exact ⟨htp, congrArg Task.version hres⟩
      · obtain ⟨-, hver, -⟩ := resumedBy_suspended hus he
        rw [hres] at hver
        right
        rw [if_neg he]
        simp [ServerState.resumeMessage, hu, hus, Option.filter_some, hver]
    · obtain ⟨hst, hver, -⟩ := resumedBy_of_ne_suspended (s₁.awaitedIn l a) hus
      rw [hres] at hst hver
      refine Or.inl ⟨?_, fun htp => ⟨hst.symm.trans htp, hver.symm⟩⟩
      simp [ServerState.resumeMessage, hu, hus, Option.filter_some]

theorem Move.executes_task (hc : Coherent s₁) (hm : m.Step now s₁ s₂) (hquiet : m.Quiet)
    (ht : s₂.tasks.lookup a = some t) (hf : t.state ≠ .fulfilled) :
    (∃ u, s₁.tasks.lookup a = some u ∧ u.state ≠ .fulfilled ∧
      (s₂.executes a = s₁.executes a ∧
          (t.state = .pending → u.state = .pending ∧ u.version = t.version) ∨
        s₂.executes a = replaceHead (s₁.executeFor a t.version) (s₁.executes a))) ∨
      s₁.promises.lookup a = none ∧ s₁.tasks.lookup a = none ∧
        (t.state ≠ .pending ∧ s₂.executes a = s₁.executes a ∨
          t.version = 0 ∧ ∃ r, s₂.promises.lookup a = some (pendingPromise a r now) ∧
            s₂.executes a = if delayOf (extractTags r) now = none then
                replaceHead (((extractTags r).lookup "resonate:target").map fun address =>
                  ⟨address, ServerState.executeMessage a 0⟩) (s₁.executes a)
              else s₁.executes a) := by
  cases m with
  | plain act =>
    obtain ⟨hplain, hg, rfl⟩ := hm
    rw [ServerState.perform_tasks] at ht
    rw [ServerState.perform_executes, ServerState.perform_promises]
    have hsame : ∀ {u : Task}, s₁.tasks.lookup a = some u → u = t →
        ∃ u, s₁.tasks.lookup a = some u ∧ u.state ≠ .fulfilled ∧
          (s₁.executes a = s₁.executes a ∧
              (t.state = .pending → u.state = .pending ∧ u.version = t.version) ∨
            s₁.executes a = replaceHead (s₁.executeFor a t.version) (s₁.executes a)) := by
      intro u hu hut
      subst hut
      exact ⟨u, hu, hf, Or.inl ⟨rfl, fun h => ⟨h, rfl⟩⟩⟩
    cases act with
    | expire id | tickExpire id | settle id state value | enqueue id | wake id | addExpired id req =>
      exact hplain.elim
    | clearOutgoing => exact hquiet.elim
    | addPending id req =>
      by_cases ha : a = id
      · subst ha
        obtain ⟨hno, -, -⟩ := hc.absent hg.2.1
        refine Or.inr ⟨hg.2.1, hno, ?_⟩
        simp only [ServerState.taskAfter, true_and, hno] at ht
        split_ifs at ht with htarget
        obtain rfl := Option.some.inj ht
        refine Or.inr ⟨rfl, req, by simp [ServerState.promiseAfter], ?_⟩
        simp [ServerState.executesAfter]
      · simp only [ServerState.taskAfter, ha, false_and, if_false] at ht
        rw [ServerState.executesAfter, if_neg fun h => ha h.1]
        exact Or.inl (hsame ht rfl)
    | addFulfilled id req =>
      simp only [ServerState.taskAfter] at ht
      split_ifs at ht with ha
      · obtain rfl := Option.some.inj ht
        exact absurd rfl hf
      · exact Or.inl (hsame ht rfl)
    | addAcquired id req pid ttl =>
      by_cases ha : a = id
      · subst ha
        obtain ⟨hno, -, -⟩ := hc.absent hg.2.1
        simp only [ServerState.taskAfter, if_true, Option.some.injEq] at ht
        subst ht
        exact Or.inr ⟨hg.2.1, hno, Or.inl ⟨by simp, rfl⟩⟩
      · simp only [ServerState.taskAfter, ha, if_false] at ht
        exact Or.inl (hsame ht rfl)
    | grant id pid ttl =>
      simp only [ServerState.taskAfter] at ht
      split_ifs at ht with ha
      · obtain ⟨u, hu, rfl⟩ := Option.map_eq_some_iff.mp ht
        obtain ⟨u', hu', hst⟩ := hg
        rw [← ha, hu] at hu'
        obtain rfl := Option.some.inj hu'
        exact Or.inl ⟨u, hu, by simp [hst], Or.inl ⟨rfl, by simp [acquireTask]⟩⟩
      · exact Or.inl (hsame ht rfl)
    | release id u =>
      simp only [ServerState.taskAfter] at ht
      rw [ServerState.executesAfter]
      split_ifs at ht with ha
      · obtain ⟨u', hu', rfl⟩ := Option.map_eq_some_iff.mp ht
        rw [ha, hg.1] at hu'
        obtain rfl := Option.some.inj hu'
        refine Or.inl ⟨u, ha ▸ hg.1, by simp [hg.2], Or.inr ?_⟩
        rw [if_pos ha, ha]
        rfl
      · rw [if_neg ha]
        exact Or.inl (hsame ht rfl)
    | clearResumes id =>
      simp only [ServerState.taskAfter] at ht
      split_ifs at ht with ha
      · obtain ⟨u, hu, rfl⟩ := Option.map_eq_some_iff.mp ht
        exact Or.inl ⟨u, hu, hf, Or.inl ⟨rfl, fun h => ⟨h, rfl⟩⟩⟩
      · exact Or.inl (hsame ht rfl)
    | suspend id =>
      simp only [ServerState.taskAfter] at ht
      split_ifs at ht with ha
      · obtain ⟨u, hu, rfl⟩ := Option.map_eq_some_iff.mp ht
        obtain ⟨u', hu', hst⟩ := hg
        rw [← ha, hu] at hu'
        obtain rfl := Option.some.inj hu'
        exact Or.inl ⟨u, hu, by simp [hst], Or.inl ⟨rfl, by simp [suspendTask]⟩⟩
      · exact Or.inl (hsame ht rfl)
    | retry id u =>
      have ht' : s₁.tasks.lookup a = some t := ht
      rw [ServerState.executesAfter]
      split_ifs with ha
      · have hu : u = t := by
          rw [ha, hg.1] at ht'
          exact Option.some.inj ht'
        refine Or.inl ⟨t, ht', hf, Or.inr ?_⟩
        rw [hu, ha]
      · exact Or.inl (hsame ht' rfl)
    | _ => exact Or.inl (hsame ht rfl)
  | settle id state value =>
    obtain ⟨hpend, -, hst, rfl⟩ := hm
    exact Or.inl ((hc.settles_at now hst value hpend).executes_task ht hf)
  | expire ids => exact Or.inl (hm.2.2.executes_task ht hf)
  | expireNew id req =>
    obtain ⟨-, hn, -, hs⟩ := hm
    obtain ⟨-, htasks, -, -, -, hx⟩ := hc.expireNew hn hs
    rw [htasks a] at ht
    split_ifs at ht
    · obtain rfl := Option.some.inj ht
      exact absurd rfl hf
    · exact Or.inl ⟨t, ht, hf, Or.inl ⟨hx a, fun h => ⟨h, rfl⟩⟩⟩

theorem Move.task_kept (hc : Coherent s₁) (hm : m.Step now s₁ s₂) (ht : s₁.tasks.lookup a = some u) :
    ∃ t, s₂.tasks.lookup a = some t := by
  have hsettles : ∀ {f : DurablePromise → DurablePromise} {l : List String},
      Settles now f l s₁ s₂ → ∃ t, s₂.tasks.lookup a = some t := by
    intro f l hs
    by_cases ha : a ∈ l
    · obtain ⟨v, hv⟩ := hs.own a ha
      exact ⟨_, by rw [hv, ht]; rfl⟩
    · exact ⟨_, by rw [hs.other a ha, ht]; rfl⟩
  cases m with
  | plain act =>
    obtain ⟨hplain, -, rfl⟩ := hm
    rw [ServerState.perform_tasks]
    cases act with
    | expire id | tickExpire id | settle id state value | enqueue id | wake id | addExpired id req =>
      exact hplain.elim
    | addPending id req | addFulfilled id req | addAcquired id req pid ttl =>
      simp only [ServerState.taskAfter, ht]
      split_ifs <;> exact ⟨_, rfl⟩
    | grant id pid ttl | release id u | clearResumes id | suspend id =>
      simp only [ServerState.taskAfter, ht, Option.map_some]
      split_ifs <;> exact ⟨_, rfl⟩
    | _ => exact ⟨u, ht⟩
  | settle id state value =>
    obtain ⟨hpend, -, hst, rfl⟩ := hm
    exact hsettles (hc.settles_at now hst value hpend)
  | expire ids => exact hsettles hm.2.2
  | expireNew id req =>
    obtain ⟨-, hn, -, hs⟩ := hm
    rw [(hc.expireNew hn hs).2.1 a]
    split_ifs
    · exact ⟨_, rfl⟩
    · exact ⟨u, ht⟩

theorem Sent.start (s : ServerState) (h : s.outgoing = []) : Sent now s s where
  task _ ht := ht
  absent a _ := by simp [ServerState.executes, h]
  single a t _ _ := by simp [ServerState.executes, h]
  pending a t _ ht hst hno _ := absurd ⟨t, ht, hst⟩ hno

theorem Sent.step (h : Sent now s₀ s₁) (hc : Coherent s₁) (hm : m.Step now s₁ s₂)
    (hquiet : m.Quiet) : Sent now s₀ s₂ := by
  have htarget : ∀ a address p, s₁.promises.lookup a = some p → s₂.targetOf a = some address →
      s₁.targetOf a = some address := by
    intro a address p hp ha
    obtain ⟨q, hq, hk, -⟩ := m.promise_of_some hc hm hp
    rw [ServerState.targetOf, hq, Option.bind_some, hk.tags] at ha
    rw [ServerState.targetOf, hp, Option.bind_some, ha]
  have hone : ∀ a t address, (s₁.executes a).length ≤ 1 → s₁.targetOf a = some address →
      s₂.executes a = replaceHead (s₁.executeFor a (Task.version t)) (s₁.executes a) →
        s₂.executes a = [⟨address, ServerState.executeMessage a t.version⟩] := by
    intro a t address hlen ha hx
    rw [hx, ServerState.executeFor, ha, Option.map_some, replaceHead_some]
    have hnil : (s₁.executes a).tail = [] := by
      rw [← List.length_eq_zero_iff, List.length_tail]
      omega
    rw [hnil]
  constructor
  · intro a hn
    refine h.task a ?_
    cases ht : s₁.tasks.lookup a with
    | none => rfl
    | some u =>
      obtain ⟨t, ht'⟩ := m.task_kept hc hm ht
      simp [hn] at ht'
  · intro a hn
    have hn₁ : s₁.promises.lookup a = none := by
      cases hp : s₁.promises.lookup a with
      | none => rfl
      | some p =>
        obtain ⟨q, hq, -⟩ := m.promise_of_some hc hm hp
        simp [hn] at hq
    rw [m.executes_absent hc hm hquiet hn₁ hn]
    exact h.absent a hn₁
  · intro a t ht hf
    rcases m.executes_task hc hm hquiet ht hf with ⟨u, hu, huf, hx⟩ | ⟨hn, -, hx⟩
    · have hlen := h.single a u hu huf
      rcases hx with ⟨hx, -⟩ | hx
      · rwa [hx]
      · rw [hx]
        cases s₁.executeFor a t.version with
        | none => exact hlen
        | some msg =>
          rw [replaceHead_some, List.length_cons, List.length_tail]
          omega
    · have hnil := h.absent a hn
      rcases hx with ⟨-, hx⟩ | ⟨-, r, -, hx⟩
      · simp [hx, hnil]
      · rw [hx, hnil]
        cases (extractTags r).lookup "resonate:target" <;> split_ifs <;> simp
  · intro a t address ht hst hno ha
    rcases m.executes_task hc hm hquiet ht (by simp [hst]) with ⟨u, hu, huf, hx⟩ | ⟨hn, hnt, hx⟩
    · obtain ⟨p, hp⟩ := (hc.cell a).task_promise u hu
      have ha₁ := htarget a address p hp ha
      rcases hx with ⟨hx, hsame⟩ | hx
      · obtain ⟨hus, hver⟩ := hsame hst
        rw [hx, ← hver]
        refine (h.pending a u address hu hus hno ha₁).imp id fun hd => ?_
        obtain ⟨hnil, h₀, q, hq, hdelay⟩ := hd
        obtain ⟨r, hr, hk, -⟩ := m.promise_of_some hc hm hq
        exact ⟨hnil, h₀, r, hr, by rwa [hk.tags]⟩
      · exact Or.inl (hone a t address (h.single a u hu huf) ha₁ hx)
    · have hnil := h.absent a hn
      rcases hx with ⟨hne, -⟩ | ⟨hver, r, hr, hx⟩
      · exact absurd hst hne
      · have hr' : (extractTags r).lookup "resonate:target" = some address := by
          rw [ServerState.targetOf, hr, Option.bind_some] at ha
          exact ha
        rw [hx, hnil, hr', hver]
        split_ifs with hdelay
        · exact Or.inl rfl
        · exact Or.inr ⟨rfl, h.task a hnt, _, hr, Option.isSome_iff_ne_none.mpr hdelay⟩

end Sent

/-- The messages after a step are those of the promises that left pending, one for each
of their subscribers, and those of the tasks that became pending. -/
structure MessagesExact (now : Int) (s s' : ServerState) : Prop where
  nodup : (s'.outgoing.filter isUnblock).Nodup
  unblock : ∀ msg, msg ∈ s'.outgoing.filter isUnblock ↔ ∃ a p q address,
    s.promises.lookup a = some p ∧ p.state = .pending ∧ s'.promises.lookup a = some q ∧
      q.state ≠ .pending ∧ address ∈ p.subscribers ∧
        msg = ⟨address, ServerState.unblockMessage q.toRecord⟩
  execute : ∀ a t address, s'.tasks.lookup a = some t → t.state = .pending →
    ¬ s.taskIs a .pending → s'.targetOf a = some address → ¬ CreatedDelayed now s s' a →
      s'.outgoing.filter (ServerState.isExecuteFor a) =
        [⟨address, ServerState.executeMessage a t.version⟩]

section Exact

variable {now : Int} {s s' : ServerState} {l : List String}

theorem unblockMessage_id {p q : DurablePromise}
    (h : ServerState.unblockMessage p.toRecord = ServerState.unblockMessage q.toRecord) :
    p.id = q.id := by
  simp [ServerState.unblockMessage, DurablePromise.toRecord] at h
  exact h.1

/-- The two accounts give the messages of the step. -/
theorem Told.exact (h : Told s s' l) (hsent : Sent now s s') (hc : Coherent s) (hc' : Coherent s') :
    MessagesExact now s s' := by
  refine ⟨?_, fun msg => ?_, fun a t address ht hst hno ha hdelay => ?_⟩
  · change s'.unblocks.Nodup
    rw [h.unblocks, List.nodup_flatMap]
    refine ⟨fun a _ => ?_, h.nodup.imp fun {a b} hab => ?_⟩
    · unfold noticesBetween
      cases hp : s.promises.lookup a with
      | none => exact List.nodup_nil
      | some p =>
        cases s'.promises.lookup a with
        | none => exact List.nodup_nil
        | some q =>
          exact ((hc.cell a).promise p hp).nodup.map fun x y hxy =>
            congrArg OutgoingMessage.address hxy
    · intro msg hma hmb
      obtain ⟨_, q, _, -, hq, -, rfl⟩ := mem_noticesBetween.mp hma
      obtain ⟨_, q', _, -, hq', -, heq⟩ := mem_noticesBetween.mp hmb
      have hid := unblockMessage_id (congrArg OutgoingMessage.message heq)
      rw [((hc'.cell a).promise q hq).id, ((hc'.cell b).promise q' hq').id] at hid
      exact hab hid
  · change msg ∈ s'.unblocks ↔ _
    rw [h.unblocks, List.mem_flatMap]
    constructor
    · intro hm
      obtain ⟨a, ha, hmsg⟩ := hm
      obtain ⟨hpend, hsettled⟩ := (h.mem a).mp ha
      obtain ⟨p, q, address, hp, hq, hadd, rfl⟩ := mem_noticesBetween.mp hmsg
      obtain ⟨p', hp', hst⟩ := ServerState.isPending_iff.mp hpend
      obtain rfl := Option.some.inj (hp.symm.trans hp')
      refine ⟨a, p, q, address, hp, hst, hq, fun hqs => ?_, hadd, rfl⟩
      rw [ServerState.isPending_iff.mpr ⟨q, hq, hqs⟩] at hsettled
      cases hsettled
    · intro hm
      obtain ⟨a, p, q, address, hp, hst, hq, hqs, hadd, rfl⟩ := hm
      refine ⟨a, (h.mem a).mpr ⟨ServerState.isPending_iff.mpr ⟨p, hp, hst⟩, ?_⟩,
        mem_noticesBetween.mpr ⟨p, q, address, hp, hq, hadd, rfl⟩⟩
      simp [ServerState.isPending, hq, hqs]
  · exact (hsent.pending a t address ht hst hno ha).resolve_right fun hd => hdelay hd.2

theorem Moves.messagesExact {P : Move → Prop} (h : Moves now P s s') (hc : Coherent s)
    (ho : s.outgoing = []) (hquiet : ∀ m, P m → m.Quiet) : MessagesExact now s s' := by
  have hstep : ∀ s₁ m s₂, Coherent s₁ → P m → m.Step now s₁ s₂ →
      (∃ l, Told s s₁ l) ∧ Sent now s s₁ → (∃ l, Told s s₂ l) ∧ Sent now s s₂ := by
    intro s₁ m s₂ hc₁ hp hm hI
    obtain ⟨⟨l, htold⟩, hsent⟩ := hI
    exact ⟨⟨_, htold.step hc₁ hm (hquiet m hp)⟩, hsent.step hc₁ hm (hquiet m hp)⟩
  obtain ⟨hc', ⟨l, htold⟩, hsent⟩ := h.invariant hc hstep ⟨⟨[], .start s ho⟩, .start s ho⟩
  exact htold.exact hsent hc hc'

theorem MessagesExact.subscribe (h : MessagesExact now s s') (id address : String) :
    MessagesExact now s (s'.subscribe id address) := by
  have hpr : ∀ a, (s'.subscribe id address).promises.lookup a = (s'.promises.lookup a).map fun p =>
      if a = id then { p with subscribers := p.subscribers.insert address } else p := by
    intro a
    rw [ServerState.subscribe, HashMap.lookup_modify]
    by_cases ha : a = id <;> simp [ha]
  have hview : ∀ (p : DurablePromise) a,
      (if a = id then { p with subscribers := p.subscribers.insert address } else p).state = p.state ∧
        (if a = id then { p with subscribers := p.subscribers.insert address } else p).toRecord =
          p.toRecord ∧
        (if a = id then { p with subscribers := p.subscribers.insert address } else p).tags =
          p.tags := by
    intro p a
    split_ifs <;> exact ⟨rfl, rfl, rfl⟩
  refine ⟨h.nodup, fun msg => (h.unblock msg).trans ?_, fun a t addr ht hst hno ha hdelay => ?_⟩
  · constructor
    · intro hm
      obtain ⟨a, p, q, addr, hp, hst, hq, hqs, hadd, rfl⟩ := hm
      obtain ⟨hs, hrec, -⟩ := hview q a
      refine ⟨a, p, _, addr, hp, hst, by rw [hpr, hq]; rfl, ?_, hadd, ?_⟩
      · rwa [hs]
      · rw [hrec]
    · intro hm
      obtain ⟨a, p, r, addr, hp, hst, hr, hrs, hadd, rfl⟩ := hm
      rw [hpr] at hr
      obtain ⟨q, hq, rfl⟩ := Option.map_eq_some_iff.mp hr
      obtain ⟨hs, hrec, -⟩ := hview q a
      rw [hs] at hrs
      exact ⟨a, p, q, addr, hp, hst, hq, hrs, hadd, by rw [hrec]⟩
  · refine h.execute a t addr ht hst hno ?_ fun hd => hdelay ?_
    · rw [ServerState.targetOf, hpr] at ha
      rw [ServerState.targetOf]
      cases hq : s'.promises.lookup a with
      | none => simp [hq] at ha
      | some q =>
        simp only [hq, Option.map_some, Option.bind_some, (hview q a).2.2] at ha
        exact ha
    · obtain ⟨h₀, q, hq, hdq⟩ := hd
      exact ⟨h₀, _, by rw [hpr, hq]; rfl, by rwa [(hview q a).2.2]⟩

theorem promiseRegisterListener_messagesExact {corrId req : Json} (h : MessagesExact now s s') :
    MessagesExact now s (s'.promiseRegisterListener corrId req).1 := by
  unfold ServerState.promiseRegisterListener
  cases requireStr req "awaited" with
  | error e => exact h
  | ok awaited =>
    cases requireStr req "address" with
    | error e => exact h
    | ok address =>
      cases hp : s'.promises.lookup awaited with
      | none => simpa only [hp] using h
      | some p =>
        simp only [hp]
        split_ifs
        · exact h.subscribe awaited address
        · exact h

theorem apply_messagesExact (hc : Coherent s) {req : Json} (ht : Terminal req)
    (hown : FulfillsOwn req) : MessagesExact now { s with outgoing := [] } (s.apply now req).1 := by
  by_cases hk : ReqKind.ofName (kindOf req) = some .promiseRegisterListener
  · have hmoves : Moves now (fun m => ∃ id, m = .expire [id]) { s with outgoing := [] }
        (s.prepared now req) := prepared_moves now hc req fun id _ => ⟨id, rfl⟩
    have hprep := hmoves.messagesExact hc.cleared rfl fun m hm => by
      obtain ⟨id, rfl⟩ := hm
      trivial
    rw [ServerState.apply_eq_dispatch hk]
    exact promiseRegisterListener_messagesExact hprep
  · refine (apply_moves hc ht hown).messagesExact hc.cleared rfl fun m hm => ?_
    cases m with
    | plain act => exact hm.2.resolve_right fun h => hk h.1
    | _ => trivial

theorem tick_messagesExact (hc : Coherent s) (ho : s.outgoing = []) :
    MessagesExact now s (s.tick now) := by
  refine (tick_moves hc).messagesExact hc ho fun m hm => ?_
  cases m with
  | plain act =>
    cases act with
    | clearOutgoing | subscribe id address => exact hm.elim
    | _ => trivial
  | _ => trivial

end Exact

/-- A step of the server: a request, which starts by clearing the messages, or a tick,
before which the local network clears them. -/
def ServerState.deliver (s : ServerState) (op : Op) : ServerState :=
  { s with outgoing := [] }.exec op

/-- The messages of every step are complete and exact. -/
theorem messages_exact (ops : List Op) (h : ∀ op ∈ ops, op.Typed) (op : Op) (hop : op.Typed) :
    MessagesExact op.now (ServerState.init.run ops) ((ServerState.init.run ops).deliver op) := by
  have hc := Coherent.run h
  have hx : MessagesExact op.now { ServerState.init.run ops with outgoing := [] }
      ((ServerState.init.run ops).deliver op) := by
    cases op with
    | apply now req => exact apply_messagesExact hc hop.1 hop.2
    | tick now => exact tick_messagesExact hc.cleared rfl
  exact ⟨hx.nodup, hx.unblock, hx.execute⟩

def listenedRun : List Op :=
  twinRun ++ [.apply 1 (.obj [("kind", .str "promise.register_listener"), ("awaited", .str "b"),
      ("address", .str "local://uni@default/p")]),
    .apply 1 (request "task.acquire" ⟨"c", none⟩ (taskAcquireData "b" 0 "w" 1000))]

theorem listenedRun_typed : ∀ op ∈ listenedRun, op.Typed := by
  intro op hop
  simp only [listenedRun, List.mem_append, List.mem_cons, List.not_mem_nil, or_false] at hop
  rcases hop with hop | rfl | rfl
  · exact fulfilledRun_typed op (List.mem_append_left _ hop)
  · exact typed_of_not_settle rfl (by decide)
  · exact typed_of_not_settle rfl (by decide)

/-- The fulfilment of `b` notifies the listener and resumes the task. -/
theorem messages_exact_listened :
    MessagesExact 2 (ServerState.init.run listenedRun)
        ((ServerState.init.run listenedRun).deliver (.apply 2
          (request "task.fulfill" ⟨"c", none⟩ (taskFulfillData "b" 0 ⟨"c", none⟩
            { id := "b", state := .resolved, value := {} })))) ∧
      (((ServerState.init.run listenedRun).deliver (.apply 2
        (request "task.fulfill" ⟨"c", none⟩ (taskFulfillData "b" 0 ⟨"c", none⟩
          { id := "b", state := .resolved, value := {} })))).outgoing.map
            OutgoingMessage.address) = ["local://any@default", "local://uni@default/p"] := by
  refine ⟨messages_exact listenedRun listenedRun_typed (.apply 2 _)
    (fulfilledRun_typed _ (by simp [fulfilledRun])), by decide⟩

end Resonate.Network
