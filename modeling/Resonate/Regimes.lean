import Resonate.Conduct
import Resonate.Verdicts

/-!
# Regimes

A regime joins the terms of a handling's programs to what its caches and the answers on their
way to it satisfy. A handling that is under a regime stays under it, as long as the server
answers its requests as the regime says.
-/

namespace Resonate
open Lib Lib.ForkJoin Network

/-- Terms of the programs of a handling, with what its caches and the answers on their way
satisfy. -/
structure Regime (codec : Codec) (sender : Sender) where
  terms : Terms Cmd Cmd.Answer
  Caches : Effects → Prop
  Answers : Flight → Prop
  opened : ∀ id version preload, terms.Pre (.effects id version preload) →
    Caches (Effects.new sender codec id version preload)
  atOnce : ∀ (c : Cmd) (effects : Option Effects) (a : c.Answer), terms.Pre c →
    (∀ e, effects = some e → Caches e) → c.AtOnce effects a → terms.Post c a
  reply : ∀ (f : Flight) (effects e : Option Effects) (a : f.cmd.Answer), terms.Pre f.cmd →
    Answers f → (∀ e, effects = some e → Caches e) →
    f.cmd.reply sender f.sent effects f.answer = some (e, a) →
      terms.Post f.cmd a ∧ ∀ e', e = some e' → Caches e'

structure Handling.Under {codec : Codec} {sender : Sender} (R : Regime codec sender)
    (x : Handling) : Prop where
  codec : x.core.sdk.codec = codec
  sender : x.sender = sender
  node : x.node.Meets R.terms fun _ => True
  caches : ∀ entry ∈ x.effects, R.Caches entry.2
  flights : ∀ f ∈ x.flights, R.Answers f

namespace Handling.Under

variable {codec : Codec} {sender : Sender} {R : Regime codec sender} {x x' : Handling}
  {s s' : ServerState} {d : Handling.Did} {f : Flight} {op : Op} {path : List ℕ}

theorem start {core : Core} {p : Prog} (h : p.Meets R.terms (fun _ _ => True) fun _ => True)
    (hcodec : core.sdk.codec = codec) : (Handling.start core sender p).Under R where
  codec := hcodec
  sender := rfl
  node := .start h
  caches _ hentry := by cases hentry
  flights _ hf := by cases hf

theorem effectsAt (h : x.Under R) (path : List ℕ) :
    ∀ e, Handling.effectsAt path x.effects = some e → R.Caches e := by
  intro e he
  obtain ⟨entry, hmem, rfl⟩ := Handling.effectsAt_mem he
  exact h.caches entry hmem

theorem callsAt (h : x.Under R) {c : Cmd} (hc : CallsAt path x.node c) : R.terms.Pre c :=
  h.node.callsAt hc

theorem pre (h : x.Under R) {l : Label Cmd Cmd.Answer} {n : Node Cmd Cmd.Answer End}
    {e : Event} (hs : StepAt path x.node l n) (hl : l.event = [e]) : R.terms.Pre e.1 :=
  h.callsAt (hs.callsAt (hl ▸ List.mem_singleton_self e))

theorem sent (h : x.Under R) (hs : x.Step s (.sent f op) s' x') :
    ∃ subNow serverNow req effects, R.terms.Pre f.cmd ∧ (∀ e, effects = some e → R.Caches e) ∧
      f.cmd.request sender subNow f.sent effects = some req ∧
        op = .apply serverNow (unwrapRequestEnvelope req) ∧ f.answer = (s.send serverNow req).2 := by
  cases hs with
  | send path c subNow now serverNow req hc hf hr =>
    refine ⟨subNow, serverNow, req, _, h.callsAt hc, h.effectsAt path, ?_, rfl, rfl⟩
    rw [← h.sender]
    exact hr

theorem step (h : x.Under R) (hs : x.Step s d s' x')
    (hans : ∀ f op, d = .sent f op → R.Answers f) : x'.Under R := by
  cases hs with
  | send path c subNow now serverNow req hc hf hr =>
    refine ⟨h.codec, h.sender, h.node, h.caches, fun f hmem => ?_⟩
    rcases List.mem_cons.mp hmem with rfl | hmem
    · exact hans _ _ rfl
    · exact h.flights f hmem
  | receive f a e l n hf hs hl hr =>
    have hpre := h.pre hs hl
    rw [h.sender] at hr
    obtain ⟨hpost, hcache⟩ := R.reply f _ e a hpre (h.flights f hf) (h.effectsAt f.path) hr
    refine ⟨h.codec, h.sender, h.node.stepAt hs fun event hevent => ?_, fun entry hmem => ?_,
      fun g hg => h.flights g (List.mem_of_mem_filter hg)⟩
    · rw [hl] at hevent
      obtain rfl := List.mem_singleton.mp hevent
      exact hpost
    · cases e with
      | none => exact h.caches entry hmem
      | some e' =>
        rcases Handling.mem_setEffects hmem with heq | hmem
        · rw [heq]
          exact hcache e' rfl
        · exact h.caches entry hmem
  | atOnce path c a l n hf hs hl ha =>
    have hpre := h.pre hs hl
    refine ⟨h.codec, h.sender, h.node.stepAt hs fun event hevent => ?_, fun entry hmem => ?_, h.flights⟩
    · rw [hl] at hevent
      obtain rfl := List.mem_singleton.mp hevent
      exact R.atOnce c _ a hpre (h.effectsAt path) ha
    · cases c with
      | effects id version preload =>
        rcases List.mem_cons.mp hmem with rfl | hmem
        · rw [h.sender, h.codec]
          exact R.opened id version preload hpre
        · exact h.caches entry hmem
      | _ => exact h.caches entry hmem
  | silent path n hs =>
    refine ⟨h.codec, h.sender, h.node.stepAt hs fun event hevent => ?_, h.caches, h.flights⟩
    cases hevent

end Handling.Under

end Resonate
