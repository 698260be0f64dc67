import Resonate.Alongside

/-!
# The cache is transparent

One execution of a workflow, over one preload and over another. Whatever the one shows, the
other can show too, and when the one asks to fulfil or suspend its task, so can the other, of a
server with the same records.
-/

namespace Resonate
open Lib Lib.ForkJoin Lib.Simulation Network

namespace Core

variable (core : Core) (version : Int) (promise : PromiseRecord) (entry : RegistryEntry)
  (data : TaskData)

def concluding : Except Error (Except Error Json × List String) → Prog
  | .error e => stopping promise.id version (.error e)
  | .ok (result, []) => core.fulfillTask promise.id version promise (recorded result).1
    (recorded result).2 (done (stopping promise.id version))
  | .ok (_, todos) => suspendTask promise.id version todos fun
    | .error e => stopping promise.id version (.error e)
    | .ok .suspended => stopping promise.id version (.ok .suspended)
    | .ok (.redirect _) => .ret .unfinished

def executing : Prog :=
  (entry.func data.args).exec core.sdk
    (fun msg => core.concluding version promise
      (.error (.application s!"user function panicked: {msg}")))
    (rootContext promise data) fun c result => c.collectRemoteTodos fun todos =>
      core.concluding version promise (todos.map fun todos => (result, todos))

variable {core version promise entry data} {d : Discipline}

theorem executeUntilBlocked_once (h : core.Executes promise entry data)
    (hkind : entry.kind = .workflow) (preload : List PromiseRecord) :
    core.executeUntilBlocked promise.id version promise 1 preload =
      .call (.heartbeatStart promise.id version) fun _ =>
        .call (.effects promise.id version preload) fun _ =>
          core.executing version promise entry data := by
  rw [executeUntilBlocked_eq h]
  have hloop : core.loop promise.id version promise entry data (stopping promise.id version) 1 preload =
      core.execute promise.id version promise entry data preload
        (core.concluding version promise) := rfl
  simp only [hloop, execute, hkind]
  rfl

section Owned

variable {P : Cmd → Prop} {S : Tokens}

end Owned

end Core

theorem Cmd.request_congr {c : Cmd} (hd : ¬ c.Durable) (sender : Sender) (subNow : ℕ → Int) (now : Int)
    (e e' : Option Effects) : c.request sender subNow now e = c.request sender subNow now e' := by
  cases c with
  | create kind position slot req | settle position id result => exact absurd trivial hd
  | _ => rfl

namespace Handling

/-- A root without tasks, about to issue a command. -/
def about (core : Core) (sender : Sender) (c : Cmd) (k : c.Answer → Prog)
    (effects : List (ℕ × Effects)) : Handling :=
  ⟨core, sender, .mk (.call c k) [], effects, []⟩

section Alone

variable {core : Core} {sender : Sender} {c : Cmd} {k : c.Answer → Prog} {effects : List (ℕ × Effects)}
  {During : Set Int} {s : ServerState} {did : Did} {dids : List Did} {b : ServerState × Handling}

theorem about_atOnce {a : c.Answer} (ha : c.AtOnce (effectsAt [] effects) a) :
    Step s (about core sender c k effects) (.answered [] ⟨c, a⟩) s
      ⟨core, sender, .mk (k a) [], (about core sender c k effects).opened c, []⟩ :=
  .atOnce s (about core sender c k effects) [] c a _ _ (fun f hf => by cases hf) (.call c k [] a)
    rfl ha

theorem about_send (subNow : ℕ → Int) (now serverNow : Int) {req : Json}
    (hr : c.request sender subNow now (effectsAt [] effects) = some req) :
    Step s (about core sender c k effects)
      (.sent ⟨[], c, now, (s.send serverNow req).2⟩ (.apply serverNow (unwrapRequestEnvelope req)))
      (s.deliver (.apply serverNow (unwrapRequestEnvelope req)))
      { about core sender c k effects with flights := [⟨[], c, now, (s.send serverNow req).2⟩] } :=
  .send s (about core sender c k effects) [] c subNow now serverNow req (.here c k [])
    (fun f hf => by cases hf) hr

theorem about_receive {now : Int} {answer : Except Error Json} {a : c.Answer} {e : Option Effects}
    (ha : c.reply sender now (effectsAt [] effects) answer = some (e, a)) :
    Step s { about core sender c k effects with flights := [⟨[], c, now, answer⟩] }
      (.answered [] ⟨c, a⟩) s
      ⟨core, sender, .mk (k a) [], (about core sender c k effects).told [] e, []⟩ :=
  .receive s { about core sender c k effects with flights := [⟨[], c, now, answer⟩] }
    ⟨[], c, now, answer⟩ a e _ (.mk (k a) []) (List.mem_singleton_self _) (.call c k [] a) rfl ha

end Alone

section Seeded

variable {core : Core} {sender : Sender} {root : String} {version : Int} {rest : Prog}
  {preload preload' : List PromiseRecord} {s : ServerState} {During : Set Int}

inductive Paired (core : Core) (sender : Sender) (root : String) (version : Int) (rest : Prog)
    (preload preload' : List PromiseRecord) (s : ServerState) :
    ServerState × Handling → ServerState × Handling → Prop
  | starting : Paired core sender root version rest preload preload' s
      (s, about core sender (.heartbeatStart root version)
        (fun _ => .call (.effects root version preload) fun _ => rest) [])
      (s, about core sender (.heartbeatStart root version)
        (fun _ => .call (.effects root version preload') fun _ => rest) [])
  | seeding : Paired core sender root version rest preload preload' s
      (s, about core sender (.effects root version preload) (fun _ => rest) [])
      (s, about core sender (.effects root version preload') (fun _ => rest) [])
  | running {S : Tokens} {s' t : ServerState} {x y : Handling} (h : Alongside root version S s' x t y) :
      Paired core sender root version rest preload preload' s (s', x) (t, y)

end Seeded

section Requests

variable {core : Core} {sender : Sender} {root : String} {version : Int} {rest : Prog}
  {preload preload' : List PromiseRecord} {s : ServerState} {a b : ServerState × Handling}

theorem about_sends_nothing {c : Cmd} {k : c.Answer → Prog} {f : Flight} {op : Op}
    {s' : ServerState} {x' : Handling}
    (hr : ∀ subNow now, c.request sender subNow now none = none) :
    ¬ Step s (about core sender c k []) (.sent f op) s' x' := by
  intro h
  cases h with
  | send path c' subNow now serverNow req hc hf hreq =>
    obtain ⟨rfl, rfl⟩ := hc.of_leaf
    cases (hr subNow now).symm.trans hreq

theorem Paired.request (h : Paired core sender root version rest preload preload' s a b) (f : Flight)
    (op : Op) (s' : ServerState) (x' : Handling) (hd : ¬ f.cmd.Durable)
    (hs : Step a.1 a.2 (.sent f op) s' x') : ∃ y', Step b.1 b.2 (.sent f op) s' y' := by
  cases h with
  | starting => exact absurd hs (about_sends_nothing fun _ _ => rfl)
  | seeding => exact absurd hs (about_sends_nothing fun _ _ => rfl)
  | @running _ _ t _ y h =>
    cases hs with
    | send path c subNow now serverNow req hc hf hr =>
      rw [← h.sender, Cmd.request_congr hd _ _ _ _ (effectsAt path y.effects)] at hr
      have hstep := Step.send t y path c subNow now serverNow req (h.node ▸ hc)
        (fun f hmem => hf f (h.flights f hmem)) hr
      rw [h.server.send, h.server.deliver] at hstep
      exact ⟨_, hstep⟩

end Requests

section Checkout

def checkoutBody : Body :=
  .next fun n => .run n ⟨"pay", .function, ⟨.ok, .ok⟩⟩ (.ok (.num 1)) none (.ret (.ok .null)) .ret

def checkoutEntry : RegistryEntry := ⟨.workflow, fun _ => checkoutBody⟩

def checkoutCore (encrypt : ByteArray → Except Error ByteArray) : Core where
  sdk := ⟨fun _ => "local://any@default", hashId fun _ => 0, { nullCodec with encrypt }⟩
  registry name := if name = "checkout" then some checkoutEntry else none
  pid := "w1"
  ttl := 60000

def checkoutPromise : PromiseRecord where
  id := "t"
  state := .pending
  param := { data := some (paramData "checkout" .null) }
  value := {}
  tags := ∅
  timeoutAt := 1000
  createdAt := 0
  settledAt := none

def checkoutRun : List Op :=
  [.apply 0 (request "task.create" ⟨"c0", none⟩ (taskCreateData "w1" 60000 ⟨"c1", none⟩
      { id := "t", timeoutAt := 1000, param := {}
        tags := [⟨"resonate:target", "local://any@default"⟩].toAList })),
    .apply 1 (request "promise.create" ⟨"c2", none⟩
      (PromiseCreateReq.toJson { id := "t:0", timeoutAt := 1000, param := {}, tags := ∅ }))]

def payRecord : PromiseRecord where
  id := "t:0"
  state := .pending
  param := {}
  value := {}
  tags := ∅
  timeoutAt := 1000
  createdAt := 1
  settledAt := none

def payReq : PromiseCreateReq where
  id := "t:0"
  timeoutAt := 1000
  param := { data := some (.num 1) }
  tags := (Core.rootContext checkoutPromise ⟨"checkout", .null⟩).childTags "local" "t" "t"

def paid : PromiseRecord :=
  { payRecord with param := { data := some .null }, value := { data := some .null } }

theorem Undisturbed.core {During : Set Int} {did : Did} {a b : ServerState × Handling}
    (h : Undisturbed During a did b) : b.2.core = a.2.core := by
  obtain ⟨s, x⟩ := a
  obtain ⟨s', x'⟩ := b
  obtain ⟨-, -, hs⟩ := h
  cases hs <;> rfl

end Checkout

end Handling

end Resonate
