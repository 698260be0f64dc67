import Resonate.Network.Lease
import Resonate.Effects

/-!
# The fence

Acquisitions of a task have increasing versions, and a lease that has ended
stays ended. So the durable operations of the worker that held it, whose fence
carries its version, are refused from then on, whatever the other workers do.
-/

namespace Resonate
open Lib

namespace Network

structure FenceRequest (req : Json) (id : String) (v : Int) : Prop where
  kind : ReqKind.ofName (kindOf req) = some .taskFence
  id_eq : strField req "id" = some id
  version_eq : versionOf req = v

/-- The lease `(id, v)` is held after `pre` and no longer after `mid`. -/
def LeaseEnded (pre mid : List Op) (id : String) (v : Int) : Prop :=
  (ServerState.init.run pre).Holds id v ∧ ¬ (ServerState.init.run (pre ++ mid)).Holds id v

theorem run_append (s : ServerState) (ops ops' : List Op) :
    s.run (ops ++ ops') = (s.run ops).run ops' :=
  Machine.run_append ..

theorem leaseOver_after {pre mid post : List Op} {id : String} {v : Int}
    (h : LeaseEnded pre mid id v) : LeaseOver (ServerState.init.run (pre ++ mid ++ post)) id v := by
  have hwf : WF (ServerState.init.run pre) := WF.init.run pre
  have hover : LeaseOver (ServerState.init.run (pre ++ mid)) id v := by
    rw [run_append]
    exact leaseOver_of_ended hwf h.1 (by rw [← run_append]; exact h.2)
  rw [run_append]
  exact hover.mono (run_stage_le (WF.init.run _) post id)

end Network

open Network

namespace Effects

variable (e : Effects)

def flatFence (subNow now : Int) (action : Json) : Json :=
  unwrapRequestEnvelope (e.fenceRequest subNow now action)

variable {e}

theorem fenceRequest_flatFence {subNow now : Int} {action : Json}
    (hv : Json.i64Min ≤ e.taskVersion ∧ e.taskVersion ≤ Json.i64Max) :
    FenceRequest (e.flatFence subNow now action) e.taskId e.taskVersion where
  kind := by
    rw [flatFence, fenceRequest, ← request, taskFenceData, kindOf_request]
    rfl
  id_eq := by
    rw [flatFence, fenceRequest, ← request, taskFenceData, strField,
      get_request (by decide) (by decide)]
    rfl
  version_eq := by
    rw [flatFence, fenceRequest, ← request, taskFenceData, versionOf,
      get_request (by decide) (by decide)]
    simp [List.lookup_cons, Json.asI64, hv]

theorem received_conflict {s s' : ServerState} {subNow now serverNow : Int} {action : Json}
    (h : s.apply serverNow (e.flatFence subNow now action) =
      (s', reply .taskFence (((e.flatFence subNow now action).get "corrId").getD .null) 409 [])) :
    ∃ msg, e.received (e.fenceResult now
        (s.send serverNow (e.fenceRequest subNow now action)).2) =
      (e, .error (.serverError 409 msg)) := by
  have hcorr : ((e.flatFence subNow now action).get "corrId").getD .null =
      .str (e.sender.makeHead now).corrId := by
    rw [flatFence, fenceRequest, ← request, taskFenceData, request_obj, Json.get_obj,
      Json.lookup_insert, if_pos rfl]
    rfl
  have hsend : (s.send serverNow (e.fenceRequest subNow now action)).2 =
      .ok (wrapResponseEnvelope (.obj [("kind", .str "task.fence"),
        ("corrId", .str (e.sender.makeHead now).corrId), ("status", .num 409)])) := by
    have h' := h
    rw [flatFence] at h'
    rw [ServerState.send, h', ← flatFence, hcorr]
    rfl
  obtain ⟨msg, hmsg⟩ : ∃ msg, responseData false (wrapResponseEnvelope (.obj
      [("kind", .str "task.fence"), ("corrId", .str (e.sender.makeHead now).corrId),
        ("status", .num 409)])) = .error (.serverError 409 msg) :=
    responseData_error (n := 409) rfl (by decide)
  refine ⟨msg, ?_⟩
  rw [hsend, fenceResult, received_of_match rfl rfl, hmsg]
  rfl

end Effects

/-- Leases are unique, and the fence refuses every lease that has ended: the
requests of its holder's durable operations change nothing but promises that are
due, and the operations return the conflict. -/
theorem lease_unique_and_fenced :
    (∀ (pre : List Op) (op : Op) (mid : List Op) (op' : Op) (id : String) (v w : Int),
      (ServerState.init.run pre).Acquires op id v →
      (ServerState.init.run (pre ++ op :: mid)).Acquires op' id w → v < w) ∧
    ∀ (pre mid post : List Op) (id : String) (v : Int), LeaseEnded pre mid id v →
      (∀ now req, FenceRequest req id v →
        Rejected (ServerState.init.run (pre ++ mid ++ post)) now req) ∧
      ∀ e : Effects, e.taskId = id → e.taskVersion = v → Json.i64Min ≤ v ∧ v ≤ Json.i64Max →
        ∀ subNow now serverNow action,
          Rejected (ServerState.init.run (pre ++ mid ++ post)) serverNow
            (e.flatFence subNow now action) ∧
          ∃ msg, e.received (e.fenceResult now ((ServerState.init.run (pre ++ mid ++ post)).send
              serverNow (e.fenceRequest subNow now action)).2) =
            (e, .error (.serverError 409 msg)) := by
  refine ⟨fun pre op mid op' id v w h h' => ?_, fun pre mid post id v h => ?_⟩
  · rw [run_append] at h'
    exact acquires_lt (WF.init.run pre) h h'
  · have hwf : WF (ServerState.init.run (pre ++ mid ++ post)) := WF.init.run _
    have hover : LeaseOver (ServerState.init.run (pre ++ mid ++ post)) id v := leaseOver_after h
    refine ⟨fun now req hr => fence_rejected hwf hr.kind hr.id_eq hr.version_eq hover, ?_⟩
    rintro e rfl rfl hv subNow now serverNow action
    have hr : FenceRequest (e.flatFence subNow now action) e.taskId e.taskVersion :=
      Effects.fenceRequest_flatFence hv
    exact ⟨fence_rejected hwf hr.kind hr.id_eq hr.version_eq hover,
      Effects.received_conflict (fence_apply hwf hr.kind hr.id_eq hr.version_eq hover)⟩

theorem not_holds_of_lookup {s : ServerState} {id : String} {v : Int}
    (h : (s.tasks.lookup id).all fun t => t.state ≠ .acquired) : ¬ s.Holds id v := by
  rintro ⟨t, ht, hst, -⟩
  rw [ht] at h
  simp [hst] at h

/-- The worker of version 0 settles a promise after the task was reacquired at version 1. -/
theorem stale_settle_refused :
    (0 : Int) < 1 ∧ Rejected (ServerState.init.run reacquireRun) 3
      (Effects.flatFence ⟨⟨none⟩, nullCodec, "t", 0, ∅⟩ 3 3
        (PromiseSettleReq.toJson ⟨"t:0", .resolved, {}⟩)) := by
  have hheld : (ServerState.init.run [reacquireRun[0]]).Holds "t" 0 :=
    ⟨⟨"t", .acquired, 0, some "w1", some 60000, []⟩, rfl, rfl, rfl⟩
  have hreleased : ∀ v, ¬ (ServerState.init.run [reacquireRun[0], reacquireRun[1]]).Holds "t" v :=
    fun _ => not_holds_of_lookup (by decide)
  have hreheld : (ServerState.init.run reacquireRun).Holds "t" 1 :=
    ⟨⟨"t", .acquired, 1, some "w2", some 60000, []⟩, rfl, rfl, rfl⟩
  refine ⟨lease_unique_and_fenced.1 [] reacquireRun[0] [reacquireRun[1]] reacquireRun[2] "t" 0 1
    ⟨not_holds_of_lookup (by decide), hheld⟩ ⟨hreleased 1, hreheld⟩, ?_⟩
  exact ((lease_unique_and_fenced.2 [reacquireRun[0]] [reacquireRun[1]] [reacquireRun[2]] "t" 0
    ⟨hheld, hreleased 0⟩).2 ⟨⟨none⟩, nullCodec, "t", 0, ∅⟩ rfl rfl (by decide) 3 3 3 _).1

end Resonate
