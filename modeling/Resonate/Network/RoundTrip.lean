import Resonate.Network.Answers

/-!
# Records on the wire

The records of the server, serialized by its `to_record` functions, read back field by
field in the SDK's record types, as long as their integers are those of an `i64`.
-/

namespace Resonate
open Lib

theorem dedupKeys_of_nodupKeys {α : Type} {l : List (Sigma fun _ : String => α)}
    (h : l.NodupKeys) : l.dedupKeys = l := by
  induction l with
  | nil => rfl
  | cons x l ih =>
    obtain ⟨hx, hl⟩ := List.nodupKeys_cons.mp h
    rw [List.dedupKeys_cons, ih hl, List.kinsert, List.kerase_of_notMem_keys hx]

theorem strMapOfJson_toJson (m : HashMap String) : strMapOfJson (strMapToJson m) = some m := by
  have hmap : (m.entries.map fun e => (e.1, Json.str e.2)).mapM strEntry = some m.entries := by
    induction m.entries with
    | nil => rfl
    | cons e es ih => simp [List.mapM_cons, ih, strEntry]
  simp only [strMapToJson, strMapOfJson, hmap, Option.map_some, Option.some.injEq]
  exact AList.ext (dedupKeys_of_nodupKeys m.nodupKeys)

def IsI64 (n : Int) : Prop := Json.i64Min ≤ n ∧ n ≤ Json.i64Max

instance (n : Int) : Decidable (IsI64 n) :=
  inferInstanceAs (Decidable (Json.i64Min ≤ n ∧ n ≤ Json.i64Max))

theorem asI64_num {n : Int} (h : IsI64 n) : (Json.num n).asI64 = some n := if_pos h

namespace Network

def DurablePromise.record (p : DurablePromise) : PromiseRecord where
  id := p.id
  state := p.state
  param := Value.ofJson p.param
  value := Value.ofJson p.value
  tags := p.tags
  timeoutAt := p.timeoutAt
  createdAt := p.createdAt
  settledAt := p.settledAt

structure DurablePromise.I64 (p : DurablePromise) : Prop where
  timeoutAt : IsI64 p.timeoutAt
  createdAt : IsI64 p.createdAt
  settledAt : ∀ t, p.settledAt = some t → IsI64 t

theorem promiseRecord_ofJson {p : DurablePromise} (h : p.I64) :
    PromiseRecord.ofJson p.toRecord = some p.record := by
  obtain ⟨id, state, param, value, tags, timeoutAt, createdAt, settledAt, awaiters, subscribers⟩ := p
  have ht : (Json.num timeoutAt).asI64 = some timeoutAt := asI64_num h.timeoutAt
  have hc : (Json.num createdAt).asI64 = some createdAt := asI64_num h.createdAt
  cases settledAt with
  | none =>
    simp [PromiseRecord.ofJson, DurablePromise.toRecord, List.lookup_cons, Json.asStr,
      PromiseState.ofJson, variantName, fieldOr, strMapOfJson_toJson, ht, hc, DurablePromise.record]
  | some t =>
    have hs : (Json.num t).asI64 = some t := asI64_num (h.settledAt t rfl)
    simp [PromiseRecord.ofJson, DurablePromise.toRecord, List.lookup_cons, Json.asStr,
      PromiseState.ofJson, variantName, fieldOr, strMapOfJson_toJson, ht, hc, hs, optOfJson,
      DurablePromise.record]

theorem isI64_of_asI64 {n m : Int} (h : (Json.num n).asI64 = some m) : IsI64 n ∧ m = n := by
  simp only [Json.asI64] at h
  split_ifs at h with hr
  exact ⟨hr, (Option.some.inj h).symm⟩

theorem promiseRecord_of_ofJson {p : DurablePromise} {r : PromiseRecord}
    (h : PromiseRecord.ofJson p.toRecord = some r) : p.I64 ∧ r = p.record := by
  have hi : p.I64 := by
    have htimeout : p.toRecord.get "timeoutAt" = some (.num p.timeoutAt) := rfl
    have hcreated : p.toRecord.get "createdAt" = some (.num p.createdAt) := rfl
    have hsettled : p.toRecord.get "settledAt" = p.settledAt.map Json.num := by
      cases hs : p.settledAt <;> simp [DurablePromise.toRecord, hs, List.lookup_cons]
    simp only [PromiseRecord.ofJson, asFields_toRecord, Option.bind_eq_bind,
      Option.bind_eq_some_iff, htimeout, hcreated, hsettled, fieldOr] at h
    obtain ⟨id, -, state, -, param, -, value, -, tags, -, timeoutAt, ⟨v, hv, ht⟩, createdAt, hc,
      settledAt, hs, -⟩ := h
    obtain rfl := Option.some.inj hv
    refine ⟨(isI64_of_asI64 ht).1, (isI64_of_asI64 hc).1, fun n hn => ?_⟩
    rw [hn] at hs
    obtain ⟨m, hm, -⟩ := Option.map_eq_some_iff.mp hs
    exact (isI64_of_asI64 hm).1
  exact ⟨hi, Option.some.inj (h.symm.trans (promiseRecord_ofJson hi))⟩

/-- The server's record of a task carries no resumes. -/
def Task.record (t : Task) : TaskRecord where
  id := t.id
  state := t.state
  version := t.version
  resumes := .null
  ttl := t.ttl
  pid := t.pid

structure Task.I64 (t : Task) : Prop where
  version : IsI64 t.version
  ttl : ∀ n, t.ttl = some n → IsI64 n

theorem taskRecord_ofJson {t : Task} (h : t.I64) : TaskRecord.ofJson t.toRecord = some t.record := by
  obtain ⟨id, state, version, pid, ttl, resumes⟩ := t
  have hv : (Json.num version).asI64 = some version := asI64_num h.version
  have hl : ∀ n, ttl = some n → (Json.num n).asI64 = some n := fun n hn => asI64_num (h.ttl n hn)
  cases pid <;> cases ttl <;>
    simp [TaskRecord.ofJson, Task.toRecord, List.lookup_cons, Json.asStr, TaskState.ofJson,
      variantName, fieldOr, hv, optOfJson, Task.record, hl]

end Network
end Resonate
