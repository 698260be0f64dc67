import Mathlib.Data.List.Basic

/-!
# Scanning a stream that arrives in pieces

A scanner takes the first item off the front of a buffer once the item is complete. What it
takes does not depend on what follows, so draining the buffer after every piece finds the
items of the whole stream, and leaves the same rest, wherever the stream is cut.
-/

namespace Lib

structure Scanner (α β : Type*) where
  next : List α → Option (β × List α)
  shorter : ∀ {xs b rest}, next xs = some (b, rest) → rest.length < xs.length
  extend : ∀ {xs b rest} (ys : List α), next xs = some (b, rest) →
    next (xs ++ ys) = some (b, rest ++ ys)

namespace Scanner

variable {α β : Type*} (scanner : Scanner α β)

def drainUpTo : ℕ → List α → List β × List α
  | 0, xs => ([], xs)
  | n + 1, xs =>
    match scanner.next xs with
    | none => ([], xs)
    | some (b, rest) => (b :: (drainUpTo n rest).1, (drainUpTo n rest).2)

/-- The items at the front of a buffer, and what is left of it. -/
def drain (xs : List α) : List β × List α := scanner.drainUpTo xs.length xs

/-- A piece is appended to the buffer, which is then drained. -/
def feed (st : List β × List α) (piece : List α) : List β × List α :=
  (st.1 ++ (scanner.drain (st.2 ++ piece)).1, (scanner.drain (st.2 ++ piece)).2)

variable {scanner} {xs ys rest : List α} {b : β}

theorem drainUpTo_none (h : scanner.next xs = none) (n : ℕ) : scanner.drainUpTo n xs = ([], xs) := by
  cases n with
  | zero => rfl
  | succ n => rw [drainUpTo, h]

theorem drainUpTo_eq {n m : ℕ} (hn : xs.length ≤ n) (hm : xs.length ≤ m) :
    scanner.drainUpTo n xs = scanner.drainUpTo m xs := by
  induction n generalizing xs m with
  | zero =>
    cases h : scanner.next xs with
    | none => rw [drainUpTo_none h, drainUpTo_none h]
    | some item =>
      obtain ⟨b, rest⟩ := item
      have hlt := scanner.shorter h
      omega
  | succ n ih =>
    cases h : scanner.next xs with
    | none => rw [drainUpTo_none h, drainUpTo_none h]
    | some item =>
      obtain ⟨b, rest⟩ := item
      have hlt := scanner.shorter h
      cases m with
      | zero => omega
      | succ m =>
        have hrest : scanner.drainUpTo n rest = scanner.drainUpTo m rest := ih (by omega) (by omega)
        rw [drainUpTo, drainUpTo, h]
        simp only [hrest]

theorem drain_none (h : scanner.next xs = none) : scanner.drain xs = ([], xs) := drainUpTo_none h _

theorem drain_some (h : scanner.next xs = some (b, rest)) :
    scanner.drain xs = (b :: (scanner.drain rest).1, (scanner.drain rest).2) := by
  have hlt := scanner.shorter h
  obtain ⟨n, hn⟩ := Nat.exists_eq_add_one.mpr (Nat.zero_lt_of_lt hlt)
  have hrest : scanner.drainUpTo n rest = scanner.drain rest := drainUpTo_eq (by omega) (Nat.le_refl _)
  rw [drain, hn, drainUpTo, h]
  simp only [hrest]

variable (scanner) in
/-- The induction rule of a buffer that is drained item by item. -/
theorem drain_induction {P : List α → Prop} (hnone : ∀ xs, scanner.next xs = none → P xs)
    (hsome : ∀ xs b rest, scanner.next xs = some (b, rest) → P rest → P xs) (xs : List α) : P xs := by
  induction hlen : xs.length using Nat.strongRecOn generalizing xs with
  | _ n ih =>
    cases h : scanner.next xs with
    | none => exact hnone xs h
    | some item => exact hsome xs item.1 item.2 h (ih _ (hlen ▸ scanner.shorter h) _ rfl)

theorem next_drain (xs : List α) : scanner.next (scanner.drain xs).2 = none := by
  induction xs using drain_induction scanner with
  | hnone xs h => rwa [drain_none h]
  | hsome xs b rest h ih => rwa [drain_some h]

theorem drain_append (xs ys : List α) : scanner.drain (xs ++ ys) =
    ((scanner.drain xs).1 ++ (scanner.drain ((scanner.drain xs).2 ++ ys)).1,
      (scanner.drain ((scanner.drain xs).2 ++ ys)).2) := by
  induction xs using drain_induction scanner with
  | hnone xs h => rw [drain_none h, List.nil_append]
  | hsome xs b rest h ih => rw [drain_some h, drain_some (scanner.extend ys h), ih, List.cons_append]

/-- Whatever the pieces, their items are those of the stream. -/
theorem foldl_feed (pieces : List (List α)) :
    pieces.foldl scanner.feed ([], []) = scanner.drain pieces.flatten := by
  have hfold : ∀ (items : List β) (buffer : List α), scanner.next buffer = none →
      pieces.foldl scanner.feed (items, buffer) =
        (items ++ (scanner.drain (buffer ++ pieces.flatten)).1,
          (scanner.drain (buffer ++ pieces.flatten)).2) := by
    induction pieces with
    | nil =>
      intro items buffer h
      rw [List.flatten_nil, List.append_nil, drain_none h, List.append_nil]
      rfl
    | cons piece pieces ih =>
      intro items buffer _
      rw [List.foldl_cons, feed, ih _ _ (next_drain _), List.flatten_cons, ← List.append_assoc,
        drain_append (buffer ++ piece), List.append_assoc]
  have hempty : scanner.next [] = none := by
    cases h : scanner.next [] with
    | none => rfl
    | some item =>
      obtain ⟨b, rest⟩ := item
      exact absurd (scanner.shorter h) (Nat.not_lt_zero _)
  rw [hfold [] [] hempty, List.nil_append, List.nil_append]

end Scanner

end Lib
