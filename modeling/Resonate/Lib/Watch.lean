import Mathlib.Order.Basic

/-!
# Watch channels

A `watch` channel with its stored value and the number of its live receivers. A value
sent while there is no receiver is refused and not stored; a new receiver sees the
stored value.
-/

namespace Lib

structure Watch (α : Type*) where
  value : Option α
  receivers : ℕ

namespace Watch

variable {α : Type*}

def channel (value : Option α) : Watch α := ⟨value, 1⟩

def subscribe (tx : Watch α) : Watch α := { tx with receivers := tx.receivers + 1 }

def leave (tx : Watch α) : Watch α := { tx with receivers := tx.receivers - 1 }

def send (tx : Watch α) (value : α) : Watch α :=
  if tx.receivers = 0 then tx else { tx with value := some value }

variable {tx : Watch α} {value : α}

@[simp] theorem channel_value (v : Option α) : (channel v).value = v := rfl
@[simp] theorem channel_receivers (v : Option α) : (channel v).receivers = 1 := rfl
@[simp] theorem subscribe_value : tx.subscribe.value = tx.value := rfl
@[simp] theorem subscribe_receivers : tx.subscribe.receivers = tx.receivers + 1 := rfl
@[simp] theorem leave_value : tx.leave.value = tx.value := rfl
@[simp] theorem leave_receivers : tx.leave.receivers = tx.receivers - 1 := rfl

@[simp] theorem send_receivers : (tx.send value).receivers = tx.receivers := by
  unfold send
  split_ifs <;> rfl

theorem send_value {v : α} (h : (tx.send value).value = some v) : tx.value = some v ∨ v = value := by
  unfold send at h
  split_ifs at h
  · exact Or.inl h
  · exact Or.inr (Option.some.inj h).symm

/-- A send is lost only on a channel without receivers. -/
theorem receivers_of_lost (h : (tx.send value).value = none) : tx.value = none ∧ tx.receivers = 0 := by
  unfold send at h
  split_ifs at h with hr
  · exact ⟨h, hr⟩

end Watch

end Lib
