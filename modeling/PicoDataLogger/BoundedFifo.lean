/-
A bounded queue that never refuses: when it is full, a push discards the head.

This is what the flash queue is for, stated without flash, slots or sectors. The
bound and the bookkeeping are fields, so a queue that overflows or miscounts
cannot be built.

Nothing here names a particular record or device.
-/
import Mathlib.Tactic.Common
import Mathlib.Algebra.Order.Ring.Nat

set_option autoImplicit false

/-- A queue of at most `cap` items. `pushed` counts the pushes of its life,
`dropped` the items it has discarded since it was last restarted. -/
structure BoundedFifo (α : Type) (cap : ℕ) where
  items : List α
  pushed : ℕ
  dropped : ℕ
  fits : items.length ≤ cap
  counted : dropped ≤ pushed

namespace BoundedFifo

variable {α : Type} {cap : ℕ} (f : BoundedFifo α cap)

/-- The queue at the start of its life. -/
def empty (α : Type) (cap : ℕ) : BoundedFifo α cap where
  items := []
  pushed := 0
  dropped := 0
  fits := Nat.zero_le _
  counted := Nat.le_refl 0

/-- Add an item at the tail; a full queue discards its head first. -/
def push [NeZero cap] (a : α) : BoundedFifo α cap where
  items := if f.items.length = cap then f.items.tail ++ [a] else f.items ++ [a]
  pushed := f.pushed + 1
  dropped := if f.items.length = cap then f.dropped + 1 else f.dropped
  fits := by
    have hfits := f.fits
    have hcap := Nat.pos_of_neZero cap
    split
    · rw [List.length_append, List.length_tail, List.length_singleton]
      omega
    · rw [List.length_append, List.length_singleton]
      omega
  counted := by
    have := f.counted
    split <;> omega

/-- The head, if there is one. -/
def peek : Option α := f.items.head?

/-- Remove the head. -/
def pop : BoundedFifo α cap :=
  { f with
    items := f.items.tail
    fits := by
      have := f.fits
      rw [List.length_tail]
      omega }

/-- Start counting discards afresh. -/
def restart : BoundedFifo α cap :=
  { f with dropped := 0, counted := Nat.zero_le _ }

@[simp] theorem push_items [NeZero cap] (a : α) : (f.push a).items
    = (if f.items.length = cap then f.items.tail else f.items) ++ [a] := by
  rw [push]
  split <;> rfl

@[simp] theorem push_dropped [NeZero cap] (a : α) : (f.push a).dropped
    = if f.items.length = cap then f.dropped + 1 else f.dropped := rfl

@[simp] theorem pop_items : f.pop.items = f.items.tail := rfl

end BoundedFifo
