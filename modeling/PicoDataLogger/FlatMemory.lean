/-
Memories of bytes, by address.

`store` writes a list of bytes from an address on, and `load` reads one. A store in
pieces that lie one behind the other is one store, and so is a load; a load sees
the last store to its bytes and no other.

Nothing here names a particular device.
-/
import Mathlib.Algebra.Order.Ring.Nat
import Mathlib.Data.List.GetD

set_option autoImplicit false

namespace FlatMemory

abbrev Mem : Type := ℕ → UInt8

def store (mem : Mem) (addr : ℕ) (data : List UInt8) : Mem := fun a =>
  if addr ≤ a ∧ a < addr + data.length then data.getD (a - addr) 0 else mem a

def load (mem : Mem) (addr len : ℕ) : List UInt8 := (List.range len).map fun i => mem (addr + i)

variable {mem mem' : Mem} {addr addr' len len' : ℕ} {data data' : List UInt8}

@[simp] theorem length_load (mem : Mem) (addr len : ℕ) : (load mem addr len).length = len := by
  simp [load]

@[simp] theorem store_nil (mem : Mem) (addr : ℕ) : store mem addr [] = mem := by
  funext a
  have hempty : ¬ (addr ≤ a ∧ a < addr + ([] : List UInt8).length) := by
    simp only [List.length_nil]
    omega
  rw [store, if_neg hempty]

theorem store_outside {a : ℕ} (h : a < addr ∨ addr + data.length ≤ a) : store mem addr data a = mem a := by
  rw [store, if_neg (by omega)]

theorem store_inside {i : ℕ} (h : i < data.length) : store mem addr data (addr + i) = data[i] := by
  rw [store, if_pos ⟨Nat.le_add_right _ _, by omega⟩, Nat.add_sub_cancel_left, List.getD_eq_getElem _ _ h]

/-- **A store in two pieces.** -/
theorem store_append (mem : Mem) (addr : ℕ) (data data' : List UInt8) :
    store mem addr (data ++ data') = store (store mem addr data) (addr + data.length) data' := by
  funext a
  by_cases hbefore : a < addr
  · rw [store_outside (.inl hbefore), store_outside (.inl (by omega)), store_outside (.inl hbefore)]
  obtain ⟨i, rfl⟩ := Nat.exists_eq_add_of_le (Nat.not_lt.mp hbefore)
  by_cases hfirst : i < data.length
  · rw [store_inside (by rw [List.length_append]; omega), store_outside (.inl (by omega)),
      store_inside hfirst, List.getElem_append_left hfirst]
  by_cases hsecond : i < data.length + data'.length
  · obtain ⟨j, rfl⟩ := Nat.exists_eq_add_of_le (Nat.not_lt.mp hfirst)
    rw [store_inside (by rw [List.length_append]; omega), ← Nat.add_assoc, store_inside (by omega),
      List.getElem_append_right (Nat.le_add_right _ _)]
    simp only [Nat.add_sub_cancel_left]
  · rw [store_outside (.inr (by rw [List.length_append]; omega)), store_outside (.inr (by omega)),
      store_outside (.inr (by omega))]

/-- **A load in two pieces.** -/
theorem load_add (mem : Mem) (addr len len' : ℕ) :
    load mem addr (len + len') = load mem addr len ++ load mem (addr + len) len' := by
  simp only [load, List.range_add, List.map_append, List.map_map]
  refine congrArg _ (List.map_congr_left fun i _ => ?_)
  simp only [Function.comp, Nat.add_assoc]

theorem load_congr (h : ∀ i < len, mem (addr + i) = mem' (addr + i)) :
    load mem addr len = load mem' addr len :=
  List.map_congr_left fun i hi => h i (List.mem_range.mp hi)

/-- What was stored is loaded. -/
theorem load_store_same (mem : Mem) (addr : ℕ) (data : List UInt8) :
    load (store mem addr data) addr data.length = data := by
  apply List.ext_getElem
  · exact length_load _ _ _
  · intro i _ hi
    simp only [load, List.getElem_map, List.getElem_range]
    exact store_inside hi

/-- A store elsewhere is not seen. -/
theorem load_store_disjoint (h : addr + len ≤ addr' ∨ addr' + data.length ≤ addr) :
    load (store mem addr' data) addr len = load mem addr len := by
  apply load_congr
  intro i hi
  exact store_outside (by omega)

end FlatMemory
