/-
`schedule.rs`, first half: the fixed-phase schedule of the cycles.

A cycle that ends late does not move the cycles after it: the next deadline is the next
point of one grid, and points that have gone by are skipped. The source computes it in
milliseconds from instants in microseconds, in `u64`; a step that would overflow is
`none` here.

The grid is the general part and comes first, over the natural numbers.
-/
import Mathlib.Data.UInt
import Mathlib.Tactic.Common
import Mathlib.Algebra.Order.Ring.Nat

set_option autoImplicit false

/-! ## Grids -/

namespace Grid

/-- The point of the grid through `start` that follows `now`, or follows `start` itself. -/
def next (start now step : ℕ) : ℕ := start + ((now - start) / step + 1) * step

variable {start now step : ℕ}

theorem next_eq (start now step : ℕ) :
    next start now step = start + (now - start) / step * step + step := by
  rw [next, Nat.add_mul, Nat.one_mul, Nat.add_assoc]

/-- The next point is some slots further on. -/
theorem exists_slots (start now step : ℕ) : ∃ slots, next start now step = start + slots * step :=
  ⟨_, rfl⟩

theorem start_lt_next (start now : ℕ) (h : 0 < step) : start < next start now step := by
  rw [next_eq]
  omega

theorem now_lt_next (start now : ℕ) (h : 0 < step) : now < next start now step := by
  rw [next_eq]
  have := Nat.lt_div_mul_add (a := now - start) h
  omega

/-- Before the start there is nothing to skip. -/
theorem next_of_le (h : now ≤ start) : next start now step = start + step := by
  rw [next, Nat.sub_eq_zero_of_le h, Nat.zero_div, Nat.zero_add, Nat.one_mul]

/-- Nothing is skipped that has not gone by. -/
theorem next_le (step k : ℕ) (h : start ≤ now) (hk : now < start + k * step) :
    next start now step ≤ start + k * step := by
  have hslots : (now - start) / step < k := by
    apply Nat.div_lt_of_lt_mul
    rw [Nat.mul_comm]
    omega
  have hmul : ((now - start) / step + 1) * step ≤ k * step := Nat.mul_le_mul_right step hslots
  rw [next]
  omega

theorem next_le_max_add (start now step : ℕ) : next start now step ≤ max start now + step := by
  rw [next_eq]
  have := Nat.div_mul_le_self (now - start) step
  omega

end Grid

namespace PicoDataLogger

/-! ## `u64` -/

def checked_add (a b : UInt64) : Option UInt64 :=
  if a.toNat + b.toNat < 2 ^ 64 then some (a + b) else none

def checked_sub (a b : UInt64) : Option UInt64 := if b ≤ a then some (a - b) else none

def checked_mul (a b : UInt64) : Option UInt64 :=
  if a.toNat * b.toNat < 2 ^ 64 then some (a * b) else none

def saturating_sub (a b : UInt64) : UInt64 := if b ≤ a then a - b else 0

section UInt64

variable {a b c : UInt64}

theorem checked_add_eq_some : checked_add a b = some c ↔ c.toNat = a.toNat + b.toNat := by
  unfold checked_add
  by_cases h : a.toNat + b.toNat < 2 ^ 64
  · rw [if_pos h, Option.some.injEq, ← UInt64.toNat_inj, UInt64.toNat_add, Nat.mod_eq_of_lt h,
      eq_comm]
  · rw [if_neg h]
    have := c.toNat_lt
    simp only [reduceCtorEq, false_iff]
    omega

theorem checked_sub_eq_some : checked_sub a b = some c ↔ c.toNat + b.toNat = a.toNat := by
  unfold checked_sub
  by_cases h : b ≤ a
  · have hle := UInt64.le_iff_toNat_le.mp h
    rw [if_pos h, Option.some.injEq, ← UInt64.toNat_inj, UInt64.toNat_sub_of_le _ _ h]
    omega
  · have hlt := UInt64.le_iff_toNat_le.not.mp h
    rw [if_neg h]
    simp only [reduceCtorEq, false_iff]
    omega

theorem checked_mul_eq_some : checked_mul a b = some c ↔ c.toNat = a.toNat * b.toNat := by
  unfold checked_mul
  by_cases h : a.toNat * b.toNat < 2 ^ 64
  · rw [if_pos h, Option.some.injEq, ← UInt64.toNat_inj, UInt64.toNat_mul, Nat.mod_eq_of_lt h,
      eq_comm]
  · rw [if_neg h]
    have := c.toNat_lt
    simp only [reduceCtorEq, false_iff]
    omega

@[simp] theorem toNat_saturating_sub (a b : UInt64) :
    (saturating_sub a b).toNat = a.toNat - b.toNat := by
  unfold saturating_sub
  by_cases h : b ≤ a
  · rw [if_pos h, UInt64.toNat_sub_of_le _ _ h]
  · have hlt := UInt64.le_iff_toNat_le.not.mp h
    rw [if_neg h]
    simp only [UInt64.toNat_zero]
    omega

/-- What fits is computed. -/
theorem exists_checked_add (h : a.toNat + b.toNat < 2 ^ 64) : ∃ c, checked_add a b = some c :=
  ⟨_, if_pos h⟩

theorem exists_checked_sub (h : b.toNat ≤ a.toNat) : ∃ c, checked_sub a b = some c :=
  ⟨_, if_pos (UInt64.le_iff_toNat_le.mpr h)⟩

/-- Milliseconds in microseconds. -/
theorem checked_mul_thousand : checked_mul a 1000 = some c ↔ c.toNat = 1000 * a.toNat := by
  rw [checked_mul_eq_some, Nat.mul_comm]
  rfl

theorem exists_checked_mul_thousand (h : 1000 * a.toNat < 2 ^ 64) :
    ∃ c, checked_mul a 1000 = some c := by
  rw [Nat.mul_comm] at h
  exact ⟨_, if_pos h⟩

end UInt64

/-! ## The next deadline -/

/-- `next_deadline_ms`; `none` where it panics. -/
def next_deadline_ms (previous now interval : UInt64) : Option UInt64 :=
  if 0 < interval then do
    let slots ← checked_add (saturating_sub now previous / interval) 1
    let advance ← checked_mul slots interval
    checked_add previous advance
  else none

/-- `Instant::as_millis`, of an instant in microseconds. -/
def as_millis (instant : UInt64) : UInt64 := instant / 1000

/-- `Instant::from_millis`. -/
def from_millis (millis : UInt64) : Option UInt64 := checked_mul millis 1000

/-- What `main` does at the end of a cycle: the deadline after this one, when it is `now`. -/
def advance_cycle (interval next_cycle now : UInt64) : Option UInt64 := do
  let deadline ← next_deadline_ms (as_millis next_cycle) (as_millis now) interval
  from_millis deadline

/-- The deadlines of a run whose cycles end at `now 0`, `now 1`, ... -/
def deadlines (interval next_cycle : UInt64) (now : ℕ → UInt64) : ℕ → Option UInt64
  | 0 => some next_cycle
  | i + 1 => do advance_cycle interval (← deadlines interval next_cycle now i) (now i)

section Deadlines

variable {interval previous now deadline : UInt64}

/-- A number below `2 ^ 64` is that of a `u64`. -/
theorem exists_toNat {n : ℕ} (h : n < 2 ^ 64) : ∃ x : UInt64, x.toNat = n :=
  ⟨UInt64.ofNat n, UInt64.toNat_ofNat_of_lt' h⟩

/-- **What `next_deadline_ms` computes** is the next point of the grid. -/
theorem next_deadline_ms_eq_some (hI : 0 < interval) :
    next_deadline_ms previous now interval = some deadline
      ↔ deadline.toNat = Grid.next previous.toNat now.toNat interval.toNat := by
  have hpos : 0 < interval.toNat := UInt64.lt_iff_toNat_lt.mp hI
  unfold next_deadline_ms Grid.next
  rw [if_pos hI]
  simp only [Option.bind_eq_bind, Option.bind_eq_some_iff, checked_add_eq_some,
    checked_mul_eq_some, UInt64.toNat_div, toNat_saturating_sub, UInt64.toNat_one]
  constructor
  · rintro ⟨slots, hslots, advance, hadvance, hdeadline⟩
    rw [hdeadline, hadvance, hslots]
  · intro hdeadline
    -- every intermediate value is at most the deadline, which fits
    have hlt := deadline.toNat_lt
    have hle := Nat.le_mul_of_pos_right ((now.toNat - previous.toNat) / interval.toNat + 1) hpos
    obtain ⟨slots, hslots⟩ := exists_toNat
      (n := (now.toNat - previous.toNat) / interval.toNat + 1) (by omega)
    obtain ⟨advance, hadvance⟩ := exists_toNat (n := slots.toNat * interval.toNat)
      (by rw [hslots]; omega)
    refine ⟨slots, hslots, advance, hadvance, ?_⟩
    rw [hdeadline, hadvance, hslots]

/-- It fits when the later of its arguments leaves room for an interval. -/
theorem exists_next_deadline_ms (hI : 0 < interval)
    (h : max previous.toNat now.toNat + interval.toNat < 2 ^ 64) :
    ∃ deadline, next_deadline_ms previous now interval = some deadline := by
  have hle := Grid.next_le_max_add previous.toNat now.toNat interval.toNat
  obtain ⟨deadline, hdeadline⟩ := exists_toNat (lt_of_le_of_lt hle h)
  exact ⟨deadline, (next_deadline_ms_eq_some hI).mpr hdeadline⟩

theorem as_millis_toNat (instant : UInt64) : (as_millis instant).toNat = instant.toNat / 1000 :=
  UInt64.toNat_div instant 1000

/-- **One cycle**: the deadline is the next point of the millisecond grid. -/
theorem advance_cycle_eq_some (hI : 0 < interval) :
    advance_cycle interval previous now = some deadline
      ↔ deadline.toNat
        = Grid.next (previous.toNat / 1000) (now.toNat / 1000) interval.toNat * 1000 := by
  unfold advance_cycle from_millis
  simp only [Option.bind_eq_bind, Option.bind_eq_some_iff, next_deadline_ms_eq_some hI,
    checked_mul_thousand, as_millis_toNat]
  constructor
  · rintro ⟨millis, hmillis, hdeadline⟩
    rw [hdeadline, hmillis, Nat.mul_comm]
  · intro hdeadline
    have hlt := deadline.toNat_lt
    obtain ⟨millis, hmillis⟩ := exists_toNat
      (n := Grid.next (previous.toNat / 1000) (now.toNat / 1000) interval.toNat) (by omega)
    refine ⟨millis, hmillis, ?_⟩
    rw [hdeadline, hmillis, Nat.mul_comm]

/-- It fits when, in microseconds, the later of the deadline and the end leaves room. -/
theorem exists_advance_cycle (hI : 0 < interval)
    (h : max previous.toNat now.toNat + 1000 * interval.toNat < 2 ^ 64) :
    ∃ deadline, advance_cycle interval previous now = some deadline := by
  have hle := Grid.next_le_max_add (previous.toNat / 1000) (now.toNat / 1000) interval.toNat
  obtain ⟨deadline, hdeadline⟩ := exists_toNat
    (n := Grid.next (previous.toNat / 1000) (now.toNat / 1000) interval.toNat * 1000) (by omega)
  exact ⟨deadline, (advance_cycle_eq_some hI).mpr hdeadline⟩

variable {next_cycle d d' : UInt64} {e : ℕ → UInt64} {i j : ℕ}

/-- One step of the run. -/
theorem deadlines_succ (hI : 0 < interval) (h : deadlines interval next_cycle e i = some d)
    (h' : deadlines interval next_cycle e (i + 1) = some d') :
    d'.toNat = Grid.next (d.toNat / 1000) ((e i).toNat / 1000) interval.toNat * 1000 := by
  rw [deadlines, h] at h'
  exact (advance_cycle_eq_some hI).mp h'

/-- A run that gets to a deadline has had all the deadlines before it. -/
theorem exists_deadline_of_le (hij : i ≤ j) (h : (deadlines interval next_cycle e j).isSome) :
    (deadlines interval next_cycle e i).isSome := by
  induction j with
  | zero => rwa [Nat.le_zero.mp hij]
  | succ j ih =>
    by_cases hj : i = j + 1
    · rwa [hj]
    · refine ih (by omega) ?_
      by_contra hnone
      rw [deadlines, Option.not_isSome_iff_eq_none.mp hnone] at h
      simp at h

/-- Every deadline is on the grid of the first. -/
theorem deadlines_grid (hI : 0 < interval) (h : deadlines interval next_cycle e i = some d) :
    (∃ k, d.toNat / 1000 = next_cycle.toNat / 1000 + k * interval.toNat)
      ∧ (0 < i → 1000 ∣ d.toNat) := by
  induction i generalizing d with
  | zero =>
    cases h
    exact ⟨⟨0, by omega⟩, fun h => absurd h (lt_irrefl 0)⟩
  | succ i ih =>
    obtain ⟨d₀, h₀⟩ := Option.isSome_iff_exists.mp
      (exists_deadline_of_le (Nat.le_succ i) (Option.isSome_of_eq_some h))
    have hd := deadlines_succ hI h₀ h
    obtain ⟨⟨k, hk⟩, -⟩ := ih h₀
    obtain ⟨slots, hslots⟩ := Grid.exists_slots (d₀.toNat / 1000) ((e i).toNat / 1000) interval.toNat
    refine ⟨⟨k + slots, ?_⟩, fun _ => ?_⟩
    · rw [hd, Nat.mul_div_cancel _ (by decide), hslots, hk, Nat.add_assoc, ← Nat.add_mul]
    · exact ⟨_, hd.trans (Nat.mul_comm _ _)⟩

theorem deadlines_lt_succ (hI : 0 < interval) (h : deadlines interval next_cycle e i = some d)
    (h' : deadlines interval next_cycle e (i + 1) = some d') : d.toNat < d'.toNat := by
  have := Grid.start_lt_next (d.toNat / 1000) ((e i).toNat / 1000)
    (UInt64.lt_iff_toNat_lt.mp hI)
  rw [deadlines_succ hI h h']
  omega

/-- **The deadlines increase.** -/
theorem deadlines_lt (hI : 0 < interval) (hij : i < j)
    (h : deadlines interval next_cycle e i = some d)
    (h' : deadlines interval next_cycle e j = some d') : d.toNat < d'.toNat := by
  induction j generalizing d' with
  | zero => exact absurd hij (Nat.not_lt_zero i)
  | succ j ih =>
    obtain ⟨d₀, h₀⟩ := Option.isSome_iff_exists.mp
      (exists_deadline_of_le (Nat.le_succ j) (Option.isSome_of_eq_some h'))
    have hlast := deadlines_lt_succ hI h₀ h'
    by_cases hj : i = j
    · subst hj
      rw [h₀] at h
      cases h
      exact hlast
    · exact (ih (by omega) h₀).trans hlast

/-- A deadline is after the end of the cycle it was computed at. -/
theorem end_lt_deadline (hI : 0 < interval) (h : deadlines interval next_cycle e i = some d)
    (h' : deadlines interval next_cycle e (i + 1) = some d') : (e i).toNat < d'.toNat := by
  have := Grid.now_lt_next (d.toNat / 1000) ((e i).toNat / 1000)
    (UInt64.lt_iff_toNat_lt.mp hI)
  rw [deadlines_succ hI h h']
  omega

/-- No point of the grid after the end of the cycle is skipped. -/
theorem deadline_least (hI : 0 < interval) (h : deadlines interval next_cycle e i = some d)
    (h' : deadlines interval next_cycle e (i + 1) = some d') (hlate : d.toNat ≤ (e i).toNat) {k : ℕ}
    (hk : (e i).toNat < (next_cycle.toNat / 1000 + k * interval.toNat) * 1000) :
    d'.toNat ≤ (next_cycle.toNat / 1000 + k * interval.toNat) * 1000 := by
  obtain ⟨⟨k₀, hk₀⟩, -⟩ := deadlines_grid hI h
  -- count the slots from the last deadline instead of from the first
  have hk₀k : k₀ ≤ k := by
    by_contra hlt
    have := Nat.mul_le_mul_right interval.toNat (Nat.le_of_not_le hlt)
    omega
  have hsplit : next_cycle.toNat / 1000 + k * interval.toNat
      = d.toNat / 1000 + (k - k₀) * interval.toNat := by
    rw [hk₀, Nat.add_assoc, ← Nat.add_mul, Nat.add_sub_cancel' hk₀k]
  have hnext := Grid.next_le interval.toNat (k - k₀)
    (by omega : d.toNat / 1000 ≤ (e i).toNat / 1000) (by omega)
  rw [deadlines_succ hI h h', hsplit]
  exact Nat.mul_le_mul_right 1000 hnext

/-- After an early wake exactly one slot is advanced. -/
theorem deadline_early (hI : 0 < interval) (h : deadlines interval next_cycle e i = some d)
    (h' : deadlines interval next_cycle e (i + 1) = some d') (hearly : (e i).toNat < d.toNat) :
    d'.toNat = (d.toNat / 1000 + interval.toNat) * 1000 := by
  rw [deadlines_succ hI h h', Grid.next_of_le (by omega)]

/-- A run goes on as long as there is room for an interval. -/
theorem exists_deadline (hI : 0 < interval) {n : ℕ}
    (h : ∀ i < n, ∀ d, deadlines interval next_cycle e i = some d →
      max d.toNat (e i).toNat + 1000 * interval.toNat < 2 ^ 64) :
    (deadlines interval next_cycle e n).isSome := by
  induction n with
  | zero => rfl
  | succ n ih =>
    obtain ⟨d, hd⟩ := Option.isSome_iff_exists.mp (ih fun i hi => h i (by omega))
    obtain ⟨d', hd'⟩ := exists_advance_cycle hI (h n (by omega) d hd)
    rw [deadlines, hd]
    exact Option.isSome_of_eq_some hd'

end Deadlines

/-- **The schedule keeps its phase.** For any positive interval, any first deadline and any
cycle ends: every deadline is on the millisecond grid of the first one, the deadlines
increase, and each is after the cycle end it was computed at. After a cycle that was not
early it is the first such point of the grid, after an early one the next point. No `u64`
operation overflows as long as an interval fits after the later of deadline and end. -/
theorem fixed_phase (interval next_cycle : UInt64) (e : ℕ → UInt64) (hI : 0 < interval) :
    (∀ i d, deadlines interval next_cycle e i = some d →
        (∃ k, d.toNat / 1000 = next_cycle.toNat / 1000 + k * interval.toNat)
          ∧ (0 < i → 1000 ∣ d.toNat))
      ∧ (∀ i j d d', i < j → deadlines interval next_cycle e i = some d →
          deadlines interval next_cycle e j = some d' → d.toNat < d'.toNat)
      ∧ (∀ i d d', deadlines interval next_cycle e i = some d →
          deadlines interval next_cycle e (i + 1) = some d' →
            (e i).toNat < d'.toNat
            ∧ (d.toNat ≤ (e i).toNat → ∀ k,
                (e i).toNat < (next_cycle.toNat / 1000 + k * interval.toNat) * 1000 →
                d'.toNat ≤ (next_cycle.toNat / 1000 + k * interval.toNat) * 1000)
            ∧ ((e i).toNat < d.toNat → d'.toNat = (d.toNat / 1000 + interval.toNat) * 1000))
      ∧ (∀ previous now : UInt64, max previous.toNat now.toNat + interval.toNat < 2 ^ 64 →
          (next_deadline_ms previous now interval).isSome)
      ∧ ∀ n, (∀ i < n, ∀ d, deadlines interval next_cycle e i = some d →
          max d.toNat (e i).toNat + 1000 * interval.toNat < 2 ^ 64) →
        (deadlines interval next_cycle e n).isSome := by
  refine ⟨?_, ?_, ?_, ?_, ?_⟩
  · intro i d h
    exact deadlines_grid hI h
  · intro i j d d' hij h h'
    exact deadlines_lt hI hij h h'
  · intro i d d' h h'
    exact ⟨end_lt_deadline hI h h', fun hlate k hk => deadline_least hI h h' hlate hk,
      deadline_early hI h h'⟩
  · intro previous now h
    obtain ⟨deadline, hdeadline⟩ := exists_next_deadline_ms hI h
    exact Option.isSome_of_eq_some hdeadline
  · intro n h
    exact exists_deadline hI h

/-- Cycles of fifteen minutes, the first deadline half a second after the start, and a minute
of work in each. -/
theorem fixed_phase_quarter_hours :
    deadlines 900000 500000 (fun i => 60500000 + 900000000 * UInt64.ofNat i) 1 = some 900500000
      ∧ ∀ i d d', i < 2 → deadlines 900000 500000
          (fun i => 60500000 + 900000000 * UInt64.ofNat i) i = some d →
        deadlines 900000 500000 (fun i => 60500000 + 900000000 * UInt64.ofNat i) 2 = some d' →
          d.toNat < d'.toNat := by
  refine ⟨by decide, fun i d d' hi h h' => ?_⟩
  exact (fixed_phase 900000 500000 _ (by decide)).2.1 i 2 d d' hi h h'

end PicoDataLogger
