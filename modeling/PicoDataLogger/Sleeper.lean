/-
`power.rs`, `Sleeper::wait_until`, and the loop of `main` around it.

On USB the wait is a timer's. On battery the logger is given 20 ms, and then the clocks
are gated until an alarm of the always-on timer, which is set in whole
milliseconds: a wait that is under 2 ms is not worth it, and one that is rounded down ends
early. How long everything takes beyond what is asked is arbitrary.

A cycle never starts 2 ms early. The deadlines are an interval or more apart, so
there are no more cycles than intervals; and as long as no cycle takes an interval
there are no fewer.
-/
import PicoDataLogger.SleepClock

set_option autoImplicit false

namespace PicoDataLogger

/-! ## Waiting -/

/-- How long things take in a wait, on top of what is asked for, in microseconds. -/
structure Delays where
  /-- A timer ends late. -/
  timer : ℕ
  /-- From the remaining time to the samples of the counters. -/
  sample : ℕ
  /-- From the samples until the alarm is set. -/
  set_alarm : ℕ
  /-- From the alarm until the clocks run. -/
  wake : ℕ
  /-- What TIMER0 misses of it all. -/
  gated : ℕ

/-- All the delays of a wait. -/
def Delays.total (delays : Delays) : ℕ := delays.timer + delays.sample + delays.set_alarm + delays.wake

/-- `Timer::after_millis(20)` -/
def FLUSH_US : ℕ := 20000

/-- The clock-gated part, from the samples `before`. An alarm that is not in the future is refused,
and any other is waited for until the always-on timer has it. -/
def sleep_until_alarm (alarm : UInt64) (delays : Delays) (before : Clocks) : Option Clocks :=
  let set := (Span.awake delays.set_alarm).pass before
  if alarm ≤ set.aon_ms then some set
  else
    let length := delays.set_alarm + (1000 * alarm.toNat - set.elapsed) + delays.wake
    (Span.asleep length (length - delays.gated)).run before

/-- `Sleeper::wait_until`; `none` is an overflow. -/
def wait_until (deadline : UInt64) (battery : Bool) (delays : Delays) (c : Clocks) : Option Clocks := do
  match checked_sub deadline (← c.now) with
  | none => return c
  | some remaining =>
    if !battery then return (Span.awake (remaining.toNat + delays.timer)).pass c
    else
      let flushed := (Span.awake (FLUSH_US + delays.timer)).pass c
      match checked_sub deadline (← flushed.now) with
      | none => return flushed
      | some remaining =>
        if remaining < 2000 then return flushed
        else
          let before := (Span.awake delays.sample).pass flushed
          sleep_until_alarm (← checked_add before.aon_ms (as_millis remaining)) delays before

/-- The counters have not wrapped. -/
structure Clocks.InRange (c : Clocks) : Prop where
  elapsed : c.elapsed < 2 ^ 64
  native : c.native < 2 ^ 64

section Wait

variable {c c' : Clocks} {deadline t : UInt64} {battery : Bool} {delays : Delays} {length counted : ℕ}

theorem Clocks.now_toNat (hnative : c.native < 2 ^ 64) (h : c.now = some t) : t.toNat = c.time := by
  have hsum := checked_add_eq_some.mp h
  rw [Clocks.native_us_toNat hnative] at hsum
  exact hsum

theorem pass_awake_time (length : ℕ) (c : Clocks) :
    ((Span.awake length).pass c).time = c.time + length := by
  change c.native + length + c.offset.toNat = c.native + c.offset.toNat + length
  omega

theorem Clocks.Fits.awake (h : c.Fits) (hrange : ((Span.awake length).pass c).InRange) :
    ((Span.awake length).pass c).Fits := by
  have helapsed := hrange.elapsed
  have hoffset := h.offset
  rw [Span.pass_elapsed] at helapsed
  refine ⟨?_, hrange.native, ?_⟩
  · rw [Span.pass_elapsed]
    omega
  · rw [Span.pass_elapsed]
    exact le_trans hoffset (Nat.mul_le_mul_left _ (Nat.div_le_div_right (Nat.le_add_right _ _)))

/-- The counters only move forward. -/
theorem run_asleep_le (hrun : (Span.asleep length counted).run c = some c') :
    c'.elapsed = c.elapsed + length ∧ c'.native = c.native + counted := by
  unfold Span.run at hrun
  simp only [Option.bind_eq_bind, Option.bind_eq_some_iff] at hrun
  obtain ⟨offset, -, hc'⟩ := hrun
  cases hc'
  exact ⟨rfl, rfl⟩

/-- A sleep that does not overflow. -/
theorem Clocks.Fits.asleep (h : c.Fits) (hrun : (Span.asleep length counted).run c = some c')
    (hrange : c'.InRange) :
    c'.Fits ∧ c'.elapsed = c.elapsed + length
      ∧ c'.time = c.time + max counted (1000 * (c'.elapsed / 1000 - c.elapsed / 1000)) := by
  have hpass := run_asleep_le hrun
  have helapsed := hrange.elapsed
  have hnative := hrange.native
  rw [hpass.1] at helapsed
  rw [hpass.2] at hnative
  obtain ⟨c'', hrun', hfits, helapsed', -, htime⟩ :=
    exists_run h (s := .asleep length counted) (by rw [Span.pass_elapsed, Span.length]; omega)
      (by rw [Span.pass_native, Span.counted]; exact hnative)
  rw [hrun] at hrun'
  cases hrun'
  exact ⟨hfits, helapsed', htime⟩

theorem Clocks.InRange.of_le (h : c'.InRange) (helapsed : c.elapsed ≤ c'.elapsed)
    (hnative : c.native ≤ c'.native) : c.InRange :=
  ⟨lt_of_le_of_lt helapsed h.elapsed, lt_of_le_of_lt hnative h.native⟩

theorem lt_of_checked_sub_eq_none {a b : UInt64} (h : checked_sub a b = none) : a.toNat < b.toNat := by
  unfold checked_sub at h
  split at h
  · cases h
  · rename_i hlt
    exact UInt64.lt_iff_toNat_lt.mp (UInt64.not_le.mp hlt)

theorem sleep_until_alarm_le {alarm : UInt64} (hsleep : sleep_until_alarm alarm delays c = some c') :
    c.elapsed ≤ c'.elapsed ∧ c.native ≤ c'.native := by
  unfold sleep_until_alarm at hsleep
  simp only at hsleep
  split at hsleep
  · cases hsleep
    exact ⟨Nat.le_add_right _ _, Nat.le_add_right _ _⟩
  · obtain ⟨helapsed, hnative⟩ := run_asleep_le hsleep
    exact ⟨by omega, by omega⟩

/-- The clock-gated part of a wait: two milliseconds are not known of where it starts and ends. -/
theorem sleep_until_alarm_spec {alarm : UInt64} (h : c.Fits) (hlater : c.elapsed / 1000 ≤ alarm.toNat)
    (hsleep : sleep_until_alarm alarm delays c = some c') (hrange : c'.InRange) :
    c'.Fits ∧ c.elapsed ≤ c'.elapsed ∧ c.time ≤ c'.time
      ∧ c.time + 1000 * (alarm.toNat - c.elapsed / 1000) ≤ c'.time + 999
      ∧ c'.time ≤ c.time + 1000 * (alarm.toNat - c.elapsed / 1000) + 999 + delays.set_alarm
        + delays.wake := by
  unfold sleep_until_alarm at hsleep
  simp only at hsleep
  have hset := pass_awake_time delays.set_alarm c
  by_cases hpast : alarm ≤ ((Span.awake delays.set_alarm).pass c).aon_ms
  · -- it took so long to set the alarm that its time has come
    rw [if_pos hpast, Option.some.injEq] at hsleep
    subst hsleep
    have hfits := h.awake hrange
    have haon := UInt64.le_iff_toNat_le.mp hpast
    rw [Clocks.aon_ms_toNat hfits.aon, Span.pass_elapsed, Span.length] at haon
    refine ⟨hfits, ?_, ?_, ?_, ?_⟩
    · rw [Span.pass_elapsed]
      omega
    · omega
    · omega
    · omega
  · rw [if_neg hpast] at hsleep
    obtain ⟨hfits, helapsed, htime⟩ := h.asleep hsleep hrange
    have hset_range : ((Span.awake delays.set_alarm).pass c).elapsed < 2 ^ 64 := by
      have := hrange.elapsed
      rw [Span.pass_elapsed, Span.length]
      omega
    have haon : ((Span.awake delays.set_alarm).pass c).aon_ms.toNat < alarm.toNat :=
      UInt64.lt_iff_toNat_lt.mp (UInt64.not_le.mp hpast)
    rw [Clocks.aon_ms_toNat (by omega)] at haon
    rw [Span.pass_elapsed, Span.length] at haon
    rw [Span.pass_elapsed, Span.length] at helapsed htime
    refine ⟨hfits, by omega, by omega, ?_, ?_⟩
    · omega
    · omega

/-- **A wait** ends less than 2 ms early, and late by the flush and its own delays at most. -/
theorem wait_until_spec (h : c.Fits) (hwait : wait_until deadline battery delays c = some c')
    (hrange : c'.InRange) :
    c'.Fits ∧ c.elapsed ≤ c'.elapsed ∧ c.time ≤ c'.time ∧ deadline.toNat < c'.time + 2000
      ∧ c'.time ≤ max c.time deadline.toNat + 21000 + delays.total := by
  unfold wait_until at hwait
  simp only [Option.bind_eq_bind, Option.bind_eq_some_iff] at hwait
  obtain ⟨now, hnow, hwait⟩ := hwait
  have htime := Clocks.now_toNat h.native hnow
  unfold Delays.total
  cases hremaining : checked_sub deadline now with
  | none =>
    -- the deadline has passed
    have hlt := lt_of_checked_sub_eq_none hremaining
    rw [hremaining] at hwait
    cases hwait
    exact ⟨h, le_rfl, le_rfl, by omega, by omega⟩
  | some remaining =>
    have hsum := checked_sub_eq_some.mp hremaining
    simp only [hremaining] at hwait
    by_cases husb : (!battery) = true
    · rw [if_pos husb] at hwait
      cases hwait
      have hpass := pass_awake_time (remaining.toNat + delays.timer) c
      refine ⟨h.awake hrange, ?_, by omega, by omega, by omega⟩
      rw [Span.pass_elapsed]
      omega
    rw [if_neg husb] at hwait
    simp only [Option.bind_eq_some_iff] at hwait
    obtain ⟨now', hnow', hwait⟩ := hwait
    have hflush : FLUSH_US = 20000 := rfl
    have hpass := pass_awake_time (FLUSH_US + delays.timer) c
    cases hleft : checked_sub deadline now' with
    | none =>
      -- it passes during the flush
      rw [hleft] at hwait
      cases hwait
      have hfits := h.awake hrange
      have hlt := lt_of_checked_sub_eq_none hleft
      rw [Clocks.now_toNat hrange.native hnow'] at hlt
      refine ⟨hfits, ?_, by omega, by omega, by omega⟩
      rw [Span.pass_elapsed]
      omega
    | some left =>
      have hsum' := checked_sub_eq_some.mp hleft
      simp only [hleft] at hwait
      by_cases hshort : left < 2000
      · rw [if_pos hshort] at hwait
        cases hwait
        have hfits := h.awake hrange
        rw [Clocks.now_toNat hrange.native hnow'] at hsum'
        have hlt : left.toNat < 2000 := UInt64.lt_iff_toNat_lt.mp hshort
        refine ⟨hfits, ?_, by omega, by omega, by omega⟩
        rw [Span.pass_elapsed]
        omega
      · rw [if_neg hshort] at hwait
        simp only [Option.bind_eq_some_iff] at hwait
        obtain ⟨alarm, halarm, hsleep⟩ := hwait
        -- everything before the alarm is in range because what comes after it is
        obtain ⟨helapsed, hnative⟩ := sleep_until_alarm_le hsleep
        rw [Span.pass_elapsed, Span.length] at helapsed
        rw [Span.pass_native, Span.counted] at hnative
        have hflushed := h.awake (hrange.of_le (c := (Span.awake (FLUSH_US + delays.timer)).pass c)
          (by omega) (by omega))
        have hbefore := hflushed.awake (hrange.of_le
          (c := (Span.awake delays.sample).pass ((Span.awake (FLUSH_US + delays.timer)).pass c))
          (by rw [Span.pass_elapsed, Span.length]; omega) (by rw [Span.pass_native, Span.counted]; omega))
        rw [Clocks.now_toNat hflushed.native hnow'] at hsum'
        have hsample := pass_awake_time delays.sample ((Span.awake (FLUSH_US + delays.timer)).pass c)
        have hset := checked_add_eq_some.mp halarm
        rw [Clocks.aon_ms_toNat hbefore.aon, as_millis_toNat] at hset
        obtain ⟨hfits, hle, hmono, hearly, hlate⟩ :=
          sleep_until_alarm_spec hbefore (by omega) hsleep hrange
        refine ⟨hfits, ?_, by omega, by omega, by omega⟩
        rw [Span.pass_elapsed, Span.pass_elapsed, Span.length, Span.length] at hle
        omega

end Wait

/-! ## The loop of `main` -/

/-- A round of the loop: how long the cycle took, what it read of the power, and the delays. -/
structure Round where
  length : ℕ
  on_battery : Option Bool
  delays : Delays

/-- What the loop keeps from round to round. -/
structure Schedule where
  clocks : Clocks
  next_cycle : UInt64

/-- The end of a round: the next deadline, and the wait for it. -/
def Schedule.round (interval : UInt64) (S : Schedule) (r : Round) : Option Schedule := do
  let ended := (Span.awake r.length).pass S.clocks
  let next_cycle ← advance_cycle interval S.next_cycle (← ended.now)
  let clocks ← wait_until next_cycle (r.on_battery == some true) r.delays ended
  return { clocks, next_cycle }

/-- The first rounds of the loop. -/
def Schedule.rounds (interval : UInt64) (S : Schedule) (rs : List Round) : Option Schedule :=
  rs.foldlM (fun S r => S.round interval r) S

section Rounds

variable {interval : UInt64} {S S' : Schedule} {r : Round} {rs : List Round}

theorem wait_until_le {c c' : Clocks} {deadline : UInt64} {battery : Bool} {delays : Delays}
    (hwait : wait_until deadline battery delays c = some c') :
    c.elapsed ≤ c'.elapsed ∧ c.native ≤ c'.native := by
  unfold wait_until at hwait
  simp only [Option.bind_eq_bind, Option.bind_eq_some_iff] at hwait
  obtain ⟨now, -, hwait⟩ := hwait
  split at hwait
  · cases hwait
    exact ⟨le_rfl, le_rfl⟩
  split at hwait
  · cases hwait
    exact ⟨Nat.le_add_right _ _, Nat.le_add_right _ _⟩
  simp only [Option.bind_eq_some_iff] at hwait
  obtain ⟨now', -, hwait⟩ := hwait
  split at hwait
  · cases hwait
    exact ⟨Nat.le_add_right _ _, Nat.le_add_right _ _⟩
  split at hwait
  · cases hwait
    exact ⟨Nat.le_add_right _ _, Nat.le_add_right _ _⟩
  simp only [Option.bind_eq_some_iff] at hwait
  obtain ⟨alarm, -, hsleep⟩ := hwait
  obtain ⟨helapsed, hnative⟩ := sleep_until_alarm_le hsleep
  rw [Span.pass_elapsed, Span.pass_elapsed] at helapsed
  rw [Span.pass_native, Span.pass_native] at hnative
  exact ⟨by omega, by omega⟩

/-- What a round does. -/
theorem round_eq_some (h : S.round interval r = some S') :
    ∃ now, ((Span.awake r.length).pass S.clocks).now = some now
      ∧ advance_cycle interval S.next_cycle now = some S'.next_cycle
      ∧ wait_until S'.next_cycle (r.on_battery == some true) r.delays ((Span.awake r.length).pass S.clocks)
        = some S'.clocks := by
  unfold Schedule.round at h
  simp only [Option.bind_eq_bind, Option.bind_eq_some_iff] at h
  obtain ⟨now, hnow, next_cycle, hnext, clocks, hwait, hS'⟩ := h
  cases hS'
  exact ⟨now, hnow, hnext, hwait⟩

theorem round_le (h : S.round interval r = some S') :
    S.clocks.elapsed ≤ S'.clocks.elapsed ∧ S.clocks.native ≤ S'.clocks.native := by
  obtain ⟨now, -, -, hwait⟩ := round_eq_some h
  obtain ⟨helapsed, hnative⟩ := wait_until_le hwait
  rw [Span.pass_elapsed] at helapsed
  rw [Span.pass_native] at hnative
  exact ⟨by omega, by omega⟩

/-- **A round** ends at its deadline, or less than 2 ms before: a grid point after the one before,
and the first after the end of the cycle. -/
theorem round_spec (hI : 0 < interval) (hfits : S.clocks.Fits) (h : S.round interval r = some S')
    (hrange : S'.clocks.InRange) :
    S'.clocks.Fits ∧ S.clocks.time ≤ S'.clocks.time
      ∧ S'.next_cycle.toNat < S'.clocks.time + 2000
      ∧ S'.clocks.time ≤ max (S.clocks.time + r.length) S'.next_cycle.toNat + 21000 + r.delays.total
      ∧ S'.next_cycle.toNat = Grid.next (S.next_cycle.toNat / 1000)
        ((S.clocks.time + r.length) / 1000) interval.toNat * 1000 := by
  obtain ⟨now, hnow, hnext, hwait⟩ := round_eq_some h
  obtain ⟨helapsed, hnative⟩ := wait_until_le hwait
  have hended := hfits.awake (hrange.of_le helapsed hnative)
  have htime := Clocks.now_toNat hended.native hnow
  have hpass := pass_awake_time r.length S.clocks
  obtain ⟨hfits', -, hmono, hearly, hlate⟩ := wait_until_spec hended hwait hrange
  rw [advance_cycle_eq_some hI, htime, hpass] at hnext
  exact ⟨hfits', by omega, hearly, by omega, hnext⟩

/-- The loop at boot: the first cycle is due at once. -/
structure Schedule.Boots (S : Schedule) : Prop where
  fits : S.clocks.Fits
  due : S.next_cycle.toNat = S.clocks.time

theorem rounds_append (rs : List Round) (r : Round) :
    S.rounds interval (rs ++ [r]) = (S.rounds interval rs).bind fun S => S.round interval r := by
  unfold Schedule.rounds
  rw [List.foldlM_append]
  refine congrArg _ (funext fun S => ?_)
  rw [List.foldlM_cons]
  exact bind_pure _

/-- Holds after every round: the deadlines are a grid of the interval, at least a step further on
each time, and no cycle starts 2 ms before its own. -/
theorem rounds_spec (hI : 0 < interval) (hboot : S.Boots) (h : S.rounds interval rs = some S')
    (hrange : S'.clocks.InRange) :
    S'.clocks.Fits ∧ S.clocks.elapsed ≤ S'.clocks.elapsed
      ∧ S'.next_cycle.toNat < S'.clocks.time + 2000
      ∧ ∃ slots, rs.length ≤ slots
        ∧ S'.next_cycle.toNat / 1000 = S.next_cycle.toNat / 1000 + slots * interval.toNat := by
  induction rs using List.reverseRecOn generalizing S' with
  | nil =>
    cases h
    have hdue := hboot.due
    exact ⟨hboot.fits, le_rfl, by omega, 0, le_rfl, by simp⟩
  | append_singleton rs r ih =>
    rw [rounds_append, Option.bind_eq_some_iff] at h
    obtain ⟨S₁, hrounds, hround⟩ := h
    obtain ⟨helapsed, hnative⟩ := round_le hround
    obtain ⟨hfits₁, hle₁, -, slots, hslots, hgrid⟩ := ih hrounds (hrange.of_le helapsed hnative)
    obtain ⟨hfits, -, hearly, -, hnext⟩ := round_spec hI hfits₁ hround hrange
    -- the grid moves on by a step or more
    unfold Grid.next at hnext
    generalize ((S₁.clocks.time + r.length) / 1000 - S₁.next_cycle.toNat / 1000) / interval.toNat = missed
      at hnext
    refine ⟨hfits, le_trans hle₁ helapsed, hearly, slots + (missed + 1), ?_, ?_⟩
    · rw [List.length_append, List.length_singleton]
      omega
    · rw [hnext, Nat.mul_div_cancel _ (by norm_num), hgrid, Nat.add_mul slots, Nat.add_assoc]

/-- As long as no cycle takes an interval, there is one for every step of the grid. -/
theorem rounds_punctual {late : ℕ} (hI : 0 < interval) (hboot : S.Boots)
    (hlate : ∀ r ∈ rs, r.delays.total ≤ late ∧ r.length + late + 22000 ≤ 1000 * interval.toNat)
    (h : S.rounds interval rs = some S') (hrange : S'.clocks.InRange) :
    S'.clocks.time ≤ S'.next_cycle.toNat + 21000 + late
      ∧ S'.next_cycle.toNat / 1000 = S.next_cycle.toNat / 1000 + rs.length * interval.toNat := by
  induction rs using List.reverseRecOn generalizing S' with
  | nil =>
    cases h
    have hdue := hboot.due
    exact ⟨by omega, by simp⟩
  | append_singleton rs r ih =>
    rw [rounds_append, Option.bind_eq_some_iff] at h
    obtain ⟨S₁, hrounds, hround⟩ := h
    obtain ⟨helapsed, hnative⟩ := round_le hround
    have hrange₁ := hrange.of_le helapsed hnative
    obtain ⟨hfits₁, -⟩ := rounds_spec hI hboot hrounds hrange₁
    obtain ⟨htime, hgrid⟩ := ih (fun r' hr' => hlate r' (List.mem_append_left _ hr')) hrounds hrange₁
    obtain ⟨-, -, -, hwait, hnext⟩ := round_spec hI hfits₁ hround hrange
    obtain ⟨hdelays, hshort⟩ := hlate r (by simp)
    -- the cycle ends before the step after its own
    have hmissed : ((S₁.clocks.time + r.length) / 1000 - S₁.next_cycle.toNat / 1000) / interval.toNat = 0 :=
      Nat.div_eq_of_lt (by omega)
    rw [Grid.next, hmissed, Nat.zero_add, Nat.one_mul] at hnext
    refine ⟨by omega, ?_⟩
    rw [hnext, Nat.mul_div_cancel _ (by norm_num), hgrid, List.length_append, List.length_singleton,
      Nat.add_mul, Nat.one_mul, Nat.add_assoc]

/-- Five seconds of a cycle on USB, and then a minute of one on battery. -/
def two_rounds : List Round :=
  [⟨5000000, some false, ⟨7, 0, 0, 0, 0⟩⟩, ⟨60000000, some true, ⟨10, 20, 30, 40, 800000000⟩⟩]

end Rounds

end PicoDataLogger
