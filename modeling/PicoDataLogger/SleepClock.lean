/-
`schedule.rs`, second half, and `power.rs`: time across clock-gated sleep.

Two counters are merged. TIMER0 counts microseconds while the clocks run; the
always-on timer counts milliseconds through sleep. Each sleep is sampled on both at its
entry and its exit, and what the always-on timer has seen more is added to an offset; the
application clock is TIMER0 plus the offset.

True time is in microseconds since the always-on timer was started. A sleep costs the
application clock less than a millisecond of it, whichever way the millisecond
boundaries fall, and the errors of several sleeps add up.
-/
import PicoDataLogger.Schedule
import Mathlib.Algebra.Order.Group.Abs
import Mathlib.Tactic.NormNum

set_option autoImplicit false

namespace PicoDataLogger

/-! ## Accounting for a sleep -/

/-- `sleep_correction_us`. -/
def sleep_correction_us (aon_elapsed_ms native_elapsed_us : UInt64) : Option UInt64 := do
  let aon_elapsed_us ← checked_mul aon_elapsed_ms 1000
  return saturating_sub aon_elapsed_us native_elapsed_us

/-- The counters, and the offset in memory. -/
structure Clocks where
  /-- True time since the always-on timer was started. -/
  elapsed : ℕ
  /-- What TIMER0 has counted. -/
  native : ℕ
  /-- `SLEEP_OFFSET_US` -/
  offset : UInt64

namespace Clocks

/-- The always-on timer reads true time, floored to milliseconds. -/
def aon_ms (c : Clocks) : UInt64 := UInt64.ofNat (c.elapsed / 1000)

/-- `Instant::now().as_micros()` -/
def native_us (c : Clocks) : UInt64 := UInt64.ofNat c.native

/-- `power::now()` -/
def now (c : Clocks) : Option UInt64 := checked_add c.native_us c.offset

/-- The application clock, as a number. -/
def time (c : Clocks) : ℕ := c.native + c.offset.toNat

/-- The offset that `wait_until` sets after a sleep, from what it sampled before and after. -/
def corrected (before after : Clocks) : Option UInt64 := do
  let elapsed_ms ← checked_sub after.aon_ms before.aon_ms
  let native_us ← checked_sub after.native_us before.native_us
  let correction ← sleep_correction_us elapsed_ms native_us
  checked_add before.offset correction

end Clocks

/-- An interval of true time: awake, or asleep with TIMER0 counting only some of it. -/
inductive Span : Type where
  | awake (length : ℕ)
  | asleep (length counted : ℕ)

namespace Span

def length : Span → ℕ
  | .awake length => length
  | .asleep length _ => length

/-- What TIMER0 counts. -/
def counted : Span → ℕ
  | .awake length => length
  | .asleep _ counted => counted

/-- TIMER0 counts at most the time that passes. -/
def Valid (s : Span) : Prop := s.counted ≤ s.length

def sleeps : Span → ℕ
  | .awake _ => 0
  | .asleep _ _ => 1

/-- The counters after the span. -/
def pass (s : Span) (c : Clocks) : Clocks :=
  { c with elapsed := c.elapsed + s.length, native := c.native + s.counted }

@[simp] theorem pass_elapsed (s : Span) (c : Clocks) : (s.pass c).elapsed = c.elapsed + s.length := rfl

@[simp] theorem pass_native (s : Span) (c : Clocks) : (s.pass c).native = c.native + s.counted := rfl

/-- The span, and after a sleep its correction. -/
def run (s : Span) (c : Clocks) : Option Clocks :=
  match s with
  | .awake _ => some (s.pass c)
  | .asleep _ _ => do return { s.pass c with offset := ← c.corrected (s.pass c) }

end Span

/-- One span after the other. -/
def runSpans (spans : List Span) (c : Clocks) : Option Clocks := spans.foldlM (fun c s => s.run c) c

def totalLength (spans : List Span) : ℕ := (spans.map Span.length).sum

def totalCounted (spans : List Span) : ℕ := (spans.map Span.counted).sum

def totalSleeps (spans : List Span) : ℕ := (spans.map Span.sleeps).sum

/-! ## One sleep -/

section Sleep

variable {c c' : Clocks} {s : Span} {length counted : ℕ}

/-- What is asked of the counters: the milliseconds still fit in `u64` as microseconds, TIMER0
has not wrapped, and the offset is at most what the always-on timer has counted. -/
structure Clocks.Fits (c : Clocks) : Prop where
  aon : 1000 * (c.elapsed / 1000) < 2 ^ 64
  native : c.native < 2 ^ 64
  offset : c.offset.toNat ≤ 1000 * (c.elapsed / 1000)

theorem Clocks.aon_ms_toNat (h : 1000 * (c.elapsed / 1000) < 2 ^ 64) :
    c.aon_ms.toNat = c.elapsed / 1000 := by
  have hlt : c.elapsed / 1000 < 2 ^ 64 := by omega
  exact UInt64.toNat_ofNat_of_lt' hlt

theorem Clocks.native_us_toNat (h : c.native < 2 ^ 64) : c.native_us.toNat = c.native :=
  UInt64.toNat_ofNat_of_lt' h

/-- **The accounting of a sleep** does not overflow, and adds what TIMER0 has missed. -/
theorem exists_corrected (h : c.Fits) (haon : 1000 * ((s.pass c).elapsed / 1000) < 2 ^ 64)
    (hnative : (s.pass c).native < 2 ^ 64) :
    ∃ offset, c.corrected (s.pass c) = some offset ∧ offset.toNat = c.offset.toNat
      + (1000 * ((s.pass c).elapsed / 1000 - c.elapsed / 1000) - s.counted) := by
  have hlater : c.elapsed ≤ (s.pass c).elapsed := Nat.le_add_right _ _
  have hcounted := s.pass_native c
  have hafter := Clocks.aon_ms_toNat haon
  have hbefore := Clocks.aon_ms_toNat h.aon
  have hafter' := Clocks.native_us_toNat hnative
  have hbefore' := Clocks.native_us_toNat h.native
  -- both counters only move forward, so neither difference underflows
  obtain ⟨elapsed_ms, hms⟩ := exists_checked_sub (a := (s.pass c).aon_ms) (b := c.aon_ms)
    (by rw [hafter, hbefore]; omega)
  obtain ⟨native_us, hus⟩ := exists_checked_sub (a := (s.pass c).native_us) (b := c.native_us)
    (by rw [hafter', hbefore']; omega)
  have hms' := checked_sub_eq_some.mp hms
  have hus' := checked_sub_eq_some.mp hus
  rw [hafter, hbefore] at hms'
  rw [hafter', hbefore'] at hus'
  -- the sleep is no longer than the count that was assumed to fit
  obtain ⟨aon_us, haon_us⟩ := exists_checked_mul_thousand (a := elapsed_ms) (by omega)
  have haon_us' := checked_mul_thousand.mp haon_us
  have hoffset := h.offset
  -- the offset stays below the always-on count in microseconds
  obtain ⟨offset, hadd⟩ := exists_checked_add (a := c.offset) (b := saturating_sub aon_us native_us)
    (by rw [toNat_saturating_sub]; omega)
  have hadd' := checked_add_eq_some.mp hadd
  rw [toNat_saturating_sub] at hadd'
  refine ⟨offset, ?_, ?_⟩
  · unfold Clocks.corrected sleep_correction_us
    rw [hms, hus]
    simp only [Option.bind_eq_bind, Option.bind_some, haon_us]
    exact hadd
  · omega

/-- **One span** leaves the counters fit. Awake the application clock moves with TIMER0, and
across a sleep with whichever of the two counters has seen more. -/
theorem exists_run (h : c.Fits) (haon : 1000 * ((s.pass c).elapsed / 1000) < 2 ^ 64)
    (hnative : (s.pass c).native < 2 ^ 64) :
    ∃ c', s.run c = some c' ∧ c'.Fits ∧ c'.elapsed = c.elapsed + s.length
      ∧ c'.native = c.native + s.counted
      ∧ c'.time = c.time + match s with
        | .awake length => length
        | .asleep _ counted => max counted (1000 * (c'.elapsed / 1000 - c.elapsed / 1000)) := by
  have hoffset := h.offset
  have hlater := s.pass_elapsed c
  -- the offset moves across a sleep only
  cases s with
  | awake length =>
    refine ⟨_, rfl, ⟨haon, hnative, ?_⟩, rfl, rfl, ?_⟩
    · change c.offset.toNat ≤ 1000 * ((c.elapsed + length) / 1000)
      omega
    · change c.native + length + c.offset.toNat = c.native + c.offset.toNat + length
      omega
  | asleep length counted =>
    obtain ⟨offset, hcorrected, hsum⟩ := exists_corrected h haon hnative
    change offset.toNat = c.offset.toNat
      + (1000 * ((c.elapsed + length) / 1000 - c.elapsed / 1000) - counted) at hsum
    refine ⟨{ (Span.asleep length counted).pass c with offset }, ?_, ⟨haon, hnative, ?_⟩, rfl, rfl, ?_⟩
    · unfold Span.run
      rw [hcorrected]
      rfl
    · change offset.toNat ≤ 1000 * ((c.elapsed + length) / 1000)
      omega
    · change c.native + counted + offset.toNat = c.native + c.offset.toNat
        + max counted (1000 * ((c.elapsed + length) / 1000 - c.elapsed / 1000))
      omega

/-- A millisecond boundary more or less: what the application clock is off by after a span. -/
theorem exists_run_off (h : c.Fits) (hs : s.Valid)
    (haon : 1000 * ((s.pass c).elapsed / 1000) < 2 ^ 64) (hnative : (s.pass c).native < 2 ^ 64) :
    ∃ c', s.run c = some c' ∧ c'.Fits ∧ c'.elapsed = c.elapsed + s.length
      ∧ c'.native = c.native + s.counted ∧ c.time ≤ c'.time
      ∧ c'.time ≤ c.time + s.length + 999 * s.sleeps
      ∧ c.time + s.length ≤ c'.time + 999 * s.sleeps := by
  obtain ⟨c', hrun, hfits, helapsed, hcount, htime⟩ := exists_run h haon hnative
  refine ⟨c', hrun, hfits, helapsed, hcount, ?_⟩
  cases s with
  | awake length =>
    simp only [Span.length, Span.sleeps] at helapsed htime ⊢
    omega
  | asleep length counted =>
    have hle : counted ≤ length := hs
    simp only [Span.length, Span.sleeps] at helapsed htime ⊢
    rw [helapsed] at htime
    omega

end Sleep

/-! ## Whole runs -/

section Runs

variable {c : Clocks} {s : Span} {spans : List Span}

@[simp] theorem runSpans_nil : runSpans [] c = some c := rfl

@[simp] theorem runSpans_cons : runSpans (s :: spans) c = s.run c >>= runSpans spans := rfl

theorem runSpans_append (spans spans' : List Span) (c : Clocks) :
    runSpans (spans ++ spans') c = runSpans spans c >>= runSpans spans' :=
  List.foldlM_append

@[simp] theorem totalLength_cons : totalLength (s :: spans) = s.length + totalLength spans := rfl

@[simp] theorem totalCounted_cons : totalCounted (s :: spans) = s.counted + totalCounted spans := rfl

@[simp] theorem totalSleeps_cons : totalSleeps (s :: spans) = s.sleeps + totalSleeps spans := rfl

theorem totalLength_append (spans spans' : List Span) :
    totalLength (spans ++ spans') = totalLength spans + totalLength spans' := by
  simp [totalLength]

theorem totalCounted_append (spans spans' : List Span) :
    totalCounted (spans ++ spans') = totalCounted spans + totalCounted spans' := by
  simp [totalCounted]

/-- **A run** of the clocks is off by less than a millisecond for each sleep. -/
theorem exists_runSpans (h : c.Fits) (hspans : ∀ s ∈ spans, s.Valid)
    (haon : 1000 * ((c.elapsed + totalLength spans) / 1000) < 2 ^ 64)
    (hnative : c.native + totalCounted spans < 2 ^ 64) :
    ∃ c', runSpans spans c = some c' ∧ c'.Fits ∧ c'.elapsed = c.elapsed + totalLength spans
      ∧ c'.native = c.native + totalCounted spans
      ∧ c'.time ≤ c.time + totalLength spans + 999 * totalSleeps spans
      ∧ c.time + totalLength spans ≤ c'.time + 999 * totalSleeps spans := by
  induction spans generalizing c with
  | nil => exact ⟨c, rfl, h, rfl, rfl, Nat.le_add_right _ _, Nat.le_add_right _ _⟩
  | cons s spans ih =>
    simp only [totalLength_cons, totalCounted_cons, totalSleeps_cons] at haon hnative ⊢
    have haon₁ : 1000 * ((s.pass c).elapsed / 1000) < 2 ^ 64 := by
      change 1000 * ((c.elapsed + s.length) / 1000) < 2 ^ 64
      omega
    have hnative₁ : (s.pass c).native < 2 ^ 64 := by
      change c.native + s.counted < 2 ^ 64
      omega
    -- on the spans: each adds its length, and a sleep its millisecond
    obtain ⟨c₁, hrun₁, hfits₁, helapsed₁, hcount₁, -, hhi₁, hlo₁⟩ :=
      exists_run_off h (hspans s List.mem_cons_self) haon₁ hnative₁
    obtain ⟨c₂, hrun₂, hfits₂, helapsed₂, hcount₂, hhi₂, hlo₂⟩ := ih hfits₁
      (fun s' hs' => hspans s' (List.mem_cons_of_mem s hs')) (by rw [helapsed₁]; omega)
      (by rw [hcount₁]; omega)
    refine ⟨c₂, ?_, hfits₂, by omega, by omega, by omega, by omega⟩
    rw [runSpans_cons, hrun₁]
    exact hrun₂

/-- The counters when the always-on timer is started. -/
def Clocks.start (native : ℕ) : Clocks where
  elapsed := 0
  native
  offset := 0

theorem fits_start {native : ℕ} (h : native < 2 ^ 64) : (Clocks.start native).Fits where
  aon := (by decide : 1000 * (0 / 1000) < 2 ^ 64)
  native := h
  offset := Nat.zero_le _

/-- The application clock can be read as long as it fits. -/
theorem exists_now (h : c.Fits) (htime : c.time < 2 ^ 64) :
    ∃ t, c.now = some t ∧ t.toNat = c.time := by
  have hnative := Clocks.native_us_toNat h.native
  obtain ⟨t, ht⟩ := exists_checked_add (a := c.native_us) (b := c.offset) (by rwa [hnative])
  refine ⟨t, ht, ?_⟩
  rw [checked_add_eq_some.mp ht, hnative]
  rfl

/-- **The clock is accurate.** Over any sequence of awake intervals and sleeps, as long as the
always-on count fits in `u64` as microseconds and TIMER0 does not wrap: no accounting overflows;
the application clock never decreases, and across each sleep advances by the larger of what
TIMER0 and the always-on timer have counted; after `k ≥ 1` sleeps its advance is off by less
than `k` milliseconds; and reading it does not overflow as long as true time and that error
fit. -/
theorem clock_accuracy (spans : List Span) (native : ℕ) (hspans : ∀ s ∈ spans, s.Valid)
    (haon : 1000 * (totalLength spans / 1000) < 2 ^ 64)
    (hnative : native + totalCounted spans < 2 ^ 64) :
    ∃ c, runSpans spans (.start native) = some c
      ∧ (∀ pre s post, spans = pre ++ s :: post →
          ∃ c₁ c₂, runSpans pre (.start native) = some c₁ ∧ s.run c₁ = some c₂ ∧ c₁.time ≤ c₂.time
            ∧ ∀ length counted, s = .asleep length counted →
              c₂.time = c₁.time + max counted (1000 * (c₂.elapsed / 1000 - c₁.elapsed / 1000)))
      ∧ (1 ≤ totalSleeps spans →
          |(c.time : ℤ) - native - totalLength spans| < 1000 * totalSleeps spans)
      ∧ (native + totalLength spans + 1000 * totalSleeps spans < 2 ^ 64 →
          ∃ t, c.now = some t ∧ t.toNat = c.time) := by
  have hstart : (Clocks.start native).Fits := fits_start (by omega)
  have hzero : (Clocks.start native).time = native := Nat.add_zero native
  have haon₀ : 1000 * (((Clocks.start native).elapsed + totalLength spans) / 1000) < 2 ^ 64 := by
    rwa [show (Clocks.start native).elapsed = 0 from rfl, Nat.zero_add]
  obtain ⟨c, hrun, hfits, -, -, hhi, hlo⟩ := exists_runSpans hstart hspans haon₀ hnative
  rw [hzero] at hhi hlo
  refine ⟨c, hrun, ?_, ?_, ?_⟩
  -- the run up to the span is itself a run, with no less room
  · rintro pre s post rfl
    simp only [totalLength_append, totalCounted_append, totalLength_cons, totalCounted_cons]
      at haon hnative
    obtain ⟨c₁, hrun₁, hfits₁, helapsed₁, hcount₁, -, -⟩ := exists_runSpans hstart
      (fun s' hs' => hspans s' (List.mem_append_left _ hs'))
      (by rw [show (Clocks.start native).elapsed = 0 from rfl]; omega)
      (by rw [show (Clocks.start native).native = native from rfl]; omega)
    rw [show (Clocks.start native).elapsed = 0 from rfl, Nat.zero_add] at helapsed₁
    rw [show (Clocks.start native).native = native from rfl] at hcount₁
    have haon₁ : 1000 * ((s.pass c₁).elapsed / 1000) < 2 ^ 64 := by
      rw [Span.pass_elapsed]
      omega
    have hnative₁ : (s.pass c₁).native < 2 ^ 64 := by
      rw [Span.pass_native]
      omega
    obtain ⟨c₂, hrun₂, -, -, -, htime⟩ := exists_run hfits₁ haon₁ hnative₁
    refine ⟨c₁, c₂, hrun₁, hrun₂, htime ▸ Nat.le_add_right _ _, ?_⟩
    rintro length counted rfl
    exact htime
  · intro hsleeps
    rw [abs_lt]
    omega
  · intro hfit
    exact exists_now hfits (by omega)

/-- A minute awake, fourteen minutes asleep, and again. -/
theorem clock_accuracy_half_hour :
    ∃ c, runSpans [.awake 60000500, .asleep 839999700 2500, .awake 60000000, .asleep 840000000 1000]
        (.start 1000) = some c ∧ |(c.time : ℤ) - 1000 - 1800000200| < 2000 := by
  obtain ⟨c, hrun, -, hoff, -⟩ := clock_accuracy
    [.awake 60000500, .asleep 839999700 2500, .awake 60000000, .asleep 840000000 1000] 1000
    (by simp [Span.Valid, Span.counted, Span.length]) (by decide) (by decide)
  exact ⟨c, hrun, hoff (by decide)⟩

/-! ## Where the clock overflows

A sleep of just over a millisecond that crosses two millisecond boundaries counts as two. A
device that does this every time gains on true time, and its clock is full before the
always-on count is. -/

/-- Awake 20.999 ms, then asleep for 1.001 ms, `n` times. -/
def naps : ℕ → List Span
  | 0 => []
  | n + 1 => naps n ++ [.awake 20999, .asleep 1001 1]

theorem naps_valid (n : ℕ) : ∀ s ∈ naps n, s.Valid := by
  induction n with
  | zero => exact fun s hs => by cases hs
  | succ n ih =>
    intro s hs
    rcases List.mem_append.mp hs with hs | hs
    · exact ih s hs
    · simp only [List.mem_cons, List.not_mem_nil, or_false] at hs
      rcases hs with rfl | rfl
      · exact le_rfl
      · exact (by decide : 1 ≤ 1001)

theorem totalLength_naps (n : ℕ) : totalLength (naps n) = 22000 * n := by
  induction n with
  | zero => rfl
  | succ n ih =>
    rw [naps, totalLength_append, ih, Nat.mul_succ]
    rfl

theorem totalCounted_naps (n : ℕ) : totalCounted (naps n) = 21000 * n := by
  induction n with
  | zero => rfl
  | succ n ih =>
    rw [naps, totalCounted_append, ih, Nat.mul_succ]
    rfl

theorem two_boundaries (n : ℕ) :
    (22000 * n + 20999 + 1001) / 1000 - (22000 * n + 20999) / 1000 = 2 := by
  omega

/-- Every nap takes 22 ms and moves the clock by 22.999 ms. -/
theorem exists_naps {n : ℕ} (hn : 22000 * n < 2 ^ 64) :
    ∃ c, runSpans (naps n) (.start 0) = some c ∧ c.Fits ∧ c.elapsed = 22000 * n
      ∧ c.native = 21000 * n ∧ c.time = 22999 * n := by
  induction n with
  | zero => exact ⟨_, rfl, fits_start (by decide), rfl, rfl, rfl⟩
  | succ n ih =>
    obtain ⟨c, hrun, hfits, helapsed, hnative, htime⟩ := ih (by omega)
    obtain ⟨c₁, hrun₁, hfits₁, helapsed₁, hnative₁, htime₁⟩ := exists_run (s := .awake 20999) hfits
      (by rw [Span.pass_elapsed, Span.length]; omega) (by rw [Span.pass_native, Span.counted]; omega)
    simp only [Span.length, Span.counted] at helapsed₁ hnative₁ htime₁
    obtain ⟨c₂, hrun₂, hfits₂, helapsed₂, hnative₂, htime₂⟩ := exists_run (s := .asleep 1001 1) hfits₁
      (by rw [Span.pass_elapsed, Span.length]; omega) (by rw [Span.pass_native, Span.counted]; omega)
    simp only [Span.length, Span.counted] at helapsed₂ hnative₂ htime₂
    refine ⟨c₂, ?_, hfits₂, by omega, by omega, ?_⟩
    · rw [naps, runSpans_append, hrun, Option.bind_eq_bind, Option.bind_some, runSpans_cons, hrun₁,
        Option.bind_eq_bind, Option.bind_some, runSpans_cons, hrun₂]
      rfl
    · -- the nap crosses two boundaries
      rw [helapsed₂, helapsed₁, helapsed, two_boundaries] at htime₂
      have hmax : max 1 (1000 * 2) = 2000 := rfl
      rw [hmax] at htime₂
      omega

/-- **The clock overflows** while the always-on count, 18040000000000000 ms, is still below
`2 ^ 64 / 1000`. -/
theorem now_overflows :
    (∀ s ∈ naps 820000000000000, s.Valid)
      ∧ 1000 * (totalLength (naps 820000000000000) / 1000) < 2 ^ 64
      ∧ totalCounted (naps 820000000000000) < 2 ^ 64
      ∧ ∃ c, runSpans (naps 820000000000000) (.start 0) = some c ∧ c.now = none := by
  obtain ⟨c, hrun, hfits, -, hnative, htime⟩ := exists_naps (n := 820000000000000) (by norm_num)
  refine ⟨naps_valid _, ?_, ?_, c, hrun, ?_⟩
  · rw [totalLength_naps]
    norm_num
  · rw [totalCounted_naps]
    norm_num
  · have hfull : ¬ c.native_us.toNat + c.offset.toNat < 2 ^ 64 := by
      rw [Clocks.native_us_toNat hfits.native]
      change ¬ c.time < 2 ^ 64
      rw [htime]
      norm_num
    exact if_neg hfull

end Runs

end PicoDataLogger
