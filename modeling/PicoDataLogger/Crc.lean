/-
Cyclic redundancy checks, as shift registers.

A register of `w` bits takes a stream of bits at its low end and shifts down; a bit
that falls out at the bottom adds the polynomial. This is linear in the register and
in the stream, and no shift loses anything when the polynomial has its top bit. Two
streams that leave the same register therefore differ by a stream that leaves
nothing in an empty one, and no burst of up to `w` bits does that.

The stream is a function of the position, so that a window of it is an interval.
-/
import Mathlib.Data.BitVec
import Mathlib.Logic.Function.Iterate

set_option autoImplicit false

namespace Crc

section Register

variable {w : ℕ} (p : BitVec w)

/-- One shift of the register. -/
def shift (r : BitVec w) : BitVec w := (r >>> 1) ^^^ (if r.getLsbD 0 then p else 0#w)

/-- A bit as a word. -/
def bit (w : ℕ) (b : Bool) : BitVec w := if b then 1#w else 0#w

/-- The register takes a bit. -/
def feed (r : BitVec w) (b : Bool) : BitVec w := shift p (r ^^^ bit w b)

/-- The register after `n` bits of the stream. -/
def run (r : BitVec w) (f : ℕ → Bool) : ℕ → BitVec w
  | 0 => r
  | n + 1 => feed p (run r f n) (f n)

/-! ## Linearity -/

theorem xor_xor_xor_comm (a b c d : BitVec w) : a ^^^ b ^^^ (c ^^^ d) = a ^^^ c ^^^ (b ^^^ d) := by
  rw [BitVec.xor_assoc, ← BitVec.xor_assoc b c d, BitVec.xor_comm b c, BitVec.xor_assoc c b d,
    BitVec.xor_assoc]

theorem shift_xor (r s : BitVec w) : shift p (r ^^^ s) = shift p r ^^^ shift p s := by
  unfold shift
  rw [BitVec.ushiftRight_xor_distrib, BitVec.getLsbD_xor, xor_xor_xor_comm]
  congr 1
  by_cases hr : r.getLsbD 0 = true
  · by_cases hs : s.getLsbD 0 = true
    · simp [hr, hs]
    · simp [hr, hs]
  · by_cases hs : s.getLsbD 0 = true
    · simp [hr, hs]
    · simp [hr, hs]

@[simp] theorem shift_zero : shift p 0#w = 0#w := by simp [shift]

@[simp] theorem bit_false : bit w false = 0#w := rfl

@[simp] theorem bit_xor (a b : Bool) : bit w (a ^^ b) = bit w a ^^^ bit w b := by
  cases a <;> cases b <;> simp [bit]

theorem bit_ushiftRight (b : Bool) : bit w b >>> 1 = 0#w := by
  apply BitVec.eq_of_getLsbD_eq
  intro i hi
  rw [BitVec.getLsbD_ushiftRight]
  cases b with
  | false => simp
  | true => simp [bit]

theorem bit_getLsbD_zero (hw : 0 < w) : (bit w true).getLsbD 0 = true := by simp [bit, hw]

@[simp] theorem iterate_shift_zero (n : ℕ) : (shift p)^[n] 0#w = 0#w :=
  Function.iterate_fixed (shift_zero p) n

theorem feed_xor (r s : BitVec w) (a b : Bool) :
    feed p (r ^^^ s) (a ^^ b) = feed p r a ^^^ feed p s b := by
  rw [feed, bit_xor, xor_xor_xor_comm, shift_xor]
  rfl

/-- The register is linear in what it starts with and in the stream. -/
theorem run_xor (r s : BitVec w) (f g : ℕ → Bool) (n : ℕ) :
    run p (r ^^^ s) (fun i => f i ^^ g i) n = run p r f n ^^^ run p s g n := by
  induction n with
  | zero => rfl
  | succ n ih => rw [run, ih, feed_xor, run, run]

theorem run_congr {f g : ℕ → Bool} {n : ℕ} (r : BitVec w) (h : ∀ i < n, f i = g i) :
    run p r f n = run p r g n := by
  induction n with
  | zero => rfl
  | succ n ih =>
    rw [run, run, ih fun i hi => h i (Nat.lt_succ_of_lt hi), h n (Nat.lt_succ_self n)]

theorem run_add (r : BitVec w) (f : ℕ → Bool) (m n : ℕ) :
    run p r f (m + n) = run p (run p r f m) (fun i => f (m + i)) n := by
  induction n with
  | zero => rfl
  | succ n ih => rw [← Nat.add_assoc, run, ih, run]

/-- Zeros are plain shifts. -/
theorem run_false {f : ℕ → Bool} {n : ℕ} (r : BitVec w) (h : ∀ i < n, f i = false) :
    run p r f n = (shift p)^[n] r := by
  induction n with
  | zero => rfl
  | succ n ih =>
    rw [run, ih fun i hi => h i (Nat.lt_succ_of_lt hi), h n (Nat.lt_succ_self n),
      Function.iterate_succ_apply', feed, bit_false, BitVec.xor_zero]

/-! ## A word at a time -/

/-- Shifting a register that has taken in the whole word `x` at once feeds its bits. -/
theorem iterate_shift_eq_run (r x : BitVec w) (n : ℕ) :
    (shift p)^[n] (r ^^^ x) = run p r x.getLsbD n ^^^ (x >>> n) := by
  induction n with
  | zero => simp [run]
  | succ n ih =>
    -- the lowest bit of what is left of `x` is the next bit of the stream
    have hlow : shift p (x >>> n) = shift p (bit w (x.getLsbD n)) ^^^ (x >>> (n + 1)) := by
      unfold shift
      rw [bit_ushiftRight, BitVec.getLsbD_ushiftRight, Nat.add_zero, ← BitVec.shiftRight_add,
        BitVec.zero_xor, BitVec.xor_comm]
      by_cases hx : x.getLsbD n = true
      · have hw : 0 < w := Nat.zero_lt_of_lt (BitVec.lt_of_getLsbD hx)
        rw [if_pos hx, hx, if_pos (bit_getLsbD_zero hw)]
      · rw [if_neg hx, Bool.eq_false_of_not_eq_true hx, if_neg (by simp)]
    rw [Function.iterate_succ_apply', ih, shift_xor, hlow, run, feed, shift_xor,
      BitVec.xor_assoc]

/-- A whole word of bits, taken in at once. -/
theorem iterate_shift_word (r x : BitVec w) : (shift p)^[w] (r ^^^ x) = run p r x.getLsbD w := by
  rw [iterate_shift_eq_run, BitVec.ushiftRight_eq_zero le_rfl, BitVec.xor_zero]

/-! ## Nothing is lost -/

variable {p}

theorem eq_zero_of_shift (hp : p.msb = true) {r : BitVec w} (h : shift p r = 0#w) : r = 0#w := by
  unfold shift at h
  by_cases hr : r.getLsbD 0 = true
  · -- the top bit can only come from the polynomial
    rw [if_pos hr] at h
    have htop := congrArg BitVec.msb h
    have hw : 0 < w := BitVec.lt_of_getLsbD hr
    rw [BitVec.msb_xor, hp] at htop
    simp [BitVec.msb_ushiftRight] at htop
  · rw [if_neg hr, BitVec.xor_zero] at h
    apply BitVec.eq_of_getLsbD_eq
    intro i hi
    rw [BitVec.getLsbD_zero]
    cases i with
    | zero => simpa using hr
    | succ i =>
      have hbit := congrArg (BitVec.getLsbD · i) h
      simpa [BitVec.getLsbD_ushiftRight, Nat.add_comm 1 i] using hbit

theorem eq_zero_of_iterate_shift (hp : p.msb = true) {r : BitVec w} {n : ℕ}
    (h : (shift p)^[n] r = 0#w) : r = 0#w := by
  induction n with
  | zero => exact h
  | succ n ih =>
    rw [Function.iterate_succ_apply'] at h
    exact ih (eq_zero_of_shift hp h)

/-! ## Bursts -/

/-- The first `w` bits of a stream, as a word. -/
def word (w : ℕ) (f : ℕ → Bool) : BitVec w :=
  (BitVec.ofBoolListLE ((List.range w).map f)).cast (by rw [List.length_map, List.length_range])

theorem word_getLsbD (f : ℕ → Bool) {i : ℕ} (hi : i < w) : (word w f).getLsbD i = f i := by
  rw [word, BitVec.getLsbD_cast, BitVec.getLsbD_ofBoolListLE]
  simp [hi]

/-- **A burst leaves a trace.** A stream that is not all zeros, but is outside of a window of `w`
bits, does not leave an empty register empty. -/
theorem run_burst_ne_zero (hp : p.msb = true) {f : ℕ → Bool} {n k : ℕ}
    (hwin : ∀ i < n, f i = true → k ≤ i ∧ i < k + w) (hne : ∃ i < n, f i = true) :
    run p 0#w f n ≠ 0#w := by
  intro hzero
  obtain ⟨i₀, hi₀, hf₀⟩ := hne
  obtain ⟨hk₀, hw₀⟩ := hwin i₀ hi₀ hf₀
  -- the stream cut off at `n`, and followed by zeros up to the end of the window
  let g : ℕ → Bool := fun i => decide (i < n) && f i
  have hg : ∀ i, g i = true → k ≤ i ∧ i < k + w := by
    intro i hi
    simp only [g, Bool.and_eq_true, decide_eq_true_eq] at hi
    exact hwin i hi.1 hi.2
  have hlong : run p 0#w g (n + w) = 0#w := by
    rw [run_add, run_congr p 0#w fun i hi => (by simp [g, hi] : g i = f i), hzero,
      run_false p _ fun i _ => (by simp [g] : g (n + i) = false), iterate_shift_zero]
  -- all that reaches the register is the word in the window
  have hlen : n + w = k + (w + (n - k)) := by omega
  have hbefore : run p 0#w g k = 0#w := by
    rw [run_false p _ fun i hi => ?_]
    · exact iterate_shift_zero p k
    · by_contra hgi
      have := (hg i (by simpa using hgi)).1
      omega
  rw [hlen, run_add, hbefore, run_add, run_false p _ fun i hi => ?_] at hlong
  · have hword := eq_zero_of_iterate_shift hp hlong
    rw [run_congr p 0#w fun i hi => (word_getLsbD (fun i => g (k + i)) hi).symm,
      ← iterate_shift_word, BitVec.zero_xor] at hword
    have hbit := congrArg (BitVec.getLsbD · (i₀ - k)) (eq_zero_of_iterate_shift hp hword)
    simp only [BitVec.getLsbD_zero] at hbit
    rw [word_getLsbD _ (by omega), Nat.add_sub_cancel' hk₀] at hbit
    simp [g, hi₀, hf₀] at hbit
  · by_contra hgi
    have := (hg (k + (w + i)) (by simpa using hgi)).2
    omega

/-- Two streams that differ in a burst leave different registers. -/
theorem run_ne_of_burst (hp : p.msb = true) (r : BitVec w) {f g : ℕ → Bool} {n k : ℕ}
    (hwin : ∀ i < n, f i ≠ g i → k ≤ i ∧ i < k + w) (hne : ∃ i < n, f i ≠ g i) :
    run p r f n ≠ run p r g n := by
  intro heq
  refine run_burst_ne_zero hp (f := fun i => f i ^^ g i) (n := n) (k := k) ?_ ?_ ?_
  · intro i hi hfg
    exact hwin i hi (by simpa using hfg)
  · obtain ⟨i, hi, hfg⟩ := hne
    exact ⟨i, hi, by simpa using hfg⟩
  · have hsum := run_xor p r r f g n
    rwa [heq, BitVec.xor_self, BitVec.xor_self] at hsum

end Register

end Crc
