/-
Every log is the log of some flash image.

Recovery is stated for images that no run has to have left, so it takes an image to
show anything of it. `Region.draw` writes one down for any log: the slots in the order the
log has them, each with the bytes that read as what the log says is there.
-/
import PicoDataLogger.LogReplay
import PicoDataLogger.SlotView

set_option autoImplicit false

namespace PicoDataLogger

open NorFlash SectorLog

-- so that no unification evaluates a record's bytes
attribute [local irreducible] record_body

/-- What is read back of the sample once it has been appended as number `n`. -/
def Sample.stored (s : Sample) (n : ℕ) : MeasurementRecord := (s.record (UInt64.ofNat n)).stored

/-- Bytes that read as the slot; a corrupt one is a body without its state byte. -/
def Sample.slotBytes (s : Sample) : SectorLog.Slot ℕ → Vector UInt8 RECORD_SIZE
  | .erased => .replicate RECORD_SIZE ERASED
  | .active n => (record_body (s.record (UInt64.ofNat n))).set 0 COMMITTED record_size_pos
  | .acknowledged (some n) => (record_body (s.record (UInt64.ofNat n))).set 0 ACKNOWLEDGED record_size_pos
  | .acknowledged none => (Vector.replicate RECORD_SIZE ERASED).set 0 ACKNOWLEDGED record_size_pos
  | .corrupt => record_body (s.record 0)

/-- A body decodes whatever its state byte. -/
theorem decode_body_set (record : MeasurementRecord) (state : UInt8) :
    decode ((record_body record).set 0 state) = some record.stored := by
  refine decode_encode record fun j hj h₁ => ?_
  rw [Vector.getElem_set_ne _ _ (by omega), Region.record_body_getElem record j hj h₁]

theorem classify_slotBytes (s : Sample) (c : SectorLog.Slot ℕ) :
    classify (s.slotBytes c) = c.map s.stored := by
  cases c with
  | erased =>
    refine classify_eq_erased_iff.mpr fun i hi => ?_
    rw [Sample.slotBytes, Vector.getElem_replicate]
  | active n =>
    exact classify_eq_active_iff.mpr ⟨Vector.getElem_set_self _, decode_body_set _ _⟩
  | acknowledged o =>
    cases o with
    | none => exact classify_eq_acknowledged_iff.mpr ⟨Vector.getElem_set_self _, rfl⟩
    | some n =>
      exact classify_eq_acknowledged_iff.mpr ⟨Vector.getElem_set_self _, decode_body_set _ _⟩
  | corrupt =>
    -- no state byte, and a version byte that is not blank
    have h0 := Region.record_body_zero (s.record 0)
    rcases classify_of_other (by rw [h0]; decide) (by rw [h0]; decide) with he | hc
    · have h1 := classify_eq_erased_iff.mp he 1 (by decide)
      rw [Region.record_body_one] at h1
      exact absurd h1 (by decide)
    · exact hc

/-- The image of a log. -/
def Region.draw (g : Region) (s : Sample) (v : View ℕ) : Flash where
  bytes a :=
    let j : Fin RECORD_SIZE := ⟨(a - g.start.toNat) % RECORD_SIZE, Nat.mod_lt _ record_size_pos⟩
    (s.slotBytes (v ((a - g.start.toNat) / RECORD_SIZE)))[j]
  erases := 0

/-- **Any log can be found on a flash.** -/
theorem Region.view_draw (g : Region) (s : Sample) (v : View ℕ) (i : ℕ) :
    g.view (g.draw s v) i = (v i).map s.stored := by
  rw [g.view_apply, ← classify_slotBytes]
  refine congrArg classify (Vector.ext fun j hj => ?_)
  have hj' : j < 256 := hj
  have haddr : g.slotAddr i + j - g.start.toNat = i * 256 + j := by
    rw [Region.slotAddr]
    omega
  have hslot : (i * 256 + j) / RECORD_SIZE = i := by
    rw [RECORD_SIZE]
    omega
  have hbyte : (i * 256 + j) % RECORD_SIZE = j := by
    rw [RECORD_SIZE]
    omega
  rw [g.slotBytes_getElem, Region.draw]
  simp only [haddr, hslot, hbyte, Fin.getElem_fin]

end PicoDataLogger
