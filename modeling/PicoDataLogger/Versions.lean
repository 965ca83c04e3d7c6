/-
The three versions of the record format.

All versions have the fields up to the uptime at the same places. Version 1 ends there,
with its checksum at byte 40; version 2 has the voltage at byte 40 and its checksum at
byte 44; version 3 also gives byte 2 to the power source. One decoder reads them all,
and the version byte tells it which.

A version-3 record whose version byte is corrupted is not taken for version 2. It can be
taken for version 1: what version 1 checks is everything up to the uptime, against
the bytes that hold the voltage.
-/
import PicoDataLogger.Checksum
import PicoDataLogger.Runs

set_option autoImplicit false

namespace PicoDataLogger

open Interaction NorFlash SectorLog

/-! ## Decoding by version -/

section Decode

variable {bytes : Vector UInt8 RECORD_SIZE} {record : MeasurementRecord}

instance (crc_offset : ℕ) : Decidable (CrcOk bytes crc_offset) :=
  inferInstanceAs (Decidable (_ = _))

/-- An unknown version is rejected. -/
theorem decode_unknown (h : ¬ (bytes[1] = 1 ∨ bytes[1] = 2 ∨ bytes[1] = RECORD_VERSION)) :
    decode bytes = none := if_pos (.inl h)

/-- A version-1 image has no voltage and no power source. -/
theorem decode_version_one (hf : Fields bytes record) (hv : bytes[1] = 1) :
    decode bytes = if CrcOk bytes 40
      then some { record with vsys_voltage_v := none, on_battery := none } else none := by
  unfold decode
  simp only [hv, hf.magic, hf.sequence, hf.timestamp_unix_s, hf.temperature_c,
    hf.relative_humidity_pct, hf.uptime_s]
  by_cases hcrc : CrcOk bytes 40
  · rw [if_pos hcrc, if_neg (by simp)]
    exact (if_neg (not_not.mpr hcrc)).trans rfl
  · rw [if_neg hcrc, if_neg (by simp)]
    exact if_pos hcrc

/-- A version-2 image has no power source. -/
theorem decode_version_two (hf : Fields bytes record) (hv : bytes[1] = 2)
    (hvolt : u32_at bytes 40 = (record.vsys_voltage_v.getD F32.NAN).bits) :
    decode bytes = if CrcOk bytes 44
      then some { record.stored with on_battery := none } else none := by
  have hvoltage : (if (⟨u32_at bytes 40⟩ : F32).is_finite then some (⟨u32_at bytes 40⟩ : F32) else none)
      = record.vsys_voltage_v.filter F32.is_finite := by
    rw [hvolt]
    exact voltage_round_trip record.vsys_voltage_v
  unfold decode
  simp only [hv, hf.magic, hf.sequence, hf.timestamp_unix_s, hf.temperature_c,
    hf.relative_humidity_pct, hf.uptime_s, hvoltage]
  by_cases hcrc : CrcOk bytes 44
  · rw [if_pos hcrc, if_neg (by simp)]
    exact (if_neg (not_not.mpr hcrc)).trans rfl
  · rw [if_neg hcrc, if_neg (by simp)]
    exact if_pos hcrc

end Decode

/-! ## A corrupted version byte -/

theorem encode_version (record : MeasurementRecord) : (encode record)[1] = RECORD_VERSION :=
  (encode_getElem (by decide) (by decide)).trans (encode_fields_head record).1

/-- The fields do not depend on the version byte. -/
theorem fields_set_version (record : MeasurementRecord) (v : UInt8) :
    Fields ((encode record).set 1 v) record :=
  (fields_encode record).congr fun i hn hi _ => Vector.getElem_set_ne _ _ (by omega)

/-- A version-3 record is not taken for version 2: the checksum is at the same place. -/
theorem decode_set_version_two (record : MeasurementRecord) :
    decode ((encode record).set 1 2) = none := by
  have hj : 1 < RECORD_SIZE := by decide
  have hversion := encode_version record
  rw [← corrupt_single hj]
  refine decode_corrupt (k := 8) (decode_encode record fun _ _ _ => rfl)
    (single_ne ?_) ?_ (fun i hi => ?_) fun i hi => ?_
  · rw [hversion]
    decide
  · rw [corrupt_single hj, Vector.getElem_set_self, hversion]
    rfl
  · rw [single_bit hi]
    have := (crc_offset_bounds (encode record)[1]).1
    omega
  · have := single_bit hi
    omega

/-- **What a corrupted version byte does.** Any other value makes the record unreadable, except
1 where the checksum of everything up to the uptime happens to be the bits of the voltage: then
it is a version-1 record with the same fields and neither voltage nor power source. -/
theorem version_byte_corrupted (record : MeasurementRecord) (v : UInt8) (hv : v ≠ RECORD_VERSION) :
    decode ((encode record).set 1 v)
      = if v = 1 ∧ crc32 (slice ((encode record).set 1 v) 1 40)
          = (record.vsys_voltage_v.getD F32.NAN).bits
        then some { record with vsys_voltage_v := none, on_battery := none } else none := by
  by_cases h1 : v = 1
  · subst h1
    -- the field that version 1 takes for its checksum is the voltage
    have hvolt : u32_at ((encode record).set 1 1) 40
        = (record.vsys_voltage_v.getD F32.NAN).bits := by
      rw [← voltage_encode]
      exact u32_at_congr fun i hn hi _ => Vector.getElem_set_ne _ _ (by omega)
    rw [decode_version_one (fields_set_version record 1) (Vector.getElem_set_self _)]
    simp only [CrcOk, hvolt, true_and]
  · rw [if_neg fun h => h1 h.1]
    by_cases h2 : v = 2
    · subst h2
      exact decode_set_version_two record
    · refine decode_unknown ?_
      rw [Vector.getElem_set_self]
      tauto

/-- A record whose voltage, 3.346 V, has the bits of that checksum. -/
def confused_record : MeasurementRecord where
  sequence := 42
  timestamp_unix_s := 1700000000
  temperature_c := ⟨0x41bb3333⟩
  relative_humidity_pct := ⟨0x42366666⟩
  vsys_voltage_v := some ⟨0x4056251e⟩
  on_battery := some true
  uptime_s := 481

theorem version_byte_corrupted_example :
    decode ((encode example_record).set 1 1) = none := by
  rw [version_byte_corrupted example_record 1 (by decide)]
  decide +kernel

/-- A stored record that becomes another valid record when its version byte becomes 1, which
loses a single bit of it. -/
theorem version_byte_confused :
    decode (encode confused_record) = some confused_record
      ∧ decode ((encode confused_record).set 1 1)
        = some { confused_record with vsys_voltage_v := none, on_battery := none } := by
  decide +kernel

/-! ## The round trip of every version -/

/-- An image of an earlier version: the fields and, in version 2, the voltage where version 3
has them, the version byte, and the checksum of that version; the other bytes are `base`. -/
def legacy (version : UInt8) (base : Vector UInt8 RECORD_SIZE) (record : MeasurementRecord) :
    Vector UInt8 RECORD_SIZE :=
  let bytes := Vector.ofFn fun i =>
    if 4 ≤ i.val ∧ i < crc_offset version then (encode record)[i] else base[i]
  let bytes := bytes.set 1 version one_lt_record_size
  copy_from_slice bytes (crc_offset version)
    (to_le_bytes 4 (crc32 (slice bytes 1 (crc_offset version))).toNat)

section Legacy

variable {version : UInt8} {base : Vector UInt8 RECORD_SIZE} {record : MeasurementRecord}

theorem legacy_version : (legacy version base record)[1] = version := by
  have := (crc_offset_bounds version).1
  rw [legacy, copy_from_slice_getElem, if_neg (by omega), Vector.getElem_set_self]

theorem legacy_getElem {i : ℕ} (hn : i < RECORD_SIZE) (h₁ : 4 ≤ i) (h₂ : i < crc_offset version) :
    (legacy version base record)[i] = (encode record)[i] := by
  rw [legacy, copy_from_slice_getElem, if_neg (by omega), Vector.getElem_set_ne _ _ (by omega),
    Vector.getElem_ofFn, if_pos ⟨h₁, h₂⟩]
  rfl

theorem legacy_fields : Fields (legacy version base record) record := by
  have := (crc_offset_bounds version).1
  exact (fields_encode record).congr fun i hn h₁ h₂ => legacy_getElem hn h₁ (by omega)

theorem legacy_crcOk : CrcOk (legacy version base record) (crc_offset version) := by
  obtain ⟨hlo, hhi⟩ := crc_offset_bounds version
  rw [CrcOk, legacy, slice_copy_disjoint _ _ _ _ _ (.inl le_rfl), u32_at,
    slice_copy_same _ _ _ _ (by simp) hhi, u32_from_to_le_bytes]

theorem decode_legacy_one :
    decode (legacy 1 base record)
      = some { record with vsys_voltage_v := none, on_battery := none } := by
  rw [decode_version_one legacy_fields legacy_version]
  exact if_pos legacy_crcOk

theorem decode_legacy_two :
    decode (legacy 2 base record) = some { record.stored with on_battery := none } := by
  have hvolt : u32_at (legacy 2 base record) 40 = (record.vsys_voltage_v.getD F32.NAN).bits := by
    rw [← voltage_encode]
    exact u32_at_congr fun i hn h₁ h₂ => legacy_getElem hn (by omega) h₂
  rw [decode_version_two legacy_fields legacy_version hvolt]
  exact if_pos legacy_crcOk

end Legacy

/-- Write a record to a slot, read it, retire it, and read it again. -/
def write_and_retire {ε : Type} (slot : ℕ) (record : MeasurementRecord) : QueueM ε (Slot × Slot) := do
  write_record slot record
  let written ← read_slot slot
  write_state slot ACKNOWLEDGED
  let retired ← read_slot slot
  return (written, retired)

section Slot

variable {ε : Type} {q : FlashQueue} {m : Flash} {i : ℕ} {record : MeasurementRecord}

theorem write_and_retire_run (hi : i < q.region.slot_count) (he : q.region.view m i = .erased) :
    (((write_and_retire i record : QueueM ε _).prog q).run NorFlash.step m).1
      = (.ok (.active record.stored, .acknowledged (some record.stored)), q) := by
  let m₁ := m.program (q.region.slotAddr i) (record_body record).toList
  let m₂ := m₁.program (q.region.slotAddr i) [COMMITTED]
  let m₃ := m₂.program (q.region.slotAddr i) [ACKNOWLEDGED]
  have hrun : (((write_and_retire i record : QueueM ε _).prog q).run NorFlash.step m).1
      = (.ok (classify (q.region.slotBytes m₂ i), classify (q.region.slotBytes m₃ i)), q) := by
    simp only [m₁, m₂, m₃, Region.slotBytes, ← q.region.address_toNat hi]
    rfl
  have hwritten : q.region.view m₂ i = .active record.stored := by
    rw [q.region.view_committed (q.region.slotBytes_body he), SectorLog.commit,
      Function.update_self]
  have hretired : q.region.view m₃ i = .acknowledged (some record.stored) := by
    rw [q.region.view_acknowledged hwritten, SectorLog.retire, Function.update_self]
  rw [hrun, ← q.region.view_apply, ← q.region.view_apply, hwritten, hretired]

end Slot

/-- A voltage that is not finite is all that flash does not hold. -/
theorem stored_of_not_finite {record : MeasurementRecord} {v : F32}
    (hv : record.vsys_voltage_v = some v) (hfin : v.is_finite = false) :
    record.stored = { record with vsys_voltage_v := none } := by
  rw [MeasurementRecord.stored, hv, Option.filter, hfin]
  rfl

/-- **The round trip of every version.** On an erased slot a record that is written is read back
as active, and when it is retired as acknowledged, as flash holds it; and the images of the
earlier versions decode to the fields those versions have. -/
theorem round_trip_all_versions (record : MeasurementRecord) :
    (∀ (ε : Type) (q : FlashQueue) (m : Flash) (i : ℕ), i < q.region.slot_count →
        q.region.view m i = .erased →
        (((write_and_retire i record : QueueM ε _).prog q).run NorFlash.step m).1
          = (.ok (.active record.stored, .acknowledged (some record.stored)), q))
      ∧ (∀ base, decode (legacy 1 base record)
          = some { record with vsys_voltage_v := none, on_battery := none })
      ∧ (∀ base, decode (legacy 2 base record) = some { record.stored with on_battery := none })
      ∧ ((∀ v ∈ record.vsys_voltage_v, v.is_finite = true) → record.stored = record)
      ∧ ∀ v, record.vsys_voltage_v = some v → v.is_finite = false →
          record.stored = { record with vsys_voltage_v := none } := by
  refine ⟨?_, ?_, ?_, ?_, ?_⟩
  · intro ε q m i hi he
    exact write_and_retire_run hi he
  · intro base
    exact decode_legacy_one
  · intro base
    exact decode_legacy_two
  · exact MeasurementRecord.stored_eq_self
  · intro v hv hfin
    exact stored_of_not_finite hv hfin

/-- The measurement of the tests, in a slot of a blank region. -/
theorem round_trip_all_versions_example :
    (((write_and_retire 5 example_record : QueueM Unit _).prog
        (FlashQueue.new Geometry.twoSectors.region)).run NorFlash.step blankFlash).1
      = (.ok (.active example_record, .acknowledged (some example_record)),
        FlashQueue.new Geometry.twoSectors.region) := by
  have hi : 5 < Geometry.twoSectors.region.slot_count := by decide
  have hblank := blank_blankFlash Geometry.twoSectors.region
  obtain ⟨hslot, -, -, hstored, -⟩ := round_trip_all_versions example_record
  rw [hslot Unit (FlashQueue.new Geometry.twoSectors.region) blankFlash 5 hi (hblank.view hi),
    hstored fun v hv => by cases hv; decide]

end PicoDataLogger
