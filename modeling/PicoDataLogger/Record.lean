/-
The record format of `flash_queue.rs`: `MeasurementRecord`, `encode`, `decode`
and `crc32`.

A record is 256 bytes, of which the first is the slot's state and is not part
of the record: `encode` fills it with `COMMITTED`, the queue overwrites it, and
the checksum starts at byte 1. So the main result is stated for every image
that agrees with `encode` from byte 1 on (`decode_encode`).

Floating-point numbers only pass through here as their bits, and `F32` is
those bits. The one question the format asks of a float is whether it is
finite.
-/
import Mathlib.Data.UInt
import Mathlib.Tactic.Common
import Mathlib.Algebra.Order.Ring.Nat

set_option autoImplicit false

namespace PicoDataLogger

/-! ## Constants and fields -/

def RECORD_VERSION : UInt8 := 3
abbrev RECORD_SIZE : ℕ := 256
abbrev ERASE_SIZE : ℕ := 4096
theorem record_size_pos : 0 < RECORD_SIZE := by decide

theorem one_lt_record_size : 1 < RECORD_SIZE := by decide

/-- "PDLQ" in little endian. -/
def MAGIC : UInt32 := 0x514C4450
def ERASED : UInt8 := 0xff
def COMMITTED : UInt8 := 0x7f
def ACKNOWLEDGED : UInt8 := 0x3f

/-- An `f32`, as its bits. -/
structure F32 where
  bits : UInt32
deriving DecidableEq

/-- `f32::NAN`. -/
def F32.NAN : F32 := ⟨0x7fc00000⟩

/-- `f32::is_finite`: the exponent is not all ones. -/
def F32.is_finite (x : F32) : Bool := x.bits &&& 0x7f800000 != 0x7f800000

structure MeasurementRecord where
  sequence : UInt64
  timestamp_unix_s : UInt64
  temperature_c : F32
  relative_humidity_pct : F32
  vsys_voltage_v : Option F32
  on_battery : Option Bool
  uptime_s : UInt64
deriving DecidableEq

/-- A record as flash holds it: a voltage that is not finite is not kept. -/
def MeasurementRecord.stored (record : MeasurementRecord) : MeasurementRecord :=
  { record with vsys_voltage_v := record.vsys_voltage_v.filter F32.is_finite }

/-- A record whose voltage is absent or finite is kept as it is. -/
theorem MeasurementRecord.stored_eq_self {record : MeasurementRecord}
    (h : ∀ v ∈ record.vsys_voltage_v, v.is_finite = true) : record.stored = record := by
  have hv : record.vsys_voltage_v.filter F32.is_finite = record.vsys_voltage_v := by
    cases hr : record.vsys_voltage_v with
    | none => rfl
    | some v => simp [Option.filter, h v hr]
  rw [MeasurementRecord.stored, hv]

/-! ## Little-endian integers -/

/-- The low `n` bytes of a number, lowest first. -/
def to_le_bytes : ℕ → ℕ → List UInt8
  | 0, _ => []
  | n + 1, x => UInt8.ofNat x :: to_le_bytes n (x / 256)

/-- The number a byte string spells, lowest byte first. -/
def from_le_bytes : List UInt8 → ℕ
  | [] => 0
  | b :: bs => b.toNat + 256 * from_le_bytes bs

@[simp] theorem length_to_le_bytes (n x : ℕ) : (to_le_bytes n x).length = n := by
  induction n generalizing x with
  | zero => rfl
  | succ n ih => simp only [to_le_bytes, List.length_cons, ih]

theorem from_to_le_bytes (n x : ℕ) : from_le_bytes (to_le_bytes n x) = x % 256 ^ n := by
  induction n generalizing x with
  | zero => simp [to_le_bytes, from_le_bytes, Nat.mod_one]
  | succ n ih =>
    rw [to_le_bytes, from_le_bytes, ih, pow_succ' 256 n, Nat.mod_mul, UInt8.toNat_ofNat']

theorem u32_from_to_le_bytes (x : UInt32) :
    UInt32.ofNat (from_le_bytes (to_le_bytes 4 x.toNat)) = x := by
  rw [from_to_le_bytes, Nat.mod_eq_of_lt (by simpa using x.toNat_lt)]
  simp

theorem u64_from_to_le_bytes (x : UInt64) :
    UInt64.ofNat (from_le_bytes (to_le_bytes 8 x.toNat)) = x := by
  rw [from_to_le_bytes, Nat.mod_eq_of_lt (by simpa using x.toNat_lt)]
  simp

/-! ## Slices -/

section Slices

variable {n : ℕ}

/-- `bytes[lo..hi]`. -/
def slice (bytes : Vector UInt8 n) (lo hi : ℕ) : List UInt8 := (bytes.toList.take hi).drop lo

/-- `bytes[offset..offset + source.len()].copy_from_slice(source)`. -/
def copy_from_slice (bytes : Vector UInt8 n) (offset : ℕ) (source : List UInt8) :
    Vector UInt8 n :=
  Vector.ofFn fun i =>
    if offset ≤ i ∧ i < offset + source.length then source.getD (i - offset) 0 else bytes[i]

@[simp] theorem copy_from_slice_getElem (bytes : Vector UInt8 n) (offset : ℕ)
    (source : List UInt8) (i : ℕ) (h : i < n) :
    (copy_from_slice bytes offset source)[i]
      = if offset ≤ i ∧ i < offset + source.length then source.getD (i - offset) 0
        else bytes[i] := by
  simp [copy_from_slice]

theorem slice_congr {bytes bytes' : Vector UInt8 n} {lo hi : ℕ}
    (h : ∀ i (hn : i < n), lo ≤ i → i < hi → bytes[i] = bytes'[i]) :
    slice bytes lo hi = slice bytes' lo hi := by
  apply List.ext_getElem
  · simp [slice]
  · intro i h₁ h₂
    simp only [slice, List.length_drop, List.length_take, Vector.length_toList] at h₁
    simpa [slice] using h (lo + i) (by omega) (by omega) (by omega)

theorem slice_copy_same (bytes : Vector UInt8 n) (offset hi : ℕ) (source : List UInt8)
    (hhi : hi = offset + source.length) (hn : hi ≤ n) :
    slice (copy_from_slice bytes offset source) offset hi = source := by
  subst hhi
  apply List.ext_getElem
  · simp only [slice, List.length_drop, List.length_take, Vector.length_toList]
    omega
  · intro i h₁ h₂
    simp [slice, h₂]

theorem slice_copy_disjoint (bytes : Vector UInt8 n) (offset : ℕ) (source : List UInt8)
    (lo hi : ℕ) (h : hi ≤ offset ∨ offset + source.length ≤ lo) :
    slice (copy_from_slice bytes offset source) lo hi = slice bytes lo hi := by
  apply slice_congr
  intro i hn h₁ h₂
  rw [copy_from_slice_getElem, if_neg (by omega)]

theorem slice_set (bytes : Vector UInt8 n) (j : ℕ) (hj : j < n) (b : UInt8) (lo hi : ℕ)
    (h : j < lo ∨ hi ≤ j) : slice (bytes.set j b) lo hi = slice bytes lo hi := by
  apply slice_congr
  intro i hn h₁ h₂
  rw [Vector.getElem_set, if_neg (by omega)]

end Slices

/-! ## The checksum -/

/-- One bit of the reflected CRC-32. -/
def crc32_shift (crc : UInt32) : UInt32 :=
  (crc >>> 1) ^^^ (0xedb88320 &&& (0 - (crc &&& 1)))

/-- One byte: `crc ^= byte`, then eight shifts. -/
def crc32_byte (crc : UInt32) (byte : UInt8) : UInt32 :=
  crc32_shift^[8] (crc ^^^ byte.toUInt32)

def crc32 (bytes : List UInt8) : UInt32 := ~~~ bytes.foldl crc32_byte 0xffffffff

/-! ## Encoding -/

/-- The flag byte: `0xff`, the erased value, is "unknown". -/
def battery_byte : Option Bool → UInt8
  | none => 0xff
  | some false => 0
  | some true => 1

/-- `encode` up to the checksum. -/
def encode_fields (record : MeasurementRecord) : Vector UInt8 RECORD_SIZE :=
  let bytes := Vector.replicate RECORD_SIZE (0xff : UInt8)
  let bytes := bytes.set 0 COMMITTED record_size_pos
  let bytes := bytes.set 1 RECORD_VERSION one_lt_record_size
  let bytes := bytes.set 2 (battery_byte record.on_battery)
  let bytes := copy_from_slice bytes 4 (to_le_bytes 4 MAGIC.toNat)
  let bytes := copy_from_slice bytes 8 (to_le_bytes 8 record.sequence.toNat)
  let bytes := copy_from_slice bytes 16 (to_le_bytes 8 record.timestamp_unix_s.toNat)
  let bytes := copy_from_slice bytes 24 (to_le_bytes 4 record.temperature_c.bits.toNat)
  let bytes := copy_from_slice bytes 28 (to_le_bytes 4 record.relative_humidity_pct.bits.toNat)
  let bytes := copy_from_slice bytes 32 (to_le_bytes 8 record.uptime_s.toNat)
  copy_from_slice bytes 40
    (to_le_bytes 4 (record.vsys_voltage_v.getD F32.NAN).bits.toNat)

def encode (record : MeasurementRecord) : Vector UInt8 RECORD_SIZE :=
  let bytes := encode_fields record
  let crc := crc32 (slice bytes 1 44)
  copy_from_slice bytes 44 (to_le_bytes 4 crc.toNat)

/-! ## Decoding -/

/-- `u32::from_le_bytes(bytes[offset..offset + 4])`. -/
def u32_at (bytes : Vector UInt8 RECORD_SIZE) (offset : ℕ) : UInt32 :=
  UInt32.ofNat (from_le_bytes (slice bytes offset (offset + 4)))

/-- `u64::from_le_bytes(bytes[offset..offset + 8])`. -/
def u64_at (bytes : Vector UInt8 RECORD_SIZE) (offset : ℕ) : UInt64 :=
  UInt64.ofNat (from_le_bytes (slice bytes offset (offset + 8)))

/-- The flag byte of a version-3 record; the outer `none` rejects the record. -/
def battery_flag (byte : UInt8) : Option (Option Bool) :=
  if byte = 0xff then some none
  else if byte = 0 then some (some false)
  else if byte = 1 then some (some true)
  else none

def decode (bytes : Vector UInt8 RECORD_SIZE) : Option MeasurementRecord :=
  let version := bytes[1]
  if ¬ (version = 1 ∨ version = 2 ∨ version = RECORD_VERSION) ∨ u32_at bytes 4 ≠ MAGIC then
    none
  else
    let crc_offset := if version = 1 then 40 else 44
    let expected := u32_at bytes crc_offset
    if crc32 (slice bytes 1 crc_offset) ≠ expected then
      none
    else
      let voltage : F32 := ⟨u32_at bytes 40⟩
      (if version < 3 then some none else battery_flag bytes[2]).map fun on_battery => {
        on_battery
        sequence := u64_at bytes 8
        timestamp_unix_s := u64_at bytes 16
        temperature_c := ⟨u32_at bytes 24⟩
        relative_humidity_pct := ⟨u32_at bytes 28⟩
        uptime_s := u64_at bytes 32
        vsys_voltage_v :=
          if version = 1 then none else if voltage.is_finite then some voltage else none }

/-- The state byte is not part of the record. -/
theorem decode_congr {bytes bytes' : Vector UInt8 RECORD_SIZE}
    (h : ∀ i (hn : i < RECORD_SIZE), 1 ≤ i → bytes[i] = bytes'[i]) :
    decode bytes = decode bytes' := by
  have hslice : ∀ lo hi, 1 ≤ lo → slice bytes lo hi = slice bytes' lo hi := fun lo hi hlo =>
    slice_congr fun i hn hi₁ _ => h i hn (by omega)
  have h32 : ∀ offset, 1 ≤ offset → u32_at bytes offset = u32_at bytes' offset := fun offset ho => by
    rw [u32_at, u32_at, hslice _ _ ho]
  have h64 : ∀ offset, 1 ≤ offset → u64_at bytes offset = u64_at bytes' offset := fun offset ho => by
    rw [u64_at, u64_at, hslice _ _ ho]
  have hcrc : ∀ version : UInt8, 1 ≤ if version = 1 then 40 else 44 := by
    intro version
    split <;> decide
  simp only [decode]
  rw [h 1 (by decide) (by decide), h 2 (by decide) (by decide), hslice 1 _ (by decide),
    h32 4 (by decide), h32 24 (by decide), h32 28 (by decide), h32 40 (by decide),
    h32 _ (hcrc _), h64 8 (by decide), h64 16 (by decide), h64 32 (by decide)]

/-! ## The round trip -/

@[simp] theorem battery_flag_byte (on_battery : Option Bool) :
    battery_flag (battery_byte on_battery) = some on_battery := by
  rcases on_battery with _ | _ | _ <;> rfl

/-- The fields of an encoded record, read back from the bytes they were put in. -/
theorem slice_encode_fields (record : MeasurementRecord) :
    let bytes := encode_fields record
    slice bytes 4 8 = to_le_bytes 4 MAGIC.toNat
      ∧ slice bytes 8 16 = to_le_bytes 8 record.sequence.toNat
      ∧ slice bytes 16 24 = to_le_bytes 8 record.timestamp_unix_s.toNat
      ∧ slice bytes 24 28 = to_le_bytes 4 record.temperature_c.bits.toNat
      ∧ slice bytes 28 32 = to_le_bytes 4 record.relative_humidity_pct.bits.toNat
      ∧ slice bytes 32 40 = to_le_bytes 8 record.uptime_s.toNat
      ∧ slice bytes 40 44 = to_le_bytes 4 (record.vsys_voltage_v.getD F32.NAN).bits.toNat := by
  simp only [encode_fields]
  refine ⟨?_, ?_, ?_, ?_, ?_, ?_, ?_⟩
  all_goals
    simp (disch := simp [RECORD_SIZE]) only [slice_copy_disjoint, slice_copy_same]

theorem encode_fields_head (record : MeasurementRecord) :
    (encode_fields record)[1] = RECORD_VERSION
      ∧ (encode_fields record)[2] = battery_byte record.on_battery := by
  constructor <;> simp [encode_fields]

/-- The image has the fields of the record where every version has them. -/
structure Fields (bytes : Vector UInt8 RECORD_SIZE) (record : MeasurementRecord) : Prop where
  magic : u32_at bytes 4 = MAGIC
  sequence : u64_at bytes 8 = record.sequence
  timestamp_unix_s : u64_at bytes 16 = record.timestamp_unix_s
  temperature_c : u32_at bytes 24 = record.temperature_c.bits
  relative_humidity_pct : u32_at bytes 28 = record.relative_humidity_pct.bits
  uptime_s : u64_at bytes 32 = record.uptime_s

section Fields

variable {bytes bytes' : Vector UInt8 RECORD_SIZE} {record : MeasurementRecord}

theorem u32_at_congr {offset : ℕ}
    (h : ∀ i (hn : i < RECORD_SIZE), offset ≤ i → i < offset + 4 → bytes[i] = bytes'[i]) :
    u32_at bytes offset = u32_at bytes' offset := by
  rw [u32_at, u32_at, slice_congr h]

theorem u64_at_congr {offset : ℕ}
    (h : ∀ i (hn : i < RECORD_SIZE), offset ≤ i → i < offset + 8 → bytes[i] = bytes'[i]) :
    u64_at bytes offset = u64_at bytes' offset := by
  rw [u64_at, u64_at, slice_congr h]

/-- The fields are in bytes 4 to 39. -/
theorem Fields.congr (hf : Fields bytes record)
    (h : ∀ i (hn : i < RECORD_SIZE), 4 ≤ i → i < 40 → bytes'[i] = bytes[i]) :
    Fields bytes' record where
  magic := (u32_at_congr fun i hn h₁ h₂ => h i hn (by omega) (by omega)).trans hf.magic
  sequence := (u64_at_congr fun i hn h₁ h₂ => h i hn (by omega) (by omega)).trans hf.sequence
  timestamp_unix_s :=
    (u64_at_congr fun i hn h₁ h₂ => h i hn (by omega) (by omega)).trans hf.timestamp_unix_s
  temperature_c :=
    (u32_at_congr fun i hn h₁ h₂ => h i hn (by omega) (by omega)).trans hf.temperature_c
  relative_humidity_pct :=
    (u32_at_congr fun i hn h₁ h₂ => h i hn (by omega) (by omega)).trans hf.relative_humidity_pct
  uptime_s := (u64_at_congr fun i hn h₁ h₂ => h i hn (by omega) (by omega)).trans hf.uptime_s

/-- Everything below byte 44 is as `encode_fields` left it. -/
theorem encode_getElem {i : ℕ} (hn : i < RECORD_SIZE) (hi : i < 44) :
    (encode record)[i] = (encode_fields record)[i] := by
  rw [encode, copy_from_slice_getElem, if_neg (by omega)]

theorem fields_encode (record : MeasurementRecord) : Fields (encode record) record := by
  obtain ⟨hmagic, hseq, htime, htemp, hhum, hup, -⟩ := slice_encode_fields record
  have hfields : Fields (encode_fields record) record := by
    constructor
    · rw [u32_at, hmagic, u32_from_to_le_bytes]
    · rw [u64_at, hseq, u64_from_to_le_bytes]
    · rw [u64_at, htime, u64_from_to_le_bytes]
    · rw [u32_at, htemp, u32_from_to_le_bytes]
    · rw [u32_at, hhum, u32_from_to_le_bytes]
    · rw [u64_at, hup, u64_from_to_le_bytes]
  exact hfields.congr fun i hn _ hi => encode_getElem hn (by omega)

/-- The voltage field; an absent voltage is `NAN`. -/
theorem voltage_encode (record : MeasurementRecord) :
    u32_at (encode record) 40 = (record.vsys_voltage_v.getD F32.NAN).bits := by
  obtain ⟨-, -, -, -, -, -, hvolt⟩ := slice_encode_fields record
  have hkeep : u32_at (encode record) 40 = u32_at (encode_fields record) 40 :=
    u32_at_congr fun i hn _ hi => encode_getElem hn hi
  rw [hkeep, u32_at, hvolt, u32_from_to_le_bytes]

theorem crc_encode (record : MeasurementRecord) :
    crc32 (slice (encode record) 1 44) = u32_at (encode record) 44 := by
  have hkeep : slice (encode record) 1 44 = slice (encode_fields record) 1 44 :=
    slice_copy_disjoint _ _ _ _ _ (.inl le_rfl)
  rw [hkeep, u32_at, encode, slice_copy_same _ _ _ _ (by simp) (by decide), u32_from_to_le_bytes]

end Fields

/-- A voltage survives the trip when it is finite, and is dropped otherwise;
an absent one travels as `NAN`. -/
theorem voltage_round_trip (voltage : Option F32) :
    (if (voltage.getD F32.NAN).is_finite then some (voltage.getD F32.NAN) else none)
      = voltage.filter F32.is_finite := by
  cases voltage with
  | none => rfl
  | some v => simp [Option.filter]

/-- **The round trip.** Any image that agrees with `encode record` from byte 1
on decodes to the record as flash holds it. -/
theorem decode_encode (record : MeasurementRecord) {bytes : Vector UInt8 RECORD_SIZE}
    (h : ∀ i (hn : i < RECORD_SIZE), 1 ≤ i → bytes[i] = (encode record)[i]) :
    decode bytes = some record.stored := by
  rw [decode_congr h]
  have hf := fields_encode record
  have h1 : (encode record)[1] = RECORD_VERSION :=
    (encode_getElem (by decide) (by decide)).trans (encode_fields_head record).1
  have h2 : (encode record)[2] = battery_byte record.on_battery :=
    (encode_getElem (by decide) (by decide)).trans (encode_fields_head record).2
  have hne : ¬ RECORD_VERSION = 1 := by decide
  have hnew : ¬ RECORD_VERSION < 3 := by decide
  simp only [decode]
  rw [h1, h2, hf.magic, if_neg (by simp), if_neg hne, crc_encode, if_neg (by simp), if_neg hnew,
    battery_flag_byte, hf.sequence, hf.timestamp_unix_s, hf.temperature_c,
    hf.relative_humidity_pct, hf.uptime_s, voltage_encode, if_neg hne]
  rw [show (⟨(record.vsys_voltage_v.getD F32.NAN).bits⟩ : F32)
    = record.vsys_voltage_v.getD F32.NAN from rfl, voltage_round_trip]
  rfl

end PicoDataLogger
