/-
`flash_queue.rs`: the queue as the source writes it.

Every procedure below is a procedure over the flash primitives of `NorFlash`,
with the `FlashQueue` fields as its memory. `?` is `throw`, and what a procedure
has already written to `self` when an error leaves it stays written, as it does
through `&mut self`. The flash itself is not a field: it is the device the
procedure runs on, so `into_inner` followed by `recover` is a second procedure on
the same device.

The geometry that `recover` checks is kept as a `Region`, whose fields are the
checks: a queue cannot be built on a region that was not checked. The numbers
the checks read off the driver (`capacity`, `ERASE_SIZE`, `WRITE_SIZE`) are a
`Part`.
-/
import PicoDataLogger.NorFlash
import PicoDataLogger.Record
import PicoDataLogger.SectorLog

set_option autoImplicit false

namespace PicoDataLogger

open Interaction NorFlash

abbrev Slot : Type := SectorLog.Slot MeasurementRecord

/-- `QueueError<E>`, for a driver error `ε`. -/
inductive QueueError (ε : Type) : Type where
  | storage (e : ε)
  | invalidGeometry

/-- What the driver says about the flash part. -/
structure Part where
  capacity : ℕ
  erase_size : ℕ
  write_size : ℕ

/-- The storage region, as `recover` accepts it. -/
structure Region where
  start : UInt32
  length : UInt32
  two_sectors : ERASE_SIZE * 2 ≤ length.toNat
  no_overflow : start.toNat + length.toNat < 2 ^ 32
  start_aligned : ERASE_SIZE ∣ start.toNat
  length_aligned : ERASE_SIZE ∣ length.toNat

structure FlashQueue where
  region : Region
  depth : ℕ
  next_sequence : UInt64
  dropped : UInt64

structure RecoveryReport where
  depth : ℕ
  corrupt_records : ℕ
  next_sequence : UInt64

/-- The arguments of `append`. -/
structure Sample where
  timestamp_unix_s : UInt64
  temperature_c : F32
  relative_humidity_pct : F32
  uptime_s : UInt64
  vsys_voltage_v : Option F32
  on_battery : Option Bool

/-- `u64::saturating_add`. -/
def saturating_add (a b : UInt64) : UInt64 :=
  if a.toNat + b.toNat < 2 ^ 64 then a + b else 0xffffffffffffffff

namespace Region

def slot_count (g : Region) : ℕ := g.length.toNat / RECORD_SIZE

def slots_per_sector : ℕ := ERASE_SIZE / RECORD_SIZE

def capacity (g : Region) : ℕ := g.slot_count - slots_per_sector

def sector_count (g : Region) : ℕ := g.length.toNat / ERASE_SIZE

/-- `self.start + (slot * RECORD_SIZE) as u32`, in `u32`. -/
def address (g : Region) (slot : ℕ) : UInt32 := g.start + UInt32.ofNat (slot * RECORD_SIZE)

/-- `self.start + (sector * ERASE_SIZE) as u32`, in `u32`. -/
def sector_address (g : Region) (sector : ℕ) : UInt32 :=
  g.start + UInt32.ofNat (sector * ERASE_SIZE)

end Region

def FlashQueue.capacity (q : FlashQueue) : ℕ := q.region.capacity

/-- A queue procedure: it may stop with a `QueueError`, and keeps its fields when it does. -/
abbrev QueueM (ε : Type) : Type → Type :=
  Proc Prim (Prim.Answer ε) (QueueError ε) FlashQueue

section Procedures

variable {ε : Type}

/-- What `read_slot` makes of the 256 bytes it read. -/
def classify (bytes : Vector UInt8 RECORD_SIZE) : Slot :=
  if bytes.all (· == ERASED) then .erased
  else if bytes[0] = ACKNOWLEDGED then .acknowledged (decode bytes)
  else if bytes[0] ≠ COMMITTED then .corrupt
  else match decode bytes with
    | some record => .active record
    | none => .corrupt

def read_slot (slot : ℕ) : QueueM ε Slot := do
  let q ← get
  let bytes ← read .storage (q.region.address slot) RECORD_SIZE
  return classify bytes

def find_oldest : QueueM ε (Option (ℕ × MeasurementRecord)) := do
  let q ← get
  let mut oldest : Option (ℕ × MeasurementRecord) := none
  for slot in List.range q.region.slot_count do
    match ← read_slot slot with
    | .active record =>
      if oldest.all fun current => record.sequence < current.2.sequence then
        oldest := some (slot, record)
    | _ => pure ()
  return oldest

def find_erased_slot : QueueM ε (Option ℕ) := do
  let q ← get
  for slot in List.range q.region.slot_count do
    match ← read_slot slot with
    | .erased => return some slot
    | _ => pure ()
  return none

def write_state (slot : ℕ) (state : UInt8) : QueueM ε Unit := do
  let q ← get
  write .storage (q.region.address slot) [state]

/-- The body as it is programmed first: the record with its state byte still erased. -/
def record_body (record : MeasurementRecord) : Vector UInt8 RECORD_SIZE :=
  (encode record).set 0 ERASED record_size_pos

def write_record (slot : ℕ) (record : MeasurementRecord) : QueueM ε Unit := do
  let q ← get
  write .storage (q.region.address slot) (record_body record).toList
  write_state slot COMMITTED

def reclaim_inactive_sectors : QueueM ε Unit := do
  let q ← get
  let mut newest_slot : Option ℕ := none
  let mut newest_sequence : Option UInt64 := none
  for slot in List.range q.region.slot_count do
    let record := match ← read_slot slot with
      | .active record => some record
      | .acknowledged (some record) => some record
      | _ => none
    if let some record := record then
      if newest_sequence.all fun sequence => sequence < record.sequence then
        newest_sequence := some record.sequence
        newest_slot := some slot
  for sector in List.range q.region.sector_count do
    let first := sector * Region.slots_per_sector
    let mut active := false
    let mut dirty := false
    for slot in List.range' first Region.slots_per_sector do
      match ← read_slot slot with
      | .active _ => active := true
      | .acknowledged _ => dirty := true
      | .corrupt => dirty := true
      | .erased => pure ()
    let preserves_newest := newest_slot.any fun slot =>
      first ≤ slot && slot < first + Region.slots_per_sector
    if !active && dirty && !preserves_newest then
      let start := q.region.sector_address sector
      erase .storage start (start + UInt32.ofNat ERASE_SIZE)

def peek_oldest : QueueM ε (Option MeasurementRecord) := do
  let oldest ← find_oldest
  return oldest.map fun (_, record) => record

def acknowledge_oldest : QueueM ε (Option MeasurementRecord) := do
  let some (slot, record) ← find_oldest | return none
  write_state slot ACKNOWLEDGED
  modify fun q => { q with depth := q.depth - 1 }
  reclaim_inactive_sectors
  return some record

def remove_oldest : QueueM ε Unit := do
  let _ ← acknowledge_oldest

/-- The record `append` makes of its arguments. -/
def Sample.record (s : Sample) (sequence : UInt64) : MeasurementRecord where
  sequence
  timestamp_unix_s := s.timestamp_unix_s
  temperature_c := s.temperature_c
  relative_humidity_pct := s.relative_humidity_pct
  vsys_voltage_v := s.vsys_voltage_v
  on_battery := s.on_battery
  uptime_s := s.uptime_s

def append (s : Sample) : QueueM ε MeasurementRecord := do
  let q ← get
  if q.depth = q.capacity then
    remove_oldest
    modify fun q => { q with dropped := saturating_add q.dropped 1 }
  let q ← get
  let record := s.record q.next_sequence
  modify fun q => { q with next_sequence := q.next_sequence + 1 }
  let some slot ← find_erased_slot | throw .invalidGeometry
  write_record slot record
  modify fun q => { q with depth := q.depth + 1 }
  reclaim_inactive_sectors
  return record

/-- The geometry checks of `recover`, each one a reason to refuse. -/
def invalid_geometry (part : Part) (start length : UInt32) : Prop :=
  length.toNat < ERASE_SIZE * 2
    ∨ ¬ start.toNat + length.toNat < 2 ^ 32
    ∨ part.capacity < start.toNat + length.toNat
    ∨ ¬ ERASE_SIZE ∣ start.toNat
    ∨ ¬ ERASE_SIZE ∣ length.toNat
    ∨ part.erase_size ≠ ERASE_SIZE
    ∨ 1 < part.write_size
    ∨ ¬ part.write_size ∣ RECORD_SIZE
    ∨ ¬ RECORD_SIZE ∣ ERASE_SIZE

instance (part : Part) (start length : UInt32) :
    Decidable (invalid_geometry part start length) :=
  inferInstanceAs (Decidable (_ ∨ _))

/-- The part of `recover` after the checks, on the queue it has just built. -/
def recover_scan : QueueM ε RecoveryReport := do
  let q ← get
  let mut corrupt_records := 0
  let mut max_sequence : Option UInt64 := none
  for slot in List.range q.region.slot_count do
    match ← read_slot slot with
    | .active record =>
      modify fun q => { q with depth := q.depth + 1 }
      max_sequence := some (max_sequence.elim record.sequence (max · record.sequence))
    | .acknowledged (some record) =>
      max_sequence := some (max_sequence.elim record.sequence (max · record.sequence))
    | .acknowledged none => corrupt_records := corrupt_records + 1
    | .corrupt => corrupt_records := corrupt_records + 1
    | .erased => pure ()
  let next_sequence : UInt64 := max_sequence.elim 0 (· + 1)
  modify fun q => { q with next_sequence := next_sequence }
  reclaim_inactive_sectors
  let q ← get
  return { depth := q.depth, corrupt_records, next_sequence := q.next_sequence }

/-- The queue `recover` starts from. -/
def FlashQueue.new (region : Region) : FlashQueue :=
  { region, depth := 0, next_sequence := 0, dropped := 0 }

/-- An accepted geometry is a region. -/
def Region.of_valid {part : Part} {start length : UInt32}
    (h : ¬ invalid_geometry part start length) : Region where
  start
  length
  two_sectors := by simp only [invalid_geometry, not_or] at h; omega
  no_overflow := by simp only [invalid_geometry, not_or] at h; omega
  start_aligned := by simp only [invalid_geometry, not_or] at h; tauto
  length_aligned := by simp only [invalid_geometry, not_or] at h; tauto

/-- `recover`: an error on the way returns no queue. -/
def recover (part : Part) (start length : UInt32) :
    Prog Prim (Prim.Answer ε) (Except (QueueError ε) (FlashQueue × RecoveryReport)) :=
  if h : invalid_geometry part start length then
    .pure (.error .invalidGeometry)
  else
    (recover_scan.prog (FlashQueue.new (Region.of_valid h))).bind fun
      | (.ok report, q) => .pure (.ok (q, report))
      | (.error e, _) => .pure (.error e)

end Procedures

end PicoDataLogger
