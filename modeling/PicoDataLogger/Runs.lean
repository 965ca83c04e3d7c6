/-
Runs of the queue: calls one after the other, with power cycles between them.

A `Machine` is what exists between two calls: the flash, and the queue if the
device is up. The application makes calls on a queue that is up (`Op`), and
`recover` brings it up again, after a power loss or on `into_inner`. What the
flash may do wrong is the `Faults` of the run.

How each call can end is an inductive type (`AppendEnd`, `AckEnd`, `RecoverEnd`),
so that every proof about a step is by cases on how the call ended.
-/
import PicoDataLogger.QueueSpec

set_option autoImplicit false

namespace PicoDataLogger

open Interaction NorFlash SectorLog

/-! ## The system -/

/-- A flash part and a storage region on it that `recover` accepts. -/
structure Geometry where
  part : Part
  start : UInt32
  length : UInt32
  valid : ¬ invalid_geometry part start length

/-- The region of a geometry. -/
def Geometry.region (geo : Geometry) : Region := Region.of_valid geo.valid

/-- The smallest region, two sectors, on a part of the same size. -/
def Geometry.twoSectors : Geometry where
  part := { capacity := 2 * ERASE_SIZE, erase_size := ERASE_SIZE, write_size := 1 }
  start := 0
  length := 8192
  valid := by decide

/-- Three sectors. -/
def Geometry.threeSectors : Geometry where
  part := { capacity := 3 * ERASE_SIZE, erase_size := ERASE_SIZE, write_size := 1 }
  start := 0
  length := 12288
  valid := by decide

/-- A reading: 21.5 degrees, 40 percent, ten seconds after power-up, with some voltage. -/
def reading (vsys_voltage_v : Option F32) : Sample where
  timestamp_unix_s := 1700000000
  temperature_c := ⟨0x41ac0000⟩
  relative_humidity_pct := ⟨0x42200000⟩
  uptime_s := 10
  vsys_voltage_v
  on_battery := some false

/-- The device between two calls. -/
structure Machine where
  flash : Flash
  queue : Option FlashQueue

/-- A call on a queue that is up. -/
inductive Op where
  | append (s : Sample)
  | peek_oldest
  | acknowledge_oldest

/-- The value a call returns. -/
abbrev Op.Value : Op → Type
  | .append _ => MeasurementRecord
  | .peek_oldest => Option MeasurementRecord
  | .acknowledge_oldest => Option MeasurementRecord

/-- The procedure behind a call. -/
def Op.proc {ε : Type} : (op : Op) → QueueM ε op.Value
  | .append s => PicoDataLogger.append s
  | .peek_oldest => PicoDataLogger.peek_oldest
  | .acknowledge_oldest => PicoDataLogger.acknowledge_oldest

/-- The fields a call leaves in memory. -/
def memory {ε α : Type} : Result (QueueError ε) FlashQueue α → Option FlashQueue
  | .ok _ q => some q
  | .error _ q => some q
  | .cut => none

/-- What came of a call. -/
inductive Reply (ε : Type) where
  | op (op : Op) (r : Result (QueueError ε) FlashQueue op.Value)
  | recover (o : Outcome (Except (QueueError ε) (FlashQueue × RecoveryReport)))

/-- The queue after `recover`. -/
def recovered {ε : Type} :
    Outcome (Except (QueueError ε) (FlashQueue × RecoveryReport)) → Option FlashQueue
  | .done (.ok (q, _)) => some q
  | .done (.error _) => none
  | .cut => none

/-- What is seen of a step: the flash primitives it issued, and what came of it. -/
structure Label (ε : Type) where
  trace : List (Event Prim Flash)
  reply : Reply ε

/-- One call, or one power cycle. -/
inductive Step {ε : Type} (F : Faults) (geo : Geometry) : Machine → Label ε → Machine → Prop where
  | op (op : Op) {q : FlashQueue} {m m' : Flash} {tr : List (Event Prim Flash)}
      {o : Outcome (Except (QueueError ε) op.Value × FlashQueue)}
      (h : Exec (F.env ε) (op.proc.prog q) m tr o m') :
      Step F geo ⟨m, some q⟩ ⟨tr, .op op (.of o)⟩ ⟨m', memory (.of o)⟩
  | recover {M : Machine} {m' : Flash} {tr : List (Event Prim Flash)}
      {o : Outcome (Except (QueueError ε) (FlashQueue × RecoveryReport))}
      (h : Exec (F.env ε) (recover geo.part geo.start geo.length) M.flash tr o m') :
      Step F geo M ⟨tr, .recover o⟩ ⟨m', recovered o⟩

/-- A run from a device that is off, on a flash image `m₀`. -/
abbrev QueueRun {ε : Type} (F : Faults) (geo : Geometry) (m₀ : Flash) :
    List (Taken Machine (Label ε)) → Machine → Prop :=
  Run (Step F geo) ⟨m₀, none⟩

/-- The region is erased throughout. -/
def Region.Blank (g : Region) (m : Flash) : Prop :=
  ∀ a, g.start.toNat ≤ a → a < g.start.toNat + g.length.toNat → m.bytes a = ERASED

/-- A part fresh from the factory. -/
def blankFlash : Flash where
  bytes _ := ERASED
  erases := 0

theorem blank_blankFlash (g : Region) : g.Blank blankFlash := fun _ _ _ => rfl

theorem Region.Blank.view {g : Region} {m : Flash} {i : ℕ} (h : g.Blank m)
    (hi : i < g.slot_count) : g.view m i = .erased := by
  rw [view_apply, classify_eq_erased_iff]
  intro j hj
  have hj' : j < 256 := hj
  have := g.slotAddr_end hi
  rw [slotBytes_getElem]
  exact h _ (by rw [slotAddr]; omega) (by omega)

theorem Region.Blank.depth {g : Region} {m : Flash} (h : g.Blank m) : g.depth m = 0 := by
  rw [Region.depth, SectorLog.depth, g.layout_slots]
  refine Nat.count_of_forall_not fun i hi => ?_
  rw [h.view hi]
  simp

theorem Region.Blank.newest {g : Region} {m : Flash} (h : g.Blank m) : g.newest m = none := by
  rw [Region.newest, SectorLog.newest, firstMin_eq_none_iff, g.layout_slots]
  intro i hi
  rw [h.view hi]
  rfl

theorem Region.Blank.oldest {g : Region} {m : Flash} (h : g.Blank m) : g.oldest m = none := by
  rw [Region.oldest, SectorLog.oldest, firstMin_eq_none_iff, g.layout_slots]
  intro i hi
  rw [h.view hi]
  rfl

theorem Region.Blank.next_sequence {g : Region} {m : Flash} (h : g.Blank m) :
    g.next_sequence m = 0 := by
  rw [Region.next_sequence, h.newest]
  rfl

/-- The first slot a new queue fills is slot 0. -/
theorem Region.Blank.firstErased {g : Region} {m : Flash} (h : g.Blank m) : g.firstErased m = some 0 := by
  have hpos : 0 < g.slot_count := by
    have := g.capacity_add
    omega
  rw [Region.firstErased, SectorLog.firstErased, List.find?_range_eq_some, g.layout_slots]
  refine ⟨by rw [h.view hpos]; rfl, List.mem_range.mpr hpos, fun j hj => absurd hj (Nat.not_lt_zero j)⟩

/-- A step whose sequence counter is not about to wrap: an append takes a sequence below
`u64::MAX`. -/
def NoWrap {ε : Type} (e : Taken Machine (Label ε)) : Prop :=
  ∀ s r q, e.label.reply = .op (.append s) r → e.before.queue = some q →
    q.next_sequence.toNat + 1 < 2 ^ 64

/-- The step is not an append that was refused. -/
def AppendOk {ε : Type} (e : Taken Machine (Label ε)) : Prop :=
  ∀ s r, e.label.reply = .op (.append s) r → ∃ a q, r = .ok a q

/-- The step appended a record. -/
def Label.appended {ε : Type} (l : Label ε) : Bool :=
  match l.reply with
  | .op (.append _) r => r.isOk
  | _ => false

/-- The number of records a run has appended. -/
def appended {ε : Type} (es : List (Taken Machine (Label ε))) : ℕ := es.countP (·.label.appended)

/-! ## How a call ends -/

section Ends

variable {ε : Type} {F : Faults} {q : FlashQueue} {m m' : Flash} {s : Sample}
  {tr : List (Event Prim Flash)}

/-- How `append` ends. -/
inductive AppendEnd (F : Faults) (s : Sample) (q : FlashQueue) (m : Flash) :
    Result (QueueError ε) FlashQueue MeasurementRecord → Flash → Prop where
  | ok {i : ℕ} (hf : q.region.firstErased (q.cleared m) = some i) :
      AppendEnd F s q m
        (.ok (s.record q.next_sequence) { q.prepared m with depth := (q.prepared m).depth + 1 })
        (q.region.reclaimedAll (q.region.written (q.cleared m) i (s.record q.next_sequence)))
  | full (hf : q.region.firstErased (q.cleared m) = none) :
      AppendEnd F s q m (.error .invalidGeometry (q.prepared m)) (q.cleared m)
  | failed {c : ε} {q' : FlashQueue} {m' : Flash} (h : AppendStop F.fail s q m q' m') :
      AppendEnd F s q m (.error (.storage c) q') m'
  | cut {q' : FlashQueue} {m' : Flash} (h : AppendStop F.cut s q m q' m') :
      AppendEnd F s q m .cut m'

/-- How `acknowledge_oldest` ends. -/
inductive AckEnd (F : Faults) (q : FlashQueue) (m : Flash) :
    Result (QueueError ε) FlashQueue (Option MeasurementRecord) → Flash → Prop where
  | empty (ho : q.region.oldest m = none) : AckEnd F q m (.ok none q) m
  | ok {i : ℕ} {record : MeasurementRecord} (ho : q.region.oldest m = some (i, record)) :
      AckEnd F q m (.ok (some record) { q with depth := q.depth - 1 })
        (q.region.reclaimedAll (q.region.retired m i))
  | failed {c : ε} {q' : FlashQueue} {m' : Flash} (h : AckStop F.fail q m q' m') :
      AckEnd F q m (.error (.storage c) q') m'
  | cut {q' : FlashQueue} {m' : Flash} (h : AckStop F.cut q m q' m') : AckEnd F q m .cut m'

/-- How `peek_oldest` ends. -/
inductive PeekEnd (F : Faults) (q : FlashQueue) (m : Flash) :
    Result (QueueError ε) FlashQueue (Option MeasurementRecord) → Prop where
  | ok : PeekEnd F q m (.ok ((q.region.oldest m).map Prod.snd) q)
  | failed {c : ε} (h : ScanStop q.region F.fail m) : PeekEnd F q m (.error (.storage c) q)
  | cut (h : ScanStop q.region F.cut m) : PeekEnd F q m .cut

/-- How `recover` ends, on a geometry it accepts. -/
inductive RecoverEnd (F : Faults) (g : Region) (m : Flash) :
    Outcome (Except (QueueError ε) (FlashQueue × RecoveryReport)) → Flash → Prop where
  | ok : RecoverEnd F g m (.done (.ok (g.recovered m, g.report m))) (g.reclaimedAll m)
  | failed {c : ε} {m' : Flash} (h : ReclaimStop g F.fail m m') :
      RecoverEnd F g m (.done (.error (.storage c))) m'
  | cut {m' : Flash} (h : ReclaimStop g F.cut m m') : RecoverEnd F g m .cut m'

/-- `append` ends in one of these ways, whatever `G` its primitives are to keep. -/
theorem append_wp_ends {G : Prim → Flash → Flash → Prop}
    (hG : ∀ p m₁ m₂, Quiet q.region m₁ p → G p m₁ m₂)
    (hack : q.depth = q.capacity → ∀ i record m', q.region.oldest m = some (i, record) →
      G (.write (q.region.address i) [ACKNOWLEDGED]) m m')
    (hcommit : ∀ i m', q.region.firstErased (q.cleared m) = some i →
      G (.write (q.region.address i) [COMMITTED])
        (q.region.bodied (q.cleared m) i (s.record q.next_sequence)) m') :
    Proc.wp (F.env ε) G (append s) (AppendEnd F s q m) q m :=
  append_wp hG hack hcommit (fun _ => .ok) .full (fun _ _ _ => .failed) fun _ _ => .cut

/-- The same for `acknowledge_oldest`. -/
theorem acknowledge_oldest_wp_ends {G : Prim → Flash → Flash → Prop}
    (hG : ∀ p m₁ m₂, Quiet q.region m₁ p → G p m₁ m₂)
    (hack : ∀ i record m', q.region.oldest m = some (i, record) →
      G (.write (q.region.address i) [ACKNOWLEDGED]) m m') :
    Proc.wp (F.env ε) G acknowledge_oldest (AckEnd F q m) q m :=
  acknowledge_oldest_wp hG hack .empty (fun _ _ => .ok) (fun _ _ _ => .failed) fun _ _ => .cut

/-- The same for `recover`. -/
theorem recover_wp_ends {G : Prim → Flash → Flash → Prop} {geo : Geometry}
    (hG : ∀ p m₁ m₂, Quiet geo.region m₁ p → G p m₁ m₂) :
    (recover geo.part geo.start geo.length).wp (F.env ε) G (RecoverEnd F geo.region m) m :=
  recover_wp geo.valid hG .ok (fun _ _ => .failed) fun _ => .cut

theorem append_ends {o : Outcome (Except (QueueError ε) MeasurementRecord × FlashQueue)}
    (h : Exec (F.env ε) ((append s).prog q) m tr o m') : AppendEnd F s q m (.of o) m' :=
  (Proc.wp_sound (append_wp_ends (G := fun _ _ _ => True) (fun _ _ _ _ => trivial)
    (fun _ _ _ _ _ => trivial) fun _ _ _ => trivial) h).2

theorem acknowledge_oldest_ends
    {o : Outcome (Except (QueueError ε) (Option MeasurementRecord) × FlashQueue)}
    (h : Exec (F.env ε) (acknowledge_oldest.prog q) m tr o m') : AckEnd F q m (.of o) m' :=
  (Proc.wp_sound (acknowledge_oldest_wp_ends (G := fun _ _ _ => True) (fun _ _ _ _ => trivial)
    fun _ _ _ _ => trivial) h).2

/-- Peeking leaves the flash alone. -/
theorem peek_oldest_ends
    {o : Outcome (Except (QueueError ε) (Option MeasurementRecord) × FlashQueue)}
    (h : Exec (F.env ε) (peek_oldest.prog q) m tr o m') : m' = m ∧ PeekEnd F q m (.of o) := by
  have hobs : Scans F (fun _ _ _ => True) (peek_oldest : QueueM ε _) q m _ :=
    peek_oldest_scans fun _ _ _ => trivial
  obtain ⟨rfl, hend⟩ := (Proc.wp_sound hobs h).2
  refine ⟨rfl, ?_⟩
  revert hend
  cases Result.of o with
  | ok a t =>
    rintro ⟨rfl, rfl⟩
    exact .ok
  | error e t =>
    rintro ⟨rfl, ⟨c, rfl⟩, hs⟩
    exact .failed hs
  | cut => exact .cut

theorem recover_ends {geo : Geometry}
    {o : Outcome (Except (QueueError ε) (FlashQueue × RecoveryReport))}
    (h : Exec (F.env ε) (recover geo.part geo.start geo.length) m tr o m') :
    RecoverEnd F geo.region m o m' :=
  (Prog.wp_sound (recover_wp_ends (G := fun _ _ _ => True) fun _ _ _ _ => trivial) h).2

/-! On flash that behaves a call ends as it may end on any flash. -/

theorem AppendEnd.of_none {r : Result (QueueError ε) FlashQueue MeasurementRecord}
    (h : AppendEnd .none s q m r m') : AppendEnd F s q m r m' := by
  cases h with
  | ok hf => exact .ok hf
  | full hf => exact .full hf
  | failed h => exact absurd h (AppendStop.not_none fun _ _ _ => id)
  | cut h => exact absurd h (AppendStop.not_none fun _ _ _ => id)

theorem AckEnd.of_none {r : Result (QueueError ε) FlashQueue (Option MeasurementRecord)}
    (h : AckEnd .none q m r m') : AckEnd F q m r m' := by
  cases h with
  | empty ho => exact .empty ho
  | ok ho => exact .ok ho
  | failed h => exact absurd h (AckStop.not_none fun _ _ _ => id)
  | cut h => exact absurd h (AckStop.not_none fun _ _ _ => id)

theorem RecoverEnd.of_none {g : Region}
    {o : Outcome (Except (QueueError ε) (FlashQueue × RecoveryReport))}
    (h : RecoverEnd .none g m o m') : RecoverEnd F g m o m' := by
  cases h with
  | ok => exact .ok
  | failed h => exact absurd h (ReclaimStop.not_none fun _ _ _ => id)
  | cut h => exact absurd h (ReclaimStop.not_none fun _ _ _ => id)

end Ends

end PicoDataLogger
