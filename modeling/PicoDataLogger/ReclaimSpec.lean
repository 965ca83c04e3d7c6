/-
What the scans and the reclaiming of the queue do, on any flash and under any
faults.

A scan finds a value, changes nothing, and can be stopped at a read (`Scans`).
Reclaiming passes through the flash images `reclaimed m k`, and can be stopped
on any of them (`ReclaimStop`). The images are functions of the first one,
because between two erases the source does nothing the image can see.

Each lemma also passes on a guarantee `G`, which has to hold of every primitive
the procedure issues. What is known about a primitive at the moment it is issued
is `Quiet`.
-/
import PicoDataLogger.SlotView

set_option autoImplicit false

namespace PicoDataLogger

open Interaction NorFlash SectorLog

/-- The order of records: their sequence. -/
def seqKey (record : MeasurementRecord) : ℕ := record.sequence.toNat

namespace Region

variable (g : Region) (m : Flash)

/-- The first active record with the least sequence. -/
def oldest : Option (ℕ × MeasurementRecord) := SectorLog.oldest g.layout seqKey (g.view m)

/-- The first record with the greatest sequence. -/
def newest : Option (ℕ × MeasurementRecord) := SectorLog.newest g.layout seqKey (g.view m)

/-- The first erased slot. -/
def firstErased : Option ℕ := SectorLog.firstErased g.layout (g.view m)

/-- Sector `k` is one that `reclaim_inactive_sectors` erases. -/
def Reclaimable (k : ℕ) : Prop := SectorLog.Reclaimable g.layout seqKey (g.view m) k

instance (k : ℕ) : Decidable (g.Reclaimable m k) :=
  inferInstanceAs (Decidable (SectorLog.Reclaimable _ _ _ k))

/-- The flash after the first `k` sectors have been reclaimed. -/
def reclaimed : ℕ → Flash
  | 0 => m
  | k + 1 =>
    if g.Reclaimable m k then
      (reclaimed k).eraseRange (g.sectorAddr k) (g.sectorAddr k + 4096)
    else reclaimed k

/-- The flash after every sector has been reclaimed. -/
def reclaimedAll : Flash := g.reclaimed m g.sector_count

theorem reclaimed_zero : g.reclaimed m 0 = m := rfl

/-- One more sector reclaimed. -/
theorem reclaimed_succ (k : ℕ) : g.reclaimed m (k + 1)
    = if g.Reclaimable m k then
        (g.reclaimed m k).eraseRange (g.sectorAddr k) (g.sectorAddr k + 4096)
      else g.reclaimed m k := by
  rw [reclaimed]

@[simp] theorem view_reclaimed (k : ℕ) :
    g.view (g.reclaimed m k) = reclaimTo g.layout seqKey (g.view m) k := by
  induction k with
  | zero => rw [reclaimed_zero, reclaimTo_zero]
  | succ k ih =>
    rw [reclaimed_succ, reclaimTo_succ, ← ih, ← view_eraseRange]
    by_cases h : g.Reclaimable m k
    · rw [if_pos h, if_pos (show SectorLog.Reclaimable _ _ _ _ from h)]
    · rw [if_neg h, if_neg (show ¬ SectorLog.Reclaimable _ _ _ _ from h)]

/-- Every sector reclaimed is one erase. -/
theorem reclaimed_erases (k : ℕ) :
    (g.reclaimed m k).erases = m.erases + Nat.count (g.Reclaimable m) k := by
  induction k with
  | zero => rfl
  | succ k ih =>
    rw [reclaimed_succ, Nat.count_succ]
    split
    · rw [Flash.eraseRange_erases, ih, Nat.add_assoc]
    · rw [ih, Nat.add_zero]

/-- The flash after slot `i` has been acknowledged. -/
def retired (i : ℕ) : Flash := m.program (g.slotAddr i) [ACKNOWLEDGED]

/-- The flash after the body of a record has been programmed. -/
def bodied (i : ℕ) (record : MeasurementRecord) : Flash :=
  m.program (g.slotAddr i) (record_body record).toList

/-- The flash after a record has been programmed and committed. -/
def written (i : ℕ) (record : MeasurementRecord) : Flash :=
  (g.bodied m i record).program (g.slotAddr i) [COMMITTED]

end Region

/-! ## Primitives -/

/-- A primitive other than a state byte, and what is known of it when the queue
issues it on flash `m`. -/
inductive Quiet (g : Region) (m : Flash) : Prim → Prop where
  | read {i : ℕ} (hi : i < g.slot_count) : Quiet g m (.read (g.address i) RECORD_SIZE)
  | body {i : ℕ} {record : MeasurementRecord} (h : g.firstErased m = some i) :
      Quiet g m (.write (g.address i) (record_body record).toList)
  | erase {k : ℕ} (hk : k < g.sector_count) (h : g.Reclaimable m k) :
      Quiet g m (.erase (g.sector_address k) (g.sector_address k + UInt32.ofNat ERASE_SIZE))

/-! ## Scans -/

section Scans

variable {ε : Type} {F : Faults} {G : Prim → Flash → Flash → Prop} {q : FlashQueue} {m : Flash}
  {α β : Type}

/-- A read of some slot on flash `m` was stopped, in the way `I` describes. -/
def ScanStop (g : Region) (I : Prim → Flash → Flash → Prop) (m : Flash) : Prop :=
  ∃ i < g.slot_count, I (.read (g.address i) RECORD_SIZE) m m

/-- `x` finds `a` on flash `m`, changes nothing, and can only be stopped at a read. -/
abbrev Scans (F : Faults) (G : Prim → Flash → Flash → Prop) (x : QueueM ε α) (q : FlashQueue)
    (m : Flash) (a : α) : Prop :=
  Proc.Observes (F.env ε) G
    (fun e => (∃ c, e = .storage c) ∧ ScanStop q.region F.fail m) (ScanStop q.region F.cut m) x q m a

/-- The reads of some slots, in order. -/
def Region.reads (g : Region) (slots : List ℕ) : List Prim :=
  slots.map fun i => .read (g.address i) RECORD_SIZE

@[simp] theorem Region.length_reads (g : Region) (slots : List ℕ) :
    (g.reads slots).length = slots.length := List.length_map _

/-- `x` reads `slots`, one after the other, and finds `a`. -/
abbrev Looks (x : QueueM ε α) (q : FlashQueue) (m : Flash) (slots : List ℕ) (a : α) : Prop :=
  Proc.Looks NorFlash.step QueueError.storage x q m (q.region.reads slots) a

/-- What reads slots of the region scans it, whatever the faults. -/
theorem Looks.scans {x : QueueM ε α} {slots : List ℕ} {a : α} (h : Looks x q m slots a)
    (hslots : ∀ i ∈ slots, i < q.region.slot_count)
    (hG : ∀ p m', Quiet q.region m p → G p m m') : Scans F G x q m a := by
  refine Proc.Looks.observes h ?_ ?_
  · intro p hp r m' hr
    obtain ⟨i, hi, rfl⟩ := List.mem_map.mp hp
    have hlt := hslots i hi
    refine ⟨hG _ _ (.read hlt), ?_⟩
    rcases hr with hr | ⟨⟨e, rfl⟩, hf⟩
    · cases hr
      exact ⟨rfl, .inl rfl⟩
    · obtain rfl := F.fail_read hf
      exact ⟨rfl, .inr ⟨e, rfl, ⟨e, rfl⟩, i, hlt, hf⟩⟩
  · intro p hp m' hc
    obtain ⟨i, hi, rfl⟩ := List.mem_map.mp hp
    have hlt := hslots i hi
    obtain rfl := F.cut_read hc
    exact ⟨hG _ _ (.read hlt), rfl, i, hlt, hc⟩

theorem read_slot_looks {i : ℕ} (hi : i < q.region.slot_count) :
    Looks (read_slot i : QueueM ε Slot) q m [i] (q.region.view m i) := by
  rw [Region.view_apply, Region.slotBytes, ← q.region.address_toNat hi]
  exact Proc.looks_get.bind (looks_read.bind (Proc.looks_pure _))

/-- A loop of looks, one slot each. -/
theorem Looks.foldl {γ : Type} {body : ℕ → γ → QueueM ε (ForInStep γ)} {f : γ → ℕ → γ}
    {slots : List ℕ} (h : ∀ i ∈ slots, ∀ acc, Looks (body i acc) q m [i] (.yield (f acc i))) (init : γ) :
    Looks (forIn slots init body) q m slots (slots.foldl f init) :=
  Proc.Looks.foldl slots h init

theorem find_oldest_looks :
    Looks (find_oldest : QueueM ε _) q m (List.range q.region.slot_count) (q.region.oldest m) := by
  rw [Region.oldest, SectorLog.oldest, firstMin, Region.layout_slots, Looks,
    ← List.append_nil (q.region.reads _)]
  refine Proc.looks_get.bind (Proc.Looks.bind (Looks.foldl (fun slot hslot best => ?_) _) (Proc.looks_pure _))
  refine (read_slot_looks (List.mem_range.mp hslot)).bind ?_
  cases hv : q.region.view m slot with
  | active record =>
    simp only [pick, hv, Slot.active?_active, seqKey, ← UInt64.lt_iff_toNat_lt]
    split
    · exact Proc.looks_pure _
    · exact Proc.looks_pure _
  | erased => simpa [pick, hv] using Proc.looks_pure _
  | acknowledged o => simpa [pick, hv] using Proc.looks_pure _
  | corrupt => simpa [pick, hv] using Proc.looks_pure _

/-- A search that stops at the first slot it looks for. -/
theorem Looks.find? {body : ℕ → Option (Option ℕ) × PUnit →
      QueueM ε (ForInStep (Option (Option ℕ) × PUnit))} {slots : List ℕ} (hit : ℕ → Bool)
    (h : ∀ i ∈ slots, ∀ acc, Looks (body i acc) q m [i]
      (if hit i then .done (some (some i), ⟨⟩) else .yield (none, ⟨⟩))) :
    Looks (forIn slots (none, ⟨⟩) body) q m (slots.take (slots.findIdx hit + 1))
      ((slots.find? hit).map some, ⟨⟩) :=
  Proc.Looks.find? slots h

/-- The slots `find_erased_slot` reads: those up to the first erased one. -/
def Region.searched (g : Region) (m : Flash) : List ℕ :=
  List.range (match g.firstErased m with
    | some i => i + 1
    | none => g.slot_count)

theorem Region.searched_eq (g : Region) (m : Flash) :
    (List.range g.slot_count).take ((List.range g.slot_count).findIdx
      (fun i => (g.view m i).isErased) + 1) = g.searched m := by
  rw [List.take_range, searched, firstErased, SectorLog.firstErased, layout_slots]
  cases hf : (List.range g.slot_count).find? fun i => (g.view m i).isErased with
  | some i =>
    obtain ⟨he, hi, hbelow⟩ := List.find?_range_eq_some.mp hf
    rw [List.mem_range] at hi
    have hidx : (List.range g.slot_count).findIdx (fun i => (g.view m i).isErased) = i := by
      rw [List.findIdx_eq (by simpa)]
      simpa [he] using hbelow
    rw [hidx, Nat.min_eq_left hi]
  | none =>
    have hidx : (List.range g.slot_count).findIdx (fun i => (g.view m i).isErased)
        = g.slot_count := by
      rw [List.findIdx_eq_length.mpr, List.length_range]
      exact fun i hi => Bool.eq_false_iff.mpr (List.find?_eq_none.mp hf i hi)
    rw [hidx, Nat.min_eq_right (Nat.le_succ _)]

theorem Region.searched_lt (g : Region) (m : Flash) : ∀ i ∈ g.searched m, i < g.slot_count := by
  intro i hi
  rw [← searched_eq] at hi
  exact List.mem_range.mp (List.mem_of_mem_take hi)

theorem find_erased_slot_looks :
    Looks (find_erased_slot : QueueM ε _) q m (q.region.searched m) (q.region.firstErased m) := by
  rw [← Region.searched_eq, Region.firstErased, SectorLog.firstErased, Region.layout_slots, Looks,
    ← List.append_nil (q.region.reads _)]
  refine Proc.looks_get.bind (Proc.Looks.bind (Looks.find?
    (fun i => (q.region.view m i).isErased) fun slot hslot acc => ?_) ?_)
  · refine (read_slot_looks (List.mem_range.mp hslot)).bind ?_
    cases q.region.view m slot with
    | erased => exact Proc.looks_pure _
    | active _ => exact Proc.looks_pure _
    | acknowledged _ => exact Proc.looks_pure _
    | corrupt => exact Proc.looks_pure _
  · cases List.find? _ _ with
    | none => exact Proc.looks_pure _
    | some _ => exact Proc.looks_pure _

/-- `peek_oldest` finds the record `find_oldest` finds. -/
theorem peek_oldest_looks :
    Looks (peek_oldest : QueueM ε _) q m (List.range q.region.slot_count)
      ((q.region.oldest m).map Prod.snd) := by
  rw [Looks, ← List.append_nil (q.region.reads _)]
  exact find_oldest_looks.bind (Proc.looks_pure _)

theorem read_slot_scans (hG : ∀ p m', Quiet q.region m p → G p m m')
    {i : ℕ} (hi : i < q.region.slot_count) :
    Scans F G (read_slot i : QueueM ε Slot) q m (q.region.view m i) :=
  (read_slot_looks hi).scans (by simpa using hi) hG

theorem find_oldest_scans (hG : ∀ p m', Quiet q.region m p → G p m m') :
    Scans F G (find_oldest : QueueM ε _) q m (q.region.oldest m) :=
  find_oldest_looks.scans (fun _ => List.mem_range.mp) hG

theorem find_erased_slot_scans (hG : ∀ p m', Quiet q.region m p → G p m m') :
    Scans F G (find_erased_slot : QueueM ε _) q m (q.region.firstErased m) :=
  find_erased_slot_looks.scans (q.region.searched_lt m) hG

theorem peek_oldest_scans (hG : ∀ p m', Quiet q.region m p → G p m m') :
    Scans F G (peek_oldest : QueueM ε _) q m ((q.region.oldest m).map Prod.snd) :=
  peek_oldest_looks.scans (fun _ => List.mem_range.mp) hG

end Scans

/-! ## Reclaiming -/

section Reclaim

variable {ε : Type} {F : Faults} {G : Prim → Flash → Flash → Prop} {q : FlashQueue} {m : Flash}

/-- The two variables of the first scan of `reclaim_inactive_sectors`. -/
def newestState (b : Option (ℕ × MeasurementRecord)) : Option ℕ × Option UInt64 :=
  (b.map Prod.fst, b.map fun b => b.2.sequence)

/-- What that scan does with one slot. -/
def newestStep (v : View MeasurementRecord) (acc : Option ℕ × Option UInt64) (slot : ℕ) :
    Option ℕ × Option UInt64 :=
  match (v slot).record? with
  | none => acc
  | some record => if acc.2.all (· < record.sequence) then (some slot, some record.sequence) else acc

/-- Its two variables are the slot and the sequence of the newest record. -/
theorem newestStep_foldl (v : View MeasurementRecord) (n : ℕ) :
    (List.range n).foldl (newestStep v) (none, none)
      = newestState (firstMin (fun r => OrderDual.toDual (seqKey r)) (fun i => (v i).record?) n) := by
  have hstep : ∀ b slot, newestStep v (newestState b) slot
      = newestState (pick (fun r => OrderDual.toDual (seqKey r)) (fun i => (v i).record?) b slot) := by
    intro b slot
    rw [newestStep, pick]
    cases (v slot).record? with
    | none => rfl
    | some r =>
      cases b with
      | none => rfl
      | some b =>
        simp only [newestState, Option.map_some, Option.all_some, OrderDual.toDual_lt_toDual,
          seqKey, ← UInt64.lt_iff_toNat_lt]
        split <;> simp_all
  have h : (List.range n).foldl (newestStep v) (newestState none) = newestState _ :=
    List.foldl_hom newestState hstep
  exact h

/-- The first scan finds the newest record. -/
theorem newest_looks :
    Looks (forIn (List.range q.region.slot_count) ((none : Option ℕ), (none : Option UInt64))
      fun slot acc => (do
        let record := match ← read_slot slot with
          | .active record => some record
          | .acknowledged (some record) => some record
          | _ => none
        if let some record := record then
          if acc.2.all fun sequence => sequence < record.sequence then
            return .yield (some slot, some record.sequence)
          else return .yield (acc.1, acc.2)
        else return .yield (acc.1, acc.2) : QueueM ε (ForInStep (Option ℕ × Option UInt64))))
      q m (List.range q.region.slot_count) (newestState (q.region.newest m)) := by
  rw [Region.newest, SectorLog.newest, Region.layout_slots, ← newestStep_foldl]
  refine Looks.foldl (fun slot hslot acc => ?_) _
  refine (read_slot_looks (List.mem_range.mp hslot)).bind ?_
  rw [newestStep]
  rcases q.region.view m slot with _ | r | (_ | r) | _
  · exact Proc.looks_pure _
  · simp only [Slot.record?_active]
    split
    · exact Proc.looks_pure _
    · exact Proc.looks_pure _
  · exact Proc.looks_pure _
  · simp only [Slot.record?_acknowledged]
    split
    · exact Proc.looks_pure _
    · exact Proc.looks_pure _
  · exact Proc.looks_pure _

theorem foldl_or (p r : ℕ → Bool) (xs : List ℕ) (acc : Bool × Bool) :
    xs.foldl (fun acc x => (acc.1 || p x, acc.2 || r x)) acc
      = (acc.1 || xs.any p, acc.2 || xs.any r) := by
  induction xs generalizing acc with
  | nil => simp
  | cons x xs ih => simp [ih, Bool.or_assoc]

/-- Whether sector `k` has an active slot, and whether it has a dirty one. -/
def sectorUse (v : View MeasurementRecord) (k : ℕ) : Bool × Bool :=
  ((List.range' (k * Region.slots_per_sector) Region.slots_per_sector).any fun i =>
      ((v i).active?).isSome,
    (List.range' (k * Region.slots_per_sector) Region.slots_per_sector).any fun i => (v i).dirty)

/-- The slots of sector `k`. -/
def Region.sectorSlots (k : ℕ) : List ℕ :=
  List.range' (k * slots_per_sector) slots_per_sector

theorem Region.sectorSlots_lt {g : Region} {k : ℕ} (hk : k < g.sector_count) :
    ∀ i ∈ sectorSlots k, i < g.slot_count := by
  intro i hi
  have := g.slot_count_eq
  rw [sectorSlots, slots_per_sector_eq, List.mem_range'_1] at hi
  omega

/-- The scan of a sector finds its use. -/
theorem sector_looks {k : ℕ} (hk : k < q.region.sector_count) :
    Looks (forIn (List.range' (k * Region.slots_per_sector) Region.slots_per_sector)
      (false, false) fun slot acc => (do
        match ← read_slot slot with
        | .active _ => return .yield (true, acc.2)
        | .acknowledged _ => return .yield (acc.1, true)
        | .corrupt => return .yield (acc.1, true)
        | .erased => return .yield (acc.1, acc.2) : QueueM ε (ForInStep (Bool × Bool))))
      q m (Region.sectorSlots k) (sectorUse (q.region.view m) k) := by
  have h := foldl_or (fun i => ((q.region.view m i).active?).isSome)
    (fun i => (q.region.view m i).dirty)
    (List.range' (k * Region.slots_per_sector) Region.slots_per_sector) (false, false)
  rw [Bool.false_or, Bool.false_or] at h
  rw [sectorUse, ← h]
  refine Looks.foldl (fun slot hslot acc => ?_) _
  refine (read_slot_looks (Region.sectorSlots_lt hk slot hslot)).bind ?_
  cases q.region.view m slot with
  | active _ => simpa [Slot.dirty] using Proc.looks_pure _
  | acknowledged _ => simpa [Slot.dirty] using Proc.looks_pure _
  | corrupt => simpa [Slot.dirty] using Proc.looks_pure _
  | erased => simpa [Slot.dirty] using Proc.looks_pure _

/-- The test of `reclaim_inactive_sectors`, as computed. -/
theorem reclaimable_reclaimed {g : Region} {k : ℕ} :
    (!(sectorUse (g.view (g.reclaimed m k)) k).1 && (sectorUse (g.view (g.reclaimed m k)) k).2
      && !((newestState (g.newest m)).1).any fun i =>
        k * Region.slots_per_sector ≤ i
          && i < k * Region.slots_per_sector + Region.slots_per_sector) = true
      ↔ g.Reclaimable m k := by
  rw [newestState, sectorUse, Region.slots_per_sector_eq]
  have h := @reclaimable_reclaimTo _ g.layout seqKey (g.view m) k k le_rfl
  rw [Region.Reclaimable, ← h, reclaimable_iff, newest_reclaimTo, ← Region.view_reclaimed]
  have hmem : ∀ i, i / 16 = k ↔ i ∈ List.range' (k * 16) 16 := fun i => by
    rw [List.mem_range'_1]; omega
  simp only [Region.layout_width, Bool.and_eq_true, Bool.not_eq_true', List.any_eq_false, List.any_eq_true, hmem, and_assoc]
  refine and_congr (by simp) (and_congr (by simp) ?_)
  rw [Region.newest]
  cases SectorLog.newest g.layout seqKey (g.view m) with
  | none => simp
  | some b => 
    have hb : (decide (k * 16 ≤ b.1) && decide (b.1 < k * 16 + 16)) = false ↔ b.1 / 16 ≠ k := by
      rw [Bool.eq_false_iff, ne_eq, Bool.and_eq_true, decide_eq_true_iff, decide_eq_true_iff]
      omega
    rw [Option.map_some, Option.any_some, hb]
    constructor
    · rintro h i r he
      cases he
      exact h
    · exact fun h => h b.1 b.2 rfl

/-- Where reclaiming can be stopped: at a read, with some sectors reclaimed, or at
the erase of a sector. -/
inductive ReclaimStop (g : Region) (I : Prim → Flash → Flash → Prop) (m : Flash) : Flash → Prop where
  | scan {k : ℕ} (hk : k ≤ g.sector_count) (h : ScanStop g I (g.reclaimed m k)) :
      ReclaimStop g I m (g.reclaimed m k)
  | erase {k : ℕ} {m' : Flash} (hk : k < g.sector_count) (hr : g.Reclaimable m k)
      (h : I (.erase (g.sector_address k) (g.sector_address k + UInt32.ofNat ERASE_SIZE))
        (g.reclaimed m k) m') : ReclaimStop g I m m'

/-- Where nothing can stop a primitive, nothing stops reclaiming. -/
theorem ReclaimStop.not_none {g : Region} {I : Prim → Flash → Flash → Prop} {m m' : Flash}
    (hI : ∀ p m m', ¬ I p m m') : ¬ ReclaimStop g I m m'
  | .scan _ ⟨_, _, h⟩ => hI _ _ _ h
  | .erase _ _ h => hI _ _ _ h

/-- One round of the reclaim loop, once its test is known to be `Reclaimable`. -/
theorem reclaim_sector_wp (hG : ∀ p m₁ m₂, Quiet q.region m₁ p → G p m₁ m₂)
    {k : ℕ} (hk : k < q.region.sector_count) {test : Bool}
    (htest : test = true ↔ q.region.Reclaimable m k)
    {Q : Result (QueueError ε) FlashQueue (ForInStep PUnit) → Flash → Prop}
    (hok : Q (.ok (.yield ⟨⟩) q) (q.region.reclaimed m (k + 1)))
    (herr : ∀ c m', ReclaimStop q.region F.fail m m' → Q (.error (.storage c) q) m')
    (hcut : ∀ m', ReclaimStop q.region F.cut m m' → Q .cut m') :
    Proc.wp (F.env ε) G
      (if test = true then do
        erase .storage (q.region.sector_address k)
          (q.region.sector_address k + UInt32.ofNat ERASE_SIZE)
        pure (.yield ⟨⟩)
      else pure (.yield ⟨⟩)) Q q (q.region.reclaimed m k) := by
  rw [Region.reclaimed_succ] at hok
  cases test with
  | false =>
    rwa [if_neg fun hr => Bool.false_ne_true (htest.mpr hr)] at hok
  | true =>
    have hr : q.region.Reclaimable m k := htest.mp rfl
    have hr' : q.region.Reclaimable (q.region.reclaimed m k) k := by
      rw [Region.Reclaimable, Region.view_reclaimed]
      exact (reclaimable_reclaimTo le_rfl).mpr hr
    rw [if_pos rfl, Proc.wp_bind]
    refine wp_erase (fun m' => hG _ _ _ (.erase hk hr')) ?_ ?_ ?_
    · rw [q.region.sector_address_toNat hk, q.region.sector_end_toNat hk]
      rwa [if_pos hr] at hok
    · exact fun c m' h => herr c m' (.erase hk hr h)
    · exact fun m' h => hcut m' (.erase hk hr h)

/-- **Reclaiming** erases the reclaimable sectors, one after the other. -/
theorem reclaim_wp (q : FlashQueue) (hG : ∀ p m₁ m₂, Quiet q.region m₁ p → G p m₁ m₂)
    {Q : Result (QueueError ε) FlashQueue Unit → Flash → Prop}
    (hok : Q (.ok () q) (q.region.reclaimedAll m))
    (herr : ∀ c m', ReclaimStop q.region F.fail m m' → Q (.error (.storage c) q) m')
    (hcut : ∀ m', ReclaimStop q.region F.cut m m' → Q .cut m') :
    Proc.wp (F.env ε) G reclaim_inactive_sectors Q q m := by
  have hscan : ∀ k ≤ q.region.sector_count, ∀ e,
      (∃ c, e = QueueError.storage c) ∧ ScanStop q.region F.fail (q.region.reclaimed m k) →
        Q (.error e q) (q.region.reclaimed m k) := by
    rintro k hk _ ⟨⟨c, rfl⟩, h⟩
    exact herr c _ (.scan hk h)
  rw [reclaim_inactive_sectors, Proc.wp_bind, Proc.wp_get]
  refine (newest_looks.scans (fun _ => List.mem_range.mp) fun p m' => hG p m m').wp_bind ?_
    (hscan 0 (Nat.zero_le _))
    fun h => hcut _ (.scan (Nat.zero_le _) h)
  rw [Proc.wp_bind]
  refine Proc.wp_forIn (fun k _ q' m' => q' = q ∧ m' = q.region.reclaimed m k) ?_ ?_ ⟨rfl, rfl⟩
  · rintro k hk _ q' _ ⟨rfl, rfl⟩
    rw [List.length_range] at hk
    rw [List.getElem_range]
    refine ((sector_looks hk).scans (Region.sectorSlots_lt hk) fun p m' => hG p _ m').wp_bind ?_ (hscan k hk.le)
      fun h => hcut _ (.scan hk.le h)
    exact reclaim_sector_wp hG hk reclaimable_reclaimed ⟨rfl, rfl⟩ herr hcut
  · rintro _ q' m' ⟨rfl, rfl⟩
    rw [List.length_range]
    exact hok

end Reclaim

end PicoDataLogger
