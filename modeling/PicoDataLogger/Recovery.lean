/-
Recovery from an arbitrary flash image.

`recover` runs before anything is known about the flash: an old firmware's
records, a torn body, a bit that decayed. What it does then is a statement about
`classify` and the reclaim rule and about nothing else, so no lemma here assumes
that the image came from a run. The only thing asked of the image is that its
sequences mean something: no two readable records share one and none is the last
`u64`.
-/
import PicoDataLogger.CrashStates
import PicoDataLogger.LogImage

set_option autoImplicit false

namespace PicoDataLogger

open Interaction NorFlash SectorLog

namespace Region

variable {g : Region} {m : Flash} {i j k a : ℕ} {r : MeasurementRecord} {n : UInt64}

/-! ## Bytes after reclaiming -/

/-- An address of sector `i` is in sector `k` only if they are the same. -/
theorem sectorAddr_inside (hj : j < 4096) :
    (g.sectorAddr k ≤ g.sectorAddr i + j ∧ g.sectorAddr i + j < g.sectorAddr k + 4096) ↔ i = k := by
  rw [sectorAddr, sectorAddr]
  omega

/-- Reclaiming erases the bytes of the sectors it reclaims and no other. -/
theorem reclaimed_bytes_sector (hj : j < 4096) :
    (g.reclaimed m k).bytes (g.sectorAddr i + j)
      = if i < k ∧ g.Reclaimable m i then ERASED else m.bytes (g.sectorAddr i + j) := by
  induction k with
  | zero => rw [reclaimed_zero, if_neg fun h => absurd h.1 (Nat.not_lt_zero i)]
  | succ k ih =>
    have hstep : (g.reclaimed m (k + 1)).bytes (g.sectorAddr i + j)
        = if i = k ∧ g.Reclaimable m k then ERASED
          else (g.reclaimed m k).bytes (g.sectorAddr i + j) := by
      rw [reclaimed_succ]
      by_cases hr : g.Reclaimable m k
      · rw [if_pos hr, Flash.eraseRange_bytes]
        simp only [sectorAddr_inside hj, hr, and_true, ERASED]
      · rw [if_neg hr, if_neg fun h => hr h.2]
    rw [hstep, ih]
    rcases Nat.lt_trichotomy i k with hik | rfl | hki
    · simp only [hik, hik.ne, Nat.lt_succ_of_lt hik, false_and, true_and, if_false]
    · simp only [true_and, lt_irrefl, false_and, if_false, Nat.lt_succ_self]
    · simp only [hki.ne', hki.not_gt, (Nat.succ_le_of_lt hki).not_gt, false_and, if_false]

/-- Where nothing is reclaimable, nothing is erased. -/
theorem reclaimed_of_settled (h : Settled g.layout seqKey (g.view m)) (hk : k ≤ g.sector_count) :
    g.reclaimed m k = m := by
  induction k with
  | zero => rfl
  | succ k ih =>
    have hk' : ¬ g.Reclaimable m k := h k hk
    rw [reclaimed_succ, if_neg hk', ih (Nat.le_of_succ_le hk)]

/-- Reclaiming leaves nothing to reclaim. -/
theorem settled_reclaimedAll : Settled g.layout seqKey (g.view (g.reclaimedAll m)) := by
  rw [reclaimedAll, view_reclaimed]
  exact settled_reclaim

@[simp] theorem newest_reclaimedAll : g.newest (g.reclaimedAll m) = g.newest m := by
  rw [newest, reclaimedAll, view_reclaimed, newest_reclaimTo, newest]

@[simp] theorem depth_reclaimedAll : g.depth (g.reclaimedAll m) = g.depth m := by
  rw [depth, reclaimedAll, view_reclaimed, depth_reclaimTo, depth]

@[simp] theorem next_sequence_reclaimedAll :
    g.next_sequence (g.reclaimedAll m) = g.next_sequence m := by
  rw [next_sequence, newest_reclaimedAll, next_sequence]

theorem reclaimedAll_reclaimedAll : g.reclaimedAll (g.reclaimedAll m) = g.reclaimedAll m :=
  reclaimed_of_settled settled_reclaimedAll le_rfl

/-- A sector whose slots are all erased holds erased bytes only. -/
theorem bytes_of_erased (h : ∀ i, i / 16 = k → g.view m i = .erased) (hj : j < 4096) :
    m.bytes (g.sectorAddr k + j) = ERASED := by
  have hslot := g.getElem_of_erased (h (k * 16 + j / 256) (by omega)) (j % 256)
    (Nat.mod_lt j (by decide))
  rwa [show g.slotAddr (k * 16 + j / 256) + j % 256 = g.sectorAddr k + j by
    rw [slotAddr, sectorAddr]; omega] at hslot

/-! ## The sequence to go on from -/

/-- `n` is one more than the largest sequence that can be read, or zero if none can. -/
def IsNext (g : Region) (m : Flash) (n : UInt64) : Prop :=
  (∀ i r, i < g.slot_count → (g.view m i).record? = some r → r.sequence.toNat < n.toNat)
    ∧ (n = 0 ∨ ∃ i r, i < g.slot_count ∧ (g.view m i).record? = some r
        ∧ n.toNat = r.sequence.toNat + 1)

theorem newest_eq_some_iff : g.newest m = some (i, r) ↔
    IsFirstMin (fun r => OrderDual.toDual (seqKey r)) (fun i => (g.view m i).record?) g.slot_count
      i r := by
  rw [newest, SectorLog.newest, firstMin_eq_some_iff, g.layout_slots]

/-- While no record carries the last sequence, the counter goes on without wrapping. -/
theorem isNext_next_sequence
    (hmax : ∀ i r, i < g.slot_count → (g.view m i).record? = some r →
      r.sequence.toNat + 1 < 2 ^ 64) : g.IsNext m (g.next_sequence m) := by
  rw [next_sequence]
  cases h : g.newest m with
  | none =>
    rw [newest, SectorLog.newest, firstMin_eq_none_iff, g.layout_slots] at h
    exact ⟨fun i r hi hr => absurd hr (by simp [h i hi]), .inl rfl⟩
  | some b =>
    obtain ⟨i, r⟩ := b
    have hmin := newest_eq_some_iff.mp h
    have hn : (r.sequence + 1).toNat = r.sequence.toNat + 1 := by
      rw [UInt64.toNat_add, UInt64.toNat_one, Nat.mod_eq_of_lt (hmax i r hmin.lt hmin.val)]
    refine ⟨fun j s hj hs => ?_, .inr ⟨i, r, hmin.lt, hmin.val, hn⟩⟩
    have hle : s.sequence.toNat ≤ r.sequence.toNat := hmin.least j s hj hs
    rw [Option.elim_some, hn]
    omega

end Region

/-! ## The whole of recovery -/

/-- What recovery leaves of an image `m`: the image `m'`, the queue and the report. -/
structure Recovers (g : Region) (m m' : Flash) (q : FlashQueue) (report : RecoveryReport) :
    Prop where
  /-- The active records are the ones there were, slot by slot. -/
  active : ∀ i r, i < g.slot_count → (g.view m' i = .active r ↔ g.view m i = .active r)
  /-- The depth is their number. -/
  depth : q.depth = (live g.layout seqKey (g.view m)).length
  /-- The counter goes on from the largest sequence, before and after reclaiming. -/
  next : g.IsNext m q.next_sequence ∧ g.IsNext m' q.next_sequence
  /-- The report says so. -/
  reported : report.depth = q.depth ∧ report.next_sequence = q.next_sequence
  /-- A sector with no active record and without the largest sequence ends erased. -/
  erased : ∀ k < g.sector_count, (∀ i r, i / 16 = k → g.view m i ≠ .active r) →
    (∀ i r, i / 16 = k → (g.view m i).record? = some r →
      r.sequence.toNat + 1 ≠ q.next_sequence.toNat) →
    ∀ j < 4096, m'.bytes (g.sectorAddr k + j) = ERASED
  /-- Every other sector keeps its bytes. -/
  kept : ∀ k < g.sector_count, (∃ i r, i / 16 = k ∧ (g.view m i = .active r
      ∨ (g.view m i).record? = some r ∧ r.sequence.toNat + 1 = q.next_sequence.toNat)) →
    ∀ j < 4096, m'.bytes (g.sectorAddr k + j) = m.bytes (g.sectorAddr k + j)

/-- Reclaiming an image with unique sequences leaves what `Recovers` says. -/
theorem recovers_reclaimedAll {g : Region} {m : Flash}
    (hdistinct : ∀ i j r s, i < g.slot_count → j < g.slot_count →
      (g.view m i).record? = some r → (g.view m j).record? = some s →
      r.sequence = s.sequence → i = j)
    (hmax : ∀ i r, i < g.slot_count → (g.view m i).record? = some r →
      r.sequence.toNat + 1 < 2 ^ 64) :
    Recovers g m (g.reclaimedAll m) (g.recovered m) (g.report m) := by
  have hview : g.view (g.reclaimedAll m) = reclaim g.layout seqKey (g.view m) := by
    rw [Region.reclaimedAll, Region.view_reclaimed]
    rfl
  have hnext := Region.isNext_next_sequence hmax
  have hnext' : g.IsNext (g.reclaimedAll m) (g.next_sequence (g.reclaimedAll m)) :=
    Region.isNext_next_sequence fun i r hi hr =>
      hmax i r hi (record?_of_reclaimTo (by rwa [hview] at hr))
  rw [Region.next_sequence_reclaimedAll] at hnext'
  have hslot : ∀ k i, k < g.sector_count → i / 16 = k → i < g.slot_count := by
    have := g.slot_count_eq
    omega
  -- the newest record carries the largest sequence
  have hlast : ∀ i r, g.newest m = some (i, r) →
      r.sequence.toNat + 1 = (g.next_sequence m).toNat := by
    intro i r hn
    have hlt := (Region.newest_eq_some_iff.mp hn).lt
    have hval := (Region.newest_eq_some_iff.mp hn).val
    rw [Region.next_sequence, hn, Option.elim_some, UInt64.toNat_add, UInt64.toNat_one,
      Nat.mod_eq_of_lt (hmax i r hlt hval)]
  constructor
  · intro i r _
    have := @active?_reclaimTo _ g.layout seqKey (g.view m) g.layout.sectors i
    rw [hview, reclaim, ← Slot.active?_eq_some, this, Slot.active?_eq_some]
  · exact length_live.symm
  · exact ⟨hnext, hnext'⟩
  · exact ⟨rfl, rfl⟩
  · intro k hk hact hnew j hj
    rw [Region.reclaimedAll, Region.reclaimed_bytes_sector hj]
    split
    · rfl
    · rename_i hr
      refine Region.bytes_of_erased (fun i hi => ?_) hj
      refine erased_of_not_reclaimable (fun h => hr ⟨hk, h⟩) (fun i hi => ?_)
        (fun i r hn hi => ?_) hi
      · rw [Option.eq_none_iff_forall_ne_some]
        exact fun r hr => hact i r hi (Slot.active?_eq_some.mp hr)
      · exact hnew i r hi (Region.newest_eq_some_iff.mp hn).val (hlast i r hn)
  · intro k hk h j hj
    rw [Region.reclaimedAll, Region.reclaimed_bytes_sector hj, if_neg]
    rintro ⟨-, hr⟩
    obtain ⟨i, r, hi, hv | ⟨hv, hs⟩⟩ := h
    · exact not_reclaimable_of_active hv (hi ▸ hr)
    · -- a record with the largest sequence is the newest record
      have hlt := hslot k i hk hi
      cases hn : g.newest m with
      | none =>
        rw [Region.newest, newest, firstMin_eq_none_iff, g.layout_slots] at hn
        simp [hn i hlt] at hv
      | some b =>
        obtain ⟨l, t⟩ := b
        have hmin := Region.newest_eq_some_iff.mp hn
        have hst : r.sequence = t.sequence := by
          have heq : r.sequence.toNat + 1 = t.sequence.toNat + 1 := hs.trans (hlast l t hn).symm
          exact UInt64.toNat_inj.mp (Nat.succ_inj.mp heq)
        have hil := hdistinct i l r t hlt hmin.lt hv hmin.val hst
        rw [← hi, hil] at hr
        exact not_reclaimable_of_newest hn hr

/-- Recovery on a flash that behaves, as a function of the image. -/
theorem recover_run {ε : Type} (geo : Geometry) (m : Flash) :
    (recover geo.part geo.start geo.length).run NorFlash.step m
      = ((.ok (geo.region.recovered m, geo.region.report m) : Except (QueueError ε) _),
        geo.region.reclaimedAll m) := by
  obtain ⟨tr, h⟩ := Prog.exec_run NorFlash.step
    (recover geo.part geo.start geo.length : Prog Prim (Prim.Answer ε) _) m
  have hend := recover_ends (h.mono (Faults.ofStep_le_env .none ε))
  generalize (recover geo.part geo.start geo.length).run NorFlash.step m = res at hend
  obtain ⟨o, m'⟩ := res
  cases hend with
  | ok => rfl
  | failed h => exact absurd h (ReclaimStop.not_none fun _ _ _ => id)

/-- A recovery may succeed. -/
theorem exists_recover_exec (ε : Type) (F : Faults) (geo : Geometry) (m : Flash) :
    ∃ tr, Exec (F.env ε) (recover geo.part geo.start geo.length) m tr
      (.done (.ok (geo.region.recovered m, geo.region.report m))) (geo.region.reclaimedAll m) := by
  obtain ⟨tr, h⟩ := Prog.exec_run NorFlash.step
    (recover geo.part geo.start geo.length : Prog Prim (Prim.Answer ε) _) m
  rw [recover_run] at h
  exact ⟨tr, h.mono (Faults.ofStep_le_env F ε)⟩

/-- A flash that behaves lets a recovery through, so every fault model has the step. -/
theorem exists_recover_step (ε : Type) (F : Faults) (geo : Geometry) (M : Machine) :
    ∃ tr, Step F geo M
      (⟨tr, .recover (.done (.ok (geo.region.recovered M.flash, geo.region.report M.flash)))⟩ :
        Label ε)
      ⟨geo.region.reclaimedAll M.flash, some (geo.region.recovered M.flash)⟩ := by
  obtain ⟨tr, h⟩ := exists_recover_exec ε F geo M.flash
  exact ⟨tr, .recover h⟩

/-- **Recovery from any image.** On every image whose readable records have
distinct sequences below `u64::MAX`, fault-free `recover` succeeds and does what
`Recovers` says; a second recovery changes nothing, in particular erases
nothing, and reports the same depth and counter. -/
theorem recover_from_any_image {ε : Type} (geo : Geometry) (m : Flash)
    (hdistinct : ∀ i j r s, i < geo.region.slot_count → j < geo.region.slot_count →
      (geo.region.view m i).record? = some r → (geo.region.view m j).record? = some s →
      r.sequence = s.sequence → i = j)
    (hmax : ∀ i r, i < geo.region.slot_count → (geo.region.view m i).record? = some r →
      r.sequence.toNat + 1 < 2 ^ 64) :
    ∃ q report m', (recover geo.part geo.start geo.length).run NorFlash.step m
        = ((.ok (q, report) : Except (QueueError ε) _), m')
      ∧ Recovers geo.region m m' q report
      ∧ ∃ q' report', (recover geo.part geo.start geo.length).run NorFlash.step m'
          = ((.ok (q', report') : Except (QueueError ε) _), m')
        ∧ report'.depth = report.depth ∧ report'.next_sequence = report.next_sequence := by
  have hrec := @recover_run ε geo (geo.region.reclaimedAll m)
  rw [Region.reclaimedAll_reclaimedAll] at hrec
  refine ⟨_, _, _, recover_run geo m, recovers_reclaimedAll hdistinct hmax, _, _, hrec, ?_, ?_⟩
  · exact Region.depth_reclaimedAll
  · exact Region.next_sequence_reclaimedAll

/-- A log with some of everything: the first sector has been delivered, but for a slot that was
spoilt, and has not been erased; in the second there are two records, and another spoilt slot. -/
def someOfEach (i : ℕ) : SectorLog.Slot ℕ :=
  if i = 5 ∨ i = 19 then .corrupt
  else if i ≤ 16 then .acknowledged (some i)
  else if i ≤ 18 then .active i
  else .erased

theorem someOfEach_record? {i n : ℕ} (h : (someOfEach i).record? = some n) : n = i ∧ i ≤ 18 := by
  rw [someOfEach] at h
  split at h
  · cases h
  · split at h
    · obtain rfl := Option.some.inj h
      exact ⟨rfl, by omega⟩
    · split at h
      · obtain rfl := Option.some.inj h
        exact ⟨rfl, by omega⟩
      · cases h

/-- What can be read on an image of that log. -/
theorem record?_of_someOfEach {g : Region} {s : Sample} {i : ℕ} {r : MeasurementRecord}
    (h : (g.view (g.draw s someOfEach) i).record? = some r) : i ≤ 18 ∧ r.sequence.toNat = i := by
  rw [g.view_draw, Slot.record?_map] at h
  obtain ⟨n, hn, rfl⟩ := Option.map_eq_some_iff.mp h
  obtain ⟨rfl, hle⟩ := someOfEach_record? hn
  refine ⟨hle, ?_⟩
  change (UInt64.ofNat n).toNat = n
  rw [UInt64.toNat_ofNat', Nat.mod_eq_of_lt (by omega)]

/-- On an image of that log recovery finds the two records, goes on from 19, and erases the first
sector. -/
theorem recover_from_any_image_mixed :
    ∃ m : Flash, (∀ i, Geometry.twoSectors.region.view m i = (someOfEach i).map (reading none).stored)
      ∧ ∃ q report m', (recover Geometry.twoSectors.part Geometry.twoSectors.start
            Geometry.twoSectors.length).run NorFlash.step m
          = ((.ok (q, report) : Except (QueueError Unit) _), m')
        ∧ Recovers Geometry.twoSectors.region m m' q report
        ∧ q.depth = 2 ∧ q.next_sequence = 19
        ∧ ∀ j < ERASE_SIZE, m'.bytes (Geometry.twoSectors.region.sectorAddr 0 + j) = ERASED := by
  generalize hm : Geometry.twoSectors.region.draw (reading none) someOfEach = m
  have hview : ∀ i, Geometry.twoSectors.region.view m i = (someOfEach i).map (reading none).stored :=
    fun i => hm ▸ Geometry.twoSectors.region.view_draw (reading none) someOfEach i
  have hread : ∀ i r, (Geometry.twoSectors.region.view m i).record? = some r →
      i ≤ 18 ∧ r.sequence.toNat = i := fun i r h => record?_of_someOfEach (hm ▸ h)
  obtain ⟨q, report, m', hrun, hrec, -⟩ := @recover_from_any_image Unit Geometry.twoSectors m
    (fun i j r s _ _ hr hs hseq => by rw [← (hread i r hr).2, ← (hread j s hs).2, hseq])
    fun i r _ hr => by have := hread i r hr; omega
  -- record 18 is the newest there is
  have hlast : (Geometry.twoSectors.region.view m 18).record? = some ((reading none).stored 18) := by
    rw [hview]
    rfl
  have hnext : q.next_sequence.toNat = 19 := by
    have hlt : 18 < q.next_sequence.toNat := hrec.next.1.1 18 _ (by decide) hlast
    rcases hrec.next.1.2 with h0 | ⟨i, r, -, hr, hn⟩
    · rw [h0] at hlt
      exact absurd hlt (by decide)
    · have := hread i r hr
      omega
  refine ⟨m, hview, q, report, m', hrun, hrec, ?_, UInt64.toNat_inj.mp hnext, ?_⟩
  · have hcount : SectorLog.depth Geometry.twoSectors.region.layout (Geometry.twoSectors.region.view m)
        = SectorLog.depth Geometry.twoSectors.region.layout someOfEach :=
      count_congr fun i _ => by rw [hview, Slot.active?_map, Option.isSome_map]
    rw [hrec.depth, length_live, hcount]
    rfl
  · refine hrec.erased 0 (by decide) (fun i r hi hv => ?_) fun i r hi hr => ?_
    · rw [hview, someOfEach, if_pos (c := i ≤ 16) (by omega)] at hv
      split at hv
      · cases hv
      · cases hv
    · have := hread i r hr
      omega

end PicoDataLogger
