/-
From bytes to slots: what the flash image is as a log, and what each flash
primitive of the queue does to that log.

`Region.view` reads every slot the way `read_slot` does. The lemmas after it are
the bottom half of the refinement: programming an acknowledgement is
`SectorLog.retire`, programming a body and then its state byte is
`SectorLog.commit`, erasing a sector is `SectorLog.eraseSector`, and a torn
program is either nothing, the whole thing, or `SectorLog.spoil`. Above this file
no proof looks at a byte, except where a result is about bytes.
-/
import PicoDataLogger.FlashQueue
import Mathlib.Data.List.GetD

set_option autoImplicit false

namespace PicoDataLogger

open Interaction NorFlash SectorLog

/-! ## Geometry -/

namespace Region

variable (g : Region)

/-- The region as the shape of a log. -/
def layout : Layout where
  sectors := g.sector_count
  width := slots_per_sector
  width_pos := by decide

@[simp] theorem layout_sectors : g.layout.sectors = g.sector_count := rfl

@[simp] theorem layout_width : g.layout.width = 16 := rfl

@[simp] theorem slots_per_sector_eq : slots_per_sector = 16 := rfl

theorem length_eq : g.length.toNat = g.sector_count * 4096 :=
  (Nat.div_mul_cancel g.length_aligned).symm

theorem slot_count_eq : g.slot_count = g.sector_count * 16 := by
  have h : g.sector_count * 4096 = g.sector_count * 16 * 256 := by omega
  rw [slot_count, length_eq, h]
  exact Nat.mul_div_cancel _ (by decide)

@[simp] theorem layout_slots : g.layout.slots = g.slot_count := by
  rw [slot_count_eq]
  rfl

theorem two_le_sector_count : 2 ≤ g.sector_count := by
  have h₁ : 4096 * 2 ≤ g.length.toNat := g.two_sectors
  have h₂ := g.length_eq
  omega

theorem capacity_add : g.capacity + 16 = g.slot_count := by
  have h₁ := g.two_le_sector_count
  have h₂ := g.slot_count_eq
  rw [capacity, slots_per_sector_eq]
  omega

/-- Where a slot starts, as a number. -/
def slotAddr (i : ℕ) : ℕ := g.start.toNat + i * 256

/-- Where a sector starts, as a number. -/
def sectorAddr (k : ℕ) : ℕ := g.start.toNat + k * 4096

theorem slotAddr_end {i : ℕ} (h : i < g.slot_count) :
    g.slotAddr i + 256 ≤ g.start.toNat + g.length.toNat := by
  have h₁ := g.slot_count_eq
  have h₂ := g.length_eq
  rw [slotAddr]
  omega

theorem sectorAddr_end {k : ℕ} (h : k < g.sector_count) :
    g.sectorAddr k + 4096 ≤ g.start.toNat + g.length.toNat := by
  have h₂ := g.length_eq
  rw [sectorAddr]
  omega

/-- **No address computation wraps**: the `u32` sum is the sum. -/
theorem address_toNat {i : ℕ} (h : i < g.slot_count) : (g.address i).toNat = g.slotAddr i := by
  have h₁ : g.start.toNat + i * 256 + 256 ≤ _ := g.slotAddr_end h
  have h₂ := g.no_overflow
  rw [address, slotAddr, RECORD_SIZE, UInt32.toNat_add, UInt32.toNat_ofNat',
    Nat.mod_eq_of_lt (by omega), Nat.mod_eq_of_lt (by omega)]

theorem sector_address_toNat {k : ℕ} (h : k < g.sector_count) :
    (g.sector_address k).toNat = g.sectorAddr k := by
  have h₁ : g.start.toNat + k * 4096 + 4096 ≤ _ := g.sectorAddr_end h
  have h₂ := g.no_overflow
  rw [sector_address, sectorAddr, ERASE_SIZE, UInt32.toNat_add, UInt32.toNat_ofNat',
    Nat.mod_eq_of_lt (by omega), Nat.mod_eq_of_lt (by omega)]

theorem sector_end_toNat {k : ℕ} (h : k < g.sector_count) :
    (g.sector_address k + UInt32.ofNat ERASE_SIZE).toNat = g.sectorAddr k + 4096 := by
  have h₁ := g.sectorAddr_end h
  have h₂ := g.no_overflow
  rw [ERASE_SIZE, UInt32.toNat_add, g.sector_address_toNat h, UInt32.toNat_ofNat',
    Nat.mod_eq_of_lt (by omega), Nat.mod_eq_of_lt (by omega)]

end Region

/-! ## Classification -/

section Classify

variable {bytes : Vector UInt8 RECORD_SIZE} {record : MeasurementRecord}

theorem all_erased_iff :
    bytes.all (· == ERASED) = true ↔ ∀ i (h : i < RECORD_SIZE), bytes[i] = ERASED := by
  rw [Vector.all_eq_true]
  simp only [beq_iff_eq]

theorem classify_eq_erased_iff :
    classify bytes = .erased ↔ ∀ i (h : i < RECORD_SIZE), bytes[i] = ERASED := by
  rw [← all_erased_iff, classify]
  split
  · simp_all
  · split
    · simp_all
    · split
      · simp_all
      · split <;> simp_all

theorem classify_of_acknowledged (h : bytes[0] = ACKNOWLEDGED) :
    classify bytes = .acknowledged (decode bytes) := by
  have hne : ¬ bytes.all (· == ERASED) = true := by
    rw [all_erased_iff]
    intro hall
    exact absurd (h.symm.trans (hall 0 (by decide))) (by decide)
  rw [classify, if_neg hne, if_pos h]

theorem classify_of_committed (h : bytes[0] = COMMITTED) :
    classify bytes = match decode bytes with
      | some record => .active record
      | none => .corrupt := by
  have hne : ¬ bytes.all (· == ERASED) = true := by
    rw [all_erased_iff]
    intro hall
    exact absurd (h.symm.trans (hall 0 (by decide))) (by decide)
  have hack : bytes[0] ≠ ACKNOWLEDGED := by
    rw [h]
    decide
  have hcommit : ¬ bytes[0] ≠ COMMITTED := not_not.mpr h
  unfold classify
  refine (if_neg hne).trans ((if_neg hack).trans ((if_neg hcommit).trans ?_))
  cases decode bytes <;> rfl

/-- A slot with any other state byte is erased throughout or corrupt. -/
theorem classify_of_other (h₁ : bytes[0] ≠ ACKNOWLEDGED) (h₂ : bytes[0] ≠ COMMITTED) :
    classify bytes = .erased ∨ classify bytes = .corrupt := by
  rw [classify, if_neg h₁, if_pos h₂]
  split
  · exact .inl rfl
  · exact .inr rfl

/-- An active slot carries the state byte `COMMITTED` and a record that decodes. -/
theorem classify_eq_active_iff :
    classify bytes = .active record ↔ bytes[0] = COMMITTED ∧ decode bytes = some record := by
  by_cases h₁ : bytes[0] = ACKNOWLEDGED
  · rw [classify_of_acknowledged h₁, h₁]
    exact ⟨nofun, fun h => absurd h.1 (by decide)⟩
  · by_cases h₂ : bytes[0] = COMMITTED
    · rw [classify_of_committed h₂]
      cases hd : decode bytes <;> simp [h₂]
    · rcases classify_of_other h₁ h₂ with h | h <;> rw [h] <;> simp [h₂]

/-- An acknowledged slot carries the state byte `ACKNOWLEDGED`, whatever follows. -/
theorem classify_eq_acknowledged_iff {o : Option MeasurementRecord} :
    classify bytes = .acknowledged o ↔ bytes[0] = ACKNOWLEDGED ∧ decode bytes = o := by
  by_cases h₁ : bytes[0] = ACKNOWLEDGED
  · rw [classify_of_acknowledged h₁]
    simp [h₁]
  · by_cases h₂ : bytes[0] = COMMITTED
    · rw [classify_of_committed h₂]
      cases hd : decode bytes <;> simp [h₁]
    · rcases classify_of_other h₁ h₂ with h | h <;> rw [h] <;> simp [h₁]

end Classify

/-! ## The view -/

namespace Region

variable (g : Region) {m m' : Flash} {i j : ℕ} {record : MeasurementRecord}

/-- The bytes of slot `i`. -/
def slotBytes (m : Flash) (i : ℕ) : Vector UInt8 RECORD_SIZE :=
  m.slice (g.slotAddr i) RECORD_SIZE

/-- The flash image as a log. -/
def view (m : Flash) : View MeasurementRecord := fun i => classify (g.slotBytes m i)

theorem slotBytes_getElem (m : Flash) (i j : ℕ) (h : j < RECORD_SIZE) :
    (g.slotBytes m i)[j] = m.bytes (g.slotAddr i + j) := by
  simp [slotBytes]

theorem slotBytes_zero (m : Flash) (i : ℕ) : (g.slotBytes m i)[0] = m.bytes (g.slotAddr i) :=
  g.slotBytes_getElem m i 0 record_size_pos

/-- A slot whose bytes are untouched is untouched. -/
theorem slotBytes_congr
    (h : ∀ a, g.slotAddr i ≤ a → a < g.slotAddr i + 256 → m'.bytes a = m.bytes a) :
    g.slotBytes m' i = g.slotBytes m i :=
  Flash.slice_congr h

/-- Two slots share no address. -/
theorem slotAddr_disjoint (hij : i ≠ j) :
    g.slotAddr i + 256 ≤ g.slotAddr j ∨ g.slotAddr j + 256 ≤ g.slotAddr i := by
  rw [slotAddr, slotAddr]
  omega

/-- What changes only slot `i` updates the view at `i`. -/
theorem view_eq_update (h : ∀ j, j ≠ i → g.slotBytes m' j = g.slotBytes m j) :
    g.view m' = Function.update (g.view m) i (g.view m' i) := by
  funext j
  by_cases hj : j = i
  · rw [hj, Function.update_self]
  · rw [Function.update_of_ne hj, view, view, h j hj]

/-- A torn program of slot `i` leaves the other slots alone. -/
theorem slotBytes_of_torn {data : List UInt8} (hlen : data.length ≤ 256)
    (h : Faults.Torn (g.slotAddr i) data m m') (hj : j ≠ i) :
    g.slotBytes m' j = g.slotBytes m j := by
  apply g.slotBytes_congr
  intro a ha₁ ha₂
  have hd := g.slotAddr_disjoint hj
  have := h.2 a
  rwa [if_neg (by omega)] at this

/-- A program that is not torn is the tear that loses nothing. -/
theorem torn_program (offset : ℕ) (data : List UInt8) (m : Flash) :
    Faults.Torn offset data m (m.program offset data) := by
  refine ⟨rfl, fun a => ?_⟩
  rw [Flash.program_bytes]
  split
  · exact ⟨0, by rw [UInt8.or_zero]⟩
  · rfl

/-! ## The state byte -/

/-- Programming one byte at the head of a slot changes that byte only. -/
theorem slotBytes_state {state : UInt8} (h : Faults.Torn (g.slotAddr i) [state] m m') :
    (∃ mask, (g.slotBytes m' i)[0] = (g.slotBytes m i)[0] &&& (state ||| mask))
      ∧ ∀ j (hj : j < RECORD_SIZE), 1 ≤ j → (g.slotBytes m' i)[j] = (g.slotBytes m i)[j] := by
  simp only [slotBytes_getElem]
  constructor
  · simpa using h.2 (g.slotAddr i + 0)
  · intro j hj h₁
    have := h.2 (g.slotAddr i + j)
    rwa [if_neg (by rw [List.length_singleton]; omega)] at this

/-- A torn acknowledgement of a committed byte is the old byte or the new one. -/
theorem torn_acknowledged (mask : UInt8) :
    COMMITTED &&& (ACKNOWLEDGED ||| mask) = COMMITTED
      ∨ COMMITTED &&& (ACKNOWLEDGED ||| mask) = ACKNOWLEDGED := by
  have h : ∀ b : BitVec 8, 0x7f#8 &&& (0x3f#8 ||| b) = 0x7f#8 ∨ 0x7f#8 &&& (0x3f#8 ||| b) = 0x3f#8 := by
    decide +kernel
  exact (h mask.toBitVec).imp (fun h => UInt8.toBitVec_inj.mp h) fun h => UInt8.toBitVec_inj.mp h

/-- A torn commit of an erased byte is the old byte or the new one. -/
theorem torn_committed (mask : UInt8) :
    ERASED &&& (COMMITTED ||| mask) = ERASED ∨ ERASED &&& (COMMITTED ||| mask) = COMMITTED := by
  have h : ∀ b : BitVec 8, 0xff#8 &&& (0x7f#8 ||| b) = 0xff#8 ∨ 0xff#8 &&& (0x7f#8 ||| b) = 0x7f#8 := by
    decide +kernel
  exact (h mask.toBitVec).imp (fun h => UInt8.toBitVec_inj.mp h) fun h => UInt8.toBitVec_inj.mp h

/-- **A torn acknowledgement** of an active slot is no acknowledgement or a whole one. -/
theorem view_torn_acknowledged (h : Faults.Torn (g.slotAddr i) [ACKNOWLEDGED] m m')
    (hi : g.view m i = .active record) :
    g.view m' = g.view m ∨ g.view m' = retire (g.view m) i record := by
  obtain ⟨⟨mask, h0⟩, hrest⟩ := g.slotBytes_state h
  obtain ⟨hc, hd⟩ := classify_eq_active_iff.mp hi
  have hdec : decode (g.slotBytes m' i) = some record := (decode_congr hrest).trans hd
  have hupd : g.view m' = Function.update (g.view m) i (g.view m' i) := g.view_eq_update fun j hj =>
    g.slotBytes_of_torn (by decide) h hj
  rw [hc] at h0
  rcases torn_acknowledged mask with hm | hm
  · refine .inl ?_
    have hsame : g.view m' i = g.view m i :=
      (classify_eq_active_iff.mpr ⟨h0.trans hm, hdec⟩).trans hi.symm
    rw [hupd, hsame, Function.update_eq_self]
  · refine .inr ?_
    rw [hupd, retire, show g.view m' i = .acknowledged (some record) from
      classify_eq_acknowledged_iff.mpr ⟨h0.trans hm, hdec⟩]

/-- **Acknowledging** an active slot retires its record. -/
theorem view_acknowledged (hi : g.view m i = .active record) :
    g.view (m.program (g.slotAddr i) [ACKNOWLEDGED]) = retire (g.view m) i record := by
  obtain ⟨hc, hd⟩ := classify_eq_active_iff.mp hi
  have ht := torn_program (g.slotAddr i) [ACKNOWLEDGED] m
  obtain ⟨-, hrest⟩ := g.slotBytes_state ht
  have h0 : (g.slotBytes (m.program (g.slotAddr i) [ACKNOWLEDGED]) i)[0] = ACKNOWLEDGED := by
    rw [slotBytes_getElem] at hc ⊢
    rw [Flash.program_bytes, if_pos (by simp), hc, Nat.add_sub_cancel_left]
    rfl
  rw [g.view_eq_update fun j hj => g.slotBytes_of_torn (by decide) ht hj, retire,
    show g.view (m.program (g.slotAddr i) [ACKNOWLEDGED]) i = .acknowledged (some record) from
      classify_eq_acknowledged_iff.mpr ⟨h0, (decode_congr hrest).trans hd⟩]

/-! ## Writing a record -/

theorem record_body_zero (record : MeasurementRecord) : (record_body record)[0] = ERASED := by
  simp [record_body]

theorem record_body_getElem (record : MeasurementRecord) (j : ℕ) (hj : j < RECORD_SIZE)
    (h₁ : 1 ≤ j) : (record_body record)[j] = (encode record)[j] := by
  rw [record_body, Vector.getElem_set_ne _ _ (by omega)]

/-- The body is not blank: its version byte is programmed. -/
theorem record_body_one (record : MeasurementRecord) : (record_body record)[1] = RECORD_VERSION := by
  rw [record_body_getElem _ _ (by decide) (by decide), encode, copy_from_slice_getElem,
    if_neg (by omega)]
  exact (encode_fields_head record).1

theorem getElem_of_erased (h : g.view m i = .erased) (j : ℕ) (hj : j < RECORD_SIZE) :
    m.bytes (g.slotAddr i + j) = ERASED := by
  rw [← g.slotBytes_getElem m i j hj]
  exact classify_eq_erased_iff.mp h j hj

/-- A body, torn or not, leaves the state byte erased. -/
theorem state_of_torn_body (h : Faults.Torn (g.slotAddr i) (record_body record).toList m m')
    (hi : g.view m i = .erased) : (g.slotBytes m' i)[0] = ERASED := by
  have := h.2 (g.slotAddr i)
  rw [if_pos (by simp), Nat.sub_self] at this
  obtain ⟨mask, hm⟩ := this
  rw [slotBytes_getElem, Nat.add_zero, hm, ← Nat.add_zero (g.slotAddr i),
    g.getElem_of_erased hi 0 (by decide)]
  have hb : (record_body record).toList.getD 0 0xff = ERASED := by
    rw [List.getD_eq_getElem _ _ (by simp), Vector.getElem_toList, record_body_zero]
  rw [hb, ERASED, show (0xff : UInt8) = -1 from rfl, UInt8.neg_one_or, UInt8.and_self]

/-- **A torn body** leaves a slot that is still erased, or corrupt. -/
theorem view_torn_body (h : Faults.Torn (g.slotAddr i) (record_body record).toList m m')
    (hi : g.view m i = .erased) : g.view m' = g.view m ∨ g.view m' = spoil (g.view m) i := by
  have hupd : g.view m' = Function.update (g.view m) i (g.view m' i) := g.view_eq_update fun j hj =>
    g.slotBytes_of_torn (by simp) h hj
  have h0 := g.state_of_torn_body h hi
  rcases classify_of_other (by rw [h0]; decide) (by rw [h0]; decide) with hc | hc
  · refine .inl ?_
    rw [hupd, show g.view m' i = g.view m i from hc.trans hi.symm, Function.update_eq_self]
  · refine .inr ?_
    rw [hupd, spoil, show g.view m' i = .corrupt from hc]

/-- A whole body on an erased slot is the body. -/
theorem slotBytes_body (hi : g.view m i = .erased) :
    g.slotBytes (m.program (g.slotAddr i) (record_body record).toList) i = record_body record := by
  apply Vector.ext
  intro j hj
  rw [slotBytes_getElem, Flash.program_bytes, if_pos (by simp; omega),
    g.getElem_of_erased hi j hj, Nat.add_sub_cancel_left, List.getD_eq_getElem _ _ (by simpa),
    Vector.getElem_toList, ERASED, show (0xff : UInt8) = -1 from rfl, UInt8.neg_one_and]

/-- A whole body without its state byte is no record yet. -/
theorem view_body (hi : g.view m i = .erased) :
    g.view (m.program (g.slotAddr i) (record_body record).toList) = spoil (g.view m) i := by
  have hupd := g.view_eq_update (m := m) fun j hj =>
    g.slotBytes_of_torn (by simp) (torn_program (g.slotAddr i) (record_body record).toList m) hj
  have hc : g.view (m.program (g.slotAddr i) (record_body record).toList) i = .corrupt := by
    rw [view, g.slotBytes_body hi]
    have h0 := record_body_zero record
    rcases classify_of_other (by rw [h0]; decide) (by rw [h0]; decide) with he | he
    · have h1 := classify_eq_erased_iff.mp he 1 (by decide)
      rw [record_body_one] at h1
      exact absurd h1 (by decide)
    · exact he
  rw [hupd, hc, spoil]

/-- **A torn commit** leaves the body uncommitted, or commits it. -/
theorem view_torn_committed (h : Faults.Torn (g.slotAddr i) [COMMITTED] m m')
    (hi : g.slotBytes m i = record_body record) :
    g.slotBytes m' i = g.slotBytes m i ∧ g.view m' = g.view m
      ∨ g.view m' = commit (g.view m) i record.stored := by
  obtain ⟨⟨mask, h0⟩, hrest⟩ := g.slotBytes_state h
  have hupd : g.view m' = Function.update (g.view m) i (g.view m' i) := g.view_eq_update fun j hj =>
    g.slotBytes_of_torn (by decide) h hj
  rw [hi, record_body_zero] at h0
  rcases torn_committed mask with hm | hm
  · refine .inl ?_
    have hsame : g.slotBytes m' i = g.slotBytes m i := by
      apply Vector.ext
      intro j hj
      rcases Nat.eq_zero_or_pos j with rfl | hpos
      · rw [h0, hm, hi, record_body_zero]
      · exact hrest j hj hpos
    refine ⟨hsame, ?_⟩
    rw [hupd, show g.view m' i = g.view m i from congrArg classify hsame, Function.update_eq_self]
  · refine .inr ?_
    have hdec : decode (g.slotBytes m' i) = some record.stored := by
      refine decode_encode record fun j hj h₁ => ?_
      rw [hrest j hj h₁, hi, record_body_getElem record j hj h₁]
    rw [hupd, commit, show g.view m' i = .active record.stored from
      classify_eq_active_iff.mpr ⟨h0.trans hm, hdec⟩]

/-- **Committing** a whole body makes its slot active. -/
theorem view_committed (hi : g.slotBytes m i = record_body record) :
    g.view (m.program (g.slotAddr i) [COMMITTED]) = commit (g.view m) i record.stored := by
  have ht := torn_program (g.slotAddr i) [COMMITTED] m
  obtain ⟨-, hrest⟩ := g.slotBytes_state ht
  have h0 : (g.slotBytes (m.program (g.slotAddr i) [COMMITTED]) i)[0] = COMMITTED := by
    have hb : m.bytes (g.slotAddr i + 0) = ERASED := by
      rw [← g.slotBytes_getElem m i 0 (by decide), hi, record_body_zero]
    rw [slotBytes_getElem, Flash.program_bytes, if_pos (by simp), hb, Nat.add_sub_cancel_left]
    rfl
  have hdec : decode (g.slotBytes (m.program (g.slotAddr i) [COMMITTED]) i)
      = some record.stored := by
    refine decode_encode record fun j hj h₁ => ?_
    rw [hrest j hj h₁, hi, record_body_getElem record j hj h₁]
  rw [g.view_eq_update fun j hj => g.slotBytes_of_torn (by decide) ht hj, commit,
    show g.view (m.program (g.slotAddr i) [COMMITTED]) i = .active record.stored from
      classify_eq_active_iff.mpr ⟨h0, hdec⟩]

/-! ## Erasing a sector -/

/-- Erasing a sector leaves the bytes of the other slots alone. -/
theorem slotBytes_eraseRange {k : ℕ} (hi : i / 16 ≠ k) :
    g.slotBytes (m.eraseRange (g.sectorAddr k) (g.sectorAddr k + 4096)) i = g.slotBytes m i := by
  refine g.slotBytes_congr fun a ha₁ ha₂ => ?_
  rw [slotAddr] at ha₁ ha₂
  rw [Flash.eraseRange_bytes, if_neg (by rw [sectorAddr]; omega)]

/-- **Erasing** a sector erases its sixteen slots and no other. -/
theorem view_eraseRange (k : ℕ) :
    g.view (m.eraseRange (g.sectorAddr k) (g.sectorAddr k + 4096))
      = eraseSector g.layout (g.view m) k := by
  funext i
  rw [eraseSector, layout_width]
  split
  · rename_i hk
    apply classify_eq_erased_iff.mpr
    intro j hj
    have hj' : j < 256 := hj
    rw [slotBytes_getElem, Flash.eraseRange_bytes,
      if_pos (by rw [sectorAddr, slotAddr]; omega), ERASED]
  · rename_i hk
    exact congrArg classify (g.slotBytes_eraseRange hk)

/-- The view, slot by slot. -/
theorem view_apply (m : Flash) (i : ℕ) : g.view m i = classify (g.slotBytes m i) := rfl

end Region

-- from here on a slot is opened by `view_apply` and not by unification, which would read its bytes
attribute [irreducible] Region.view

end PicoDataLogger
