/-
What the queue never does to the flash.

The region lies right above the firmware, so these are statements about every
single primitive, on every image and whatever the primitives before it did: a
failed write may have left anything inside its own addresses
(`Faults.confined`). They hold because each primitive is `Legal` on the very
flash it is issued on; no invariant of earlier calls is used beyond the region
being the one that was checked.
-/
import PicoDataLogger.SequenceHistory
import PicoDataLogger.FailedCalls

set_option autoImplicit false

namespace PicoDataLogger

open Interaction NorFlash SectorLog

/-- The rules a primitive keeps on flash `m`. -/
structure Disciplined (g : Region) (m : Flash) (p : Prim) : Prop where
  /-- It starts at a slot of the region and stays inside the region. -/
  inside : (∃ i < g.slot_count, p.lo = g.start.toNat + i * RECORD_SIZE)
    ∧ p.lo ≤ p.hi ∧ p.hi ≤ g.start.toNat + g.length.toNat
  /-- A write only clears bits. -/
  clears : ∀ offset data, p = .write offset data →
    ∀ j (h : j < data.length), m.bytes (offset.toNat + j) &&& data[j] = data[j]
  /-- A write of more than the state byte goes to a whole slot that reads erased. -/
  blank : ∀ offset data, p = .write offset data → data.length ≠ 1 →
    data.length = RECORD_SIZE ∧ ∀ j < RECORD_SIZE, m.bytes (offset.toNat + j) = ERASED
  /-- An erase takes one whole sector, without an active record and without the
  lowest slot of the largest readable sequence. -/
  erase : ∀ first last, p = .erase first last → ∃ k < g.sector_count,
    first.toNat = g.start.toNat + k * ERASE_SIZE ∧ last.toNat = first.toNat + ERASE_SIZE
      ∧ ERASE_SIZE ∣ first.toNat
      ∧ (∀ i r, i / Region.slots_per_sector = k → g.view m i ≠ .active r)
      ∧ ∀ i r, i < g.slot_count → (g.view m i).record? = some r →
        (∀ j s, j < g.slot_count → (g.view m j).record? = some s →
          s.sequence ≤ r.sequence ∧ (j < i → s.sequence < r.sequence)) →
        i / Region.slots_per_sector ≠ k

section Disciplined

variable {g : Region} {m m' : Flash} {J : Flash → MeasurementRecord → Prop}
  {K : Flash → ℕ → MeasurementRecord → Prop} {p : Prim}
  {i k : ℕ} {record : MeasurementRecord}

/-- A primitive on a whole slot, or on its head, is inside. -/
theorem inside_slot (hi : i < g.slot_count) (len : ℕ) (hlen : len ≤ 256) (hlo : p.lo = g.slotAddr i)
    (hhi : p.hi = g.slotAddr i + len) :
    (∃ i < g.slot_count, p.lo = g.start.toNat + i * RECORD_SIZE)
      ∧ p.lo ≤ p.hi ∧ p.hi ≤ g.start.toNat + g.length.toNat := by
  have := g.slotAddr_end hi
  exact ⟨⟨i, hi, hlo⟩, by omega, by omega⟩

/-- A state byte is written over a byte that has all its bits. -/
theorem disciplined_state (hi : i < g.slot_count) {state old : UInt8}
    (hold : m.bytes (g.slotAddr i) = old) (hbits : old &&& state = state) :
    Disciplined g m (.write (g.address i) [state]) := by
  have haddr := g.address_toNat hi
  refine ⟨inside_slot hi 1 (by decide) haddr (by rw [Prim.hi, haddr]; rfl), ?_, ?_, nofun⟩
  · rintro _ _ ⟨rfl, rfl⟩ j hj
    obtain rfl : j = 0 := by simpa using hj
    rw [haddr, Nat.add_zero, hold]
    exact hbits
  · rintro _ _ ⟨rfl, rfl⟩ h
    exact absurd rfl h

theorem Quiet.disciplined (h : Quiet g m p) : Disciplined g m p := by
  cases h with
  | read hi =>
    have haddr := g.address_toNat hi
    refine ⟨inside_slot hi 256 le_rfl haddr (by rw [Prim.hi, haddr]), ?_, ?_, ?_⟩
    · intro _ _ hp
      cases hp
    · intro _ _ hp
      cases hp
    · intro _ _ hp
      cases hp
  | @body i record hf =>
    have hi := Region.firstErased_lt hf
    have haddr := g.address_toNat hi
    have hlen : (record_body record).toList.length = 256 := Vector.length_toList
    -- an erased slot reads 0xff throughout, so anything may be written over it
    have hold := g.getElem_of_erased (Region.view_firstErased hf)
    refine ⟨inside_slot hi 256 le_rfl haddr (by rw [Prim.hi, haddr, hlen]), ?_, ?_, ?_⟩
    · rintro _ _ ⟨rfl, rfl⟩ j hj
      rw [haddr, hold j (hj.trans_eq hlen), ERASED, show (0xff : UInt8) = -1 from rfl, UInt8.neg_one_and]
    · rintro _ _ ⟨rfl, rfl⟩ _
      exact ⟨hlen, fun j hj => by rw [haddr, hold j hj]⟩
    · intro _ _ hp
      cases hp
  | @erase k hk hr =>
    have hlo := g.sector_address_toNat hk
    have hhi := g.sector_end_toNat hk
    have hend := g.sectorAddr_end hk
    -- the erase begins at the sector's first slot, which is what makes it aligned
    have hslot : k * 16 < g.slot_count := by
      rw [g.slot_count_eq]
      omega
    obtain ⟨hact, -, hnew⟩ := reclaimable_iff.mp hr
    refine ⟨⟨⟨k * 16, hslot, ?_⟩, ?_, ?_⟩, ?_, ?_, ?_⟩
    · rw [Prim.lo, hlo, Region.sectorAddr, RECORD_SIZE, Nat.mul_assoc]
    · rw [Prim.lo, Prim.hi, hlo, hhi]
      exact Nat.le_add_right _ _
    · rw [Prim.hi, hhi]
      exact hend
    · intro _ _ hp
      cases hp
    · intro _ _ hp
      cases hp
    · rintro _ _ ⟨rfl, rfl⟩
      refine ⟨k, hk, hlo, hhi.trans (by rw [hlo]), ?_, fun i r hi hv => ?_, fun i r hi hv hmax => ?_⟩
      · rw [hlo, Region.sectorAddr]
        exact (Nat.dvd_add_right g.start_aligned).mpr (Dvd.intro_left k rfl)
      · have := hact i hi
        rw [hv] at this
        cases this
      -- the record of the greatest sequence is the newest, which reclaiming spares
      · refine hnew i r (firstMin_eq_some_iff.mpr ⟨g.layout_slots ▸ hi, hv, ?_, ?_⟩)
        · exact fun j s hj hs =>
            UInt64.le_iff_toNat_le.mp (hmax j s (g.layout_slots ▸ hj) hs).1
        · exact fun j s hj hs =>
            UInt64.lt_iff_toNat_lt.mp ((hmax j s (hj.trans hi) hs).2 hj)

/-- **Every legal primitive** keeps the rules. -/
theorem Legal.disciplined (h : Legal g J K m p) : Disciplined g m p := by
  cases h with
  | quiet h => exact h.disciplined
  | @acknowledge i record ho =>
    have hv := (oldest_spec ho).2.1
    rw [Region.view_apply, classify_eq_active_iff, Region.slotBytes_getElem] at hv
    exact disciplined_state (Region.oldest_lt ho) hv.1 (by decide)
  | @commit i record hi hbody _ _ =>
    have hold : m.bytes (g.slotAddr i + 0) = ERASED := by
      rw [← g.slotBytes_getElem m i 0 (by decide), hbody, Region.record_body_zero]
    exact disciplined_state hi hold (by decide)

end Disciplined

/-! ## Runs -/

section Runs

variable {ε : Type} {geo : Geometry} {m₀ : Flash} {M M' : Machine} {l : Label ε}
  {es : List (Taken Machine (Label ε))}

/-- The queue, while it is up, works on the region that was checked. -/
def OnRegion (g : Region) (M : Machine) : Prop := ∀ q, M.queue = some q → q.region = g

theorem AckStop.region {I : Prim → Flash → Flash → Prop} {q q' : FlashQueue} {m m' : Flash}
    (h : AckStop I q m q' m') : q'.region = q.region := by
  cases h <;> rfl

theorem AppendStop.region {I : Prim → Flash → Flash → Prop} {s : Sample} {q q' : FlashQueue}
    {m m' : Flash} (h : AppendStop I s q m q' m') : q'.region = q.region := by
  cases h with
  | remove _ h => exact h.region
  | search _ => rfl
  | body _ _ => rfl
  | commit _ _ => rfl
  | reclaim _ _ => rfl

/-- A call never changes the region it works on. -/
theorem OnRegion.step {F : Faults} (hM : OnRegion geo.region M) (h : Step F geo M l M') :
    OnRegion geo.region M' := by
  intro q' hq'
  cases h with
  | @op op q m m' tr o h =>
    have hreg := hM q rfl
    -- whatever the outcome, it is the operation's own end that says what the fields are
    generalize hr : Result.of o = r at hq'
    cases op with
    | append s =>
      have hend := append_ends h
      rw [hr] at hend
      cases hend with
      | ok _ => cases hq'; exact hreg
      | full _ => cases hq'; exact hreg
      | failed h => cases hq'; exact h.region.trans hreg
      | cut _ => cases hq'
    | peek_oldest =>
      have hend := (peek_oldest_ends h).2
      rw [hr] at hend
      cases hend with
      | ok => cases hq'; exact hreg
      | failed _ => cases hq'; exact hreg
      | cut _ => cases hq'
    | acknowledge_oldest =>
      have hend := acknowledge_oldest_ends h
      rw [hr] at hend
      cases hend with
      | empty _ => cases hq'; exact hreg
      | ok _ => cases hq'; exact hreg
      | failed h => cases hq'; exact h.region.trans hreg
      | cut _ => cases hq'
  | recover h =>
    cases recover_ends h with
    | ok => cases hq'; rfl
    | failed _ => cases hq'
    | cut _ => cases hq'

/-- Every primitive of a step keeps the rules. -/
theorem OnRegion.disciplined {F : Faults} (hM : OnRegion geo.region M) (h : Step F geo M l M') :
    ∀ e ∈ l.trace, Disciplined geo.region e.before e.prim := by
  have hlegal : ∀ e ∈ l.trace,
      Legal geo.region (fun _ _ => True) (fun _ _ _ => True) e.before e.prim := by
    cases h with
    | @op op q m m' tr o h =>
      rw [← hM q rfl]
      cases op with
      | append s => exact append_legal h (fun _ _ _ _ => trivial) fun _ _ => trivial
      | peek_oldest => exact peek_oldest_legal h
      | acknowledge_oldest => exact acknowledge_oldest_legal h fun _ _ _ => trivial
    | recover h => exact recover_legal h
  exact fun e he => (hlegal e he).disciplined

/-- A primitive changes nothing outside its addresses, whether it succeeds or not. -/
theorem outside_event {p : Prim} {m m' : Flash}
    (hev : (∃ r, (Faults.confined.env ε).respond p m r m')
      ∨ (Faults.confined.env ε).cut p m m') {a : ℕ} (ha : ¬ (p.lo ≤ a ∧ a < p.hi)) :
    m'.bytes a = m.bytes a := by
  have himage : ∀ {m'}, Faults.confinedImage p m m' → m'.bytes a = m.bytes a := by
    intro m' h
    cases p with
    | read offset len => rw [h]
    | write offset data => exact h a ha
    | erase first last => exact h a ha
  rcases hev with ⟨r, hs | ⟨-, hf⟩⟩ | hc
  · cases p with
    | read offset len => cases hs; rfl
    | write offset data => cases hs; exact if_neg ha
    | erase first last => cases hs; exact if_neg ha
  · exact himage hf
  · exact himage hc

/-- The `u32` addresses of slots and sectors are the sums they stand for. -/
def Region.Exact (g : Region) : Prop :=
  (∀ i < g.slot_count, (g.address i).toNat = g.start.toNat + i * RECORD_SIZE)
    ∧ ∀ k < g.sector_count, (g.sector_address k).toNat = g.start.toNat + k * ERASE_SIZE
      ∧ (g.sector_address k + UInt32.ofNat ERASE_SIZE).toNat
        = g.start.toNat + k * ERASE_SIZE + ERASE_SIZE

theorem Region.exact (g : Region) : g.Exact :=
  ⟨fun _ hi => g.address_toNat hi, fun _ hk => ⟨g.sector_address_toNat hk, g.sector_end_toNat hk⟩⟩

/-- **The discipline of every run.** On every image and under every fault that stays
inside the failing primitive, no address wraps, each primitive keeps the rules,
and no byte outside the region ever changes. -/
theorem run_disciplined (hrun : QueueRun .confined geo m₀ es M) :
    geo.region.Exact
      ∧ (∀ t ∈ es, ∀ e ∈ t.label.trace, Disciplined geo.region e.before e.prim)
      ∧ ∀ a, ¬ (geo.region.start.toNat ≤ a
          ∧ a < geo.region.start.toNat + geo.region.length.toNat) →
        M.flash.bytes a = m₀.bytes a := by
  have hinv := hrun.invariant (I := fun es M => OnRegion geo.region M
      ∧ (∀ t ∈ es, ∀ e ∈ t.label.trace, Disciplined geo.region e.before e.prim)
      ∧ ∀ a, ¬ (geo.region.start.toNat ≤ a
          ∧ a < geo.region.start.toNat + geo.region.length.toNat) →
        M.flash.bytes a = m₀.bytes a)
    ?_ ?_
  · exact ⟨geo.region.exact, hinv.2⟩
  · refine ⟨?_, ?_, fun _ _ => rfl⟩
    · intro q hq
      cases hq
    · intro t ht
      cases ht
  · rintro es M l M' ⟨hreg, hes, hout⟩ hs
    have hl := hreg.disciplined hs
    refine ⟨hreg.step hs, fun t ht => ?_, fun a ha => ?_⟩
    · rcases List.mem_append.mp ht with ht | ht
      · exact hes t ht
      · rw [List.mem_singleton.mp ht]
        exact hl
    · -- the byte survives every event, because every event is inside the region
      refine hs.history (I := fun _ m => m.bytes a = m₀.bytes a) (t := []) (fun e he _ h hev => ?_)
        (hout a ha)
      obtain ⟨⟨i, _, hlo⟩, _, hhi⟩ := (hl e he).inside
      exact (outside_event hev (by omega)).trans h

/-- The primitives up to an append to a full queue that failed after it had acknowledged the oldest
record. -/
theorem run_disciplined_first :
    ∃ (es : List (Taken Machine (Label Unit))) (l : Label Unit) (q q' : FlashQueue) (m m' : Flash),
      appended es = 16 ∧ q.depth = q.capacity
        ∧ l.reply = .op (.append (reading none)) (.error (.storage ()) q') ∧ q'.depth = 15
        ∧ (∀ t ∈ es ++ [⟨⟨m, some q⟩, l, ⟨m', some q'⟩⟩], ∀ e ∈ t.label.trace,
          Disciplined Geometry.twoSectors.region e.before e.prim)
        ∧ ∀ a, ¬ (Geometry.twoSectors.region.start.toNat ≤ a
            ∧ a < Geometry.twoSectors.region.start.toNat
              + Geometry.twoSectors.region.length.toNat) →
          m'.bytes a = blankFlash.bytes a := by
  obtain ⟨es, q, m, h⟩ := exists_fullQueue Unit .confined (reading none)
  obtain ⟨q', m', l, i, tr, hS, -, hstep⟩ := h.stops Faults.confined_fail_idle (reading none) ()
    (le_refl 33)
  exact ⟨es, _, q, q', m, m', h.appended, h.full, rfl, h.depth_failed hS (by omega),
    (run_disciplined (h.run.snoc hstep)).2⟩

end Runs

end PicoDataLogger
