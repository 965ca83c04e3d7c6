/-
What a failed append has done.

`append` reports the error of any primitive, and the application takes the error
to mean that the measurement was not stored. That is so up to the first state
byte the call programs. Past it the error comes from a reclaiming or from a step
behind one, and the oldest record is gone, or the new one is there, or both.
-/
import PicoDataLogger.CrashConsistency
import PicoDataLogger.FailedCalls

set_option autoImplicit false

namespace PicoDataLogger

open Interaction NorFlash SectorLog

-- so that no unification evaluates a record's bytes
attribute [local irreducible] record_body

/-- Primitive `k` of an append comes no later than the first state byte the append programs: the
acknowledgement of the oldest record if the queue is full, else the commit of the new one. -/
def UpToStateByte (q : FlashQueue) (m : Flash) (k : ℕ) : Prop :=
  if q.depth = q.capacity then k ≤ q.region.slot_count
  else ∀ i, q.region.firstErased m = some i → k ≤ i + 2

section Failed

variable {ε : Type} {g : Region} {q q' : FlashQueue} {m m' : Flash} {l : Turnover} {s : Sample}
  {i k : ℕ} {b : Flash × Turnover} {record : MeasurementRecord}

@[simp] theorem Region.live_reclaimed (j : ℕ) : g.live (g.reclaimed m j) = g.live m := by
  rw [live, view_reclaimed, live_reclaimTo, live]

/-- An acknowledgement that fails changes nothing up to the state byte, and loses a record
after it. -/
theorem AckFailed.live (h : AckFailed q m l i k q' b) (ho : q.region.oldest m = some (i, record)) :
    k ≤ q.region.slot_count ∧ b.1 = m
      ∨ q.region.slot_count < k ∧ q.region.depth b.1 + 1 = q.region.depth m := by
  cases h with
  | before hk => exact .inl ⟨hk, rfl⟩
  | @reclaim j hk =>
    -- reclaiming changes no active record, so the depth is that after the removal
    have := Region.depth_removed ho
    rw [Region.removed_of_some ho, ← Region.length_live, Region.live_reclaimedAll] at this
    refine .inr ⟨hk, ?_⟩
    rwa [← Region.length_live, Region.live_reclaimed]

/-- Storing that fails changes no record up to the commit, and has stored after it. -/
theorem StoreFailed.live (h : StoreFailed q m l record k q' b) :
    (∀ i, q.region.firstErased m = some i → k ≤ i + 2) ∧ q.region.live b.1 = q.region.live m
      ∨ (∃ i, q.region.firstErased m = some i ∧ i + 2 < k)
        ∧ q.region.depth b.1 = q.region.depth m + 1 ∧ record.stored ∈ q.region.live b.1 := by
  cases h with
  | search hk =>
    refine .inl ⟨fun i hi => ?_, rfl⟩
    -- the search is no longer than the way to the slot
    rw [Region.length_searched_of_some hi] at hk
    omega
  | @body i hf =>
    refine .inl ⟨fun j hj => ?_, rfl⟩
    obtain rfl := Option.some.inj (hf.symm.trans hj)
    omega
  | @commit i hf =>
    refine .inl ⟨fun j hj => ?_, ?_⟩
    · obtain rfl := Option.some.inj (hf.symm.trans hj)
      exact le_rfl
    -- a body without its commit reads as no record
    · rw [Region.live, Region.view_bodied hf]
      exact live_update (by rw [Region.view_firstErased hf]; rfl) rfl
  | @reclaim i k j hf hk =>
    -- the record is committed, and reclaiming leaves it
    have hlive : q.region.live (q.region.reclaimed (q.region.written m i record) j)
        = SectorLog.live q.region.layout seqKey (SectorLog.commit (q.region.view m) i record.stored) := by
      rw [Region.live_reclaimed, Region.live, Region.view_written hf]
    refine .inr ⟨⟨i, hf, hk⟩, ?_, ?_⟩
    · rw [← Region.length_live, hlive, SectorLog.length_live, depth_commit_firstErased hf]
      rfl
    · rw [hlive, mem_live]
      exact ⟨i, q.region.layout_slots ▸ Region.firstErased_lt hf, Function.update_self _ _ _⟩

/-- **A failed append**, primitive `k` being the one that fails: up to the first state byte the
records are the ones before the call; past it the oldest one is gone, or the new one is there. -/
theorem append_failed (hq : Counted g q m) {e : ε}
    (hrun : ((append s : QueueM ε _).prog q).run (failing NorFlash.step e) (m, some k)
      = ((.error (.storage e), q'), (m', none))) :
    UpToStateByte q m k ∧ g.live m' = g.live m
      ∨ ¬ UpToStateByte q m k
        ∧ (g.depth m' ≠ g.depth m ∨ (s.record q.next_sequence).stored ∈ g.live m') := by
  rcases append_run_cases hq e s ⟨0, 0⟩ (some k) with
    ⟨r, q₁, b, f', hrun', hdone⟩ | ⟨k, q₁, b, hk, hrun', hfailed⟩
  · -- no primitive failed, and then no storage error is returned
    have h := hrun.symm.trans (run_of_audited hrun')
    simp only [Prod.mk.injEq] at h
    obtain ⟨⟨rfl, -⟩, -⟩ := h
    cases hdone with
    | room _ h => cases h
    | full _ _ h => cases h
  -- which primitive failed decides what is left
  · obtain rfl := hq.region
    obtain rfl := Option.some.inj hk
    have h := hrun.symm.trans (run_of_audited hrun')
    simp only [Prod.mk.injEq] at h
    obtain ⟨-, rfl, -⟩ := h
    cases hfailed with
    | room hd h =>
      rw [UpToStateByte, if_neg hd]
      rcases h.live with ⟨hk, hlive⟩ | ⟨⟨i, hf, hk⟩, hdepth, hmem⟩
      · exact .inl ⟨hk, hlive⟩
      · exact .inr ⟨fun hle => absurd (hle i hf) (by omega), .inr hmem⟩
    | remove hd ho _ h =>
      rw [UpToStateByte, if_pos hd]
      rcases h.live ho with ⟨hk, hm⟩ | ⟨hk, hdepth⟩
      · exact .inl ⟨hk, congrArg _ hm⟩
      · exact .inr ⟨by omega, .inl (by omega)⟩
    | @full i record hd ho hk h =>
      have hremoved := Region.depth_removed ho
      rw [Region.removed_of_some ho] at hremoved
      -- past the removal is past its state byte
      have hlt : ¬ k ≤ q.region.slot_count := by
        rw [Region.retireCost] at hk
        omega
      rw [UpToStateByte, if_pos hd]
      rcases h.live with ⟨-, hlive⟩ | ⟨-, -, hmem⟩
      · have hdepth := congrArg List.length hlive
        rw [Region.length_live, Region.length_live] at hdepth
        refine .inr ⟨hlt, .inl ?_⟩
        change q.region.depth b.1 = q.region.depth _ at hdepth
        omega
      · exact .inr ⟨hlt, .inr hmem⟩

end Failed

section Runs

variable {ε : Type} {F : Faults} {geo : Geometry} {m₀ m m' : Flash} {q q' : FlashQueue}
  {k : ℕ} {es : List (Taken Machine (Label ε))}

/-- **Append is atomic on an error exactly up to its first state byte.** In every state reached, from
any image and whatever failed before: if primitive `k` of an append reports an error and leaves
the flash as it was, the active records are the ones before the call if `k` is not past the
first state byte, and only then if no active record has the number the new one was given. -/
theorem append_atomic_iff (hF : F.Le .storage) (hrun : QueueRun F geo m₀ es ⟨m, some q⟩) (s : Sample)
    (e : ε) (hfail : ((append s : QueueM ε _).prog q).run (failing NorFlash.step e) (m, some k)
      = ((.error (.storage e), q'), (m', none))) :
    (UpToStateByte q m k → geo.region.live m' = geo.region.live m)
      ∧ ((∀ i r, i < geo.region.slot_count → geo.region.view m i = .active r →
          r.sequence ≠ q.next_sequence) →
        geo.region.live m' = geo.region.live m → UpToStateByte q m k) := by
  rcases append_failed (hrun.counted hF q rfl) hfail with ⟨hk, hlive⟩ | ⟨hk, hchanged⟩
  · exact ⟨fun _ => hlive, fun _ _ => hk⟩
  · refine ⟨fun h => absurd h hk, fun hnew hlive => ?_⟩
    rcases hchanged with hdepth | hmem
    · rw [← Region.length_live, ← Region.length_live, hlive] at hdepth
      exact absurd rfl hdepth
    -- the new record would have to be one of the old ones, but none has its number
    · rw [hlive, Region.live, mem_live] at hmem
      obtain ⟨i, hi, hview⟩ := hmem
      exact absurd rfl (hnew i _ (geo.region.layout_slots ▸ hi) hview)

/-- The first append of a new queue on a blank region, with primitive `k` failing. -/
theorem exists_failed_append {g : Region} (hblank : g.Blank m₀) (s : Sample) (e : ε) (hk : k ≤ 3) :
    ∃ q' m', ((append s : QueueM ε _).prog (.new g)).run (failing NorFlash.step e) (m₀, some k)
        = ((.error (.storage e), q'), (m', none))
      ∧ ∃ l, StoreFailed { FlashQueue.new g with next_sequence := 0 + 1 } m₀ ⟨0, 0⟩ (s.record 0) k q'
        (m', l) := by
  have hd : (FlashQueue.new g).depth ≠ (FlashQueue.new g).capacity := g.capacity_pos.ne
  have hticks := append_ticks (e := e) hd (store_ticks (q := .new g) (l := ⟨0, 0⟩) (s := s) hblank.firstErased)
  obtain ⟨q', ⟨m', l⟩, hrun, hS⟩ := hticks.stops k (by
    have := g.capacity_add
    change k < 0 + 1 + (1 + 1 + (2 * g.slot_count + _))
    omega)
  exact ⟨q', m', run_of_audited hrun, l, hS⟩

/-- An append to a full queue that fails: on the state byte of the oldest record it changes nothing,
and on the read after it a record is gone. -/
theorem append_atomic_iff_first :
    ∃ (es : List (Taken Machine (Label Unit))) (q q₁ q₂ : FlashQueue) (m m₁ m₂ : Flash),
      QueueRun .storage Geometry.twoSectors blankFlash es ⟨m, some q⟩ ∧ q.depth = q.capacity
        ∧ ((append (reading none) : QueueM Unit _).prog q).run (failing NorFlash.step ()) (m, some 32)
          = ((.error (.storage ()), q₁), (m₁, none))
        ∧ Geometry.twoSectors.region.live m₁ = Geometry.twoSectors.region.live m
        ∧ ((append (reading none) : QueueM Unit _).prog q).run (failing NorFlash.step ()) (m, some 33)
          = ((.error (.storage ()), q₂), (m₂, none))
        ∧ Geometry.twoSectors.region.live m₂ ≠ Geometry.twoSectors.region.live m := by
  obtain ⟨es, q, m, h⟩ := exists_fullQueue Unit .storage (reading none)
  have hslots : q.region.slot_count = 32 := congrArg Region.slot_count h.counted.region
  obtain ⟨q₁, m₁, -, -, -, -, hfail₁, -⟩ := h.stops Faults.storage_fail_idle (reading none) ()
    (k := 32) (by omega)
  obtain ⟨q₂, m₂, -, -, -, -, hfail₂, -⟩ := h.stops Faults.storage_fail_idle (reading none) ()
    (le_refl 33)
  have hiff₁ := append_atomic_iff ⟨id, id⟩ h.run (reading none) () hfail₁
  have hiff₂ := append_atomic_iff ⟨id, id⟩ h.run (reading none) () hfail₂
  rw [UpToStateByte, if_pos h.full] at hiff₁ hiff₂
  refine ⟨es, q, q₁, q₂, m, m₁, m₂, h.run, h.full, hfail₁, hiff₁.1 hslots.ge, hfail₂,
    fun hlive => ?_⟩
  -- the records all have numbers below the next one, so the condition is necessary too
  have hup := (h.run.consistent ⟨id, id⟩ (blank_blankFlash _) h.wrap).up q rfl
  have hle := hiff₂.2 (fun i r hi hr => UInt64.ne_of_lt (hup.sequence_lt hi (.inl hr)))
    hlive
  omega

/-- **An append that stored its record and failed**: the first append on a blank region, with the
first read of the reclaiming failing. -/
theorem append_not_atomic : ∃ (es : List (Taken Machine (Label Unit))) (m m' : Flash)
    (q q' : FlashQueue), QueueRun .none Geometry.twoSectors blankFlash es ⟨m, some q⟩
      ∧ ((append (reading none) : QueueM Unit _).prog q).run (failing NorFlash.step ()) (m, some 3)
        = ((.error (.storage ()), q'), (m', none))
      ∧ Geometry.twoSectors.region.live m = []
      ∧ Geometry.twoSectors.region.live m' = [((reading none).record 0).stored] := by
  have hblank := blank_blankFlash Geometry.twoSectors.region
  obtain ⟨l, hrun, -⟩ := exists_boot Unit .none hblank
  obtain ⟨q', m', hfail, l', hS⟩ := exists_failed_append hblank (reading none) () le_rfl
  have hbefore : Geometry.twoSectors.region.live blankFlash = [] := by
    rw [← List.length_eq_zero_iff, Region.length_live, hblank.depth]
  refine ⟨_, _, m', _, q', hrun, hfail, hbefore, ?_⟩
  -- primitive 3 is past the commit: there is one record, and the new one is in it
  rcases hS.live with ⟨hle, -⟩ | ⟨-, hdepth, hmem⟩
  · exact absurd (hle 0 hblank.firstErased) (by decide)
  · change Geometry.twoSectors.region.depth m' = Geometry.twoSectors.region.depth blankFlash + 1 at hdepth
    rw [hblank.depth, ← Region.length_live, List.length_eq_one_iff] at hdepth
    obtain ⟨r, hr⟩ := hdepth
    change _ ∈ Geometry.twoSectors.region.live m' at hmem
    rw [hr, List.mem_singleton] at hmem
    rw [hr, ← hmem]

end Runs

end PicoDataLogger
