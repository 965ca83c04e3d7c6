/-
The counters of the queue, against the flash.

`depth`, `capacity` and `next_sequence` are kept in memory and changed at other
moments than the flash, between primitives that can fail. `Consistent` says that
they are right whenever no call is going on; this file draws the two conclusions
the arithmetic of `acknowledge_oldest` and `append` rests on.
-/
import PicoDataLogger.FailedCalls

set_option autoImplicit false

namespace PicoDataLogger

open Interaction NorFlash SectorLog

section Scan

variable {ε : Type} {F : Faults} {g : Region} {q q' : FlashQueue} {m m' : Flash}
  {tr : List (Event Prim Flash)} {b : Option (ℕ × MeasurementRecord)}

/-- A scan that returns has found the oldest record, and changed nothing. -/
theorem find_oldest_ends
    (h : Exec (F.env ε) ((find_oldest : QueueM ε _).prog q) m tr (.done (.ok b, q')) m') :
    b = q.region.oldest m ∧ q' = q := by
  have hscan : Scans F (fun _ _ _ => True) (find_oldest : QueueM ε _) q m (q.region.oldest m) :=
    find_oldest_scans fun _ _ _ => trivial
  obtain ⟨-, -, hb, hq⟩ := Proc.wp_sound hscan h
  exact ⟨hb, hq⟩

end Scan

section Runs

variable {ε : Type} {F : Faults} {geo : Geometry} {m₀ : Flash} {M : Machine} {q : FlashQueue}
  {es : List (Taken Machine (Label ε))}

/-- **The counters agree with the flash** after every call of every run from an erased
region, whatever failed in it: the depth is the number of active slots and within the
capacity, the next sequence is above every readable one, whenever `acknowledge_oldest` gets as
far as `depth -= 1` the depth is positive, and at capacity the scan of `append` finds a record. -/
theorem counters_agree (hF : F.Le .storage) (hblank : geo.region.Blank m₀)
    (hrun : QueueRun F geo m₀ es M) (hwrap : ∀ e ∈ es, NoWrap e) (hq : M.queue = some q) :
    q.depth = geo.region.depth M.flash
      ∧ q.depth ≤ q.capacity
      ∧ (∀ i r, i < geo.region.slot_count →
          geo.region.view M.flash i = .active r ∨ geo.region.view M.flash i = .acknowledged (some r) →
          r.sequence < q.next_sequence)
      ∧ (∀ tr b q' m', Exec (F.env ε) ((find_oldest : QueueM ε _).prog q) M.flash tr
          (.done (.ok (some b), q')) m' → 0 < q'.depth)
      ∧ (q.depth = q.capacity → ∀ tr b q' m',
          Exec (F.env ε) ((find_oldest : QueueM ε _).prog q) M.flash tr (.done (.ok b, q')) m' →
            b ≠ none) := by
  have hM := hrun.consistent hF hblank hwrap
  have hup := hM.up q hq
  have hreg := hup.region
  have hdepth : q.depth ≤ q.capacity := by
    rw [hup.depth, FlashQueue.capacity, hreg]
    exact hM.bounded
  refine ⟨hup.depth, hdepth, fun i r hi hr => hup.sequence_lt hi hr, ?_, ?_⟩
  · intro tr b q' m' hexec
    obtain ⟨hb, rfl⟩ := find_oldest_ends hexec
    exact hup.toCounted.depth_pos hb.symm
  · intro hfull tr b q' m' hexec
    obtain ⟨rfl, -⟩ := find_oldest_ends hexec
    obtain ⟨i, r, ho⟩ := hup.toCounted.oldest_of_full hfull
    rw [ho]
    exact Option.some_ne_none _

/-- The counters when an append to a full queue has failed on the first read after it had retired
the oldest record. -/
theorem counters_agree_first :
    ∃ (es : List (Taken Machine (Label Unit))) (l : Label Unit) (q q' : FlashQueue) (m m' : Flash),
      QueueRun .storage Geometry.twoSectors blankFlash (es ++ [⟨⟨m, some q⟩, l, ⟨m', some q'⟩⟩])
          ⟨m', some q'⟩
        ∧ appended es = 16 ∧ q.depth = q.capacity
        ∧ l.reply = .op (.append (reading none)) (.error (.storage ()) q')
        ∧ q'.depth = 15 ∧ q'.depth = Geometry.twoSectors.region.depth m'
        ∧ (∀ i r, i < Geometry.twoSectors.region.slot_count →
            Geometry.twoSectors.region.view m' i = .active r
              ∨ Geometry.twoSectors.region.view m' i = .acknowledged (some r) →
            r.sequence < q'.next_sequence)
        ∧ ∀ tr b q₁ m₁, Exec (Faults.storage.env Unit) ((find_oldest : QueueM Unit _).prog q') m' tr
          (.done (.ok (some b), q₁)) m₁ → 0 < q₁.depth := by
  obtain ⟨es, q, m, h⟩ := exists_fullQueue Unit .storage (reading none)
  obtain ⟨q', m', l, i, tr, hS, -, hstep⟩ := h.stops Faults.storage_fail_idle (reading none) ()
    (le_refl 33)
  have hwrap : ∀ e ∈ es ++ [⟨⟨m, some q⟩, ⟨tr, .op (.append (reading none))
      (.of (.done (.error (.storage ()), q')))⟩, ⟨m', some q'⟩⟩], NoWrap e := by
    intro e he
    rcases List.mem_append.mp he with he | he
    · exact h.wrap e he
    · obtain rfl := List.mem_singleton.mp he
      intro _ _ q₁ _ hq₁
      obtain rfl := Option.some.inj hq₁
      rw [h.next_sequence]
      decide
  have hall := h.run.snoc hstep
  obtain ⟨hagree, -, hfresh, hpos, -⟩ :=
    counters_agree ⟨id, id⟩ (blank_blankFlash _) hall hwrap rfl
  exact ⟨es, _, q, q', m, m', hall, h.appended, h.full, rfl, h.depth_failed hS (by omega), hagree,
    hfresh, hpos⟩

end Runs

end PicoDataLogger
