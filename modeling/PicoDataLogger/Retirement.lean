/-
What becomes of a record.

A record is committed once, is active for a while, and is then retired for good: by
an acknowledgement, or by an append to a full queue. `Retired` reads this off the
events of a run, one flash primitive at a time, and `Ledger` is the invariant that
makes it final: every record on the flash was committed in the run, sequences are
never used twice, and a retired record is not active again.
-/
import PicoDataLogger.SequenceHistory
import PicoDataLogger.CrashConsistency

set_option autoImplicit false

namespace PicoDataLogger

open Interaction NorFlash SectorLog

/-- The record stopped being active at one of the primitives. -/
def Retired (g : Region) (H : List (Event Prim Flash)) (r : MeasurementRecord) : Prop :=
  ∃ e ∈ H, r ∈ g.live e.before ∧ r ∉ g.live e.after

/-- **The ledger.** What the primitives of a run so far say about the flash. -/
structure Ledger (g : Region) (H : List (Event Prim Flash)) (m : Flash) : Prop where
  history : History g (g.view m) (H.flatMap (commits g))
  /-- A committed record that is not active any more has been retired. -/
  settled : ∀ r ∈ H.flatMap (commits g), r ∈ g.live m ∨ Retired g H r
  /-- A retired record was committed, and is not active. -/
  gone : ∀ r, Retired g H r → r ∈ H.flatMap (commits g) ∧ r ∉ g.live m

section Events

variable {g : Region} {v v' : View MeasurementRecord} {m m' : Flash} {r : MeasurementRecord}
  {H H' : List (Event Prim Flash)} {e : Event Prim Flash} {n : ℕ}
  {J : MeasurementRecord → Prop} {K : ℕ → MeasurementRecord → Prop}

theorem Region.mem_live : r ∈ g.live m ↔ ∃ i < g.slot_count, g.view m i = .active r := by
  rw [live, SectorLog.mem_live, g.layout_slots]

/-- The oldest record is an active one. -/
theorem Region.oldest_mem_live {i : ℕ} (ho : g.oldest m = some (i, r)) : r ∈ g.live m := by
  obtain ⟨hi, hv, -⟩ := oldest_spec ho
  exact Region.mem_live.mpr ⟨i, g.layout_slots ▸ hi, hv⟩

theorem Retired.mono (h : Retired g H r) : Retired g (H ++ H') r := by
  obtain ⟨e, he, hr⟩ := h
  exact ⟨e, List.mem_append_left H' he, hr⟩

/-- What is active after a primitive was active before it, or is new. -/
theorem mem_live_or_newly (h : r ∈ SectorLog.live g.layout seqKey v') :
    r ∈ SectorLog.live g.layout seqKey v ∨ r ∈ newly g v v' := by
  rw [SectorLog.mem_live, g.layout_slots] at h
  obtain ⟨i, hi, hv'⟩ := h
  by_cases hsame : (v' i).active? = (v i).active?
  · left
    rw [SectorLog.mem_live, g.layout_slots]
    refine ⟨i, hi, ?_⟩
    rwa [← Slot.active?_eq_some, ← hsame, Slot.active?_eq_some]
  · right
    rw [newly, List.mem_filterMap]
    refine ⟨i, List.mem_range.mpr hi, ?_⟩
    rw [if_neg hsame, hv', Slot.active?_active]

/-- What is new is active. -/
theorem mem_live_of_newly (h : r ∈ newly g v v') : r ∈ SectorLog.live g.layout seqKey v' := by
  rw [newly, List.mem_filterMap] at h
  obtain ⟨i, hi, hr⟩ := h
  split at hr
  · cases hr
  · rw [SectorLog.mem_live, g.layout_slots]
    exact ⟨i, List.mem_range.mp hi, Slot.active?_eq_some.mp hr⟩

/-- **One primitive** keeps the ledger. -/
theorem Ledger.event (h : Ledger g H e.before)
    (hmove : Move g J (Fresh g n e.before) (g.view e.before) (g.view e.after)) :
    Ledger g (H ++ [e]) e.after := by
  have hflat : (H ++ [e]).flatMap (commits g) = H.flatMap (commits g) ++ commits g e := by
    rw [List.flatMap_append, List.flatMap_singleton]
  have hhist := hmove.history h.history
  have hsorted := hhist.sorted
  -- a record that was committed before is not committed again
  have honce : ∀ r, r ∈ H.flatMap (commits g) → r ∉ commits g e := by
    intro r hold hnew
    have := (List.pairwise_append.mp hsorted).2.2 r hold r hnew
    exact lt_irrefl _ this
  have hback : ∀ r, r ∈ g.live e.after → r ∈ g.live e.before ∨ r ∈ commits g e :=
    fun r hr => mem_live_or_newly hr
  have hcommitted : ∀ r, r ∈ g.live e.before → r ∈ H.flatMap (commits g) := by
    intro r hr
    obtain ⟨i, hi, hv⟩ := Region.mem_live.mp hr
    exact h.history.readable i r hi (by rw [hv, Slot.record?_active])
  constructor
  · rw [hflat]
    exact hhist
  · intro r hr
    rw [hflat, List.mem_append] at hr
    rcases hr with hr | hr
    · rcases h.settled r hr with hlive | hret
      · by_cases hafter : r ∈ g.live e.after
        · exact .inl hafter
        · exact .inr ⟨e, List.mem_append_right H (List.mem_singleton_self e), hlive, hafter⟩
      · exact .inr hret.mono
    · exact .inl (mem_live_of_newly hr)
  · rintro r ⟨e', he', hbefore, hafter⟩
    rw [hflat, List.mem_append]
    rcases List.mem_append.mp he' with he' | he'
    · obtain ⟨hC, hnot⟩ := h.gone r ⟨e', he', hbefore, hafter⟩
      exact ⟨.inl hC, fun hr => (hback r hr).elim hnot (honce r hC)⟩
    · obtain rfl := List.mem_singleton.mp he'
      exact ⟨.inl (hcommitted r hbefore), hafter⟩

/-- An acknowledged record that is not active somewhere else has been retired. -/
theorem Ledger.retired_of_acknowledged (h : Ledger g H m) {i : ℕ} (hi : i < g.slot_count)
    (hv : g.view m i = .acknowledged (some r)) (hdead : r ∉ g.live m) : Retired g H r :=
  (h.settled r (h.history.readable i r hi (by rw [hv, Slot.record?_acknowledged]))).resolve_left hdead

/-- Before the first primitive there is nothing to know. -/
theorem Ledger.blank (h : g.Blank m) : Ledger g [] m where
  history := .blank h
  settled r hr := by cases hr
  gone r hr := by
    obtain ⟨e, he, -⟩ := hr
    cases he

end Events

/-! ## Runs -/

section Runs

variable {ε : Type} {geo : Geometry} {m₀ : Flash} {M M' : Machine} {l : Label ε}
  {es : List (Taken Machine (Label ε))} {H : List (Event Prim Flash)} {r : MeasurementRecord}

/-- Every legal primitive keeps the ledger. -/
theorem kept_ledger (g : Region) : Kept g (Ledger g) :=
  fun _ _ _ hlegal himg hH => hH.event (hlegal.move himg)

/-- **Every run keeps a ledger.** -/
theorem QueueRun.ledger (hblank : geo.region.Blank m₀) (hrun : QueueRun .storage geo m₀ es M)
    (hwrap : ∀ e ∈ es, NoWrap e) : Ledger geo.region (events es) M.flash :=
  QueueRun.kept (kept_ledger geo.region) hblank hrun hwrap (.blank hblank)

end Runs

end PicoDataLogger
