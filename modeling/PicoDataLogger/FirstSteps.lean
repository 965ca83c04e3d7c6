/-
The first steps of a device: power up on a blank region, and append.

These are runs that exist, whatever faults the flash may have, because a flash
that behaves is among the ones a fault model allows.
-/
import PicoDataLogger.Consistency

set_option autoImplicit false

namespace PicoDataLogger

open Interaction NorFlash SectorLog

section Blank

variable {ε : Type} {g : Region} {m : Flash}

theorem Region.Blank.settled (h : g.Blank m) : Settled g.layout seqKey (g.view m) := by
  intro k hk hr
  obtain ⟨-, ⟨i, hi, hd⟩, -⟩ := reclaimable_iff.mp hr
  have hlt : i < g.slot_count := by
    rw [Region.layout_width] at hi
    rw [Region.layout_sectors] at hk
    have := g.slot_count_eq
    omega
  rw [h.view hlt] at hd
  cases hd

/-- A blank region has nothing to reclaim. -/
theorem Region.Blank.reclaimedAll (h : g.Blank m) : g.reclaimedAll m = m :=
  reclaimed_of_settled h.settled le_rfl

/-- The queue found on a blank region is the new one. -/
theorem Region.Blank.recovered (h : g.Blank m) : g.recovered m = FlashQueue.new g := by
  rw [Region.recovered, h.depth, h.next_sequence]
  rfl

end Blank

/-- A new queue has room. -/
theorem cleared_new (g : Region) (m : Flash) : (FlashQueue.new g).cleared m = m := by
  have hcap : ¬ (FlashQueue.new g).depth = (FlashQueue.new g).capacity := g.capacity_pos.ne
  rw [FlashQueue.cleared, if_neg hcap]

/-- A device that has just come up on a blank region. -/
theorem exists_boot (ε : Type) (F : Faults) {geo : Geometry} {m₀ : Flash}
    (h : geo.region.Blank m₀) :
    ∃ l : Label ε, QueueRun F geo m₀ [⟨⟨m₀, none⟩, l, ⟨m₀, some (FlashQueue.new geo.region)⟩⟩]
      ⟨m₀, some (FlashQueue.new geo.region)⟩ ∧ ∀ op r, l.reply ≠ .op op r := by
  obtain ⟨tr, hstep⟩ := exists_recover_step ε F geo ⟨m₀, none⟩
  rw [h.reclaimedAll, h.recovered] at hstep
  exact ⟨_, .snoc .nil hstep, fun op r h => by cases h⟩

/-- Peeking on a flash that behaves. -/
theorem peek_oldest_run {ε : Type} (q : FlashQueue) (m : Flash) :
    ((peek_oldest : QueueM ε _).prog q).run NorFlash.step m
      = ((.ok ((q.region.oldest m).map Prod.snd), q), m) := by
  obtain ⟨tr, hrun⟩ := Prog.exec_run NorFlash.step ((peek_oldest : QueueM ε _).prog q) m
  have hend := peek_oldest_ends (hrun.mono (Faults.ofStep_le_env .none ε))
  generalize ((peek_oldest : QueueM ε _).prog q).run NorFlash.step m = res at hend
  obtain ⟨⟨o | o, q'⟩, m₁⟩ := res
  · obtain ⟨-, hend⟩ := hend
    cases hend with
    | failed hs =>
      obtain ⟨_, _, hs⟩ := hs
      exact absurd hs id
  · obtain ⟨hm, hend⟩ := hend
    dsimp only at hm
    subst hm
    cases hend with
    | ok => rfl

/-- Acknowledging a record on a flash that behaves. -/
theorem acknowledge_oldest_run {ε : Type} {q : FlashQueue} {m : Flash} {i : ℕ}
    {record : MeasurementRecord} (ho : q.region.oldest m = some (i, record)) :
    ((acknowledge_oldest : QueueM ε _).prog q).run NorFlash.step m
      = ((.ok (some record), { q with depth := q.depth - 1 }),
          q.region.reclaimedAll (q.region.retired m i)) := by
  obtain ⟨tr, hrun⟩ := Prog.exec_run NorFlash.step ((acknowledge_oldest : QueueM ε _).prog q) m
  have hend := acknowledge_oldest_ends (hrun.mono (Faults.ofStep_le_env .none ε))
  generalize ((acknowledge_oldest : QueueM ε _).prog q).run NorFlash.step m = res at hend
  obtain ⟨⟨o | o, q'⟩, m'⟩ := res
  · cases hend with
    | failed h => exact absurd h (AckStop.not_none fun _ _ _ => id)
  · cases hend with
    | empty hn => simp [hn] at ho
    | @ok j _ hj =>
      cases hj.symm.trans ho
      rfl

/-- Whatever the faults, an append may end as it does on flash that behaves. -/
theorem exists_append_end (ε : Type) (F : Faults) (geo : Geometry) (s : Sample) (q : FlashQueue)
    (m : Flash) :
    ∃ tr r m', Step F geo ⟨m, some q⟩ (⟨tr, .op (.append s) r⟩ : Label ε) ⟨m', memory r⟩
      ∧ AppendEnd .none s q m r m' := by
  obtain ⟨tr, h⟩ := Prog.exec_run NorFlash.step ((append s : QueueM ε _).prog q) m
  exact ⟨tr, _, _, .op (.append s) (h.mono (Faults.ofStep_le_env F ε)),
    append_ends (h.mono (Faults.ofStep_le_env .none ε))⟩

/-- The same for an acknowledgement. -/
theorem exists_acknowledge_oldest_end (ε : Type) (F : Faults) (geo : Geometry) (q : FlashQueue)
    (m : Flash) :
    ∃ tr r m', Step F geo ⟨m, some q⟩ (⟨tr, .op .acknowledge_oldest r⟩ : Label ε) ⟨m', memory r⟩
      ∧ AckEnd .none q m r m' := by
  obtain ⟨tr, h⟩ := Prog.exec_run NorFlash.step ((acknowledge_oldest : QueueM ε _).prog q) m
  exact ⟨tr, _, _, .op .acknowledge_oldest (h.mono (Faults.ofStep_le_env F ε)),
    acknowledge_oldest_ends (h.mono (Faults.ofStep_le_env .none ε))⟩

/-- An append that finds a slot may succeed. -/
theorem exists_append_exec (ε : Type) (F : Faults) (s : Sample) {q : FlashQueue} {m : Flash}
    {i : ℕ} (hf : q.region.firstErased (q.cleared m) = some i) :
    ∃ tr, Exec (F.env ε) ((append s : QueueM ε _).prog q) m tr
      (.done (.ok (s.record q.next_sequence),
        { q.prepared m with depth := (q.prepared m).depth + 1 }))
      (q.region.reclaimedAll (q.region.written (q.cleared m) i (s.record q.next_sequence))) := by
  obtain ⟨tr, h⟩ := Prog.exec_run NorFlash.step ((append s : QueueM ε _).prog q) m
  have hend := append_ends (h.mono (Faults.ofStep_le_env .none ε))
  generalize ((append s : QueueM ε _).prog q).run NorFlash.step m = res at h hend
  obtain ⟨⟨o | o, q'⟩, m'⟩ := res
  · cases hend with
    | full hn => simp [hn] at hf
    | failed h => exact absurd h (AppendStop.not_none fun _ _ _ => id)
  · dsimp only at h hend
    cases hend with
    | @ok j hj =>
      obtain rfl := Option.some.inj (hj.symm.trans hf)
      exact ⟨tr, h.mono (Faults.ofStep_le_env F ε)⟩

/-- An acknowledgement of a record may succeed. -/
theorem exists_acknowledge_oldest_exec (ε : Type) (F : Faults) {q : FlashQueue} {m : Flash}
    {i : ℕ} {record : MeasurementRecord} (ho : q.region.oldest m = some (i, record)) :
    ∃ tr, Exec (F.env ε) ((acknowledge_oldest : QueueM ε _).prog q) m tr
      (.done (.ok (some record), { q with depth := q.depth - 1 }))
      (q.region.reclaimedAll (q.region.retired m i)) := by
  obtain ⟨tr, h⟩ := Prog.exec_run NorFlash.step ((acknowledge_oldest : QueueM ε _).prog q) m
  rw [acknowledge_oldest_run ho] at h
  exact ⟨tr, h.mono (Faults.ofStep_le_env F ε)⟩

/-- Peeking may succeed. -/
theorem exists_peek_oldest_exec (ε : Type) (F : Faults) (q : FlashQueue) (m : Flash) :
    ∃ tr, Exec (F.env ε) ((peek_oldest : QueueM ε _).prog q) m tr
      (.done (.ok ((q.region.oldest m).map Prod.snd), q)) m := by
  obtain ⟨tr, h⟩ := Prog.exec_run NorFlash.step ((peek_oldest : QueueM ε _).prog q) m
  rw [peek_oldest_run] at h
  exact ⟨tr, h.mono (Faults.ofStep_le_env F ε)⟩

/-- An append that finds a slot may succeed. -/
theorem exists_append_step (ε : Type) (F : Faults) (geo : Geometry) (s : Sample) {q : FlashQueue}
    {m : Flash} {i : ℕ} (hf : q.region.firstErased (q.cleared m) = some i) :
    ∃ tr, Step F geo ⟨m, some q⟩
      (⟨tr, .op (.append s) (.ok (s.record q.next_sequence)
        { q.prepared m with depth := (q.prepared m).depth + 1 })⟩ : Label ε)
      ⟨q.region.reclaimedAll (q.region.written (q.cleared m) i (s.record q.next_sequence)),
        some { q.prepared m with depth := (q.prepared m).depth + 1 }⟩ := by
  obtain ⟨tr, h⟩ := exists_append_exec ε F s hf
  exact ⟨tr, .op (.append s) h⟩

/-- The flash of a device that has come up on a blank region and taken one sample. -/
def afterFirst (g : Region) (m₀ : Flash) (s : Sample) : Flash :=
  g.reclaimedAll (g.written m₀ 0 (s.record 0))

/-- A new queue on a blank region may take a sample. -/
theorem exists_first_step (ε : Type) (F : Faults) {geo : Geometry} {m₀ : Flash}
    (h : geo.region.Blank m₀) (s : Sample) :
    ∃ tr t, Step F geo ⟨m₀, some (FlashQueue.new geo.region)⟩
      (⟨tr, .op (.append s) (.ok (s.record 0) t)⟩ : Label ε)
      ⟨afterFirst geo.region m₀ s, some t⟩ := by
  obtain ⟨tr, hstep⟩ := exists_append_step ε F geo s (q := FlashQueue.new geo.region)
    (m := m₀) (i := 0) (by rw [cleared_new]; exact h.firstErased)
  rw [cleared_new] at hstep
  exact ⟨tr, _, hstep⟩

end PicoDataLogger
