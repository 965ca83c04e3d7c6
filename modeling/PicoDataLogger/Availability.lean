/-
Whether an append finds a slot.

One sector's worth of slots is held back from the capacity, and the idea is that
the queue always finds a place for one more record. It does not. Slots are
allocated lowest first, so records that are discarded together may lie in
different sectors, and then discarding the oldest frees nothing: it takes a
sector without any other active record to get slots back. `Room` is the exact
condition, on the state before the append.
-/
import PicoDataLogger.Replay

set_option autoImplicit false

namespace PicoDataLogger

open Interaction NorFlash SectorLog

/-- There is room for one more record: a slot is erased, or the queue is full and
its oldest record is the last active one of a sector that does not hold the
newest record. -/
def Room (q : FlashQueue) (m : Flash) : Prop :=
  (∃ j < q.region.slot_count, q.region.view m j = .erased)
    ∨ q.depth = q.capacity ∧ ∃ i r, q.region.oldest m = some (i, r)
      ∧ (∀ j s, j / Region.slots_per_sector = i / Region.slots_per_sector →
          q.region.view m j = .active s → j = i)
      ∧ ∀ j s, q.region.newest m = some (j, s) →
          j / Region.slots_per_sector ≠ i / Region.slots_per_sector

/-- Between calls on flash that behaves, the fields count the flash and there is
nothing to reclaim. -/
structure Tidy (g : Region) (q : FlashQueue) (m : Flash) : Prop where
  region : q.region = g
  depth : q.depth = g.depth m
  settled : Settled g.layout seqKey (g.view m)

section Tidy

variable {ε : Type} {g : Region} {q q' : FlashQueue} {m m' : Flash} {s : Sample}

/-- Making room keeps a log settled. -/
theorem settled_cleared (h : Settled q.region.layout seqKey (q.region.view m)) :
    Settled q.region.layout seqKey (q.region.view (q.cleared m)) := by
  rw [FlashQueue.cleared]
  split
  · cases ho : q.region.oldest m with
    | none => rwa [Region.removed, ho]
    | some b =>
      rw [Region.removed_of_some (i := b.1) (r := b.2) ho]
      exact Region.settled_reclaimedAll
  · exact h

/-- **Room is what an append needs**: on a tidy queue there is a slot exactly if there is room. -/
theorem Tidy.firstErased_iff (h : Tidy g q m) :
    (∃ i, q.region.firstErased (q.cleared m) = some i) ↔ Room q m := by
  obtain rfl := h.region
  have hexists : (∃ i, q.region.firstErased (q.cleared m) = some i)
      ↔ ∃ j < q.region.slot_count, q.region.view (q.cleared m) j = .erased := by
    rw [← q.region.layout_slots, ← Option.isSome_iff_exists, ← Option.ne_none_iff_isSome, ne_eq,
      Region.firstErased, firstErased_eq_none]
    push Not
    rfl
  rw [hexists, Room]
  by_cases hfull : q.depth = q.capacity
  · have hcap := q.region.capacity_pos
    have hd := h.depth
    have hfull' : q.depth = q.region.capacity := hfull
    obtain ⟨i, r, ho⟩ := Region.oldest_ne_none (g := q.region) (m := m) (by omega)
    have hview : q.region.view (q.cleared m)
        = reclaim q.region.layout seqKey (retire (q.region.view m) i r) := by
      rw [FlashQueue.cleared, if_pos hfull, Region.removed_of_some ho, Region.reclaimedAll,
        Region.view_reclaimed, Region.view_retired ho]
      rfl
    have hiff := h.settled.exists_erased_iff ho
    rw [q.region.layout_slots] at hiff
    rw [hview, hiff]
    refine or_congr_right ⟨fun h => ⟨hfull, i, r, ho, h⟩, ?_⟩
    rintro ⟨-, i', r', ho', h⟩
    cases ho.symm.trans ho'
    exact h
  · rw [FlashQueue.cleared, if_neg hfull]
    exact ⟨.inl, fun h => h.elim id fun h => absurd h.1 hfull⟩

/-- An append leaves the queue tidy, whether it found a slot or not. -/
theorem Tidy.append (h : Tidy g q m) {r : Result (QueueError ε) FlashQueue MeasurementRecord}
    (hend : AppendEnd .none s q m r m') (hq : memory r = some q') : Tidy g q' m' := by
  obtain rfl := h.region
  have hprep := depth_prepared h.depth
  cases hend with
  | @ok i hf =>
    cases hq
    refine ⟨rfl, ?_, Region.settled_reclaimedAll⟩
    rw [Region.depth_reclaimedAll, Region.depth, Region.view_written hf,
      depth_commit_firstErased hf, hprep]
    rfl
  | full hf =>
    cases hq
    exact ⟨rfl, hprep, settled_cleared h.settled⟩
  | failed h => exact absurd h (AppendStop.not_none fun _ _ _ => id)
  | cut h => exact absurd h (AppendStop.not_none fun _ _ _ => id)

theorem Tidy.acknowledge_oldest (h : Tidy g q m)
    {r : Result (QueueError ε) FlashQueue (Option MeasurementRecord)}
    (hend : AckEnd .none q m r m') (hq : memory r = some q') : Tidy g q' m' := by
  obtain rfl := h.region
  cases hend with
  | empty ho =>
    cases hq
    exact h
  | @ok i record ho =>
    cases hq
    have hremoved := Region.depth_removed ho
    rw [Region.removed_of_some ho] at hremoved
    have hd := h.depth
    exact ⟨rfl, by dsimp only; omega, Region.settled_reclaimedAll⟩
  | failed h => exact absurd h (AckStop.not_none fun _ _ _ => id)
  | cut h => exact absurd h (AckStop.not_none fun _ _ _ => id)

theorem Tidy.recover {o : Outcome (Except (QueueError ε) (FlashQueue × RecoveryReport))}
    (hend : RecoverEnd .none g m o m') (hq : recovered o = some q') : Tidy g q' m' := by
  cases hend with
  | ok =>
    cases hq
    exact ⟨rfl, Region.depth_reclaimedAll.symm, Region.settled_reclaimedAll⟩
  | failed h => exact absurd h (ReclaimStop.not_none fun _ _ _ => id)
  | cut h => exact absurd h (ReclaimStop.not_none fun _ _ _ => id)

/-- Every fault-free step leaves a tidy queue. -/
theorem tidy_step {geo : Geometry} {M M' : Machine} {l : Label ε}
    (hM : ∀ q, M.queue = some q → Tidy geo.region q M.flash) (h : Step .none geo M l M') :
    ∀ q, M'.queue = some q → Tidy geo.region q M'.flash := by
  intro q' hq'
  cases h with
  | @op op q m m' tr o h =>
    have hq := hM q rfl
    cases op with
    | append s => exact hq.append (append_ends h) hq'
    | peek_oldest =>
      obtain ⟨rfl, hend⟩ := peek_oldest_ends h
      generalize Result.of o = r at hend hq'
      cases hend with
      | ok => cases hq'; exact hq
      | failed h => exact h.elim fun _ h => h.2.elim
      | cut h => exact h.elim fun _ h => h.2.elim
    | acknowledge_oldest => exact hq.acknowledge_oldest (acknowledge_oldest_ends h) hq'
  | recover h => exact Tidy.recover (recover_ends h) hq'

end Tidy

/-- The step is not an append without room. -/
def HasRoom {ε : Type} (e : Taken Machine (Label ε)) : Prop :=
  ∀ s r q, e.label.reply = .op (.append s) r → e.before.queue = some q → Room q e.before.flash

section Runs

variable {ε : Type} {geo : Geometry} {m₀ : Flash} {M : Machine}
  {es : List (Taken Machine (Label ε))}

/-- Every fault-free run leaves a tidy queue. -/
theorem QueueRun.tidy (hrun : QueueRun .none geo m₀ es M) :
    ∀ q, M.queue = some q → Tidy geo.region q M.flash := by
  refine hrun.invariant (I := fun _ M => ∀ q, M.queue = some q → Tidy geo.region q M.flash) ?_
    fun _ _ _ _ hM hs => tidy_step hM hs
  intro q hq
  cases hq

/-- One fault-free append on a tidy queue returns `Ok` exactly if there is room. -/
theorem appendOk_iff_hasRoom {M' : Machine} {l : Label ε}
    (hM : ∀ q, M.queue = some q → Tidy geo.region q M.flash) (h : Step .none geo M l M') :
    AppendOk ⟨M, l, M'⟩ ↔ HasRoom ⟨M, l, M'⟩ := by
  cases h with
  | @op op q m m' tr o h =>
    cases op with
    | append s =>
      -- room as the fields tell it is a slot that the search finds
      have hroom := (hM q rfl).firstErased_iff
      have hend := append_ends h
      generalize Result.of o = r at hend
      constructor
      · intro hok _ _ _ _ hq'
        obtain rfl := Option.some.inj hq'
        obtain ⟨a, q₁, hr⟩ := hok s r rfl
        rw [← hroom]
        cases hend with
        | ok hf => exact ⟨_, hf⟩
        | full _ => cases hr
        | failed _ => cases hr
        | cut _ => cases hr
      · intro hhas _ _ hr'
        obtain ⟨i, hi⟩ := hroom.mpr (hhas s r q rfl rfl)
        cases hr'
        cases hend with
        | ok hf => exact ⟨_, _, rfl⟩
        | full hf => simp [hf] at hi
        | failed h => exact absurd h (AppendStop.not_none fun _ _ _ => id)
        | cut h => exact absurd h (AppendStop.not_none fun _ _ _ => id)
    | peek_oldest => refine ⟨fun _ _ _ _ h => ?_, fun _ _ _ h => ?_⟩ <;> cases h
    | acknowledge_oldest => refine ⟨fun _ _ _ _ h => ?_, fun _ _ _ h => ?_⟩ <;> cases h
  | recover h => refine ⟨fun _ _ _ _ h => ?_, fun _ _ _ h => ?_⟩ <;> cases h

/-- **When appends succeed.** In a fault-free run, from any image, every append
returns `Ok` exactly if there is room before every append. -/
theorem appends_ok_iff_room (hrun : QueueRun .none geo m₀ es M) :
    (∀ e ∈ es, AppendOk e) ↔ ∀ e ∈ es, HasRoom e := by
  refine forall₂_congr fun e he => ?_
  obtain ⟨hstep, es', hrun', -⟩ := hrun.of_mem he
  exact appendOk_iff_hasRoom (QueueRun.tidy hrun') hstep

/-- An outage with an append to the full queue, and a reboot, in it: there is room before every
append. -/
theorem appends_ok_iff_room_first :
    ∃ (es : List (Taken Machine (Label Unit))) (M : Machine),
      QueueRun .none Geometry.twoSectors blankFlash es M ∧ appended es = 18
        ∧ M.flash.erases - blankFlash.erases = 1
        ∧ (∃ e ∈ es, ∃ q, e.before.queue = some q ∧ q.depth = q.capacity
          ∧ ∃ a t, e.label.reply = .op (.append (reading none)) (.ok a t))
        ∧ ∀ e ∈ es, HasRoom e := by
  obtain ⟨st, es, q, m, h, ⟨-, -, herases, -⟩, -, hcount, hfull⟩ :=
    exists_outage Unit .none (reading none)
  have hm : m.erases = blankFlash.erases + 1 := herases ▸ h.follows.image.erases
  refine ⟨es, _, h.run, hcount, ?_, hfull, (appends_ok_iff_room h.run).mp h.appendOk⟩
  dsimp only
  omega

/-! ### A run without room

Three sectors, room for 32 records. After 18 appends and 16 acknowledgements the first
sector is erased again, and the two oldest records are the first two of the second
sector. The next 30 appends fill both sectors, and 16 more fill the third while the
oldest are discarded: two from the second sector, then 14 from the first, which
still holds two. The next discard is one of those two, so no sector comes free. -/

/-- The calls: an outage of 18 records, 16 of which are delivered, and a long outage. -/
def fragmenting : List Command :=
  List.replicate 18 .append ++ List.replicate 16 .acknowledge ++ List.replicate 46 .append

theorem threeSectors_layout :
    Geometry.threeSectors.region.layout = { sectors := 3, width := 16, width_pos := by decide } :=
  rfl

/-- The replay of the calls goes through, and the next append finds no slot. -/
theorem replay_fragmenting :
    ∃ st, replay Geometry.threeSectors.region.layout (· % 2 ^ 64) id
        Geometry.threeSectors.region.capacity fragmenting
        (.blank Geometry.threeSectors.region.layout) = some st
      ∧ st.append Geometry.threeSectors.region.layout (· % 2 ^ 64) id
        Geometry.threeSectors.region.capacity = none := by
  have hcap : Geometry.threeSectors.region.capacity = 32 := rfl
  rw [threeSectors_layout, hcap]
  have h : (replay ⟨3, 16, by decide⟩ (· % 2 ^ 64) id 32 fragmenting
      (.blank ⟨3, 16, by decide⟩)).any
        (fun st => (st.append ⟨3, 16, by decide⟩ (· % 2 ^ 64) id 32).isNone) = true := by
    decide +kernel
  obtain ⟨st, hst, hnone⟩ := (Option.any_eq_true _ _).mp h
  exact ⟨st, hst, Option.isNone_iff_eq_none.mp hnone⟩

/-- **An append is refused.** A fault-free run from a blank region in which an append
returns `InvalidGeometry`. -/
theorem append_refused :
    ∃ (es : List (Taken Machine (Label Unit))) (e : Taken Machine (Label Unit)) (M : Machine)
      (q : FlashQueue), QueueRun .none Geometry.threeSectors blankFlash (es ++ [e]) M
        ∧ e.label.reply = .op (.append (reading none)) (.error .invalidGeometry q) := by
  obtain ⟨st, hst, hnone⟩ := replay_fragmenting
  obtain ⟨es, q, m, h⟩ := exists_replay_run Unit .none (reading none)
    (blank_blankFlash Geometry.threeSectors.region) fragmenting hst
  obtain ⟨l, q', m', hstep, hreply⟩ := h.follows.append Unit .none
  rw [hnone] at hreply
  exact ⟨es, ⟨⟨m, some q⟩, l, ⟨m', some q'⟩⟩, _, q', h.run.snoc hstep, hreply⟩

end Runs

end PicoDataLogger
