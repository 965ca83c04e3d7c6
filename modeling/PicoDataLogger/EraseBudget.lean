/-
How many erases the queue issues for the records it takes.

Reclaiming works a sector at a time, and the budget is one erase for every
sector's worth of appends. An erase keeps to it if it gives back a sector that has
been written throughout; it does not if the sector was given up early. The queue
gives a sector up when its last active record goes and the newest record is
elsewhere, however few of its slots were used. `Batched` is the condition on the
state before a call that no sector is given up early, and `erases_within_budget`
is the budget for every run of such calls.
-/
import PicoDataLogger.Availability
import PicoDataLogger.SlotUsage

set_option autoImplicit false

namespace PicoDataLogger

open Interaction NorFlash SectorLog

-- so that no unification evaluates a record's bytes
attribute [local irreducible] record_body

/-! ## What a call costs -/

namespace Region

variable {g : Region} {m : Flash}

/-- Sixteen for every erase so far, and one for every slot in use. -/
def spent (g : Region) (m : Flash) : ℕ := 16 * m.erases + used g.layout (g.view m)

/-- Reclaiming full sectors costs nothing: what an erase adds, the slots give back. -/
theorem spent_reclaimedAll (h : FullyWritten g.layout seqKey (g.view m)) :
    g.spent (g.reclaimedAll m) = g.spent m := by
  have hused := h.used_reclaimTo (k := g.sector_count) le_rfl
  have hcount : Nat.count (g.Reclaimable m) g.sector_count
    = Nat.count (SectorLog.Reclaimable g.layout seqKey (g.view m)) g.sector_count := rfl
  rw [layout_width] at hused
  rw [spent, spent, reclaimedAll, view_reclaimed, reclaimed_erases, hcount]
  omega

/-- Acknowledging costs nothing. -/
theorem spent_retired {i : ℕ} {r : MeasurementRecord} (ho : g.oldest m = some (i, r)) :
    g.spent (g.retired m i) = g.spent m := by
  rw [spent, spent, view_retired ho, used_retire ho]
  rfl

/-- Writing a record costs a slot. -/
theorem spent_written {i : ℕ} {r : MeasurementRecord} (hf : g.firstErased m = some i) :
    g.spent (g.written m i r) = g.spent m + 1 := by
  have h : (g.written m i r).erases = m.erases := rfl
  rw [spent, spent, view_written hf, h,
    used_commit (g.layout_slots ▸ firstErased_lt hf) (view_firstErased hf), Nat.add_assoc]

end Region

/-! ## The condition -/

/-- Retiring the oldest record gives up no sector early: if the record is the last active
one of a sector that does not hold the newest, the sector has been written throughout. -/
def RetiresFull (g : Region) (m : Flash) : Prop :=
  ∀ i r, g.oldest m = some (i, r) → Last g.layout seqKey (g.view m) i →
    ∀ j, j / Region.slots_per_sector = i / Region.slots_per_sector → g.view m j ≠ .erased

/-- Writing the next record gives up no sector early: if it goes outside the sector of the
newest record and that sector holds no active one, the sector has been written throughout. -/
def LeavesFull (g : Region) (m : Flash) : Prop :=
  ∀ i j s, g.firstErased m = some i → g.newest m = some (j, s) →
    i / Region.slots_per_sector ≠ j / Region.slots_per_sector →
    (∀ t, t / Region.slots_per_sector = j / Region.slots_per_sector →
      (g.view m t).active? = none) →
    ∀ t, t / Region.slots_per_sector = j / Region.slots_per_sector → g.view m t ≠ .erased

/-- The step gives up no sector early. -/
def Batched {ε : Type} (e : Taken Machine (Label ε)) : Prop :=
  ∀ q, e.before.queue = some q →
    (∀ r, e.label.reply = .op .acknowledge_oldest r → RetiresFull q.region e.before.flash)
    ∧ ∀ s r, e.label.reply = .op (.append s) r →
      (q.depth = q.capacity → RetiresFull q.region e.before.flash)
      ∧ LeavesFull q.region (q.cleared e.before.flash)

section Steps

variable {ε : Type} {q : FlashQueue} {m m' : Flash} {s : Sample}

theorem spent_removed {g : Region} (hset : Settled g.layout seqKey (g.view m))
    (h : RetiresFull g m) : g.spent (g.removed m) = g.spent m := by
  rw [Region.removed]
  cases ho : g.oldest m with
  | none => rfl
  | some b =>
    have hfull : FullyWritten g.layout seqKey (g.view (g.retired m b.1)) := by
      rw [Region.view_retired (r := b.2) ho]
      exact hset.fullyWritten_retire (oldest_spec ho).2.1 (h _ _ ho)
    exact (Region.spent_reclaimedAll hfull).trans (Region.spent_retired (r := b.2) ho)

theorem spent_cleared (hset : Settled q.region.layout seqKey (q.region.view m))
    (h : q.depth = q.capacity → RetiresFull q.region m) :
    q.region.spent (q.cleared m) = q.region.spent m := by
  rw [FlashQueue.cleared]
  split
  · rename_i hfull
    exact spent_removed hset (h hfull)
  · rfl

/-- An append that takes its record spends one, one that does not spends none. -/
theorem spent_append (hset : Settled q.region.layout seqKey (q.region.view m))
    (hret : q.depth = q.capacity → RetiresFull q.region m)
    (hleave : LeavesFull q.region (q.cleared m))
    {r : Result (QueueError ε) FlashQueue MeasurementRecord} (h : AppendEnd .none s q m r m') :
    Settled q.region.layout seqKey (q.region.view m')
      ∧ q.region.spent m' = q.region.spent m + r.isOk.toNat := by
  have hclear := spent_cleared hset hret
  cases h with
  | @ok i hf =>
    refine ⟨Region.settled_reclaimedAll, ?_⟩
    have hfull : FullyWritten q.region.layout seqKey
        (q.region.view (q.region.written (q.cleared m) i (s.record q.next_sequence))) := by
      rw [Region.view_written hf]
      exact (settled_cleared hset).fullyWritten_commit
        (q.region.layout_slots ▸ Region.firstErased_lt hf) (Region.view_firstErased hf)
        fun j t => hleave i j t hf
    rw [Region.spent_reclaimedAll hfull, Region.spent_written hf, hclear]
    rfl
  | full hf => exact ⟨settled_cleared hset, hclear⟩
  | failed h => exact absurd h (AppendStop.not_none fun _ _ _ => id)
  | cut h => exact absurd h (AppendStop.not_none fun _ _ _ => id)

theorem spent_acknowledge_oldest (hset : Settled q.region.layout seqKey (q.region.view m))
    (hret : RetiresFull q.region m)
    {r : Result (QueueError ε) FlashQueue (Option MeasurementRecord)} (h : AckEnd .none q m r m') :
    Settled q.region.layout seqKey (q.region.view m') ∧ q.region.spent m' = q.region.spent m := by
  cases h with
  | empty ho => exact ⟨hset, rfl⟩
  | @ok i record ho =>
    refine ⟨Region.settled_reclaimedAll, ?_⟩
    rw [← Region.removed_of_some ho, spent_removed hset hret]
  | failed h => exact absurd h (AckStop.not_none fun _ _ _ => id)
  | cut h => exact absurd h (AckStop.not_none fun _ _ _ => id)

end Steps

/-! ## Runs -/

section Runs

variable {ε : Type} {geo : Geometry} {m₀ : Flash} {M M' : Machine} {l : Label ε}
  {es : List (Taken Machine (Label ε))}

/-- One batched step spends what it appends. -/
theorem spent_step (hM : ∀ q, M.queue = some q → Tidy geo.region q M.flash)
    (hset : Settled geo.region.layout seqKey (geo.region.view M.flash))
    (hb : Batched ⟨M, l, M'⟩) (h : Step .none geo M l M') :
    Settled geo.region.layout seqKey (geo.region.view M'.flash)
      ∧ geo.region.spent M'.flash = geo.region.spent M.flash + appended [⟨M, l, M'⟩] := by
  cases h with
  | @op op q m m' tr o h =>
    have hq := hM q rfl
    have hbatch := hb q rfl
    rw [← hq.region] at hset ⊢
    cases op with
    | append s =>
      obtain ⟨hret, hleave⟩ := hbatch.2 s _ rfl
      have := spent_append hset hret hleave (append_ends h)
      rw [appended, List.countP_singleton]
      generalize Result.of o = r at this
      cases r <;> exact this
    | peek_oldest =>
      obtain ⟨rfl, -⟩ := peek_oldest_ends h
      exact ⟨hset, rfl⟩
    | acknowledge_oldest =>
      exact spent_acknowledge_oldest hset (hbatch.1 _ rfl) (acknowledge_oldest_ends h)
  | recover h =>
    have hend := recover_ends h
    cases hend with
    | ok =>
      -- a settled log has nothing for recovery to reclaim
      have hsame : geo.region.reclaimedAll M.flash = M.flash := Region.reclaimed_of_settled hset le_rfl
      rw [hsame]
      exact ⟨hset, rfl⟩
    | failed h => exact absurd h (ReclaimStop.not_none fun _ _ _ => id)
    | cut h => exact absurd h (ReclaimStop.not_none fun _ _ _ => id)

/-- A blank region has spent its erases only. -/
theorem Region.Blank.spent {g : Region} (h : g.Blank m₀) : g.spent m₀ = 16 * m₀.erases := by
  have hused : used g.layout (g.view m₀) = 0 := by
    refine Nat.count_of_forall_not fun i hi => ?_
    rw [h.view (g.layout_slots ▸ hi)]
    simp [Slot.isErased]
  rw [Region.spent, hused, Nat.add_zero]

/-- **The erase budget.** In a fault-free run from a blank region, none of whose calls gives
up a sector early, every erase has been paid for by sixteen appends. -/
theorem erases_within_budget (hblank : geo.region.Blank m₀) (hrun : QueueRun .none geo m₀ es M)
    (hbatch : ∀ e ∈ es, Batched e) :
    16 * (M.flash.erases - m₀.erases) ≤ appended es := by
  have hspent : geo.region.spent M.flash = geo.region.spent m₀ + appended es := by
    refine (hrun.invariant_of_forall (C := Batched)
      (I := fun es M => (∀ q, M.queue = some q → Tidy geo.region q M.flash)
        ∧ Settled geo.region.layout seqKey (geo.region.view M.flash)
        ∧ geo.region.spent M.flash = geo.region.spent m₀ + appended es)
      ⟨(fun q hq => by cases hq), hblank.settled, rfl⟩ ?_ hbatch).2.2
    rintro es M l M' hb ⟨hM, hset, hsp⟩ hs
    obtain ⟨hset', hsp'⟩ := spent_step hM hset hb hs
    refine ⟨tidy_step hM hs, hset', ?_⟩
    rw [hsp', hsp, appended, appended, appended, List.countP_append, Nat.add_assoc]
  rw [hblank.spent, Region.spent] at hspent
  omega

/-! ### The everyday pattern

On two sectors each record is delivered before the next one is taken. The first 16 records fill
the first sector, which keeps the newest. The 17th goes to the second sector, and the first is
erased, with all of its slots used. The 18th therefore goes back to the first, and the second is
erased with one slot used. -/

/-- The commands: `n` records, each acknowledged at once. -/
def everyday (n : ℕ) : List Command := (List.replicate n [.append, .acknowledge]).flatten

/-- At `st` the command gives up no sector early, because the oldest record is in the sector of
the newest, or because the next record stays in that sector or leaves it full. -/
def keepsBatches (L : Layout) (cap : ℕ) (st : LogState ℕ) : Command → Bool
  | .append => decide (st.depth ≠ cap) && (firstErased L (toView st.slots)).all fun i =>
      (newest L (· % 2 ^ 64) (toView st.slots)).all fun b => decide (i / L.width = b.1 / L.width)
        || (List.range L.width).all fun d => !(toView st.slots (b.1 / L.width * L.width + d)).isErased
  | .acknowledge => (oldest L (· % 2 ^ 64) (toView st.slots)).all fun a =>
      (newest L (· % 2 ^ 64) (toView st.slots)).all fun b => decide (a.1 / L.width = b.1 / L.width)
  | .reboot => true

section Everyday

variable {g : Region} {s : Sample} {st : LogState ℕ} {c : Command} {e : Taken Machine (Label ε)}
  {m : Flash}

theorem Pictures.newest (h : Pictures g s m₀ st m) :
    g.newest m = (SectorLog.newest g.layout (· % 2 ^ 64) (toView st.slots)).map
      (Prod.map id s.stored) := by
  rw [Region.newest, h.shows.newest seqKey, seqKey_stored]

/-- A renamed record is in the slot it was in. -/
theorem exists_of_map_eq_some {α ρ : Type} {φ : α → ρ} {o : Option (ℕ × α)} {i : ℕ} {r : ρ}
    (h : o.map (Prod.map id φ) = some (i, r)) : ∃ a, o = some (i, a) := by
  cases o with
  | none => cases h
  | some b =>
    obtain ⟨j, a⟩ := b
    cases h
    exact ⟨a, rfl⟩

/-- The oldest record is in the sector of the newest, which is not given up. -/
theorem Pictures.retiresFull (h : Pictures g s m₀ st m)
    (hb : keepsBatches g.layout g.capacity st .acknowledge = true) : RetiresFull g m := by
  intro i r ho hlast
  obtain ⟨n, hold⟩ := exists_of_map_eq_some (h.oldest.symm.trans ho)
  rw [keepsBatches, hold, Option.all_some] at hb
  have hnew := h.newest
  cases hn : SectorLog.newest g.layout (· % 2 ^ 64) (toView st.slots) with
  | none =>
    -- an active record can be read, so there is a newest one
    rw [hn, Option.map_none, Region.newest, SectorLog.newest, firstMin_eq_none_iff] at hnew
    obtain ⟨hi, hv, -⟩ := oldest_spec ho
    have := hnew i hi
    rw [hv] at this
    cases this
  | some b =>
    rw [hn] at hnew hb
    exact absurd (of_decide_eq_true hb).symm (hlast.2 _ _ hnew)

/-- The next record stays in the sector of the newest, or leaves it full. -/
theorem Pictures.leavesFull (h : Pictures g s m₀ st m)
    (hb : keepsBatches g.layout g.capacity st .append = true) : LeavesFull g m := by
  intro i j r hf hn hij _ t ht
  rw [h.firstErased] at hf
  obtain ⟨n, hnew⟩ := exists_of_map_eq_some (h.newest.symm.trans hn)
  rw [keepsBatches, hf, hnew, Option.all_some, Option.all_some, Bool.and_eq_true, Bool.or_eq_true] at hb
  rcases hb.2 with hsame | hfull
  · exact absurd (of_decide_eq_true hsame) hij
  · rw [Region.slots_per_sector_eq] at ht
    have hd := List.all_eq_true.mp hfull (t % 16) (List.mem_range.mpr (Nat.mod_lt t (by decide)))
    have hslot : j / 16 * 16 + t % 16 = t := by
      change t / 16 = j / 16 at ht
      omega
    have hlt : t < g.layout.slots := by
      have hj := (firstMin_eq_some_iff.mp hnew).lt
      rw [g.layout_slots, g.slot_count_eq] at hj ⊢
      change t / 16 = j / 16 at ht
      omega
    rw [h.shows t hlt]
    rw [Region.layout_width, hslot] at hd
    cases hv : toView st.slots t with
    | erased =>
      rw [hv] at hd
      cases hd
    | _ => exact nofun

/-- The condition computed on the replay is that on the flash. -/
theorem Executes.batched (h : Executes g s m₀ st c e)
    (hb : keepsBatches g.layout g.capacity st c = true) : Batched e := by
  intro q hq
  have hfol := h.queue q hq
  have hreply := h.reply
  rw [hfol.region]
  constructor
  · intro r hr
    rw [hr] at hreply
    cases c with
    | append =>
      obtain ⟨_, _, heq⟩ := hreply
      cases heq
    | acknowledge => exact h.image.retiresFull hb
    | reboot =>
      obtain ⟨_, heq⟩ := hreply
      cases heq
  · intro s' r hr
    obtain ⟨rfl, -⟩ := h.append_inv hr
    have hroom : q.depth ≠ q.capacity := by
      rw [keepsBatches, Bool.and_eq_true, decide_eq_true_eq] at hb
      rw [hfol.depth, FlashQueue.capacity, hfol.region]
      exact hb.1
    refine ⟨fun hfull => absurd hfull hroom, ?_⟩
    rw [FlashQueue.cleared, if_neg hroom]
    exact h.image.leavesFull hb

end Everyday

/-- **Seventeen records, one erase**: no sector is given up early, and the budget is kept. -/
theorem erases_within_budget_first :
    ∃ (es : List (Taken Machine (Label Unit))) (M : Machine),
      QueueRun .none Geometry.twoSectors blankFlash es M ∧ (∀ e ∈ es, Batched e) ∧ appended es = 17
        ∧ M.flash.erases - blankFlash.erases = 1
        ∧ 16 * (M.flash.erases - blankFlash.erases) ≤ appended es := by
  have hblank := blank_blankFlash Geometry.twoSectors.region
  have hend : (replay ⟨2, 16, by decide⟩ (· % 2 ^ 64) id 16 (everyday 17)
      (.blank ⟨2, 16, by decide⟩)).any (fun st => decide (st.erases = 1)) = true := by
    decide +kernel
  have hkeeps : (visits ⟨2, 16, by decide⟩ (· % 2 ^ 64) id 16 (everyday 17)
      (.blank ⟨2, 16, by decide⟩)).all
        (fun p => decide (keepsBatches ⟨2, 16, by decide⟩ 16 p.1 p.2 = true)) = true := by
    decide +kernel
  obtain ⟨st, es, q, m, h, herases, hvisits, hcount⟩ :=
    exists_replays Unit .none (reading none) hblank twoSectors_layout twoSectors_capacity hend hkeeps
  have hbatch : ∀ e ∈ es, Batched e := by
    intro e he
    obtain ⟨p, hp, hexec⟩ := h.exists_visit he
    refine hexec.batched ?_
    rcases List.mem_cons.mp hp with rfl | hp
    · rfl
    · exact hvisits p hp
  have hm : m.erases = blankFlash.erases + 1 := herases ▸ h.follows.image.erases
  refine ⟨es, _, h.run, hbatch, hcount, ?_, erases_within_budget hblank h.run hbatch⟩
  dsimp only
  omega

/-- **Two erases for 18 records.** A fault-free run from a blank region that is over budget. -/
theorem erases_over_budget :
    ∃ (es : List (Taken Machine (Label Unit))) (M : Machine),
      QueueRun .none Geometry.twoSectors blankFlash es M ∧ appended es = 18
        ∧ M.flash.erases - blankFlash.erases = 2
        ∧ ¬ 16 * (M.flash.erases - blankFlash.erases) ≤ appended es := by
  have hend : (replay ⟨2, 16, by decide⟩ (· % 2 ^ 64) id 16 (everyday 18)
      (.blank ⟨2, 16, by decide⟩)).any (fun st => decide (st.erases = 2)) = true := by
    decide +kernel
  obtain ⟨st, hst, htwo⟩ := (Option.any_eq_true _ _).mp hend
  have herases : st.erases = 2 := of_decide_eq_true htwo
  obtain ⟨es, q, m, h⟩ := exists_replay_run Unit .none (reading none)
    (blank_blankFlash Geometry.twoSectors.region) (everyday 18) hst
  have hm : m.erases = blankFlash.erases + 2 := herases ▸ h.follows.image.erases
  have hcount : appended es = 18 := h.appended hst
  refine ⟨es, _, h.run, hcount, ?_, ?_⟩
  · dsimp only
    omega
  · rw [hcount]
    dsimp only
    omega

end Runs

end PicoDataLogger
