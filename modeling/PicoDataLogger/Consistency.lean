/-
The invariant of every run: what memory says about the flash is true, and
sequences are unique.

`Consistent` holds between any two calls, however the calls ended, as long as the
flash does no worse than `Faults.storage` and the sequence counter does not wrap.
-/
import PicoDataLogger.CrashStates
import PicoDataLogger.Recovery

set_option autoImplicit false

namespace PicoDataLogger

open Interaction NorFlash SectorLog

/-- The log of an image, with every readable sequence below `n`. -/
abbrev Region.Sound (g : Region) (m : Flash) (n : ℕ) : Prop :=
  SectorLog.Sound g.layout seqKey (g.view m) n

/-- The queue counts the active records. This needs nothing of the flash image. -/
structure Counted (g : Region) (q : FlashQueue) (m : Flash) : Prop where
  region : q.region = g
  depth : q.depth = g.depth m

/-- The fields of a queue that is up, against the flash. -/
structure InStep (g : Region) (q : FlashQueue) (m : Flash) : Prop extends Counted g q m where
  sound : g.Sound m q.next_sequence.toNat

/-- **The invariant.** Sequences are unique and short of the last `u64`, no more
records are active than the capacity, and the fields of a queue that is up are
what a scan of the flash would find. -/
structure Consistent (g : Region) (M : Machine) : Prop where
  sound : ∃ n < 2 ^ 64, g.Sound M.flash n
  bounded : g.depth M.flash ≤ g.capacity
  up : ∀ q, M.queue = some q → InStep g q M.flash

-- so that no unification evaluates a record's bytes
attribute [local irreducible] record_body

section Depth

variable {g : Region} {m m' : Flash} {q q' : FlashQueue} {s : Sample}

theorem Region.capacity_pos (g : Region) : 0 < g.capacity := by
  have h₁ := g.capacity_add
  have h₂ := g.two_le_sector_count
  have h₃ := g.slot_count_eq
  omega

theorem Region.depth_removed {i : ℕ} {r : MeasurementRecord} (ho : g.oldest m = some (i, r)) :
    g.depth (g.removed m) + 1 = g.depth m := by
  rw [removed_of_some ho, depth_reclaimedAll, depth, view_retired ho]
  exact depth_retire ho

theorem Region.oldest_ne_none (h : 0 < g.depth m) : ∃ i r, g.oldest m = some (i, r) := by
  cases ho : g.oldest m with
  | none =>
    have hl := oldest_eq_none.mp ho
    have hd : (live g.layout seqKey (g.view m)).length = g.depth m := length_live
    rw [hl, List.length_nil] at hd
    omega
  | some b => exact ⟨b.1, b.2, rfl⟩

/-- **Room.** Once `append` has made room there is space for one more record. -/
theorem InStep.room (h : InStep g q m) (hb : g.depth m ≤ g.capacity) :
    g.depth (q.cleared m) + 1 ≤ g.capacity := by
  obtain rfl := h.region
  have hd := h.depth
  by_cases hfull : q.depth = q.capacity
  · have hcap := q.region.capacity_pos
    have hfull' : q.depth = q.region.capacity := hfull
    obtain ⟨i, r, ho⟩ := Region.oldest_ne_none (g := q.region) (m := m) (by omega)
    rw [FlashQueue.cleared, if_pos hfull]
    have := Region.depth_removed ho
    omega
  · have hfull' : ¬ q.depth = q.region.capacity := hfull
    rw [FlashQueue.cleared, if_neg hfull]
    omega

/-- Every readable record is older than the next one. -/
theorem InStep.sequence_lt (hq : InStep g q m) {i : ℕ} {r : MeasurementRecord}
    (hi : i < g.slot_count) (hr : g.view m i = .active r ∨ g.view m i = .acknowledged (some r)) :
    r.sequence < q.next_sequence := by
  rw [UInt64.lt_iff_toNat_lt]
  apply hq.sound.fresh i r (g.layout_slots ▸ hi)
  rcases hr with hr | hr <;> rw [hr] <;> rfl

/-- The fields follow the flash when `append` makes room. -/
theorem depth_prepared (hd : q.depth = q.region.depth m) :
    (q.prepared m).depth = q.region.depth (q.cleared m) := by
  by_cases hfull : q.depth = q.capacity
  · simp only [FlashQueue.prepared, FlashQueue.cleared, hfull, true_and, if_true]
    cases ho : q.region.oldest m with
    | none => rw [Region.removed, ho]; simpa [hfull] using hd
    | some b =>
      have := Region.depth_removed (i := b.1) (r := b.2) ho
      simp only [Option.isSome_some, if_true]
      omega
  · simp only [FlashQueue.prepared, FlashQueue.cleared, hfull, false_and, if_false]
    exact hd

theorem Counted.depth_prepared (h : Counted g q m) : (q.prepared m).depth = g.depth (q.cleared m) := by
  obtain rfl := h.region
  exact PicoDataLogger.depth_prepared h.depth

theorem depth_spoil_firstErased {i : ℕ} (hf : g.firstErased m = some i) :
    SectorLog.depth g.layout (spoil (g.view m) i) = SectorLog.depth g.layout (g.view m) :=
  depth_spoil (g.layout_slots ▸ Region.firstErased_lt hf) (by rw [Region.view_firstErased hf]; rfl)

theorem depth_commit_firstErased {i : ℕ} {r : MeasurementRecord} (hf : g.firstErased m = some i) :
    SectorLog.depth g.layout (commit (g.view m) i r)
      = SectorLog.depth g.layout (g.view m) + 1 :=
  depth_commit (g.layout_slots ▸ Region.firstErased_lt hf) (by rw [Region.view_firstErased hf]; rfl)

/-- The fields follow the flash when a stored error stops an acknowledgement. -/
theorem Counted.of_ackStop (h : Counted g q m) (hstop : AckStop Faults.failImage q m q' m') :
    Counted g q' m' ∧ q'.next_sequence = q.next_sequence := by
  obtain rfl := h.region
  cases hstop with
  | scan _ => exact ⟨h, rfl⟩
  | state _ hf =>
    cases hf
    exact ⟨h, rfl⟩
  | @reclaim i r _ ho hstop =>
    obtain ⟨k, hv⟩ := hstop.view_eq fun _ _ _ => cutImage_of_failImage
    refine ⟨⟨rfl, ?_⟩, rfl⟩
    rw [Region.depth, hv, depth_reclaimTo, Region.view_retired ho]
    have := depth_retire ho
    have hd := h.depth
    rw [Region.depth] at hd
    dsimp only
    omega

/-- The fields follow the flash when a stored error stops an append. -/
theorem Counted.of_appendStop (h : Counted g q m)
    (hstop : AppendStop Faults.failImage s q m q' m') :
    Counted g q' m'
      ∧ (q'.next_sequence = q.next_sequence ∧ AckStop Faults.failImage q m q' m'
        ∨ q'.next_sequence = q.next_sequence + 1) := by
  have hprep := h.depth_prepared
  have hreg := h.region
  cases hstop with
  | remove _ hack =>
    obtain ⟨hcount, hs⟩ := h.of_ackStop hack
    exact ⟨hcount, .inl ⟨hs, hack⟩⟩
  | search _ => exact ⟨⟨hreg, hprep⟩, .inr rfl⟩
  | @body i _ hf hfail =>
    have ht := cutImage_of_failImage hfail
    rw [Faults.cutImage, q.region.address_toNat (Region.firstErased_lt hf)] at ht
    refine ⟨⟨hreg, hprep.trans ?_⟩, .inr rfl⟩
    subst hreg
    -- a slot spoilt by a torn body was erased before: no record comes or goes
    rcases q.region.view_torn_body ht (Region.view_firstErased hf) with hv | hv
    · rw [Region.depth, Region.depth, hv]
    · rw [Region.depth, Region.depth, hv, depth_spoil_firstErased hf]
  | @commit i _ hf hfail =>
    cases hfail
    refine ⟨⟨hreg, hprep.trans ?_⟩, .inr rfl⟩
    subst hreg
    rw [Region.depth, Region.depth, Region.view_bodied hf, depth_spoil_firstErased hf]
  | @reclaim i _ hf hstop =>
    obtain ⟨k, hv⟩ := hstop.view_eq fun _ _ _ => cutImage_of_failImage
    refine ⟨⟨hreg, ?_⟩, .inr rfl⟩
    subst hreg
    -- the commit counts one more, and reclaiming no less
    rw [Region.depth, hv, depth_reclaimTo, Region.view_written hf, depth_commit_firstErased hf,
      hprep, Region.depth]

/-- **No underflow**: a queue that counts the active records and finds one has counted it. -/
theorem Counted.depth_pos (hq : Counted g q m)
    {i : ℕ} {r : MeasurementRecord} (ho : q.region.oldest m = some (i, r)) : 0 < q.depth := by
  obtain rfl := hq.region
  have hd := hq.depth
  have := Region.depth_removed ho
  omega

/-- **A full queue has a record to discard.** -/
theorem Counted.oldest_of_full (hq : Counted g q m) (hfull : q.depth = q.capacity) :
    ∃ i r, q.region.oldest m = some (i, r) := by
  obtain rfl := hq.region
  have hd := hq.depth
  have hcap : 0 < q.capacity := q.region.capacity_pos
  apply Region.oldest_ne_none
  omega

end Depth

/-! ## Logs -/

section Logs

variable {ε : Type} {g : Region} {v v' v₁ : View MeasurementRecord} {n : ℕ} {full : Prop}
  {r : MeasurementRecord} {m m' : Flash} {q : FlashQueue} {s : Sample}

/-- However `acknowledge_oldest` ends, it leaves one of `AckLeft`. -/
theorem AckEnd.left {o : Result (QueueError ε) FlashQueue (Option MeasurementRecord)}
    (h : AckEnd .storage q m o m') : AckLeft q.region (q.region.view m) (q.region.view m') := by
  cases h with
  | empty ho => exact .same
  | @ok i r ho =>
    rw [Region.reclaimedAll, Region.view_reclaimed, Region.view_retired ho]
    exact .retired ho _
  | failed h => exact h.left fun _ _ _ => cutImage_of_failImage
  | cut h => exact h.left fun _ _ _ => id

/-- However `append` ends, it leaves one of `AppendLeft`. -/
theorem AppendEnd.left {o : Result (QueueError ε) FlashQueue MeasurementRecord}
    (h : AppendEnd .storage s q m o m') :
    AppendLeft q.region (q.depth = q.capacity) (q.region.view m) (q.region.view (q.cleared m))
      (s.record q.next_sequence).stored (q.region.view m') := by
  cases h with
  | @ok i hf =>
    rw [Region.reclaimedAll, Region.view_reclaimed, Region.view_written hf]
    exact .committed hf _
  | full hf => exact .cleared
  | failed h => exact h.left fun _ _ _ => cutImage_of_failImage
  | cut h => exact h.left fun _ _ _ => id

/-- However `recover` ends, it has reclaimed some sectors. -/
theorem RecoverEnd.view_eq {o : Outcome (Except (QueueError ε) (FlashQueue × RecoveryReport))}
    (h : RecoverEnd .storage g m o m') :
    ∃ k, g.view m' = reclaimTo g.layout seqKey (g.view m) k := by
  cases h with
  | ok => exact ⟨_, g.view_reclaimed m _⟩
  | failed h => exact h.view_eq fun _ _ _ => cutImage_of_failImage
  | cut h => exact h.view_eq fun _ _ _ => id

theorem AckLeft.sound (h : AckLeft g v v') (hs : Sound g.layout seqKey v n) :
    Sound g.layout seqKey v' n ∧ SectorLog.depth g.layout v' ≤ SectorLog.depth g.layout v := by
  cases h with
  | same => exact ⟨hs, le_rfl⟩
  | retired ho k =>
    refine ⟨(hs.retire (oldest_spec ho).2.1).reclaimTo, ?_⟩
    rw [depth_reclaimTo]
    have := depth_retire ho
    omega

theorem sound_cleared (hs : q.region.Sound m n) : q.region.Sound (q.cleared m) n := by
  rcases q.view_cleared m with h | ⟨i, r, -, ho, h⟩
  · rwa [Region.Sound, h]
  · rw [Region.Sound, h]
    exact (hs.retire (oldest_spec ho).2.1).reclaimTo

/-- What appending leaves has unique sequences and fits. -/
theorem AppendLeft.sound {cap : ℕ} (h : AppendLeft g full v v₁ r v')
    (hs : Sound g.layout seqKey v n) (hs₁ : Sound g.layout seqKey v₁ n) (hr : seqKey r = n)
    (hd : SectorLog.depth g.layout v ≤ cap) (hd₁ : SectorLog.depth g.layout v₁ + 1 ≤ cap) :
    Sound g.layout seqKey v' (n + 1) ∧ SectorLog.depth g.layout v' ≤ cap := by
  cases h with
  | removing _ h =>
    obtain ⟨hsound, hle⟩ := h.sound hs
    exact ⟨hsound.mono n.le_succ, hle.trans hd⟩
  | cleared => exact ⟨hs₁.mono n.le_succ, by omega⟩
  | @spoiled i hf =>
    refine ⟨hs₁.spoil.mono n.le_succ, ?_⟩
    obtain ⟨hi, hv⟩ := firstErased_spec hf
    rw [depth_spoil hi (by rw [hv]; rfl)]
    omega
  | @committed i hf k =>
    refine ⟨(hs₁.commit hr).reclaimTo, ?_⟩
    obtain ⟨hi, hv⟩ := firstErased_spec hf
    rw [depth_reclaimTo, depth_commit hi (by rw [hv]; rfl)]
    omega

end Logs

/-! ## Steps -/

section Steps

variable {ε : Type} {F F' : Faults} {geo : Geometry} {M M' : Machine} {l : Label ε}

theorem Step.mono (hF : F.Le F') (h : Step F geo M l M') : Step F' geo M l M' := by
  cases h with
  | op op h => exact .op op (h.mono (hF.env ε))
  | recover h => exact .recover (h.mono (hF.env ε))

/-- A record takes the sequence it was given. -/
theorem seqKey_record (s : Sample) (sequence : UInt64) :
    seqKey (s.record sequence).stored = sequence.toNat := rfl

theorem toNat_succ {n : UInt64} (h : n.toNat + 1 < 2 ^ 64) : (n + 1).toNat = n.toNat + 1 := by
  rw [UInt64.toNat_add, UInt64.toNat_one, Nat.mod_eq_of_lt h]

/-- However `append` ends, a queue that is left counts the active records. -/
theorem Counted.append {g : Region} {s : Sample} {q q' : FlashQueue} {m m' : Flash}
    {r : Result (QueueError ε) FlashQueue MeasurementRecord} (hq : Counted g q m)
    (h : AppendEnd .storage s q m r m') (hq' : memory r = some q') : Counted g q' m' := by
  obtain rfl := hq.region
  cases h with
  | @ok i hf =>
    obtain rfl := Option.some.inj hq'
    refine ⟨rfl, ?_⟩
    rw [Region.depth_reclaimedAll, Region.depth, Region.view_written hf,
      depth_commit_firstErased hf, hq.depth_prepared]
    rfl
  | full hf =>
    obtain rfl := Option.some.inj hq'
    exact ⟨rfl, hq.depth_prepared⟩
  | failed hstop =>
    obtain rfl := Option.some.inj hq'
    exact (hq.of_appendStop hstop).1
  | cut _ => cases hq'

/-- The same for `acknowledge_oldest`. -/
theorem Counted.acknowledge_oldest {g : Region} {q q' : FlashQueue} {m m' : Flash}
    {r : Result (QueueError ε) FlashQueue (Option MeasurementRecord)} (hq : Counted g q m)
    (h : AckEnd .storage q m r m') (hq' : memory r = some q') : Counted g q' m' := by
  obtain rfl := hq.region
  cases h with
  | empty ho =>
    obtain rfl := Option.some.inj hq'
    exact hq
  | @ok i record ho =>
    obtain rfl := Option.some.inj hq'
    refine ⟨rfl, ?_⟩
    have := Region.depth_removed ho
    have hd : q.depth = q.region.depth m := hq.depth
    rw [Region.removed_of_some ho] at this
    dsimp only
    omega
  | failed hstop =>
    obtain rfl := Option.some.inj hq'
    exact (hq.of_ackStop hstop).1
  | cut _ => cases hq'

/-- And `recover` counts. -/
theorem Counted.recover {g : Region} {q' : FlashQueue} {m m' : Flash}
    {o : Outcome (Except (QueueError ε) (FlashQueue × RecoveryReport))}
    (h : RecoverEnd .storage g m o m') (hq' : recovered o = some q') : Counted g q' m' := by
  cases h with
  | ok =>
    obtain rfl := Option.some.inj hq'
    exact ⟨rfl, Region.depth_reclaimedAll.symm⟩
  | failed _ => cases hq'
  | cut _ => cases hq'

/-- However a call ends, a queue that is left counts the active records. -/
theorem Counted.op {g : Region} {q q' : FlashQueue} {m m' : Flash} {op : Op}
    {tr : List (Event Prim Flash)} {o : Outcome (Except (QueueError ε) op.Value × FlashQueue)}
    (hq : Counted g q m) (h : Exec (Faults.storage.env ε) (op.proc.prog q) m tr o m')
    (hq' : memory (.of o) = some q') : Counted g q' m' := by
  cases op with
  | append s => exact hq.append (append_ends h) hq'
  | peek_oldest =>
    obtain ⟨rfl, hend⟩ := peek_oldest_ends h
    generalize Result.of o = r at hend hq'
    cases hend with
    | ok => cases hq'; exact hq
    | failed _ => cases hq'; exact hq
    | cut _ => cases hq'
  | acknowledge_oldest => exact hq.acknowledge_oldest (acknowledge_oldest_ends h) hq'

/-- A queue that is up counts the active records after every step, from any image. -/
theorem counted_step
    (hM : ∀ q, M.queue = some q → Counted geo.region q M.flash) (h : Step .storage geo M l M') :
    ∀ q, M'.queue = some q → Counted geo.region q M'.flash := by
  intro q' hq'
  cases h with
  | op op h => exact (hM _ rfl).op h hq'
  | recover h => exact .recover (recover_ends h) hq'

theorem QueueRun.counted {m₀ : Flash} {es : List (Taken Machine (Label ε))} (hF : F.Le .storage)
    (hrun : QueueRun F geo m₀ es M) : ∀ q, M.queue = some q → Counted geo.region q M.flash := by
  refine hrun.invariant (I := fun _ M => ∀ q, M.queue = some q → Counted geo.region q M.flash) ?_
    fun _ _ _ _ hM hs => counted_step hM (hs.mono hF)
  intro q hq
  cases hq

theorem Consistent.append {g : Region} {s : Sample} {q : FlashQueue} {m m' : Flash}
    {r : Result (QueueError ε) FlashQueue MeasurementRecord} (hM : Consistent g ⟨m, some q⟩)
    (hwrap : q.next_sequence.toNat + 1 < 2 ^ 64) (h : AppendEnd .storage s q m r m') :
    Consistent g ⟨m', memory r⟩ := by
  have hq := hM.up q rfl
  obtain rfl := hq.region
  obtain ⟨hs', hd'⟩ := h.left.sound hq.sound (sound_cleared hq.sound) (seqKey_record _ _)
    hM.bounded (hq.room hM.bounded)
  refine ⟨⟨_, hwrap, hs'⟩, hd', fun q' hq' => ⟨hq.toCounted.append h hq', ?_⟩⟩
  have hnext : (q.prepared m).next_sequence.toNat = q.next_sequence.toNat + 1 := toNat_succ hwrap
  cases h with
  | @ok i hf =>
    obtain rfl := Option.some.inj hq'
    rwa [← hnext] at hs'
  | full hf =>
    obtain rfl := Option.some.inj hq'
    exact hnext ▸ hs'
  | failed hstop =>
    obtain rfl := Option.some.inj hq'
    obtain ⟨-, ⟨hseq, hack⟩ | hseq⟩ := hq.of_appendStop hstop
    · rw [hseq]
      exact ((hack.left fun _ _ _ => cutImage_of_failImage).sound hq.sound).1
    · rwa [hseq, toNat_succ hwrap]
  | cut _ => cases hq'

theorem Consistent.acknowledge_oldest {g : Region} {q : FlashQueue} {m m' : Flash}
    {r : Result (QueueError ε) FlashQueue (Option MeasurementRecord)}
    (hM : Consistent g ⟨m, some q⟩) (h : AckEnd .storage q m r m') :
    Consistent g ⟨m', memory r⟩ := by
  have hq := hM.up q rfl
  obtain rfl := hq.region
  obtain ⟨hs', hd'⟩ := h.left.sound hq.sound
  refine ⟨⟨_, q.next_sequence.toNat_lt, hs'⟩, hd'.trans hM.bounded,
    fun q' hq' => ⟨hq.toCounted.acknowledge_oldest h hq', ?_⟩⟩
  cases h with
  | empty ho =>
    obtain rfl := Option.some.inj hq'
    exact hs'
  | @ok i record ho =>
    obtain rfl := Option.some.inj hq'
    exact hs'
  | failed hstop =>
    obtain rfl := Option.some.inj hq'
    obtain ⟨-, hseq⟩ := hq.of_ackStop hstop
    exact hseq ▸ hs'
  | cut _ => cases hq'

theorem Consistent.recover {g : Region} {M : Machine} {m' : Flash}
    {o : Outcome (Except (QueueError ε) (FlashQueue × RecoveryReport))}
    (hM : Consistent g M) (h : RecoverEnd .storage g M.flash o m') :
    Consistent g ⟨m', recovered o⟩ := by
  obtain ⟨n, hn, hs⟩ := hM.sound
  obtain ⟨k, hv⟩ := h.view_eq
  have hs' : g.Sound m' n := by
    rw [Region.Sound, hv]
    exact hs.reclaimTo
  refine ⟨⟨n, hn, hs'⟩, ?_, fun q' hq' => ⟨.recover h hq', ?_⟩⟩
  · rw [Region.depth, hv, depth_reclaimTo]
    exact hM.bounded
  · cases h with
    | ok =>
      obtain rfl := Option.some.inj hq'
      have hmax : ∀ i r, i < g.slot_count → (g.view M.flash i).record? = some r →
          r.sequence.toNat + 1 < 2 ^ 64 := by
        intro i r hi hr
        have := hs.fresh i r (g.layout_slots ▸ hi) hr
        rw [seqKey] at this
        omega
      refine ⟨fun i r hi hr => ?_, hs'.distinct⟩
      rw [Region.reclaimedAll, Region.view_reclaimed] at hr
      exact (Region.isNext_next_sequence hmax).1 i r (g.layout_slots ▸ hi) (record?_of_reclaimTo hr)
    | failed _ => cases hq'
    | cut _ => cases hq'

/-- **Consistency is kept** by every step that does not wrap the sequence counter. -/
theorem Consistent.step (hM : Consistent geo.region M) (hwrap : NoWrap ⟨M, l, M'⟩)
    (h : Step .storage geo M l M') : Consistent geo.region M' := by
  cases h with
  | @op op q m m' tr o h =>
    cases op with
    | append s => exact hM.append (hwrap s _ q rfl rfl) (append_ends h)
    | peek_oldest =>
      obtain ⟨rfl, hend⟩ := peek_oldest_ends h
      generalize Result.of o = r at hend
      refine ⟨hM.sound, hM.bounded, fun q' hq' => ?_⟩
      cases hend with
      | ok =>
        obtain rfl := Option.some.inj hq'
        exact hM.up q rfl
      | failed _ =>
        obtain rfl := Option.some.inj hq'
        exact hM.up q rfl
      | cut _ => cases hq'
    | acknowledge_oldest => exact hM.acknowledge_oldest (acknowledge_oldest_ends h)
  | recover h => exact hM.recover (recover_ends h)

/-- A blank region is consistent before anything was ever written. -/
theorem Consistent.blank {g : Region} {m₀ : Flash} (h : g.Blank m₀) : Consistent g ⟨m₀, none⟩ := by
  have hnone : ∀ i r, i < g.layout.slots → (g.view m₀ i).record? ≠ some r := by
    intro i r hi
    rw [h.view (g.layout_slots ▸ hi)]
    simp
  refine ⟨⟨0, by decide, ⟨fun i r hi hr => absurd hr (hnone i r hi), fun i j r s hi hj hr =>
    absurd hr (hnone i r hi)⟩⟩, ?_, fun q hq => by cases hq⟩
  rw [h.depth]
  exact Nat.zero_le _

/-- **Consistency holds throughout** every run from a blank region on which the
sequence counter does not wrap. -/
theorem QueueRun.consistent {m₀ : Flash} {es : List (Taken Machine (Label ε))}
    (hF : F.Le .storage) (hblank : geo.region.Blank m₀) (h : QueueRun F geo m₀ es M)
    (hwrap : ∀ e ∈ es, NoWrap e) : Consistent geo.region M :=
  h.invariant_of_forall (I := fun _ M => Consistent geo.region M) (Consistent.blank hblank)
    (fun _ _ _ _ hw hM hs => hM.step hw (hs.mono hF)) hwrap

end Steps

end PicoDataLogger
