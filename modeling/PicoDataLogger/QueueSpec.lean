/-
What each procedure of the queue does, on any flash and under any faults.

Every procedure gets one lemma, and the lemma says everything: the flash and the
fields it leaves when it succeeds, and, when a primitive reports an error or the
supply goes, at which primitive and on which flash that happened (`AckStop`,
`AppendStop`, `ReclaimStop`). Callers use these lemmas and do not open the
procedures again.
-/
import PicoDataLogger.ReclaimSpec

set_option autoImplicit false

namespace PicoDataLogger

open Interaction NorFlash SectorLog

/-! ## Acknowledging -/

section Acknowledge

variable {ε : Type} {F : Faults} {G : Prim → Flash → Flash → Prop} {q : FlashQueue} {m : Flash}

/-- Where `acknowledge_oldest` can be stopped, and the fields and the flash it leaves:
in the scan, at the state byte, or in the reclaiming after it. -/
inductive AckStop (I : Prim → Flash → Flash → Prop) (q : FlashQueue) (m : Flash) :
    FlashQueue → Flash → Prop where
  | scan (h : ScanStop q.region I m) : AckStop I q m q m
  | state {i : ℕ} {record : MeasurementRecord} {m' : Flash}
      (ho : q.region.oldest m = some (i, record))
      (h : I (.write (q.region.address i) [ACKNOWLEDGED]) m m') : AckStop I q m q m'
  | reclaim {i : ℕ} {record : MeasurementRecord} {m' : Flash}
      (ho : q.region.oldest m = some (i, record))
      (h : ReclaimStop q.region I (q.region.retired m i) m') :
      AckStop I q m { q with depth := q.depth - 1 } m'

/-- Where nothing can stop a primitive, nothing stops acknowledging. -/
theorem AckStop.not_none {I : Prim → Flash → Flash → Prop} (hI : ∀ p m m', ¬ I p m m')
    {q' : FlashQueue} {m' : Flash} : ¬ AckStop I q m q' m'
  | .scan ⟨_, _, h⟩ => hI _ _ _ h
  | .state _ h => hI _ _ _ h
  | .reclaim _ h => ReclaimStop.not_none hI h

/-- The oldest record is in a slot of the region. -/
theorem Region.oldest_lt {g : Region} {i : ℕ} {record : MeasurementRecord}
    (h : g.oldest m = some (i, record)) : i < g.slot_count :=
  g.layout_slots ▸ (firstMin_eq_some_iff.mp h).lt

theorem Region.firstErased_lt {g : Region} {i : ℕ} (h : g.firstErased m = some i) :
    i < g.slot_count :=
  g.layout_slots ▸ (firstErased_spec h).1

theorem write_state_wp {i : ℕ} (hi : i < q.region.slot_count) {state : UInt8}
    (hG : ∀ m', G (.write (q.region.address i) [state]) m m')
    {Q : Result (QueueError ε) FlashQueue Unit → Flash → Prop}
    (hok : Q (.ok () q) (m.program (q.region.slotAddr i) [state]))
    (herr : ∀ c m', F.fail (.write (q.region.address i) [state]) m m' → Q (.error (.storage c) q) m')
    (hcut : ∀ m', F.cut (.write (q.region.address i) [state]) m m' → Q .cut m') :
    Proc.wp (F.env ε) G (write_state i state) Q q m := by
  rw [write_state, Proc.wp_bind, Proc.wp_get]
  exact wp_write hG (by rwa [q.region.address_toNat hi]) herr hcut

/-- **Acknowledging** retires the oldest record and reclaims; on an empty queue it does nothing. -/
theorem acknowledge_oldest_wp (hG : ∀ p m₁ m₂, Quiet q.region m₁ p → G p m₁ m₂)
    (hack : ∀ i record m', q.region.oldest m = some (i, record) →
      G (.write (q.region.address i) [ACKNOWLEDGED]) m m')
    {Q : Result (QueueError ε) FlashQueue (Option MeasurementRecord) → Flash → Prop}
    (hnone : q.region.oldest m = none → Q (.ok none q) m)
    (hsome : ∀ i record, q.region.oldest m = some (i, record) →
      Q (.ok (some record) { q with depth := q.depth - 1 })
        (q.region.reclaimedAll (q.region.retired m i)))
    (herr : ∀ c q' m', AckStop F.fail q m q' m' → Q (.error (.storage c) q') m')
    (hcut : ∀ q' m', AckStop F.cut q m q' m' → Q .cut m') :
    Proc.wp (F.env ε) G acknowledge_oldest Q q m := by
  refine (find_oldest_scans fun p m' => hG p m m').wp_bind ?_
    (by rintro _ ⟨⟨c, rfl⟩, h⟩; exact herr c q m (.scan h)) fun h => hcut q m (.scan h)
  cases ho : q.region.oldest m with
  | none => exact hnone ho
  | some b =>
    obtain ⟨i, record⟩ := b
    -- the state byte first, the field next, the sectors last
    dsimp only
    rw [Proc.wp_bind]
    refine write_state_wp (Region.oldest_lt ho) (fun m' => hack i record m' ho) ?_
      (fun c m' h => herr c q m' (.state ho h)) fun m' h => hcut q m' (.state ho h)
    dsimp only
    rw [Proc.wp_bind, Proc.wp_modify]
    dsimp only
    rw [Proc.wp_bind]
    refine reclaim_wp { q with depth := q.depth - 1 } hG ?_ ?_ ?_
    · exact hsome i record ho
    · exact fun c m' h => herr c _ m' (.reclaim ho h)
    · exact fun m' h => hcut _ m' (.reclaim ho h)

end Acknowledge

section Append

variable {ε : Type} {F : Faults} {G : Prim → Flash → Flash → Prop} {q : FlashQueue} {m : Flash}
  {s : Sample}

/-- The flash after `remove_oldest`. -/
def Region.removed (g : Region) (m : Flash) : Flash :=
  match g.oldest m with
  | some (i, _) => g.reclaimedAll (g.retired m i)
  | none => m

namespace FlashQueue

/-- The fields when `append` looks for a slot: the oldest record is gone if the queue was full,
and the sequence is spent. -/
def prepared (q : FlashQueue) (m : Flash) : FlashQueue :=
  { q with
    depth := if q.depth = q.capacity ∧ (q.region.oldest m).isSome then q.depth - 1 else q.depth
    dropped := if q.depth = q.capacity then saturating_add q.dropped 1 else q.dropped
    next_sequence := q.next_sequence + 1 }

/-- The flash when `append` looks for a slot. -/
def cleared (q : FlashQueue) (m : Flash) : Flash :=
  if q.depth = q.capacity then q.region.removed m else m

end FlashQueue

/-- Where `append` can be stopped, and the fields and the flash it leaves: in the
removal of the oldest record, in the search, at the body, at the commit, or in
the reclaiming at the end. -/
inductive AppendStop (I : Prim → Flash → Flash → Prop) (s : Sample) (q : FlashQueue) (m : Flash) :
    FlashQueue → Flash → Prop where
  | remove {q' : FlashQueue} {m' : Flash} (hd : q.depth = q.capacity) (h : AckStop I q m q' m') :
      AppendStop I s q m q' m'
  | search (h : ScanStop q.region I (q.cleared m)) :
      AppendStop I s q m (q.prepared m) (q.cleared m)
  | body {i : ℕ} {m' : Flash} (hf : q.region.firstErased (q.cleared m) = some i)
      (h : I (.write (q.region.address i) (record_body (s.record q.next_sequence)).toList)
        (q.cleared m) m') : AppendStop I s q m (q.prepared m) m'
  | commit {i : ℕ} {m' : Flash} (hf : q.region.firstErased (q.cleared m) = some i)
      (h : I (.write (q.region.address i) [COMMITTED])
        (q.region.bodied (q.cleared m) i (s.record q.next_sequence)) m') :
      AppendStop I s q m (q.prepared m) m'
  | reclaim {i : ℕ} {m' : Flash} (hf : q.region.firstErased (q.cleared m) = some i)
      (h : ReclaimStop q.region I
        (q.region.written (q.cleared m) i (s.record q.next_sequence)) m') :
      AppendStop I s q m { q.prepared m with depth := (q.prepared m).depth + 1 } m'

/-- Where nothing can stop a primitive, nothing stops appending. -/
theorem AppendStop.not_none {I : Prim → Flash → Flash → Prop} (hI : ∀ p m m', ¬ I p m m')
    {q' : FlashQueue} {m' : Flash} : ¬ AppendStop I s q m q' m'
  | .remove _ h => AckStop.not_none hI h
  | .search ⟨_, _, h⟩ => hI _ _ _ h
  | .body _ h => hI _ _ _ h
  | .commit _ h => hI _ _ _ h
  | .reclaim _ h => ReclaimStop.not_none hI h

theorem write_record_wp (hG : ∀ p m₁ m₂, Quiet q.region m₁ p → G p m₁ m₂) {i : ℕ}
    (hi : q.region.firstErased m = some i) {record : MeasurementRecord}
    (hcommit : ∀ m', G (.write (q.region.address i) [COMMITTED]) (q.region.bodied m i record) m')
    {Q : Result (QueueError ε) FlashQueue Unit → Flash → Prop}
    (hok : Q (.ok () q) (q.region.written m i record))
    (hbodyErr : ∀ c m', F.fail (.write (q.region.address i) (record_body record).toList) m m' →
      Q (.error (.storage c) q) m')
    (hbodyCut : ∀ m', F.cut (.write (q.region.address i) (record_body record).toList) m m' → Q .cut m')
    (hcommitErr : ∀ c m', F.fail (.write (q.region.address i) [COMMITTED])
      (q.region.bodied m i record) m' → Q (.error (.storage c) q) m')
    (hcommitCut : ∀ m', F.cut (.write (q.region.address i) [COMMITTED])
      (q.region.bodied m i record) m' → Q .cut m') :
    Proc.wp (F.env ε) G (write_record i record) Q q m := by
  have hlt := Region.firstErased_lt hi
  rw [write_record, Proc.wp_bind, Proc.wp_get]
  dsimp only
  rw [Proc.wp_bind]
  refine wp_write (fun m' => hG _ _ _ (.body hi)) ?_ hbodyErr hbodyCut
  rw [q.region.address_toNat hlt]
  exact write_state_wp hlt hcommit hok hcommitErr hcommitCut

/-- **Appending**: make room in a full queue, spend a sequence, write the record to the first
erased slot, count it, and reclaim. -/
theorem append_wp (hG : ∀ p m₁ m₂, Quiet q.region m₁ p → G p m₁ m₂)
    (hack : q.depth = q.capacity → ∀ i record m', q.region.oldest m = some (i, record) →
      G (.write (q.region.address i) [ACKNOWLEDGED]) m m')
    (hcommit : ∀ i m', q.region.firstErased (q.cleared m) = some i →
      G (.write (q.region.address i) [COMMITTED])
        (q.region.bodied (q.cleared m) i (s.record q.next_sequence)) m')
    {Q : Result (QueueError ε) FlashQueue MeasurementRecord → Flash → Prop}
    (hok : ∀ i, q.region.firstErased (q.cleared m) = some i →
      Q (.ok (s.record q.next_sequence) { q.prepared m with depth := (q.prepared m).depth + 1 })
        (q.region.reclaimedAll
          (q.region.written (q.cleared m) i (s.record q.next_sequence))))
    (hfull : q.region.firstErased (q.cleared m) = none →
      Q (.error .invalidGeometry (q.prepared m)) (q.cleared m))
    (herr : ∀ c q' m', AppendStop F.fail s q m q' m' → Q (.error (.storage c) q') m')
    (hcut : ∀ q' m', AppendStop F.cut s q m q' m' → Q .cut m') :
    Proc.wp (F.env ε) G (append s) Q q m := by
  rw [append, Proc.wp_bind, Proc.wp_get]
  change Proc.wp _ _ _ _ _ _
  extract_lets finish
  -- everything after the removal, from fields that only lack the sequence step
  have hfinish : ∀ q₁ : FlashQueue, q₁.next_sequence = q.next_sequence →
      { q₁ with next_sequence := q₁.next_sequence + 1 } = q.prepared m →
      Proc.wp (F.env ε) G (finish ⟨⟩) Q q₁ (q.cleared m) := by
    intro q₁ hseq hq
    change Proc.wp _ _ (get >>= _) _ _ _
    rw [Proc.wp_bind, Proc.wp_get]
    change Proc.wp _ _ (modify _ >>= _) _ _ _
    rw [Proc.wp_bind, Proc.wp_modify, hq, hseq]
    dsimp only
    have hscan : Scans F G (find_erased_slot : QueueM ε _) (q.prepared m) (q.cleared m)
        (q.region.firstErased (q.cleared m)) := find_erased_slot_scans fun p m' => hG p _ m'
    refine hscan.wp_bind ?_ (by rintro _ ⟨⟨c, rfl⟩, h⟩; exact herr c _ _ (.search h)) fun h => hcut _ _ (.search h)
    cases hf : q.region.firstErased (q.cleared m) with
    | none => exact hfull hf
    | some i =>
      change Proc.wp _ _ (write_record i _ >>= _) _ _ _
      rw [Proc.wp_bind]
      have hG' : ∀ p m₁ m₂, Quiet (q.prepared m).region m₁ p → G p m₁ m₂ := hG
      refine write_record_wp hG' hf (fun m' => hcommit i m' hf) ?_
        (fun c m' h => herr c _ _ (.body hf h)) (fun m' h => hcut _ _ (.body hf h))
        (fun c m' h => herr c _ _ (.commit hf h)) fun m' h => hcut _ _ (.commit hf h)
      change Proc.wp _ _ (modify _ >>= _) _ _ _
      rw [Proc.wp_bind, Proc.wp_modify]
      dsimp only
      rw [Proc.wp_bind]
      refine reclaim_wp { q.prepared m with depth := (q.prepared m).depth + 1 } hG ?_ ?_ ?_
      · exact hok i hf
      · exact fun c m' h => herr c _ m' (.reclaim hf h)
      · exact fun m' h => hcut _ m' (.reclaim hf h)
  -- a full queue pays with its oldest record, any other goes straight to the search
  by_cases hd : q.depth = q.capacity
  · have hm : q.cleared m = q.region.removed m := if_pos hd
    rw [if_pos hd, Proc.wp_bind, remove_oldest, Proc.wp_bind]
    refine acknowledge_oldest_wp hG (hack hd) ?_ ?_ (fun c _ _ h => herr c _ _ (.remove hd h))
      fun _ _ h => hcut _ _ (.remove hd h)
    -- nothing to remove: the drop is counted all the same, and the depth stays
    · intro ho
      change Proc.wp _ _ (modify _ >>= _) _ _ _
      rw [Proc.wp_bind, Proc.wp_modify]
      have := hfinish { q with dropped := saturating_add q.dropped 1 } rfl
        (by simp [FlashQueue.prepared, hd, ho])
      rwa [hm, Region.removed, ho] at this
    · intro i record ho
      change Proc.wp _ _ (modify _ >>= _) _ _ _
      rw [Proc.wp_bind, Proc.wp_modify]
      have := hfinish { q with depth := q.depth - 1, dropped := saturating_add q.dropped 1 } rfl
        (by simp [FlashQueue.prepared, hd, ho])
      rwa [hm, Region.removed, ho] at this
  · have hm : q.cleared m = m := if_neg hd
    rw [if_neg hd, ← hm]
    exact hfinish q rfl (by simp [FlashQueue.prepared, hd])

end Append

/-! ## Recovery -/

section Recover

variable {ε : Type} {F : Faults} {G : Prim → Flash → Flash → Prop} {q : FlashQueue} {m : Flash}

namespace Region

variable (g : Region) (m : Flash)

/-- The number of active records. -/
def depth : ℕ := SectorLog.depth g.layout (g.view m)

/-- A slot that `recover` reports as corrupt. -/
def isCorrupt : Slot → Bool
  | .corrupt => true
  | .acknowledged none => true
  | _ => false

/-- The number of slots `recover` reports as corrupt. -/
def corrupt_records : ℕ := Nat.count (fun i => isCorrupt (g.view m i) = true) g.slot_count

/-- The sequence `recover` goes on from. -/
def next_sequence : UInt64 := (g.newest m).elim 0 fun b => b.2.sequence + 1

/-- The report of `recover`. -/
def report : RecoveryReport where
  depth := g.depth m
  corrupt_records := g.corrupt_records m
  next_sequence := g.next_sequence m

/-- The queue `recover` returns. -/
def recovered : FlashQueue where
  region := g
  depth := g.depth m
  next_sequence := g.next_sequence m
  dropped := 0

end Region

/-- The greatest sequence of the slots scanned so far, one slot more. -/
theorem max_sequence_pick (v : View MeasurementRecord) (b : Option (ℕ × MeasurementRecord)) (i : ℕ) :
    (pick (fun r => OrderDual.toDual (seqKey r)) (fun i => (v i).record?) b i).map (·.2.sequence)
      = match (v i).record? with
        | none => b.map (·.2.sequence)
        | some r => some ((b.map (·.2.sequence)).elim r.sequence (max · r.sequence)) := by
  rw [pick]
  cases (v i).record? with
  | none => rfl
  | some r =>
    cases b with
    | none => rfl
    | some b =>
      simp only [Option.all_some, OrderDual.toDual_lt_toDual, seqKey, ← UInt64.lt_iff_toNat_lt,
        Option.map_some, Option.elim_some]
      rw [show max b.2.sequence r.sequence
        = if b.2.sequence ≤ r.sequence then r.sequence else b.2.sequence from rfl]
      -- `pick` keeps the earlier of two equals, `max` the later: one sequence either way
      rcases lt_trichotomy b.2.sequence.toNat r.sequence.toNat with h | h | h
      · rw [if_pos (by simpa [UInt64.lt_iff_toNat_lt] using h),
          if_pos (UInt64.le_iff_toNat_le.mpr h.le), Option.map_some]
      · rw [if_neg (by simp [UInt64.lt_iff_toNat_lt, h]),
          if_pos (UInt64.le_iff_toNat_le.mpr h.le), Option.map_some, UInt64.toNat_inj.mp h]
      · rw [if_neg (by simpa [UInt64.lt_iff_toNat_lt] using h.le),
          if_neg (by simpa [UInt64.le_iff_toNat_le] using h), Option.map_some]

/-- **Recovery** counts, finds the sequence to go on from, and reclaims. -/
theorem recover_scan_wp (g : Region) (hG : ∀ p m₁ m₂, Quiet g m₁ p → G p m₁ m₂)
    {Q : Result (QueueError ε) FlashQueue RecoveryReport → Flash → Prop}
    (hok : Q (.ok (g.report m) (g.recovered m)) (g.reclaimedAll m))
    (herr : ∀ c q' m', ReclaimStop g F.fail m m' → Q (.error (.storage c) q') m')
    (hcut : ∀ m', ReclaimStop g F.cut m m' → Q .cut m') :
    Proc.wp (F.env ε) G recover_scan Q (FlashQueue.new g) m := by
  have hscan : ∀ (q' : FlashQueue) e, (∃ c, e = QueueError.storage c) ∧ ScanStop g F.fail m →
        Q (.error e q') m := by
    rintro q' _ ⟨⟨c, rfl⟩, h⟩
    exact herr c q' _ (.scan (Nat.zero_le _) h)
  have hstop : ScanStop g F.cut m → Q .cut m := fun h => hcut _ (.scan (Nat.zero_le _) h)
  rw [recover_scan, Proc.wp_bind, Proc.wp_get]
  change Proc.wp _ _ _ _ _ _
  extract_lets corrupt_records₀ max_sequence₀
  rw [Proc.wp_bind]
  -- after `k` slots: the flash is as it was, the fields are those of a count so far
  refine Proc.wp_forIn (fun k acc q' m' => m' = m
      ∧ q' = { FlashQueue.new g with
          depth := Nat.count (fun i => ((g.view m i).active?).isSome = true) k }
      ∧ acc.1 = Nat.count (fun i => Region.isCorrupt (g.view m i) = true) k
      ∧ acc.2 = (firstMin (fun r => OrderDual.toDual (seqKey r))
          (fun i => (g.view m i).record?) k).map (·.2.sequence)) ?_ ?_ ⟨rfl, rfl, rfl, rfl⟩
  · rintro k hk acc q' m' ⟨rfl, rfl, hc, hm⟩
    have hk : k < g.slot_count := by rwa [List.length_range] at hk
    rw [List.getElem_range]
    change Proc.wp _ _ (read_slot k >>= _) _ _ _
    have hread : Scans F G (read_slot k : QueueM ε Slot)
        { FlashQueue.new g with
          depth := Nat.count (fun i => ((g.view m' i).active?).isSome = true) k } m' (g.view m' k) :=
      read_slot_scans (fun p => hG p m') hk
    refine hread.wp_bind ?_ (hscan _) hstop
    rw [Nat.count_succ, Nat.count_succ, firstMin_succ, max_sequence_pick, ← hc, ← hm]
    -- the slot's kind decides which of the three counts moves; each agrees with its spec
    rcases g.view m' k with _ | r | (_ | r) | _
    · exact ⟨rfl, rfl, rfl, rfl⟩
    · exact ⟨rfl, rfl, rfl, rfl⟩
    · exact ⟨rfl, rfl, rfl, rfl⟩
    · exact ⟨rfl, rfl, rfl, rfl⟩
    · exact ⟨rfl, rfl, rfl, rfl⟩
  · rintro acc q' m' ⟨rfl, rfl, hc, hm⟩
    rw [List.length_range] at hc hm
    change Proc.wp _ _ _ _ _ _
    extract_lets corrupt_records max_sequence next_sequence
    -- an empty queue starts at zero, any other one past the greatest sequence
    have hn : next_sequence = g.next_sequence m' := by
      change acc.2.elim 0 (· + 1) = _
      rw [hm, Region.next_sequence, Region.newest, SectorLog.newest, g.layout_slots]
      exact Option.elim_map _
    have hd : Nat.count (fun i => ((g.view m' i).active?).isSome = true) g.slot_count
        = g.depth m' := by
      rw [Region.depth, SectorLog.depth, g.layout_slots]
    rw [Proc.wp_bind, Proc.wp_modify, List.length_range]
    dsimp only
    rw [Proc.wp_bind]
    refine reclaim_wp { FlashQueue.new g with
        depth := Nat.count (fun i => ((g.view m' i).active?).isSome = true) g.slot_count
        next_sequence := next_sequence } hG ?_ ?_ ?_
    · dsimp only
      rw [Proc.wp_bind, Proc.wp_get]
      dsimp only
      rw [Proc.wp_pure, hn, hd, show corrupt_records = g.corrupt_records m' from hc]
      exact hok
    · exact fun c m'' h => herr c _ m'' h
    · exact fun m'' h => hcut m'' h

/-- The same for `recover`, on a geometry it accepts. -/
theorem recover_wp {part : Part} {start length : UInt32}
    (h : ¬ invalid_geometry part start length)
    (hG : ∀ p m₁ m₂, Quiet (Region.of_valid h) m₁ p → G p m₁ m₂)
    {Q : Outcome (Except (QueueError ε) (FlashQueue × RecoveryReport)) → Flash → Prop}
    (hok : Q (.done (.ok ((Region.of_valid h).recovered m, (Region.of_valid h).report m)))
      ((Region.of_valid h).reclaimedAll m))
    (herr : ∀ c m', ReclaimStop (Region.of_valid h) F.fail m m' →
      Q (.done (.error (.storage c))) m')
    (hcut : ∀ m', ReclaimStop (Region.of_valid h) F.cut m m' → Q .cut m') :
    (recover part start length).wp (F.env ε) G Q m := by
  have hscan : Proc.wp (F.env ε) G recover_scan (fun o m' => match o with
      | .ok report q => Q (.done (.ok (q, report))) m'
      | .error e _ => Q (.done (.error e)) m'
      | .cut => Q .cut m') (FlashQueue.new (Region.of_valid h)) m :=
    recover_scan_wp (Region.of_valid h) hG hok (fun c _ => herr c) hcut
  rw [recover, dif_neg h, Prog.wp_bind]
  refine Prog.wp_mono hscan (fun _ _ _ hg => hg) ?_
  rintro (⟨a | a, q⟩ | _) m' h'
  · exact h'
  · exact h'
  · exact h'

end Recover

end PicoDataLogger
