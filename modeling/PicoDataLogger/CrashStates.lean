/-
What the calls of the queue leave on the flash, as logs.

`QueueSpec` says at which primitive a call can be stopped. Here every such stop
is read through `Region.view`: a torn body, a torn state byte and an erase that
did or did not happen each come out as one of the operations of `SectorLog`. The
result is `AckLeft` and `AppendLeft`, which are short lists, and every proof
about crashes or storage errors is by cases on them.
-/
import PicoDataLogger.Runs
import PicoDataLogger.LiveRecords

set_option autoImplicit false

namespace PicoDataLogger

open Interaction NorFlash SectorLog

/-! ## What an interrupted primitive leaves -/

section Stops

variable {g : Region} {I : Prim → Flash → Flash → Prop} {m m' : Flash} {q q' : FlashQueue}
  {s : Sample}

/-- A reported error leaves nothing a power cut could not leave. -/
theorem cutImage_of_failImage {p : Prim} (h : Faults.failImage p m m') :
    Faults.cutImage p m m' := by
  cases p with
  | read offset len => exact h
  | write offset data =>
    match data, h with
    | [_], h => exact h ▸ Faults.Torn.refl _ _ _
    | [], h => exact h
    | _ :: _ :: _, h => exact h
  | erase first last => exact .inl h

/-- The flash images of an interrupted reclaim, as logs. -/
theorem ReclaimStop.view_eq (hI : ∀ p m m', I p m m' → Faults.cutImage p m m')
    (h : ReclaimStop g I m m') :
    ∃ k, g.view m' = reclaimTo g.layout seqKey (g.view m) k := by
  cases h with
  | @scan k hk h => exact ⟨k, g.view_reclaimed m k⟩
  | @erase k _ hk hr h =>
    rcases hI _ _ _ h with rfl | rfl
    · exact ⟨k, g.view_reclaimed m k⟩
    · refine ⟨k + 1, ?_⟩
      rw [← g.view_reclaimed, Region.reclaimed_succ, if_pos hr, g.sector_address_toNat hk,
        g.sector_end_toNat hk]

/-- What acknowledging leaves of a log when it is stopped: the log, or the log with
its oldest record retired and some sectors reclaimed. -/
inductive AckLeft (g : Region) (v : View MeasurementRecord) : View MeasurementRecord → Prop where
  | same : AckLeft g v v
  | retired {i : ℕ} {r : MeasurementRecord} (ho : SectorLog.oldest g.layout seqKey v = some (i, r))
      (k : ℕ) : AckLeft g v (reclaimTo g.layout seqKey (retire v i r) k)

theorem Region.view_retired {i : ℕ} {r : MeasurementRecord} (ho : g.oldest m = some (i, r)) :
    g.view (g.retired m i) = retire (g.view m) i r :=
  g.view_acknowledged (oldest_spec ho).2.1

theorem AckStop.left (hI : ∀ p m m', I p m m' → Faults.cutImage p m m')
    (h : AckStop I q m q' m') : AckLeft q.region (q.region.view m) (q.region.view m') := by
  cases h with
  | scan h => exact .same
  | @state i r _ ho h =>
    have h := hI _ _ _ h
    rw [Faults.cutImage, q.region.address_toNat (Region.oldest_lt ho)] at h
    rcases q.region.view_torn_acknowledged h (oldest_spec ho).2.1 with hv | hv
    · rw [hv]
      exact .same
    · rw [hv, ← @reclaimTo_zero _ q.region.layout seqKey (retire _ i r)]
      exact .retired ho 0
  | @reclaim i r _ ho h =>
    obtain ⟨k, hv⟩ := h.view_eq hI
    rw [hv, Region.view_retired ho]
    exact .retired ho k

theorem Region.view_firstErased {i : ℕ} (h : g.firstErased m = some i) : g.view m i = .erased :=
  (firstErased_spec h).2

theorem Region.view_bodied {i : ℕ} {record : MeasurementRecord} (hf : g.firstErased m = some i) :
    g.view (g.bodied m i record) = spoil (g.view m) i :=
  g.view_body (Region.view_firstErased hf)

theorem commit_spoil (v : View MeasurementRecord) (i : ℕ) (r : MeasurementRecord) :
    commit (spoil v i) i r = commit v i r :=
  Function.update_idem _ _ _

/-- **Writing a record** into an erased slot commits what will be read back of it. -/
theorem Region.view_written {i : ℕ} {record : MeasurementRecord} (hf : g.firstErased m = some i) :
    g.view (g.written m i record) = commit (g.view m) i record.stored := by
  rw [← commit_spoil, ← Region.view_bodied hf]
  exact g.view_committed (g.slotBytes_body (Region.view_firstErased hf))

/-- What appending leaves of a log when it is stopped, `v` being the log before it and
`v₁` the log once a full queue has made room. -/
inductive AppendLeft (g : Region) (full : Prop) (v v₁ : View MeasurementRecord)
    (r : MeasurementRecord) : View MeasurementRecord → Prop where
  | removing {v' : View MeasurementRecord} (hd : full) (h : AckLeft g v v') :
      AppendLeft g full v v₁ r v'
  | cleared : AppendLeft g full v v₁ r v₁
  | spoiled {i : ℕ} (hf : SectorLog.firstErased g.layout v₁ = some i) :
      AppendLeft g full v v₁ r (spoil v₁ i)
  | committed {i : ℕ} (hf : SectorLog.firstErased g.layout v₁ = some i) (k : ℕ) :
      AppendLeft g full v v₁ r (reclaimTo g.layout seqKey (commit v₁ i r) k)

theorem AppendStop.left (hI : ∀ p m m', I p m m' → Faults.cutImage p m m')
    (h : AppendStop I s q m q' m') :
    AppendLeft q.region (q.depth = q.capacity) (q.region.view m) (q.region.view (q.cleared m))
      (s.record q.next_sequence).stored (q.region.view m') := by
  cases h with
  | remove hd h => exact .removing hd (h.left hI)
  | search h => exact .cleared
  | @body i _ hf h =>
    have h := hI _ _ _ h
    rw [Faults.cutImage, q.region.address_toNat (Region.firstErased_lt hf)] at h
    rcases q.region.view_torn_body h (Region.view_firstErased hf) with hv | hv
    · rw [hv]
      exact .cleared
    · rw [hv]
      exact .spoiled hf
  | @commit i _ hf h =>
    have h := hI _ _ _ h
    rw [Faults.cutImage, q.region.address_toNat (Region.firstErased_lt hf)] at h
    rcases q.region.view_torn_committed h
      (q.region.slotBytes_body (Region.view_firstErased hf)) with ⟨-, hv⟩ | hv
    · rw [hv, Region.view_bodied hf]
      exact .spoiled hf
    · rw [hv, Region.view_bodied hf, commit_spoil,
        ← @reclaimTo_zero _ q.region.layout seqKey (SectorLog.commit _ i _)]
      exact .committed hf 0
  | @reclaim i _ hf h =>
    obtain ⟨k, hv⟩ := h.view_eq hI
    rw [hv, Region.view_written hf]
    exact .committed hf k

theorem Region.removed_of_some {i : ℕ} {r : MeasurementRecord} (ho : g.oldest m = some (i, r)) :
    g.removed m = g.reclaimedAll (g.retired m i) := by
  rw [removed, ho]

/-- The log once a full queue has made room: as it was, or with its oldest record
retired and every sector reclaimed. -/
theorem FlashQueue.view_cleared (q : FlashQueue) (m : Flash) :
    q.region.view (q.cleared m) = q.region.view m
      ∨ ∃ i r, q.depth = q.capacity ∧ q.region.oldest m = some (i, r)
        ∧ q.region.view (q.cleared m)
          = reclaim q.region.layout seqKey (retire (q.region.view m) i r) := by
  rw [cleared]
  split
  · rename_i hd
    cases ho : q.region.oldest m with
    | none => exact .inl (by rw [Region.removed, ho])
    | some b =>
      obtain ⟨i, r⟩ := b
      refine .inr ⟨i, r, hd, rfl, ?_⟩
      rw [Region.removed_of_some ho, Region.reclaimedAll, Region.view_reclaimed,
        Region.view_retired ho]
      rfl
  · exact .inl rfl

end Stops

end PicoDataLogger
