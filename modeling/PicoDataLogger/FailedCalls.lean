/-
The calls of the queue on a flash part one of whose primitives fails.

Each procedure gets one `Ticks` lemma: how many primitives it issues, what it
leaves when none fails, and what it leaves when number `k` fails. Beside the
flash keeps a turnover of the slots that became active and of those that ceased to
be.
-/
import PicoDataLogger.Replay
import PicoDataLogger.SingleFault

set_option autoImplicit false

namespace PicoDataLogger

open Interaction NorFlash SectorLog

-- so that no unification evaluates a record's bytes
attribute [local irreducible] record_body

/-! ## The turnover -/

/-- How many slots became active, and how many ceased to be. -/
structure Turnover where
  gained : ℕ
  lost : ℕ

namespace Region

variable (g : Region) {m m' : Flash} {i : ℕ} {c : Slot} {l : Turnover}

/-- The number of slots that were active on `m` and do not hold that record on `m'`. -/
def lost (m m' : Flash) : ℕ :=
  Nat.count (fun i => ((g.view m i).active?).isSome ∧ (g.view m' i).active? ≠ (g.view m i).active?)
    g.slot_count

/-- What a primitive that turns `m` into `m'` adds to the turnover. -/
def enter (m m' : Flash) (l : Turnover) : Turnover where
  gained := l.gained + g.lost m' m
  lost := l.lost + g.lost m m'

theorem lost_of_congr (h : ∀ i < g.slot_count, (g.view m' i).active? = (g.view m i).active?) :
    g.lost m m' = 0 :=
  Nat.count_of_forall_not fun i hi hne => hne.2 (h i hi)

theorem lost_update (hi : i < g.slot_count) (hv : g.view m' = Function.update (g.view m) i c) :
    g.lost m m' = if (g.view m i).active?.isSome ∧ c.active? ≠ (g.view m i).active? then 1 else 0 := by
  have hcount := count_update (fun j => ((g.view m j).active?).isSome
    ∧ (g.view m' j).active? ≠ (g.view m j).active?) (fun _ => False) hi fun j hj => by
      rw [hv, Function.update_of_ne hj]
      simp
  rw [Nat.count_of_forall_not fun _ _ h => h] at hcount
  simp only [hv, Function.update_self] at hcount
  rw [lost, hv]
  simpa using hcount

/-- What changes no active slot is not entered. -/
theorem enter_of_congr (h : ∀ i < g.slot_count, (g.view m' i).active? = (g.view m i).active?) :
    g.enter m m' l = l := by
  rw [enter, g.lost_of_congr h, g.lost_of_congr fun i hi => (h i hi).symm]
  rfl

/-- One slot changes. -/
theorem enter_update (hi : i < g.slot_count) (hv : g.view m' = Function.update (g.view m) i c) :
    g.enter m m' l =
      { gained := l.gained
          + if c.active?.isSome ∧ (g.view m i).active? ≠ c.active? then 1 else 0
        lost := l.lost
          + if (g.view m i).active?.isSome ∧ c.active? ≠ (g.view m i).active? then 1 else 0 } := by
  have hback : g.view m = Function.update (g.view m') i (g.view m i) := by
    rw [hv, Function.update_idem, Function.update_eq_self]
  rw [enter, g.lost_update hi hv, g.lost_update hi hback, hv, Function.update_self]

end Region

/-- One slot more became active. -/
def Turnover.gain (l : Turnover) : Turnover := { l with gained := l.gained + 1 }

/-- One slot more ceased to be active. -/
def Turnover.lose (l : Turnover) : Turnover := { l with lost := l.lost + 1 }

namespace Region

variable (g : Region) {m : Flash} {i k : ℕ} {r : MeasurementRecord} {l : Turnover}

theorem enter_retired (ho : g.oldest m = some (i, r)) : g.enter m (g.retired m i) l = l.lose := by
  rw [g.enter_update (oldest_lt ho) (view_retired ho), (oldest_spec ho).2.1]
  rfl

theorem enter_bodied (hf : g.firstErased m = some i) : g.enter m (g.bodied m i r) l = l := by
  rw [g.enter_update (firstErased_lt hf) (view_bodied hf), view_firstErased hf]
  rfl

theorem enter_written (hf : g.firstErased m = some i) :
    g.enter (g.bodied m i r) (g.written m i r) l = l.gain := by
  have hv : g.view (g.written m i r)
      = Function.update (g.view (g.bodied m i r)) i (.active r.stored) := by
    rw [view_written hf, view_bodied hf, spoil, Function.update_idem]
    rfl
  rw [g.enter_update (firstErased_lt hf) hv, view_bodied hf, spoil, Function.update_self]
  rfl

/-- Reclaiming a sector ends no record. -/
theorem enter_reclaimed (m : Flash) (k : ℕ) (l : Turnover) :
    g.enter (g.reclaimed m k) (g.reclaimed m (k + 1)) l = l :=
  g.enter_of_congr fun i _ => by
    rw [view_reclaimed, view_reclaimed, active?_reclaimTo, active?_reclaimTo]

/-- The number of primitives `reclaim_inactive_sectors` issues: two scans, and an erase for every
sector it can have back. -/
def reclaimCost (m : Flash) : ℕ := 2 * g.slot_count + Nat.count (g.Reclaimable m) g.sector_count

end Region

/-! ## Procedures -/

section Ticks

variable {ε α β : Type} {e : ε} {q : FlashQueue} {m : Flash} {l : Turnover} {n : ℕ}
  {S : ℕ → FlashQueue → Flash × Turnover → Prop}

/-- What a procedure does on flash with a turnover, of which one primitive may report `e`. -/
abbrev Ticks (g : Region) (e : ε) (x : QueueM ε α) (q : FlashQueue) (b : Flash × Turnover) (n : ℕ)
    (r : Except (QueueError ε) α) (q' : FlashQueue) (b' : Flash × Turnover)
    (S : ℕ → FlashQueue → Flash × Turnover → Prop) : Prop :=
  Proc.Timed (audited g.enter NorFlash.step) QueueError.storage e x q b n r q' b' S

theorem Looks.ticks {x : QueueM ε α} {slots : List ℕ} {a : α} (h : Looks x q m slots a)
    (hn : slots.length = n) (hS : ∀ k < n, S k q (m, l)) :
    Ticks q.region e x q (m, l) n (.ok a) q (m, l) S := by
  have := Proc.Looks.timed (e := e) (h.audited (q.region.enter_of_congr (l := l) fun _ _ => rfl))
    (S := S) (by simpa [hn] using hS)
  rwa [Region.length_reads, hn] at this

/-- One primitive that is no look. -/
theorem ask_ticks {g : Region} {p : Prim} {a : p.Reply} {m' : Flash} {l' : Turnover}
    (hstep : (NorFlash.step p m : p.Answer ε × Flash) = (.ok a, m')) (hl : g.enter m m' l = l')
    (hS : S 0 q (m, l)) :
    Ticks g e (ask QueueError.storage p) q (m, l) 1 (.ok a) q (m', l') S := by
  have hp : audited g.enter (NorFlash.step (ε := ε)) p (m, l) = (.ok a, (m', l')) := by
    rw [audited, hstep, hl]
  constructor
  · rintro (_ | _ | k) hf
    · simp only [Proc.prog, ExceptT.run, StateT.run, ask, Prog.run, failing, hp, Option.map_none]
    · exact absurd (hf 0 rfl) (by decide)
    · simp only [Proc.prog, ExceptT.run, StateT.run, ask, Prog.run, failing, hp, Option.map_some,
        Nat.add_sub_cancel]
  · intro k hk
    obtain rfl := Nat.lt_one_iff.mp hk
    exact ⟨q, (m, l), rfl, hS⟩

theorem write_ticks {g : Region} {offset : UInt32} {data : List UInt8} {l' : Turnover}
    (hl : g.enter m (m.program offset.toNat data) l = l') (hS : S 0 q (m, l)) :
    Ticks g e (write QueueError.storage offset data) q (m, l) 1 (.ok ()) q
      (m.program offset.toNat data, l') S :=
  ask_ticks rfl hl hS

theorem erase_ticks {g : Region} {first last : UInt32} {l' : Turnover}
    (hl : g.enter m (m.eraseRange first.toNat last.toNat) l = l') (hS : S 0 q (m, l)) :
    Ticks g e (erase QueueError.storage first last) q (m, l) 1 (.ok ()) q
      (m.eraseRange first.toNat last.toNat, l') S :=
  ask_ticks rfl hl hS

theorem write_state_ticks {i : ℕ} (hi : i < q.region.slot_count) {state : UInt8} {l' : Turnover}
    (hl : q.region.enter m (m.program (q.region.slotAddr i) [state]) l = l') (hS : S 0 q (m, l)) :
    Ticks q.region e (write_state i state) q (m, l) 1 (.ok ()) q
      (m.program (q.region.slotAddr i) [state], l') S := by
  rw [← q.region.address_toNat hi] at hl ⊢
  exact (write_ticks hl hS).get_bind

/-- One round of the reclaim loop, once its test is known to be `Reclaimable`. -/
theorem reclaim_sector_ticks {k : ℕ} (hk : k < q.region.sector_count) {test : Bool}
    (htest : test = true ↔ q.region.Reclaimable m k) (hS : S 0 q (q.region.reclaimed m k, l)) :
    Ticks q.region e (if test = true then do
        erase .storage (q.region.sector_address k)
          (q.region.sector_address k + UInt32.ofNat ERASE_SIZE)
        pure (.yield ⟨⟩)
      else pure (.yield ⟨⟩) : QueueM ε (ForInStep PUnit)) q (q.region.reclaimed m k, l)
      (if q.region.Reclaimable m k then 1 else 0) (.ok (.yield ⟨⟩)) q
      (q.region.reclaimed m (k + 1), l) S := by
  have hsucc := q.region.reclaimed_succ m k
  cases test with
  -- the sector stays: nothing is issued, and the next stage is this one
  | false =>
    have hr : ¬ q.region.Reclaimable m k := fun hr => Bool.false_ne_true (htest.mpr hr)
    rw [if_neg hr] at hsucc ⊢
    rw [hsucc]
    exact Proc.timed_pure _
  | true =>
    have hr : q.region.Reclaimable m k := htest.mp rfl
    rw [if_pos hr] at hsucc ⊢
    -- the erase is the one that turns stage `k` into stage `k + 1`
    have henter := q.region.enter_reclaimed m k l
    rw [hsucc, ← q.region.sector_end_toNat hk, ← q.region.sector_address_toNat hk] at henter
    rw [if_pos rfl, hsucc, ← q.region.sector_end_toNat hk, ← q.region.sector_address_toNat hk]
    exact (erase_ticks henter hS).bind_end rfl

theorem sum_cost (p : ℕ → Prop) [DecidablePred p] (c n : ℕ) :
    ((List.range n).map fun k => c + if p k then 1 else 0).sum = n * c + Nat.count p n := by
  induction n with
  | zero => simp
  | succ n ih =>
    rw [List.range_succ, List.map_append, List.sum_append, ih, Nat.count_succ, Nat.succ_mul]
    simp only [List.map_cons, List.map_nil, List.sum_cons, List.sum_nil]
    omega

/-- Some of the sectors have been reclaimed, and nothing else has happened. -/
def PartlyReclaimed (q : FlashQueue) (m : Flash) (l : Turnover) (q' : FlashQueue)
    (b : Flash × Turnover) : Prop :=
  q' = q ∧ ∃ j ≤ q.region.sector_count, b = (q.region.reclaimed m j, l)

/-- **Reclaiming** with a primitive that fails reclaims some of the sectors. -/
theorem reclaim_ticks (q : FlashQueue) :
    Ticks q.region e (reclaim_inactive_sectors : QueueM ε _) q (m, l) (q.region.reclaimCost m)
      (.ok ()) q (q.region.reclaimedAll m, l) fun _ => PartlyReclaimed q m l := by
  have hpart : ∀ j ≤ q.region.sector_count, PartlyReclaimed q m l q (q.region.reclaimed m j, l) :=
    fun j hj => ⟨rfl, j, hj, rfl⟩
  -- sixteen reads a sector for the test, an erase where it holds
  have hcost : q.region.reclaimCost m = q.region.slot_count
      + ((List.range (List.range q.region.sector_count).length).map fun k =>
          16 + if q.region.Reclaimable m k then 1 else 0).sum := by
    have := q.region.slot_count_eq
    rw [Region.reclaimCost, List.length_range, sum_cost]
    omega
  have hlen : (List.range q.region.sector_count).length = q.region.sector_count := List.length_range
  have hall : q.region.reclaimedAll m
      = q.region.reclaimed m (List.range q.region.sector_count).length := by
    rw [hlen]
    rfl
  rw [reclaim_inactive_sectors, hcost, hall]
  -- a scan for the newest record, then the loop; at any point the first sectors are done
  refine Proc.Timed.get_bind (Proc.Timed.bind (newest_looks.ticks List.length_range
    fun k _ => hpart 0 (Nat.zero_le _)) ?_)
  dsimp only
  refine Proc.Timed.bind_end (a := ⟨⟩) ?_ rfl
  refine Proc.Timed.forIn (fun k => (q.region.reclaimed m k, l))
    (fun k => 16 + if q.region.Reclaimable m k then 1 else 0) fun k hk => ?_
  rw [hlen] at hk
  rw [List.getElem_range]
  refine ((sector_looks hk).ticks (by simp [Region.sectorSlots]) fun _ _ => hpart k hk.le).bind ?_
  exact reclaim_sector_ticks hk reclaimable_reclaimed (hpart k hk.le)

/-- What `acknowledge_oldest` leaves when primitive `k` fails, `i` being the slot of the oldest
record: nothing has happened up to the state byte, and after it the record is gone. -/
inductive AckFailed (q : FlashQueue) (m : Flash) (l : Turnover) (i : ℕ) :
    ℕ → FlashQueue → Flash × Turnover → Prop where
  | before {k : ℕ} (hk : k ≤ q.region.slot_count) : AckFailed q m l i k q (m, l)
  | reclaim {k j : ℕ} (hk : q.region.slot_count < k) :
      AckFailed q m l i k { q with depth := q.depth - 1 }
        (q.region.reclaimed (q.region.retired m i) j, l.lose)

/-- The number of primitives it takes to acknowledge slot `i`: a scan, the state byte, and what
reclaiming takes. -/
def Region.retireCost (g : Region) (m : Flash) (i : ℕ) : ℕ :=
  g.slot_count + (1 + g.reclaimCost (g.retired m i))

theorem acknowledge_oldest_ticks {i : ℕ} {r : MeasurementRecord}
    (ho : q.region.oldest m = some (i, r)) :
    Ticks q.region e acknowledge_oldest q (m, l) (q.region.retireCost m i) (.ok (some r))
      { q with depth := q.depth - 1 } (q.region.reclaimedAll (q.region.retired m i), l.lose)
      (AckFailed q m l i) := by
  refine (find_oldest_looks.ticks List.length_range fun k hk => .before hk.le).bind ?_
  rw [ho]
  refine (write_state_ticks (Region.oldest_lt ho) (q.region.enter_retired ho) (.before le_rfl)).bind ?_
  refine Proc.Timed.modify_bind (Proc.Timed.bind_end (Proc.Timed.mono
    (reclaim_ticks { q with depth := q.depth - 1 }) ?_) rfl)
  -- the reclaiming fails: the byte is written and the depth is counted down
  rintro k hk _ _ ⟨rfl, j, -, rfl⟩
  exact .reclaim (by omega)

/-- On an empty queue every primitive is a read. -/
theorem acknowledge_oldest_ticks_of_none (ho : q.region.oldest m = none) :
    Ticks q.region e acknowledge_oldest q (m, l) q.region.slot_count (.ok none) q (m, l)
      fun _ q' b => q' = q ∧ b = (m, l) := by
  have hscan : Ticks q.region e find_oldest q (m, l) q.region.slot_count (.ok (q.region.oldest m)) q
      (m, l) fun _ q' b => q' = q ∧ b = (m, l) :=
    find_oldest_looks.ticks List.length_range fun _ _ => ⟨rfl, rfl⟩
  rw [ho] at hscan
  exact hscan.bind_end rfl

theorem peek_oldest_ticks :
    Ticks q.region e peek_oldest q (m, l) q.region.slot_count
      (.ok ((q.region.oldest m).map Prod.snd)) q (m, l) fun _ q' b => q' = q ∧ b = (m, l) :=
  peek_oldest_looks.ticks List.length_range fun _ _ => ⟨rfl, rfl⟩

end Ticks

/-! ## Appending -/

/-- The part of `append` after the removal of the oldest record. -/
def store {ε : Type} (s : Sample) : QueueM ε MeasurementRecord := do
  let q ← get
  let record := s.record q.next_sequence
  modify fun q => { q with next_sequence := q.next_sequence + 1 }
  let some slot ← find_erased_slot | throw .invalidGeometry
  write_record slot record
  modify fun q => { q with depth := q.depth + 1 }
  reclaim_inactive_sectors
  return record

theorem append_eq {ε : Type} (s : Sample) : (append s : QueueM ε _) = (do
    let q ← get
    if q.depth = q.capacity then
      remove_oldest
      modify fun q => { q with dropped := saturating_add q.dropped 1 }
      store s
    else store s) := rfl

section Append

variable {ε : Type} {e : ε} {q q' : FlashQueue} {m : Flash} {l : Turnover} {s : Sample} {n k : ℕ}
  {b b' : Flash × Turnover} {S : ℕ → FlashQueue → Flash × Turnover → Prop}

/-- What `store` leaves of `record` when primitive `k` fails: nothing has happened up to the
commit, and after it the record is there. -/
inductive StoreFailed (q : FlashQueue) (m : Flash) (l : Turnover) (record : MeasurementRecord) :
    ℕ → FlashQueue → Flash × Turnover → Prop where
  | search {k : ℕ} (hk : k < (q.region.searched m).length) : StoreFailed q m l record k q (m, l)
  | body {i : ℕ} (hf : q.region.firstErased m = some i) :
      StoreFailed q m l record (i + 1) q (m, l)
  | commit {i : ℕ} (hf : q.region.firstErased m = some i) :
      StoreFailed q m l record (i + 2) q (q.region.bodied m i record, l)
  | reclaim {i k j : ℕ} (hf : q.region.firstErased m = some i) (hk : i + 2 < k) :
      StoreFailed q m l record k { q with depth := q.depth + 1 }
        (q.region.reclaimed (q.region.written m i record) j, l.gain)

theorem Region.length_searched_of_some {g : Region} {i : ℕ} (hf : g.firstErased m = some i) :
    (g.searched m).length = i + 1 := by
  rw [searched, hf, List.length_range]

theorem Region.length_searched_of_none {g : Region} (hf : g.firstErased m = none) :
    (g.searched m).length = g.slot_count := by
  rw [searched, hf, List.length_range]

theorem write_record_ticks {i : ℕ} {record : MeasurementRecord}
    (hf : q.region.firstErased m = some i) (hbody : S 0 q (m, l))
    (hcommit : S 1 q (q.region.bodied m i record, l)) :
    Ticks q.region e (write_record i record) q (m, l) (1 + 1) (.ok ()) q
      (q.region.written m i record, l.gain) S := by
  have hlt := Region.firstErased_lt hf
  have henter := q.region.enter_bodied (r := record) (l := l) hf
  rw [Region.bodied, ← q.region.address_toNat hlt] at henter
  refine Proc.Timed.get_bind ((write_ticks henter hbody).bind ?_)
  rw [q.region.address_toNat hlt]
  exact write_state_ticks hlt (q.region.enter_written hf) hcommit

/-- The number of primitives it takes to store a record in slot `i`: a search, the body, the
state byte, and what reclaiming takes. -/
def Region.storeCost (g : Region) (m : Flash) (i : ℕ) (record : MeasurementRecord) : ℕ :=
  i + 1 + (1 + 1 + g.reclaimCost (g.written m i record))

/-- **Storing** a record in the first erased slot. -/
theorem store_ticks {i : ℕ} (hf : q.region.firstErased m = some i) :
    Ticks q.region e (store s) q (m, l)
      (q.region.storeCost m i (s.record q.next_sequence))
      (.ok (s.record q.next_sequence))
      { q with next_sequence := q.next_sequence + 1, depth := q.depth + 1 }
      (q.region.reclaimedAll (q.region.written m i (s.record q.next_sequence)), l.gain)
      (StoreFailed { q with next_sequence := q.next_sequence + 1 } m l
        (s.record q.next_sequence)) := by
  have hlen := Region.length_searched_of_some hf
  refine Proc.Timed.get_bind (Proc.Timed.modify_bind ?_)
  refine (Looks.ticks (q := { q with next_sequence := q.next_sequence + 1 }) find_erased_slot_looks
    hlen fun k hk => .search (hlen.symm ▸ hk)).bind ?_
  rw [hf]
  refine (write_record_ticks (q := { q with next_sequence := q.next_sequence + 1 }) hf (.body hf)
    (.commit hf)).bind ?_
  refine Proc.Timed.modify_bind (Proc.Timed.bind_end (Proc.Timed.mono
    (reclaim_ticks { q with next_sequence := q.next_sequence + 1, depth := q.depth + 1 }) ?_) rfl)
  -- past the commit: the record is there, whatever the reclaiming came to
  rintro k hk _ _ ⟨rfl, j, -, rfl⟩
  exact .reclaim hf (by omega)

/-- Without an erased slot there is only the search. -/
theorem store_ticks_of_none (hf : q.region.firstErased m = none) :
    Ticks q.region e (store s) q (m, l) q.region.slot_count (.error .invalidGeometry)
      { q with next_sequence := q.next_sequence + 1 } (m, l)
      (StoreFailed { q with next_sequence := q.next_sequence + 1 } m l
        (s.record q.next_sequence)) := by
  have hlen := Region.length_searched_of_none hf
  refine Proc.Timed.get_bind (Proc.Timed.modify_bind ?_)
  have hscan := Looks.ticks (e := e) (l := l) (q := { q with next_sequence := q.next_sequence + 1 })
    find_erased_slot_looks hlen
    (S := StoreFailed { q with next_sequence := q.next_sequence + 1 } m l (s.record q.next_sequence))
    fun k hk => .search (hlen.symm ▸ hk)
  rw [hf] at hscan
  exact hscan.bind_throw rfl

/-- **Appending** with room is storing. -/
theorem append_ticks {r : Except (QueueError ε) MeasurementRecord} (hd : q.depth ≠ q.capacity)
    (h : Ticks q.region e (store s) q b n r q' b' S) :
    Ticks q.region e (append s) q b n r q' b' S := by
  rw [append_eq]
  refine Proc.Timed.get_bind ?_
  rwa [if_neg hd]

/-- **Appending** to a full queue is acknowledging, counting, and storing. -/
theorem append_ticks_of_full {i : ℕ} {record : MeasurementRecord}
    {r : Except (QueueError ε) MeasurementRecord} (hd : q.depth = q.capacity)
    (ho : q.region.oldest m = some (i, record))
    (h : Ticks q.region e (store s)
      { q with depth := q.depth - 1, dropped := saturating_add q.dropped 1 }
      (q.region.reclaimedAll (q.region.retired m i), l.lose) n r q' b' S) :
    Ticks q.region e (append s) q (m, l) (q.region.retireCost m i + n) r q' b' fun k q' b' =>
      if k < q.region.retireCost m i then AckFailed q m l i k q' b'
      else S (k - q.region.retireCost m i) q' b' := by
  rw [append_eq]
  refine Proc.Timed.get_bind ?_
  rw [if_pos hd]
  -- the removal is an acknowledgement whose value is dropped
  have hremove : Ticks q.region e remove_oldest q (m, l) (q.region.retireCost m i) (.ok ())
      { q with depth := q.depth - 1 } (q.region.reclaimedAll (q.region.retired m i), l.lose)
      (AckFailed q m l i) := (acknowledge_oldest_ticks ho).bind_end rfl
  refine (hremove.mono fun k hk q' b' h => ?_).bind (Proc.Timed.modify_bind (h.mono ?_))
  · rwa [if_pos hk]
  intro k _ q' b' hS
  rwa [if_neg (by omega), Nat.add_sub_cancel_left]

/-- How `store` ends when none of its primitives fails. -/
inductive StoreEnd (s : Sample) (q : FlashQueue) (m : Flash) (l : Turnover) :
    Except (QueueError ε) MeasurementRecord → FlashQueue → Flash × Turnover → Prop where
  | ok {i : ℕ} (hf : q.region.firstErased m = some i) :
      StoreEnd s q m l (.ok (s.record q.next_sequence))
        { q with next_sequence := q.next_sequence + 1, depth := q.depth + 1 }
        (q.region.reclaimedAll (q.region.written m i (s.record q.next_sequence)), l.gain)
  | full (hf : q.region.firstErased m = none) :
      StoreEnd s q m l (.error .invalidGeometry) { q with next_sequence := q.next_sequence + 1 } (m, l)

/-- The queue when a full one has made room. -/
def FlashQueue.discarded (q : FlashQueue) : FlashQueue :=
  { q with depth := q.depth - 1, dropped := saturating_add q.dropped 1 }

/-- How `append` ends when none of its primitives fails. -/
inductive AppendDone (s : Sample) (q : FlashQueue) (m : Flash) (l : Turnover)
    (r : Except (QueueError ε) MeasurementRecord) (q' : FlashQueue) (b : Flash × Turnover) : Prop where
  | room (hd : q.depth ≠ q.capacity) (h : StoreEnd s q m l r q' b) : AppendDone s q m l r q' b
  | full {i : ℕ} {record : MeasurementRecord} (hd : q.depth = q.capacity)
      (ho : q.region.oldest m = some (i, record))
      (h : StoreEnd s q.discarded (q.region.reclaimedAll (q.region.retired m i)) l.lose r q' b) :
      AppendDone s q m l r q' b

/-- What `append` leaves when primitive `k` fails: while a full queue makes room, or while the
record is stored. -/
inductive AppendFailed (s : Sample) (q : FlashQueue) (m : Flash) (l : Turnover) (k : ℕ)
    (q' : FlashQueue) (b : Flash × Turnover) : Prop where
  | room (hd : q.depth ≠ q.capacity)
      (h : StoreFailed { q with next_sequence := q.next_sequence + 1 } m l (s.record q.next_sequence)
        k q' b) : AppendFailed s q m l k q' b
  | remove {i : ℕ} {record : MeasurementRecord} (hd : q.depth = q.capacity)
      (ho : q.region.oldest m = some (i, record)) (hk : k < q.region.retireCost m i)
      (h : AckFailed q m l i k q' b) : AppendFailed s q m l k q' b
  | full {i : ℕ} {record : MeasurementRecord} (hd : q.depth = q.capacity)
      (ho : q.region.oldest m = some (i, record)) (hk : q.region.retireCost m i ≤ k)
      (h : StoreFailed { q.discarded with next_sequence := q.next_sequence + 1 }
        (q.region.reclaimedAll (q.region.retired m i)) l.lose (s.record q.next_sequence)
        (k - q.region.retireCost m i) q' b) : AppendFailed s q m l k q' b

theorem exists_store_ticks (e : ε) (s : Sample) (q : FlashQueue) (m : Flash) (l : Turnover) :
    ∃ n r q' b, Ticks q.region e (store s) q (m, l) n r q' b
        (StoreFailed { q with next_sequence := q.next_sequence + 1 } m l (s.record q.next_sequence))
      ∧ StoreEnd s q m l r q' b := by
  cases hf : q.region.firstErased m with
  | none => exact ⟨_, _, _, _, store_ticks_of_none hf, .full hf⟩
  | some i => exact ⟨_, _, _, _, store_ticks hf, .ok hf⟩

/-- **Every append** on flash of which one primitive may fail, by a queue that counts its records. -/
theorem append_run_cases {g : Region} (hq : Counted g q m) (e : ε) (s : Sample) (l : Turnover)
    (f : Option ℕ) :
    (∃ r q' b f', ((append s : QueueM ε _).prog q).run (failing (audited g.enter NorFlash.step) e)
        ((m, l), f) = ((r, q'), (b, f')) ∧ AppendDone s q m l r q' b)
      ∨ ∃ k q' b, f = some k ∧ ((append s : QueueM ε _).prog q).run
          (failing (audited g.enter NorFlash.step) e) ((m, l), f)
        = ((.error (.storage e), q'), (b, none)) ∧ AppendFailed s q m l k q' b := by
  obtain rfl := hq.region
  by_cases hd : q.depth = q.capacity
  · obtain ⟨i, record, ho⟩ := hq.oldest_of_full hd
    obtain ⟨n, r, q₁, b₁, hstore, hend⟩ := exists_store_ticks e s q.discarded
      (q.region.reclaimedAll (q.region.retired m i)) l.lose
    -- a full queue: the failing primitive belongs to the removal or to what comes after it
    rcases (append_ticks_of_full hd ho hstore).run_cases f with ⟨f', hrun⟩ | ⟨k, q', b, hf, -, hrun, hS⟩
    · exact .inl ⟨r, q₁, b₁, f', hrun, .full hd ho hend⟩
    · refine .inr ⟨k, q', b, hf, hrun, ?_⟩
      split at hS
      · rename_i hk
        exact .remove hd ho hk hS
      · rename_i hk
        exact .full hd ho (Nat.not_lt.mp hk) hS
  · obtain ⟨n, r, q₁, b₁, hstore, hend⟩ := exists_store_ticks e s q m l
    -- room: there is only the storing
    rcases (append_ticks hd hstore).run_cases f with ⟨f', hrun⟩ | ⟨k, q', b, hf, -, hrun, hS⟩
    · exact .inl ⟨r, q₁, b₁, f', hrun, .room hd hend⟩
    · exact .inr ⟨k, q', b, hf, hrun, .room hd hS⟩

/-- **Every acknowledgement**, likewise. -/
theorem acknowledge_oldest_run_cases (e : ε) (q : FlashQueue) (m : Flash) (l : Turnover)
    (f : Option ℕ) :
    ∃ r q' b f', ((acknowledge_oldest : QueueM ε _).prog q).run
        (failing (audited q.region.enter NorFlash.step) e) ((m, l), f) = ((r, q'), (b, f'))
      ∧ (q' = q ∧ b = (m, l) ∨ ∃ i record m', q.region.oldest m = some (i, record)
        ∧ q' = { q with depth := q.depth - 1 } ∧ b = (m', l.lose)) := by
  cases ho : q.region.oldest m with
  | none =>
    rcases (acknowledge_oldest_ticks_of_none (e := e) (l := l) ho).run_cases f with
      ⟨f', hrun⟩ | ⟨k, q', b, -, -, hrun, hS⟩
    · exact ⟨_, _, _, _, hrun, .inl ⟨rfl, rfl⟩⟩
    · exact ⟨_, _, _, _, hrun, .inl hS⟩
  | some a =>
    rcases (acknowledge_oldest_ticks (e := e) (l := l) ho).run_cases f with
      ⟨f', hrun⟩ | ⟨k, q', b, -, -, hrun, hS⟩
    · exact ⟨_, _, _, _, hrun, .inr ⟨_, _, _, rfl, rfl, rfl⟩⟩
    · refine ⟨_, _, _, _, hrun, ?_⟩
      cases hS with
      | before _ => exact .inl ⟨rfl, rfl⟩
      | reclaim _ => exact .inr ⟨_, _, _, rfl, rfl, rfl⟩

/-- An append to a full queue, with a fault that comes no later than right after the state byte of
the oldest record, is stopped while it makes room. -/
theorem append_stops_of_full {g : Region} (hq : Counted g q m) (hd : q.depth = q.capacity) (e : ε)
    (s : Sample) (l : Turnover) (hk : k ≤ g.slot_count + 1) :
    ∃ q' b i, ((append s : QueueM ε _).prog q).run (failing (audited g.enter NorFlash.step) e)
        ((m, l), some k) = ((.error (.storage e), q'), (b, none)) ∧ AckFailed q m l i k q' b := by
  obtain rfl := hq.region
  obtain ⟨i, record, ho⟩ := hq.oldest_of_full hd
  obtain ⟨n, r, q₁, b₁, hstore, -⟩ := exists_store_ticks e s q.discarded
    (q.region.reclaimedAll (q.region.retired m i)) l.lose
  have hlt : k < q.region.retireCost m i := by
    have := q.region.capacity_add
    rw [Region.retireCost, Region.reclaimCost]
    omega
  obtain ⟨q', b, hrun, hS⟩ := (append_ticks_of_full hd ho hstore).stops k (Nat.lt_add_right n hlt)
  rw [if_pos hlt] at hS
  exact ⟨q', b, i, hrun, hS⟩

end Append

/-! ## Failed calls in runs -/

section Runs

variable {ε : Type} {F : Faults} {geo : Geometry}

/-- A call with a failing primitive is a step, where a primitive may fail and change nothing. -/
theorem exists_failed_step (hF : ∀ p m, F.fail p m m) (op : Op) {q q' : FlashQueue} {m m' : Flash}
    {e : ε} {f f' : Option ℕ} {r : Except (QueueError ε) op.Value}
    (h : (op.proc.prog q).run (failing NorFlash.step e) (m, f) = ((r, q'), (m', f'))) :
    ∃ tr, Step F geo ⟨m, some q⟩ (⟨tr, .op op (.of (.done (r, q')))⟩ : Label ε) ⟨m', some q'⟩ := by
  obtain ⟨tr, hexec⟩ := exec_failing (E := F.env ε) NorFlash.step e (fun _ _ => .inl rfl)
    (fun p m => .inr ⟨⟨e, rfl⟩, hF p m⟩) (op.proc.prog q) m f
  rw [h] at hexec
  have hmem : memory (.of (.done (r, q')) : Result (QueueError ε) FlashQueue op.Value) = some q' := by
    cases r <;> rfl
  exact ⟨tr, hmem ▸ .op op hexec⟩

/-- Two sectors with sixteen records on them, and so a full queue. -/
structure FullQueue (F : Faults) (es : List (Taken Machine (Label ε))) (q : FlashQueue) (m : Flash) :
    Prop where
  run : QueueRun F Geometry.twoSectors blankFlash es ⟨m, some q⟩
  wrap : ∀ e ∈ es, NoWrap e
  appended : appended es = 16
  counted : Counted Geometry.twoSectors.region q m
  depth : q.depth = 16
  next_sequence : q.next_sequence = 16

theorem FullQueue.full {es : List (Taken Machine (Label ε))} {q : FlashQueue} {m : Flash}
    (h : FullQueue F es q m) : q.depth = q.capacity := by
  rw [h.depth, FlashQueue.capacity, h.counted.region, twoSectors_capacity]

theorem exists_fullQueue (ε : Type) (F : Faults) (s : Sample) :
    ∃ (es : List (Taken Machine (Label ε))) (q : FlashQueue) (m : Flash), FullQueue F es q m := by
  have hend : (replay ⟨2, 16, by decide⟩ (· % 2 ^ 64) id 16 (List.replicate 16 .append)
      (.blank ⟨2, 16, by decide⟩)).any (fun st => decide (st.next = 16 ∧ st.depth = 16
        ∧ SectorLog.depth ⟨2, 16, by decide⟩ (toView st.slots) = 16)) = true := by
    decide +kernel
  have hvisits : (visits ⟨2, 16, by decide⟩ (· % 2 ^ 64) id 16 (List.replicate 16 .append)
      (.blank ⟨2, 16, by decide⟩)).all (fun p => decide (p.1.next + 1 < 2 ^ 64)) = true := by
    decide +kernel
  obtain ⟨st, es, q, m, h, ⟨hnext, hdepth, hcount⟩, hwrap, happended⟩ :=
    exists_replays ε F s (blank_blankFlash _) twoSectors_layout twoSectors_capacity hend hvisits
  have hfol := h.follows
  refine ⟨es, q, m, h.run, h.noWrap hwrap, happended, ⟨hfol.region, ?_⟩, hfol.depth.trans hdepth, ?_⟩
  · rw [hfol.depth, hdepth, Region.depth, hfol.image.shows.depth, twoSectors_layout, hcount]
  · rw [hfol.next_sequence, hnext]
    rfl

/-- **An append to the full queue that fails**, at the latest on the first read after the removal of
the oldest record. -/
theorem FullQueue.stops {es : List (Taken Machine (Label ε))} {q : FlashQueue} {m : Flash} {k : ℕ}
    (h : FullQueue F es q m) (hF : ∀ p m, F.fail p m m) (s : Sample) (e : ε) (hk : k ≤ 33) :
    ∃ (q' : FlashQueue) (m' : Flash) (l : Turnover) (i : ℕ) (tr : List (Event Prim Flash)),
      AckFailed q m ⟨0, 0⟩ i k q' (m', l)
        ∧ ((append s : QueueM ε _).prog q).run (failing NorFlash.step e) (m, some k)
          = ((.error (.storage e), q'), (m', none))
        ∧ Step F Geometry.twoSectors ⟨m, some q⟩
          ⟨tr, .op (.append s) (.of (.done (.error (.storage e), q')))⟩ ⟨m', some q'⟩ := by
  have hslots : Geometry.twoSectors.region.slot_count = 32 := rfl
  obtain ⟨q', ⟨m', l⟩, i, hrun, hS⟩ := append_stops_of_full h.counted h.full e s ⟨0, 0⟩ (k := k)
    (by omega)
  have hplain := run_of_audited hrun
  obtain ⟨tr, hstep⟩ := exists_failed_step hF (.append s) hplain
  exact ⟨q', m', l, i, tr, hS, hplain, hstep⟩

/-- One record fewer is counted when the failure is past the state byte. -/
theorem FullQueue.depth_failed {es : List (Taken Machine (Label ε))} {q q' : FlashQueue} {m : Flash}
    {l : Turnover} {i k : ℕ} {b : Flash × Turnover} (h : FullQueue F es q m)
    (hS : AckFailed q m l i k q' b) (hk : 32 < k) : q'.depth = 15 := by
  have hslots : q.region.slot_count = 32 := congrArg Region.slot_count h.counted.region
  cases hS with
  | before hle => omega
  | reclaim _ =>
    have := h.depth
    dsimp only
    omega

end Runs

end PicoDataLogger
