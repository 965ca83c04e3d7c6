/-
What `dropped` counts.

`dropped` is the only trace of the records an append to a full queue discards.
It is raised after the removal of the oldest record has returned, and the removal
can fail after the record is gone: then the record is lost and not counted. The
theorem is that this is the only way. The calls are made on flash with a ledger,
one primitive of each call may fail, and as long as none fails between an
acknowledgement made by an append and the end of the reclaiming after it, the
books balance.
-/
import PicoDataLogger.FailedCalls

set_option autoImplicit false

namespace PicoDataLogger

open Interaction NorFlash SectorLog

-- so that no unification evaluates a record's bytes
attribute [local irreducible] record_body

/-! ## Calls with a ledger -/

/-- A call, and which of its primitives fails, if one does. -/
structure FaultyCall where
  op : Op
  fault : Option ℕ

/-- A queue that is up, and its flash. -/
structure Bench where
  queue : FlashQueue
  flash : Flash

/-- A call, and the slots that became active and ceased to be during it. -/
structure Entry where
  call : FaultyCall
  ledger : Turnover

/-- One call on flash whose failing primitive, if there is one, reports `e` and changes nothing. -/
def CallStep {ε : Type} (e : ε) (B : Bench) (l : Entry) (B' : Bench) : Prop :=
  ∃ r f, (l.call.op.proc.prog B.queue).run (failing (audited B.queue.region.enter NorFlash.step) e)
    ((B.flash, ⟨0, 0⟩), l.call.fault) = ((r, B'.queue), ((B'.flash, l.ledger), f))

/-- The records that ceased to be active through an append. -/
def Entry.discarded (l : Entry) : ℕ :=
  match l.call.op with
  | .append _ => l.ledger.lost
  | _ => 0

/-- The records that ceased to be active through another call. -/
def Entry.retired (l : Entry) : ℕ :=
  match l.call.op with
  | .append _ => 0
  | _ => l.ledger.lost

/-- The total of an entry over a run. -/
def total (entry : Entry → ℕ) (es : List (Taken Bench Entry)) : ℕ :=
  (es.map fun t => entry t.label).sum

theorem total_snoc (entry : Entry → ℕ) (es : List (Taken Bench Entry)) (t : Taken Bench Entry) :
    total entry (es ++ [t]) = total entry es + entry t.label := by
  simp [total]

/-- No append to a full queue was stopped between the acknowledgement of the oldest record and
the end of the reclaiming after it. -/
def DiscardCounted (t : Taken Bench Entry) : Prop :=
  ∀ s i record k, t.label.call.op = .append s → t.before.queue.depth = t.before.queue.capacity →
    t.before.queue.region.oldest t.before.flash = some (i, record) → t.label.call.fault = some k →
      ¬ (t.before.queue.region.slot_count < k
        ∧ k < t.before.queue.region.retireCost t.before.flash i)

/-- The state byte of the oldest record is the last primitive before the window. -/
theorem discardCounted_of_le {t : Taken Bench Entry}
    (h : ∀ k, t.label.call.fault = some k → k ≤ t.before.queue.region.slot_count) :
    DiscardCounted t := by
  intro s i record k _ _ _ hk hwindow
  exact absurd hwindow.1 (Nat.not_lt.mpr (h k hk))

/-! ## One call -/

section Call

variable {ε : Type} {e : ε} {g : Region} {q q' : FlashQueue} {m m' : Flash} {l : Turnover}
  {s : Sample} {k : ℕ} {b : Flash × Turnover} {record : MeasurementRecord} {f : Option ℕ}

/-- Counting what is there, before and after, by what has gone and what has come. -/
theorem count_add_lost {ρ : Type} [DecidableEq ρ] (a a' : ℕ → Option ρ) (n : ℕ) :
    Nat.count (fun i => (a' i).isSome = true) n
        + Nat.count (fun i => (a i).isSome = true ∧ a' i ≠ a i) n
      = Nat.count (fun i => (a i).isSome = true) n
        + Nat.count (fun i => (a' i).isSome = true ∧ a i ≠ a' i) n := by
  -- slot by slot
  induction n with
  | zero => simp only [Nat.count_zero]
  | succ n ih =>
    rw [Nat.count_succ, Nat.count_succ, Nat.count_succ, Nat.count_succ]
    by_cases hsame : a' n = a n
    -- the slot holds what it held: it is in both counts or in neither
    · have hgone : ¬ ((a n).isSome = true ∧ a' n ≠ a n) := fun h => h.2 hsame
      have hcome : ¬ ((a' n).isSome = true ∧ a n ≠ a' n) := fun h => h.2 hsame.symm
      rw [if_neg hgone, if_neg hcome, hsame]
      omega
    -- another record or none: what was there has gone, what is there has come
    · have hgone : (if (a n).isSome = true ∧ a' n ≠ a n then 1 else 0)
          = if (a n).isSome = true then 1 else 0 := if_congr (and_iff_left hsame) rfl rfl
      have hcome : (if (a' n).isSome = true ∧ a n ≠ a' n then 1 else 0)
          = if (a' n).isSome = true then 1 else 0 :=
        if_congr (and_iff_left fun h => hsame h.symm) rfl rfl
      omega

/-- What becomes active and what ceases to be is the change of the depth. -/
theorem Region.depth_add_lost (g : Region) (m m' : Flash) :
    g.depth m' + g.lost m m' = g.depth m + g.lost m' m := by
  have h := count_add_lost (fun i => (g.view m i).active?) (fun i => (g.view m' i).active?)
    g.slot_count
  rw [Region.depth, Region.depth, SectorLog.depth, SectorLog.depth, g.layout_slots]
  exact h

/-- The ledger of any program is the change of the depth. -/
theorem ledger_balance {α : Type} (x : Prog Prim (Prim.Answer ε) α) (g : Region) (m : Flash)
    (f : Option ℕ) :
    g.depth (x.run (failing (audited g.enter NorFlash.step) e) ((m, ⟨0, 0⟩), f)).2.1.1
        + (x.run (failing (audited g.enter NorFlash.step) e) ((m, ⟨0, 0⟩), f)).2.1.2.lost
      = g.depth m
        + (x.run (failing (audited g.enter NorFlash.step) e) ((m, ⟨0, 0⟩), f)).2.1.2.gained := by
  refine Prog.run_invariant (I := fun b : (Flash × Turnover) × Option ℕ =>
    g.depth b.1.1 + b.1.2.lost = g.depth m + b.1.2.gained) ?_ x rfl
  -- what one primitive adds is what it changes
  have hstep : ∀ (p : Prim) (b : Flash × Turnover), g.depth b.1 + b.2.lost = g.depth m + b.2.gained →
      g.depth (audited g.enter (NorFlash.step (ε := ε)) p b).2.1
          + (audited g.enter (NorFlash.step (ε := ε)) p b).2.2.lost
        = g.depth m + (audited g.enter (NorFlash.step (ε := ε)) p b).2.2.gained := by
    intro p b hb
    have := g.depth_add_lost b.1 (NorFlash.step (ε := ε) p b.1).2
    simp only [audited, Region.enter]
    omega
  rintro p ⟨b, _ | _ | k⟩ hb
  · exact hstep p b hb
  · exact hb
  · exact hstep p b hb

/-- However a call ends, the queue it leaves counts the active records. -/
theorem Counted.run (hq : Counted g q m) (op : Op) (f : Option ℕ)
    {r : Except (QueueError ε) op.Value} {f' : Option ℕ}
    (h : (op.proc.prog q).run (failing (audited g.enter NorFlash.step) e) ((m, ⟨0, 0⟩), f)
      = ((r, q'), (b, f'))) : Counted g q' b.1 := by
  have hplain := run_of_audited h
  -- a run with one failing primitive is one of the runs on a faulty device
  obtain ⟨tr, hexec⟩ := exec_failing (E := Faults.storage.env ε) NorFlash.step e
    (fun _ _ => .inl rfl) (fun p m => .inr ⟨⟨e, rfl⟩, Faults.storage_fail_idle p m⟩) (op.proc.prog q) m f
  rw [hplain] at hexec
  cases r with
  | ok a => exact hq.op hexec rfl
  | error c => exact hq.op hexec rfl

/-- A store that fails counts nothing and retires nothing. -/
theorem StoreFailed.ledger (h : StoreFailed q m l record k q' b) :
    q'.dropped = q.dropped ∧ b.2.lost = l.lost := by
  cases h with
  | search _ => exact ⟨rfl, rfl⟩
  | body _ => exact ⟨rfl, rfl⟩
  | commit _ => exact ⟨rfl, rfl⟩
  | reclaim _ _ => exact ⟨rfl, rfl⟩

theorem StoreEnd.ledger {r : Except (QueueError ε) MeasurementRecord} (h : StoreEnd s q m l r q' b) :
    q'.dropped = q.dropped ∧ b.2.lost = l.lost := by
  cases h with
  | ok _ => exact ⟨rfl, rfl⟩
  | full _ => exact ⟨rfl, rfl⟩

/-- An append either discards nothing and counts nothing, or discards one record and counts it,
unless it is stopped between the acknowledgement of the oldest record and the end of the
reclaiming after it. -/
theorem append_ledger (hq : Counted g q m) {r : Except (QueueError ε) MeasurementRecord}
    {f' : Option ℕ}
    (hcount : ∀ i record k, q.depth = q.capacity → q.region.oldest m = some (i, record) → f = some k →
      ¬ (q.region.slot_count < k ∧ k < q.region.retireCost m i))
    (h : ((append s : QueueM ε _).prog q).run (failing (audited g.enter NorFlash.step) e)
      ((m, ⟨0, 0⟩), f) = ((r, q'), (b, f'))) :
    q'.dropped = q.dropped ∧ b.2.lost = 0
      ∨ q'.dropped = saturating_add q.dropped 1 ∧ b.2.lost = 1 := by
  rcases append_run_cases hq e s ⟨0, 0⟩ f with
    ⟨r₁, q₁, b₁, f₁, hrun, hdone⟩ | ⟨k, q₁, b₁, hk, hrun, hfailed⟩
  -- none failed: a full queue has discarded one and counted it
  · have hend := h.symm.trans hrun
    simp only [Prod.mk.injEq] at hend
    obtain ⟨⟨rfl, rfl⟩, rfl, rfl⟩ := hend
    cases hdone with
    | room _ h => exact .inl h.ledger
    | full _ _ h => exact .inr h.ledger
  · have hend := h.symm.trans hrun
    simp only [Prod.mk.injEq] at hend
    obtain ⟨⟨rfl, rfl⟩, rfl, rfl⟩ := hend
    cases hfailed with
    | room _ h => exact .inl h.ledger
    | remove hd ho hlt h =>
      cases h with
      | before _ => exact .inl ⟨rfl, rfl⟩
      -- the one place where the record is gone and not yet counted
      | reclaim hgt => exact absurd ⟨hgt, hlt⟩ (hcount _ _ k hd ho hk)
    | full _ _ _ h => exact .inr h.ledger

end Call

/-! ## Runs -/

section Runs

variable {ε : Type} {e : ε} {F : Faults} {geo : Geometry} {g : Region} {m₀ m₁ : Flash}
  {q₀ : FlashQueue} {B B' : Bench} {es : List (Taken Bench Entry)} {l : Entry}

/-- One call: what was active and what became active is active, discarded or retired; and an
append counts what it discards. -/
theorem CallStep.balance (h : CallStep e B l B') (hq : Counted g B.queue B.flash)
    (hcount : DiscardCounted ⟨B, l, B'⟩) :
    Counted g B'.queue B'.flash
      ∧ B.queue.depth + l.ledger.gained = B'.queue.depth + l.discarded + l.retired
      ∧ (B'.queue.dropped = B.queue.dropped ∧ l.discarded = 0
        ∨ B'.queue.dropped = saturating_add B.queue.dropped 1 ∧ l.discarded = 1) := by
  obtain ⟨r, f, hrun⟩ := h
  obtain rfl := hq.region
  have hq' := hq.run l.call.op l.call.fault hrun
  -- the ledger is the change of the depth, which the queue counts
  have hbalance := @ledger_balance _ e _ (l.call.op.proc.prog B.queue) B.queue.region B.flash l.call.fault
  rw [hrun, ← hq.depth, ← hq'.depth] at hbalance
  change B'.queue.depth + l.ledger.lost = B.queue.depth + l.ledger.gained at hbalance
  refine ⟨hq', ?_, ?_⟩
  · rw [Entry.discarded, Entry.retired]
    split <;> omega
  · obtain ⟨⟨op, fault⟩, ledger⟩ := l
    cases op with
    | append s => exact append_ledger hq (fun i record k => hcount s i record k rfl) hrun
    | peek_oldest =>
      -- a look changes neither
      rcases (peek_oldest_ticks (e := e) (q := B.queue) (m := B.flash) (l := ⟨0, 0⟩)).run_cases fault with
        ⟨f', hpeek⟩ | ⟨k, q', b, -, -, hpeek, rfl, -⟩
      · have hend := hrun.symm.trans hpeek
        simp only [Prod.mk.injEq] at hend
        exact .inl ⟨by rw [hend.1.2], rfl⟩
      · have hend := hrun.symm.trans hpeek
        simp only [Prod.mk.injEq] at hend
        exact .inl ⟨by rw [hend.1.2], rfl⟩
    | acknowledge_oldest =>
      -- an acknowledgement retires, and `dropped` is not its business
      obtain ⟨r', q', b, f', hack, hleft⟩ :=
        acknowledge_oldest_run_cases e B.queue B.flash ⟨0, 0⟩ fault
      have hend := hrun.symm.trans hack
      simp only [Prod.mk.injEq] at hend
      refine .inl ⟨?_, rfl⟩
      rw [hend.1.2]
      rcases hleft with ⟨rfl, -⟩ | ⟨_, _, _, -, rfl, -⟩
      · rfl
      · rfl

/-- The sums of a run that has kept its books: `dropped` saturates. -/
structure Balanced (g : Region) (q₀ : FlashQueue) (es : List (Taken Bench Entry)) (B : Bench) :
    Prop where
  counted : Counted g B.queue B.flash
  depth : q₀.depth + total (fun l => l.ledger.gained) es
    = B.queue.depth + total Entry.discarded es + total Entry.retired es
  dropped : B.queue.dropped.toNat = min (total Entry.discarded es) (2 ^ 64 - 1)

theorem saturating_add_one (a : UInt64) :
    (saturating_add a 1).toNat = min (a.toNat + 1) (2 ^ 64 - 1) := by
  have ha := a.toNat_lt
  rw [saturating_add]
  split
  · rename_i h
    rw [UInt64.toNat_one] at h
    rw [UInt64.toNat_add, UInt64.toNat_one, Nat.mod_eq_of_lt h]
    omega
  · rename_i h
    rw [UInt64.toNat_one] at h
    change 2 ^ 64 - 1 = _
    omega

/-- **The books stay balanced** through every call that counts its discard. -/
theorem Balanced.step (hB : Balanced g q₀ es B) (hcount : DiscardCounted ⟨B, l, B'⟩)
    (h : CallStep e B l B') : Balanced g q₀ (es ++ [⟨B, l, B'⟩]) B' := by
  obtain ⟨hcounted, hdepth, hdropped⟩ := h.balance hB.counted hcount
  have hd := hB.depth
  have hsum := hB.dropped
  refine ⟨hcounted, ?_, ?_⟩
  · rw [total_snoc, total_snoc, total_snoc]
    dsimp only
    omega
  · rw [total_snoc]
    dsimp only
    rcases hdropped with ⟨hq, hl⟩ | ⟨hq, hl⟩
    · rw [hq, hl, hsum, Nat.add_zero]
    · rw [hq, hl, saturating_add_one, hsum]
      -- saturation: once at the limit, `dropped` stays there
      generalize 2 ^ 64 - 1 = limit
      omega

/-- A recovered queue has counted the records it found and dropped none. -/
theorem balanced_recovered {tr : List (Event Prim Flash)} {report : RecoveryReport}
    (hrec : Exec (F.env ε) (recover geo.part geo.start geo.length) m₀ tr
      (.done (.ok (q₀, report))) m₁) : Balanced geo.region q₀ [] ⟨q₀, m₁⟩ := by
  cases recover_ends hrec with
  | ok => exact ⟨⟨rfl, Region.depth_reclaimedAll.symm⟩, rfl, rfl⟩

end Runs

/-! ## A queue that fills up -/

section Filled

variable {ε : Type} {g : Region} {q : FlashQueue} {m : Flash} {n : ℕ}

/-- The queue holds `n` records, in the first `n` slots, and the other slots are erased. -/
structure Filled (g : Region) (n : ℕ) (B : Bench) : Prop where
  counted : Counted g B.queue B.flash
  depth : B.queue.depth = n
  dropped : B.queue.dropped = 0
  active : ∀ i < n, ((g.view B.flash i).active?).isSome
  erased : ∀ i, n ≤ i → i < g.slot_count → g.view B.flash i = .erased

theorem Filled.firstErased {B : Bench} (h : Filled g n B) (hn : n < g.slot_count) :
    g.firstErased B.flash = some n := by
  rw [Region.firstErased, SectorLog.firstErased, List.find?_range_eq_some, g.layout_slots]
  refine ⟨by rw [h.erased n le_rfl hn]; rfl, List.mem_range.mpr hn, fun j hj => ?_⟩
  have hj := h.active j hj
  cases hv : g.view B.flash j with
  | active r => rfl
  | erased => rw [hv] at hj; cases hj
  | acknowledged o => rw [hv] at hj; cases hj
  | corrupt => rw [hv] at hj; cases hj

/-- A queue that is not full takes one more. -/
theorem Filled.append {B : Bench} (h : Filled g n B) (hn : n < g.capacity) (e : ε) (s : Sample) :
    ∃ B', CallStep e B ⟨⟨.append s, none⟩, ⟨1, 0⟩⟩ B' ∧ Filled g (n + 1) B' := by
  obtain ⟨q, m⟩ := B
  obtain rfl := h.counted.region
  change n < q.region.capacity at hn
  have hcap := q.region.capacity_add
  have hd : q.depth ≠ q.capacity := (h.depth.trans_lt hn).ne
  have hf : q.region.firstErased m = some n :=
    h.firstErased (by change n < q.region.slot_count; omega)
  have hrun := (append_ticks hd (store_ticks (e := e) (l := ⟨0, 0⟩) (s := s) hf)).completes none nofun
  have hcounted := h.counted.run (.append s) none hrun
  refine ⟨⟨_, _⟩, ⟨_, _, hrun⟩, hcounted, congrArg (· + 1) h.depth, h.dropped, ?_, ?_⟩
  -- the first `n` slots as before, and slot `n`
  · intro i hi
    dsimp only
    rw [Region.view_reclaimed, Region.view_written hf, active?_reclaimTo, SectorLog.commit]
    rcases eq_or_ne i n with rfl | hne
    · rw [Function.update_self]
      rfl
    · rw [Function.update_of_ne hne]
      exact h.active i (by omega)
  -- behind it nothing was written, and an erased slot survives the reclaiming
  · intro i hi hlt
    dsimp only
    rw [Region.view_reclaimed, Region.view_written hf]
    apply reclaimTo_of_erased
    rw [SectorLog.commit, Function.update_of_ne (by omega)]
    exact h.erased i (by omega) hlt

/-- From a blank region up to the capacity; no primitive fails, and no record goes. -/
theorem exists_filled (e : ε) (s : Sample) (hblank : g.Blank m) (hn : n ≤ g.capacity) :
    ∃ es B, Run (CallStep e) ⟨.new g, m⟩ es B ∧ Filled g n B
      ∧ (∀ t ∈ es, t.label.call.fault = none) ∧ total Entry.discarded es = 0
      ∧ total Entry.retired es = 0 := by
  induction n with
  | zero =>
    refine ⟨[], _, .nil, ⟨⟨rfl, hblank.depth.symm⟩, rfl, rfl, ?_, fun i _ hi => hblank.view hi⟩, nofun,
      rfl, rfl⟩
    exact fun i hi => absurd hi (Nat.not_lt_zero i)
  | succ n ih =>
    obtain ⟨es, B, hrun, hfilled, hnone, hdiscarded, hretired⟩ := ih (Nat.le_of_succ_le hn)
    obtain ⟨B', hstep, hfilled'⟩ := hfilled.append hn e s
    refine ⟨_, B', hrun.snoc hstep, hfilled', fun t ht => ?_, ?_, ?_⟩
    · rcases List.mem_append.mp ht with ht | ht
      · exact hnone t ht
      · rw [List.mem_singleton.mp ht]
    · rw [total_snoc, hdiscarded]
      rfl
    · rw [total_snoc, hretired]
      rfl

/-- A filled queue, with a fault that comes with the state byte of its oldest record or right
after it: the next append stops there. -/
theorem Filled.stops {B : Bench} (h : Filled g g.capacity B) (e : ε) (s : Sample) {k : ℕ}
    (hk : k ≤ g.slot_count + 1) :
    ∃ l B' i, CallStep e B ⟨⟨.append s, some k⟩, l⟩ B'
      ∧ AckFailed B.queue B.flash ⟨0, 0⟩ i k B'.queue (B'.flash, l) := by
  obtain ⟨q, m⟩ := B
  obtain rfl := h.counted.region
  obtain ⟨q', ⟨m', l⟩, i, hrun, hS⟩ := append_stops_of_full h.counted h.depth e s ⟨0, 0⟩ hk
  exact ⟨l, ⟨q', m'⟩, i, ⟨_, _, hrun⟩, hS⟩

/-- An append to a full queue discards a record and takes one. -/
theorem Filled.overflow {B : Bench} (h : Filled g g.capacity B) (e : ε) (s : Sample) :
    ∃ B', CallStep e B ⟨⟨.append s, none⟩, ⟨1, 1⟩⟩ B' ∧ Counted g B'.queue B'.flash
      ∧ B'.queue.depth = g.capacity := by
  obtain ⟨q, m⟩ := B
  obtain rfl := h.counted.region
  have hd : q.depth = q.region.capacity := h.depth
  have hpos := q.region.capacity_pos
  have hcap := q.region.capacity_add
  obtain ⟨i, record, ho⟩ := h.counted.oldest_of_full h.depth
  obtain ⟨n, r, q₁, b₁, hstore, hend⟩ := exists_store_ticks e s q.discarded
    (q.region.reclaimedAll (q.region.retired m i)) (⟨0, 0⟩ : Turnover).lose
  have hrun := (append_ticks_of_full h.depth ho hstore).completes none nofun
  have hcounted := h.counted.run (.append s) none hrun
  cases hend with
  | ok hf =>
    refine ⟨⟨_, _⟩, ⟨_, _, hrun⟩, hcounted, ?_⟩
    change q.depth - 1 + 1 = q.region.capacity
    omega
  | full hf =>
    -- the slot behind the records is erased, and stays so
    change q.region.firstErased _ = none at hf
    rw [Region.firstErased, firstErased_eq_none] at hf
    have hlt : q.region.capacity < q.region.slot_count := by omega
    have hv : q.region.view m q.region.capacity = .erased := h.erased _ le_rfl hlt
    refine absurd ?_ (hf q.region.capacity (q.region.layout_slots ▸ hlt))
    rw [Region.reclaimedAll, Region.view_reclaimed, Region.view_retired ho]
    apply reclaimTo_of_erased
    rw [retire, Function.update_of_ne, hv]
    rintro rfl
    rw [(oldest_spec ho).2.1] at hv
    cases hv

/-- A queue with a record can deliver it. -/
theorem exists_deliver {B : Bench} (h : Counted g B.queue B.flash) (hpos : 0 < B.queue.depth) (e : ε) :
    ∃ B', CallStep e B ⟨⟨.acknowledge_oldest, none⟩, ⟨0, 1⟩⟩ B'
      ∧ B'.queue.depth = B.queue.depth - 1 := by
  obtain ⟨q, m⟩ := B
  obtain rfl := h.region
  have hd : q.depth = q.region.depth m := h.depth
  obtain ⟨i, record, ho⟩ := Region.oldest_ne_none (g := q.region) (m := m) (hd ▸ hpos)
  have hack := (acknowledge_oldest_ticks (e := e) (l := ⟨0, 0⟩) ho).completes none nofun
  exact ⟨⟨_, _⟩, ⟨_, _, hack⟩, rfl⟩

end Filled

/-! ## The theorem -/

section Theorem

variable {ε : Type} {e : ε} {F : Faults} {geo : Geometry} {m₀ m₁ : Flash} {q₀ : FlashQueue} {B : Bench}
  {es : List (Taken Bench Entry)}

/-- **Losses are counted.** After a recovery of any image, in every run of calls in which any
primitive may fail, if no append to a full queue is stopped between the acknowledgement of the
oldest record and the end of the reclaiming after it: `dropped` is the number of records that
ceased to be active through an append, and every record that was active at the recovery or
became active since is active, dropped, or retired by the caller. -/
theorem losses_accounted {tr : List (Event Prim Flash)} {report : RecoveryReport}
    (hrec : Exec (F.env ε) (recover geo.part geo.start geo.length) m₀ tr
      (.done (.ok (q₀, report))) m₁)
    (hrun : Run (CallStep e) ⟨q₀, m₁⟩ es B) (hcount : ∀ t ∈ es, DiscardCounted t)
    (hsat : total Entry.discarded es < 2 ^ 64) :
    B.queue.dropped.toNat = total Entry.discarded es
      ∧ q₀.depth + total (fun l => l.ledger.gained) es
        = B.queue.depth + B.queue.dropped.toNat + total Entry.retired es := by
  have hB := hrun.invariant_of_forall (I := Balanced geo.region q₀) (balanced_recovered hrec)
    (fun _ _ _ _ hc hB hs => hB.step hc hs) hcount
  have hdropped := hB.dropped
  have hdepth := hB.depth
  have heq : B.queue.dropped.toNat = total Entry.discarded es := by omega
  exact ⟨heq, by omega⟩

/-- The books of an outage: the queue is filled, the state byte that the next append programs
first is refused and changes nothing, the append after it discards a record, and one is delivered. -/
theorem losses_accounted_first : ∃ (tr : List (Event Prim Flash)) (report : RecoveryReport)
    (q₀ : FlashQueue) (es : List (Taken Bench Entry)) (B : Bench),
      Exec (Faults.none.env Unit) (recover Geometry.twoSectors.part Geometry.twoSectors.start
        Geometry.twoSectors.length) blankFlash tr (.done (.ok (q₀, report))) blankFlash
      ∧ Run (CallStep ()) ⟨q₀, blankFlash⟩ es B
      ∧ (∃ t ∈ es, t.label.call = ⟨.append (reading none), some 32⟩
        ∧ t.before.queue.depth = t.before.queue.capacity)
      ∧ total Entry.discarded es = 1 ∧ total Entry.retired es = 1 ∧ B.queue.depth = 15
      ∧ B.queue.dropped.toNat = total Entry.discarded es
      ∧ q₀.depth + total (fun l => l.ledger.gained) es
        = B.queue.depth + B.queue.dropped.toNat + total Entry.retired es := by
  have hblank := blank_blankFlash Geometry.twoSectors.region
  obtain ⟨tr, hrec⟩ := exists_recover_exec Unit .none Geometry.twoSectors blankFlash
  rw [hblank.recovered, hblank.reclaimedAll] at hrec
  obtain ⟨es, ⟨q, m⟩, hrun, hfilled, hnone, hdiscarded, hretired⟩ :=
    exists_filled () (reading none) hblank le_rfl
  have hslots : Geometry.twoSectors.region.slot_count = 32 := rfl
  -- primitive 32 is the state byte of the oldest record
  obtain ⟨l, ⟨q', m'⟩, i, hfailed, hS⟩ := hfilled.stops () (reading none) (k := 32) (by omega)
  have hsame : q' = q ∧ m' = m ∧ l = ⟨0, 0⟩ := by
    cases hS with
    | before _ => exact ⟨rfl, rfl, rfl⟩
    | reclaim hk =>
      change q.region.slot_count < 32 at hk
      rw [hfilled.counted.region] at hk
      omega
  obtain ⟨rfl, rfl, rfl⟩ := hsame
  obtain ⟨B₁, happend, hcounted, hdepth⟩ := hfilled.overflow () (reading none)
  have hfull : B₁.queue.depth = 16 := hdepth
  obtain ⟨B₂, hdeliver, hless⟩ := exists_deliver hcounted (by omega) ()
  obtain ⟨all, hes⟩ : ∃ all : List (Taken Bench Entry), all =
      ((es ++ [⟨⟨q', m'⟩, ⟨⟨.append (reading none), some 32⟩, ⟨0, 0⟩⟩, ⟨q', m'⟩⟩])
        ++ [⟨⟨q', m'⟩, ⟨⟨.append (reading none), none⟩, ⟨1, 1⟩⟩, B₁⟩])
        ++ [⟨B₁, ⟨⟨.acknowledge_oldest, none⟩, ⟨0, 1⟩⟩, B₂⟩] := ⟨_, rfl⟩
  have hall : Run (CallStep ()) _ all B₂ :=
    hes ▸ ((hrun.snoc hfailed).snoc happend).snoc hdeliver
  have hcount : ∀ t ∈ all, DiscardCounted t := by
    intro t ht
    refine discardCounted_of_le fun k hk => ?_
    rw [hes, List.mem_append, List.mem_append, List.mem_append, List.mem_singleton,
      List.mem_singleton, List.mem_singleton] at ht
    rcases ht with ((ht | rfl) | rfl) | rfl
    · rw [hnone t ht] at hk
      cases hk
    · obtain rfl := Option.some.inj hk
      change 32 ≤ q'.region.slot_count
      rw [hfilled.counted.region, hslots]
    · cases hk
    · cases hk
  have hdiscard : total Entry.discarded all = 1 := by
    rw [hes, total_snoc, total_snoc, total_snoc, hdiscarded]
    rfl
  have hretire : total Entry.retired all = 1 := by
    rw [hes, total_snoc, total_snoc, total_snoc, hretired]
    rfl
  have hrefused : ⟨⟨q', m'⟩, ⟨⟨.append (reading none), some 32⟩, ⟨0, 0⟩⟩, ⟨q', m'⟩⟩ ∈ all := by
    rw [hes]
    exact List.mem_append_left _ (List.mem_append_left _ (List.mem_append_right _ List.mem_cons_self))
  exact ⟨tr, _, _, all, B₂, hrec, hall,
    ⟨_, hrefused, rfl, hfilled.depth.trans (congrArg Region.capacity hfilled.counted.region).symm⟩,
    hdiscard, hretire, by omega, losses_accounted hrec hall hcount (by omega)⟩

end Theorem

/-! ## A loss that is not counted -/

section Uncounted

/-- **A record that is lost and not counted**: on two sectors, sixteen appends, and a seventeenth
whose first read of the reclaiming after the acknowledgement fails. -/
theorem loss_not_counted : ∃ (tr : List (Event Prim Flash)) (report : RecoveryReport) (q₀ : FlashQueue)
    (es : List (Taken Bench Entry)) (B : Bench),
      Exec (Faults.none.env Unit) (recover Geometry.twoSectors.part Geometry.twoSectors.start
        Geometry.twoSectors.length) blankFlash tr (.done (.ok (q₀, report))) blankFlash
      ∧ Run (CallStep ()) ⟨q₀, blankFlash⟩ es B
      ∧ B.queue.dropped = 0 ∧ total Entry.discarded es = 1 := by
  have hblank := blank_blankFlash Geometry.twoSectors.region
  obtain ⟨tr, hrec⟩ := exists_recover_exec Unit .none Geometry.twoSectors blankFlash
  rw [hblank.recovered, hblank.reclaimedAll] at hrec
  obtain ⟨es, ⟨q, m⟩, hrun, hfilled, -, htotal, -⟩ := exists_filled () (reading none) hblank le_rfl
  -- primitive 33 is behind the 32 reads and the state byte, and in the reclaiming
  have hslots : Geometry.twoSectors.region.slot_count = 32 := rfl
  obtain ⟨l, B', i, hstep, hS⟩ := hfilled.stops () (reading none) (k := 33) (by omega)
  generalize hq' : B'.queue = q' at hS
  generalize hb : (B'.flash, l) = b at hS
  cases hS with
  | before hk =>
    change 33 ≤ q.region.slot_count at hk
    rw [hfilled.counted.region] at hk
    omega
  | reclaim hk =>
    obtain ⟨-, rfl⟩ := Prod.mk.inj hb
    refine ⟨tr, _, _, _, B', hrec, hrun.snoc hstep, ?_, ?_⟩
    · rw [hq']
      exact hfilled.dropped
    · rw [total_snoc, htotal]
      rfl

end Uncounted

end PicoDataLogger
