/-
The flash queue is a bounded FIFO.

On flash that behaves, every run is a run of `BoundedFifo` with the same replies,
up to the first append that finds no slot. The relation between the two is
`Represents`: the active records in sequence order are the items, and the
counters in memory, and the one a reboot would compute from the flash, are the
counters of the FIFO.
-/
import PicoDataLogger.BoundedFifo
import PicoDataLogger.CrashConsistency

set_option autoImplicit false

namespace PicoDataLogger

open Interaction NorFlash SectorLog

/-- The FIFO behind a region. -/
abbrev Fifo (g : Region) : Type := BoundedFifo MeasurementRecord g.capacity

instance (g : Region) : NeZero g.capacity := ⟨g.capacity_pos.ne'⟩

/-- What the FIFO answers: an append gets the next number as its sequence, peeking
and acknowledging return the head, and a reboot reports what is there. -/
inductive Serves {ε : Type} (g : Region) : Fifo g → Reply ε → Fifo g → Prop where
  | append {f : Fifo g} {s : Sample} {sequence : UInt64} {q : FlashQueue}
      (hseq : sequence.toNat = f.pushed) :
      Serves g f (.op (.append s) (.ok (s.record sequence) q)) (f.push (s.record sequence).stored)
  | peek_oldest {f : Fifo g} {q : FlashQueue} : Serves g f (.op .peek_oldest (.ok f.peek q)) f
  | acknowledge_oldest {f : Fifo g} {q : FlashQueue} :
      Serves g f (.op .acknowledge_oldest (.ok f.peek q)) f.pop
  | recover {f : Fifo g} {q : FlashQueue} {report : RecoveryReport}
      (hdepth : report.depth = f.items.length) (hnext : report.next_sequence.toNat = f.pushed) :
      Serves g f (.recover (.done (.ok (q, report)))) f.restart

/-- The machine holds the FIFO `f`. -/
structure Represents (g : Region) (M : Machine) (f : Fifo g) : Prop where
  consistent : Consistent g M
  items : g.live M.flash = f.items
  counter : (g.next_sequence M.flash).toNat = f.pushed
  up : ∀ q, M.queue = some q → q.depth = f.items.length ∧ q.dropped.toNat = f.dropped
    ∧ q.next_sequence.toNat = f.pushed

/-! ## One step -/

section Steps

variable {ε : Type} {g : Region} {m m' : Flash} {q : FlashQueue} {M : Machine} {s : Sample}

/-- The counter depends on the newest record only. -/
theorem next_sequence_congr (h : g.newest m' = g.newest m) :
    g.next_sequence m' = g.next_sequence m := by
  rw [Region.next_sequence, Region.next_sequence, h]

/-- The head of the list is the record the scan finds. -/
theorem oldest_eq_head :
    (g.oldest m).map Prod.snd = (g.live m).head? := by
  cases ho : g.oldest m with
  | none => rw [Region.live, oldest_eq_none.mp ho]; rfl
  | some b => rw [Region.live, live_retire (i := b.1) (r := b.2) ho]; rfl

theorem toNat_saturating_add {a : UInt64} (h : a.toNat + 1 < 2 ^ 64) :
    (saturating_add a 1).toNat = a.toNat + 1 := by
  rw [saturating_add, UInt64.toNat_one, if_pos h, toNat_succ h]

/-- **An append** that finds a slot pushes its record. -/
theorem Represents.append {f : Fifo g} (h : Represents g ⟨m, some q⟩ f)
    (hwrap : q.next_sequence.toNat + 1 < 2 ^ 64) {a : MeasurementRecord} {q' : FlashQueue}
    (hend : AppendEnd .none s q m (.ok a q' : Result (QueueError ε) _ _) m') :
    a = s.record q.next_sequence
      ∧ Represents g ⟨m', some q'⟩ (f.push (s.record q.next_sequence).stored) := by
  have hcons := h.consistent.append hwrap hend.of_none
  have hq := h.consistent.up q rfl
  obtain ⟨hdepth, hdropped, hpushed⟩ := h.up q rfl
  obtain rfl := hq.region
  cases hend with
  | @ok i hf =>
    have hs₁ := sound_cleared hq.sound
    obtain ⟨hi, hv⟩ := firstErased_spec hf
    -- the FIFO is full exactly when the queue is
    have hfull : q.depth = q.capacity ↔ f.items.length = q.region.capacity := by
      rw [hdepth]
      rfl
    have hitems : q.region.live (q.region.reclaimedAll
        (q.region.written (q.cleared m) i (s.record q.next_sequence)))
          = (f.push (s.record q.next_sequence).stored).items := by
      rw [Region.live_reclaimedAll, Region.live, Region.view_written hf,
        hs₁.live_commit hi (by rw [hv]; rfl) (seqKey_record _ _)]
      change q.region.live (q.cleared m) ++ _ = _
      rw [live_cleared hq, BoundedFifo.push_items, ← h.items]
      simp only [hfull, h.items]
    refine ⟨rfl, hcons, hitems, ?_, fun q' hq' => ?_⟩
    · have hnew : q.region.newest
          (q.region.written (q.cleared m) i (s.record q.next_sequence))
            = some (i, (s.record q.next_sequence).stored) := by
        rw [Region.newest, Region.view_written hf]
        exact hs₁.newest_commit hi (seqKey_record _ _)
      rw [Region.next_sequence_reclaimedAll, Region.next_sequence, hnew]
      exact (toNat_succ hwrap).trans (congrArg (· + 1) hpushed)
    · obtain rfl := Option.some.inj hq'
      refine ⟨?_, ?_, (toNat_succ hwrap).trans (congrArg (· + 1) hpushed)⟩
      · rw [(hcons.up _ rfl).depth, ← hitems, Region.length_live]
      · have hbound := f.counted
        rw [BoundedFifo.push_dropped, FlashQueue.prepared]
        simp only [hfull]
        split
        · rw [toNat_saturating_add (by omega), hdropped]
        · exact hdropped

/-- **Peeking** shows the head. -/
theorem Represents.peek_oldest {f : Fifo g} (h : Represents g ⟨m, some q⟩ f)
    {r : Result (QueueError ε) FlashQueue (Option MeasurementRecord)}
    (hend : PeekEnd .none q m r) : r = .ok f.peek q := by
  have hq := h.consistent.up q rfl
  obtain rfl := hq.region
  cases hend with
  | ok => rw [oldest_eq_head, show q.region.live m = f.items from h.items, BoundedFifo.peek]
  | failed h => exact h.elim fun _ h => h.2.elim
  | cut h => exact h.elim fun _ h => h.2.elim

/-- **An acknowledgement** pops. -/
theorem Represents.acknowledge_oldest {f : Fifo g} (h : Represents g ⟨m, some q⟩ f)
    {r : Result (QueueError ε) FlashQueue (Option MeasurementRecord)}
    (hend : AckEnd .none q m r m') :
    ∃ q', r = .ok f.peek q' ∧ Represents g ⟨m', some q'⟩ f.pop := by
  have hcons := h.consistent.acknowledge_oldest hend.of_none
  have hq := h.consistent.up q rfl
  obtain ⟨hdepth, hdropped, hpushed⟩ := h.up q rfl
  obtain rfl := hq.region
  have hitems : q.region.live m = f.items := h.items
  have hhead := oldest_eq_head (g := q.region) (m := m)
  change _ = (q.region.live m).head? at hhead
  rw [hitems] at hhead
  cases hend with
  | empty ho =>
    rw [ho] at hhead
    have hnil : f.items = [] := List.head?_eq_none_iff.mp hhead.symm
    refine ⟨q, congrArg (Result.ok · q) hhead, hcons, ?_, h.counter, ?_⟩
    · rw [BoundedFifo.pop_items, hnil]
      exact hitems.trans hnil
    · intro q' hq'
      obtain rfl := Option.some.inj hq'
      rw [BoundedFifo.pop_items, hnil]
      exact ⟨hdepth.trans (by rw [hnil]; rfl), hdropped, hpushed⟩
  | @ok i record ho =>
    rw [ho] at hhead
    have hpop : q.region.live (q.region.reclaimedAll (q.region.retired m i)) = f.pop.items := by
      rw [Region.live_reclaimedAll, Region.live, Region.view_retired ho, BoundedFifo.pop_items,
        ← hitems]
      exact live_retire_tail ho
    refine ⟨_, congrArg (Result.ok · _) hhead, hcons, hpop, ?_, ?_⟩
    · rw [Region.next_sequence_reclaimedAll]
      refine (congrArg UInt64.toNat (next_sequence_congr ?_)).trans h.counter
      rw [Region.newest, Region.view_retired ho]
      exact newest_retire (oldest_spec ho).2.1
    · intro q' hq'
      -- the depth counts what is live, with one record less
      obtain rfl := Option.some.inj hq'
      exact ⟨by rw [(hcons.up _ rfl).depth, ← hpop, Region.length_live], hdropped, hpushed⟩
  | failed h => exact absurd h (AckStop.not_none fun _ _ _ => id)
  | cut h => exact absurd h (AckStop.not_none fun _ _ _ => id)

/-- **A reboot** restarts. -/
theorem Represents.recover {f : Fifo g} (h : Represents g M f)
    {o : Outcome (Except (QueueError ε) (FlashQueue × RecoveryReport))}
    (hend : RecoverEnd .none g M.flash o m') :
    Serves g f (.recover o) f.restart ∧ Represents g ⟨m', recovered o⟩ f.restart := by
  have hcons := h.consistent.recover hend.of_none
  have hdepth : g.depth M.flash = f.items.length := by
    rw [← h.items, Region.length_live]
  cases hend with
  | ok =>
    refine ⟨.recover hdepth h.counter, hcons, ?_, ?_, ?_⟩
    · rw [Region.live_reclaimedAll]
      exact h.items
    · rw [Region.next_sequence_reclaimedAll]
      exact h.counter
    · intro q' hq'
      obtain rfl := Option.some.inj hq'
      exact ⟨hdepth, rfl, h.counter⟩
  | failed h => exact absurd h (ReclaimStop.not_none fun _ _ _ => id)
  | cut h => exact absurd h (ReclaimStop.not_none fun _ _ _ => id)

/-- Before the first power-up on a blank region there is the empty FIFO. -/
theorem Represents.blank (h : g.Blank m) : Represents g ⟨m, none⟩ (.empty _ _) where
  consistent := .blank h
  items := by
    have := h.depth
    rw [← Region.length_live, List.length_eq_zero_iff] at this
    exact this
  counter := by
    rw [h.next_sequence]
    rfl
  up q hq := by cases hq

end Steps

/-! ## Runs -/

/-- **The flash queue is a bounded FIFO.** Every fault-free run from a blank region,
up to the first append that is refused, is a run of the FIFO with the same
replies, and ends in a machine that holds it. -/
theorem queue_refines_fifo {ε : Type} {geo : Geometry} {m₀ : Flash} {M : Machine}
    {es : List (Taken Machine (Label ε))} (hblank : geo.region.Blank m₀)
    (hrun : QueueRun .none geo m₀ es M) (hok : ∀ e ∈ es, NoWrap e ∧ AppendOk e) :
    ∃ fs f, Run (Serves geo.region) (.empty _ _) fs f
      ∧ fs.map (·.label) = es.map (fun e => e.label.reply) ∧ Represents geo.region M f := by
  refine hrun.simulates (Represents.blank hblank) (fun M l M' f hC hR hs => ?_) hok
  obtain ⟨hwrap, hok⟩ := hC
  -- one operation answers as the FIFO does, and the two still agree after it
  cases hs with
  | @op op q m m' tr o h =>
    cases op with
    | append s =>
      have hend := append_ends h
      obtain ⟨a, q', hr⟩ := hok s _ rfl
      dsimp only
      rw [hr] at hend ⊢
      obtain ⟨rfl, hR'⟩ := hR.append (hwrap s _ q rfl rfl) hend
      exact ⟨_, .append (hR.up q rfl).2.2, hR'⟩
    | peek_oldest =>
      obtain ⟨rfl, hend⟩ := peek_oldest_ends h
      rw [hR.peek_oldest hend]
      exact ⟨_, .peek_oldest, hR⟩
    | acknowledge_oldest =>
      obtain ⟨q', hr, hR'⟩ := hR.acknowledge_oldest (acknowledge_oldest_ends h)
      rw [hr]
      exact ⟨_, .acknowledge_oldest, hR'⟩
  | recover h => exact ⟨_, hR.recover (recover_ends h)⟩

/-- The FIFO of an outage: it overflows, all but two of the records are delivered, and after a
reboot it takes one more. -/
theorem queue_refines_fifo_first :
    ∃ (es : List (Taken Machine (Label Unit))) (M : Machine),
      QueueRun .none Geometry.twoSectors blankFlash es M ∧ appended es = 18
        ∧ (∃ e ∈ es, ∃ q, e.before.queue = some q ∧ q.depth = q.capacity
          ∧ ∃ a t, e.label.reply = .op (.append (reading none)) (.ok a t))
        ∧ ∃ fs f, Run (Serves Geometry.twoSectors.region) (.empty _ _) fs f
          ∧ fs.map (·.label) = es.map (fun e => e.label.reply)
          ∧ Represents Geometry.twoSectors.region M f ∧ f.pushed = 18 ∧ f.items.length = 2 := by
  obtain ⟨st, es, q, m, h, ⟨hnext, hdepth, -⟩, hwrap, hcount, hfull⟩ :=
    exists_outage Unit .none (reading none)
  obtain ⟨fs, f, hfs, hlab, hrep⟩ := queue_refines_fifo (blank_blankFlash _) h.run fun e he =>
    ⟨hwrap e he, h.appendOk e he⟩
  obtain ⟨hlength, -, hpushed⟩ := hrep.up q rfl
  refine ⟨es, _, h.run, hcount, hfull, fs, f, hfs, hlab, hrep, ?_, ?_⟩
  · rw [← hpushed, h.follows.next_sequence, hnext]
    rfl
  · rw [← hlength, h.follows.depth, hdepth]

end PicoDataLogger
