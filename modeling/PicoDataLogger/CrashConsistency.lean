/-
Crash consistency: a power loss during a call leaves the queue it found, or the
queue the call was going to leave, or, for an append to a full queue, the queue
with room made and nothing appended.

The queue here is `Region.live`, the active records in the order of their
sequences. A power loss can also interrupt a recovery; that is one more call,
and it leaves the queue it found.
-/
import PicoDataLogger.Primitives
import PicoDataLogger.Replay

set_option autoImplicit false

namespace PicoDataLogger

open Interaction NorFlash SectorLog

/-- The records of an image in the order of their sequences. -/
def Region.live (g : Region) (m : Flash) : List MeasurementRecord :=
  SectorLog.live g.layout seqKey (g.view m)

section Live

variable {ε : Type} {g : Region} {v v' v₁ : View MeasurementRecord} {n : ℕ} {full : Prop}
  {r : MeasurementRecord} {m : Flash} {q : FlashQueue}

theorem Region.length_live : (g.live m).length = g.depth m := SectorLog.length_live

@[simp] theorem Region.live_reclaimedAll : g.live (g.reclaimedAll m) = g.live m := by
  rw [live, reclaimedAll, view_reclaimed, live_reclaimTo, live]

/-- Retiring the oldest record drops the head of the list. -/
theorem live_retire_tail {i : ℕ}
    (ho : SectorLog.oldest g.layout seqKey v = some (i, r)) :
    SectorLog.live g.layout seqKey (retire v i r) = (SectorLog.live g.layout seqKey v).tail := by
  rw [live_retire ho, List.tail_cons]

/-- A stopped acknowledgement leaves the list or its tail. -/
theorem AckLeft.live (h : AckLeft g v v') :
    SectorLog.live g.layout seqKey v' = SectorLog.live g.layout seqKey v
      ∨ SectorLog.live g.layout seqKey v' = (SectorLog.live g.layout seqKey v).tail := by
  cases h with
  | same => exact .inl rfl
  | retired ho k => exact .inr (by rw [live_reclaimTo, live_retire_tail ho])

/-- A stopped append leaves what a stopped acknowledgement leaves if the queue was
full, or the list once room is made, with or without the record. -/
theorem AppendLeft.live (h : AppendLeft g full v v₁ r v')
    (hs₁ : Sound g.layout seqKey v₁ n) (hr : seqKey r = n) :
    (full ∧ AckLeft g v v')
      ∨ SectorLog.live g.layout seqKey v' = SectorLog.live g.layout seqKey v₁
      ∨ SectorLog.live g.layout seqKey v' = SectorLog.live g.layout seqKey v₁ ++ [r] := by
  cases h with
  | removing hd h => exact .inl ⟨hd, h⟩
  | cleared => exact .inr (.inl rfl)
  | @spoiled i hf =>
    obtain ⟨-, hv⟩ := firstErased_spec hf
    exact .inr (.inl (live_update (by rw [hv]; rfl) rfl))
  | @committed i hf k =>
    obtain ⟨hi, hv⟩ := firstErased_spec hf
    exact .inr (.inr (by rw [live_reclaimTo, hs₁.live_commit hi (by rw [hv]; rfl) hr]))

/-- The list once room is made: as it was if the queue was not full, its tail if it was. -/
theorem live_cleared (hq : InStep q.region q m) :
    q.region.live (q.cleared m)
      = if q.depth = q.capacity then (q.region.live m).tail else q.region.live m := by
  split
  · rename_i hfull
    have hcap := q.region.capacity_pos
    have hd := hq.depth
    have hfull' : q.depth = q.region.capacity := hfull
    obtain ⟨i, r, ho⟩ := Region.oldest_ne_none (g := q.region) (m := m) (by omega)
    rw [FlashQueue.cleared, if_pos hfull, Region.removed_of_some ho, Region.live_reclaimedAll,
      Region.live, Region.view_retired ho]
    exact live_retire_tail ho
  · rename_i hfull
    rw [FlashQueue.cleared, if_neg hfull]

end Live

/-! ## The theorem -/

/-- The lists `L'` a power loss during a step may leave, when the list was `L` and
the queue was `q`. -/
def Survives {ε : Type} (q : FlashQueue) (L L' : List MeasurementRecord) : Reply ε → Prop
  | .op (.append s) _ =>
    (q.depth < q.capacity → L' = L ∨ L' = L ++ [(s.record q.next_sequence).stored])
      ∧ (q.depth = q.capacity →
        L' = L ∨ L' = L.tail ∨ L' = L.tail ++ [(s.record q.next_sequence).stored])
  | .op .acknowledge_oldest _ => L' = L ∨ L' = L.tail
  | .op .peek_oldest _ => L' = L
  | .recover _ => L' = L

variable {ε : Type} {geo : Geometry} {m₀ : Flash} {M M₁ : Machine} {l : Label ε}
  {es : List (Taken Machine (Label ε))}

/-- What one step leaves of the list, however it ended. -/
theorem Consistent.survives (hM : Consistent geo.region M) (h : Step .storage geo M l M₁)
    (q : FlashQueue) (hq : ∀ op r, l.reply = .op op r → M.queue = some q) :
    Survives q (geo.region.live M.flash) (geo.region.live M₁.flash) l.reply := by
  cases h with
  | @op op q' m m' tr o h =>
    obtain rfl : q' = q := Option.some.inj (hq op _ rfl)
    have hq' := hM.up q' rfl
    have hreg := hq'.region
    generalize geo.region = g at hM hq' hreg
    subst hreg
    cases op with
    | append s =>
      have hcl := live_cleared hq'
      have hleft := (append_ends h).left.live (sound_cleared hq'.sound) (seqKey_record _ _)
      -- with room nothing is removed; a full queue may lose its oldest first
      refine ⟨fun hlt => ?_, fun hfull => ?_⟩
      · rw [if_neg hlt.ne] at hcl
        rcases hleft with ⟨hfull, -⟩ | h' | h'
        · exact absurd hfull hlt.ne
        · exact .inl (h'.trans hcl)
        · exact .inr (h'.trans (by rw [← hcl]; rfl))
      · rw [if_pos hfull] at hcl
        rcases hleft with ⟨-, hack⟩ | h' | h'
        · exact (hack.live).imp id .inl
        · exact .inr (.inl (h'.trans hcl))
        · exact .inr (.inr (h'.trans (by rw [← hcl]; rfl)))
    | peek_oldest =>
      obtain ⟨rfl, -⟩ := peek_oldest_ends h
      rfl
    | acknowledge_oldest => exact (acknowledge_oldest_ends h).left.live
  | recover h =>
    -- recovery erases sectors with nothing live in them
    have hleft : ∃ k, geo.region.view _ = reclaimTo geo.region.layout seqKey _ k :=
      (recover_ends h).view_eq
    obtain ⟨k, hv⟩ := hleft
    rw [Survives, Region.live, hv, live_reclaimTo, Region.live]

/-- **Crash consistency.** Take any state of any run of appends, acknowledgements,
recoveries and power losses from a blank region, and let one more step be taken
and be cut at any of its primitives, or after the last. Then recovery succeeds,
and the list it finds is one of `Survives`. -/
theorem crash_consistent (hblank : geo.region.Blank m₀) (hrun : QueueRun .powerLoss geo m₀ es M)
    (hwrap : ∀ e ∈ es, NoWrap e) (h : Step .powerLoss geo M l M₁) (q : FlashQueue)
    (hq : ∀ op r, l.reply = .op op r → M.queue = some q) :
    ∃ q' report m₂, (recover geo.part geo.start geo.length).run NorFlash.step M₁.flash
        = ((.ok (q', report) : Except (QueueError ε) _), m₂)
      ∧ Survives q (geo.region.live M.flash) (geo.region.live m₂) l.reply := by
  have hM := QueueRun.consistent Faults.powerLoss_le_storage hblank hrun hwrap
  refine ⟨_, _, _, recover_run geo M₁.flash, ?_⟩
  rw [Region.live_reclaimedAll]
  exact hM.survives (h.mono Faults.powerLoss_le_storage) q hq

/-- The list of a device that has taken one sample. -/
theorem live_afterFirst {g : Region} {m : Flash} (h : g.Blank m) (s : Sample) :
    g.live m = [] ∧ g.live (afterFirst g m s) = [(s.record 0).stored] := by
  have hnil : g.live m = [] := by
    rw [← List.length_eq_zero_iff, Region.length_live, h.depth]
  have hs : g.Sound m 0 :=
    have hnone : ∀ i r, i < g.layout.slots → (g.view m i).record? ≠ some r := fun i r hi => by
      rw [h.view (g.layout_slots ▸ hi)]
      exact nofun
    ⟨fun i r hi hr => absurd hr (hnone i r hi), fun i _ r _ hi _ hr => absurd hr (hnone i r hi)⟩
  have hf := h.firstErased
  obtain ⟨hi, hv⟩ := firstErased_spec hf
  refine ⟨hnil, ?_⟩
  rw [afterFirst, Region.live_reclaimedAll, Region.live, Region.view_written hf,
    hs.live_commit hi (by rw [hv]; rfl) (seqKey_record s 0)]
  exact congrArg (· ++ [(s.record 0).stored]) hnil

section Body

variable {q : FlashQueue} {m m' : Flash} {s : Sample} {i : ℕ} {tr : List (Event Prim Flash)}
  {o : Outcome (Except (QueueError ε) MeasurementRecord × FlashQueue)}

/-- Only the program of its body ends that a slot is erased. -/
theorem Legal.body_of_erased {g : Region} {J : Flash → MeasurementRecord → Prop}
    {K : Flash → ℕ → MeasurementRecord → Prop} {p : Prim} (h : Legal g J K m p)
    (himg : Faults.cutImage p m m') (hi : g.view m i = .erased) (hi' : g.view m' i ≠ .erased) :
    ∃ record, p = .write (g.address i) (record_body record).toList := by
  cases h with
  | quiet hq =>
    cases hq with
    | read _ =>
      cases himg
      exact absurd hi hi'
    | @body j record hf =>
      by_cases hji : i = j
      · exact ⟨record, by rw [hji]⟩
      · rw [Faults.cutImage, g.address_toNat (Region.firstErased_lt hf)] at himg
        rw [Region.view_apply, g.slotBytes_of_torn (by simp) himg hji, ← Region.view_apply] at hi'
        exact absurd hi hi'
    | @erase k hk _ =>
      rw [Faults.cutImage, g.sector_address_toNat hk, g.sector_end_toNat hk] at himg
      rcases himg with rfl | rfl
      · exact absurd hi hi'
      · rw [g.view_eraseRange, eraseSector, hi, ite_self] at hi'
        exact absurd rfl hi'
  -- a state byte is programmed in a slot that is not erased
  | @acknowledge j record ho _ =>
    rw [Faults.cutImage, g.address_toNat (Region.oldest_lt ho)] at himg
    have hji : i ≠ j := by
      rintro rfl
      rw [(oldest_spec ho).2.1] at hi
      cases hi
    rw [Region.view_apply, g.slotBytes_of_torn (by decide) himg hji, ← Region.view_apply] at hi'
    exact absurd hi hi'
  | @commit j record hj _ hv _ =>
    rw [Faults.cutImage, g.address_toNat hj] at himg
    have hji : i ≠ j := by
      rintro rfl
      rw [hv] at hi
      cases hi
    rw [Region.view_apply, g.slotBytes_of_torn (by decide) himg hji, ← Region.view_apply] at hi'
    exact absurd hi hi'

/-- An append that uses an erased slot programs a body there. -/
theorem exists_body_event
    (h : Exec (Env.ofStep NorFlash.step) ((append s : QueueM ε _).prog q) m tr o m')
    (hi : q.region.view m i = .erased) (hi' : q.region.view m' i ≠ .erased) :
    ∃ pre e post record, tr = pre ++ e :: post
      ∧ e.prim = .write (q.region.address i) (record_body record).toList := by
  have hexec := h.mono (Faults.ofStep_le_env .storage ε)
  obtain ⟨pre, e, post, htr, hbefore, hafter⟩ :=
    h.exists_break (I := fun m => q.region.view m i = .erased) hi hi'
  have he : e ∈ tr := htr ▸ List.mem_append_right pre List.mem_cons_self
  have hlegal : Legal q.region (fun _ _ => True) (fun _ _ _ => True) e.before e.prim :=
    append_legal hexec (fun _ _ _ _ => trivial) (fun _ _ => trivial) e he
  obtain ⟨record, hp⟩ :=
    hlegal.body_of_erased (cutImage_of_event (hexec.possible e he)) hbefore hafter
  exact ⟨pre, e, post, record, htr, hp⟩

/-- **An append can be cut in its body**, with the bits of `mask` left. -/
theorem exists_torn_append (ε : Type) (geo : Geometry) (s : Sample) (mask : UInt8)
    (hd : q.depth < q.capacity) (hi : i < q.region.slot_count) (hv : q.region.view m i = .erased) :
    ∃ (l : Label ε) (pre : List (Event Prim Flash)) (m₁ : Flash) (offset : UInt32)
      (record : MeasurementRecord),
      Step .powerLoss geo ⟨m, some q⟩ l
          ⟨m₁.torn offset.toNat (record_body record).toList mask, none⟩
        ∧ l.reply = .op (.append s) .cut
        ∧ l.trace = pre ++ [⟨.write offset (record_body record).toList, m₁,
            m₁.torn offset.toNat (record_body record).toList mask⟩] := by
  have hcl : q.cleared m = m := by
    rw [FlashQueue.cleared, if_neg hd.ne]
  obtain ⟨tr, h⟩ := Prog.exec_run NorFlash.step ((append s : QueueM ε _).prog q) m
  have hend := append_ends (h.mono (Faults.ofStep_le_env .none ε))
  generalize Result.of _ = r at hend
  generalize (Prog.run NorFlash.step _ m).2 = m' at h hend
  cases hend with
  | @ok j hf =>
    rw [hcl] at hf h
    -- the record is in the slot afterwards
    have hafter : q.region.view (q.region.reclaimedAll
        (q.region.written m j (s.record q.next_sequence))) j ≠ .erased := by
      intro herased
      have hactive := @active?_reclaimTo _ q.region.layout seqKey
        (q.region.view (q.region.written m j (s.record q.next_sequence))) q.region.sector_count j
      rw [← Region.view_reclaimed, ← Region.reclaimedAll, herased, Region.view_written hf,
        SectorLog.commit, Function.update_self] at hactive
      cases hactive
    obtain ⟨pre, ⟨p, m₁, m₂⟩, post, record, htr, hp⟩ :=
      exists_body_event h (Region.view_firstErased hf) hafter
    dsimp only at hp
    subst hp
    have hcut := h.cut_at (fun hr => (Faults.ofStep_le_env .powerLoss ε).respond hr) htr
      (Faults.torn_torn m₁ (q.region.address j).toNat (record_body record).toList mask)
    exact ⟨_, pre, m₁, _, record, .op (.append s) hcut, rfl, rfl⟩
  | full hf =>
    rw [hcl, Region.firstErased, firstErased_eq_none] at hf
    exact absurd hv (hf i (q.region.layout_slots ▸ hi))
  | failed h => exact absurd h (AppendStop.not_none fun _ _ _ => id)
  | cut h => exact absurd h (AppendStop.not_none fun _ _ _ => id)

end Body

/-- A power loss with a body half programmed: the device holds the two records an outage has
left, and the next append is cut when every other bit of the body has been programmed. -/
theorem crash_consistent_first :
    ∃ (es : List (Taken Machine (Label Unit))) (M M₁ : Machine) (l : Label Unit) (q : FlashQueue)
      (pre : List (Event Prim Flash)) (m : Flash) (offset : UInt32) (record : MeasurementRecord),
      QueueRun .powerLoss Geometry.twoSectors blankFlash es M ∧ appended es = 18
        ∧ (Geometry.twoSectors.region.live M.flash).length = 2
        ∧ M.queue = some q ∧ q.depth < q.capacity
        ∧ Step .powerLoss Geometry.twoSectors M l M₁
        ∧ l.reply = .op (.append (reading none)) .cut
        ∧ l.trace = pre ++ [⟨.write offset (record_body record).toList, m,
            m.torn offset.toNat (record_body record).toList 0x55⟩]
        ∧ ∃ q' report m₂, (recover Geometry.twoSectors.part Geometry.twoSectors.start
              Geometry.twoSectors.length).run NorFlash.step M₁.flash
            = ((.ok (q', report) : Except (QueueError Unit) _), m₂)
          ∧ Survives q (Geometry.twoSectors.region.live M.flash)
            (Geometry.twoSectors.region.live m₂) l.reply := by
  have hblank := blank_blankFlash Geometry.twoSectors.region
  obtain ⟨st, es, q, m, h, ⟨-, hdepth, -, -, hone, -⟩, hwrap, hcount, -⟩ :=
    exists_outage Unit .powerLoss (reading none)
  have hq := (QueueRun.consistent Faults.powerLoss_le_storage hblank h.run hwrap).up q rfl
  have hroom : q.depth < q.capacity := by
    have hcap : Geometry.twoSectors.region.capacity = 16 := rfl
    rw [FlashQueue.capacity, hq.region, hcap, h.follows.depth, hdepth]
    decide
  have hlen : (Geometry.twoSectors.region.live m).length = 2 := by
    rw [Region.length_live, ← hq.depth, h.follows.depth, hdepth]
  have hv : q.region.view m 1 = .erased := by
    rw [hq.region, h.follows.image.shows 1 (by decide), hone]
    rfl
  obtain ⟨l, pre, m₁, offset, record, hstep, hreply, htrace⟩ := exists_torn_append Unit
    Geometry.twoSectors (reading none) 0x55 hroom (i := 1) (by rw [hq.region]; decide) hv
  exact ⟨es, _, _, l, q, pre, m₁, offset, record, h.run, hcount, hlen, rfl, hroom, hstep, hreply,
    htrace, crash_consistent hblank h.run hwrap hstep q fun _ _ _ => rfl⟩

/-! ### Contents that change

`append` returns the record it was given, and the format does not keep a voltage
that is not finite. -/

/-- `f32::INFINITY`. -/
def infinity : F32 := ⟨0x7f800000⟩

/-- **A record that comes back changed.** One append to an empty queue, and power is
lost after it; recovery finds neither the empty list nor the record. -/
theorem voltage_not_kept :
    ∃ (es : List (Taken Machine (Label Unit))) (M M₁ : Machine) (l : Label Unit) (q : FlashQueue)
      (record : MeasurementRecord) (t : FlashQueue),
      QueueRun .powerLoss Geometry.twoSectors blankFlash es M
        ∧ Step .powerLoss Geometry.twoSectors M l M₁
        ∧ l.reply = .op (.append (reading (some infinity))) (.ok record t)
        ∧ M.queue = some q ∧ q.depth < q.capacity
        ∧ ∃ q' report m₂, (recover Geometry.twoSectors.part Geometry.twoSectors.start
              Geometry.twoSectors.length).run NorFlash.step M₁.flash
            = ((.ok (q', report) : Except (QueueError Unit) _), m₂)
          ∧ Geometry.twoSectors.region.live m₂ ≠ Geometry.twoSectors.region.live M.flash
          ∧ Geometry.twoSectors.region.live m₂
            ≠ Geometry.twoSectors.region.live M.flash ++ [record] := by
  have hblank := blank_blankFlash Geometry.twoSectors.region
  obtain ⟨l, hrun, hboot⟩ := exists_boot Unit .powerLoss hblank
  obtain ⟨tr, t, hstep⟩ := exists_first_step Unit .powerLoss hblank
    (reading (some infinity))
  obtain ⟨hnil, hone⟩ := live_afterFirst hblank (reading (some infinity))
  refine ⟨_, _, _, _, _, _, _, hrun, hstep, rfl, rfl, Region.capacity_pos _, _, _, _,
    recover_run Geometry.twoSectors _, ?_⟩
  rw [Region.live_reclaimedAll, hone, hnil]
  exact ⟨List.cons_ne_nil _ _, by decide⟩

end PicoDataLogger
