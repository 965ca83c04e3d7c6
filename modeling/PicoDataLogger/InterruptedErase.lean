/-
A power loss in the middle of an erase.

The commit protocol only ever clears bits, and an erase sets them. The state byte of a
retired record is 0x3f, of a live one 0x7f, and the checksum does not cover
it; so an erase that was interrupted after it set that one bit leaves the retired record
committed again, and recovery takes it for a live one. `retired_stay_retired_iff`
says that this is the only way a retired record can come back. A slot that is corrupt when the
erase begins cannot do it: its state byte has never been written (`Region.Stated`).
-/
import PicoDataLogger.Retirement

set_option autoImplicit false

namespace PicoDataLogger

open Interaction NorFlash SectorLog

-- so that no unification evaluates a record's bytes
attribute [local irreducible] record_body

/-! ## State bytes -/

section Stated

variable {g : Region} {m m' : Flash} {i : ℕ} {p : Prim} {bits : ℕ → UInt8} {k : ℕ}
  {r : MeasurementRecord}

/-- A slot that is corrupt has no state byte yet. -/
def Region.Stated (g : Region) (m : Flash) : Prop :=
  ∀ i < g.slot_count, g.view m i = .corrupt → m.bytes (g.slotAddr i) = ERASED

/-- What leaves the other slots alone only has to account for its own. -/
theorem Region.Stated.update (h : g.Stated m)
    (hi : g.view m' i = .corrupt → m'.bytes (g.slotAddr i) = ERASED)
    (hne : ∀ j, j ≠ i → g.slotBytes m' j = g.slotBytes m j) : g.Stated m' := by
  intro j hj hv
  by_cases hji : j = i
  · subst hji
    exact hi hv
  · rw [Region.view_apply, hne j hji, ← Region.view_apply] at hv
    rw [← g.slotBytes_zero, hne j hji, g.slotBytes_zero]
    exact h j hj hv

/-- **Every legal primitive** leaves the corrupt slots without a state byte, also if the power
fails during it. -/
theorem Legal.stated {J : Flash → MeasurementRecord → Prop}
    {K : Flash → ℕ → MeasurementRecord → Prop} (h : Legal g J K m p)
    (himg : Faults.cutImage p m m') (hs : g.Stated m) : g.Stated m' := by
  cases h with
  | quiet hq =>
    cases hq with
    | read hi =>
      cases himg
      exact hs
    | @body i record hf =>
      -- the body has no state byte
      rw [Faults.cutImage, g.address_toNat (Region.firstErased_lt hf)] at himg
      refine hs.update (fun _ => ?_) fun j hj => g.slotBytes_of_torn (by simp) himg hj
      rw [← g.slotBytes_zero]
      exact g.state_of_torn_body himg (Region.view_firstErased hf)
    | @erase k hk hr =>
      rw [Faults.cutImage, g.sector_address_toNat hk, g.sector_end_toNat hk] at himg
      rcases himg with rfl | rfl
      · exact hs
      · intro i hi hv
        rw [g.view_eraseRange, eraseSector, g.layout_width] at hv
        split at hv
        · cases hv
        · rename_i hsec
          rw [← g.slotBytes_zero, g.slotBytes_eraseRange hsec, g.slotBytes_zero]
          exact hs i hi hv
  | @acknowledge i record ho hJ =>
    -- the slot is active or acknowledged after it
    rw [Faults.cutImage, g.address_toNat (Region.oldest_lt ho)] at himg
    have hactive := (oldest_spec ho).2.1
    refine hs.update (fun hv => ?_) fun j hj => g.slotBytes_of_torn (by decide) himg hj
    rcases g.view_torn_acknowledged himg hactive with hsame | hret
    · rw [hsame, hactive] at hv
      cases hv
    · rw [hret, retire, Function.update_self] at hv
      cases hv
  | @commit i record hi hbody hblank hK =>
    -- the state byte is still erased, or the slot is active
    rw [Faults.cutImage, g.address_toNat hi] at himg
    refine hs.update (fun hv => ?_) fun j hj => g.slotBytes_of_torn (by decide) himg hj
    rcases g.view_torn_committed himg hbody with ⟨hsame, -⟩ | hcommit
    · rw [← g.slotBytes_zero, hsame, hbody, Region.record_body_zero]
    · rw [hcommit, SectorLog.commit, Function.update_self] at hv
      cases hv

theorem kept_stated (g : Region) : Kept g fun _ m => g.Stated m :=
  fun _ _ _ hlegal himg hs => hlegal.stated himg hs

theorem Region.Stated.blank (h : g.Blank m) : g.Stated m := by
  intro i hi hv
  rw [h.view hi] at hv
  cases hv

/-! ## Which slots revert -/

/-- The bits an interrupted erase has set turn slot `i`, which was acknowledged, into the
committed record `r`. -/
structure Reverts (g : Region) (m : Flash) (bits : ℕ → UInt8) (i : ℕ) (r : MeasurementRecord) :
    Prop where
  acknowledged : m.bytes (g.slotAddr i) = ACKNOWLEDGED
  /-- Bit 6 of the state byte has been set, and bit 7 has not. -/
  state : bits (g.slotAddr i) &&& 0xc0 = 0x40
  /-- The bytes after it are those of the record, also with the bits set in them. -/
  decodes : decode (.ofFn fun j => m.bytes (g.slotAddr i + j) ||| bits (g.slotAddr i + j)) = some r

/-- The one way from an acknowledged state byte to a committed one. -/
theorem acknowledged_or_eq_committed {b : UInt8} : ACKNOWLEDGED ||| b = COMMITTED ↔ b &&& 0xc0 = 0x40 := by
  have h : ∀ b : BitVec 8, 0x3f#8 ||| b = 0x7f#8 ↔ b &&& 0xc0#8 = 0x40#8 := by
    decide +kernel
  rw [← UInt8.toBitVec_inj, ← UInt8.toBitVec_inj]
  exact h b.toBitVec

/-- An erased byte stays erased. -/
theorem erased_or (b : UInt8) : ERASED ||| b = ERASED := UInt8.neg_one_or

/-- The slots of the sector have the bits set, the others are untouched. -/
theorem slotBytes_halfErased (m : Flash) (bits : ℕ → UInt8) (k i : ℕ) :
    g.slotBytes (m.halfErased (g.sectorAddr k) (g.sectorAddr k + 4096) bits) i
      = if i / 16 = k then .ofFn fun j => m.bytes (g.slotAddr i + j) ||| bits (g.slotAddr i + j)
        else g.slotBytes m i := by
  apply Vector.ext
  intro j hj
  have hj' : j < 256 := hj
  rw [g.slotBytes_getElem, Flash.halfErased_bytes]
  by_cases hsec : i / 16 = k
  · have hin : g.sectorAddr k ≤ g.slotAddr i + j ∧ g.slotAddr i + j < g.sectorAddr k + 4096 := by
      rw [Region.sectorAddr, Region.slotAddr]
      omega
    rw [if_pos hin, if_pos hsec, Vector.getElem_ofFn]
  · have hout : ¬ (g.sectorAddr k ≤ g.slotAddr i + j ∧ g.slotAddr i + j < g.sectorAddr k + 4096) := by
      rw [Region.sectorAddr, Region.slotAddr]
      omega
    rw [if_neg hout, if_neg hsec, g.slotBytes_getElem]

/-- **What an interrupted erase leaves active** in a sector without an active record: the slots
that revert. -/
theorem view_halfErased_eq_active (hs : g.Stated m) (hr : g.Reclaimable m k) (hi : i < g.slot_count)
    (hsec : i / 16 = k) :
    g.view (m.halfErased (g.sectorAddr k) (g.sectorAddr k + 4096) bits) i = .active r
      ↔ Reverts g m bits i r := by
  rw [Region.view_apply, classify_eq_active_iff, slotBytes_halfErased, if_pos hsec,
    Vector.getElem_ofFn, Nat.add_zero]
  constructor
  · rintro ⟨hstate, hdec⟩
    -- an erased state byte stays erased, so the slot was acknowledged
    have hne : m.bytes (g.slotAddr i) ≠ ERASED := by
      intro h
      rw [h, erased_or] at hstate
      cases hstate
    have hack : m.bytes (g.slotAddr i) = ACKNOWLEDGED := by
      cases hv : g.view m i with
      | erased =>
        rw [Region.view_apply, classify_eq_erased_iff] at hv
        exact absurd ((g.slotBytes_zero m i).symm.trans (hv 0 record_size_pos)) hne
      | active s => exact absurd (hsec ▸ hr) (not_reclaimable_of_active hv)
      | acknowledged o =>
        rw [Region.view_apply] at hv
        exact (g.slotBytes_zero m i).symm.trans (classify_eq_acknowledged_iff.mp hv).1
      | corrupt => exact absurd (hs i hi hv) hne
    rw [hack, acknowledged_or_eq_committed] at hstate
    exact ⟨hack, hstate, hdec⟩
  · intro h
    refine ⟨?_, h.decodes⟩
    rw [h.acknowledged, acknowledged_or_eq_committed]
    exact h.state

end Stated

/-! ## The erase -/

section HalfErased

variable {ε : Type} {geo : Geometry} {m₀ m : Flash} {es : List (Taken Machine (Label ε))}
  {pre : List (Event Prim Flash)} {first last : UInt32} {r : MeasurementRecord}

/-- An erase on the way: after the run `es` and the primitives `pre` of one step more, the flash
is `m`, and the step erases the range `[first, last)`. -/
structure EraseIssued (geo : Geometry) (m₀ : Flash) (es : List (Taken Machine (Label ε)))
    (pre : List (Event Prim Flash)) (first last : UInt32) (m : Flash) : Prop where
  run : ∃ M, QueueRun .storage geo m₀ es M ∧ ∃ (l : Label ε) (M₁ : Machine), Step .storage geo M l M₁
    ∧ ∃ m₁ post, l.trace = pre ++ ⟨.erase first last, m, m₁⟩ :: post
  wrap : ∀ e ∈ es, NoWrap e

/-- The erase of a legal event is the erase of a reclaimable sector. -/
theorem Legal.erase {g : Region} {J : Flash → MeasurementRecord → Prop}
    {K : Flash → ℕ → MeasurementRecord → Prop} (h : Legal g J K m (.erase first last)) :
    ∃ k < g.sector_count, g.Reclaimable m k ∧ first.toNat = g.sectorAddr k
      ∧ last.toNat = g.sectorAddr k + 4096 := by
  cases h with
  | quiet h =>
    cases h with
    | erase hk hr => exact ⟨_, hk, hr, g.sector_address_toNat hk, g.sector_end_toNat hk⟩

/-- `recover` on this image returns a queue, on which `peek_oldest` then returns `peeked`. -/
structure ComesUp (geo : Geometry) (m : Flash) (q : FlashQueue) (m₁ : Flash)
    (peeked : Option MeasurementRecord) : Prop where
  recover : ∃ report, (recover geo.part geo.start geo.length).run NorFlash.step m
    = ((.ok (q, report) : Except (QueueError Unit) _), m₁)
  peek_oldest : ((peek_oldest : QueueM Unit _).prog q).run NorFlash.step m₁ = ((.ok peeked, q), m₁)
  depth : q.depth = (geo.region.live m₁).length

/-- On a flash that behaves the device comes up from any image. -/
theorem comesUp (geo : Geometry) (m : Flash) :
    ComesUp geo m (geo.region.recovered m) (geo.region.reclaimedAll m)
      ((geo.region.oldest (geo.region.reclaimedAll m)).map Prod.snd) where
  recover := ⟨_, recover_run geo m⟩
  peek_oldest := peek_oldest_run _ _
  depth := by
    rw [Region.live_reclaimedAll, Region.length_live]
    rfl

/-- The record `peek_oldest` returns is an active one. -/
theorem Region.peeked_mem_live {g : Region} (h : (g.oldest m).map Prod.snd = some r) :
    r ∈ g.live m := by
  obtain ⟨b, hb, rfl⟩ := Option.map_eq_some_iff.mp h
  exact Region.oldest_mem_live (i := b.1) hb

/-- What every legal primitive keeps holds when the erase is issued. -/
theorem EraseIssued.kept {I : List (Event Prim Flash) → Flash → Prop} (hI : Kept geo.region I)
    (hblank : geo.region.Blank m₀) (h : EraseIssued geo m₀ es pre first last m) (h₀ : I [] m₀) :
    I (events es ++ pre) m := by
  obtain ⟨M, hrun, l, M₁, hstep, m₁, post, htr⟩ := h.run
  have hM := QueueRun.consistent ⟨id, id⟩ hblank hrun h.wrap
  exact hM.kept_at hI hstep (hrun.kept hI hblank h.wrap h₀) htr

/-- The ledger when the erase is issued. -/
theorem EraseIssued.ledger (hblank : geo.region.Blank m₀)
    (h : EraseIssued geo m₀ es pre first last m) : Ledger geo.region (events es ++ pre) m :=
  h.kept (kept_ledger geo.region) hblank (.blank hblank)

/-- The sector that is erased. -/
theorem EraseIssued.sector (hblank : geo.region.Blank m₀)
    (h : EraseIssued geo m₀ es pre first last m) :
    ∃ k < geo.region.sector_count, geo.region.Reclaimable m k
      ∧ first.toNat = geo.region.sectorAddr k ∧ last.toNat = geo.region.sectorAddr k + 4096 := by
  obtain ⟨M, hrun, l, M₁, hstep, m₁, post, htr⟩ := h.run
  obtain ⟨n, hlegal⟩ := (QueueRun.consistent ⟨id, id⟩ hblank hrun h.wrap).legal hstep
  exact (hlegal _ (htr ▸ List.mem_append_right pre List.mem_cons_self)).erase

end HalfErased

/-! ## An erase to interrupt

Sixteen records fill the first sector of two, the next one goes to the second. When
the first fifteen have been acknowledged, so that the sixteenth is the only
active record of its sector, acknowledging it erases the sector. -/

section Setup

variable {ε : Type} {geo : Geometry} {q : FlashQueue} {m m' : Flash} {tr pre post : List (Event Prim Flash)}
  {e : Event Prim Flash} {first last : UInt32} {i : ℕ} {r : MeasurementRecord}

/-- A device on which the supply can go at one primitive only, and changes nothing. -/
def Faults.onlyAt (p : Prim) (m : Flash) : Faults where
  fail _ _ _ := False
  cut p' m' m'' := p' = p ∧ m' = m ∧ m'' = m
  fail_read := @Faults.fail_read .none
  cut_read h := h.2.2.trans h.2.1.symm

/-- The flash at an erase that `acknowledge_oldest` issues, and the sector it erases. -/
theorem acknowledge_oldest_erase {o : Outcome (Except (QueueError ε) (Option MeasurementRecord) × FlashQueue)}
    (h : Exec (Env.ofStep NorFlash.step) ((acknowledge_oldest : QueueM ε _).prog q) m tr o m')
    (htr : tr = pre ++ e :: post) (he : e.prim = .erase first last) :
    ∃ i r k, q.region.oldest m = some (i, r) ∧ k < q.region.sector_count
      ∧ q.region.Reclaimable (q.region.retired m i) k
      ∧ e.before = q.region.reclaimed (q.region.retired m i) k
      ∧ first.toNat = q.region.sectorAddr k ∧ last.toNat = q.region.sectorAddr k + 4096 := by
  obtain ⟨p, m₁, m₂⟩ := e
  -- cut the run where the erase was issued: a stop of the operation, with the power lost
  have hcut := @Exec.cut_at _ _ _ _ _ ((Faults.onlyAt p m₁).env ε) .inl _ _ _ m₁ _ _ _ _ _ h htr
    ⟨rfl, rfl, rfl⟩
  have hend := acknowledge_oldest_ends hcut
  dsimp only at he
  rw [he] at hend
  cases hend with
  | cut hstop =>
    -- of the three places to stop, only reclaiming erases
    cases hstop with
    | scan hs =>
      obtain ⟨_, _, hp, -⟩ := hs
      cases hp
    | state _ hp => cases hp.1
    | @reclaim i r _ ho hstop =>
      cases hstop with
      | scan _ hs =>
        obtain ⟨_, _, hp, -⟩ := hs
        cases hp
      | @erase k _ hk hr hp =>
        obtain ⟨hp, hm, -⟩ := hp
        cases hp
        exact ⟨i, r, k, ho, hk, hr, hm.symm, q.region.sector_address_toNat hk,
          q.region.sector_end_toNat hk⟩

/-- Only an erase adds to the erases. -/
theorem exists_erase {α : Type} {x : Prog Prim (Prim.Answer ε) α} {o : Outcome α}
    (h : Exec (Env.ofStep NorFlash.step) x m tr o m') (hne : m'.erases ≠ m.erases) :
    ∃ pre e post first last, tr = pre ++ e :: post ∧ e.prim = .erase first last := by
  obtain ⟨pre, ⟨p, m₁, m₂⟩, post, htr, hbefore, hafter⟩ :=
    h.exists_break (I := fun m₁ => m₁.erases = m.erases) rfl hne
  rcases h.possible _ (htr ▸ List.mem_append_right pre List.mem_cons_self) with ⟨_, hr⟩ | hc
  · have hsame : m₂.erases = (NorFlash.step (ε := ε) p m₁).2.erases := congrArg (·.2.erases) hr
    cases p with
    | read => exact absurd (hsame.trans hbefore) hafter
    | write => exact absurd (hsame.trans hbefore) hafter
    | erase first last => exact ⟨pre, _, post, first, last, htr, rfl⟩
  · exact hc.elim

/-- An acknowledgement that erases, as the replay has it: the flash at its first erase. -/
theorem exists_eraseIssued {st : LogState ℕ} {s : Sample} {m₀ : Flash}
    {es : List (Taken Machine (Label Unit))} (h : Follows geo.region s m₀ st q m)
    (hrun : QueueRun .storage geo m₀ es ⟨m, some q⟩) (hwrap : ∀ e ∈ es, NoWrap e)
    (herases : (st.acknowledge geo.region.layout (· % 2 ^ 64)).erases ≠ st.erases) :
    ∃ (pre : List (Event Prim Flash)) (first last : UInt32) (i : ℕ) (r : MeasurementRecord) (k : ℕ),
      EraseIssued geo m₀ es pre first last (geo.region.reclaimed (geo.region.retired m i) k)
        ∧ geo.region.oldest m = some (i, r) ∧ k < geo.region.sector_count
        ∧ geo.region.Reclaimable (geo.region.retired m i) k
        ∧ first.toNat = geo.region.sectorAddr k ∧ last.toNat = geo.region.sectorAddr k + 4096 := by
  obtain ⟨tr, hexec⟩ := Prog.exec_run NorFlash.step ((acknowledge_oldest : QueueM Unit _).prog q) m
  have hend := acknowledge_oldest_ends (hexec.mono (Faults.ofStep_le_env .none Unit))
  have hstep : Step .storage geo ⟨m, some q⟩ (⟨tr, .op .acknowledge_oldest _⟩ : Label Unit) _ :=
    .op .acknowledge_oldest (hexec.mono (Faults.ofStep_le_env .storage Unit))
  generalize (acknowledge_oldest.prog q).run NorFlash.step m = res at hexec hend hstep
  obtain ⟨o, m₁⟩ := res
  dsimp only at hexec hend hstep
  have hreg := h.region
  have hremoved : m₁ = geo.region.removed m := by
    generalize Result.of (.done o) = r at hend
    rw [← hreg]
    cases hend with
    | empty hn => rw [Region.removed, hn]
    | ok ho => rw [Region.removed_of_some ho]
    | failed h => exact absurd h (AckStop.not_none fun _ _ _ => id)
    | cut h => exact absurd h (AckStop.not_none fun _ _ _ => id)
  have hne : m₁.erases ≠ m.erases := by
    rw [hremoved, h.image.removed.erases, h.image.erases]
    omega
  obtain ⟨pre, e, post, first, last, htr, he⟩ := exists_erase hexec hne
  obtain ⟨i, r, k, ho, hk, hr, hbefore, hfirst, hlast⟩ := acknowledge_oldest_erase hexec htr he
  rw [hreg] at ho hk hr hbefore hfirst hlast
  refine ⟨pre, first, last, i, r, k, ⟨⟨_, hrun, _, _, hstep, e.after, post, ?_⟩, hwrap⟩, ho, hk, hr,
    hfirst, hlast⟩
  rw [← he, ← hbefore]
  exact htr

/-- The commands: 17 records on a queue for 16, and all but two delivered. -/
def nearlyDrained : List Command :=
  List.replicate 17 .append ++ List.replicate 14 .acknowledge

/-- The log then: the first sector has 15 retired records and an active one. -/
def NearlyDrained (L : Layout) (st : LogState ℕ) : Prop :=
  SectorLog.oldest L (· % 2 ^ 64) (toView st.slots) = some (15, 15)
    ∧ toView st.slots 0 = .acknowledged (some 0) ∧ toView st.slots 16 = .active 16
    ∧ (∀ i < L.slots, (toView st.slots i).active?.all (fun n => 0 < n % 2 ^ 64) = true)
    ∧ st.erases = 0 ∧ (st.acknowledge L (· % 2 ^ 64)).erases = 1

instance (L : Layout) (st : LogState ℕ) : Decidable (NearlyDrained L st) :=
  inferInstanceAs (Decidable (_ ∧ _))

/-- A run from a blank region up to the erase of the first sector, with record 0 in it. -/
theorem exists_run_to_erase (s : Sample) :
    ∃ (es : List (Taken Machine (Label Unit))) (pre : List (Event Prim Flash))
      (first last : UInt32) (m : Flash),
      EraseIssued Geometry.twoSectors blankFlash es pre first last m
      ∧ first.toNat = Geometry.twoSectors.region.sectorAddr 0
      ∧ last.toNat = Geometry.twoSectors.region.sectorAddr 0 + 4096
      ∧ Geometry.twoSectors.region.view m 0 = .acknowledged (some (s.stored 0))
      ∧ s.stored 0 ∉ Geometry.twoSectors.region.live m := by
  have hend : (replay ⟨2, 16, by decide⟩ (· % 2 ^ 64) id 16 nearlyDrained
      (.blank ⟨2, 16, by decide⟩)).any (fun st => decide (NearlyDrained ⟨2, 16, by decide⟩ st))
        = true := by
    decide +kernel
  have hnext : (visits ⟨2, 16, by decide⟩ (· % 2 ^ 64) id 16 nearlyDrained
      (.blank ⟨2, 16, by decide⟩)).all (fun p => decide (p.1.next + 1 < 2 ^ 64)) = true := by
    decide +kernel
  obtain ⟨st, es, q, m, h, ⟨holdest, hzero, hlast, hothers, herases, hack⟩, hvisits, -⟩ :=
    exists_replays Unit .storage s (blank_blankFlash _) twoSectors_layout twoSectors_capacity hend hnext
  have hfol := h.follows
  -- one more acknowledgement, of record 15
  obtain ⟨pre, first, last, i, r, k, hissued, ho, hk, hr, hfirst, hlast'⟩ :=
    exists_eraseIssued hfol h.run (h.noWrap hvisits) (by
      rw [twoSectors_layout, hack, herases]
      decide)
  have hlive := hfol.image.oldest
  rw [twoSectors_layout, holdest] at hlive
  replace hlive : Geometry.twoSectors.region.oldest m = some (15, s.stored 15) := hlive
  obtain ⟨rfl, rfl⟩ := Prod.mk.inj (Option.some.inj (ho.symm.trans hlive))
  clear h hvisits hend hnext
  generalize hg : Geometry.twoSectors.region = g at *
  have hview : ∀ i < g.slot_count, g.view m i = (toView st.slots i).map s.stored := fun i hi =>
    hfol.image.shows i (g.layout_slots.symm ▸ hi)
  have hcount : g.slot_count = 32 := by rw [← hg]; rfl
  have hretired : g.view (g.retired m 15) = retire (g.view m) 15 (s.stored 15) :=
    Region.view_retired ho
  -- the second sector holds the newest record, so it is the first that is erased
  have hzero' : k = 0 := by
    have hsectors := g.slot_count_eq
    have hactive : g.view (g.retired m 15) 16 = .active (s.stored 16) := by
      rw [hretired, retire, Function.update_of_ne (by decide), hview _ (by omega), hlast]
      rfl
    have hone : ¬ SectorLog.Reclaimable g.layout seqKey (g.view (g.retired m 15)) (16 / 16) :=
      not_reclaimable_of_active hactive
    by_contra hk₀
    obtain rfl : k = 1 := by omega
    exact hone hr
  subst hzero'
  rw [Region.reclaimed_zero] at hissued
  refine ⟨es, pre, first, last, _, hissued, hfirst, hlast', ?_, ?_⟩
  · rw [hretired, retire, Function.update_of_ne (by decide), hview 0 (by omega), hzero]
    rfl
  · rw [Region.mem_live, hretired]
    rintro ⟨i, hi, hv⟩
    rw [retire] at hv
    rcases eq_or_ne i 15 with rfl | hne15
    · rw [Function.update_self] at hv
      cases hv
    · rw [Function.update_of_ne hne15, hview i hi] at hv
      have hlt : i < 32 := hcount ▸ hi
      have hall := hothers i hlt
      cases hslot : toView st.slots i with
      | active n =>
        rw [hslot] at hv hall
        have hkey := congrArg seqKey (SectorLog.Slot.active.inj hv)
        rw [show seqKey (s.stored n) = n % 2 ^ 64 from congrFun (seqKey_stored s) n,
          show seqKey (s.stored 0) = 0 % 2 ^ 64 from congrFun (seqKey_stored s) 0] at hkey
        have := of_decide_eq_true hall
        omega
      | _ =>
        rw [hslot] at hv
        cases hv

/-- The state byte of an acknowledged slot 0 is the first byte of its sector. -/
theorem state_of_acknowledged {g : Region} {o : Option MeasurementRecord}
    (h : g.view m 0 = .acknowledged o) : m.bytes (g.sectorAddr 0) = ACKNOWLEDGED := by
  have := (classify_eq_acknowledged_iff.mp ((g.view_apply m 0).symm.trans h)).1
  rwa [g.slotBytes_zero] at this

end Setup

section Reappears

variable {ε : Type} {geo : Geometry} {m₀ m : Flash} {es : List (Taken Machine (Label ε))}
  {pre : List (Event Prim Flash)} {first last : UInt32}

/-- **When retired records stay retired.** Take any run from a blank region, with power
losses and storage errors anywhere, and any erase that the next step issues. Let
the power fail during it, when it has set the bits `bits` of its sector. Then the device
comes up, and no record that had been retired by then is counted or returned, exactly if no
slot of the sector reverts to one: if nowhere in it, in a slot with the state byte
`ACKNOWLEDGED`, bit 6 of that byte has been set and bit 7 has not while the bytes behind it
still decode to a retired record. -/
theorem retired_stay_retired_iff (hblank : geo.region.Blank m₀)
    (h : EraseIssued geo m₀ es pre first last m) (bits : ℕ → UInt8) :
    ∃ k < geo.region.sector_count, first.toNat = geo.region.sectorAddr k
      ∧ last.toNat = geo.region.sectorAddr k + ERASE_SIZE
      ∧ ∃ q m₂ peeked, ComesUp geo (m.halfErased first.toNat last.toNat bits) q m₂ peeked
        ∧ ((∀ r, Retired geo.region (events es ++ pre) r →
              r ∉ geo.region.live m₂ ∧ peeked ≠ some r)
          ↔ ∀ i r, i / Region.slots_per_sector = k → Retired geo.region (events es ++ pre) r →
              ¬ Reverts geo.region m bits i r) := by
  have hledger := h.ledger hblank
  have hstated : geo.region.Stated m := h.kept (kept_stated geo.region) hblank (.blank hblank)
  obtain ⟨k, hk, hr, hfirst, hlast⟩ := h.sector hblank
  refine ⟨k, hk, hfirst, hlast, _, _, _, comesUp geo _, ?_⟩
  rw [Region.live_reclaimedAll, hfirst, hlast]
  constructor
  · -- a slot that reverts to a retired record makes it a live one
    intro hgone i r hi hret hrev
    have hlt : i < geo.region.slot_count := by
      have := geo.region.slot_count_eq
      rw [Region.slots_per_sector_eq] at hi
      omega
    exact (hgone r hret).1
      (Region.mem_live.mpr ⟨i, hlt, (view_halfErased_eq_active hstated hr hlt hi).mpr hrev⟩)
  · intro hnone r hret
    have hdead : r ∉ geo.region.live (m.halfErased (geo.region.sectorAddr k)
        (geo.region.sectorAddr k + 4096) bits) := by
      intro hlive
      obtain ⟨i, hi, hv⟩ := Region.mem_live.mp hlive
      by_cases hsec : i / 16 = k
      · exact hnone i r hsec hret ((view_halfErased_eq_active hstated hr hi hsec).mp hv)
      · -- outside the sector the record was live before the power failed
        rw [Region.view_apply, slotBytes_halfErased, if_neg hsec, ← Region.view_apply] at hv
        exact (hledger.gone r hret).2 (Region.mem_live.mpr ⟨i, hi, hv⟩)
    refine ⟨hdead, fun hpeek => hdead ?_⟩
    rw [← Region.live_reclaimedAll]
    exact Region.peeked_mem_live hpeek

/-- **An erase that nothing survives**, though it is not finished: when the power fails it has
set the high bit of every byte, and so of every state byte, and no other. -/
theorem retired_stay_retired_first :
    ∃ (es : List (Taken Machine (Label Unit))) (pre : List (Event Prim Flash))
      (first last : UInt32) (m : Flash) (r : MeasurementRecord) (q : FlashQueue) (m₂ : Flash)
      (peeked : Option MeasurementRecord),
      EraseIssued Geometry.twoSectors blankFlash es pre first last m
        ∧ m.bytes first.toNat = ACKNOWLEDGED
        ∧ (m.halfErased first.toNat last.toNat fun _ => 0x80).bytes first.toNat = 0xbf
        ∧ Retired Geometry.twoSectors.region (events es ++ pre) r
        ∧ ComesUp Geometry.twoSectors (m.halfErased first.toNat last.toNat fun _ => 0x80) q m₂ peeked
        ∧ r ∉ Geometry.twoSectors.region.live m₂ ∧ peeked ≠ some r := by
  obtain ⟨es, pre, first, last, m, hissued, hfirst, hlast, hv, hdead⟩ := exists_run_to_erase (reading none)
  have hblank := blank_blankFlash Geometry.twoSectors.region
  have hret := (hissued.ledger hblank).retired_of_acknowledged (by decide) hv hdead
  have hstate := state_of_acknowledged hv
  obtain ⟨k, -, -, -, q, m₂, peeked, hup, hiff⟩ :=
    retired_stay_retired_iff hblank hissued fun _ => 0x80
  have hgone := hiff.mpr fun i r _ _ hrev => absurd hrev.state (by decide)
  refine ⟨es, pre, first, last, m, _, q, m₂, peeked, hissued, ?_, ?_, hret, hup, hgone _ hret⟩
  · rw [hfirst]
    exact hstate
  · rw [Flash.halfErased_bytes, if_pos (by omega), hfirst, hstate]
    rfl

/-- Bit 6 of the state byte of slot 0, and nothing else. -/
def oneBit (g : Region) (a : ℕ) : UInt8 := if a = g.slotAddr 0 then 0x40 else 0

/-- That bit is all it takes. -/
theorem reverts_oneBit {g : Region} {m : Flash} {r : MeasurementRecord}
    (h : g.view m 0 = .acknowledged (some r)) : Reverts g m (oneBit g) 0 r := by
  rw [Region.view_apply, classify_eq_acknowledged_iff] at h
  refine ⟨(g.slotBytes_zero m 0).symm.trans h.1, ?_, ?_⟩
  · rw [oneBit, if_pos rfl]
    rfl
  · rw [← h.2]
    apply decode_congr
    intro j hj h₁
    have hne : ¬ g.slotAddr 0 + j = g.slotAddr 0 := by omega
    rw [Vector.getElem_ofFn, oneBit, if_neg hne, UInt8.or_zero, g.slotBytes_getElem]

/-- **A retired record comes back.** An erase is interrupted after it has set one bit, and
the device comes up with the discarded record 0 as the oldest of its queue. -/
theorem retired_record_reappears :
    ∃ (es : List (Taken Machine (Label Unit))) (pre : List (Event Prim Flash))
      (first last : UInt32) (m : Flash) (r : MeasurementRecord) (q : FlashQueue) (m₂ : Flash),
      EraseIssued Geometry.twoSectors blankFlash es pre first last m
        ∧ Retired Geometry.twoSectors.region (events es ++ pre) r
        ∧ ComesUp Geometry.twoSectors
            (m.halfErased first.toNat last.toNat (oneBit Geometry.twoSectors.region)) q m₂ (some r)
        ∧ r ∈ Geometry.twoSectors.region.live m₂ := by
  obtain ⟨es, pre, first, last, m, hissued, hfirst, hlast, hv, hdead⟩ := exists_run_to_erase (reading none)
  have hblank := blank_blankFlash Geometry.twoSectors.region
  have hret := (hissued.ledger hblank).retired_of_acknowledged (by decide) hv hdead
  have hstated : Geometry.twoSectors.region.Stated m :=
    hissued.kept (kept_stated _) hblank (.blank hblank)
  obtain ⟨k, -, hr, hk, -⟩ := hissued.sector hblank
  -- the erase is that of the first sector
  obtain rfl : k = 0 := by
    rw [hfirst, Region.sectorAddr, Region.sectorAddr] at hk
    omega
  generalize hm' : m.halfErased first.toNat last.toNat (oneBit Geometry.twoSectors.region) = m'
  have hactive : Geometry.twoSectors.region.view m' 0 = .active ((reading none).stored 0) := by
    rw [← hm', hfirst, hlast]
    exact (view_halfErased_eq_active hstated hr (by decide) rfl).mpr (reverts_oneBit hv)
  -- record 0 has the least key there is
  have hold : Geometry.twoSectors.region.oldest (Geometry.twoSectors.region.reclaimedAll m')
      = some (0, (reading none).stored 0) := by
    rw [Region.oldest, Region.reclaimedAll, Region.view_reclaimed, oldest_reclaimTo,
      SectorLog.oldest, firstMin_eq_some_iff]
    refine ⟨by decide, ?_, fun j s _ _ => Nat.zero_le _, fun j s hj => absurd hj (Nat.not_lt_zero j)⟩
    rw [hactive, Slot.active?_active]
  have hup := comesUp Geometry.twoSectors m'
  rw [hold] at hup
  subst hm'
  exact ⟨es, pre, first, last, m, _, _, _, hissued, hret, hup,
    Region.peeked_mem_live (congrArg (Option.map Prod.snd) hold)⟩

end Reappears

end PicoDataLogger
