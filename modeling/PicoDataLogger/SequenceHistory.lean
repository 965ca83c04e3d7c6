/-
The history of sequences: a device never gives two measurements one sequence.

The counter lives in memory and is rebuilt from the flash, so what has to
survive is the largest sequence ever committed, also when its record has been
acknowledged and its sector is dead. `History` says that it does: the records
committed so far are strictly sorted, and something on the flash is at least as
new as each of them. Reclaiming keeps it because it keeps the newest record.
-/
import PicoDataLogger.Primitives
import PicoDataLogger.Replay

set_option autoImplicit false

namespace PicoDataLogger

open Interaction NorFlash SectorLog

/-- The records that are active after and were not before, slot by slot. -/
def newly (g : Region) (v v' : View MeasurementRecord) : List MeasurementRecord :=
  (List.range g.slot_count).filterMap fun i =>
    if (v' i).active? = (v i).active? then none else (v' i).active?

/-- The records a flash primitive committed. -/
def commits (g : Region) (e : Event Prim Flash) : List MeasurementRecord :=
  newly g (g.view e.before) (g.view e.after)

/-- The records committed in a run, in order. -/
def committed {ε : Type} (g : Region) (es : List (Taken Machine (Label ε))) :
    List MeasurementRecord :=
  (es.flatMap fun e => e.label.trace).flatMap (commits g)

/-- The primitives of a run, in order. -/
def events {ε : Type} (es : List (Taken Machine (Label ε))) : List (Event Prim Flash) :=
  es.flatMap fun e => e.label.trace

/-- The committed records are strictly sorted, the log shows no other record, and it still shows
one at least as new as each of them. -/
structure History (g : Region) (v : View MeasurementRecord) (C : List MeasurementRecord) :
    Prop where
  sorted : C.Pairwise fun a b => seqKey a < seqKey b
  marked : ∀ c ∈ C, ∃ i r, i < g.slot_count ∧ (v i).record? = some r ∧ seqKey c ≤ seqKey r
  readable : ∀ i r, i < g.slot_count → (v i).record? = some r → r ∈ C

section Moves

variable {g : Region} {v v' : View MeasurementRecord} {C : List MeasurementRecord} {n : ℕ}
  {J : MeasurementRecord → Prop} {K : ℕ → MeasurementRecord → Prop}

theorem newly_eq_nil
    (h : ∀ i < g.slot_count, (v' i).active? = (v i).active? ∨ (v' i).active? = none) :
    newly g v v' = [] := by
  rw [newly, List.filterMap_eq_nil_iff]
  intro i hi
  rcases h i (List.mem_range.mp hi) with ha | ha
  · rw [if_pos ha]
  · rw [ha, ite_self]

/-- A list in which one place only counts. -/
theorem filterMap_range_eq_singleton {β : Type} {f : ℕ → Option β} {i n : ℕ} {b : β} (hi : i < n)
    (h : ∀ j, j ≠ i → f j = none) (hb : f i = some b) : (List.range n).filterMap f = [b] := by
  induction n, hi using Nat.le_induction with
  | base =>
    have hnil : (List.range i).filterMap f = [] :=
      List.filterMap_eq_nil_iff.mpr fun j hj => h j (List.mem_range.mp hj).ne
    rw [List.range_succ, List.filterMap_append, hnil]
    simp [hb]
  | succ n hn ih =>
    rw [List.range_succ, List.filterMap_append, ih]
    simp [h n (Nat.ne_of_gt hn)]

/-- Only a commit makes a record active, and it makes one. -/
theorem Move.newly_eq (h : Move g J K v v') :
    newly g v v' = [] ∨ ∃ i record, K i record ∧ i < g.slot_count
      ∧ v' = SectorLog.commit v i record.stored ∧ newly g v v' = [record.stored] := by
  cases h with
  | stay => exact .inl (newly_eq_nil fun i _ => .inl rfl)
  | @retire i r ho =>
    refine .inl (newly_eq_nil fun j _ => ?_)
    rcases eq_or_ne j i with rfl | hj
    · exact .inr (by rw [SectorLog.retire, Function.update_self]; rfl)
    · exact .inl (by rw [SectorLog.retire, Function.update_of_ne hj])
  | @spoil i hi =>
    refine .inl (newly_eq_nil fun j _ => ?_)
    rcases eq_or_ne j i with rfl | hj
    · exact .inr (by rw [SectorLog.spoil, Function.update_self]; rfl)
    · exact .inl (by rw [SectorLog.spoil, Function.update_of_ne hj])
  | @erase k hk hr =>
    refine .inl (newly_eq_nil fun j _ => ?_)
    rw [eraseSector]
    split
    · exact .inr rfl
    · exact .inl rfl
  | @commit i record hi hv hK =>
    refine .inr ⟨i, record, hK, hi, rfl, filterMap_range_eq_singleton hi (fun j hj => ?_) ?_⟩
    · rw [SectorLog.commit, Function.update_of_ne hj, if_pos rfl]
    · rw [SectorLog.commit, Function.update_self, hv]
      rfl

/-- **The mark stays.** If something readable is at least as new as `n`, it still is
after a move: reclaiming spares the newest record. -/
theorem Move.marked (h : Move g J K v v')
    (hm : ∃ i r, i < g.slot_count ∧ (v i).record? = some r ∧ n ≤ seqKey r) :
    ∃ i r, i < g.slot_count ∧ (v' i).record? = some r ∧ n ≤ seqKey r := by
  obtain ⟨j, r, hj, hr, hn⟩ := hm
  cases h with
  | stay => exact ⟨j, r, hj, hr, hn⟩
  | @retire i s ho =>
    -- a retired record can still be read
    refine ⟨j, r, hj, ?_, hn⟩
    rcases eq_or_ne j i with rfl | hji
    · rw [(oldest_spec ho).2.1] at hr
      rw [SectorLog.retire, Function.update_self]
      exact hr
    · rwa [SectorLog.retire, Function.update_of_ne hji]
  | @spoil i hi =>
    have hji : j ≠ i := by
      rintro rfl
      simp [(firstErased_spec hi).2] at hr
    exact ⟨j, r, hj, by rwa [SectorLog.spoil, Function.update_of_ne hji], hn⟩
  | @erase k hk hrec =>
    -- the mark may be erased with its sector; the newest record then takes over
    cases hnew : SectorLog.newest g.layout seqKey v with
    | none =>
      rw [SectorLog.newest, firstMin_eq_none_iff] at hnew
      simp [hnew j (g.layout_slots ▸ hj)] at hr
    | some b =>
      obtain ⟨l, t⟩ := b
      have hmin := firstMin_eq_some_iff.mp hnew
      have hle : seqKey r ≤ seqKey t := hmin.least j r (g.layout_slots ▸ hj) hr
      refine ⟨l, t, g.layout_slots ▸ hmin.lt, ?_, hn.trans hle⟩
      rw [eraseSector, if_neg ((reclaimable_iff.mp hrec).2.2 l t hnew)]
      exact hmin.val
  | @commit i record hi hv hK =>
    have hji : j ≠ i := by
      rintro rfl
      simp [hv] at hr
    exact ⟨j, r, hj, by rwa [SectorLog.commit, Function.update_of_ne hji], hn⟩

/-- What can be read after a primitive could be read before it, or is new. -/
theorem Move.readable (h : Move g J K v v') {i : ℕ} {r : MeasurementRecord}
    (hr : (v' i).record? = some r) : (v i).record? = some r ∨ r ∈ newly g v v' := by
  rcases h.newly_eq with hnil | ⟨j, record, -, hj, hv', hone⟩
  · left
    cases h with
    | stay => exact hr
    | @retire j s ho =>
      rcases eq_or_ne i j with rfl | hij
      · rw [SectorLog.retire, Function.update_self] at hr
        rw [(oldest_spec ho).2.1]
        exact hr
      · rwa [SectorLog.retire, Function.update_of_ne hij] at hr
    | @spoil j hj =>
      rcases eq_or_ne i j with rfl | hij
      · rw [SectorLog.spoil, Function.update_self] at hr
        cases hr
      · rwa [SectorLog.spoil, Function.update_of_ne hij] at hr
    | @erase k hk hrec =>
      rw [eraseSector] at hr
      split at hr
      · cases hr
      · exact hr
    | @commit j record hj hv hK =>
      -- a commit makes its record new, so the list was not empty
      have hmem : record.stored ∈ newly g v (SectorLog.commit v j record.stored) := by
        rw [newly, List.mem_filterMap]
        refine ⟨j, List.mem_range.mpr hj, ?_⟩
        rw [SectorLog.commit, Function.update_self, hv]
        rfl
      rw [hnil] at hmem
      cases hmem
  · rw [hv'] at hr
    rcases eq_or_ne i j with rfl | hij
    · rw [SectorLog.commit, Function.update_self, Slot.record?_active] at hr
      right
      rw [hone, Option.some.inj hr]
      exact List.mem_singleton_self r
    · left
      rwa [SectorLog.commit, Function.update_of_ne hij] at hr

/-- **One move** keeps the history, if what it commits has a sequence above every
readable one. -/
theorem Move.history
    (h : Move g J (fun _ record => seqKey record = n ∧ Sound g.layout seqKey v n) v v')
    (hC : History g v C) : History g v' (C ++ newly g v v') := by
  have hmarked : ∀ c ∈ C, ∃ i r, i < g.slot_count ∧ (v' i).record? = some r ∧ seqKey c ≤ seqKey r :=
    fun c hc => h.marked (hC.marked c hc)
  have hreadable : ∀ i r, i < g.slot_count → (v' i).record? = some r → r ∈ C ++ newly g v v' := by
    intro i r hi hr
    rw [List.mem_append]
    exact (h.readable hr).imp_left (hC.readable i r hi)
  rcases h.newly_eq with hnil | ⟨i, record, ⟨hseq, hs⟩, hi, hv', hone⟩
  · rw [hnil, List.append_nil] at hreadable ⊢
    exact ⟨hC.sorted, hmarked, hreadable⟩
  · have hkey : seqKey record.stored = n := hseq
    rw [hone] at hreadable ⊢
    refine ⟨List.pairwise_append.mpr ⟨hC.sorted, List.pairwise_singleton _ _,
      fun c hc d hd => ?_⟩, fun c hc => ?_, hreadable⟩
    · rw [List.mem_singleton] at hd
      obtain ⟨j, r, hj, hr, hle⟩ := hC.marked c hc
      have := hs.fresh j r (g.layout_slots ▸ hj) hr
      rw [hd]
      omega
    · rcases List.mem_append.mp hc with hc | hc
      · exact hmarked c hc
      · rw [List.mem_singleton] at hc
        refine ⟨i, record.stored, hi, ?_, hc ▸ le_rfl⟩
        rw [hv', SectorLog.commit, Function.update_self]
        rfl

end Moves

/-! ## Runs -/

section Runs

variable {ε : Type} {geo : Geometry} {m₀ : Flash} {M M' : Machine} {l : Label ε}
  {es : List (Taken Machine (Label ε))}

/-- A step is the history of its primitives. -/
theorem Step.history {F : Faults} {I : List (Event Prim Flash) → Flash → Prop}
    (h : Step F geo M l M')
    (hI : ∀ e ∈ l.trace, ∀ es, I es e.before →
      (∃ r, (F.env ε).respond e.prim e.before r e.after) ∨ (F.env ε).cut e.prim e.before e.after →
        I (es ++ [e]) e.after)
    {t : List (Event Prim Flash)} (hs : I t M.flash) : I (t ++ l.trace) M'.flash := by
  cases h with
  | op op h => exact h.history hI hs
  | recover h => exact h.history hI hs

/-- The same, up to a primitive of the step. -/
theorem Step.history_at {F : Faults} {I : List (Event Prim Flash) → Flash → Prop}
    (h : Step F geo M l M') {pre post : List (Event Prim Flash)} {e : Event Prim Flash}
    (htr : l.trace = pre ++ e :: post)
    (hI : ∀ e ∈ l.trace, ∀ es, I es e.before →
      (∃ r, (F.env ε).respond e.prim e.before r e.after) ∨ (F.env ε).cut e.prim e.before e.after →
        I (es ++ [e]) e.after)
    {t : List (Event Prim Flash)} (hs : I t M.flash) : I (t ++ pre) e.before := by
  cases h with
  | op op h => exact h.history_at htr hI hs
  | recover h => exact h.history_at htr hI hs

/-- What is known of a record when it is committed: it has the sequence `n`, and
every readable record has a smaller one. -/
def Fresh (g : Region) (n : ℕ) (m : Flash) (_ : ℕ) (record : MeasurementRecord) : Prop :=
  seqKey record = n ∧ g.Sound m n

/-- Every primitive of a step from a consistent device is legal, and what it commits is fresh. -/
theorem Consistent.legal (hM : Consistent geo.region M) {F : Faults} (h : Step F geo M l M') :
    ∃ n, ∀ e ∈ l.trace,
      Legal geo.region (fun _ _ => True) (Fresh geo.region n) e.before e.prim := by
  cases h with
  | @op op q m m' tr o h =>
    have hq := hM.up q rfl
    have hreg := hq.region
    generalize geo.region = g at hq hreg
    subst hreg
    refine ⟨q.next_sequence.toNat, ?_⟩
    cases op with
    | append s =>
      refine append_legal h (fun _ _ _ _ => trivial) fun i hf => ⟨rfl, ?_⟩
      rw [Region.Sound, Region.view_bodied hf]
      exact (sound_cleared hq.sound).spoil
    | peek_oldest => exact peek_oldest_legal h
    | acknowledge_oldest => exact acknowledge_oldest_legal h fun _ _ _ => trivial
  | recover h => exact ⟨0, recover_legal h⟩

/-- Every legal primitive keeps `I`, which speaks of the flash and of the primitives so far. -/
def Kept (g : Region) (I : List (Event Prim Flash) → Flash → Prop) : Prop :=
  ∀ ⦃n : ℕ⦄ ⦃H : List (Event Prim Flash)⦄ ⦃e : Event Prim Flash⦄,
    Legal g (fun _ _ => True) (Fresh g n) e.before e.prim →
      Faults.cutImage e.prim e.before e.after → I H e.before → I (H ++ [e]) e.after

section Kept

variable {I : List (Event Prim Flash) → Flash → Prop}

/-- What every legal primitive keeps a step keeps. -/
theorem Consistent.kept (hI : Kept geo.region I) (hM : Consistent geo.region M)
    (h : Step .storage geo M l M') {H : List (Event Prim Flash)} (hH : I H M.flash) : I (H ++ l.trace) M'.flash := by
  obtain ⟨n, hlegal⟩ := hM.legal h
  exact h.history (fun e he _ hb hev => hI (hlegal e he) (cutImage_of_event hev) hb) hH

/-- And it holds at every primitive of the step, before the primitive. -/
theorem Consistent.kept_at (hI : Kept geo.region I) (hM : Consistent geo.region M)
    (h : Step .storage geo M l M') {H pre post : List (Event Prim Flash)} {e : Event Prim Flash} (hH : I H M.flash)
    (htr : l.trace = pre ++ e :: post) : I (H ++ pre) e.before := by
  obtain ⟨n, hlegal⟩ := hM.legal h
  exact h.history_at htr (fun e he _ hb hev => hI (hlegal e he) (cutImage_of_event hev) hb) hH

/-- **What every legal primitive keeps every run keeps.** -/
theorem QueueRun.kept (hI : Kept geo.region I) (hblank : geo.region.Blank m₀)
    (hrun : QueueRun .storage geo m₀ es M) (hwrap : ∀ e ∈ es, NoWrap e) (h₀ : I [] m₀) : I (events es) M.flash := by
  have hinv := hrun.invariant_of_forall (C := NoWrap)
    (I := fun es M => Consistent geo.region M ∧ I (events es) M.flash)
    ⟨.blank hblank, h₀⟩ (fun es M l M' hw h hs => ?_) hwrap
  · exact hinv.2
  · refine ⟨h.1.step hw hs, ?_⟩
    have := Consistent.kept hI h.1 hs h.2
    simpa [events] using this

end Kept

/-- Every legal primitive keeps the history. -/
theorem kept_history (g : Region) :
    Kept g fun H m => History g (g.view m) (H.flatMap (commits g)) := by
  intro n H e hlegal himg hH
  rw [List.flatMap_append, List.flatMap_singleton]
  exact (hlegal.move himg).history hH

/-- Nothing has been committed on a blank region. -/
theorem History.blank {g : Region} (h : g.Blank m₀) : History g (g.view m₀) [] := by
  refine ⟨List.Pairwise.nil, nofun, fun i r hi hr => ?_⟩
  rw [h.view hi] at hr
  cases hr

/-- The history of every run. -/
theorem QueueRun.history (hblank : geo.region.Blank m₀) (hrun : QueueRun .storage geo m₀ es M)
    (hwrap : ∀ e ∈ es, NoWrap e) :
    History geo.region (geo.region.view M.flash) (committed geo.region es) :=
  QueueRun.kept (kept_history geo.region) hblank hrun hwrap (.blank hblank)

/-- **Sequences are unique for the life of the device.** Over every run from a
blank region, with power losses and storage errors anywhere, each record that is
committed has a sequence strictly greater than every record committed before it. -/
theorem committed_strictly_increasing (hblank : geo.region.Blank m₀)
    (hrun : QueueRun .storage geo m₀ es M) (hwrap : ∀ e ∈ es, NoWrap e) :
    (committed geo.region es).Pairwise fun a b => a.sequence < b.sequence :=
  (hrun.history hblank hwrap).sorted.imp fun h => UInt64.lt_iff_toNat_lt.mpr h

/-- After an outage with an erase and a reboot in it, records 16 and 17 are among the committed
ones, and no two of these share a sequence. -/
theorem committed_strictly_increasing_first :
    ∃ (es : List (Taken Machine (Label Unit))) (M : Machine),
      QueueRun .storage Geometry.twoSectors blankFlash es M ∧ appended es = 18
        ∧ M.flash.erases - blankFlash.erases = 1
        ∧ (∃ a ∈ committed Geometry.twoSectors.region es, a.sequence = 16)
        ∧ (∃ b ∈ committed Geometry.twoSectors.region es, b.sequence = 17)
        ∧ (committed Geometry.twoSectors.region es).Pairwise fun a b => a.sequence < b.sequence := by
  have hblank := blank_blankFlash Geometry.twoSectors.region
  obtain ⟨st, es, q, m, h, ⟨-, -, herases, hzero, -, hlast, -⟩, hwrap, hcount, -⟩ :=
    exists_outage Unit .storage (reading none)
  have hhist := QueueRun.history hblank h.run hwrap
  -- what can be read at the end has been committed
  have hmem : ∀ i n, i < Geometry.twoSectors.region.slot_count → toView st.slots i = .active n →
      (reading none).stored n ∈ committed Geometry.twoSectors.region es := by
    intro i n hi hv
    refine hhist.readable i _ hi ?_
    rw [h.follows.image.shows i (Region.layout_slots _ ▸ hi), hv]
    rfl
  have hm : m.erases = blankFlash.erases + 1 := herases ▸ h.follows.image.erases
  refine ⟨es, _, h.run, hcount, ?_, ⟨_, hmem 16 16 (by decide) hlast, rfl⟩,
    ⟨_, hmem 0 17 (by decide) hzero, rfl⟩, committed_strictly_increasing hblank h.run hwrap⟩
  dsimp only
  omega

end Runs

end PicoDataLogger
