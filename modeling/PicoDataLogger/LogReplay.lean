/-
The log, computed.

A `View` is a function and a log that is run has a list of slots. `LogState` is
that list with the counters of a queue on it, and `acknowledge` and `append` are
what retiring the oldest record and committing the next one do to it, so that a
whole run can be evaluated. What the records are does not matter to any of it: the
log may be run on their keys alone, and `Shows` relates it to a view of records
with those keys.
-/
import PicoDataLogger.LiveRecords
import Mathlib.Data.List.Find
import Mathlib.Data.List.GetD

set_option autoImplicit false

namespace SectorLog

variable {ρ α : Type}

/-! ## Renaming records -/

/-- The slot with its record renamed. -/
def Slot.map (φ : α → ρ) : Slot α → Slot ρ
  | .erased => .erased
  | .active r => .active (φ r)
  | .acknowledged o => .acknowledged (o.map φ)
  | .corrupt => .corrupt

section Map

variable {φ : α → ρ} (c : Slot α)

@[simp] theorem Slot.active?_map : (c.map φ).active? = c.active?.map φ := by cases c <;> rfl

@[simp] theorem Slot.record?_map : (c.map φ).record? = c.record?.map φ := by cases c <;> rfl

@[simp] theorem Slot.dirty_map : (c.map φ).dirty = c.dirty := by cases c <;> rfl

@[simp] theorem Slot.isErased_map : (c.map φ).isErased = c.isErased := by cases c <;> rfl

end Map

/-- The scan sees the keys only. -/
theorem firstMin_map {β : Type} [LinearOrder β] (κ : ρ → β) (φ : α → ρ) (f : ℕ → Option α) (n : ℕ) :
    firstMin κ (fun i => (f i).map φ) n
      = (firstMin (fun a => κ (φ a)) f n).map (Prod.map id φ) := by
  induction n with
  | zero => rfl
  | succ n ih =>
    rw [firstMin_succ, firstMin_succ, ih, pick, pick]
    cases f n with
    | none => rfl
    | some a =>
      cases firstMin (fun a => κ (φ a)) f n with
      | none => rfl
      | some b =>
        simp only [Option.map_some, Option.all_some, Prod.map_snd]
        split <;> rfl

/-! ## Lists of slots -/

/-- The view of a list of slots. -/
def toView (l : List (Slot α)) : View α := fun i => l.getD i .erased

/-- The first `n` slots of a view before `l`, each computed before the next. -/
def tabulate (v : View α) : ℕ → List (Slot α) → List (Slot α)
  | 0, l => l
  | n + 1, l => match v n with
    | .erased => tabulate v n (.erased :: l)
    | .active r => tabulate v n (.active r :: l)
    | .acknowledged o => tabulate v n (.acknowledged o :: l)
    | .corrupt => tabulate v n (.corrupt :: l)

theorem tabulate_succ (v : View α) (n : ℕ) (l : List (Slot α)) :
    tabulate v (n + 1) l = tabulate v n (v n :: l) := by
  rw [tabulate]
  cases v n <;> rfl

theorem tabulate_eq (v : View α) (n : ℕ) (l : List (Slot α)) :
    tabulate v n l = (List.range n).map v ++ l := by
  induction n generalizing l with
  | zero => rfl
  | succ n ih => rw [tabulate_succ, ih, List.range_succ]; simp

theorem toView_tabulate (v : View α) {n i : ℕ} (hi : i < n) : toView (tabulate v n []) i = v i := by
  rw [tabulate_eq, List.append_nil, toView, List.getD_eq_getElem _ _ (by simpa)]
  simp

/-! ## The queue on a list of slots -/

/-- A log with the counters of a queue on it. -/
structure LogState (α : Type) where
  slots : List (Slot α)
  depth : ℕ
  next : ℕ
  erases : ℕ

section Replay

variable (L : Layout) (key : α → ℕ) (mk : ℕ → α)

/-- Which sectors are reclaimable. -/
def flags (l : List (Slot α)) : List Bool :=
  (List.range L.sectors).map fun k => decide (Reclaimable L key (toView l) k)

/-- The list with every reclaimable sector erased. -/
def reclaimedSlots (l : List (Slot α)) : List (Slot α) :=
  let fl := flags L key l
  tabulate (fun i => if fl.getD (i / L.width) false then .erased else toView l i) L.slots []

namespace LogState

/-- A log that has never been written. -/
def blank : LogState α where
  slots := List.replicate L.slots .erased
  depth := 0
  next := 0
  erases := 0

/-- The list becomes `v`, and its reclaimable sectors are erased. -/
def settle (st : LogState α) (v : View α) : LogState α :=
  let l := tabulate v L.slots []
  { st with slots := reclaimedSlots L key l, erases := st.erases + (flags L key l).count true }

/-- Retire the oldest record and reclaim. -/
def acknowledge (st : LogState α) : LogState α :=
  match oldest L key (toView st.slots) with
  | none => st
  | some (i, r) =>
    let st := st.settle L key (retire (toView st.slots) i r)
    { st with depth := st.depth - 1 }

/-- Commit the next record, on a full log after retiring the oldest, and reclaim. -/
def append (cap : ℕ) (st : LogState α) : Option (LogState α) :=
  let st := if st.depth = cap then st.acknowledge L key else st
  match firstErased L (toView st.slots) with
  | none => none
  | some i =>
    let st := st.settle L key (commit (toView st.slots) i (mk st.next))
    some { st with depth := st.depth + 1, next := st.next + 1 }

/-- Reclaim, and take the counters from the slots. -/
def reboot (st : LogState α) : LogState α :=
  { st.settle L key (toView st.slots) with
    depth := SectorLog.depth L (toView st.slots)
    next := (newest L key (toView st.slots)).elim 0 fun b => key b.2 + 1 }

end LogState

/-- One call, or a power cycle. -/
inductive Command where
  | append
  | acknowledge
  | reboot
  deriving DecidableEq

/-- One command; an append that finds no slot is refused. -/
def LogState.exec (cap : ℕ) : Command → LogState α → Option (LogState α)
  | .append, st => st.append L key mk cap
  | .acknowledge, st => some (st.acknowledge L key)
  | .reboot, st => some (st.reboot L key)

/-- Commands one after the other, up to one that is refused. -/
def replay (cap : ℕ) : List Command → LogState α → Option (LogState α)
  | [], st => some st
  | c :: cs, st => (st.exec L key mk cap c).bind (replay cap cs)

/-- The states a replay goes through, each with the command that comes next. -/
def visits (cap : ℕ) : List Command → LogState α → List (LogState α × Command)
  | [], _ => []
  | c :: cs, st => (st, c) :: (st.exec L key mk cap c).elim [] (visits cap cs)

/-- A replay that is not refused visits all its commands. -/
theorem map_snd_visits {cap : ℕ} {cs : List Command} {st st' : LogState α}
    (h : replay L key mk cap cs st = some st') : (visits L key mk cap cs st).map Prod.snd = cs := by
  induction cs generalizing st with
  | nil => rfl
  | cons c cs ih =>
    obtain ⟨st₁, hst₁, hrest⟩ := Option.bind_eq_some_iff.mp h
    rw [visits, hst₁, List.map_cons, Option.elim_some, ih hrest]

end Replay

/-! ## What a list shows -/

/-- The list is the view, with the records named by their keys. -/
def Shows (L : Layout) (φ : α → ρ) (v : View ρ) (l : List (Slot α)) : Prop :=
  ∀ i < L.slots, v i = (toView l i).map φ

section Shows

variable {L : Layout} {φ : α → ρ} {v : View ρ} {l : List (Slot α)} {i k : ℕ} {a : α}

theorem Shows.oldest (key : ρ → ℕ) (h : Shows L φ v l) :
    oldest L key v = (oldest L (fun a => key (φ a)) (toView l)).map (Prod.map id φ) := by
  rw [SectorLog.oldest, SectorLog.oldest, ← firstMin_map key φ]
  exact firstMin_congr fun i hi => by rw [h i hi, Slot.active?_map]

theorem Shows.newest (key : ρ → ℕ) (h : Shows L φ v l) :
    newest L key v = (newest L (fun a => key (φ a)) (toView l)).map (Prod.map id φ) := by
  rw [SectorLog.newest, SectorLog.newest, ← firstMin_map (fun r => OrderDual.toDual (key r)) φ]
  exact firstMin_congr fun i hi => by rw [h i hi, Slot.record?_map]

theorem Shows.depth (h : Shows L φ v l) : SectorLog.depth L v = SectorLog.depth L (toView l) := by
  rw [SectorLog.depth, SectorLog.depth]
  refine count_congr fun i hi => ?_
  rw [h i hi, Slot.active?_map, Option.isSome_map]

theorem Shows.live (key : ρ → ℕ) (h : Shows L φ v l) :
    live L key v = (live L (fun a => key (φ a)) (toView l)).map φ := by
  have hactive : (List.range L.slots).filterMap (fun i => (v i).active?)
      = ((List.range L.slots).filterMap fun i => (toView l i).active?).map φ := by
    rw [List.map_filterMap]
    exact List.filterMap_congr fun i hi => by rw [h i (List.mem_range.mp hi), Slot.active?_map]
  rw [SectorLog.live, SectorLog.live, hactive]
  -- renaming the records sorts them alike, since the keys are theirs
  exact (List.map_mergeSort (f := φ) fun _ _ _ _ => rfl).symm

theorem Shows.firstErased (h : Shows L φ v l) : firstErased L v = firstErased L (toView l) := by
  rw [SectorLog.firstErased, SectorLog.firstErased]
  refine List.find?_congr fun i hi => ?_
  rw [h i (List.mem_range.mp hi), Slot.isErased_map]

theorem Layout.slot_lt (hk : k < L.sectors) {j : ℕ} (hj : j < L.width) :
    k * L.width + j < L.slots := by
  have := Nat.mul_le_mul_right L.width hk
  rw [Nat.succ_mul] at this
  rw [slots]
  omega

theorem Shows.reclaimable (key : ρ → ℕ) (h : Shows L φ v l) (hk : k < L.sectors) :
    Reclaimable L key v k ↔ Reclaimable L (fun a => key (φ a)) (toView l) k := by
  have hv : ∀ j < L.width, v (k * L.width + j) = (toView l (k * L.width + j)).map φ :=
    fun j hj => h _ (Layout.slot_lt hk hj)
  rw [Reclaimable, Reclaimable, h.newest key]
  refine and_congr (forall₂_congr fun j hj => ?_) (and_congr (exists_congr fun j => ?_) ?_)
  · rw [hv j hj, Slot.active?_map, Option.map_eq_none_iff]
  · exact and_congr_right fun hj => by rw [hv j hj, Slot.dirty_map]
  · cases SectorLog.newest L (fun a => key (φ a)) (toView l) <;> simp

theorem Shows.tabulate {w : View α} (h : ∀ i < L.slots, v i = (w i).map φ) :
    Shows L φ v (tabulate w L.slots []) := fun i hi => by
  rw [toView_tabulate w hi, h i hi]

theorem Shows.update (h : Shows L φ v l) {c : Slot α} :
    Shows L φ (Function.update v i (c.map φ))
      (SectorLog.tabulate (Function.update (toView l) i c) L.slots []) := by
  refine .tabulate fun j hj => ?_
  rcases eq_or_ne j i with rfl | hji
  · rw [Function.update_self, Function.update_self]
  · rw [Function.update_of_ne hji, Function.update_of_ne hji, h j hj]

theorem Shows.reclaim (key : ρ → ℕ) (h : Shows L φ v l) :
    Shows L φ (reclaim L key v) (reclaimedSlots L (fun a => key (φ a)) l) := by
  refine .tabulate fun i hi => ?_
  have hk := L.sector_lt hi
  rw [SectorLog.reclaim, reclaimTo, flags, List.getD_eq_getElem _ _ (by simpa), List.getElem_map,
    List.getElem_range]
  simp only [hk, true_and, h.reclaimable key hk, decide_eq_true_eq]
  split
  · rfl
  · exact h i hi

theorem Shows.count_reclaimable (key : ρ → ℕ) (h : Shows L φ v l) :
    (flags L (fun a => key (φ a)) l).count true = Nat.count (Reclaimable L key v) L.sectors := by
  rw [flags, List.count, List.countP_map, Nat.count]
  refine List.countP_congr fun k hk => ?_
  simp only [Function.comp_apply, decide_eq_true_eq, beq_true,
    h.reclaimable key (List.mem_range.mp hk)]

theorem Shows.blank (h : ∀ i < L.slots, v i = .erased) :
    Shows L φ v (LogState.blank L : LogState α).slots := fun i hi => by
  rw [h i hi, LogState.blank, toView, List.getD_eq_getElem _ _ (by simpa), List.getElem_replicate]
  rfl

end Shows

end SectorLog
