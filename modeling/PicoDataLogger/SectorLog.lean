/-
A log of records kept in slots, where slots are reclaimed a sector at a time.

A slot is erased, holds an active record, holds one that has been acknowledged,
or holds something that is no record. Records carry a key; the log knows their
order only by it. The two scans such a log rests on are the same scan: the first
slot with the least key among the active records (`oldest`), and the first slot
with the greatest key among all the records it can still read (`newest`).

Reclaiming erases every sector that holds no active record, holds something, and
does not hold the newest record. The reason for the last condition is
`newest_reclaimTo`: the greatest key ever written stays readable, so a
restart can go on counting from it.

Nothing here names a particular record or device.
-/
import Mathlib.Data.Nat.Count
import Mathlib.Data.Finset.Card
import Mathlib.Order.OrderDual
import Mathlib.Tactic.Common

set_option autoImplicit false

namespace SectorLog

/-! ## Slots -/

/-- What a slot holds. An acknowledged slot may have lost its record. -/
inductive Slot (ρ : Type) : Type where
  | erased
  | active (record : ρ)
  | acknowledged (record : Option ρ)
  | corrupt
deriving DecidableEq

variable {ρ : Type}

namespace Slot

/-- The active record of a slot. -/
def active? : Slot ρ → Option ρ
  | .active r => some r
  | _ => none

/-- The record of a slot, active or acknowledged. -/
def record? : Slot ρ → Option ρ
  | .active r => some r
  | .acknowledged o => o
  | _ => none

/-- A slot that only an erase makes usable again. -/
def dirty : Slot ρ → Bool
  | .acknowledged _ => true
  | .corrupt => true
  | _ => false

/-- A slot that can be written. -/
def isErased : Slot ρ → Bool
  | .erased => true
  | _ => false

@[simp] theorem active?_erased : (erased : Slot ρ).active? = none := rfl
@[simp] theorem active?_active (r : ρ) : (active r).active? = some r := rfl
@[simp] theorem active?_acknowledged (o : Option ρ) : (acknowledged o).active? = none := rfl
@[simp] theorem active?_corrupt : (corrupt : Slot ρ).active? = none := rfl
@[simp] theorem record?_erased : (erased : Slot ρ).record? = none := rfl
@[simp] theorem record?_active (r : ρ) : (active r).record? = some r := rfl
@[simp] theorem record?_acknowledged (o : Option ρ) : (acknowledged o).record? = o := rfl
@[simp] theorem record?_corrupt : (corrupt : Slot ρ).record? = none := rfl

@[simp] theorem active?_eq_some {c : Slot ρ} {r : ρ} : c.active? = some r ↔ c = .active r := by
  cases c <;> simp

@[simp] theorem isErased_iff {c : Slot ρ} : c.isErased = true ↔ c = .erased := by
  cases c <;> simp [isErased]

/-- An active record is a record. -/
theorem record?_of_active? {c : Slot ρ} {r : ρ} (h : c.active? = some r) :
    c.record? = some r := by
  rw [active?_eq_some] at h
  rw [h, record?_active]

end Slot

/-! ## The scan for the first least key -/

section FirstMin

variable {α : Type} [LinearOrder α] {κ : ρ → α} {f g : ℕ → Option ρ} {n i : ℕ} {r : ρ}

/-- One step of the scan: keep the best so far unless slot `i` beats it. -/
def pick (κ : ρ → α) (f : ℕ → Option ρ) (best : Option (ℕ × ρ)) (i : ℕ) : Option (ℕ × ρ) :=
  match f i with
  | none => best
  | some r => if best.all fun b => κ r < κ b.2 then some (i, r) else best

/-- The first of the slots below `n` whose record has the least `κ`. -/
def firstMin (κ : ρ → α) (f : ℕ → Option ρ) (n : ℕ) : Option (ℕ × ρ) :=
  (List.range n).foldl (pick κ f) none

theorem firstMin_succ (n : ℕ) : firstMin κ f (n + 1) = pick κ f (firstMin κ f n) n := by
  rw [firstMin, List.range_succ, List.foldl_append]
  rfl

/-- What the scan is for: `r` in slot `i` has the least `κ`, and `i` is the
first slot that does. -/
structure IsFirstMin (κ : ρ → α) (f : ℕ → Option ρ) (n i : ℕ) (r : ρ) : Prop where
  lt : i < n
  val : f i = some r
  least : ∀ j s, j < n → f j = some s → κ r ≤ κ s
  first : ∀ j s, j < i → f j = some s → κ r < κ s

/-- What the scan finds, one slot at a time: nothing while every slot is empty,
the first least record otherwise. -/
theorem firstMin_spec (κ : ρ → α) (f : ℕ → Option ρ) (n : ℕ) :
    (firstMin κ f n = none ∧ ∀ j < n, f j = none)
      ∨ ∃ i r, firstMin κ f n = some (i, r) ∧ IsFirstMin κ f n i r := by
  induction n with
  | zero => exact .inl ⟨rfl, fun j hj => absurd hj (Nat.not_lt_zero j)⟩
  | succ n ih =>
    rw [firstMin_succ]
    -- on the number of slots seen: what was found stays unless slot `n` is less
    rcases ih with ⟨hn, hall⟩ | ⟨i, r, hn, hmin⟩
    · cases hf : f n with
      | none =>
        refine .inl ⟨by simp [pick, hf, hn], fun j hj => ?_⟩
        rcases Nat.lt_succ_iff_lt_or_eq.mp hj with hj | rfl
        · exact hall j hj
        · exact hf
      | some r =>
        -- the first record found: nothing before it to compare with
        refine .inr ⟨n, r, by simp [pick, hf, hn], Nat.lt_succ_self n, hf, ?_, ?_⟩
        · intro j s hj hs
          rcases Nat.lt_succ_iff_lt_or_eq.mp hj with hj | rfl
          · simp [hall j hj] at hs
          · rw [hf] at hs
            exact (Option.some.inj hs).symm ▸ le_rfl
        · intro j s hj hs
          simp [hall j hj] at hs
    · cases hf : f n with
      | none =>
        refine .inr ⟨i, r, by simp [pick, hf, hn], hmin.lt.trans n.lt_succ_self, hmin.val, ?_,
          hmin.first⟩
        intro j s hj hs
        rcases Nat.lt_succ_iff_lt_or_eq.mp hj with hj | rfl
        · exact hmin.least j s hj hs
        · simp [hf] at hs
      | some q =>
        by_cases hq : κ q < κ r
        · -- slot `n` beats everything before it
          refine .inr ⟨n, q, by simp [pick, hf, hn, hq], n.lt_succ_self, hf, ?_, ?_⟩
          · intro j s hj hs
            rcases Nat.lt_succ_iff_lt_or_eq.mp hj with hj | rfl
            · exact hq.le.trans (hmin.least j s hj hs)
            · rw [hf] at hs
              exact (Option.some.inj hs).symm ▸ le_rfl
          · intro j s hj hs
            exact hq.trans_le (hmin.least j s hj hs)
        -- an equal one does not win, so the first of equals stays
        · refine .inr ⟨i, r, by simp [pick, hf, hn, hq], hmin.lt.trans n.lt_succ_self, hmin.val,
            ?_, hmin.first⟩
          intro j s hj hs
          rcases Nat.lt_succ_iff_lt_or_eq.mp hj with hj | rfl
          · exact hmin.least j s hj hs
          · rw [hf] at hs
            exact (Option.some.inj hs) ▸ not_lt.mp hq

/-- There is at most one first least record. -/
theorem IsFirstMin.unique {j : ℕ} {s : ρ} (h : IsFirstMin κ f n i r)
    (h' : IsFirstMin κ f n j s) : (i, r) = (j, s) := by
  have hij : i = j := by
    rcases Nat.lt_trichotomy i j with hlt | heq | hlt
    · exact absurd (h'.first i r hlt h.val) (not_lt.mpr (h.least j s h'.lt h'.val))
    · exact heq
    · exact absurd (h.first j s hlt h'.val) (not_lt.mpr (h'.least i r h.lt h.val))
  subst hij
  rw [Option.some.inj (h.val.symm.trans h'.val)]

theorem firstMin_eq_some_iff : firstMin κ f n = some (i, r) ↔ IsFirstMin κ f n i r := by
  rcases firstMin_spec κ f n with ⟨hn, hall⟩ | ⟨j, s, hn, hmin⟩
  · rw [hn]
    exact ⟨nofun, fun h => absurd h.val (by simp [hall i h.lt])⟩
  · rw [hn, Option.some.injEq]
    exact ⟨fun h => by cases h; exact hmin, fun h => hmin.unique h⟩

theorem firstMin_eq_none_iff : firstMin κ f n = none ↔ ∀ j < n, f j = none := by
  rcases firstMin_spec κ f n with ⟨hn, hall⟩ | ⟨j, s, hn, hmin⟩
  · exact ⟨fun _ => hall, fun _ => hn⟩
  · rw [hn]
    exact ⟨nofun, fun h => absurd hmin.val (by simp [h j hmin.lt])⟩

theorem firstMin_congr (h : ∀ j < n, f j = g j) : firstMin κ f n = firstMin κ g n := by
  induction n with
  | zero => rfl
  | succ n ih =>
    rw [firstMin_succ, firstMin_succ, ih fun j hj => h j (hj.trans n.lt_succ_self), pick, pick,
      h n n.lt_succ_self]

end FirstMin

/-! ## Sectors and views -/

/-- The shape of a log: so many sectors, each of so many slots. -/
structure Layout where
  sectors : ℕ
  width : ℕ
  width_pos : 0 < width

/-- The number of slots. -/
def Layout.slots (L : Layout) : ℕ := L.sectors * L.width

theorem Layout.sector_lt (L : Layout) {i : ℕ} (h : i < L.slots) : i / L.width < L.sectors :=
  Nat.div_lt_of_lt_mul (by rwa [Nat.mul_comm])

/-- What every slot holds. -/
abbrev View (ρ : Type) : Type := ℕ → Slot ρ

section Log

variable (L : Layout) (key : ρ → ℕ) (v : View ρ)

/-- The first slot with the least key among the active records. -/
def oldest : Option (ℕ × ρ) := firstMin key (fun i => (v i).active?) L.slots

/-- The first slot with the greatest key among the readable records. -/
def newest : Option (ℕ × ρ) :=
  firstMin (fun r => OrderDual.toDual (key r)) (fun i => (v i).record?) L.slots

/-- The first erased slot. -/
def firstErased : Option ℕ := (List.range L.slots).find? fun i => (v i).isErased

/-- How many records are active. -/
def depth : ℕ := Nat.count (fun i => ((v i).active?).isSome) L.slots

/-- Sector `k` holds no active record, holds something, and not the newest record. -/
def Reclaimable (k : ℕ) : Prop :=
  (∀ j < L.width, (v (k * L.width + j)).active? = none)
    ∧ (∃ j < L.width, (v (k * L.width + j)).dirty = true)
    ∧ ∀ b ∈ newest L key v, b.1 / L.width ≠ k

instance (k : ℕ) : Decidable (Reclaimable L key v k) :=
  inferInstanceAs (Decidable (_ ∧ _ ∧ _))

/-- The log with sector `k` erased. -/
def eraseSector (k : ℕ) : View ρ := fun i => if i / L.width = k then .erased else v i

/-- The log with the first `k` sectors reclaimed. -/
def reclaimTo (k : ℕ) : View ρ := fun i =>
  if i / L.width < k ∧ Reclaimable L key v (i / L.width) then .erased else v i

/-- The log with every sector reclaimed. -/
def reclaim : View ρ := reclaimTo L key v L.sectors

/-- The log with the record of slot `i` acknowledged. -/
def retire (i : ℕ) (r : ρ) : View ρ := Function.update v i (.acknowledged (some r))

/-- The log with a record in slot `i`. -/
def commit (i : ℕ) (r : ρ) : View ρ := Function.update v i (.active r)

/-- The log with slot `i` holding no record. -/
def spoil (i : ℕ) : View ρ := Function.update v i .corrupt

end Log

/-! ## Reclaiming -/

section Reclaim

variable {L : Layout} {key : ρ → ℕ} {v : View ρ} {i j k : ℕ} {r : ρ}

/-- The slots of sector `k` are the slots whose index divides to `k`. -/
theorem forall_sector_iff (L : Layout) (k : ℕ) (p : ℕ → Prop) :
    (∀ j < L.width, p (k * L.width + j)) ↔ ∀ i, i / L.width = k → p i := by
  constructor
  · rintro h i rfl
    have := h (i % L.width) (Nat.mod_lt _ L.width_pos)
    rwa [Nat.div_add_mod'] at this
  · intro h j hj
    apply h
    rw [Nat.mul_comm, Nat.mul_add_div L.width_pos, Nat.div_eq_of_lt hj, Nat.add_zero]

theorem reclaimable_iff : Reclaimable L key v k
    ↔ (∀ i, i / L.width = k → (v i).active? = none)
      ∧ (∃ i, i / L.width = k ∧ (v i).dirty = true)
      ∧ ∀ i r, newest L key v = some (i, r) → i / L.width ≠ k := by
  have hdirty : (∃ j < L.width, (v (k * L.width + j)).dirty = true)
      ↔ ∃ i, i / L.width = k ∧ (v i).dirty = true := by
    have h := not_congr (forall_sector_iff L k fun i => ¬ (v i).dirty = true)
    push Not at h
    exact h
  rw [Reclaimable, forall_sector_iff L k fun i => (v i).active? = none, hdirty]
  simp only [Option.mem_def, Prod.forall]

@[simp] theorem reclaimTo_zero : reclaimTo L key v 0 = v := by
  funext i
  simp [reclaimTo]

/-- Reclaiming one more sector. -/
theorem reclaimTo_succ : reclaimTo L key v (k + 1)
    = if Reclaimable L key v k then eraseSector L (reclaimTo L key v k) k
      else reclaimTo L key v k := by
  funext i
  split
  · rename_i h
    simp only [reclaimTo, eraseSector]
    rcases Nat.lt_trichotomy (i / L.width) k with hlt | heq | hgt
    · simp [hlt, hlt.ne, Nat.lt_succ_of_lt hlt]
    · simp [heq, h]
    · simp [hgt.not_gt, hgt.ne', (Nat.succ_le_of_lt hgt).not_gt]
  · rename_i h
    simp only [reclaimTo]
    rcases Nat.lt_trichotomy (i / L.width) k with hlt | heq | hgt
    · simp [hlt, Nat.lt_succ_of_lt hlt]
    · simp [heq, h]
    · simp [hgt.not_gt, (Nat.succ_le_of_lt hgt).not_gt]

/-- Reclaiming touches no active record. -/
@[simp] theorem active?_reclaimTo (i : ℕ) :
    (reclaimTo L key v k i).active? = (v i).active? := by
  rw [reclaimTo]
  split
  · rename_i h
    rw [(reclaimable_iff.mp h.2).1 i rfl, Slot.active?_erased]
  · rfl

/-- A slot after reclaiming is erased or as it was. -/
theorem reclaimTo_or (L : Layout) (key : ρ → ℕ) (v : View ρ) (k i : ℕ) :
    reclaimTo L key v k i = .erased ∨ reclaimTo L key v k i = v i := by
  rw [reclaimTo]
  split
  · exact .inl rfl
  · exact .inr rfl

/-- A record readable after reclaiming was readable before. -/
theorem record?_of_reclaimTo (h : (reclaimTo L key v k i).record? = some r) :
    (v i).record? = some r := by
  rcases reclaimTo_or L key v k i with he | he
  · rw [he, Slot.record?_erased] at h
    exact absurd h nofun
  · rwa [he] at h

/-- A sector that is not reclaimable keeps its slots. -/
theorem reclaimTo_of_not (h : ¬ Reclaimable L key v (i / L.width)) :
    reclaimTo L key v k i = v i := by
  rw [reclaimTo, if_neg fun hk => h hk.2]

@[simp] theorem reclaimTo_of_erased (h : v i = .erased) : reclaimTo L key v k i = .erased := by
  rcases reclaimTo_or L key v k i with he | he
  · exact he
  · rw [he, h]

/-- The newest record's sector is not reclaimable. -/
theorem not_reclaimable_of_newest (h : newest L key v = some (i, r)) :
    ¬ Reclaimable L key v (i / L.width) :=
  fun hk => (reclaimable_iff.mp hk).2.2 i r h rfl

/-- A sector with an active record is not reclaimable. -/
theorem not_reclaimable_of_active (h : v i = .active r) :
    ¬ Reclaimable L key v (i / L.width) := fun hk => by
  have := (reclaimable_iff.mp hk).1 i rfl
  simp [h] at this

/-- A sector that is not reclaimable, holds no active record and not the newest
one, has never been written since its erase. -/
theorem erased_of_not_reclaimable (h : ¬ Reclaimable L key v k)
    (hact : ∀ i, i / L.width = k → (v i).active? = none)
    (hnew : ∀ i r, newest L key v = some (i, r) → i / L.width ≠ k) (hi : i / L.width = k) :
    v i = .erased := by
  have hdirty : ¬ (v i).dirty = true := fun hd => h (reclaimable_iff.mpr ⟨hact, ⟨i, hi, hd⟩, hnew⟩)
  have ha := hact i hi
  cases hv : v i with
  | erased => rfl
  | active r => simp [hv] at ha
  | acknowledged o => simp [hv, Slot.dirty] at hdirty
  | corrupt => simp [hv, Slot.dirty] at hdirty

/-- The first erased slot is an erased slot of the log. -/
theorem firstErased_spec (h : firstErased L v = some i) : i < L.slots ∧ v i = .erased :=
  ⟨List.mem_range.mp (List.mem_of_find?_eq_some h), Slot.isErased_iff.mp (List.find?_some h :)⟩

/-- **The newest record stays.** Reclaiming any number of sectors leaves the
first greatest key where it was. -/
@[simp] theorem newest_reclaimTo : newest L key (reclaimTo L key v k) = newest L key v := by
  cases h : newest L key v with
  | none =>
    rw [newest, firstMin_eq_none_iff] at h ⊢
    intro j hj
    rcases reclaimTo_or L key v k j with he | he
    · rw [he, Slot.record?_erased]
    · rw [he, h j hj]
  | some b =>
    obtain ⟨i, r⟩ := b
    have hkeep : reclaimTo L key v k i = v i := reclaimTo_of_not (not_reclaimable_of_newest h)
    rw [newest, firstMin_eq_some_iff] at h ⊢
    exact ⟨h.lt, by rw [hkeep]; exact h.val,
      fun j s hj hs => h.least j s hj (record?_of_reclaimTo hs),
      fun j s hj hs => h.first j s hj (record?_of_reclaimTo hs)⟩

@[simp] theorem oldest_reclaimTo : oldest L key (reclaimTo L key v k) = oldest L key v :=
  firstMin_congr fun j _ => active?_reclaimTo j

@[simp] theorem depth_reclaimTo : depth L (reclaimTo L key v k) = depth L v := by
  simp only [depth, active?_reclaimTo]

/-- Sectors not yet visited are judged as they were at the start. -/
theorem reclaimable_reclaimTo (h : k ≤ j) :
    Reclaimable L key (reclaimTo L key v k) j ↔ Reclaimable L key v j := by
  have hsame : ∀ i, i / L.width = j → reclaimTo L key v k i = v i := by
    rintro i rfl
    rw [reclaimTo, if_neg fun hk => absurd hk.1 (not_lt.mpr h)]
  rw [reclaimable_iff, reclaimable_iff, newest_reclaimTo]
  simp only [active?_reclaimTo]
  refine and_congr_right fun _ => and_congr_left fun _ => ?_
  constructor <;> rintro ⟨i, hi, hd⟩ <;> refine ⟨i, hi, ?_⟩
  · rwa [hsame i hi] at hd
  · rwa [hsame i hi]

/-- No sector is left to reclaim. -/
def Settled (L : Layout) (key : ρ → ℕ) (v : View ρ) : Prop :=
  ∀ k < L.sectors, ¬ Reclaimable L key v k

/-- Reclaiming every sector leaves none to reclaim. -/
theorem settled_reclaim : Settled L key (reclaim L key v) := by
  intro k hk h
  obtain ⟨-, ⟨i, hi, hd⟩, hn⟩ := reclaimable_iff.mp h
  by_cases hv : Reclaimable L key v k
  · have : reclaim L key v i = .erased := by
      rw [reclaim, reclaimTo, if_pos ⟨hi.symm ▸ hk, hi.symm ▸ hv⟩]
    simp [this, Slot.dirty] at hd
  · refine hv (reclaimable_iff.mpr ⟨fun j hj => ?_, ⟨i, hi, ?_⟩, fun j s hs => ?_⟩)
    · have := (reclaimable_iff.mp h).1 j hj
      rwa [reclaim, active?_reclaimTo] at this
    · rwa [reclaim, reclaimTo_of_not (hi.symm ▸ hv)] at hd
    · exact hn j s (by rw [reclaim, newest_reclaimTo, hs])

end Reclaim

end SectorLog
