/-
How many slots of a log have been written, and what erasing gives back.

A committed record uses a slot, a retired one goes on using it, and only erasing
its sector gives it back. Erasing a sector gives back as many slots as have been
written in it, so an erase is worth a whole sector only if the sector has been
written throughout (`FullyWritten`).
-/
import PicoDataLogger.LiveRecords

set_option autoImplicit false

namespace SectorLog

variable {ρ : Type} {L : Layout} {key : ρ → ℕ} {v v' : View ρ} {i j k n : ℕ} {r s : ρ}

/-! ## How many slots have been written -/

/-- How many slots are not erased. -/
def used (L : Layout) (v : View ρ) : ℕ := Nat.count (fun i => (v i).isErased = false) L.slots

theorem used_update (v : View ρ) (c : Slot ρ) (hi : i < L.slots) :
    used L v + (if c.isErased = false then 1 else 0)
      = used L (Function.update v i c) + if (v i).isErased = false then 1 else 0 := by
  have := count_update (fun j => (v j).isErased = false)
    (fun j => (Function.update v i c j).isErased = false) hi
    fun j hj => by rw [Function.update_of_ne hj]
  rwa [Function.update_self] at this

theorem used_retire (ho : oldest L key v = some (i, r)) : used L (retire v i r) = used L v := by
  obtain ⟨hi, hv, -⟩ := oldest_spec ho
  have := used_update v (.acknowledged (some r)) hi
  rw [← retire] at this
  simpa [hv, Slot.isErased] using this.symm

theorem used_commit (hi : i < L.slots) (hv : v i = .erased) :
    used L (commit v i r) = used L v + 1 := by
  have := used_update v (.active r) hi
  rw [← commit] at this
  simpa [hv, Slot.isErased] using this.symm

/-- Every sector that reclaiming erases has been written throughout. -/
def FullyWritten (L : Layout) (key : ρ → ℕ) (v : View ρ) : Prop :=
  ∀ k < L.sectors, Reclaimable L key v k → ∀ i, i / L.width = k → v i ≠ .erased

/-- A predicate that holds throughout sector `k` counts `width` more than the same
predicate without the sector. -/
theorem count_sector {p p' : ℕ → Prop} [DecidablePred p] [DecidablePred p'] (hk : k < L.sectors)
    (hp : ∀ i, i / L.width = k → p i) (hp' : ∀ i, i / L.width = k → ¬ p' i)
    (h : ∀ i, i / L.width ≠ k → (p i ↔ p' i)) :
    Nat.count p L.slots = Nat.count p' L.slots + L.width := by
  obtain ⟨d, hd⟩ := Nat.exists_eq_add_of_lt hk
  have hslots : L.slots = k * L.width + (L.width + d * L.width) := by
    rw [Layout.slots, hd, Nat.add_assoc, Nat.add_mul, Nat.add_comm d, Nat.add_mul, Nat.one_mul]
  have hin : ∀ j < L.width, (k * L.width + j) / L.width = k := fun j hj => by
    rw [Nat.mul_comm, Nat.mul_add_div L.width_pos, Nat.div_eq_of_lt hj, Nat.add_zero]
  have hbelow : ∀ j < k * L.width, j / L.width ≠ k := fun j hj =>
    (Nat.div_lt_of_lt_mul (by rwa [Nat.mul_comm])).ne
  have habove : ∀ j, (k * L.width + (L.width + j)) / L.width ≠ k := fun j => by
    rw [← Nat.add_assoc, ← Nat.succ_mul, Nat.mul_comm, Nat.mul_add_div L.width_pos]
    exact (Nat.lt_of_lt_of_le k.lt_succ_self (Nat.le_add_right _ _)).ne'
  rw [hslots]
  simp only [Nat.count_add]
  rw [count_congr fun j hj => h j (hbelow j hj),
    Nat.count_of_forall fun j hj => hp _ (hin j hj),
    Nat.count_of_forall_not fun j hj => hp' _ (hin j hj),
    count_congr fun j _ => h _ (habove j)]
  omega

/-- **Erases pay for slots.** Where the sectors that are reclaimed have been written
throughout, each erase gives back a sector's worth of used slots. -/
theorem FullyWritten.used_reclaimTo (h : FullyWritten L key v) (hk : k ≤ L.sectors) :
    used L (reclaimTo L key v k) + L.width * Nat.count (Reclaimable L key v) k = used L v := by
  induction k with
  | zero => rw [reclaimTo_zero, Nat.count_zero, Nat.mul_zero, Nat.add_zero]
  | succ k ih =>
    have ih := ih (Nat.le_of_succ_le hk)
    rw [reclaimTo_succ, Nat.count_succ]
    split
    · rename_i hr
      have hsector : used L (reclaimTo L key v k)
          = used L (eraseSector L (reclaimTo L key v k) k) + L.width := by
        refine count_sector hk (fun i hi => ?_) (fun i hi => ?_) fun i hi => ?_
        · have : reclaimTo L key v k i = v i := by
            rw [reclaimTo, if_neg fun hlt => absurd hlt.1 (hi ▸ lt_irrefl k)]
          rw [this, Bool.eq_false_iff, ne_eq, Slot.isErased_iff]
          exact h k hk hr i hi
        · rw [eraseSector, if_pos hi]
          simp [Slot.isErased]
        · rw [eraseSector, if_neg hi]
      rw [Nat.mul_add, Nat.mul_one]
      omega
    · rwa [Nat.add_zero]

/-! ## When the reclaimed sectors are full -/

/-- Slot `i` holds the last active record of its sector, and the newest record is elsewhere. -/
def Last (L : Layout) (key : ρ → ℕ) (v : View ρ) (i : ℕ) : Prop :=
  (∀ j s, j / L.width = i / L.width → v j = .active s → j = i)
    ∧ ∀ j s, newest L key v = some (j, s) → j / L.width ≠ i / L.width

/-- On a settled log, retiring a record can only make its own sector reclaimable. -/
theorem Settled.fullyWritten_retire (hset : Settled L key v) (hv : v i = .active r)
    (h : Last L key v i → ∀ j, j / L.width = i / L.width → v j ≠ .erased) :
    FullyWritten L key (retire v i r) := by
  intro k hk hr j hj
  have hoff : ∀ t, t ≠ i → retire v i r t = v t := fun t ht => Function.update_of_ne ht ..
  rw [reclaimable_iff, newest_retire hv] at hr
  obtain ⟨hact, ⟨d, hd, hdirty⟩, hnew⟩ := hr
  have hki : k = i / L.width := by
    by_contra hne
    refine hset k hk (reclaimable_iff.mpr ⟨fun t ht => ?_, ⟨d, hd, ?_⟩, hnew⟩)
    · rw [← hoff t (by rintro rfl; exact hne ht.symm)]
      exact hact t ht
    · rwa [← hoff d (by rintro rfl; exact hne hd.symm)]
  subst hki
  rcases eq_or_ne j i with rfl | hji
  · rw [retire, Function.update_self]
    intro herased
    cases herased
  · rw [hoff j hji]
    refine h ⟨fun t s ht hs => ?_, hnew⟩ j hj
    by_contra hti
    have := hact t ht
    rw [hoff t hti, hs] at this
    cases this

/-- On a settled log, committing a record can only make the sector of the record that was
the newest reclaimable. -/
theorem Settled.fullyWritten_commit (hset : Settled L key v) (hi : i < L.slots)
    (hv : v i = .erased)
    (h : ∀ j s, newest L key v = some (j, s) → i / L.width ≠ j / L.width →
      (∀ t, t / L.width = j / L.width → (v t).active? = none) →
      ∀ t, t / L.width = j / L.width → v t ≠ .erased) :
    FullyWritten L key (commit v i r) := by
  intro k hk hrec j hj
  have hoff : ∀ t, t ≠ i → commit v i r t = v t := fun t ht => Function.update_of_ne ht ..
  rw [reclaimable_iff] at hrec
  obtain ⟨hact, ⟨d, hd, hdirty⟩, hnew⟩ := hrec
  have hne : ∀ t, t / L.width = k → t ≠ i := fun t ht => by
    rintro rfl
    have := hact t ht
    rw [commit, Function.update_self] at this
    cases this
  have hact' : ∀ t, t / L.width = k → (v t).active? = none := fun t ht =>
    hoff t (hne t ht) ▸ hact t ht
  rw [hoff j (hne j hj)]
  -- the sector was not reclaimable before, so it held the newest record
  by_cases hold : ∃ t s, newest L key v = some (t, s) ∧ t / L.width = k
  · obtain ⟨t, s, hts, rfl⟩ := hold
    exact h t s hts (fun hit => hne i hit rfl) hact' j hj
  · refine absurd (reclaimable_iff.mpr ⟨hact', ⟨d, hd, hoff d (hne d hd) ▸ hdirty⟩, ?_⟩) (hset k hk)
    exact fun t s hts htk => hold ⟨t, s, hts, htk⟩

end SectorLog
