/-
The active records of a sector log, as the list the log stands for.

`live` is that list: the active records in the order of their keys. The log's
operations do to it what their names say. Retiring the oldest record drops the
head (`live_retire`), committing a record with a new key appends it
(`live_commit`), and reclaiming, spoiling and erasing leave it alone. This is
where physical order stops: which slot a record is in, and what retired records
lie between, cannot be seen in `live`.

Committing appends only while keys are unique, which is `Sound`. Retiring and
`depth` need no such promise.

Nothing here names a particular record or device.
-/
import PicoDataLogger.SectorLog
import Mathlib.Data.List.Sort

set_option autoImplicit false

namespace SectorLog

variable {ρ : Type} {L : Layout} {key : ρ → ℕ} {v v' : View ρ} {i j k n : ℕ} {r s : ρ}

/-! ## Unique keys -/

/-- Every readable key is below `n`, and no two slots share one. -/
structure Sound (L : Layout) (key : ρ → ℕ) (v : View ρ) (n : ℕ) : Prop where
  fresh : ∀ i r, i < L.slots → (v i).record? = some r → key r < n
  distinct : ∀ i j r s, i < L.slots → j < L.slots → (v i).record? = some r →
    (v j).record? = some s → key r = key s → i = j

namespace Sound

/-- Losing records keeps the rest sound. -/
theorem of_le (h : Sound L key v n)
    (hle : ∀ i r, i < L.slots → (v' i).record? = some r → (v i).record? = some r) :
    Sound L key v' n where
  fresh i r hi hr := h.fresh i r hi (hle i r hi hr)
  distinct i j r s hi hj hr hs := h.distinct i j r s hi hj (hle i r hi hr) (hle j s hj hs)

theorem mono {n' : ℕ} (h : Sound L key v n) (hn : n ≤ n') : Sound L key v n' where
  fresh i r hi hr := (h.fresh i r hi hr).trans_le hn
  distinct := h.distinct

theorem reclaimTo (h : Sound L key v n) : Sound L key (reclaimTo L key v k) n :=
  h.of_le fun _ _ _ => record?_of_reclaimTo

theorem spoil (h : Sound L key v n) : Sound L key (spoil v i) n :=
  h.of_le fun j r _ hr => by
    rcases eq_or_ne j i with rfl | hj
    · rw [SectorLog.spoil, Function.update_self] at hr
      cases hr
    · rwa [SectorLog.spoil, Function.update_of_ne hj] at hr

theorem retire (h : Sound L key v n) (hi : v i = .active r) : Sound L key (retire v i r) n :=
  h.of_le fun j s _ hs => by
    rcases eq_or_ne j i with rfl | hj
    · rw [SectorLog.retire, Function.update_self] at hs
      rw [hi]
      exact hs
    · rwa [SectorLog.retire, Function.update_of_ne hj] at hs

/-- Committing the next key keeps the log sound, for the key after it. -/
theorem commit (h : Sound L key v n) (hr : key r = n) : Sound L key (commit v i r) (n + 1) := by
  have hcases : ∀ j s, j < L.slots → (SectorLog.commit v i r j).record? = some s →
      (j = i ∧ s = r) ∨ (j ≠ i ∧ (v j).record? = some s) := by
    intro j s _ hs
    rcases eq_or_ne j i with rfl | hj
    · rw [SectorLog.commit, Function.update_self] at hs
      exact .inl ⟨rfl, (Option.some.inj hs).symm⟩
    · rw [SectorLog.commit, Function.update_of_ne hj] at hs
      exact .inr ⟨hj, hs⟩
  constructor
  · intro j s hj hs
    rcases hcases j s hj hs with ⟨-, rfl⟩ | ⟨-, hs⟩
    · omega
    · exact (h.fresh j s hj hs).trans n.lt_succ_self
  · intro j k s t hj hk hs ht hst
    rcases hcases j s hj hs with ⟨hji, hsr⟩ | ⟨-, hs⟩ <;>
      rcases hcases k t hk ht with ⟨hki, htr⟩ | ⟨-, ht⟩
    · exact hji.trans hki.symm
    · have := h.fresh k t hk ht
      rw [hsr] at hst
      omega
    · have := h.fresh j s hj hs
      rw [htr] at hst
      omega
    · exact h.distinct j k s t hj hk hs ht hst

end Sound

/-! ## The list -/

/-- The active records in the order of their keys. -/
def live (L : Layout) (key : ρ → ℕ) (v : View ρ) : List ρ :=
  ((List.range L.slots).filterMap fun i => (v i).active?).mergeSort fun a b => key a ≤ key b

@[simp] theorem mem_live : r ∈ live L key v ↔ ∃ i < L.slots, v i = .active r := by
  simp [live]

/-- The list depends on the active records only. -/
theorem live_congr (h : ∀ i < L.slots, (v i).active? = (v' i).active?) :
    live L key v = live L key v' := by
  rw [live, live, List.filterMap_congr fun i hi => h i (List.mem_range.mp hi)]

@[simp] theorem live_reclaimTo : live L key (reclaimTo L key v k) = live L key v :=
  live_congr fun i _ => active?_reclaimTo i

/-- Changing a slot that is not active to one that is not active changes no record. -/
theorem live_update {c : Slot ρ} (hi : (v i).active? = none) (hc : c.active? = none) :
    live L key (Function.update v i c) = live L key v := by
  refine live_congr fun j _ => ?_
  rcases eq_or_ne j i with rfl | hj
  · rw [Function.update_self, hi, hc]
  · rw [Function.update_of_ne hj]

/-- With unique keys the list is strictly sorted. -/
theorem Sound.pairwise_live (h : Sound L key v n) :
    (live L key v).Pairwise fun a b => key a < key b := by
  have hne : ((List.range L.slots).filterMap fun i => (v i).active?).Pairwise
      fun a b => key a ≠ key b := by
    rw [List.pairwise_filterMap]
    refine List.nodup_range.imp_of_mem fun {i j} hi hj hij a ha b hb hab => hij ?_
    exact h.distinct i j a b (List.mem_range.mp hi) (List.mem_range.mp hj)
      (Slot.record?_of_active? ha) (Slot.record?_of_active? hb) hab
  have hle : (live L key v).Pairwise fun a b => key a ≤ key b := by
    have htrans : ∀ a b c : ρ, decide (key a ≤ key b) → decide (key b ≤ key c) →
        decide (key a ≤ key c) := by
      simpa using fun a b c => Nat.le_trans
    have htotal : ∀ a b : ρ, decide (key a ≤ key b) || decide (key b ≤ key a) := by
      simpa using fun a b => Nat.le_total (key a) (key b)
    exact (List.pairwise_mergeSort htrans htotal _).imp fun h => of_decide_eq_true h
  have hne' : (live L key v).Pairwise fun a b => key a ≠ key b :=
    ((List.mergeSort_perm _ _).pairwise_iff fun h => h.symm).mpr hne
  exact hle.imp₂ (fun _ _ => lt_of_le_of_ne) hne'

/-- A strictly sorted list of the active records is the list. -/
theorem Sound.live_eq (h : Sound L key v n) {l : List ρ}
    (hl : l.Pairwise fun a b => key a < key b)
    (hmem : ∀ r, r ∈ l ↔ ∃ i < L.slots, v i = .active r) : live L key v = l := by
  have : Std.Antisymm fun a b : ρ => key a < key b := ⟨fun _ _ h₁ h₂ => absurd h₁ h₂.asymm⟩
  have : Std.Irrefl fun a b : ρ => key a < key b := ⟨fun _ => lt_irrefl _⟩
  exact h.pairwise_live.eq_of_mem_iff hl fun r => by rw [mem_live, hmem]

theorem oldest_spec (h : oldest L key v = some (i, r)) :
    i < L.slots ∧ v i = .active r ∧ ∀ j s, j < L.slots → v j = .active s → key r ≤ key s := by
  obtain ⟨hi, hv, hleast, -⟩ := firstMin_eq_some_iff.mp h
  exact ⟨hi, Slot.active?_eq_some.mp hv, fun j s hj hs => hleast j s hj (by rw [hs]; rfl)⟩

theorem oldest_eq_none : oldest L key v = none ↔ live L key v = [] := by
  rw [oldest, firstMin_eq_none_iff, List.eq_nil_iff_forall_not_mem]
  constructor
  · intro h r hr
    obtain ⟨i, hi, hv⟩ := mem_live.mp hr
    have := h i hi
    simp [hv] at this
  · intro h i hi
    cases hv : (v i).active? with
    | none => rfl
    | some r => exact absurd (mem_live.mpr ⟨i, hi, Slot.active?_eq_some.mp hv⟩) (h r)

/-! ## Retiring the oldest -/

section Stability

variable {α : Type} {le : α → α → Bool}

/-- Sorting is inserting in front of the first element that is not strictly less. -/
theorem mergeSort_cons_eq (trans : ∀ a b c, le a b → le b c → le a c)
    (total : ∀ a b, le a b || le b a) (b : α) (l : List α) :
    (b :: l).mergeSort le
      = (l.mergeSort le).takeWhile (!le b ·) ++ b :: (l.mergeSort le).dropWhile (!le b ·) := by
  obtain ⟨l₁, l₂, hcons, hl, hlt⟩ := List.mergeSort_cons trans total b l
  have hsorted := List.pairwise_mergeSort trans total (b :: l)
  rw [hcons, List.pairwise_append, List.pairwise_cons] at hsorted
  have hle : ∀ c ∈ l₂, ¬ (!le b c) = true := by
    intro c hc
    simp [hsorted.2.1.1 c hc]
  rw [hcons, hl, List.takeWhile_append_of_pos hlt, List.dropWhile_append_of_pos hlt]
  cases l₂ with
  | nil => simp
  | cons c l₂ =>
    have hc := hle c List.mem_cons_self
    rw [List.takeWhile_cons_of_neg (p := (!le b ·)) hc,
      List.dropWhile_cons_of_neg (p := (!le b ·)) hc, List.append_nil]

/-- The first of the least elements comes out first, and the rest as without it. -/
theorem mergeSort_append_least (trans : ∀ a b c, le a b → le b c → le a c)
    (total : ∀ a b, le a b || le b a) {a : α} {l₁ l₂ : List α} (h₁ : ∀ b ∈ l₁, ¬ le b a)
    (h₂ : ∀ b ∈ l₂, le a b) :
    (l₁ ++ a :: l₂).mergeSort le = a :: (l₁ ++ l₂).mergeSort le := by
  induction l₁ with
  | nil =>
    -- nothing is to be moved in front of `a`
    have hnone : (l₂.mergeSort le).takeWhile (!le a ·) = [] := by
      cases hs : l₂.mergeSort le with
      | nil => rfl
      | cons c s =>
        have hc : c ∈ l₂.mergeSort le := by
          rw [hs]
          exact List.mem_cons_self
        exact List.takeWhile_cons_of_neg (by simp [h₂ c (List.mem_mergeSort.mp hc)])
    have hsplit := List.takeWhile_append_dropWhile (p := (!le a ·)) (l := l₂.mergeSort le)
    rw [hnone, List.nil_append] at hsplit
    rw [List.nil_append, mergeSort_cons_eq trans total, hnone, hsplit]
    rfl
  | cons b l₁ ih =>
    have hb : (!le b a) = true := by simp [h₁ b List.mem_cons_self]
    -- `a` stays the head: `b` is inserted behind it in both lists
    rw [List.cons_append, mergeSort_cons_eq trans total,
      ih fun c hc => h₁ c (List.mem_cons_of_mem _ hc),
      List.takeWhile_cons_of_pos (p := (!le b ·)) hb,
      List.dropWhile_cons_of_pos (p := (!le b ·)) hb, List.cons_append,
      ← mergeSort_cons_eq trans total]
    rfl

end Stability

/-- **Retiring the oldest** record drops the head, also where keys are not unique: among equal
keys the oldest is the one in the first slot, and sorting keeps the order of the slots. -/
theorem live_retire (ho : oldest L key v = some (i, r)) :
    live L key v = r :: live L key (SectorLog.retire v i r) := by
  obtain ⟨hi, hv, hleast, hfirst⟩ := firstMin_eq_some_iff.mp ho
  obtain ⟨k, hk⟩ := Nat.exists_eq_add_of_lt hi
  -- the slots before `i`, slot `i`, and the slots after it
  have hrange : List.range L.slots
      = List.range i ++ i :: (List.range k).map (i + 1 + ·) := by
    rw [hk, Nat.add_right_comm, List.range_add, List.range_succ, List.append_assoc]
    rfl
  have hother : ∀ j, j ≠ i → (SectorLog.retire v i r j).active? = (v j).active? :=
    fun j hj => by rw [SectorLog.retire, Function.update_of_ne hj]
  have hbefore : (List.range i).filterMap (fun j => (SectorLog.retire v i r j).active?)
      = (List.range i).filterMap fun j => (v j).active? :=
    List.filterMap_congr fun j hj => hother j (List.mem_range.mp hj).ne
  have hafter : ((List.range k).map (i + 1 + ·)).filterMap
        (fun j => (SectorLog.retire v i r j).active?)
      = ((List.range k).map (i + 1 + ·)).filterMap fun j => (v j).active? := by
    refine List.filterMap_congr fun j hj => hother j ?_
    obtain ⟨_, -, rfl⟩ := List.mem_map.mp hj
    omega
  have hat : (SectorLog.retire v i r i).active? = none := by
    rw [SectorLog.retire, Function.update_self, Slot.active?_acknowledged]
  rw [live, live, hrange, List.filterMap_append, List.filterMap_append,
    List.filterMap_cons_some (f := fun j => (v j).active?) hv,
    List.filterMap_cons_none (f := fun j => (SectorLog.retire v i r j).active?) hat, hbefore, hafter]
  -- before `i` every key is greater, after it none is less
  refine mergeSort_append_least (by simpa using fun a b c => Nat.le_trans)
    (by simpa using fun a b => Nat.le_total (key a) (key b)) (fun s hs => ?_) fun s hs => ?_
  · obtain ⟨j, hj, hjs⟩ := List.mem_filterMap.mp hs
    simpa using hfirst j s (List.mem_range.mp hj) hjs
  · obtain ⟨j, hj, hjs⟩ := List.mem_filterMap.mp hs
    obtain ⟨t, ht, rfl⟩ := List.mem_map.mp hj
    rw [List.mem_range] at ht
    simpa using hleast (i + 1 + t) s (by omega) hjs

/-! ## Committing a record -/

/-- **Committing a new key** appends the record. -/
theorem Sound.live_commit (h : Sound L key v n) (hi : i < L.slots) (hv : (v i).active? = none)
    (hr : key r = n) : live L key (SectorLog.commit v i r) = live L key v ++ [r] := by
  -- a list is the live one if it is in order and has the same members
  refine (h.commit hr).live_eq (List.pairwise_append.mpr ⟨h.pairwise_live,
    List.pairwise_singleton _ _, fun s hs t ht => ?_⟩) fun s => ?_
  · rw [List.mem_singleton] at ht
    obtain ⟨j, hj, hvj⟩ := mem_live.mp hs
    rw [ht, hr]
    exact h.fresh j s hj (by rw [hvj]; rfl)
  · rw [List.mem_append, mem_live, List.mem_singleton]
    constructor
    · rintro (⟨j, hj, hvj⟩ | rfl)
      · have hji : j ≠ i := by
          rintro rfl
          simp [hvj] at hv
        exact ⟨j, hj, by rw [SectorLog.commit, Function.update_of_ne hji, hvj]⟩
      · exact ⟨i, hi, by rw [SectorLog.commit, Function.update_self]⟩
    · rintro ⟨j, hj, hvj⟩
      rcases eq_or_ne j i with rfl | hji
      · rw [SectorLog.commit, Function.update_self, Slot.active.injEq] at hvj
        exact .inr hvj.symm
      · rw [SectorLog.commit, Function.update_of_ne hji] at hvj
        exact .inl ⟨j, hj, hvj⟩

/-! ## The newest record -/

/-- Retiring a record keeps it readable, so the newest record stays. -/
theorem newest_retire (hv : v i = .active r) : newest L key (retire v i r) = newest L key v := by
  refine firstMin_congr fun j _ => ?_
  rcases eq_or_ne j i with rfl | hj
  · rw [retire, Function.update_self, hv]
    rfl
  · rw [retire, Function.update_of_ne hj]

/-- A committed record with a key above the rest is the newest. -/
theorem Sound.newest_commit (hs : Sound L key v n) (hi : i < L.slots) (hr : key r = n) :
    newest L key (SectorLog.commit v i r) = some (i, r) := by
  have hother : ∀ j s, j ≠ i → j < L.slots → (SectorLog.commit v i r j).record? = some s →
      key s < key r := by
    intro j s hji hj hjs
    rw [SectorLog.commit, Function.update_of_ne hji] at hjs
    exact hr ▸ hs.fresh j s hj hjs
  have hself : (SectorLog.commit v i r i).record? = some r := by
    rw [SectorLog.commit, Function.update_self]
    rfl
  refine firstMin_eq_some_iff.mpr ⟨hi, hself, fun j s hj hjs => ?_, fun j s hj hjs => ?_⟩
  · rcases eq_or_ne j i with rfl | hji
    · rw [hself] at hjs
      rw [Option.some.inj hjs]
    · exact (hother j s hji hj hjs).le
  · exact hother j s hj.ne (hj.trans hi) hjs

/-! ## Where a slot can be found -/

theorem firstErased_eq_none : firstErased L v = none ↔ ∀ j < L.slots, v j ≠ .erased := by
  rw [firstErased, List.find?_eq_none]
  simp only [List.mem_range, Slot.isErased_iff, ne_eq]

/-- **Room.** On a settled log, retiring the oldest record and reclaiming gives an
erased slot exactly if there is one already, or the oldest record was the last
active one of a sector that does not hold the newest. -/
theorem Settled.exists_erased_iff (hset : Settled L key v) (ho : oldest L key v = some (i, r)) :
    (∃ j < L.slots, reclaim L key (retire v i r) j = .erased)
      ↔ (∃ j < L.slots, v j = .erased)
        ∨ (∀ j s, j / L.width = i / L.width → v j = .active s → j = i)
          ∧ ∀ j s, newest L key v = some (j, s) → j / L.width ≠ i / L.width := by
  obtain ⟨hi, hv, -⟩ := oldest_spec ho
  have hat : retire v i r i = .acknowledged (some r) := Function.update_self ..
  have hoff : ∀ j, j ≠ i → retire v i r j = v j := fun j hj => Function.update_of_ne hj ..
  have hnew : newest L key (retire v i r) = newest L key v := newest_retire hv
  constructor
  · rintro ⟨j, hj, he⟩
    rw [reclaim, reclaimTo] at he
    split at he
    · -- a sector became reclaimable, and it can only be the one of slot `i`
      rename_i hr
      obtain ⟨hk, hr⟩ := hr
      rw [reclaimable_iff, hnew] at hr
      obtain ⟨hact, ⟨d, hd, hdirty⟩, hnewest⟩ := hr
      have hsec : i / L.width = j / L.width := by
        -- otherwise the sector was reclaimable before, and a settled log has none
        by_contra hne
        refine hset _ hk (reclaimable_iff.mpr ⟨fun t ht => ?_, ⟨d, hd, ?_⟩, hnewest⟩)
        · rw [← hoff t (by rintro rfl; exact hne ht)]
          exact hact t ht
        · rw [← hoff d (by rintro rfl; exact hne hd)]
          exact hdirty
      refine .inr ⟨fun t s ht hs => ?_, fun t s ht => hsec ▸ hnewest t s ht⟩
      by_contra hti
      have := hact t (ht.trans hsec)
      rw [hoff t hti, hs] at this
      cases this
    · have hji : j ≠ i := by
        rintro rfl
        rw [hat] at he
        cases he
      exact .inl ⟨j, hj, by rwa [hoff j hji] at he⟩
  · rintro (⟨j, hj, he⟩ | ⟨hact, hnewest⟩)
    · have hji : j ≠ i := by
        rintro rfl
        rw [hv] at he
        cases he
      exact ⟨j, hj, reclaimTo_of_erased ((hoff j hji).trans he)⟩
    -- slot `i` is the dirty one that a reclaimable sector has to have
    · have hr : Reclaimable L key (retire v i r) (i / L.width) := by
        refine reclaimable_iff.mpr ⟨fun t ht => ?_, ⟨i, rfl, by rw [hat]; rfl⟩,
          fun t s hts => hnewest t s (hnew ▸ hts)⟩
        rcases eq_or_ne t i with rfl | hti
        · rw [hat, Slot.active?_acknowledged]
        · rw [hoff t hti, Option.eq_none_iff_forall_ne_some]
          exact fun s hs => hti (hact t s ht (Slot.active?_eq_some.mp hs))
      exact ⟨i, hi, by rw [reclaim, reclaimTo, if_pos ⟨L.sector_lt hi, hr⟩]⟩

/-! ## How many -/

theorem count_congr {p p' : ℕ → Prop} [DecidablePred p] [DecidablePred p']
    (h : ∀ i < n, p i ↔ p' i) : Nat.count p n = Nat.count p' n :=
  (Nat.count_mono_left fun i hi => (h i hi).mp).antisymm
    (Nat.count_mono_left fun i hi => (h i hi).mpr)

/-- Counting a predicate that changes in one place. -/
theorem count_update (p p' : ℕ → Prop) [DecidablePred p] [DecidablePred p'] (hi : i < n)
    (h : ∀ j, j ≠ i → (p j ↔ p' j)) :
    Nat.count p n + (if p' i then 1 else 0) = Nat.count p' n + if p i then 1 else 0 := by
  have hbelow : ∀ m ≤ i, Nat.count p m = Nat.count p' m := by
    intro m hm
    induction m with
    | zero => rfl
    | succ m ih =>
      rw [Nat.count_succ, Nat.count_succ, ih (Nat.le_of_succ_le hm)]
      simp only [h m (Nat.ne_of_lt hm)]
  induction n, hi using Nat.le_induction with
  | base =>
    rw [Nat.count_succ, Nat.count_succ, hbelow i le_rfl]
    omega
  | succ m hm ih =>
    rw [Nat.count_succ, Nat.count_succ]
    simp only [h m (Nat.ne_of_gt hm)]
    omega

theorem depth_update (v : View ρ) (c : Slot ρ) (hi : i < L.slots) :
    depth L v + (if c.active?.isSome then 1 else 0)
      = depth L (Function.update v i c) + if (v i).active?.isSome then 1 else 0 := by
  have := count_update (fun j => ((v j).active?).isSome = true)
    (fun j => ((Function.update v i c j).active?).isSome = true) hi
    fun j hj => by rw [Function.update_of_ne hj]
  rwa [Function.update_self] at this

theorem depth_retire (ho : oldest L key v = some (i, r)) :
    depth L (retire v i r) + 1 = depth L v := by
  obtain ⟨hi, hv, -⟩ := oldest_spec ho
  have := depth_update v (.acknowledged (some r)) hi
  rw [← retire] at this
  simpa [hv] using this.symm

theorem depth_commit (hi : i < L.slots) (hv : (v i).active? = none) :
    depth L (commit v i r) = depth L v + 1 := by
  have := depth_update v (.active r) hi
  rw [← commit] at this
  simpa [hv] using this.symm

theorem depth_spoil (hi : i < L.slots) (hv : (v i).active? = none) :
    depth L (spoil v i) = depth L v := by
  have := depth_update v .corrupt hi
  rw [← spoil] at this
  simpa [hv] using this.symm

/-- The list has as many records as there are active slots. -/
theorem length_live : (live L key v).length = depth L v := by
  rw [live, List.length_mergeSort, depth]
  induction L.slots with
  | zero => rfl
  | succ m ih =>
    rw [List.range_succ, List.filterMap_append, List.length_append, ih, Nat.count_succ]
    cases h : (v m).active? <;> simp [h]

end SectorLog
