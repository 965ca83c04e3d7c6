/-
The order of publications.

A consumer tells a replayed message by its sequence number. What it relies on is that
the sequence numbers of the publications never go back, over all sessions and
reboots, and that a number stands for one measurement. Both come down to the
ledger of the flash: what is published is the oldest active record, every
record that becomes active later is newer than all before it, and a sequence is never
used twice.
-/
import PicoDataLogger.Delivery
import PicoDataLogger.Retirement
import Mathlib.Data.List.Pairwise

set_option autoImplicit false

namespace PicoDataLogger

open Interaction NorFlash SectorLog

/-! ## What a run submits -/

/-- The flash primitives among the questions. -/
def flashEvents (H : List (Event Ask World)) : List (Event Prim Flash) :=
  H.filterMap fun e => match e.prim with
    | .flash _ p => some ⟨p, e.before.flash, e.after.flash⟩
    | _ => none

/-- A later submission is not older, and with the same sequence it is of the same reading. -/
def InOrder (s t : Reading × Publication) : Prop :=
  s.1.sequence ≤ t.1.sequence ∧ (s.1.sequence = t.1.sequence → s.1 = t.1)

/-- What a run so far has submitted, against its ledger. -/
structure Published (g : Region) (app : App) (H : List (Event Ask World)) (m : Flash) : Prop where
  ledger : Ledger g (flashEvents H) m
  carries : ∀ s ∈ submissions H, Carries app s
  order : (submissions H).Pairwise InOrder
  /-- What was submitted is a record that was committed. -/
  origin : ∀ s ∈ submissions H, ∃ r ∈ (flashEvents H).flatMap (commits g), s.1 = app.reading r
  /-- Nothing active is older than what was submitted. -/
  bound : ∀ s ∈ submissions H, ∀ r ∈ g.live m, s.1.sequence ≤ r.sequence

section Events

variable {ε : Type} {g : Region} {app : App} {H : List (Event Ask World)} {e : Event Ask World}
  {w w' : World} {m : Flash} {p : Prim} {J : Flash → MeasurementRecord → Prop}

/-- A commit above every readable record is a commit of some sequence. -/
theorem Legal.exists_fresh (h : Legal g J (fun m i record => ∃ n, Fresh g n m i record) m p) :
    ∃ n, Legal g J (Fresh g n) m p := by
  cases h with
  | quiet hq => exact ⟨0, .quiet hq⟩
  | acknowledge ho hJ => exact ⟨0, .acknowledge ho hJ⟩
  | commit hi hbody hblank hK =>
    obtain ⟨n, hn⟩ := hK
    exact ⟨n, .commit hi hbody hblank hn⟩

/-- Committed records with one sequence are one record. -/
theorem Ledger.unique {L : List (Event Prim Flash)} (h : Ledger g L m) {r s : MeasurementRecord}
    (hr : r ∈ L.flatMap (commits g)) (hs : s ∈ L.flatMap (commits g))
    (heq : r.sequence = s.sequence) : r = s := by
  by_contra hne
  have hkeys : (L.flatMap (commits g)).Pairwise fun a b => seqKey a ≠ seqKey b :=
    h.history.sorted.imp ne_of_lt
  have : Std.Symm fun a b : MeasurementRecord => seqKey a ≠ seqKey b := ⟨fun _ _ hab => hab.symm⟩
  exact hkeys.forall hr hs hne (congrArg UInt64.toNat heq)

/-- An active record was committed. -/
theorem Ledger.committed_of_live {L : List (Event Prim Flash)} (h : Ledger g L m)
    {r : MeasurementRecord} (hr : r ∈ g.live m) : r ∈ L.flatMap (commits g) := by
  obtain ⟨i, hi, hv⟩ := Region.mem_live.mp hr
  exact h.history.readable i r hi (by rw [hv, Slot.record?_active])

/-- The oldest record is active, and no active record is older. -/
theorem Region.oldest_le {i : ℕ} {r s : MeasurementRecord} (ho : g.oldest m = some (i, r))
    (hs : s ∈ g.live m) : r.sequence ≤ s.sequence := by
  obtain ⟨j, hj, hv⟩ := Region.mem_live.mp hs
  refine UInt64.le_iff_toNat_le.mpr ?_
  have hmin := firstMin_eq_some_iff.mp ho
  exact hmin.least j s (g.layout_slots ▸ hj) (by rw [hv, Slot.active?_active])

/-- A question that neither asks the flash nor submits changes nothing. -/
theorem Published.idle (h : Published g app H m) (hf : flashEvents [e] = [])
    (hs : submissions [e] = []) : Published g app (H ++ [e]) m := by
  have hflash : flashEvents (H ++ [e]) = flashEvents H := by
    rw [flashEvents, List.filterMap_append]
    exact (congrArg (_ ++ ·) hf).trans (List.append_nil _)
  have hsub : submissions (H ++ [e]) = submissions H := by
    rw [submissions, List.filterMap_append]
    exact (congrArg (_ ++ ·) hs).trans (List.append_nil _)
  constructor
  · rw [hflash]
    exact h.ledger
  · rw [hsub]
    exact h.carries
  · rw [hsub]
    exact h.order
  · rw [hsub, hflash]
    exact h.origin
  · rw [hsub]
    exact h.bound

/-- A flash primitive leaves nothing active that is older than what was submitted: what it
commits is newer than all that was committed before. -/
theorem Published.flash {c : Call} {n : ℕ} (h : Published g app H w.flash)
    (hl : Legal g J (Fresh g n) w.flash p) (himg : Faults.cutImage p w.flash w'.flash) :
    Published g app (H ++ [⟨.flash c p, w, w'⟩]) w'.flash := by
  -- a flash primitive is no submission: only the ledger and the live records move
  have hflash : flashEvents (H ++ [⟨.flash c p, w, w'⟩])
      = flashEvents H ++ [⟨p, w.flash, w'.flash⟩] := by
    rw [flashEvents, List.filterMap_append]
    rfl
  have hsub : submissions (H ++ [⟨.flash c p, w, w'⟩]) = submissions H := by
    rw [submissions, List.filterMap_append]
    exact List.append_nil _
  have hledger : Ledger g (flashEvents H ++ [⟨p, w.flash, w'.flash⟩]) w'.flash :=
    h.ledger.event (e := ⟨p, w.flash, w'.flash⟩) (hl.move himg)
  constructor
  · rwa [hflash]
  · rw [hsub]
    exact h.carries
  · rw [hsub]
    exact h.order
  · rw [hsub, hflash]
    intro s hs
    obtain ⟨r, hr, hread⟩ := h.origin s hs
    refine ⟨r, ?_, hread⟩
    rw [List.flatMap_append]
    exact List.mem_append_left _ hr
  · rw [hsub]
    intro s hs r hr
    rcases mem_live_or_newly hr with hlive | hnew
    · exact h.bound s hs r hlive
    · obtain ⟨r₀, hr₀, hread⟩ := h.origin s hs
      have hsorted := hledger.history.sorted
      rw [List.flatMap_append, List.flatMap_singleton] at hsorted
      -- it is committed now, hence after the record of every earlier submission
      have hlt := (List.pairwise_append.mp hsorted).2.2 r₀ hr₀ r hnew
      rw [hread]
      exact UInt64.le_iff_toNat_le.mpr hlt.le

/-- A publication of the oldest record is in order. -/
theorem Published.publish {reading : Reading} {publication : Publication}
    (h : Published g app H m) (ho : OfOldest g app m reading publication) :
    Published g app (H ++ [⟨.await (.publish reading publication), w, w'⟩]) m := by
  obtain ⟨i, r, payload, hold, rfl, hpayload, rfl⟩ := ho
  -- a submission is no flash event: only the list of submissions grows
  have hflash : flashEvents (H ++ [⟨.await (.publish (app.reading r) (app.publication payload)), w, w'⟩])
      = flashEvents H := by
    rw [flashEvents, List.filterMap_append]
    exact List.append_nil _
  have hsub : submissions (H ++ [⟨.await (.publish (app.reading r) (app.publication payload)), w, w'⟩])
      = submissions H ++ [(app.reading r, app.publication payload)] := by
    rw [submissions, List.filterMap_append]
    rfl
  have hlive := Region.oldest_mem_live hold
  have hcommitted := h.ledger.committed_of_live hlive
  constructor
  · rw [hflash]
    exact h.ledger
  · rw [hsub]
    intro s hs
    rcases List.mem_append.mp hs with hs | hs
    · exact h.carries s hs
    · obtain rfl := List.mem_singleton.mp hs
      exact ⟨payload, hpayload, rfl⟩
  · rw [hsub, List.pairwise_append]
    refine ⟨h.order, List.pairwise_singleton _ _, fun s hs t ht => ?_⟩
    obtain rfl := List.mem_singleton.mp ht
    -- no earlier submission is newer, and an equal sequence is the same record
    refine ⟨h.bound s hs r hlive, fun heq => ?_⟩
    obtain ⟨r₀, hr₀, hread⟩ := h.origin s hs
    rw [hread] at heq ⊢
    rw [h.ledger.unique hr₀ hcommitted heq]
  · rw [hsub, hflash]
    intro s hs
    rcases List.mem_append.mp hs with hs | hs
    · exact h.origin s hs
    · obtain rfl := List.mem_singleton.mp hs
      exact ⟨r, hcommitted, rfl⟩
  · rw [hsub]
    intro s hs t ht
    rcases List.mem_append.mp hs with hs | hs
    · exact h.bound s hs t ht
    · obtain rfl := List.mem_singleton.mp hs
      exact Region.oldest_le hold ht

/-- **One question** keeps the order. -/
theorem Published.event (h : Published g app H e.before.flash)
    (hp : Proper g app (fun m i record => ∃ n, Fresh g n m i record) e.prim e.before e.after)
    (hev : (∃ r, (surroundings .storage ε).respond e.prim e.before r e.after)
      ∨ (surroundings .storage ε).cut e.prim e.before e.after) :
    Published g app (H ++ [e]) e.after.flash := by
  obtain ⟨a, w, w'⟩ := e
  cases a with
  | flash c p =>
    obtain ⟨n, hl⟩ := Legal.exists_fresh hp
    exact h.flash hl (image_of_possible hev)
  | await a =>
    have hsame : w'.flash = w.flash := flash_of_possible (fun _ _ h => by cases h) hev
    rw [hsame]
    cases a with
    | publish reading publication => exact h.publish hp
    | _ => exact h.idle rfl rfl
  | query q =>
    have hsame : w'.flash = w.flash := flash_of_possible (fun _ _ h => by cases h) hev
    rw [hsame]
    exact h.idle rfl rfl

end Events

section Runs

variable {ε : Type} {geo : Geometry} {app : App} {m₀ : Flash} {D D' : Device}
  {tr : List (Event Ask World)} {es : List (Taken Device (List (Event Ask World)))}
  {H : List (Event Ask World)}

/-- Consistency is an invariant of the firmware, as long as the counter does not wrap. -/
theorem consistent_upholds (ε : Type) (g : Region) :
    Upholds ε g (fun m i record => ∃ n, Fresh g n m i record)
      (fun q m => Consistent g ⟨m, some q⟩ ∧ q.next_sequence.toNat + 1 < 2 ^ 64)
      (fun q m => Consistent g ⟨m, some q⟩) fun m => Consistent g ⟨m, none⟩ where
  counted h := (h.up _ rfl).toCounted
  sub h := h.1
  off h := ⟨h.sound, h.bounded, fun q hq => by cases hq⟩
  fresh {q m} s i h hf := by
    have hq := h.1.up q rfl
    obtain rfl := hq.region
    refine ⟨_, rfl, ?_⟩
    rw [Region.Sound, Region.view_bodied hf]
    exact (sound_cleared hq.sound).spoil
  append {q m s m' r} h hend := by
    have := h.1.append h.2 hend
    cases r with
    | ok a q' => exact this
    | error e q' => exact this
    | cut => exact this
  acknowledge_oldest {q m m' r} h hend := by
    have := h.acknowledge_oldest hend
    cases r with
    | ok a q' => exact this
    | error e q' => exact this
    | cut => exact this

/-- A recovery finds a consistent flash consistent. -/
theorem consistent_boot {g : Region} {m m' : Flash}
    {o : Outcome (Except (QueueError ε) (FlashQueue × RecoveryReport))}
    (hM : Consistent g ⟨m, none⟩) (hend : RecoverEnd .storage g m o m') :
    (∀ q, recovered o = some q → Consistent g ⟨m', some q⟩) ∧ Consistent g ⟨m', none⟩ := by
  have := hM.recover hend
  refine ⟨fun q hq => ?_, this.sound, this.bounded, fun q hq => by cases hq⟩
  rwa [hq] at this

/-- The device between two cycles: consistent, up or not. -/
structure Device.Consistent (g : Region) (D : Device) : Prop where
  off : PicoDataLogger.Consistent g ⟨D.world.flash, none⟩
  up : ∀ rt, D.runtime = some rt → PicoDataLogger.Consistent g ⟨D.world.flash, some rt.queue⟩

/-- A step keeps the device consistent, and asks nothing improper. -/
theorem Device.Consistent.step (hD : Device.Consistent geo.region D)
    (hwrap : Device.NoWrap ⟨D, tr, D'⟩) (h : Device.Step ε .storage geo app D tr D') :
    (∀ e ∈ tr, Proper geo.region app (fun m i record => ∃ n, Fresh geo.region n m i record)
        e.prim e.before e.after) ∧ Device.Consistent geo.region D' := by
  obtain ⟨hproper, hup, hoff⟩ := h.keeps (consistent_upholds ε geo.region) consistent_boot
    (fun rt hrt => ⟨hD.up rt hrt, hwrap rt hrt⟩) hD.off
  exact ⟨hproper, hoff, hup⟩

/-- **One step** keeps the order. -/
theorem Published.step (hP : Published geo.region app H D.world.flash)
    (hD : Device.Consistent geo.region D) (hwrap : Device.NoWrap ⟨D, tr, D'⟩)
    (h : Device.Step ε .storage geo app D tr D') :
    Published geo.region app (H ++ tr) D'.world.flash := by
  obtain ⟨hproper, -⟩ := hD.step hwrap h
  refine h.history (J := fun H w => Published geo.region app H w.flash) ?_ hP
  exact fun e he H hH hev => hH.event (hproper e he) hev

/-- Before anything was asked. -/
theorem Published.blank {g : Region} (h : g.Blank m₀) : Published g app [] m₀ where
  ledger := .blank h
  carries s hs := by cases hs
  order := List.Pairwise.nil
  origin s hs := by cases hs
  bound s hs := by cases hs

/-- **Publications are in order.** In every run of the device from a blank region, with power
losses, storage errors and dropped cycles anywhere and any answers of the network, as
long as the sequence counter does not wrap: the sequence numbers of the publications submitted,
over all reboots, never go back, each publication carries its reading, and two with
the same sequence number are of the same reading. -/
theorem publications_in_order (hblank : geo.region.Blank m₀)
    (hrun : DeviceRun ε .storage geo app m₀ es D) (hwrap : ∀ e ∈ es, Device.NoWrap e) :
    (submissions (asked es)).Pairwise InOrder ∧ ∀ s ∈ submissions (asked es), Carries app s := by
  have hinv := hrun.invariant_of_forall (C := Device.NoWrap)
    (I := fun es D => Device.Consistent geo.region D
      ∧ Published geo.region app (asked es) D.world.flash)
    ⟨⟨.blank hblank, fun rt hrt => by cases hrt⟩, .blank hblank⟩ (fun es D tr D' hw hI hs => ?_) hwrap
  · exact ⟨hinv.2.order, hinv.2.carries⟩
  · refine ⟨(hI.1.step hw hs).2, ?_⟩
    have := hI.2.step hI.1 hw hs
    simpa [asked] using this

/-- The first record of a device on a blank region, published twice. -/
theorem publications_in_order_first : ∃ es D x,
    DeviceRun Unit .storage Geometry.twoSectors App.basement_sensor blankFlash es D
      ∧ submissions (asked es) = [x, x] ∧ (submissions (asked es)).Pairwise InOrder
      ∧ ∀ s ∈ submissions (asked es), Carries App.basement_sensor s := by
  have hblank := blank_blankFlash Geometry.twoSectors.region
  obtain ⟨es, D, s, hrun, hwrap, hsub, -⟩ := exists_first_delivery Unit .storage
    App.basement_sensor hblank encode_basement_sensor
  exact ⟨es, D, _, hrun, hsub, publications_in_order hblank hrun hwrap⟩

end Runs

end PicoDataLogger
