/-
At-least-once delivery.

A record leaves the queue for one of two reasons only. `drain_queue` has just been told
that the publication it built from that record is complete; or the queue is full, and
`append` makes room. The device peeks, waits for the network for as long as it
takes, and then acknowledges whatever is oldest; that this is still the record it
published is because nothing else in the cycle touches the flash meanwhile, and a
cycle that is dropped there never comes back to acknowledge.

Nothing is assumed of the flash image, and nothing of the network.
-/
import PicoDataLogger.FirstCycles
import PicoDataLogger.ReadingJson

set_option autoImplicit false

namespace PicoDataLogger

open Interaction NorFlash SectorLog

section Events

variable {ε : Type} {g : Region} {app : App} {v v' : View MeasurementRecord}
  {J : MeasurementRecord → Prop} {L : ℕ → MeasurementRecord → Prop}
  {K : Flash → ℕ → MeasurementRecord → Prop} {i : ℕ} {r : MeasurementRecord}
  {e : Event Ask World}

/-- Only a retirement ends an active record, and it is the oldest one. -/
theorem Move.oldest_of_retired (h : Move g J L v v') (hv : v i = .active r)
    (hv' : v' i ≠ .active r) : SectorLog.oldest g.layout seqKey v = some (i, r) ∧ J r := by
  cases h with
  | stay => exact absurd hv hv'
  | @retire j s ho hJ =>
    by_cases hij : i = j
    · subst hij
      cases (oldest_spec ho).2.1.symm.trans hv
      exact ⟨ho, hJ⟩
    · rw [SectorLog.retire, Function.update_of_ne hij] at hv'
      exact absurd hv hv'
  | @spoil j hj =>
    have hij : i ≠ j := by
      intro hij
      rw [hij, (firstErased_spec hj).2] at hv
      cases hv
    rw [SectorLog.spoil, Function.update_of_ne hij] at hv'
    exact absurd hv hv'
  | @erase k hk hr =>
    -- a sector with an active record is not erased
    have hik : i / g.layout.width ≠ k := by
      rintro rfl
      exact not_reclaimable_of_active hv hr
    rw [eraseSector, if_neg hik] at hv'
    exact absurd hv hv'
  | @commit j record hj hc hL =>
    have hij : i ≠ j := by
      intro hij
      rw [hij, hc] at hv
      cases hv
    rw [SectorLog.commit, Function.update_of_ne hij] at hv'
    exact absurd hv hv'

/-- What a primitive leaves on the flash, a power cut during it could have left. -/
theorem image_of_possible {c : Call} {p : Prim} {w w' : World}
    (hev : (∃ r, (surroundings .storage ε).respond (.flash c p) w r w')
      ∨ (surroundings .storage ε).cut (.flash c p) w w') :
    Faults.cutImage p w.flash w'.flash := by
  rcases hev with ⟨r, m, hr, rfl⟩ | ⟨m, hc, rfl⟩
  · exact cutImage_of_event (ε := ε) (.inl ⟨r, hr⟩)
  · exact cutImage_of_event (ε := ε) (.inr hc)

/-- Asking anything else leaves the flash alone. -/
theorem flash_of_possible {a : Ask} {w w' : World} (ha : ∀ c p, a ≠ .flash c p)
    (hev : (∃ r, (surroundings .storage ε).respond a w r w')
      ∨ (surroundings .storage ε).cut a w w') : w'.flash = w.flash := by
  cases a with
  | flash c p => exact absurd rfl (ha c p)
  | await a =>
    rcases hev with ⟨r, rfl⟩ | rfl | rfl
    · rfl
    · rfl
    · rfl
  | query q =>
    rcases hev with ⟨r, rfl⟩ | rfl
    · rfl
    · rfl

/-- A proper question ends an active record only if that is justified. -/
theorem Proper.justified (h : Proper g app K e.prim e.before e.after)
    (hev : (∃ r, (surroundings .storage ε).respond e.prim e.before r e.after)
      ∨ (surroundings .storage ε).cut e.prim e.before e.after)
    (hv : g.view e.before.flash i = .active r) (hv' : g.view e.after.flash i ≠ .active r) :
    ∃ c p, e.prim = .flash c p ∧ g.oldest e.before.flash = some (i, r)
      ∧ Justified g app e.before r c := by
  obtain ⟨a, w, w'⟩ := e
  cases a with
  | flash c p =>
    have hlegal : Legal g (fun _ record => Justified g app w record c) K w.flash p := h
    obtain ⟨ho, hJ⟩ := (hlegal.move (image_of_possible hev)).oldest_of_retired hv hv'
    exact ⟨c, p, rfl, ho, hJ⟩
  | await a =>
    have hsame : w'.flash = w.flash := flash_of_possible (fun _ _ h => by cases h) hev
    rw [hsame] at hv'
    exact absurd hv hv'
  | query q =>
    have hsame : w'.flash = w.flash := flash_of_possible (fun _ _ h => by cases h) hev
    rw [hsame] at hv'
    exact absurd hv hv'

end Events

section Runs

variable {ε : Type} {geo : Geometry} {app : App} {m₀ : Flash} {D : Device}
  {es : List (Taken Device (List (Event Ask World)))}

/-- The count of active records is an invariant of the firmware, whatever is on the flash. -/
theorem counted_upholds (ε : Type) (g : Region) :
    Upholds ε g (fun _ _ _ => True) (Counted g) (Counted g) fun _ => True where
  counted h := h
  sub h := h
  off _ := trivial
  fresh _ _ _ _ := trivial
  append {q m s m' r} hI hend := by
    cases r with
    | ok a q' => exact hI.append hend rfl
    | error e q' => exact hI.append hend rfl
    | cut => exact trivial
  acknowledge_oldest {q m m' r} hI hend := by
    cases r with
    | ok a q' => exact hI.acknowledge_oldest hend rfl
    | error e q' => exact hI.acknowledge_oldest hend rfl
    | cut => exact trivial

/-- The queue of a device that is up counts the active records. -/
theorem DeviceRun.counted (hrun : DeviceRun ε .storage geo app m₀ es D) :
    ∀ rt, D.runtime = some rt → Counted geo.region rt.queue D.world.flash := by
  refine hrun.invariant (I := fun _ D => ∀ rt, D.runtime = some rt →
    Counted geo.region rt.queue D.world.flash) (fun rt hrt => by cases hrt) ?_
  intro es D tr D' hup hs
  exact (hs.keeps (counted_upholds ε geo.region)
    (fun _ hend => ⟨fun q hq => .recover hend hq, trivial⟩) hup trivial).2.1

/-- **At least once.** In every run of the device, on any flash image, with power losses,
storage errors and dropped cycles anywhere and any answers of the network: a record that
stops being active is the oldest one, and it is retired either by `append` while the queue
is full, or by `acknowledge_oldest` right after a publication built from that very record was
reported complete. -/
theorem at_least_once (hrun : DeviceRun ε .storage geo app m₀ es D) :
    ∀ e ∈ asked es, ∀ i r, geo.region.view e.before.flash i = .active r →
      geo.region.view e.after.flash i ≠ .active r →
        ∃ c p, e.prim = .flash c p ∧ geo.region.oldest e.before.flash = some (i, r)
          ∧ Justified geo.region app e.before r c := by
  intro e he i r hv hv'
  obtain ⟨t, ht, he⟩ := List.mem_flatMap.mp he
  obtain ⟨hs, es', hrun', -⟩ := hrun.of_mem ht
  have hproper := (hs.keeps (counted_upholds ε geo.region)
    (fun _ hend => ⟨fun q hq => .recover hend hq, trivial⟩) (DeviceRun.counted hrun') trivial).1
  exact (hproper e he).justified (hs.possible e he) hv hv'

/-- The first record of a device on a blank region is retired because it was delivered, or
because the queue was full. -/
theorem at_least_once_first : ∃ es D s,
    DeviceRun Unit .storage Geometry.twoSectors App.basement_sensor blankFlash es D
      ∧ ∃ e ∈ asked es, ∃ c p, e.prim = .flash c p
        ∧ Geometry.twoSectors.region.oldest e.before.flash
          = some (0, (s : Sample).record 0 |>.stored)
        ∧ Justified Geometry.twoSectors.region App.basement_sensor e.before
          (s.record 0).stored c := by
  obtain ⟨es, D, s, hrun, -, -, e, he, hv, hv'⟩ := exists_first_delivery Unit .storage
    App.basement_sensor (blank_blankFlash Geometry.twoSectors.region) encode_basement_sensor
  exact ⟨es, D, s, hrun, e, he, at_least_once hrun e he 0 _ hv hv'⟩

end Runs

end PicoDataLogger
