/-
One flash primitive of a run.

`Legal` is what is known of a primitive when the queue issues it: which scan
found the slot, and on which flash. Every primitive of every call is legal, on
any flash and under any faults (`step_legal`). `Move` is what a legal primitive
does to the log when the flash does no worse than `Faults.storage`: nothing, one
of the operations of `SectorLog`, and never anything else. Since a power loss
can come between any two primitives, what every move keeps is what the device
keeps at all times.
-/
import PicoDataLogger.Consistency

set_option autoImplicit false

namespace PicoDataLogger

open Interaction NorFlash SectorLog

/-! ## Legal primitives -/

/-- What is known of a primitive issued on flash `m`; `J` is what the caller knows of a
record it retires, `K` of a record it commits. -/
inductive Legal (g : Region) (J : Flash → MeasurementRecord → Prop)
    (K : Flash → ℕ → MeasurementRecord → Prop) (m : Flash) : Prim → Prop where
  | quiet {p : Prim} (h : Quiet g m p) : Legal g J K m p
  | acknowledge {i : ℕ} {record : MeasurementRecord} (ho : g.oldest m = some (i, record))
      (hJ : J m record) : Legal g J K m (.write (g.address i) [ACKNOWLEDGED])
  | commit {i : ℕ} {record : MeasurementRecord} (hi : i < g.slot_count)
      (hbody : g.slotBytes m i = record_body record) (hblank : g.view m i = .corrupt)
      (hK : K m i record) : Legal g J K m (.write (g.address i) [COMMITTED])

/-- The commit of `append` is legal: it finds the body it has just programmed. -/
theorem Legal.committing {q : FlashQueue} {m : Flash} {i : ℕ} {record : MeasurementRecord}
    {J : Flash → MeasurementRecord → Prop} {K : Flash → ℕ → MeasurementRecord → Prop}
    (hf : q.region.firstErased (q.cleared m) = some i)
    (hK : K (q.region.bodied (q.cleared m) i record) i record) :
    Legal q.region J K (q.region.bodied (q.cleared m) i record)
      (.write (q.region.address i) [COMMITTED]) :=
  .commit (Region.firstErased_lt hf) (q.region.slotBytes_body (Region.view_firstErased hf))
    (by rw [Region.view_bodied hf, spoil, Function.update_self]) hK

section Traces

variable {ε : Type} {F : Faults} {q : FlashQueue} {m m' : Flash} {s : Sample}
  {tr : List (Event Prim Flash)} {J : Flash → MeasurementRecord → Prop}
  {K : Flash → ℕ → MeasurementRecord → Prop}

theorem append_legal {o : Outcome (Except (QueueError ε) MeasurementRecord × FlashQueue)}
    (h : Exec (F.env ε) ((append s).prog q) m tr o m')
    (hJ : q.depth = q.capacity → ∀ i record, q.region.oldest m = some (i, record) → J m record)
    (hK : ∀ i, q.region.firstErased (q.cleared m) = some i →
      K (q.region.bodied (q.cleared m) i (s.record q.next_sequence)) i (s.record q.next_sequence)) :
    ∀ e ∈ tr, Legal q.region J K e.before e.prim :=
  (Proc.wp_sound (append_wp_ends (G := fun p m _ => Legal q.region J K m p)
    (fun _ _ _ hq => .quiet hq) (fun hd _ _ _ ho => .acknowledge ho (hJ hd _ _ ho))
    fun i _ hf => .committing hf (hK i hf)) h).1

theorem acknowledge_oldest_legal
    {o : Outcome (Except (QueueError ε) (Option MeasurementRecord) × FlashQueue)}
    (h : Exec (F.env ε) (acknowledge_oldest.prog q) m tr o m')
    (hJ : ∀ i record, q.region.oldest m = some (i, record) → J m record) :
    ∀ e ∈ tr, Legal q.region J K e.before e.prim :=
  (Proc.wp_sound (acknowledge_oldest_wp_ends (G := fun p m _ => Legal q.region J K m p)
    (fun _ _ _ hq => .quiet hq) fun _ _ _ ho => .acknowledge ho (hJ _ _ ho)) h).1

theorem peek_oldest_legal
    {o : Outcome (Except (QueueError ε) (Option MeasurementRecord) × FlashQueue)}
    (h : Exec (F.env ε) (peek_oldest.prog q) m tr o m') :
    ∀ e ∈ tr, Legal q.region J K e.before e.prim := by
  have hobs : Scans F (fun p m _ => Legal q.region J K m p) (peek_oldest : QueueM ε _) q m _ :=
    peek_oldest_scans fun _ _ hq => .quiet hq
  exact (Proc.wp_sound hobs h).1

theorem recover_legal {geo : Geometry}
    {o : Outcome (Except (QueueError ε) (FlashQueue × RecoveryReport))}
    (h : Exec (F.env ε) (recover geo.part geo.start geo.length) m tr o m') :
    ∀ e ∈ tr, Legal geo.region J K e.before e.prim :=
  (Prog.wp_sound (recover_wp_ends (G := fun p m _ => Legal geo.region J K m p)
    fun _ _ _ hq => .quiet hq) h).1

end Traces

/-! ## Moves -/

/-- What one primitive does to a log; `J` is what is known of a record it retires, `K` of a
record it commits. -/
inductive Move (g : Region) (J : MeasurementRecord → Prop) (K : ℕ → MeasurementRecord → Prop)
    (v : View MeasurementRecord) : View MeasurementRecord → Prop where
  | stay : Move g J K v v
  | retire {i : ℕ} {r : MeasurementRecord}
      (ho : SectorLog.oldest g.layout seqKey v = some (i, r)) (hJ : J r) :
      Move g J K v (SectorLog.retire v i r)
  | spoil {i : ℕ} (hi : SectorLog.firstErased g.layout v = some i) :
      Move g J K v (SectorLog.spoil v i)
  | erase {k : ℕ} (hk : k < g.sector_count) (hr : SectorLog.Reclaimable g.layout seqKey v k) :
      Move g J K v (eraseSector g.layout v k)
  | commit {i : ℕ} {record : MeasurementRecord} (hi : i < g.slot_count) (hv : v i = .corrupt)
      (hK : K i record) : Move g J K v (SectorLog.commit v i record.stored)

/-- Whatever a primitive does under `Faults.storage`, a power cut during it could have done. -/
theorem cutImage_of_event {ε : Type} {p : Prim} {m m' : Flash}
    (hev : (∃ r, (Faults.storage.env ε).respond p m r m')
      ∨ (Faults.storage.env ε).cut p m m') : Faults.cutImage p m m' := by
  rcases hev with ⟨r, hs | ⟨-, hf⟩⟩ | hc
  · cases p with
    | read offset len => cases hs; exact rfl
    | write offset data => cases hs; exact Region.torn_program _ _ _
    | erase first last => cases hs; exact .inr rfl
  · exact cutImage_of_failImage hf
  · exact hc

-- so that no unification evaluates a record's bytes
attribute [local irreducible] record_body

/-- **A legal primitive is a move**, whether it succeeds, fails, or is cut. -/
theorem Legal.move {g : Region} {J : Flash → MeasurementRecord → Prop}
    {K : Flash → ℕ → MeasurementRecord → Prop} {m m' : Flash} {p : Prim} (h : Legal g J K m p)
    (himg : Faults.cutImage p m m') : Move g (J m) (K m) (g.view m) (g.view m') := by
  cases h with
  | quiet hq =>
    cases hq with
    | read hi =>
      cases himg
      exact .stay
    | @body i record hf =>
      rw [Faults.cutImage, g.address_toNat (Region.firstErased_lt hf)] at himg
      -- a torn body is no record: the slot stays erased or turns corrupt
      rcases g.view_torn_body himg (Region.view_firstErased hf) with hv | hv
      · rw [hv]
        exact .stay
      · rw [hv]
        exact .spoil hf
    | @erase k hk hr =>
      rw [Faults.cutImage, g.sector_address_toNat hk, g.sector_end_toNat hk] at himg
      rcases himg with rfl | rfl
      · exact .stay
      · rw [g.view_eraseRange]
        exact .erase hk hr
  | @acknowledge i record ho hJ =>
    rw [Faults.cutImage, g.address_toNat (Region.oldest_lt ho)] at himg
    -- the state byte flips at once or not at all
    rcases g.view_torn_acknowledged himg (oldest_spec ho).2.1 with hv | hv
    · rw [hv]
      exact .stay
    · rw [hv]
      exact .retire ho hJ
  | @commit i record hi hbody hv hK =>
    rw [Faults.cutImage, g.address_toNat hi] at himg
    rcases g.view_torn_committed himg hbody with ⟨-, hv'⟩ | hv'
    · rw [hv']
      exact .stay
    · rw [hv']
      exact .commit hi hv hK

end PicoDataLogger
