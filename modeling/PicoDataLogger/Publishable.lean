/-
Which records can be published.

A record is published if the JSON of its reading fits the buffer. One that does not fit stays
the oldest, and while it does no attempt to drain the queue submits anything. Boot lets
a device up under a name with which that happens to every record.
-/
import PicoDataLogger.Drain

set_option autoImplicit false

namespace PicoDataLogger

open Interaction Proc

/-- 79 times U+0001. -/
def control_name : String := String.ofList (List.replicate 79 (Char.ofNat 1))

theorem utf8ByteSize_control_name : control_name.utf8ByteSize = 79 := by
  unfold control_name
  rw [← length_as_bytes, as_bytes_ofList, List.length_flatMap, List.map_replicate,
    List.sum_replicate_nat]
  decide

/-- Each of the characters is escaped with six bytes. -/
theorem length_escaped_control_name :
    (JsonSerializer.standard.escaped control_name).length = 474 := by
  unfold control_name JsonSerializer.escaped
  rw [String.toList_ofList, List.length_flatMap, List.map_replicate, List.sum_replicate_nat]
  decide

/-- A reading of nothing but zeros. -/
def zero_record : MeasurementRecord where
  sequence := 0
  timestamp_unix_s := 0
  temperature_c := ⟨0⟩
  relative_humidity_pct := ⟨0⟩
  vsys_voltage_v := none
  on_battery := none
  uptime_s := 0

section Publishing

variable {ε : Type} (S : JsonSerializer) {app : App} {chip_id : UInt64}

/-- **Which records can be published.** A record can be encoded exactly if the escaped device name
and the values leave room for the keys, the punctuation and the hardware ID. If not, and the
record is the oldest, no attempt to drain the queue submits anything; if so, there is one that
does. -/
theorem encode_reading_iff (happ : app.to_slice = S.to_slice)
    (hboot : boot_identity app.mqtt_client_id chip_id
      = some (app.hardware_id, app.effective_client_id)) (record : MeasurementRecord) :
    ((∃ payload, encode_reading app.to_slice (app.reading record) READING_JSON_BUFFER_SIZE
          = .ok payload)
        ↔ 167 + (S.escaped app.mqtt_client_id).length + S.values_length record
          ≤ READING_JSON_BUFFER_SIZE)
      ∧ ∀ (rt : Runtime) (w : World) (i : ℕ), rt.queue.region.oldest w.flash = some (i, record) →
        ((∃ (N : Network) (fuel : ℕ) (r : Except Dropped Bool) (rt' : Runtime) (w' : World),
            Yields (N.step ε) (drain_queue app fuel) rt w r rt' w'
              ∧ submitted w'.log ≠ submitted w.log)
          ↔ 167 + (S.escaped app.mqtt_client_id).length + S.values_length record
            ≤ READING_JSON_BUFFER_SIZE) := by
  obtain ⟨-, hhardware, -⟩ := boot_identity_eq_some.mp hboot
  have hiff := S.encode_reading_ok_iff record app.mqtt_client_id chip_id
  rw [← hhardware, ← happ] at hiff
  refine ⟨hiff, fun rt w i ho => ?_⟩
  rw [← hiff]
  constructor
  · rintro ⟨N, fuel, r, rt', w', hdrain, hsubmitted⟩
    by_contra hno
    cases fuel with
    | zero =>
      cases hdrain
      exact hsubmitted rfl
    | succ fuel =>
      have hjson : encode_reading app.to_slice (app.reading record) READING_JSON_BUFFER_SIZE
          = .error .bufferTooSmall := by
        cases hencode : encode_reading app.to_slice (app.reading record) READING_JSON_BUFFER_SIZE with
        | ok payload => exact absurd ⟨payload, hencode⟩ hno
        | error e => rfl
      obtain ⟨w₁, hstuck, -, hsame⟩ := drain_queue_stuck (ε := ε) (N := N) fuel ho hjson
      have hw : w' = w₁ := congrArg Prod.snd (hdrain.symm.trans hstuck)
      exact hsubmitted (hw ▸ hsame)
  · rintro ⟨payload, hjson⟩
    -- it is submitted also where the submission fails
    obtain ⟨r, rt', w', hround, hend⟩ := drain_round_ends (ε := ε)
      (N := .ofScript fun _ => .submission_failed) (fun _ => payload) 1 ho hjson rfl Nat.one_pos
    refine ⟨.ofScript fun _ => .submission_failed, 2, ?_⟩
    cases hend with
    | retired hack => cases hack
    | stopped _ _ hsub =>
      refine ⟨_, _, w', hround.bind (yields_pure false), ?_⟩
      rw [hsub]
      simp

/-- A reading of a device with a plain name. -/
theorem encode_reading_iff_basement : ∃ payload,
    encode_reading (App.named "basement-sensor").to_slice
      ((App.named "basement-sensor").reading zero_record) READING_JSON_BUFFER_SIZE = .ok payload := by
  refine (encode_reading_iff (ε := Unit) .standard rfl (boot_named (by decide)) zero_record).1.mpr ?_
  have hescaped : (JsonSerializer.standard.escaped "basement-sensor").length = 15 := by decide
  have hvalues := JsonSerializer.standard.values_length_le zero_record
  have hbuffer : READING_JSON_BUFFER_SIZE = 384 := rfl
  change 167 + (JsonSerializer.standard.escaped "basement-sensor").length + _ ≤ _
  omega

/-- **Not every record can be published**: a device named with 79 times U+0001 boots, and cannot
encode even a reading of zeros. -/
theorem control_name_not_encoded :
    boot_identity (App.named control_name).mqtt_client_id 0
        = some ((App.named control_name).hardware_id, (App.named control_name).effective_client_id)
      ∧ ¬ ∃ payload, encode_reading (App.named control_name).to_slice
          ((App.named control_name).reading zero_record) READING_JSON_BUFFER_SIZE = .ok payload := by
  refine ⟨boot_named utf8ByteSize_control_name.le, fun h => ?_⟩
  have hfits := (JsonSerializer.standard.encode_reading_ok_iff zero_record control_name 0).mp h
  have hescaped := length_escaped_control_name
  have hbuffer : READING_JSON_BUFFER_SIZE = 384 := rfl
  omega

end Publishing

end PicoDataLogger
