/-
The JSON of a reading, and when it fits its buffer.

What is known of the serializer is fixed here: a compact object with the fields in
their order, integers in decimal, two bytes for a quote or a backslash in a string.
The texts of floats and the escapes of control characters are its own, within
bounds. The length of the JSON is then a sum, and its one part that boot does not
bound is the escaped device name: boot counts the bytes of the name, the buffer
has to hold the bytes of its escape.
-/
import PicoDataLogger.Device
import PicoDataLogger.Identity

set_option autoImplicit false

namespace PicoDataLogger

/-! ## The serializer -/

/-- What the JSON serializer chooses: the text of a finite number, and the escape of a control
character. -/
structure JsonSerializer where
  f32_text : F32 → List UInt8
  control_escape : Char → List UInt8
  length_f32_text : ∀ x, (f32_text x).length ≤ 16
  length_control_escape : ∀ c, (control_escape c).length ≤ 6

namespace JsonSerializer

/-- A character of a string. -/
def escape (S : JsonSerializer) (c : Char) : List UInt8 :=
  if c.toNat = 0x22 then as_bytes "\\\""
  else if c.toNat = 0x5c then as_bytes "\\\\"
  else if c.toNat < 0x20 then S.control_escape c
  else String.utf8EncodeChar c

/-- A string between its quotes. -/
def escaped (S : JsonSerializer) (s : String) : List UInt8 := s.toList.flatMap S.escape

def string (S : JsonSerializer) (s : String) : List UInt8 :=
  as_bytes "\"" ++ S.escaped s ++ as_bytes "\""

def null : List UInt8 := as_bytes "null"

def u64 (x : UInt64) : List UInt8 := (Nat.toDigits 10 x.toNat).map Char.toUInt8

def f32 (S : JsonSerializer) (x : F32) : List UInt8 := if x.is_finite then S.f32_text x else null

def bool (b : Bool) : List UInt8 := if b then as_bytes "true" else as_bytes "false"

def option {α : Type} (value : α → List UInt8) : Option α → List UInt8
  | none => null
  | some a => value a

def field (key : String) (value : List UInt8) : List UInt8 :=
  as_bytes "\"" ++ as_bytes key ++ as_bytes "\":" ++ value

def object (fields : List (List UInt8)) : List UInt8 :=
  as_bytes "\x7b" ++ (as_bytes ",").intercalate fields ++ as_bytes "\x7d"

/-- The fields in the order of the `struct`. -/
def reading (S : JsonSerializer) (reading : Reading) : List UInt8 :=
  object [
    field "device_id" (S.string reading.device_id),
    field "hardware_id" (S.string reading.hardware_id),
    field "sequence" (u64 reading.sequence),
    field "temperature_c" (S.f32 reading.temperature_c),
    field "relative_humidity_pct" (S.f32 reading.relative_humidity_pct),
    field "vsys_voltage_v" (option S.f32 reading.vsys_voltage_v),
    field "on_battery" (option bool reading.on_battery),
    field "timestamp_unix_s" (u64 reading.timestamp_unix_s),
    field "uptime_s" (u64 reading.uptime_s)]

/-- `serde_json_core::to_slice` -/
def to_slice (S : JsonSerializer) (reading : Reading) (buffer : ℕ) : Option (List UInt8) :=
  if (S.reading reading).length ≤ buffer then some (S.reading reading) else none

/-! ## Lengths -/

/-- How many bytes of the JSON come from the values of the record. -/
def values_length (S : JsonSerializer) (record : MeasurementRecord) : ℕ :=
  (u64 record.sequence).length + (S.f32 record.temperature_c).length
    + (S.f32 record.relative_humidity_pct).length
    + (option S.f32 record.vsys_voltage_v).length + (option bool record.on_battery).length
    + (u64 record.timestamp_unix_s).length + (u64 record.uptime_s).length

variable (S : JsonSerializer)

theorem length_field (key : String) (value : List UInt8) :
    (field key value).length = key.utf8ByteSize + 3 + value.length := by
  have hquote : (as_bytes "\"").length = 1 := rfl
  have hcolon : (as_bytes "\":").length = 2 := rfl
  unfold field
  rw [List.length_append, List.length_append, List.length_append, hquote, hcolon, length_as_bytes]
  omega

theorem length_string (s : String) : (S.string s).length = 2 + (S.escaped s).length := by
  have hquote : (as_bytes "\"").length = 1 := rfl
  unfold string
  rw [List.length_append, List.length_append, hquote]
  omega

/-- The braces, the fields and the commas between them. -/
theorem length_object (first : List UInt8) (rest : List (List UInt8)) :
    (object (first :: rest)).length
      = 2 + first.length + (rest.map fun value => value.length + 1).sum := by
  have hopen : (as_bytes "\x7b").length = 1 := rfl
  have hclose : (as_bytes "\x7d").length = 1 := rfl
  have hcomma : (as_bytes ",").length = 1 := rfl
  have hrest : ((as_bytes ",").intercalate (first :: rest)).length
      = first.length + (rest.map fun value => value.length + 1).sum := by
    induction rest generalizing first with
    | nil => rw [List.intercalate_singleton, List.map_nil, List.sum_nil, Nat.add_zero]
    | cons second rest ih =>
      rw [List.intercalate_cons_cons, List.length_append, List.length_append, hcomma, ih,
        List.map_cons, List.sum_cons]
      omega
  unfold object
  rw [List.length_append, List.length_append, hopen, hclose, hrest]
  omega

theorem length_reading (record : MeasurementRecord) (device_id hardware_id : String) :
    (S.reading (queued_reading record device_id hardware_id)).length
      = 151 + (S.escaped device_id).length + (S.escaped hardware_id).length
        + S.values_length record := by
  unfold reading values_length queued_reading
  rw [length_object]
  simp only [List.map_cons, List.map_nil, List.sum_cons, List.sum_nil, length_field, length_string]
  -- what is left is the lengths of the keys
  have hkeys : "device_id".utf8ByteSize = 9 ∧ "hardware_id".utf8ByteSize = 11
      ∧ "sequence".utf8ByteSize = 8 ∧ "temperature_c".utf8ByteSize = 13
      ∧ "relative_humidity_pct".utf8ByteSize = 21 ∧ "vsys_voltage_v".utf8ByteSize = 14
      ∧ "on_battery".utf8ByteSize = 10 ∧ "timestamp_unix_s".utf8ByteSize = 16
      ∧ "uptime_s".utf8ByteSize = 8 := ⟨rfl, rfl, rfl, rfl, rfl, rfl, rfl, rfl, rfl⟩
  omega

/-! ## Bounds -/

theorem length_u64_le (x : UInt64) : (u64 x).length ≤ 20 := by
  unfold u64
  rw [List.length_map, Nat.length_toDigits_le_iff (by decide) (by decide)]
  exact x.toNat_lt.trans (by decide)

theorem length_null : null.length = 4 := rfl

theorem length_f32_le (x : F32) : (S.f32 x).length ≤ 16 := by
  unfold f32
  split
  · exact S.length_f32_text x
  · rw [length_null]
    decide

theorem length_option_le {α : Type} {value : α → List UInt8} {n : ℕ} (hn : 4 ≤ n)
    (h : ∀ a, (value a).length ≤ n) (x : Option α) : (option value x).length ≤ n := by
  cases x with
  | none => exact hn
  | some a => exact h a

theorem length_bool_le (b : Bool) : (bool b).length ≤ 5 := by
  cases b with
  | false => exact le_rfl
  | true => exact Nat.le_succ 4

/-- The values never take more than this. -/
theorem values_length_le (record : MeasurementRecord) : S.values_length record ≤ 113 := by
  have hsequence := length_u64_le record.sequence
  have htimestamp := length_u64_le record.timestamp_unix_s
  have huptime := length_u64_le record.uptime_s
  have htemperature := S.length_f32_le record.temperature_c
  have hhumidity := S.length_f32_le record.relative_humidity_pct
  have hvoltage := length_option_le (by decide) S.length_f32_le record.vsys_voltage_v
  have hbattery := length_option_le (by decide) length_bool_le record.on_battery
  unfold values_length
  omega

/-- The characters that stand for themselves in a JSON string. -/
def Plain (c : Char) : Prop := c.toNat ≠ 0x22 ∧ c.toNat ≠ 0x5c ∧ 0x20 ≤ c.toNat

instance (c : Char) : Decidable (Plain c) := inferInstanceAs (Decidable (_ ∧ _))

theorem escape_of_plain {c : Char} (h : Plain c) : S.escape c = String.utf8EncodeChar c := by
  obtain ⟨hquote, hbackslash, hcontrol⟩ := h
  unfold escape
  rw [if_neg hquote, if_neg hbackslash, if_neg (Nat.not_lt.mpr hcontrol)]

theorem escaped_of_plain {s : String} (h : ∀ c ∈ s.toList, Plain c) : S.escaped s = as_bytes s := by
  have hs := as_bytes_ofList s.toList
  rw [String.ofList_toList] at hs
  rw [hs]
  exact List.flatMap_congr fun c hc => S.escape_of_plain (h c hc)

theorem plain_hex_digit (k : Fin 16) : Plain (hex_digit k) := by
  revert k
  decide

theorem length_escaped_hex (chip_id : UInt64) : (S.escaped (hex chip_id)).length = 16 := by
  rw [S.escaped_of_plain, length_as_bytes, utf8ByteSize_hex]
  intro c hc
  rw [hex, String.toList_ofList, List.mem_map] at hc
  obtain ⟨index, -, rfl⟩ := hc
  exact plain_hex_digit _

/-- An escape takes at most six times the bytes. -/
theorem length_escaped_le (s : String) : (S.escaped s).length ≤ 6 * s.utf8ByteSize := by
  have hs := as_bytes_ofList s.toList
  rw [String.ofList_toList] at hs
  rw [← length_as_bytes, hs]
  unfold escaped
  generalize s.toList = l
  induction l with
  | nil => exact Nat.zero_le _
  | cons c l ih =>
    have hc : (S.escape c).length ≤ 6 * (String.utf8EncodeChar c).length := by
      have hsize : 0 < (String.utf8EncodeChar c).length := by
        rw [String.length_utf8EncodeChar]
        exact c.utf8Size_pos
      unfold escape
      split
      · exact (by decide : 2 ≤ 6).trans (Nat.le_mul_of_pos_right 6 hsize)
      · split
        · exact (by decide : 2 ≤ 6).trans (Nat.le_mul_of_pos_right 6 hsize)
        · split
          · exact (S.length_control_escape c).trans (Nat.le_mul_of_pos_right 6 hsize)
          · exact Nat.le_mul_of_pos_left _ (by decide)
    rw [List.flatMap_cons, List.flatMap_cons, List.length_append, List.length_append, Nat.mul_add]
    exact Nat.add_le_add hc ih

theorem encode_reading_ok {reading : Reading}
    (h : (S.reading reading).length ≤ READING_JSON_BUFFER_SIZE) :
    encode_reading S.to_slice reading READING_JSON_BUFFER_SIZE = .ok (S.reading reading) := by
  unfold encode_reading to_slice
  rw [if_pos h]

/-- A reading of a device with a hardware ID fits its buffer if, next to the keys, the punctuation
and the hardware ID, there is room for the device name and the values. -/
theorem encode_reading_ok_iff (record : MeasurementRecord) (device_id : String) (chip_id : UInt64) :
    (∃ payload, encode_reading S.to_slice (queued_reading record device_id (hex chip_id))
        READING_JSON_BUFFER_SIZE = .ok payload)
      ↔ 167 + (S.escaped device_id).length + S.values_length record ≤ READING_JSON_BUFFER_SIZE := by
  have hlength := S.length_reading record device_id (hex chip_id)
  rw [S.length_escaped_hex] at hlength
  by_cases h : (S.reading (queued_reading record device_id (hex chip_id))).length
      ≤ READING_JSON_BUFFER_SIZE
  · exact iff_of_true ⟨_, S.encode_reading_ok h⟩ (by omega)
  · unfold encode_reading to_slice
    rw [if_neg h]
    refine iff_of_false ?_ (by omega)
    rintro ⟨payload, h⟩
    cases h

end JsonSerializer

/-! ## Names -/

/-- A serializer that writes a control character as other serializers do, and `0.0` as they do. -/
def JsonSerializer.standard : JsonSerializer where
  f32_text _ := as_bytes "0.0"
  control_escape c :=
    match c.toNat with
    | 8 => as_bytes "\\b"
    | 9 => as_bytes "\\t"
    | 10 => as_bytes "\\n"
    | 12 => as_bytes "\\f"
    | 13 => as_bytes "\\r"
    | n => as_bytes "\\u00" ++ [HEX.get (Fin.ofNat 16 (n / 16)), HEX.get (Fin.ofNat 16 n)]
  length_f32_text _ := by decide
  length_control_escape c := by
    split
    · decide
    · decide
    · decide
    · decide
    · decide
    · rw [List.length_append]
      exact le_rfl

/-- A device of this name, on chip 0. -/
def App.named (device_id : String) : App where
  wifi_ssid := "home"
  wifi_password := "secret"
  mqtt_host := "broker"
  mqtt_port := 1883
  mqtt_topic := "pico-data-logger/readings"
  mqtt_client_id := device_id
  ntp_host := "pool.ntp.org"
  hardware_id := hex 0
  effective_client_id := device_id ++ "-" ++ hex 0
  started_at := 0
  to_slice := JsonSerializer.standard.to_slice

def App.basement_sensor : App := .named "basement-sensor"

/-- What it publishes of a record. -/
def basement_payload (record : MeasurementRecord) : List UInt8 :=
  JsonSerializer.standard.reading (App.basement_sensor.reading record)

/-- A sample of nothing but zeros, whose JSON is what any serializer writes. -/
def Sample.zeros : Sample where
  timestamp_unix_s := 0
  temperature_c := ⟨0⟩
  relative_humidity_pct := ⟨0⟩
  uptime_s := 0
  vsys_voltage_v := none
  on_battery := none

theorem boot_named {device_id : String} (h : device_id.utf8ByteSize ≤ 79) :
    boot_identity (App.named device_id).mqtt_client_id 0
      = some ((App.named device_id).hardware_id, (App.named device_id).effective_client_id) :=
  boot_identity_eq_some.mpr ⟨h, rfl, rfl⟩

section Names

variable (S : JsonSerializer) {app : App} {chip_id : UInt64}

/-- Names without quotes, backslashes and control characters are safe: whatever boots with one can
encode every record. -/
theorem encode_reading_of_plain (happ : app.to_slice = S.to_slice)
    (hboot : boot_identity app.mqtt_client_id chip_id
      = some (app.hardware_id, app.effective_client_id))
    (hplain : ∀ c ∈ app.mqtt_client_id.toList, JsonSerializer.Plain c) (record : MeasurementRecord) :
    encode_reading app.to_slice (app.reading record) READING_JSON_BUFFER_SIZE
      = .ok (S.reading (app.reading record)) := by
  obtain ⟨hname, hhardware, -⟩ := boot_identity_eq_some.mp hboot
  have hvalues := S.values_length_le record
  have hescaped : (S.escaped app.mqtt_client_id).length = app.mqtt_client_id.utf8ByteSize := by
    rw [S.escaped_of_plain hplain, length_as_bytes]
  have hbuffer : READING_JSON_BUFFER_SIZE = 384 := rfl
  rw [happ]
  refine S.encode_reading_ok ?_
  rw [App.reading, hhardware, S.length_reading, S.length_escaped_hex, hescaped]
  omega

/-- So are names of up to 17 bytes, whatever they are made of. -/
theorem encode_reading_of_short (happ : app.to_slice = S.to_slice)
    (hboot : boot_identity app.mqtt_client_id chip_id
      = some (app.hardware_id, app.effective_client_id))
    (hshort : app.mqtt_client_id.utf8ByteSize ≤ 17) (record : MeasurementRecord) :
    encode_reading app.to_slice (app.reading record) READING_JSON_BUFFER_SIZE
      = .ok (S.reading (app.reading record)) := by
  obtain ⟨-, hhardware, -⟩ := boot_identity_eq_some.mp hboot
  have hvalues := S.values_length_le record
  have hescaped := S.length_escaped_le app.mqtt_client_id
  have hbuffer : READING_JSON_BUFFER_SIZE = 384 := rfl
  rw [happ]
  refine S.encode_reading_ok ?_
  rw [App.reading, hhardware, S.length_reading, S.length_escaped_hex]
  omega

theorem encode_basement_sensor (record : MeasurementRecord) :
    encode_reading App.basement_sensor.to_slice (App.basement_sensor.reading record)
      READING_JSON_BUFFER_SIZE = .ok (basement_payload record) := by
  have hplain : ∀ c ∈ "basement-sensor".toList, JsonSerializer.Plain c := by
    simp [JsonSerializer.Plain]
  exact encode_reading_of_plain .standard rfl (boot_named (by decide)) hplain record

end Names

end PicoDataLogger
