/-
`lib.rs`: the names a device goes by.

The hardware ID is the chip's number in hex, and the client ID is the configured
device name, a dash and the hardware ID. Both are written into byte buffers and
read back as UTF-8. The theorems say which strings come out, so that nothing after
this module looks at a buffer.
-/
import PicoDataLogger.Record

set_option autoImplicit false

namespace PicoDataLogger

/-! ## Strings as bytes -/

/-- `str::as_bytes`. -/
def as_bytes (s : String) : List UInt8 := s.toByteArray.data.toList

/-- `core::str::from_utf8`. -/
def from_utf8 (bytes : List UInt8) : Option String := String.fromUTF8? ⟨bytes.toArray⟩

@[simp] theorem length_as_bytes (s : String) : (as_bytes s).length = s.utf8ByteSize := rfl

@[simp] theorem as_bytes_append (s t : String) : as_bytes (s ++ t) = as_bytes s ++ as_bytes t := by
  simp [as_bytes, ByteArray.data_append]

theorem as_bytes_ofList (l : List Char) :
    as_bytes (String.ofList l) = l.flatMap String.utf8EncodeChar := by
  simp [as_bytes, List.utf8Encode]

theorem from_utf8_as_bytes (s : String) : from_utf8 (as_bytes s) = some s := by
  have harray : (⟨(as_bytes s).toArray⟩ : ByteArray) = s.toByteArray := by
    simp [as_bytes]
  unfold from_utf8 String.fromUTF8?
  rw [harray, dif_pos s.isValidUTF8]
  rfl

/-! ## The hardware ID -/

/-- `b"0123456789abcdef"` -/
def HEX : Vector UInt8 16 :=
  #v[0x30, 0x31, 0x32, 0x33, 0x34, 0x35, 0x36, 0x37, 0x38, 0x39, 0x61, 0x62, 0x63, 0x64, 0x65, 0x66]

/-- Which digit stands at `index`: `(chip_id >> (15 - index) * 4) & 0x0f`. -/
def hex_index (chip_id : UInt64) (index : ℕ) : Fin 16 :=
  ⟨((chip_id >>> UInt64.ofNat ((15 - index) * 4)) &&& 0x0f).toNat, by
    rw [UInt64.toNat_and]
    exact Nat.and_lt_two_pow _ (by decide : (0x0f : UInt64).toNat < 2 ^ 4)⟩

/-- `none` is the panic of its `expect`. -/
def format_hardware_id (chip_id : UInt64) (buffer : Vector UInt8 16) : Option String :=
  let buffer := buffer.mapIdx fun index _ => HEX.get (hex_index chip_id index)
  from_utf8 buffer.toList

/-- The digit as a character. -/
def hex_digit (k : Fin 16) : Char := Char.ofNat (HEX.get k).toNat

/-- Sixteen hex digits, the highest first. -/
def hex (chip_id : UInt64) : String :=
  String.ofList ((List.range 16).map fun index => hex_digit (hex_index chip_id index))

theorem utf8EncodeChar_hex_digit (k : Fin 16) : String.utf8EncodeChar (hex_digit k) = [HEX.get k] := by
  revert k
  decide

theorem as_bytes_hex (chip_id : UInt64) :
    as_bytes (hex chip_id) = (List.range 16).map fun index => HEX.get (hex_index chip_id index) := by
  rw [hex, as_bytes_ofList, List.flatMap_map]
  simp only [utf8EncodeChar_hex_digit]
  exact List.map_eq_flatMap.symm

/-- **The hardware ID** is the chip's number in hex, whatever was in the buffer. -/
theorem format_hardware_id_eq (chip_id : UInt64) (buffer : Vector UInt8 16) :
    format_hardware_id chip_id buffer = some (hex chip_id) := by
  have hbytes : (buffer.mapIdx fun index _ => HEX.get (hex_index chip_id index)).toList
      = as_bytes (hex chip_id) := by
    rw [as_bytes_hex]
    apply List.ext_getElem
    · simp
    · intro i h₁ h₂
      simp
  unfold format_hardware_id
  dsimp only
  rw [hbytes, from_utf8_as_bytes]

theorem utf8ByteSize_hex (chip_id : UInt64) : (hex chip_id).utf8ByteSize = 16 := by
  rw [← length_as_bytes, as_bytes_hex, List.length_map, List.length_range]

/-! ## The client ID -/

inductive IdentityError : Type where
  | bufferTooSmall

/-- `usize::checked_add`. -/
def usize_checked_add (a b : ℕ) : Option ℕ := if a + b < 2 ^ 32 then some (a + b) else none

theorem usize_checked_add_eq_some {a b c : ℕ} :
    usize_checked_add a b = some c ↔ a + b = c ∧ c < 2 ^ 32 := by
  unfold usize_checked_add
  split
  · rw [Option.some.injEq]
    constructor
    · rintro rfl
      exact ⟨rfl, by assumption⟩
    · exact And.left
  · constructor
    · intro h
      cases h
    · rintro ⟨rfl, h⟩
      contradiction

def compose_mqtt_client_id {n : ℕ} (device_id hardware_id : String) (buffer : Vector UInt8 n) :
    Except IdentityError String :=
  let required := (usize_checked_add device_id.utf8ByteSize 1).bind fun length =>
    usize_checked_add length hardware_id.utf8ByteSize
  match required with
  | none => .error .bufferTooSmall
  | some required =>
    if required > n then .error .bufferTooSmall
    else
      let buffer := copy_from_slice buffer 0 (as_bytes device_id)
      let buffer := buffer.setIfInBounds device_id.utf8ByteSize 0x2d
      let buffer := copy_from_slice buffer (device_id.utf8ByteSize + 1) (as_bytes hardware_id)
      match from_utf8 (slice buffer 0 required) with
      | some client_id => .ok client_id
      | none => .error .bufferTooSmall

section Compose

variable {n : ℕ} {device_id hardware_id : String}

theorem slice_append (bytes : Vector UInt8 n) {lo mid hi : ℕ} (h₁ : lo ≤ mid) (h₂ : mid ≤ hi) :
    slice bytes lo hi = slice bytes lo mid ++ slice bytes mid hi := by
  have htake : (bytes.toList.take mid).drop lo = ((bytes.toList.take hi).drop lo).take (mid - lo) := by
    rw [← List.drop_take, List.take_take, Nat.min_eq_left h₂]
  have hdrop : (bytes.toList.take hi).drop mid
      = ((bytes.toList.take hi).drop lo).drop (mid - lo) := by
    rw [List.drop_drop, Nat.add_sub_cancel' h₁]
  unfold slice
  rw [htake, hdrop, List.take_append_drop]

theorem slice_set_same (bytes : Vector UInt8 n) {j : ℕ} (hj : j < n) (b : UInt8) :
    slice (bytes.set j b) j (j + 1) = [b] := by
  apply List.ext_getElem
  · simp only [slice, List.length_drop, List.length_take, Vector.length_toList, List.length_singleton]
    omega
  · intro i h₁ h₂
    rw [List.length_singleton] at h₂
    obtain rfl : i = 0 := by omega
    simp [slice]

/-- **The client ID**, if it fits: the device name, a dash and the hardware ID, whatever was in the
buffer. -/
theorem compose_mqtt_client_id_ok (buffer : Vector UInt8 n) (hn : n < 2 ^ 32)
    (h : device_id.utf8ByteSize + 1 + hardware_id.utf8ByteSize ≤ n) :
    compose_mqtt_client_id device_id hardware_id buffer
      = .ok (device_id ++ "-" ++ hardware_id) := by
  have hlength := usize_checked_add_eq_some.mpr
    ⟨rfl, (show device_id.utf8ByteSize + 1 < 2 ^ 32 by omega)⟩
  have hrequired := usize_checked_add_eq_some.mpr ⟨rfl,
    (show device_id.utf8ByteSize + 1 + hardware_id.utf8ByteSize < 2 ^ 32 by omega)⟩
  have hdash : device_id.utf8ByteSize < n := by omega
  have hbytes : slice (copy_from_slice
        ((copy_from_slice buffer 0 (as_bytes device_id)).setIfInBounds device_id.utf8ByteSize 0x2d)
        (device_id.utf8ByteSize + 1) (as_bytes hardware_id)) 0
        (device_id.utf8ByteSize + 1 + hardware_id.utf8ByteSize)
      = as_bytes (device_id ++ "-" ++ hardware_id) := by
    have hset : ∀ bytes : Vector UInt8 n,
        bytes.setIfInBounds device_id.utf8ByteSize 0x2d = bytes.set device_id.utf8ByteSize 0x2d := by
      intro bytes
      apply Vector.ext
      intro i hi
      rw [Vector.getElem_setIfInBounds, Vector.getElem_set]
    -- three parts, each untouched by the writes of the others
    rw [hset, slice_append _ (Nat.zero_le _) (Nat.le_add_right (device_id.utf8ByteSize + 1) _),
      slice_append _ (Nat.zero_le _) (Nat.le_succ device_id.utf8ByteSize),
      slice_copy_same _ _ _ _ (by rw [length_as_bytes]) h,
      slice_copy_disjoint _ _ _ _ _ (.inl (Nat.le_succ _)),
      slice_copy_disjoint _ _ _ _ _ (.inl le_rfl),
      slice_set_same _ hdash, slice_set _ _ _ _ _ _ (.inr le_rfl),
      slice_copy_same _ _ _ _ (by rw [length_as_bytes, Nat.zero_add]) hdash.le,
      as_bytes_append, as_bytes_append]
    rfl
  unfold compose_mqtt_client_id
  rw [hlength, Option.bind_some, hrequired]
  dsimp only
  rw [if_neg (Nat.not_lt.mpr h), hbytes, from_utf8_as_bytes]

/-- If it does not fit there is none. -/
theorem compose_mqtt_client_id_error (buffer : Vector UInt8 n)
    (h : n < device_id.utf8ByteSize + 1 + hardware_id.utf8ByteSize) :
    compose_mqtt_client_id device_id hardware_id buffer = .error .bufferTooSmall := by
  unfold compose_mqtt_client_id
  cases hsome : (usize_checked_add device_id.utf8ByteSize 1).bind fun length =>
      usize_checked_add length hardware_id.utf8ByteSize with
  | none => rfl
  | some required =>
    obtain ⟨length, hlength, hrequired⟩ := Option.bind_eq_some_iff.mp hsome
    obtain ⟨rfl, -⟩ := usize_checked_add_eq_some.mp hlength
    obtain ⟨rfl, -⟩ := usize_checked_add_eq_some.mp hrequired
    exact if_pos h

end Compose

/-! ## At boot -/

def MQTT_EFFECTIVE_CLIENT_ID_SIZE : ℕ := 96

/-- What `main` names the device before it starts: the hardware ID and the client ID. `none` is a
panic of one of the two `expect`s. -/
def boot_identity (device_id : String) (chip_id : UInt64) : Option (String × String) := do
  let hardware_id ← format_hardware_id chip_id (Vector.replicate 16 0)
  match compose_mqtt_client_id device_id hardware_id
    (Vector.replicate MQTT_EFFECTIVE_CLIENT_ID_SIZE 0) with
  | .ok client_id => some (hardware_id, client_id)
  | .error _ => none

/-- **What boots**: device names of up to 79 bytes, whatever they are made of. -/
theorem boot_identity_eq_some {device_id hardware_id client_id : String} {chip_id : UInt64} :
    boot_identity device_id chip_id = some (hardware_id, client_id)
      ↔ device_id.utf8ByteSize ≤ 79 ∧ hardware_id = hex chip_id
        ∧ client_id = device_id ++ "-" ++ hex chip_id := by
  have hsize := utf8ByteSize_hex chip_id
  unfold boot_identity
  rw [format_hardware_id_eq, Option.bind_eq_bind, Option.bind_some]
  by_cases h : device_id.utf8ByteSize ≤ 79
  · rw [compose_mqtt_client_id_ok _ (by decide)
      (by rw [hsize]; exact Nat.add_le_add_right (Nat.add_le_add_right h 1) 16)]
    simp [h, eq_comm]
  · rw [compose_mqtt_client_id_error _
      (by rw [hsize]; exact (by omega : 96 < device_id.utf8ByteSize + 1 + 16))]
    simp [h]

/-! ## Different devices -/

/-- The client ID as `main` makes it: the hardware ID is written into one buffer, and the client ID
into another. -/
def mqtt_client_id {n : ℕ} (device_id : String) (chip_id : UInt64) (hardware_id_buffer : Vector UInt8 16)
    (buffer : Vector UInt8 n) : Option (Except IdentityError String) := do
  let hardware_id ← format_hardware_id chip_id hardware_id_buffer
  return compose_mqtt_client_id device_id hardware_id buffer

section Unique

variable {d : String} {c : UInt64} {h : Vector UInt8 16} {n : UInt32} {buffer : Vector UInt8 n.toNat}

theorem mqtt_client_id_eq (d : String) (c : UInt64) (h : Vector UInt8 16) (n : UInt32)
    (buffer : Vector UInt8 n.toNat) : mqtt_client_id d c h buffer
      = some (if d.utf8ByteSize + 17 ≤ n.toNat then .ok (d ++ "-" ++ hex c)
          else .error .bufferTooSmall) := by
  have hsize := utf8ByteSize_hex c
  -- the hardware ID is always sixteen bytes, so only the length of the name matters
  unfold mqtt_client_id
  rw [format_hardware_id_eq, Option.bind_eq_bind, Option.bind_some]
  split
  · rename_i hfit
    rw [compose_mqtt_client_id_ok buffer n.toNat_lt (by omega)]
    rfl
  · rename_i hfit
    rw [compose_mqtt_client_id_error buffer (by omega)]
    rfl

theorem mqtt_client_id_eq_ok {client_id : String} :
    mqtt_client_id d c h buffer = some (.ok client_id)
      ↔ d.utf8ByteSize + 17 ≤ n.toNat ∧ d ++ "-" ++ hex c = client_id := by
  rw [mqtt_client_id_eq, Option.some.injEq]
  split
  · rename_i hfit
    rw [Except.ok.injEq, and_iff_right hfit]
  · rename_i hfit
    exact iff_of_false nofun fun hok => hfit hok.1

/-- The digit at an index, as a number. -/
theorem hex_index_val (chip_id : UInt64) {index : ℕ} (h : index < 16) :
    (hex_index chip_id index : ℕ) = chip_id.toNat / 16 ^ (15 - index) % 16 := by
  have hshift : ((15 - index) * 4) % 64 = (15 - index) * 4 := Nat.mod_eq_of_lt (by omega)
  have hpow : 2 ^ ((15 - index) * 4) = 16 ^ (15 - index) := by
    rw [Nat.mul_comm, Nat.pow_mul]
  change ((chip_id >>> UInt64.ofNat ((15 - index) * 4)) &&& 0x0f).toNat = _
  rw [UInt64.toNat_and, UInt64.toNat_shiftRight, UInt64.toNat_ofNat', Nat.mod_mod_of_dvd _ (by decide),
    hshift, Nat.shiftRight_eq_div_pow, hpow]
  exact Nat.and_two_pow_sub_one_eq_mod _ 4

theorem hex_digit_eq (k : Fin 16) : hex_digit k = Nat.digitChar k := by
  revert k
  decide

/-- The hardware ID, digit by digit. -/
theorem toList_hex (chip_id : UInt64) : (hex chip_id).toList
    = (List.range 16).map fun index => Nat.digitChar (chip_id.toNat / 16 ^ (15 - index) % 16) := by
  rw [hex, String.toList_ofList]
  refine List.map_congr_left fun index hindex => ?_
  rw [hex_digit_eq, hex_index_val chip_id (List.mem_range.mp hindex)]

theorem hex_digit_injective : Function.Injective hex_digit := by decide

/-- A number of at most `n` digits is known by them. -/
theorem mod_pow_eq_of_digits {b x y n : ℕ} (h : ∀ k < n, x / b ^ k % b = y / b ^ k % b) :
    x % b ^ n = y % b ^ n := by
  induction n with
  | zero => rw [Nat.pow_zero, Nat.mod_one, Nat.mod_one]
  | succ n ih =>
    rw [Nat.mod_pow_succ, Nat.mod_pow_succ, ih fun k hk => h k (Nat.lt_succ_of_lt hk),
      h n (Nat.lt_succ_self n)]

/-- **The hardware ID is unique**: sixteen digits hold the whole of a chip's number. -/
theorem hex_injective : Function.Injective hex := by
  intro c₁ c₂ h
  -- the digits agree, and a number below 16 ^ 16 is its digits
  have hdigits : ∀ k < 16, c₁.toNat / 16 ^ k % 16 = c₂.toNat / 16 ^ k % 16 := by
    intro k hk
    have hmap := List.map_inj_left.mp (String.ofList_injective h) (15 - k)
      (List.mem_range.mpr (by omega))
    have hval := congrArg Fin.val (hex_digit_injective hmap)
    rw [hex_index_val _ (by omega), hex_index_val _ (by omega)] at hval
    rwa [Nat.sub_sub_self (by omega)] at hval
  have hpow : 16 ^ 16 = 2 ^ 64 := by decide
  have hmod := mod_pow_eq_of_digits hdigits
  rw [hpow, Nat.mod_eq_of_lt c₁.toNat_lt, Nat.mod_eq_of_lt c₂.toNat_lt] at hmod
  exact UInt64.toNat_inj.mp hmod

/-- The dash is found by counting from the end, wherever else there are dashes. -/
theorem client_id_inj {d₁ d₂ : String} {c₁ c₂ : UInt64} :
    d₁ ++ "-" ++ hex c₁ = d₂ ++ "-" ++ hex c₂ ↔ d₁ = d₂ ∧ c₁ = c₂ := by
  constructor
  · intro h
    -- both hardware IDs are sixteen characters, so the two strings split at the same place
    have hlist := congrArg String.toList h
    simp only [String.toList_append] at hlist
    obtain ⟨hname, hhex⟩ := List.append_inj' hlist (by
      rw [toList_hex, toList_hex, List.length_map, List.length_map])
    exact ⟨String.toList_injective (List.append_cancel_right hname),
      hex_injective (String.toList_injective hhex)⟩
  · rintro ⟨rfl, rfl⟩
    rfl

/-- **The broker tells devices apart.** The client ID is made exactly if the device name and 17 more
bytes fit the buffer; it is then the name, a dash and the chip's number in sixteen lowercase hex
digits, whatever was in the buffers; and two devices have the same one only if they have the same
name and the same number. -/
theorem broker_identity_unique :
    (∀ (device_id : String) (chip_id : UInt64) (hardware_id_buffer : Vector UInt8 16) (n : UInt32)
      (buffer : Vector UInt8 n.toNat),
      mqtt_client_id device_id chip_id hardware_id_buffer buffer
          = some (if device_id.utf8ByteSize + 17 ≤ n.toNat then
              .ok (device_id ++ "-" ++ hex chip_id) else .error .bufferTooSmall)
        ∧ (hex chip_id).toList
          = (List.range 16).map fun index => Nat.digitChar (chip_id.toNat / 16 ^ (15 - index) % 16))
      ∧ ∀ (d₁ d₂ : String) (c₁ c₂ : UInt64) (h₁ h₂ : Vector UInt8 16) (n₁ n₂ : UInt32)
        (b₁ : Vector UInt8 n₁.toNat) (b₂ : Vector UInt8 n₂.toNat),
        (∃ client_id, mqtt_client_id d₁ c₁ h₁ b₁ = some (.ok client_id)
            ∧ mqtt_client_id d₂ c₂ h₂ b₂ = some (.ok client_id))
          ↔ d₁ = d₂ ∧ c₁ = c₂ ∧ d₁.utf8ByteSize + 17 ≤ n₁.toNat ∧ d₂.utf8ByteSize + 17 ≤ n₂.toNat := by
  constructor
  · intro device_id chip_id hardware_id_buffer n buffer
    exact ⟨mqtt_client_id_eq .., toList_hex chip_id⟩
  · intro d₁ d₂ c₁ c₂ h₁ h₂ n₁ n₂ b₁ b₂
    constructor
    · rintro ⟨client_id, hid₁, hid₂⟩
      obtain ⟨hfit₁, rfl⟩ := mqtt_client_id_eq_ok.mp hid₁
      obtain ⟨hfit₂, hsame⟩ := mqtt_client_id_eq_ok.mp hid₂
      obtain ⟨hname, hchip⟩ := client_id_inj.mp hsame
      exact ⟨hname.symm, hchip.symm, hfit₁, hfit₂⟩
    · rintro ⟨rfl, rfl, hfit₁, hfit₂⟩
      exact ⟨_, mqtt_client_id_eq_ok.mpr ⟨hfit₁, rfl⟩, mqtt_client_id_eq_ok.mpr ⟨hfit₂, rfl⟩⟩

end Unique

end PicoDataLogger
