/-
`ntp.rs`: the request, the check of the response, and the seconds it carries.

A response is taken for the answer to a request if it repeats the request's
transmit field, so the request ID is all that ties the two together. The seconds
field is 32 bits wide and counts from 1900. It is taken to be of the era that
ends in February 2036: the seconds of the next one are smaller than the Unix
epoch's, and are rejected as times before it.
-/
import PicoDataLogger.Device

set_option autoImplicit false

namespace PicoDataLogger

/-! ## Big-endian integers -/

def to_be_bytes (n x : ℕ) : List UInt8 := (to_le_bytes n x).reverse

def from_be_bytes (bytes : List UInt8) : ℕ := from_le_bytes bytes.reverse

@[simp] theorem length_to_be_bytes (n x : ℕ) : (to_be_bytes n x).length = n := by
  rw [to_be_bytes, List.length_reverse, length_to_le_bytes]

theorem from_to_be_bytes (n x : ℕ) : from_be_bytes (to_be_bytes n x) = x % 256 ^ n := by
  rw [from_be_bytes, to_be_bytes, List.reverse_reverse, from_to_le_bytes]

theorem u64_to_be_bytes_inj {x y : UInt64} :
    to_be_bytes 8 x.toNat = to_be_bytes 8 y.toNat ↔ x = y := by
  constructor
  · intro h
    have hle := List.reverse_injective h
    rw [← u64_from_to_le_bytes x, hle, u64_from_to_le_bytes]
  · rintro rfl
    rfl

/-! ## The code -/

abbrev NTP_PACKET_LEN : ℕ := 48

def NTP_UNIX_EPOCH_OFFSET_SECONDS : UInt64 := 2208988800

inductive NtpValidationError : Type where
  | tooShort
  | invalidServerMode
  | unsynchronizedServer
  | invalidStratum
  | requestTimestampMismatch
deriving DecidableEq

def build_ntp_request (request_id : UInt64) : Vector UInt8 NTP_PACKET_LEN :=
  let packet := Vector.replicate NTP_PACKET_LEN (0 : UInt8)
  let packet := packet.set 0 0x23
  copy_from_slice packet 40 (to_be_bytes 8 request_id.toNat)

/-- The indices are in bounds after the first check. -/
def validate_ntp_response (response : List UInt8) (request_id : UInt64) :
    Except NtpValidationError Unit :=
  if response.length < NTP_PACKET_LEN then .error .tooShort
  else
    let mode := response.getD 0 0 &&& 0b00000111
    if mode ≠ 4 then .error .invalidServerMode
    else
      let leap_indicator := response.getD 0 0 >>> 6
      if leap_indicator = 3 then .error .unsynchronizedServer
      else
        let stratum := response.getD 1 0
        if stratum = 0 ∨ stratum > 15 then .error .invalidStratum
        else
          let expected_originate := to_be_bytes 8 request_id.toNat
          let actual_originate := (response.take 32).drop 24
          if actual_originate ≠ expected_originate then .error .requestTimestampMismatch
          else .ok ()

/-- `u64::checked_sub`. -/
def u64_checked_sub (a b : UInt64) : Option UInt64 := if b ≤ a then some (a - b) else none

def ntp_to_unix_seconds (ntp_seconds : UInt32) : Option UInt64 :=
  u64_checked_sub ntp_seconds.toUInt64 NTP_UNIX_EPOCH_OFFSET_SECONDS

/-- `u32::from_be_bytes([response[40], response[41], response[42], response[43]])`. -/
def ntp_seconds (response : List UInt8) : UInt32 :=
  UInt32.ofNat (from_be_bytes
    [response.getD 40 0, response.getD 41 0, response.getD 42 0, response.getD 43 0])

/-- What `synchronize_clock` makes of what the socket received: nothing, if binding, sending or
receiving failed or timed out, else a datagram of some length at the start of its buffer. -/
def synchronize_clock (request_id : UInt64) (received : Option (ℕ × Vector UInt8 512))
    (now : Instant) : Option ClockAnchor :=
  match received with
  | none => none
  | some (length, response) =>
    match validate_ntp_response (slice response 0 length) request_id with
    | .error _ => none
    | .ok () =>
      match ntp_to_unix_seconds (ntp_seconds response.toList) with
      | some unix_seconds => some { unix_seconds, monotonic := now }
      | none => none

/-! ## What is accepted -/

/-- A packet of a synchronized server, field by field. -/
structure Synchronized (response : List UInt8) : Prop where
  length : 48 ≤ response.length
  mode : (response.getD 0 0).toNat % 8 = 4
  leap_indicator : (response.getD 0 0).toNat / 64 ≠ 3
  stratum : 1 ≤ (response.getD 1 0).toNat ∧ (response.getD 1 0).toNat ≤ 15

/-- The originate field. -/
def originate (response : List UInt8) : List UInt8 := (response.take 32).drop 24

section Validate

variable {response : List UInt8} {request_id : UInt64}

theorem mode_eq (b : UInt8) : b &&& 0b00000111 = 4 ↔ b.toNat % 8 = 4 := by
  have hmask : (b &&& 0b00000111).toNat = b.toNat % 8 := by
    rw [UInt8.toNat_and]
    exact Nat.and_two_pow_sub_one_eq_mod _ 3
  rw [← UInt8.toNat_inj, hmask]
  rfl

theorem leap_indicator_eq (b : UInt8) : b >>> 6 = 3 ↔ b.toNat / 64 = 3 := by
  have hshift : (b >>> 6).toNat = b.toNat / 64 := by
    rw [UInt8.toNat_shiftRight]
    exact Nat.shiftRight_eq_div_pow _ 6
  rw [← UInt8.toNat_inj, hshift]
  rfl

theorem stratum_eq (b : UInt8) : (b = 0 ∨ b > 15) ↔ ¬ (1 ≤ b.toNat ∧ b.toNat ≤ 15) := by
  rw [← UInt8.toNat_inj, gt_iff_lt, UInt8.lt_iff_toNat_lt]
  change b.toNat = 0 ∨ 15 < b.toNat ↔ _
  omega

/-- On a packet of a synchronized server the request ID decides. -/
theorem Synchronized.validate (h : Synchronized response) :
    validate_ntp_response response request_id
      = if originate response = to_be_bytes 8 request_id.toNat then .ok ()
        else .error .requestTimestampMismatch := by
  unfold validate_ntp_response
  dsimp only
  -- the four checks of the packet pass, the fifth remains
  rw [if_neg (Nat.not_lt.mpr h.length), if_neg (not_not.mpr ((mode_eq _).mpr h.mode)),
    if_neg (fun hleap => h.leap_indicator ((leap_indicator_eq _).mp hleap)),
    if_neg (fun hstratum => (stratum_eq _).mp hstratum h.stratum), ite_not]
  rfl

/-- **What is accepted**: the packets of a synchronized server that repeat the request ID. -/
theorem validate_ntp_response_eq_ok : validate_ntp_response response request_id = .ok ()
    ↔ Synchronized response ∧ originate response = to_be_bytes 8 request_id.toNat := by
  constructor
  · intro h
    have hsynchronized : Synchronized response := by
      unfold validate_ntp_response at h
      dsimp only at h
      -- every check but the last speaks of the packet alone
      split at h
      · cases h
      rename_i hlength
      split at h
      · cases h
      rename_i hmode
      split at h
      · cases h
      rename_i hleap
      split at h
      · cases h
      rename_i hstratum
      exact ⟨Nat.not_lt.mp hlength, (mode_eq _).mp (not_not.mp hmode),
        fun hleap' => hleap ((leap_indicator_eq _).mpr hleap'),
        not_not.mp fun hstratum' => hstratum ((stratum_eq _).mpr hstratum')⟩
    rw [hsynchronized.validate] at h
    refine ⟨hsynchronized, ?_⟩
    by_contra horiginate
    rw [if_neg horiginate] at h
    cases h
  · rintro ⟨hsynchronized, horiginate⟩
    rw [hsynchronized.validate, if_pos horiginate]

end Validate

/-! ## The exchange -/

/-- A synchronized server's answer to a request at UTC second `T`: any packet that repeats the
request's transmit field in its originate field, and has the seconds in its transmit field. -/
structure ServerAnswer (request : Vector UInt8 NTP_PACKET_LEN) (T : UInt32) (response : List UInt8) :
    Prop extends Synchronized response where
  originate : originate response = slice request 40 48
  transmit : (response.take 44).drop 40 = to_be_bytes 4 ((T.toNat + 2208988800) % 2 ^ 32)

/-- The Unix second that is read off a response, `elapsed` seconds after its arrival. -/
def unix_seconds_after (response : List UInt8) (elapsed : ℕ) : Option UInt64 :=
  (ntp_to_unix_seconds (ntp_seconds response)).bind fun unix_seconds =>
    unix_seconds_from_anchor unix_seconds elapsed

section Exchange

variable {request_id : UInt64} {T : UInt32} {response : List UInt8}

theorem transmit_build_ntp_request (request_id : UInt64) :
    slice (build_ntp_request request_id) 40 48 = to_be_bytes 8 request_id.toNat := by
  unfold build_ntp_request
  exact slice_copy_same _ _ _ _ (by rw [length_to_be_bytes]) le_rfl

/-- The four bytes that are read are the transmit field. -/
theorem ntp_seconds_eq (h : 44 ≤ response.length) :
    ntp_seconds response = UInt32.ofNat (from_be_bytes ((response.take 44).drop 40)) := by
  have hbytes : (response.take 44).drop 40
      = [response.getD 40 0, response.getD 41 0, response.getD 42 0, response.getD 43 0] := by
    apply List.ext_getElem
    · simp only [List.length_drop, List.length_take, List.length_cons, List.length_nil]
      omega
    · intro i h₁ h₂
      simp only [List.length_cons, List.length_nil] at h₂
      rw [List.getElem_drop, List.getElem_take]
      rcases i with _ | _ | _ | _ | i
      · exact (List.getD_eq_getElem _ _ (by omega)).symm
      · exact (List.getD_eq_getElem _ _ (by omega)).symm
      · exact (List.getD_eq_getElem _ _ (by omega)).symm
      · exact (List.getD_eq_getElem _ _ (by omega)).symm
      · omega
  rw [hbytes, ntp_seconds]

theorem ServerAnswer.ntp_seconds {request : Vector UInt8 NTP_PACKET_LEN}
    (h : ServerAnswer request T response) :
    (PicoDataLogger.ntp_seconds response).toNat = (T.toNat + 2208988800) % 2 ^ 32 := by
  have hlength := h.length
  rw [ntp_seconds_eq (by omega), h.transmit, from_to_be_bytes, UInt32.toNat_ofNat']
  omega

/-- The epoch arithmetic, as long as the seconds field has not wrapped. -/
theorem ntp_to_unix_seconds_eq {x : UInt32} (h : x.toNat = (T.toNat + 2208988800) % 2 ^ 32) :
    ntp_to_unix_seconds x = if T.toNat + 2208988800 < 2 ^ 32 then some T.toUInt64 else none := by
  have hT := T.toNat_lt
  have hx : x.toUInt64.toNat = x.toNat := UInt32.toNat_toUInt64 x
  have hoffset : NTP_UNIX_EPOCH_OFFSET_SECONDS.toNat = 2208988800 := rfl
  -- a field that has wrapped is smaller than the offset
  have hle : NTP_UNIX_EPOCH_OFFSET_SECONDS ≤ x.toUInt64 ↔ T.toNat + 2208988800 < 2 ^ 32 := by
    rw [UInt64.le_iff_toNat_le, hx, hoffset, h]
    omega
  unfold ntp_to_unix_seconds u64_checked_sub
  by_cases hwrap : T.toNat + 2208988800 < 2 ^ 32
  · rw [if_pos (hle.mpr hwrap), if_pos hwrap, Option.some.injEq, ← UInt64.toNat_inj,
      UInt64.toNat_sub_of_le _ _ (hle.mpr hwrap), hx, hoffset, h, UInt32.toNat_toUInt64,
      Nat.mod_eq_of_lt hwrap, Nat.add_sub_cancel]
  · rw [if_neg fun h => hwrap (hle.mp h), if_neg hwrap]

theorem unix_seconds_from_anchor_eq {anchor : UInt64} {elapsed : ℕ}
    (h : anchor.toNat + elapsed < 2 ^ 64) : unix_seconds_from_anchor anchor elapsed
      = some (UInt64.ofNat (anchor.toNat + elapsed)) := if_pos h

/-- **The NTP exchange**: an answer to a request is accepted for its ID and rejected for every
other, and the time is the server's as long as the seconds field has not wrapped: from then on it
is rejected as one before the Unix epoch. -/
theorem ntp_exchange (h : ServerAnswer (build_ntp_request request_id) T response) :
    validate_ntp_response response request_id = .ok ()
      ∧ (∀ other, other ≠ request_id →
        validate_ntp_response response other = .error .requestTimestampMismatch)
      ∧ ∀ elapsed : ℕ, T.toNat + elapsed < 2 ^ 64 →
        (unix_seconds_after response elapsed).map UInt64.toNat
          = if T.toNat + 2208988800 < 2 ^ 32 then some (T.toNat + elapsed) else none := by
  have horiginate : originate response = to_be_bytes 8 request_id.toNat := by
    rw [h.originate, transmit_build_ntp_request]
  refine ⟨validate_ntp_response_eq_ok.mpr ⟨h.toSynchronized, horiginate⟩, ?_, ?_⟩
  · intro other hother
    -- another ID: its bytes differ from the ones that were repeated
    rw [h.toSynchronized.validate, if_neg]
    rw [horiginate, u64_to_be_bytes_inj]
    exact fun hsame => hother hsame.symm
  · intro elapsed helapsed
    -- before the wrap the anchor is `T`, and the addition does not overflow
    rw [unix_seconds_after, ntp_to_unix_seconds_eq h.ntp_seconds]
    split
    · rw [Option.bind_some, unix_seconds_from_anchor_eq (by rwa [UInt32.toNat_toUInt64]),
        Option.map_some, UInt32.toNat_toUInt64, UInt64.toNat_ofNat_of_lt' helapsed]
    · rfl

/-- The seconds are read from the buffer, not from the part of it that was received. -/
theorem ntp_seconds_slice {buffer : Vector UInt8 512} {length : ℕ}
    (h : 48 ≤ (slice buffer 0 length).length) :
    ntp_seconds buffer.toList = ntp_seconds (slice buffer 0 length) := by
  have hlength : (slice buffer 0 length).length = min length 512 := by
    rw [slice, List.drop_zero, List.length_take, Vector.length_toList]
  rw [hlength] at h
  -- the received part is long enough to hold the field
  have hfield : ((slice buffer 0 length).take 44).drop 40 = (buffer.toList.take 44).drop 40 := by
    rw [slice, List.drop_zero, List.take_take, Nat.min_eq_left (by omega)]
  rw [ntp_seconds_eq (by rw [Vector.length_toList]; decide), ntp_seconds_eq (by omega), hfield]

/-- **The anchor** that an answer gives is the server's second, until the seconds field wraps. -/
theorem synchronize_clock_eq {buffer : Vector UInt8 512} {length : ℕ} {now : Instant}
    (h : ServerAnswer (build_ntp_request request_id) T (slice buffer 0 length)) :
    synchronize_clock request_id (some (length, buffer)) now
      = if T.toNat + 2208988800 < 2 ^ 32 then some ⟨T.toUInt64, now⟩ else none := by
  have hvalid : validate_ntp_response (slice buffer 0 length) request_id = .ok () :=
    validate_ntp_response_eq_ok.mpr
      ⟨h.toSynchronized, h.originate.trans (transmit_build_ntp_request request_id)⟩
  unfold synchronize_clock
  dsimp only
  rw [hvalid, ntp_seconds_slice h.length, ntp_to_unix_seconds_eq h.ntp_seconds]
  by_cases hwrap : T.toNat + 2208988800 < 2 ^ 32
  · rw [if_pos hwrap, if_pos hwrap]
  · rw [if_neg hwrap, if_neg hwrap]

/-- Whatever was received, an anchor was read off a packet of a synchronized server that repeats
the request ID. -/
theorem synchronize_clock_eq_some {received : Option (ℕ × Vector UInt8 512)} {now : Instant}
    {anchor : ClockAnchor} (h : synchronize_clock request_id received now = some anchor) :
    ∃ length buffer, received = some (length, buffer) ∧ Synchronized (slice buffer 0 length)
      ∧ originate (slice buffer 0 length) = to_be_bytes 8 request_id.toNat
      ∧ ntp_to_unix_seconds (ntp_seconds (slice buffer 0 length)) = some anchor.unix_seconds
      ∧ anchor.monotonic = now := by
  unfold synchronize_clock at h
  cases received with
  | none => cases h
  | some datagram =>
    obtain ⟨length, buffer⟩ := datagram
    dsimp only at h
    -- rejected by the validation
    split at h
    · cases h
    rename_i hvalid
    split at h
    · rename_i unix_seconds hseconds
      obtain ⟨hsynchronized, horiginate⟩ := validate_ntp_response_eq_ok.mp hvalid
      obtain rfl := Option.some.inj h
      rw [ntp_seconds_slice hsynchronized.length] at hseconds
      exact ⟨length, buffer, rfl, hsynchronized, horiginate, hseconds, rfl⟩
    · cases h

end Exchange

/-! ## Answers there are -/

/-- The shortest answer of a primary server, all the fields of no interest zero. -/
def primary_answer (request_id : UInt64) (T : UInt32) : List UInt8 :=
  [0x24, 1] ++ List.replicate 22 0 ++ to_be_bytes 8 request_id.toNat ++ List.replicate 8 0
    ++ to_be_bytes 4 ((T.toNat + 2208988800) % 2 ^ 32) ++ List.replicate 4 0

/-- A field of a packet that is put together from its parts. -/
theorem take_drop_append {lo hi : ℕ} (before field after : List UInt8) (hlo : before.length = lo)
    (hhi : lo + field.length = hi) : ((before ++ field ++ after).take hi).drop lo = field := by
  subst hlo hhi
  rw [List.append_assoc, List.take_length_add_append, List.take_left, List.drop_left]

theorem serverAnswer_primary (request_id : UInt64) (T : UInt32) :
    ServerAnswer (build_ntp_request request_id) T (primary_answer request_id T) where
  length := by simp [primary_answer]
  mode := by
    change 0x24 % 8 = 4
    decide
  leap_indicator := by
    change 0x24 / 64 ≠ 3
    decide
  stratum := ⟨le_rfl, by
    change 1 ≤ 15
    decide⟩
  originate := by
    rw [transmit_build_ntp_request]
    rw [originate, primary_answer, List.append_assoc _ (List.replicate 8 0),
      List.append_assoc _ _ (List.replicate 4 0)]
    exact take_drop_append _ _ _ (by simp) (by simp)
  transmit := by
    rw [primary_answer]
    exact take_drop_append _ _ _ (by simp) (by simp)

/-- At the start of 2026 the answer to a request anchors the clock. -/
theorem ntp_exchange_2026 : (unix_seconds_after (primary_answer 7 1767225600) 125).map UInt64.toNat
    = some 1767225725 := by
  have hseconds := (ntp_exchange (serverAnswer_primary 7 1767225600)).2.2 125 (by decide)
  rwa [if_pos (by decide)] at hseconds

/-- **The seconds field wraps** on 7 February 2036 at 06:28:16, and the time is rejected. -/
theorem ntp_seconds_wrap : ServerAnswer (build_ntp_request 7) 2085978496 (primary_answer 7 2085978496)
    ∧ validate_ntp_response (primary_answer 7 2085978496) 7 = .ok ()
    ∧ unix_seconds_after (primary_answer 7 2085978496) 0 = none := by
  have hanswer := serverAnswer_primary 7 2085978496
  refine ⟨hanswer, ?_, ?_⟩
  · rw [validate_ntp_response_eq_ok]
    exact ⟨hanswer.toSynchronized, hanswer.originate.trans (transmit_build_ntp_request 7)⟩
  · rw [unix_seconds_after, ntp_to_unix_seconds_eq hanswer.ntp_seconds, if_neg (by decide)]
    rfl

end PicoDataLogger
