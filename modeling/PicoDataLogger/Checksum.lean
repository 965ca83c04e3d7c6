/-
What the checksum of a record detects.

The loop of `crc32` is the register of `Crc` fed with the bits of the bytes, lowest bit
first, and the little-endian checksum field is the next 32 bits of that stream. A record
whose checksum is right therefore leaves one fixed register, whatever it holds, and two
such records never differ in a burst of up to 32 bits.

The version byte is under the checksum, but it also says where the checksum is. Read as
version 1, a version-3 record has its checksum where its voltage is, and that is the
one change of the byte that `decode` can accept.
-/
import PicoDataLogger.Crc
import PicoDataLogger.Record
import Mathlib.Data.Nat.Bitwise

set_option autoImplicit false

namespace PicoDataLogger

/-! ## The loop as a register -/

/-- The reflected polynomial of CRC-32. -/
def crc32_poly : BitVec 32 := 0xedb88320#32

theorem crc32_shift_toBitVec (crc : UInt32) :
    (crc32_shift crc).toBitVec = Crc.shift crc32_poly crc.toBitVec := by
  have hmask : (0xedb88320 &&& (0 - (crc &&& 1)) : UInt32).toBitVec
      = if crc.toBitVec.getLsbD 0 then crc32_poly else 0#32 := by
    rw [UInt32.toBitVec_and, UInt32.toBitVec_sub, UInt32.toBitVec_and]
    rw [show (1 : UInt32).toBitVec = 1#32 from rfl, BitVec.and_one_eq_setWidth_ofBool_getLsbD]
    by_cases hlow : crc.toBitVec.getLsbD 0 = true
    · rw [hlow]
      decide
    · rw [Bool.eq_false_of_not_eq_true hlow]
      decide
  rw [crc32_shift, UInt32.toBitVec_xor, hmask]
  rfl

/-- Bit `i` of a byte string, the lowest bit of each byte first. -/
def bit_at (bytes : List UInt8) (i : ℕ) : Bool := (bytes.getD (i / 8) 0).toNat.testBit (i % 8)

theorem crc32_byte_toBitVec (crc : UInt32) (byte : UInt8) :
    (crc32_byte crc byte).toBitVec = Crc.run crc32_poly crc.toBitVec byte.toNat.testBit 8 := by
  have hiter : ∀ n (x : UInt32),
      (crc32_shift^[n] x).toBitVec = (Crc.shift crc32_poly)^[n] x.toBitVec := by
    intro n
    induction n with
    | zero => exact fun _ => rfl
    | succ n ih =>
      intro x
      rw [Function.iterate_succ_apply, ih, crc32_shift_toBitVec, Function.iterate_succ_apply]
  have hbits : byte.toUInt32.toBitVec.getLsbD = byte.toNat.testBit := by
    funext i
    simp [BitVec.getLsbD]
  have hhigh : byte.toUInt32.toBitVec >>> 8 = 0#32 := by
    apply BitVec.eq_of_toNat_eq
    have := byte.toNat_lt
    simp [Nat.shiftRight_eq_div_pow]
    omega
  rw [crc32_byte, hiter, UInt32.toBitVec_xor, Crc.iterate_shift_eq_run, hbits, hhigh,
    BitVec.xor_zero]

theorem foldl_crc32_byte (crc : UInt32) (bytes : List UInt8) :
    (bytes.foldl crc32_byte crc).toBitVec
      = Crc.run crc32_poly crc.toBitVec (bit_at bytes) (8 * bytes.length) := by
  induction bytes using List.reverseRecOn with
  | nil => rfl
  | append_singleton bytes byte ih =>
    have hlen : 8 * (bytes ++ [byte]).length = 8 * bytes.length + 8 := by simp; omega
    rw [List.foldl_append, List.foldl_cons, List.foldl_nil, crc32_byte_toBitVec, ih, hlen,
      Crc.run_add]
    -- the bytes before are where they were, and the last one comes next
    have hbefore : Crc.run crc32_poly crc.toBitVec (bit_at bytes) (8 * bytes.length)
        = Crc.run crc32_poly crc.toBitVec (bit_at (bytes ++ [byte])) (8 * bytes.length) := by
      refine Crc.run_congr _ _ fun i hi => ?_
      rw [bit_at, bit_at, List.getD_append _ _ _ _ (by omega)]
    rw [hbefore]
    refine Crc.run_congr _ _ fun i hi => ?_
    rw [bit_at, show (8 * bytes.length + i) / 8 = bytes.length by omega,
      show (8 * bytes.length + i) % 8 = i by omega]
    simp

/-! ## The checksum field -/

theorem testBit_from_le_bytes (bytes : List UInt8) (i : ℕ) :
    (from_le_bytes bytes).testBit i = bit_at bytes i := by
  induction bytes generalizing i with
  | nil => simp [from_le_bytes, bit_at]
  | cons byte bytes ih =>
    have hbyte := byte.toNat_lt
    rw [from_le_bytes, Nat.add_comm, show 256 = 2 ^ 8 from rfl,
      Nat.testBit_two_pow_mul_add _ (by simpa using hbyte)]
    by_cases hi : i < 8
    · rw [if_pos hi, bit_at, Nat.div_eq_of_lt hi, Nat.mod_eq_of_lt hi]
      rfl
    · rw [if_neg hi, ih, bit_at, bit_at, show i / 8 = (i - 8) / 8 + 1 by omega,
        show i % 8 = (i - 8) % 8 by omega]
      rfl

variable {bytes bytes' : Vector UInt8 RECORD_SIZE}

theorem bit_at_slice {lo hi i : ℕ} (h : i < 8 * (hi - lo)) :
    bit_at (slice bytes lo hi) i = bit_at bytes.toList (8 * lo + i) := by
  rw [bit_at, bit_at, show (8 * lo + i) / 8 = lo + i / 8 by omega,
    show (8 * lo + i) % 8 = i % 8 by omega, slice, List.getD_eq_getElem?_getD,
    List.getD_eq_getElem?_getD, List.getElem?_drop, List.getElem?_take_of_lt (by omega)]

theorem u32_at_getLsbD {offset i : ℕ} (hi : i < 32) :
    (u32_at bytes offset).toBitVec.getLsbD i = bit_at bytes.toList (8 * offset + i) := by
  have hof : (u32_at bytes offset).toBitVec
      = BitVec.ofNat 32 (from_le_bytes (slice bytes offset (offset + 4))) := rfl
  rw [hof, BitVec.getLsbD_ofNat, testBit_from_le_bytes, bit_at_slice (by omega)]
  simp [hi]

/-- The check `decode` makes: the bytes before `crc_offset` have the checksum at `crc_offset`. -/
def CrcOk (bytes : Vector UInt8 RECORD_SIZE) (crc_offset : ℕ) : Prop :=
  crc32 (slice bytes 1 crc_offset) = u32_at bytes crc_offset

/-- The register after a record with the right checksum, checksum included. -/
theorem CrcOk.residue {crc_offset : ℕ} (h : CrcOk bytes crc_offset) (h1 : 1 ≤ crc_offset)
    (hlen : crc_offset ≤ RECORD_SIZE) :
    Crc.run crc32_poly (BitVec.allOnes 32) (fun i => bit_at bytes.toList (8 + i))
        (8 * (crc_offset - 1) + 32)
      = (Crc.shift crc32_poly)^[32] (BitVec.allOnes 32) := by
  have hlength : (slice bytes 1 crc_offset).length = crc_offset - 1 := by
    simp only [slice, List.length_drop, List.length_take, Vector.length_toList]
    omega
  -- the register after the bytes that are checked, and the field against it
  have hbody := foldl_crc32_byte 0xffffffff (slice bytes 1 crc_offset)
  rw [hlength, show (0xffffffff : UInt32).toBitVec = BitVec.allOnes 32 from rfl,
    Crc.run_congr _ _ fun i hi => bit_at_slice hi] at hbody
  have hfield : (u32_at bytes crc_offset).toBitVec
      = ~~~ Crc.run crc32_poly (BitVec.allOnes 32) (fun i => bit_at bytes.toList (8 * 1 + i))
        (8 * (crc_offset - 1)) := by
    rw [← hbody, ← h, crc32, UInt32.toBitVec_not]
  rw [Crc.run_add]
  refine (Crc.run_congr _ _ fun i hi => ?_).trans
    ((Crc.iterate_shift_word crc32_poly _ (u32_at bytes crc_offset).toBitVec).symm.trans ?_)
  · rw [u32_at_getLsbD hi]
    congr 1
    omega
  · rw [hfield, ← BitVec.not_xor_right, BitVec.xor_self, BitVec.not_zero]

/-- **No burst goes unnoticed.** Two images with a right checksum do not differ, in the bytes
under it and the checksum itself, in up to 32 consecutive bits. -/
theorem CrcOk.eq_of_burst {crc_offset k : ℕ} (h : CrcOk bytes crc_offset)
    (h' : CrcOk bytes' crc_offset) (h1 : 1 ≤ crc_offset) (hlen : crc_offset ≤ RECORD_SIZE)
    (hwin : ∀ i, 8 ≤ i → i < 8 * (crc_offset + 4) →
      bit_at bytes.toList i ≠ bit_at bytes'.toList i → k ≤ i ∧ i < k + 32) :
    ∀ i, 8 ≤ i → i < 8 * (crc_offset + 4) → bit_at bytes.toList i = bit_at bytes'.toList i := by
  intro i hi hi'
  by_contra hne
  have hpoly : crc32_poly.msb = true := by decide
  refine Crc.run_ne_of_burst hpoly (BitVec.allOnes 32) (n := 8 * (crc_offset - 1) + 32) (k := k - 8)
    (f := fun i => bit_at bytes.toList (8 + i)) (g := fun i => bit_at bytes'.toList (8 + i))
    ?_ ?_ ((h.residue h1 hlen).trans (h'.residue h1 hlen).symm)
  · intro j hj hdiff
    have := hwin (8 + j) (by omega) (by omega) hdiff
    omega
  · refine ⟨i - 8, by omega, ?_⟩
    rwa [Nat.add_sub_cancel' hi]

/-! ## Corrupted images -/

/-- Where the checksum of this version is. -/
def crc_offset (version : UInt8) : ℕ := if version = 1 then 40 else 44

theorem crc_offset_bounds (version : UInt8) :
    40 ≤ crc_offset version ∧ crc_offset version + 4 ≤ RECORD_SIZE := by
  unfold crc_offset RECORD_SIZE
  split <;> omega

/-- What decodes has the right checksum. -/
theorem crcOk_of_decode {record : MeasurementRecord} (h : decode bytes = some record) :
    CrcOk bytes (crc_offset bytes[1]) := by
  by_contra hcrc
  have hnone : decode bytes = none := by
    unfold decode
    by_cases hhead : ¬ (bytes[1] = 1 ∨ bytes[1] = 2 ∨ bytes[1] = RECORD_VERSION)
        ∨ u32_at bytes 4 ≠ MAGIC
    · exact if_pos hhead
    · exact (if_neg hhead).trans (if_pos hcrc)
  rw [hnone] at h
  cases h

/-- The image with the bits of `error` flipped. -/
def corrupt (bytes error : Vector UInt8 RECORD_SIZE) : Vector UInt8 RECORD_SIZE :=
  Vector.ofFn fun i => getElem bytes i i.isLt ^^^ getElem error i i.isLt

variable {error : Vector UInt8 RECORD_SIZE}

theorem bit_at_corrupt (i : ℕ) : bit_at (corrupt bytes error).toList i
    = (bit_at bytes.toList i ^^ bit_at error.toList i) := by
  have hbyte : (corrupt bytes error).toList.getD (i / 8) 0
      = bytes.toList.getD (i / 8) 0 ^^^ error.toList.getD (i / 8) 0 := by
    by_cases hi : i / 8 < RECORD_SIZE
    · simp [corrupt, List.getD_eq_getElem?_getD, hi]
    · simp [List.getD_eq_getElem?_getD, hi]
  rw [bit_at, hbyte, UInt8.toNat_xor, Nat.testBit_xor, bit_at, bit_at]

theorem bit_at_byte {j n : ℕ} (hj : j < RECORD_SIZE) (hn : n < 8) :
    bit_at error.toList (8 * j + n) = error[j].toNat.testBit n := by
  rw [bit_at, show (8 * j + n) / 8 = j by omega, show (8 * j + n) % 8 = n by omega]
  simp [List.getD_eq_getElem?_getD, hj]

/-- A byte without a bit is zero. -/
theorem byte_eq_zero {j : ℕ} (hj : j < RECORD_SIZE)
    (h : ∀ i, bit_at error.toList i = true → i / 8 ≠ j) : error[j] = 0 := by
  refine UInt8.toNat_inj.mp (Nat.zero_of_testBit_eq_false fun n => ?_)
  by_cases hn : n < 8
  · by_contra hbit
    rw [← bit_at_byte hj hn, Bool.not_eq_false] at hbit
    exact h _ hbit (by omega)
  · apply Nat.testBit_lt_two_pow
    exact lt_of_lt_of_le error[j].toNat_lt (Nat.pow_le_pow_right (by decide) (by omega))

/-- A nonzero byte string has a bit that is set. -/
theorem exists_bit_at (h : error ≠ Vector.replicate RECORD_SIZE 0) :
    ∃ i, bit_at error.toList i = true := by
  by_contra hnone
  apply h
  apply Vector.ext
  intro j hj
  rw [Vector.getElem_replicate]
  exact byte_eq_zero hj fun i hi => absurd ⟨i, hi⟩ hnone

/-- A burst that leaves the checksum where it was is detected. -/
theorem decode_corrupt {record : MeasurementRecord} {k : ℕ} (h : decode bytes = some record)
    (herror : error ≠ Vector.replicate RECORD_SIZE 0)
    (hversion : crc_offset (corrupt bytes error)[1] = crc_offset bytes[1])
    (hbytes : ∀ i, bit_at error.toList i = true →
      1 ≤ i / 8 ∧ i / 8 < crc_offset bytes[1] + 4)
    (hwin : ∀ i, bit_at error.toList i = true → k ≤ i ∧ i < k + 32) :
    decode (corrupt bytes error) = none := by
  have hcrc := crcOk_of_decode h
  obtain ⟨h1, hlen⟩ := crc_offset_bounds bytes[1]
  by_contra hsome
  obtain ⟨record', h'⟩ := Option.ne_none_iff_exists'.mp hsome
  have hcrc' := crcOk_of_decode h'
  rw [hversion] at hcrc'
  have hdiff : ∀ i, bit_at bytes.toList i ≠ bit_at (corrupt bytes error).toList i →
      bit_at error.toList i = true := by
    intro i hi
    by_contra hzero
    rw [bit_at_corrupt, Bool.eq_false_of_not_eq_true hzero, Bool.xor_false] at hi
    exact hi rfl
  obtain ⟨i, hi⟩ := exists_bit_at herror
  obtain ⟨hlo, hhi⟩ := hbytes i hi
  have heq := hcrc.eq_of_burst hcrc' (by omega) (by omega) (fun j _ _ hj => hwin j (hdiff j hj)) i
    (by omega) (by omega)
  rw [bit_at_corrupt, hi] at heq
  simp at heq

/-- The error in a single byte. -/
def single (j : ℕ) (hj : j < RECORD_SIZE) (e : UInt8) : Vector UInt8 RECORD_SIZE :=
  (Vector.replicate RECORD_SIZE 0).set j e

section Single

variable {j : ℕ} {hj : j < RECORD_SIZE} {e : UInt8}

theorem single_ne (he : e ≠ 0) : single j hj e ≠ Vector.replicate RECORD_SIZE 0 := by
  intro h
  apply he
  have hbyte := congrArg (·[j]) h
  simpa [single] using hbyte

theorem single_bit {i : ℕ} (hi : bit_at (single j hj e).toList i = true) : i / 8 = j := by
  by_contra hne
  have hzero : (single j hj e).toList.getD (i / 8) 0 = 0 := by
    by_cases hlen : i / 8 < RECORD_SIZE
    · simp [single, List.getD_eq_getElem?_getD, hlen, Ne.symm hne]
    · simp [single, List.getD_eq_getElem?_getD, hlen]
  rw [bit_at, hzero] at hi
  simp at hi

/-- Changing a byte is such an error. -/
theorem corrupt_single (hj : j < RECORD_SIZE) (v : UInt8) :
    corrupt bytes (single j hj (bytes[j] ^^^ v)) = bytes.set j v := by
  apply Vector.ext
  intro i hi
  rw [corrupt, Vector.getElem_ofFn, single]
  by_cases hij : j = i
  · subst hij
    simp only [Fin.getElem_fin, Vector.getElem_set_self, ← UInt8.xor_assoc, UInt8.xor_self,
      UInt8.zero_xor]
  · simp [hij]

end Single

/-- **Bursts are detected.** Flipping up to 32 consecutive bits of the fields or of the checksum,
on any image that decodes, makes it one that does not. -/
theorem burst_detected {record : MeasurementRecord} {k : ℕ} (h : decode bytes = some record)
    (herror : error ≠ Vector.replicate RECORD_SIZE 0)
    (hbytes : ∀ i, bit_at error.toList i = true →
      2 ≤ i / 8 ∧ i / 8 < crc_offset bytes[1] + 4)
    (hwin : ∀ i, bit_at error.toList i = true → k ≤ i ∧ i < k + 32) :
    decode (corrupt bytes error) = none := by
  have hzero : error[1] = 0 := byte_eq_zero (by decide) fun i hi => by
    have := (hbytes i hi).1
    omega
  -- the version byte is outside of the error
  have hversion : (corrupt bytes error)[1] = bytes[1] := by
    rw [corrupt, Vector.getElem_ofFn]
    simp [hzero]
  refine decode_corrupt h herror (by rw [hversion]) (fun i hi => ?_) hwin
  obtain ⟨hlo, hhi⟩ := hbytes i hi
  exact ⟨by omega, hhi⟩

/-- The measurement of the tests. -/
def example_record : MeasurementRecord where
  sequence := 42
  timestamp_unix_s := 1700000000
  temperature_c := ⟨0x41bb3333⟩
  relative_humidity_pct := ⟨0x42366666⟩
  vsys_voltage_v := some ⟨0x40366666⟩
  on_battery := some true
  uptime_s := 120

/-- One flipped bit of the sequence number. -/
theorem burst_detected_single :
    decode (corrupt (encode example_record) (single 8 (by decide) 1)) = none := by
  refine burst_detected (k := 64) (decode_encode example_record fun _ _ _ => rfl) (single_ne (by decide))
    (fun i hi => ?_) (fun i hi => ?_)
  · have := single_bit hi
    have := (crc_offset_bounds (encode example_record)[1]).1
    omega
  · have := single_bit hi
    omega

/-- Any change of a byte of the fields or of the checksum is detected. -/
theorem byte_detected {record : MeasurementRecord} {j : ℕ} {v : UInt8} (hj : j < RECORD_SIZE)
    (h : decode bytes = some record) (hv : v ≠ bytes[j])
    (hlo : 2 ≤ j) (hhi : j < crc_offset bytes[1] + 4) : decode (bytes.set j v) = none := by
  rw [← corrupt_single hj]
  refine decode_corrupt (k := 8 * j) h (single_ne fun h => hv ?_) ?_ (fun i hi => ?_) fun i hi => ?_
  · exact (UInt8.xor_eq_zero_iff.mp h).symm
  · rw [corrupt_single hj, Vector.getElem_set, if_neg (by omega)]
  · rw [single_bit hi]
    omega
  · have := single_bit hi
    omega

end PicoDataLogger
