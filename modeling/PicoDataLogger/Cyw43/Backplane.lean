/-
The backplane of `spi.rs` is a flat memory.

Through the window the driver writes the chip's RAM in transfers of 64 bytes, and the
result is to be what one store to a flat memory is. For that the window has to be
where the driver thinks it is. The invariant is byte by byte: what the driver remembers of a
register is what the register has, or it is `0xAA`. A new window has `0xAA` only
where the address has, and no address of the RAM does; so behind
`backplane_set_window` the window is right, whatever it was when the driver started.
-/
import PicoDataLogger.Cyw43.Frames
import PicoDataLogger.Cyw43.Spi
import Mathlib.Data.Nat.Bitwise

set_option autoImplicit false

namespace PicoDataLogger.Cyw43

open FlatMemory SpiBus

/-! ## The chip -/

/-- The registers of the window. -/
inductive Register : Type where
  | high
  | mid
  | low
deriving DecidableEq

def Register.addr : Register → UInt32
  | .high => REG_BACKPLANE_BACKPLANE_ADDRESS_HIGH
  | .mid => REG_BACKPLANE_BACKPLANE_ADDRESS_MID
  | .low => REG_BACKPLANE_BACKPLANE_ADDRESS_LOW

def Register.shift : Register → UInt32
  | .high => 24
  | .mid => 16
  | .low => 8

/-- The byte of an address that a register is to have. -/
def byte_of (addr : UInt32) (reg : Register) : UInt8 := (addr >>> reg.shift).toUInt8

abbrev Window : Type := Register → UInt8

/-- Where a window begins. Only the top bit of the low register counts. -/
def Window.base (window : Window) : ℕ :=
  (window .high).toNat * 2 ^ 24 + (window .mid).toNat * 2 ^ 16 + (window .low).toNat / 128 * 2 ^ 15

/-- Accesses that are not to a register of the window. -/
def Aside (func addr len : UInt32) : Prop :=
  func = FUNC_BUS ∨ func = FUNC_WLAN
    ∨ (func = FUNC_BACKPLANE ∧ (addr.toNat < 0x10000
        ∨ (len = 1 ∧ addr.toNat < 0x20000 ∧ ∀ reg : Register, addr ≠ reg.addr)))

/-- A transfer that lies in the RAM, and is aligned as the chip needs it. -/
structure InRam (window : Window) (offs len : ℕ) : Prop where
  pos : 0 < len
  short : len ≤ BACKPLANE_MAX_TRANSFER_SIZE
  aligned_two : 2 ≤ len → offs % 2 = 0
  aligned_four : 4 ≤ len → offs % 4 = 0
  in_window : offs + len ≤ BACKPLANE_WINDOW_SIZE
  in_ram : window.base + offs + len ≤ chip_ram_size.toNat

/-- What the chip does with commands, as far as its window and its RAM go. -/
structure Gspi {σ : Type} (spi : SpiBusCyw43 σ) where
  window : σ → Window
  ram : σ → Mem
  write_register : ∀ (reg : Register) (val : UInt8) (rest : List UInt8) (s : σ),
    let s' := (spi.cmd_write (cmd_word WRITE INC_ADDR FUNC_BACKPLANE reg.addr 1) (val :: rest) s).2
    window s' = Function.update (window s) reg val ∧ ram s' = ram s
  write_aside : ∀ (func addr len : UInt32) (data : List UInt8) (s : σ), Aside func addr len →
    window (spi.cmd_write (cmd_word WRITE INC_ADDR func addr len) data s).2 = window s
  read_any : ∀ (func addr len : UInt32) (words : ℕ) (s : σ),
    window (spi.cmd_read (cmd_word READ INC_ADDR func addr len) words s).2.2 = window s
  /-- Four bytes may come with the flag. -/
  write_ram : ∀ (offs bus_addr len : UInt32) (data : List UInt8) (s : σ),
    InRam (window s) offs.toNat len.toNat → len.toNat ≤ data.length →
    bus_addr = offs ∨ (len = 4 ∧ bus_addr = offs ||| BACKPLANE_ADDRESS_32BIT_FLAG) →
    ram (spi.cmd_write (cmd_word WRITE INC_ADDR FUNC_BACKPLANE bus_addr len) data s).2
      = store (ram s) ((window s).base + offs.toNat) (data.take len.toNat)
  /-- The first word is not data. -/
  read_ram : ∀ (offs len : UInt32) (s : σ), InRam (window s) offs.toNat len.toNat →
    let r := spi.cmd_read (cmd_word READ INC_ADDR FUNC_BACKPLANE offs len) ((len.toNat + 3) / 4 + 1) s
    ram r.2.2 = ram s
      ∧ (r.2.1.drop 4).take len.toNat = load (ram s) ((window s).base + offs.toNat) len.toNat

/-! ## Addresses -/

section Addresses

variable (addr : UInt32)

theorem offset_toNat : (addr &&& BACKPLANE_ADDRESS_MASK).toNat = addr.toNat % 0x8000 := by
  have hmask : BACKPLANE_ADDRESS_MASK.toNat = 2 ^ 15 - 1 := by decide
  rw [UInt32.toNat_and, hmask, Nat.and_two_pow_sub_one_eq_mod]

theorem new_window_toNat :
    (addr &&& ~~~ BACKPLANE_ADDRESS_MASK).toNat = addr.toNat / 0x8000 * 0x8000 := by
  have hmask : (~~~ BACKPLANE_ADDRESS_MASK).toNat = (2 ^ 17 - 1) <<< 15 := by decide
  have hshift : addr.toNat / 0x8000 * 0x8000 = addr.toNat >>> 15 <<< 15 := by
    rw [Nat.shiftLeft_eq, Nat.shiftRight_eq_div_pow]
  rw [UInt32.toNat_and, hmask, hshift]
  apply Nat.eq_of_testBit_eq
  intro i
  rw [Nat.testBit_and, Nat.testBit_shiftLeft, Nat.testBit_two_pow_sub_one, Nat.testBit_shiftLeft,
    Nat.testBit_shiftRight]
  by_cases hlow : 15 ≤ i
  · have hi : 15 + (i - 15) = i := by omega
    by_cases hhigh : i - 15 < 17
    · simp [hlow, hi, hhigh]
    · have hbit : addr.toNat.testBit i = false :=
        Nat.testBit_lt_two_pow (addr.toNat_lt.trans_le (Nat.pow_le_pow_right (by decide) (by omega)))
      simp [hlow, hi, hhigh, hbit]
  · simp [hlow]

theorem byte_of_toNat (reg : Register) :
    (byte_of addr reg).toNat = addr.toNat / 2 ^ reg.shift.toNat % 256 := by
  have hshift : reg.shift.toNat % 32 = reg.shift.toNat := by cases reg <;> rfl
  rw [byte_of, UInt32.toNat_toUInt8, UInt32.toNat_shiftRight, hshift, Nat.shiftRight_eq_div_pow]

variable {addr}

/-- The registers have the whole window. -/
theorem base_byte_of :
    Window.base (byte_of (addr &&& ~~~ BACKPLANE_ADDRESS_MASK)) = addr.toNat / 0x8000 * 0x8000 := by
  have hhigh := byte_of_toNat (addr &&& ~~~ BACKPLANE_ADDRESS_MASK) .high
  have hmid := byte_of_toNat (addr &&& ~~~ BACKPLANE_ADDRESS_MASK) .mid
  have hlow := byte_of_toNat (addr &&& ~~~ BACKPLANE_ADDRESS_MASK) .low
  rw [new_window_toNat] at hhigh hmid hlow
  simp only [Register.shift, UInt32.reduceToNat] at hhigh hmid hlow
  have hlt := addr.toNat_lt
  rw [Window.base, hhigh, hmid, hlow]
  omega

/-- No byte of an address in the RAM is `0xAA`. -/
theorem byte_of_ram_ne (h : addr.toNat < chip_ram_size.toNat) (reg : Register) :
    byte_of (addr &&& ~~~ BACKPLANE_ADDRESS_MASK) reg ≠ 0xAA := by
  intro hbyte
  have hnat := byte_of_toNat (addr &&& ~~~ BACKPLANE_ADDRESS_MASK) reg
  have hsize : chip_ram_size.toNat = 0x80000 := by decide
  have haa : (0xAA : UInt8).toNat = 0xAA := rfl
  rw [hbyte, new_window_toNat, haa] at hnat
  cases reg <;> simp only [Register.shift, UInt32.reduceToNat] at hnat <;> omega

theorem bus_addr_toNat_lt (len : UInt32) : (bus_addr addr len).toNat < 0x10000 := by
  have hoffs := offset_toNat addr
  have hflag : BACKPLANE_ADDRESS_32BIT_FLAG.toNat = 2 ^ 15 := by decide
  unfold bus_addr
  dsimp only
  split
  · rw [UInt32.toNat_or, hoffs, hflag]
    exact Nat.or_lt_two_pow (n := 16) (by omega) (by decide)
  · omega

end Addresses

/-- Fields that do not overlap are added. -/
theorem or_eq_add {a b k : ℕ} (ha : a % 2 ^ k = 0) (hb : b < 2 ^ k) : a ||| b = a + b := by
  obtain ⟨c, rfl⟩ := Nat.dvd_of_mod_eq_zero ha
  exact (Nat.two_pow_add_eq_or_of_lt hb c).symm

/-! ## The window -/

section Window

variable {σ : Type} {spi : SpiBusCyw43 σ} (chip : Gspi spi)

/-- What the driver remembers of a register is right, or it is `0xAA`. -/
def Consistent (S : SpiBus × σ) : Prop :=
  ∀ reg, byte_of S.1.backplane_window reg = chip.window S.2 reg ∨ byte_of S.1.backplane_window reg = 0xAA

/-- One of the three registers, which is written if it changes. -/
theorem write_register_spec (reg : Register) (new old : UInt8) (S : SpiBus × σ) :
    let S' := if new ≠ old then write8 spi FUNC_BACKPLANE reg.addr new S else S
    S'.1.backplane_window = S.1.backplane_window ∧ chip.ram S'.2 = chip.ram S.2
      ∧ chip.window S'.2 = if new ≠ old then Function.update (chip.window S.2) reg new
          else chip.window S.2 := by
  intro S'
  by_cases hnew : new ≠ old
  · have hval : to_le_bytes 4 new.toUInt32.toNat
        = UInt8.ofNat new.toUInt32.toNat :: to_le_bytes 3 (new.toUInt32.toNat / 256) := rfl
    have hbyte : UInt8.ofNat new.toUInt32.toNat = new := by simp
    obtain ⟨hwindow, hram⟩ := chip.write_register reg new (to_le_bytes 3 (new.toUInt32.toNat / 256)) S.2
    have hS' : S' = write8 spi FUNC_BACKPLANE reg.addr new S := if_pos hnew
    rw [hS', if_pos hnew]
    simp only [write8, writen, SpiBus.cmd_write, hval, hbyte]
    exact ⟨trivial, hram, hwindow⟩
  · have hS' : S' = S := if_neg hnew
    rw [hS', if_neg hnew]
    exact ⟨rfl, rfl, rfl⟩

/-- Behind `backplane_set_window`, the registers that differed from what the driver
remembered are the new window's. -/
theorem set_window_spec (addr : UInt32) (S : SpiBus × σ) :
    let new := addr &&& ~~~ BACKPLANE_ADDRESS_MASK
    let S' := backplane_set_window spi addr S
    S'.1.backplane_window = new ∧ chip.ram S'.2 = chip.ram S.2
      ∧ ∀ reg, chip.window S'.2 reg = if byte_of new reg ≠ byte_of S.1.backplane_window reg
          then byte_of new reg else chip.window S.2 reg := by
  intro new S'
  let old := S.1.backplane_window
  let S₁ := if byte_of new .high ≠ byte_of old .high then
    write8 spi FUNC_BACKPLANE Register.high.addr (byte_of new .high) S else S
  let S₂ := if byte_of new .mid ≠ byte_of old .mid then
    write8 spi FUNC_BACKPLANE Register.mid.addr (byte_of new .mid) S₁ else S₁
  let S₃ := if byte_of new .low ≠ byte_of old .low then
    write8 spi FUNC_BACKPLANE Register.low.addr (byte_of new .low) S₂ else S₂
  obtain ⟨-, hram₁, hwindow₁⟩ := write_register_spec chip .high (byte_of new .high) (byte_of old .high) S
  obtain ⟨-, hram₂, hwindow₂⟩ := write_register_spec chip .mid (byte_of new .mid) (byte_of old .mid) S₁
  obtain ⟨-, hram₃, hwindow₃⟩ := write_register_spec chip .low (byte_of new .low) (byte_of old .low) S₂
  have hS' : S'.2 = S₃.2 := rfl
  refine ⟨rfl, ?_, ?_⟩
  · rw [hS', hram₃, hram₂, hram₁]
  · intro reg
    rw [hS', hwindow₃, hwindow₂, hwindow₁]
    -- a register is written by its own step only
    cases reg <;> split <;> split <;> split <;> simp_all [Function.update, old]

theorem set_window_consistent {S : SpiBus × σ} (h : Consistent chip S) (addr : UInt32) :
    Consistent chip (backplane_set_window spi addr S) := by
  obtain ⟨hnew, -, hwindow⟩ := set_window_spec chip addr S
  intro reg
  rw [hnew, hwindow]
  by_cases hsame : byte_of (addr &&& ~~~ BACKPLANE_ADDRESS_MASK) reg = byte_of S.1.backplane_window reg
  · rw [if_neg (not_not.mpr hsame), hsame]
    exact h reg
  · exact .inl (if_pos hsame).symm

/-- **The window is right** for an address in the RAM. -/
theorem set_window_exact {S : SpiBus × σ} (h : Consistent chip S) (addr : UInt32)
    (haddr : addr.toNat < chip_ram_size.toNat) :
    (chip.window (backplane_set_window spi addr S).2).base = addr.toNat / 0x8000 * 0x8000 := by
  have hwindow : chip.window (backplane_set_window spi addr S).2
      = byte_of (addr &&& ~~~ BACKPLANE_ADDRESS_MASK) := by
    funext reg
    have hconsistent := set_window_consistent chip h addr reg
    rw [(set_window_spec chip addr S).1] at hconsistent
    rcases hconsistent with heq | haa
    · exact heq.symm
    · exact absurd haa (byte_of_ram_ne haddr reg)
  rw [hwindow, base_byte_of]

variable {chip}

theorem consistent_new (s : σ) : Consistent chip (SpiBus.new, s) := by
  have hnew : ∀ reg, byte_of 0xAAAAAAAA reg = 0xAA := by
    intro reg
    cases reg <;> decide
  exact fun reg => .inr (hnew reg)

theorem consistent_writen {S : SpiBus × σ} (h : Consistent chip S) {func addr len : UInt32}
    (haside : Aside func addr len) (data : List UInt8) :
    Consistent chip (SpiBus.cmd_write spi (cmd_word WRITE INC_ADDR func addr len) data S) := by
  intro reg
  rw [SpiBus.cmd_write, chip.write_aside _ _ _ _ _ haside]
  exact h reg

theorem consistent_readn {S : SpiBus × σ} (h : Consistent chip S) (func addr len : UInt32) (words : ℕ) :
    Consistent chip (SpiBus.cmd_read spi (cmd_word READ INC_ADDR func addr len) words S).2 := by
  intro reg
  rw [SpiBus.cmd_read, chip.read_any]
  exact h reg

end Window

/-! ## Transfers -/

section Transfers

variable {σ : Type} {spi : SpiBusCyw43 σ} {chip : Gspi spi} {S : SpiBus × σ} {addr : UInt32}

/-- A transfer is in the window, and as long as it may be. -/
theorem chunk_len_bounds (addr : UInt32) {remaining : ℕ} (h : 0 < remaining) :
    0 < chunk_len addr remaining ∧ chunk_len addr remaining ≤ remaining
      ∧ chunk_len addr remaining ≤ BACKPLANE_MAX_TRANSFER_SIZE
      ∧ addr.toNat % 0x8000 + chunk_len addr remaining ≤ BACKPLANE_WINDOW_SIZE
      ∧ (UInt32.ofNat (chunk_len addr remaining)).toNat = chunk_len addr remaining := by
  have hpos := chunk_len_pos addr h
  have hmax : BACKPLANE_MAX_TRANSFER_SIZE = 64 := rfl
  have hwindow : BACKPLANE_WINDOW_SIZE = 0x8000 := rfl
  have hle : chunk_len addr remaining ≤ 64 := (min_le_left _ _).trans (min_le_right _ _)
  have hrest : chunk_len addr remaining ≤ 0x8000 - addr.toNat % 0x8000 := by
    rw [← offset_toNat]
    exact min_le_right _ _
  refine ⟨hpos, (min_le_left _ _).trans (min_le_left _ _), hle, by omega, ?_⟩
  rw [UInt32.toNat_ofNat']
  omega

/-- **A transfer is to the bytes it is for.** -/
theorem transfer_in_ram (h : Consistent chip S) {remaining : ℕ} (hremaining : 0 < remaining)
    (haligned : addr.toNat % 4 = 0) (hram : addr.toNat + remaining ≤ chip_ram_size.toNat) :
    let window := chip.window (backplane_set_window spi addr S).2
    InRam window (addr &&& BACKPLANE_ADDRESS_MASK).toNat
        (UInt32.ofNat (chunk_len addr remaining)).toNat
      ∧ window.base + (addr &&& BACKPLANE_ADDRESS_MASK).toNat = addr.toNat := by
  intro window
  obtain ⟨hpos, hle, hmax, hfit, hlen⟩ := chunk_len_bounds addr hremaining
  have hbase : window.base = addr.toNat / 0x8000 * 0x8000 := set_window_exact chip h addr (by omega)
  rw [hlen, offset_toNat]
  have hsum : window.base + addr.toNat % 0x8000 = addr.toNat := by omega
  refine ⟨⟨hpos, hmax, fun _ => by omega, fun _ => by omega, hfit, ?_⟩, hsum⟩
  omega

/-- The next transfer is aligned as well, if there is one. -/
theorem next_transfer {remaining : ℕ} (hremaining : 0 < remaining) (haligned : addr.toNat % 4 = 0)
    (hram : addr.toNat + remaining ≤ chip_ram_size.toNat) :
    let len := chunk_len addr remaining
    (addr + UInt32.ofNat len).toNat = addr.toNat + len
      ∧ ((addr + UInt32.ofNat len).toNat % 4 = 0 ∨ remaining - len = 0) := by
  intro len
  obtain ⟨hpos, hle, hmax, hfit, hlen⟩ := chunk_len_bounds addr hremaining
  have hsize : chip_ram_size.toNat = 0x80000 := by decide
  have hsum : (addr + UInt32.ofNat len).toNat = addr.toNat + len := by
    rw [UInt32.toNat_add, hlen]
    omega
  refine ⟨hsum, ?_⟩
  by_cases hlast : len = remaining
  · exact .inr (by omega)
  · left
    -- a transfer that is not the last is 64 bytes, or up to the end of the window
    have hcut : len = 64 ∨ len = 0x8000 - addr.toNat % 0x8000 := by
      have hdef : len = min (min remaining 64) (0x8000 - addr.toNat % 0x8000) := by
        rw [← offset_toNat]
        rfl
      omega
    omega

/-- The words of a transfer have its bytes first. -/
theorem take_slice_copy (buf : Vector UInt8 BACKPLANE_MAX_TRANSFER_SIZE) {data : List UInt8} {len : ℕ}
    (hlen : len ≤ BACKPLANE_MAX_TRANSFER_SIZE) (hdata : data.length = len) :
    (slice (copy_from_slice buf 0 data) 0 (word_bytes len)).take len = data := by
  have hwords : len ≤ word_bytes len := by
    unfold word_bytes
    omega
  have htake : (slice (copy_from_slice buf 0 data) 0 (word_bytes len)).take len
      = slice (copy_from_slice buf 0 data) 0 len := by
    simp only [slice, List.drop_zero, List.take_take, min_eq_left hwords]
  rw [htake, slice_copy_same _ _ _ _ (by omega) hlen]

theorem length_words (buf : Vector UInt8 BACKPLANE_MAX_TRANSFER_SIZE) {len : ℕ}
    (hlen : len ≤ BACKPLANE_MAX_TRANSFER_SIZE) : len ≤ (slice buf 0 (word_bytes len)).length := by
  have hmax : BACKPLANE_MAX_TRANSFER_SIZE = 64 := rfl
  have hwords : len ≤ word_bytes len ∧ word_bytes len ≤ 64 := by
    unfold word_bytes
    omega
  rw [length_slice _ (by omega)]
  omega

/-- **The loop of `bp_write` is a store.** -/
theorem bp_write_loop_spec (h : Consistent chip S) {data : List UInt8}
    (buf : Vector UInt8 BACKPLANE_MAX_TRANSFER_SIZE) (haligned : addr.toNat % 4 = 0 ∨ data.length = 0)
    (hram : addr.toNat + data.length ≤ chip_ram_size.toNat) :
    let S' := bp_write_loop spi addr data buf S
    Consistent chip S' ∧ chip.ram S'.2 = store (chip.ram S.2) addr.toNat data := by
  induction addr, data, buf, S using bp_write_loop.induct spi with
  | case1 addr buf S =>
    rw [bp_write_loop, dif_pos rfl, store_nil]
    exact ⟨h, rfl⟩
  | case2 addr data buf S hdata len buf' S₁ cmd S₂ ih =>
    have hpos : 0 < data.length := List.length_pos_iff.mpr hdata
    have haligned' : addr.toNat % 4 = 0 := by omega
    obtain ⟨-, hle, hmax, -, hlen⟩ := chunk_len_bounds addr hpos
    obtain ⟨hsum, hnext⟩ := next_transfer hpos haligned' hram
    obtain ⟨hin, haddr⟩ := transfer_in_ram h hpos haligned' hram
    have htake : (data.take len).length = len := by rw [List.length_take, min_eq_left hle]
    have hlt : (addr &&& BACKPLANE_ADDRESS_MASK).toNat < 0x10000 := by
      rw [offset_toNat]
      omega
    have hconsistent : Consistent chip S₂ :=
      consistent_writen (set_window_consistent chip h addr) (.inr (.inr ⟨rfl, .inl hlt⟩)) _
    have hstore : chip.ram S₂.2 = store (chip.ram S.2) addr.toNat (data.take len) := by
      have := chip.write_ram _ _ _ (slice buf' 0 (word_bytes len)) S₁.2 hin
        (by rw [hlen]; exact length_words buf' hmax) (.inl rfl)
      rw [haddr, hlen, take_slice_copy buf hmax htake, (set_window_spec chip addr S).2.1] at this
      exact this
    rw [bp_write_loop, dif_neg hdata]
    obtain ⟨hend, hends⟩ := ih hconsistent (by rw [List.length_drop]; exact hnext)
      (by rw [List.length_drop, hsum]; omega)
    refine ⟨hend, ?_⟩
    calc chip.ram (bp_write_loop spi (addr + UInt32.ofNat len) (data.drop len) buf' S₂).2
        = store (store (chip.ram S.2) addr.toNat (data.take len)) (addr.toNat + len) (data.drop len) := by
          rw [hends, hstore, hsum]
      _ = store (chip.ram S.2) addr.toNat (data.take len ++ data.drop len) := by
          rw [store_append, htake]
      _ = store (chip.ram S.2) addr.toNat data := by rw [List.take_append_drop]

/-- **The loop of `bp_read` is a load.** -/
theorem bp_read_loop_spec (h : Consistent chip S) {remaining : ℕ}
    (haligned : addr.toNat % 4 = 0 ∨ remaining = 0)
    (hram : addr.toNat + remaining ≤ chip_ram_size.toNat) :
    let r := bp_read_loop spi addr remaining S
    Consistent chip r.2 ∧ chip.ram r.2.2 = chip.ram S.2
      ∧ r.1 = load (chip.ram S.2) addr.toNat remaining := by
  induction addr, remaining, S using bp_read_loop.induct spi with
  | case1 addr S =>
    rw [bp_read_loop, dif_pos rfl]
    exact ⟨h, rfl, rfl⟩
  | case2 addr remaining S hremaining len S₁ cmd buf S₂ hread rest S₃ hrest ih =>
    have hpos : 0 < remaining := Nat.pos_of_ne_zero hremaining
    have haligned' : addr.toNat % 4 = 0 := by omega
    obtain ⟨-, hle, hmax, -, hlen⟩ := chunk_len_bounds addr hpos
    obtain ⟨hsum, hnext⟩ := next_transfer hpos haligned' hram
    obtain ⟨hin, haddr⟩ := transfer_in_ram h hpos haligned' hram
    have hconsistent : Consistent chip S₂ := by
      have := consistent_readn (set_window_consistent chip h addr) FUNC_BACKPLANE
        (addr &&& BACKPLANE_ADDRESS_MASK) (UInt32.ofNat len) ((len + 3) / 4 + 1)
      rwa [hread] at this
    obtain ⟨hsame, hload⟩ : chip.ram S₂.2 = chip.ram S.2
        ∧ (buf.drop 4).take len = load (chip.ram S.2) addr.toNat len := by
      have := chip.read_ram _ _ S₁.2 hin
      rw [haddr, hlen, (set_window_spec chip addr S).2.1] at this
      have hbuf : buf = (spi.cmd_read cmd ((len + 3) / 4 + 1) S₁.2).2.1 :=
        (congrArg Prod.fst hread).symm
      have hS₂ : S₂.2 = (spi.cmd_read cmd ((len + 3) / 4 + 1) S₁.2).2.2 :=
        (congrArg (fun r => r.2.2) hread).symm
      rw [hbuf, hS₂]
      exact this
    obtain ⟨hend, hends, hrests⟩ := ih hconsistent hnext (by rw [hsum]; omega)
    rw [hrest, hsame] at hends hrests
    rw [hrest] at hend
    have hr : bp_read_loop spi addr remaining S = ((buf.drop 4).take len ++ rest, S₃) := by
      rw [bp_read_loop_of_ne spi hremaining hread, hrest]
    rw [hr]
    refine ⟨hend, hends, ?_⟩
    calc (buf.drop 4).take len ++ rest
        = load (chip.ram S.2) addr.toNat len
            ++ load (chip.ram S.2) (addr.toNat + len) (remaining - len) := by
          rw [hload, ← hsum]
          exact congrArg _ hrests
      _ = load (chip.ram S.2) addr.toNat (len + (remaining - len)) := (load_add _ _ _ _).symm
      _ = load (chip.ram S.2) addr.toNat remaining := by rw [Nat.add_sub_cancel' hle]

/-! Elsewhere the RAM is not known, but the window is. -/

theorem offset_aside (addr len : UInt32) : Aside FUNC_BACKPLANE (addr &&& BACKPLANE_ADDRESS_MASK) len := by
  have hlt : (addr &&& BACKPLANE_ADDRESS_MASK).toNat < 0x10000 := by
    rw [offset_toNat]
    omega
  exact .inr (.inr ⟨rfl, .inl hlt⟩)

theorem bp_write_loop_consistent (h : Consistent chip S) {data : List UInt8}
    (buf : Vector UInt8 BACKPLANE_MAX_TRANSFER_SIZE) :
    Consistent chip (bp_write_loop spi addr data buf S) := by
  induction addr, data, buf, S using bp_write_loop.induct spi with
  | case1 addr buf S =>
    rw [bp_write_loop, dif_pos rfl]
    exact h
  | case2 addr data buf S hdata len buf' S₁ cmd S₂ ih =>
    rw [bp_write_loop, dif_neg hdata]
    exact ih (consistent_writen (set_window_consistent chip h addr) (offset_aside addr _) _)

theorem bp_read_loop_consistent (h : Consistent chip S) {remaining : ℕ} :
    Consistent chip (bp_read_loop spi addr remaining S).2 := by
  induction addr, remaining, S using bp_read_loop.induct spi with
  | case1 addr S =>
    rw [bp_read_loop, dif_pos rfl]
    exact h
  | case2 addr remaining S hremaining len S₁ cmd buf S₂ hread rest S₃ hrest ih =>
    have hconsistent := consistent_readn (set_window_consistent chip h addr) FUNC_BACKPLANE
      (addr &&& BACKPLANE_ADDRESS_MASK) (UInt32.ofNat len) ((len + 3) / 4 + 1)
    have hr : (bp_read_loop spi addr remaining S).2
        = (bp_read_loop spi (addr + UInt32.ofNat len) (remaining - len) S₂).2 := by
      rw [bp_read_loop_of_ne spi hremaining hread]
    rw [hr]
    rw [hread] at hconsistent
    exact ih hconsistent

/-- A word in the RAM. -/
theorem bp_write32_spec (h : Consistent chip S) (val : UInt32) (haligned : addr.toNat % 4 = 0)
    (hram : addr.toNat + 4 ≤ chip_ram_size.toNat) :
    let S' := bp_write32 spi addr val S
    Consistent chip S' ∧ chip.ram S'.2 = store (chip.ram S.2) addr.toNat (to_le_bytes 4 val.toNat) := by
  intro S'
  have hbase := set_window_exact chip h addr (by omega)
  have hoffs := offset_toNat addr
  have haddr : (chip.window (backplane_set_window spi addr S).2).base
      + (addr &&& BACKPLANE_ADDRESS_MASK).toNat = addr.toNat := by omega
  have hfour : (4 : UInt32).toNat = 4 := rfl
  have hmax : BACKPLANE_MAX_TRANSFER_SIZE = 64 := rfl
  have hwindow : BACKPLANE_WINDOW_SIZE = 0x8000 := rfl
  have hin : InRam (chip.window (backplane_set_window spi addr S).2)
      (addr &&& BACKPLANE_ADDRESS_MASK).toNat (4 : UInt32).toNat := by
    rw [hfour]
    exact ⟨by omega, by omega, fun _ => by omega, fun _ => by omega, by omega, by omega⟩
  refine ⟨consistent_writen (set_window_consistent chip h addr)
    (.inr (.inr ⟨rfl, .inl (bus_addr_toNat_lt 4)⟩)) _, ?_⟩
  have := chip.write_ram _ (bus_addr addr 4) 4 (to_le_bytes 4 val.toNat) _ hin
    (by rw [length_to_le_bytes, hfour]) (.inr ⟨rfl, rfl⟩)
  rw [haddr, hfour, List.take_of_length_le (by rw [length_to_le_bytes]),
    (set_window_spec chip addr S).2.1] at this
  exact this

end Transfers

/-! ## Runs -/

section Runs

variable {σ : Type} {spi : SpiBusCyw43 σ}

variable (spi) in
/-- What `Runner` can have done to the bus, from any state of the chip. -/
inductive Reached : SpiBus × σ → Prop where
  | new (s : σ) : Reached (SpiBus.new, s)
  | readn {S : SpiBus × σ} (func addr len : UInt32) : Reached S → Reached (readn spi func addr len S).2
  | writen {S : SpiBus × σ} (func addr val len : UInt32) (haside : Aside func addr len) :
      Reached S → Reached (writen spi func addr val len S)
  | backplane_readn {S : SpiBus × σ} (addr len : UInt32) :
      Reached S → Reached (backplane_readn spi addr len S).2
  | backplane_writen {S : SpiBus × σ} (addr val len : UInt32) :
      Reached S → Reached (backplane_writen spi addr val len S)
  | bp_write {S S' : SpiBus × σ} (addr : UInt32) (data : List UInt8)
      (h : bp_write spi addr data S = .ok S') : Reached S → Reached S'
  | bp_read {S S' : SpiBus × σ} (addr : UInt32) (len : ℕ) (data : List UInt8)
      (h : bp_read spi addr len S = .ok (data, S')) : Reached S → Reached S'

theorem consistent_of_reached (chip : Gspi spi) {S : SpiBus × σ} (h : Reached spi S) :
    Consistent chip S := by
  induction h with
  | new s => exact consistent_new s
  | readn func addr len _ ih => exact consistent_readn ih func addr len _
  | writen func addr val len haside _ ih => exact consistent_writen ih haside _
  | backplane_readn addr len _ ih =>
    exact consistent_readn (set_window_consistent chip ih addr) FUNC_BACKPLANE _ len _
  | backplane_writen addr val len _ ih =>
    exact consistent_writen (set_window_consistent chip ih addr)
      (.inr (.inr ⟨rfl, .inl (bus_addr_toNat_lt len)⟩)) _
  | bp_write addr data h _ ih =>
    unfold SpiBus.bp_write at h
    split at h
    · exact absurd h (by simp)
    · rw [← Except.ok.inj h]
      exact bp_write_loop_consistent ih _
  | bp_read addr len data h _ ih =>
    unfold SpiBus.bp_read at h
    split at h
    · exact absurd h (by simp)
    · rename_i S' _ _
      have hS' : S' = (bp_read_loop spi addr len _).2 := (congrArg Prod.snd (Except.ok.inj h)).symm
      rw [hS']
      exact bp_read_loop_consistent ih

theorem aligned_iff (addr : UInt32) : addr % 4 ≠ 0 ↔ addr.toNat % 4 ≠ 0 := by
  rw [ne_eq, ← UInt32.toNat_inj, UInt32.toNat_mod]
  rfl

theorem bp_write_spec {chip : Gspi spi} {S : SpiBus × σ} (h : Consistent chip S) (addr : UInt32)
    (data : List UInt8) (haligned : addr.toNat % 4 = 0)
    (hram : addr.toNat + data.length ≤ chip_ram_size.toNat) :
    ∃ S', SpiBus.bp_write spi addr data S = .ok S' ∧ Consistent chip S'
      ∧ chip.ram S'.2 = store (chip.ram S.2) addr.toNat data := by
  refine ⟨_, if_neg ?_, bp_write_loop_spec h _ (.inl haligned) hram⟩
  rw [aligned_iff]
  exact not_not.mpr haligned

theorem bp_read_spec {chip : Gspi spi} {S : SpiBus × σ} (h : Consistent chip S) {addr : UInt32} {len : ℕ}
    (haligned : addr.toNat % 4 = 0) (hram : addr.toNat + len ≤ chip_ram_size.toNat) :
    ∃ S', SpiBus.bp_read spi addr len S = .ok (load (chip.ram S.2) addr.toNat len, S')
      ∧ Consistent chip S' ∧ chip.ram S'.2 = chip.ram S.2 := by
  obtain ⟨hconsistent, hsame, hload⟩ := bp_read_loop_spec h (.inl haligned) hram
  refine ⟨(bp_read_loop spi addr len S).2, ?_, hconsistent, hsame⟩
  rw [SpiBus.bp_read, if_neg (by rw [aligned_iff]; exact not_not.mpr haligned), ← hload]

theorem cmd_word_toNat (write incr : Bool) (func addr len : UInt32) :
    (cmd_word write incr func addr len).toNat
      = write.toNat * 2147483648 + incr.toNat * 1073741824 + func.toNat % 4 * 268435456
        + addr.toNat % 131072 * 2048 + len.toNat % 2048 := by
  have hfunc : (func &&& 0b11).toNat = func.toNat % 4 := by
    rw [UInt32.toNat_and]
    exact Nat.and_two_pow_sub_one_eq_mod func.toNat 2
  have haddr : (addr &&& 0x1FFFF).toNat = addr.toNat % 131072 := by
    rw [UInt32.toNat_and]
    exact Nat.and_two_pow_sub_one_eq_mod addr.toNat 17
  have hlen : (len &&& 0x7FF).toNat = len.toNat % 2048 := by
    rw [UInt32.toNat_and]
    exact Nat.and_two_pow_sub_one_eq_mod len.toNat 11
  have hbit : ∀ b : Bool, b.toUInt32.toNat = b.toNat := by decide
  have hone : ∀ b : Bool, b.toNat ≤ 1 := by decide
  have hwrite := hone write
  have hincr := hone incr
  simp only [cmd_word, UInt32.toNat_or, UInt32.toNat_shiftLeft, hfunc, haddr, hlen, hbit, UInt32.reduceToNat,
    Nat.shiftLeft_eq, Nat.reduceMod, Nat.reducePow]
  rw [Nat.mod_eq_of_lt (a := write.toNat * _) (by omega), Nat.mod_eq_of_lt (a := incr.toNat * _) (by omega),
    Nat.mod_eq_of_lt (a := func.toNat % 4 * _) (by omega),
    Nat.mod_eq_of_lt (a := addr.toNat % 131072 * _) (by omega),
    or_eq_add (a := write.toNat * _) (k := 31) (by omega) (by omega),
    or_eq_add (a := write.toNat * _ + _) (k := 30) (by omega) (by omega),
    or_eq_add (a := write.toNat * _ + _ + _) (k := 28) (by omega) (by omega),
    or_eq_add (a := write.toNat * _ + _ + _ + _) (k := 11) (by omega) (by omega)]

theorem cmd_word_fields (write incr : Bool) (func addr len : UInt32) :
    (cmd_word write incr func addr len).toNat / 268435456 % 4 = func.toNat % 4
      ∧ (cmd_word write incr func addr len).toNat / 2048 % 131072 = addr.toNat % 131072
      ∧ (cmd_word write incr func addr len).toNat % 2048 = len.toNat % 2048 := by
  have hone : ∀ b : Bool, b.toNat ≤ 1 := by decide
  have hwrite := hone write
  have hincr := hone incr
  rw [cmd_word_toNat]
  omega

def plain : SpiBusCyw43 (Window × Mem) where
  cmd_write cmd data s :=
    let addr := cmd.toNat / 2048 % 131072
    if cmd.toNat / 268435456 % 4 ≠ 1 then (0, s)
    else if addr < 0x10000 then
      (0, s.1, store s.2 (s.1.base + addr % 0x8000) (data.take (cmd.toNat % 2048)))
    else
      match [Register.high, .mid, .low].find? fun reg => reg.addr.toNat == addr with
      | some reg => (0, Function.update s.1 reg (data.getD 0 0), s.2)
      | none => (0, s)
  cmd_read cmd _ s :=
    let addr := cmd.toNat / 2048 % 131072
    (0, List.replicate 4 0 ++ load s.2 (s.1.base + addr % 0x8000) (cmd.toNat % 2048), s)

theorem plain_write_register (reg : Register) (val : UInt8) (rest : List UInt8) (s : Window × Mem) :
    let s' := (plain.cmd_write (cmd_word WRITE INC_ADDR FUNC_BACKPLANE reg.addr 1) (val :: rest) s).2
    s'.1 = Function.update s.1 reg val ∧ s'.2 = s.2 := by
  obtain ⟨hfunc, haddr, -⟩ := cmd_word_fields WRITE INC_ADDR FUNC_BACKPLANE reg.addr 1
  have hone : FUNC_BACKPLANE.toNat % 4 = 1 := rfl
  have hmod : reg.addr.toNat % 131072 = reg.addr.toNat := by cases reg <;> rfl
  have hreg : ¬ reg.addr.toNat < 0x10000 := by cases reg <;> decide
  have hfind : [Register.high, .mid, .low].find? (fun r => r.addr.toNat == reg.addr.toNat) = some reg := by
    cases reg <;> decide
  simp only [plain, hfunc, haddr, hone, hmod, hreg, hfind, ne_eq, not_true_eq_false, if_false, List.getD_cons_zero]
  exact ⟨trivial, trivial⟩

theorem plain_write_aside (func addr len : UInt32) (data : List UInt8) (s : Window × Mem)
    (haside : Aside func addr len) :
    (plain.cmd_write (cmd_word WRITE INC_ADDR func addr len) data s).2.1 = s.1 := by
  obtain ⟨hfunc, haddr, -⟩ := cmd_word_fields WRITE INC_ADDR func addr len
  by_cases hone : func.toNat % 4 = 1
  · have hfind : ¬ addr.toNat % 131072 < 0x10000 →
        [Register.high, .mid, .low].find? (fun reg => reg.addr.toNat == addr.toNat % 131072) = none := by
      intro hlarge
      rcases haside with rfl | rfl | ⟨-, hlt | ⟨-, hlt, hne⟩⟩
      · exact absurd hone (by decide)
      · exact absurd hone (by decide)
      · omega
      · have hreg : ∀ reg : Register, (reg.addr.toNat == addr.toNat) = false := by
          intro reg
          rw [beq_eq_false_iff_ne, ne_eq, UInt32.toNat_inj]
          exact (hne reg).symm
        rw [Nat.mod_eq_of_lt hlt]
        simp only [List.find?_cons, hreg, List.find?_nil]
    by_cases hlarge : addr.toNat % 131072 < 0x10000
    · simp only [plain, hfunc, haddr, hone, hlarge, ne_eq, not_true_eq_false, if_false, if_true]
    · simp only [plain, hfunc, haddr, hone, hlarge, hfind hlarge, ne_eq, not_true_eq_false, if_false]
  · simp only [plain, hfunc, ne_eq, hone, not_false_eq_true, if_true]

theorem plain_write_ram (offs bus_addr len : UInt32) (data : List UInt8) (s : Window × Mem)
    (hin : InRam s.1 offs.toNat len.toNat)
    (hbus : bus_addr = offs ∨ (len = 4 ∧ bus_addr = offs ||| BACKPLANE_ADDRESS_32BIT_FLAG)) :
    (plain.cmd_write (cmd_word WRITE INC_ADDR FUNC_BACKPLANE bus_addr len) data s).2.2
      = store s.2 (s.1.base + offs.toNat) (data.take len.toNat) := by
  obtain ⟨hfunc, haddr, hlen⟩ := cmd_word_fields WRITE INC_ADDR FUNC_BACKPLANE bus_addr len
  have hmax : BACKPLANE_MAX_TRANSFER_SIZE = 64 := rfl
  have hwindow : BACKPLANE_WINDOW_SIZE = 0x8000 := rfl
  obtain ⟨hpos, hshort, -, -, hfit, -⟩ := hin
  have hone : FUNC_BACKPLANE.toNat % 4 = 1 := rfl
  have hbus_addr : bus_addr.toNat < 0x10000 ∧ bus_addr.toNat % 0x8000 = offs.toNat := by
    rcases hbus with rfl | ⟨-, rfl⟩
    · omega
    · have hflag : BACKPLANE_ADDRESS_32BIT_FLAG.toNat = 0x8000 := by decide
      rw [UInt32.toNat_or, hflag, Nat.or_comm, or_eq_add (k := 15) (by decide) (by omega)]
      omega
  have hmod : bus_addr.toNat % 131072 = bus_addr.toNat := Nat.mod_eq_of_lt (by omega)
  have hlen' : len.toNat % 2048 = len.toNat := Nat.mod_eq_of_lt (by omega)
  simp only [plain, hfunc, haddr, hlen, hone, hmod, hlen', hbus_addr.1, hbus_addr.2, ne_eq,
    not_true_eq_false, if_false, if_true]

theorem plain_read_ram (offs len : UInt32) (words : ℕ) (s : Window × Mem)
    (hin : InRam s.1 offs.toNat len.toNat) :
    let r := plain.cmd_read (cmd_word READ INC_ADDR FUNC_BACKPLANE offs len) words s
    r.2.2.2 = s.2 ∧ (r.2.1.drop 4).take len.toNat = load s.2 (s.1.base + offs.toNat) len.toNat := by
  obtain ⟨-, haddr, hlen⟩ := cmd_word_fields READ INC_ADDR FUNC_BACKPLANE offs len
  have hmax : BACKPLANE_MAX_TRANSFER_SIZE = 64 := rfl
  have hwindow : BACKPLANE_WINDOW_SIZE = 0x8000 := rfl
  obtain ⟨hpos, hshort, -, -, hfit, -⟩ := hin
  have hoffs : offs.toNat % 131072 % 0x8000 = offs.toNat := by omega
  have hlen' : len.toNat % 2048 = len.toNat := Nat.mod_eq_of_lt (by omega)
  simp only [plain, haddr, hlen, hoffs, hlen']
  refine ⟨trivial, ?_⟩
  rw [List.drop_left' (by simp), List.take_of_length_le (by rw [length_load])]

def plain_gspi : Gspi plain where
  window := Prod.fst
  ram := Prod.snd
  write_register := plain_write_register
  write_aside := plain_write_aside
  read_any _ _ _ _ _ := rfl
  write_ram offs bus_addr len data s hin _ hbus := plain_write_ram offs bus_addr len data s hin hbus
  read_ram offs len s hin := plain_read_ram offs len _ s hin

theorem nvram_len_magic_toNat {nvram_len : ℕ} (h : nvram_len < 0x40000) :
    (nvram_len_magic nvram_len).toNat = (0xFFFF - nvram_len / 4) * 0x10000 + nvram_len / 4 := by
  have hwords : (UInt32.ofNat nvram_len / 4).toNat = nvram_len / 4 := by
    rw [UInt32.toNat_div, UInt32.toNat_ofNat', Nat.mod_eq_of_lt (by omega)]
    rfl
  have hnot : (~~~ (UInt32.ofNat nvram_len / 4)).toNat = 0xFFFFFFFF - nvram_len / 4 := by
    rw [UInt32.toNat_not, hwords]
    rfl
  have hhigh : (~~~ (UInt32.ofNat nvram_len / 4) <<< 16).toNat = (0xFFFF - nvram_len / 4) * 0x10000 := by
    rw [UInt32.toNat_shiftLeft, hnot, Nat.shiftLeft_eq]
    simp only [UInt32.reduceToNat, Nat.reduceMod, Nat.reducePow]
    omega
  rw [nvram_len_magic, UInt32.toNat_or, hhigh, hwords, or_eq_add (k := 16) (by omega) (by omega)]

theorem upload_eq_bind (wifi_fw nvram : List UInt8) (S : SpiBus × σ) :
    upload spi wifi_fw nvram S
      = (SpiBus.bp_write spi atcm_ram_base_address wifi_fw S).bind fun S =>
          (SpiBus.bp_write spi (atcm_ram_base_address + chip_ram_size - 4
            - UInt32.ofNat (word_bytes nvram.length)) nvram S).bind fun S =>
              .ok (bp_write32 spi (atcm_ram_base_address + chip_ram_size - 4)
                (nvram_len_magic (word_bytes nvram.length)) S) := rfl

/-- The upload is three stores. -/
theorem upload_spec {chip : Gspi spi} {S : SpiBus × σ} (h : Consistent chip S) {wifi_fw nvram : List UInt8}
    (hsize : wifi_fw.length + word_bytes nvram.length + 4 ≤ chip_ram_size.toNat) :
    ∃ S', upload spi wifi_fw nvram S = .ok S'
      ∧ chip.ram S'.2 = store (store (store (chip.ram S.2) 0 wifi_fw)
          (chip_ram_size.toNat - 4 - word_bytes nvram.length) nvram)
          (chip_ram_size.toNat - 4) (to_le_bytes 4 (nvram_len_magic (word_bytes nvram.length)).toNat) := by
  have hsize_val : chip_ram_size.toNat = 0x80000 := by decide
  have hbase : atcm_ram_base_address.toNat = 0 := rfl
  have hnvram : nvram.length ≤ word_bytes nvram.length := by
    unfold word_bytes
    omega
  have hwords : word_bytes nvram.length % 4 = 0 := by
    unfold word_bytes
    omega
  have hnvram_addr : (atcm_ram_base_address + chip_ram_size - 4
      - UInt32.ofNat (word_bytes nvram.length)).toNat
        = chip_ram_size.toNat - 4 - word_bytes nvram.length := by
    have hend : (atcm_ram_base_address + chip_ram_size - 4).toNat = chip_ram_size.toNat - 4 := by decide
    have hlen : (UInt32.ofNat (word_bytes nvram.length)).toNat = word_bytes nvram.length := by
      rw [UInt32.toNat_ofNat', Nat.mod_eq_of_lt (by omega)]
    rw [UInt32.toNat_sub_of_le, hend, hlen]
    rw [UInt32.le_iff_toNat_le, hend, hlen]
    omega
  have hmagic_addr : (atcm_ram_base_address + chip_ram_size - 4).toNat = chip_ram_size.toNat - 4 := by
    decide
  obtain ⟨S₁, hfw, h₁, hram₁⟩ := bp_write_spec h atcm_ram_base_address wifi_fw
    (by rw [hbase]) (by rw [hbase]; omega)
  obtain ⟨S₂, hnv, h₂, hram₂⟩ := bp_write_spec h₁
    (atcm_ram_base_address + chip_ram_size - 4 - UInt32.ofNat (word_bytes nvram.length)) nvram
    (by rw [hnvram_addr]; omega) (by rw [hnvram_addr]; omega)
  obtain ⟨-, hram₃⟩ := bp_write32_spec h₂ (nvram_len_magic (word_bytes nvram.length))
    (by rw [hmagic_addr]; omega) (by rw [hmagic_addr]; omega)
  refine ⟨bp_write32 spi (atcm_ram_base_address + chip_ram_size - 4)
    (nvram_len_magic (word_bytes nvram.length)) S₂, ?_, ?_⟩
  · rw [upload_eq_bind, hfw, Except.bind, hnv, Except.bind]
  · rw [hram₃, hram₂, hram₁, hbase, hnvram_addr, hmagic_addr]

end Runs

end PicoDataLogger.Cyw43
