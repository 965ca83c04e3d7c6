/-
`spi.rs`: the chip's memory through a window.

The chip's address space of 32 bits is reached 32 KiB at a time: three registers have
the upper bytes of the address, and a transfer gives the offset, which is 64 bytes long
at most and does not leave the window. The driver remembers the registers and
writes the ones that change. It does not know them at first: what it remembers
then is `0xAA` in every byte, and a byte of an address that is `0xAA` is never
written while this stands. No address in the chip's RAM has one.

What the chip does with a command is not in this repository: it is a parameter.
-/
import PicoDataLogger.FlatMemory
import PicoDataLogger.Cyw43.Runner

set_option autoImplicit false

namespace PicoDataLogger.Cyw43

open FlatMemory

/-! ## Commands -/

def FUNC_BUS : UInt32 := 0
def FUNC_BACKPLANE : UInt32 := 1
def FUNC_WLAN : UInt32 := 2
def REG_BACKPLANE_BACKPLANE_ADDRESS_LOW : UInt32 := 0x1000A
def REG_BACKPLANE_BACKPLANE_ADDRESS_MID : UInt32 := 0x1000B
def REG_BACKPLANE_BACKPLANE_ADDRESS_HIGH : UInt32 := 0x1000C
def BACKPLANE_WINDOW_SIZE : ℕ := 0x8000
def BACKPLANE_ADDRESS_MASK : UInt32 := 0x7FFF
def BACKPLANE_ADDRESS_32BIT_FLAG : UInt32 := 0x08000
def BACKPLANE_MAX_TRANSFER_SIZE : ℕ := 64

def WRITE : Bool := true
def READ : Bool := false
def INC_ADDR : Bool := true

def cmd_word (write incr : Bool) (func addr len : UInt32) : UInt32 :=
  write.toUInt32 <<< 31 ||| incr.toUInt32 <<< 30 ||| (func &&& 0b11) <<< 28 ||| (addr &&& 0x1FFFF) <<< 11
    ||| (len &&& 0x7FF)

/-- `SpiBusCyw43`: words as bytes, in the order of memory. A read of the backplane has an extra word
at the beginning. -/
structure SpiBusCyw43 (σ : Type) where
  cmd_write : (write : UInt32) → (data : List UInt8) → σ → UInt32 × σ
  cmd_read : (write : UInt32) → (words : ℕ) → σ → UInt32 × List UInt8 × σ

/-- `SpiBus`, without the pin that has the chip's power. -/
structure SpiBus where
  backplane_window : UInt32
  status : UInt32

def SpiBus.new : SpiBus where
  backplane_window := 0xAAAAAAAA
  status := 0

/-- A function of the driver that talks to the chip. -/
abbrev SpiM (σ α : Type) : Type := SpiBus × σ → α × (SpiBus × σ)

namespace SpiBus

variable {σ : Type} (spi : SpiBusCyw43 σ)

/-- A command is sent with data; the status is kept. -/
def cmd_write (cmd : UInt32) (data : List UInt8) (S : SpiBus × σ) : SpiBus × σ :=
  let (status, s) := spi.cmd_write cmd data S.2
  ({ S.1 with status }, s)

def cmd_read (cmd : UInt32) (words : ℕ) : SpiM σ (List UInt8) := fun S =>
  let (status, data, s) := spi.cmd_read cmd words S.2
  (data, ({ S.1 with status }, s))

def writen (func addr val len : UInt32) (S : SpiBus × σ) : SpiBus × σ :=
  cmd_write spi (cmd_word WRITE INC_ADDR func addr len) (to_le_bytes 4 val.toNat) S

/-- The result is behind the response delay. -/
def readn (func addr len : UInt32) : SpiM σ UInt32 := fun S =>
  let words := if func = FUNC_BACKPLANE then 2 else 1
  let (data, S) := cmd_read spi (cmd_word READ INC_ADDR func addr len) words S
  (UInt32.ofNat (if func = FUNC_BACKPLANE then le_at data 4 4 else le_at data 0 4), S)

def write8 (func addr : UInt32) (val : UInt8) (S : SpiBus × σ) : SpiBus × σ :=
  writen spi func addr val.toUInt32 1 S

/-- The registers of the window that change are written. -/
def backplane_set_window (addr : UInt32) (S : SpiBus × σ) : SpiBus × σ :=
  let new_window := addr &&& ~~~ BACKPLANE_ADDRESS_MASK
  let old := S.1.backplane_window
  let S := if (new_window >>> 24).toUInt8 ≠ (old >>> 24).toUInt8 then
      write8 spi FUNC_BACKPLANE REG_BACKPLANE_BACKPLANE_ADDRESS_HIGH (new_window >>> 24).toUInt8 S else S
  let S := if (new_window >>> 16).toUInt8 ≠ (old >>> 16).toUInt8 then
      write8 spi FUNC_BACKPLANE REG_BACKPLANE_BACKPLANE_ADDRESS_MID (new_window >>> 16).toUInt8 S else S
  let S := if (new_window >>> 8).toUInt8 ≠ (old >>> 8).toUInt8 then
      write8 spi FUNC_BACKPLANE REG_BACKPLANE_BACKPLANE_ADDRESS_LOW (new_window >>> 8).toUInt8 S else S
  ({ S.1 with backplane_window := new_window }, S.2)

def bus_addr (addr len : UInt32) : UInt32 :=
  let bus_addr := addr &&& BACKPLANE_ADDRESS_MASK
  if len = 4 then bus_addr ||| BACKPLANE_ADDRESS_32BIT_FLAG else bus_addr

def backplane_readn (addr len : UInt32) : SpiM σ UInt32 := fun S =>
  readn spi FUNC_BACKPLANE (bus_addr addr len) len (backplane_set_window spi addr S)

def backplane_writen (addr val len : UInt32) (S : SpiBus × σ) : SpiBus × σ :=
  writen spi FUNC_BACKPLANE (bus_addr addr len) val len (backplane_set_window spi addr S)

def bp_read8 (addr : UInt32) : SpiM σ UInt8 := fun S =>
  let (val, S) := backplane_readn spi addr 1 S
  (val.toUInt8, S)

def bp_write8 (addr : UInt32) (val : UInt8) (S : SpiBus × σ) : SpiBus × σ :=
  backplane_writen spi addr val.toUInt32 1 S

def bp_read16 (addr : UInt32) : SpiM σ UInt16 := fun S =>
  let (val, S) := backplane_readn spi addr 2 S
  (val.toUInt16, S)

def bp_write32 (addr val : UInt32) (S : SpiBus × σ) : SpiBus × σ := backplane_writen spi addr val 4 S

/-- The bytes of one transfer: no more than a transfer takes, and none behind the window. -/
def chunk_len (addr : UInt32) (remaining : ℕ) : ℕ :=
  min (min remaining BACKPLANE_MAX_TRANSFER_SIZE)
    (BACKPLANE_WINDOW_SIZE - (addr &&& BACKPLANE_ADDRESS_MASK).toNat)

theorem chunk_len_pos (addr : UInt32) {remaining : ℕ} (h : 0 < remaining) : 0 < chunk_len addr remaining := by
  have hmask : (addr &&& BACKPLANE_ADDRESS_MASK).toNat ≤ 0x7FFF := by
    rw [UInt32.toNat_and]
    exact Nat.and_le_right
  have hsize : BACKPLANE_WINDOW_SIZE = 0x8000 := rfl
  have hmax : BACKPLANE_MAX_TRANSFER_SIZE = 64 := rfl
  unfold chunk_len
  omega

/-- The bytes in whole words. -/
def word_bytes (len : ℕ) : ℕ := (len + 3) / 4 * 4

/-- The loop of `bp_write`; `buf` is the buffer of a transfer, without its command. -/
def bp_write_loop (addr : UInt32) (data : List UInt8) (buf : Vector UInt8 BACKPLANE_MAX_TRANSFER_SIZE)
    (S : SpiBus × σ) : SpiBus × σ :=
  if _hdata : data = [] then S
  else
    let len := chunk_len addr data.length
    let buf := copy_from_slice buf 0 (data.take len)
    let S := backplane_set_window spi addr S
    let cmd := cmd_word WRITE INC_ADDR FUNC_BACKPLANE (addr &&& BACKPLANE_ADDRESS_MASK) (UInt32.ofNat len)
    let S := cmd_write spi cmd (slice buf 0 (word_bytes len)) S
    bp_write_loop (addr + UInt32.ofNat len) (data.drop len) buf S
termination_by data.length
decreasing_by
  have hpos := chunk_len_pos addr (List.length_pos_iff.mpr _hdata)
  rw [List.length_drop]
  have := List.length_pos_iff.mpr _hdata
  omega

def bp_write (addr : UInt32) (data : List UInt8) (S : SpiBus × σ) : Except Halt (SpiBus × σ) :=
  if addr % 4 ≠ 0 then .error .panic
  else .ok (bp_write_loop spi addr data (Vector.replicate BACKPLANE_MAX_TRANSFER_SIZE 0) S)

/-- The loop of `bp_read`, which fills `remaining` bytes. -/
def bp_read_loop (addr : UInt32) (remaining : ℕ) : SpiM σ (List UInt8) := fun S =>
  if _hremaining : remaining = 0 then ([], S)
  else
    let len := chunk_len addr remaining
    let S := backplane_set_window spi addr S
    let cmd := cmd_word READ INC_ADDR FUNC_BACKPLANE (addr &&& BACKPLANE_ADDRESS_MASK) (UInt32.ofNat len)
    let (buf, S) := cmd_read spi cmd ((len + 3) / 4 + 1) S
    let (rest, S) := bp_read_loop (addr + UInt32.ofNat len) (remaining - len) S
    ((buf.drop 4).take len ++ rest, S)
termination_by remaining
decreasing_by
  have hpos := chunk_len_pos addr (Nat.pos_of_ne_zero _hremaining)
  omega

/-- What a chunk adds to what is read after it. -/
theorem bp_read_loop_of_ne {addr : UInt32} {remaining : ℕ} {S S' : SpiBus × σ} {buf : List UInt8}
    (hne : remaining ≠ 0)
    (hread : cmd_read spi (cmd_word READ INC_ADDR FUNC_BACKPLANE (addr &&& BACKPLANE_ADDRESS_MASK)
      (UInt32.ofNat (chunk_len addr remaining))) ((chunk_len addr remaining + 3) / 4 + 1)
      (backplane_set_window spi addr S) = (buf, S')) :
    bp_read_loop spi addr remaining S
      = ((buf.drop 4).take (chunk_len addr remaining) ++ (bp_read_loop spi
          (addr + UInt32.ofNat (chunk_len addr remaining)) (remaining - chunk_len addr remaining) S').1,
        (bp_read_loop spi
          (addr + UInt32.ofNat (chunk_len addr remaining)) (remaining - chunk_len addr remaining) S').2) := by
  rw [bp_read_loop, dif_neg hne]
  simp only [hread]

def bp_read (addr : UInt32) (len : ℕ) (S : SpiBus × σ) : Except Halt (List UInt8 × (SpiBus × σ)) :=
  if addr % 4 ≠ 0 then .error .panic else .ok (bp_read_loop spi addr len S)

/-! ## The upload -/

def atcm_ram_base_address : UInt32 := 0
def chip_ram_size : UInt32 := 512 * 1024

/-- How many words the NVRAM has, and the complement of that. -/
def nvram_len_magic (nvram_len : ℕ) : UInt32 :=
  let nvram_len_words := UInt32.ofNat nvram_len / 4
  (~~~ nvram_len_words) <<< 16 ||| nvram_len_words

/-- `Runner::init` between the resets of the RAM and of the core: the firmware at the start of the
RAM, the NVRAM at its end, and the length of the NVRAM in the last word. -/
def upload (wifi_fw nvram : List UInt8) (S : SpiBus × σ) : Except Halt (SpiBus × σ) := do
  let ram_addr := atcm_ram_base_address
  let S ← bp_write spi ram_addr wifi_fw S
  let nvram_len := word_bytes nvram.length
  let S ← bp_write spi (ram_addr + chip_ram_size - 4 - UInt32.ofNat nvram_len) nvram S
  return bp_write32 spi (ram_addr + chip_ram_size - 4) (nvram_len_magic nvram_len) S

end SpiBus

end PicoDataLogger.Cyw43
