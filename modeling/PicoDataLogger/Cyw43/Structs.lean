/-
`structs.rs` of the radio driver: the headers of the packets on its bus.

A packet is an SDPCM header, which has the packet's length twice and the credit of
the sender, and behind it a control message (CDC), an event or a frame of data
(BDC). The driver reads a header where it lies in its buffer, so what it reads at
an odd address halts it, like any index out of range.

What is sent and what is received have the same headers: `from_bytes` reads back
what `to_bytes` writes, whatever comes behind.
-/
import PicoDataLogger.Record

set_option autoImplicit false

namespace PicoDataLogger.Cyw43

/-- Why the driver stops for good: a panic, or an access to a buffer that is gone. -/
inductive Halt : Type where
  | panic
  | dangling
deriving DecidableEq

/-! ## Fields -/

/-- The little-endian number of `len` bytes at an offset. -/
def le_at (bytes : List UInt8) (offset len : ℕ) : ℕ :=
  from_le_bytes ((bytes.drop offset).take len)

/-- The big-endian one, which is what `byteswap` leaves. -/
def be_at (bytes : List UInt8) (offset len : ℕ) : ℕ :=
  from_le_bytes ((bytes.drop offset).take len).reverse

def u8_at (bytes : List UInt8) (offset : ℕ) : UInt8 := bytes.getD offset 0

/-! ## SDPCM -/

structure SdpcmHeader where
  len : UInt16
  len_inv : UInt16
  sequence : UInt8
  channel_and_flags : UInt8
  next_length : UInt8
  header_length : UInt8
  wireless_flow_control : UInt8
  bus_data_credit : UInt8
  reserved : UInt8 × UInt8

namespace SdpcmHeader

abbrev SIZE : ℕ := 12

def to_bytes (header : SdpcmHeader) : List UInt8 :=
  to_le_bytes 2 header.len.toNat ++ to_le_bytes 2 header.len_inv.toNat
    ++ [header.sequence, header.channel_and_flags, header.next_length, header.header_length,
      header.wireless_flow_control, header.bus_data_credit, header.reserved.1, header.reserved.2]

def from_bytes (bytes : List UInt8) : SdpcmHeader where
  len := UInt16.ofNat (le_at bytes 0 2)
  len_inv := UInt16.ofNat (le_at bytes 2 2)
  sequence := u8_at bytes 4
  channel_and_flags := u8_at bytes 5
  next_length := u8_at bytes 6
  header_length := u8_at bytes 7
  wireless_flow_control := u8_at bytes 8
  bus_data_credit := u8_at bytes 9
  reserved := (u8_at bytes 10, u8_at bytes 11)

/-- The header and what it says the packet carries. -/
def parse (packet : List UInt8) : Except Halt (Option (SdpcmHeader × List UInt8)) :=
  if packet.length < SIZE then .ok none
  else
    let sdpcm_header := from_bytes packet
    let sdpcm_packet := packet.drop SIZE
    if sdpcm_header.len ≠ ~~~ sdpcm_header.len_inv then .ok none
    else if sdpcm_header.len.toNat ≠ packet.length then .ok none
    -- the header ends before itself, or behind the packet
    else if sdpcm_header.header_length.toNat < SIZE then .error .panic
    else if sdpcm_packet.length < sdpcm_header.header_length.toNat - SIZE then .error .panic
    else .ok (some (sdpcm_header, sdpcm_packet.drop (sdpcm_header.header_length.toNat - SIZE)))

end SdpcmHeader

/-! ## CDC -/

structure CdcHeader where
  cmd : UInt32
  len : UInt32
  flags : UInt16
  id : UInt16
  status : UInt32

namespace CdcHeader

abbrev SIZE : ℕ := 16

def to_bytes (header : CdcHeader) : List UInt8 :=
  to_le_bytes 4 header.cmd.toNat ++ to_le_bytes 4 header.len.toNat
    ++ to_le_bytes 2 header.flags.toNat ++ to_le_bytes 2 header.id.toNat
    ++ to_le_bytes 4 header.status.toNat

def from_bytes (bytes : List UInt8) : CdcHeader where
  cmd := UInt32.ofNat (le_at bytes 0 4)
  len := UInt32.ofNat (le_at bytes 4 4)
  flags := UInt16.ofNat (le_at bytes 8 2)
  id := UInt16.ofNat (le_at bytes 10 2)
  status := UInt32.ofNat (le_at bytes 12 4)

/-- The header of a message at address `addr`, and the message. -/
def parse (addr : ℕ) (packet : List UInt8) : Except Halt (Option (CdcHeader × List UInt8)) :=
  if packet.length < SIZE then .ok none
  else if addr % 2 ≠ 0 then .error .panic
  else
    let cdc_header := from_bytes packet
    let payload := packet.drop SIZE
    if payload.length < cdc_header.len.toNat then .error .panic
    else .ok (some (cdc_header, payload.take cdc_header.len.toNat))

end CdcHeader

/-! ## BDC -/

def BDC_VERSION : UInt8 := 2
def BDC_VERSION_SHIFT : UInt8 := 4

structure BdcHeader where
  flags : UInt8
  priority : UInt8
  flags2 : UInt8
  data_offset : UInt8

namespace BdcHeader

abbrev SIZE : ℕ := 4

def to_bytes (header : BdcHeader) : List UInt8 :=
  [header.flags, header.priority, header.flags2, header.data_offset]

def from_bytes (bytes : List UInt8) : BdcHeader where
  flags := u8_at bytes 0
  priority := u8_at bytes 1
  flags2 := u8_at bytes 2
  data_offset := u8_at bytes 3

/-- The header, and the data behind the optional headers it leaves room for. -/
def parse (packet : List UInt8) : Option (BdcHeader × List UInt8) :=
  if packet.length < SIZE then none
  else
    let bdc_header := from_bytes packet
    let bdc_packet := packet.drop SIZE
    let packet_start := 4 * bdc_header.data_offset.toNat
    if bdc_packet.length < packet_start then none
    else some (bdc_header, bdc_packet.drop packet_start)

end BdcHeader

/-! ## Events -/

/-- An event packet: the fields the driver looks at, in host order. -/
structure EventPacket where
  ether_type : UInt16
  subtype : UInt16
  oui : List UInt8
  user_subtype : UInt16
  flags : UInt16
  event_type : UInt32
  status : UInt32
  reason : UInt32
  auth_type : UInt32
  datalen : UInt32

namespace EventPacket

abbrev SIZE : ℕ := 72

/-- An Ethernet header of 14 bytes, an event header of 10, and the message. -/
def from_bytes (bytes : List UInt8) : EventPacket where
  ether_type := UInt16.ofNat (be_at bytes 12 2)
  subtype := UInt16.ofNat (be_at bytes 14 2)
  oui := (bytes.drop 19).take 3
  user_subtype := UInt16.ofNat (be_at bytes 22 2)
  flags := UInt16.ofNat (be_at bytes 26 2)
  event_type := UInt32.ofNat (be_at bytes 28 4)
  status := UInt32.ofNat (be_at bytes 32 4)
  reason := UInt32.ofNat (be_at bytes 36 4)
  auth_type := UInt32.ofNat (be_at bytes 40 4)
  datalen := UInt32.ofNat (be_at bytes 44 4)

/-- The packet at address `addr`; one that is shorter than its `datalen` says is none. -/
def parse (addr : ℕ) (packet : List UInt8) : Except Halt (Option EventPacket) :=
  if packet.length < SIZE then .ok none
  else if addr % 2 ≠ 0 then .error .panic
  else
    let event_header := from_bytes packet
    if (packet.drop SIZE).length < event_header.datalen.toNat then .ok none
    else .ok (some event_header)

end EventPacket

/-! ## What is written is read back -/

section RoundTrip

variable {rest : List UInt8}

theorem u16_from_to_le_bytes (x : UInt16) :
    UInt16.ofNat (from_le_bytes (to_le_bytes 2 x.toNat)) = x := by
  rw [from_to_le_bytes, Nat.mod_eq_of_lt (by simpa using x.toNat_lt)]
  simp

/-- The field between two parts of a packet. -/
theorem le_at_append (before field rest : List UInt8) {offset len : ℕ}
    (hoffset : before.length = offset) (hlen : field.length = len) :
    le_at (before ++ (field ++ rest)) offset len = from_le_bytes field := by
  subst hoffset hlen
  rw [le_at, List.drop_left, List.take_left]

theorem SdpcmHeader.length_to_bytes (header : SdpcmHeader) :
    header.to_bytes.length = SdpcmHeader.SIZE := by
  simp [SdpcmHeader.to_bytes]

theorem CdcHeader.length_to_bytes (header : CdcHeader) :
    header.to_bytes.length = CdcHeader.SIZE := by
  simp [CdcHeader.to_bytes]

theorem BdcHeader.length_to_bytes (header : BdcHeader) :
    header.to_bytes.length = BdcHeader.SIZE := rfl

theorem SdpcmHeader.from_to_bytes (header : SdpcmHeader) :
    SdpcmHeader.from_bytes (header.to_bytes ++ rest) = header := by
  have hlen : le_at (header.to_bytes ++ rest) 0 2 = from_le_bytes (to_le_bytes 2 header.len.toNat) := by
    simp only [SdpcmHeader.to_bytes, List.append_assoc]
    exact le_at_append [] _ _ rfl (length_to_le_bytes 2 _)
  have hinv : le_at (header.to_bytes ++ rest) 2 2
      = from_le_bytes (to_le_bytes 2 header.len_inv.toNat) := by
    simp only [SdpcmHeader.to_bytes, List.append_assoc]
    exact le_at_append _ _ _ (length_to_le_bytes 2 _) (length_to_le_bytes 2 _)
  rw [SdpcmHeader.from_bytes, hlen, hinv, u16_from_to_le_bytes, u16_from_to_le_bytes]
  rfl

theorem CdcHeader.from_to_bytes (header : CdcHeader) :
    CdcHeader.from_bytes (header.to_bytes ++ rest) = header := by
  have hcmd : le_at (header.to_bytes ++ rest) 0 4 = from_le_bytes (to_le_bytes 4 header.cmd.toNat) := by
    simp only [CdcHeader.to_bytes, List.append_assoc]
    exact le_at_append [] _ _ rfl (length_to_le_bytes 4 _)
  have hlen : le_at (header.to_bytes ++ rest) 4 4 = from_le_bytes (to_le_bytes 4 header.len.toNat) := by
    simp only [CdcHeader.to_bytes, List.append_assoc]
    exact le_at_append _ _ _ (length_to_le_bytes 4 _) (length_to_le_bytes 4 _)
  have hflags : le_at (header.to_bytes ++ rest) 8 2
      = from_le_bytes (to_le_bytes 2 header.flags.toNat) := by
    rw [CdcHeader.to_bytes, List.append_assoc, List.append_assoc, List.append_assoc]
    exact le_at_append _ _ _ (by simp) (length_to_le_bytes 2 _)
  have hid : le_at (header.to_bytes ++ rest) 10 2 = from_le_bytes (to_le_bytes 2 header.id.toNat) := by
    rw [CdcHeader.to_bytes, List.append_assoc, List.append_assoc]
    exact le_at_append _ _ _ (by simp) (length_to_le_bytes 2 _)
  have hstatus : le_at (header.to_bytes ++ rest) 12 4
      = from_le_bytes (to_le_bytes 4 header.status.toNat) := by
    rw [CdcHeader.to_bytes, List.append_assoc]
    exact le_at_append _ _ _ (by simp) (length_to_le_bytes 4 _)
  rw [CdcHeader.from_bytes, hcmd, hlen, hflags, hid, hstatus, u32_from_to_le_bytes,
    u32_from_to_le_bytes, u32_from_to_le_bytes, u16_from_to_le_bytes, u16_from_to_le_bytes]

theorem BdcHeader.from_to_bytes (header : BdcHeader) :
    BdcHeader.from_bytes (header.to_bytes ++ rest) = header := rfl

/-- A packet is accepted if it begins with its header, and the header gives its length, the
inverse of it, and an end of itself inside the packet. -/
theorem SdpcmHeader.parse_to_bytes {header : SdpcmHeader} {padding payload : List UInt8}
    (hinv : header.len_inv = ~~~ header.len)
    (hlen : header.len.toNat = SdpcmHeader.SIZE + padding.length + payload.length)
    (hheader : header.header_length.toNat = SdpcmHeader.SIZE + padding.length) :
    SdpcmHeader.parse (header.to_bytes ++ (padding ++ payload)) = .ok (some (header, payload)) := by
  have hsize := header.length_to_bytes
  have hdrop : (header.to_bytes ++ (padding ++ payload)).drop SdpcmHeader.SIZE = padding ++ payload := by
    rw [← hsize, List.drop_left]
  unfold SdpcmHeader.parse
  rw [if_neg (by rw [List.length_append, hsize]; omega)]
  simp only [from_to_bytes, hdrop]
  rw [if_neg (by rw [hinv]; simp), if_neg (by simp only [List.length_append, hsize, hlen]; omega),
    if_neg (by omega), if_neg (by rw [List.length_append]; omega), hheader, Nat.add_sub_cancel_left,
    List.drop_left]

theorem CdcHeader.parse_to_bytes {header : CdcHeader} {addr : ℕ} {payload : List UInt8}
    (haddr : addr % 2 = 0) (hlen : header.len.toNat = payload.length) :
    CdcHeader.parse addr (header.to_bytes ++ payload) = .ok (some (header, payload)) := by
  have hsize := header.length_to_bytes
  have hdrop : (header.to_bytes ++ payload).drop CdcHeader.SIZE = payload := by
    rw [← hsize, List.drop_left]
  unfold CdcHeader.parse
  rw [if_neg (by rw [List.length_append, hsize]; omega), if_neg (by omega)]
  simp only [from_to_bytes, hdrop]
  rw [if_neg (by omega), hlen, List.take_length]

theorem BdcHeader.parse_to_bytes {header : BdcHeader} {options payload : List UInt8}
    (hoffset : 4 * header.data_offset.toNat = options.length) :
    BdcHeader.parse (header.to_bytes ++ (options ++ payload)) = some (header, payload) := by
  have hsize : BdcHeader.SIZE = 4 := rfl
  have hdrop : (header.to_bytes ++ (options ++ payload)).drop BdcHeader.SIZE = options ++ payload := rfl
  unfold BdcHeader.parse
  rw [if_neg (by
    simp only [BdcHeader.to_bytes, List.length_append, List.length_cons, List.length_nil]
    omega)]
  simp only [from_to_bytes, hdrop]
  rw [if_neg (by rw [List.length_append]; omega), hoffset, List.drop_left]

end RoundTrip

end PicoDataLogger.Cyw43
