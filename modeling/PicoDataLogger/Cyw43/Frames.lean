/-
What the radio driver writes to its bus can be read back.

A packet is put together in one buffer, over whatever an earlier one left there, and
written in whole words. Its header gives the length the words are to be cut at;
what is read there is the header, the command or the frame, and nothing of the
earlier packet.
-/
import PicoDataLogger.Cyw43.Runner
import PicoDataLogger.Identity

set_option autoImplicit false

namespace PicoDataLogger.Cyw43

/-! ## Packets -/

/-- The bytes `frame`, cut at the length in their header, are that header and a payload. -/
structure Packet (frame : List UInt8) (sdpcm_header : SdpcmHeader) (payload : List UInt8) : Prop where
  length : frame.length = round_up_to_word sdpcm_header.len.toNat
  parse : SdpcmHeader.parse (frame.take sdpcm_header.len.toNat) = .ok (some (sdpcm_header, payload))

/-- The packet of an ioctl. -/
def ControlFrame (frame : List UInt8) (sequence : UInt8) (id : UInt16) (kind : IoctlType)
    (cmd : Ioctl) (iface : UInt32) (data : List UInt8) : Prop :=
  ∃ sdpcm_header payload cdc_header, Packet frame sdpcm_header payload
    ∧ sdpcm_header.sequence = sequence ∧ sdpcm_header.channel_and_flags = CHANNEL_TYPE_CONTROL
    ∧ CdcHeader.parse sdpcm_header.header_length.toNat payload = .ok (some (cdc_header, data))
    ∧ cdc_header.cmd = cmd.code ∧ cdc_header.flags = kind.code ||| iface.toUInt16 <<< 12
    ∧ cdc_header.id = id

/-- The packet of a frame of the network stack. -/
def DataFrame (frame : List UInt8) (sequence : UInt8) (packet : List UInt8) : Prop :=
  ∃ sdpcm_header payload bdc_header, Packet frame sdpcm_header payload
    ∧ sdpcm_header.sequence = sequence ∧ sdpcm_header.channel_and_flags = CHANNEL_TYPE_DATA
    ∧ BdcHeader.parse payload = some (bdc_header, packet) ∧ bdc_header.flags = 0x20

/-! ## The buffer -/

section Buffer

variable {n : ℕ}

/-- What is copied behind the part that is there makes the part longer. -/
theorem slice_copy_behind (bytes : Vector UInt8 n) (source : List UInt8) {offset hi : ℕ}
    (hhi : hi = offset + source.length) (hn : hi ≤ n) :
    slice (copy_from_slice bytes offset source) 0 hi = slice bytes 0 offset ++ source := by
  rw [slice_append _ (Nat.zero_le offset) (by omega), slice_copy_same _ _ _ _ hhi hn,
    slice_copy_disjoint _ _ _ _ _ (.inl le_rfl)]

theorem length_slice (bytes : Vector UInt8 n) {lo hi : ℕ} (hn : hi ≤ n) :
    (slice bytes lo hi).length = hi - lo := by
  simp only [slice, List.length_drop, List.length_take, Vector.length_toList]
  omega

/-- Rounding up to words stays in the buffer, which is whole words. -/
theorem round_up_le {total_len : ℕ} (h : total_len ≤ BUF_SIZE) :
    total_len ≤ round_up_to_word total_len ∧ round_up_to_word total_len ≤ BUF_SIZE := by
  unfold round_up_to_word
  have hsize : BUF_SIZE = 2048 := rfl
  omega

/-- What is written to the bus is a packet, if the buffer begins with its header. -/
theorem packet_of_slice {bytes : Vector UInt8 BUF_SIZE} {sdpcm_header : SdpcmHeader} {total_len : ℕ}
    {padding payload : List UInt8} (hbuf : total_len ≤ BUF_SIZE)
    (hslice : slice bytes 0 total_len = sdpcm_header.to_bytes ++ (padding ++ payload))
    (hlen : sdpcm_header.len.toNat = total_len) (hinv : sdpcm_header.len_inv = ~~~ sdpcm_header.len)
    (hheader : sdpcm_header.header_length.toNat = SdpcmHeader.SIZE + padding.length) :
    Packet (slice bytes 0 (round_up_to_word total_len)) sdpcm_header payload := by
  obtain ⟨hle, hround⟩ := round_up_le hbuf
  have htotal : total_len = SdpcmHeader.SIZE + padding.length + payload.length := by
    have := congrArg List.length hslice
    rw [length_slice _ hbuf, Nat.sub_zero, List.length_append, List.length_append,
      sdpcm_header.length_to_bytes] at this
    omega
  constructor
  · rw [length_slice _ hround, hlen, Nat.sub_zero]
  · -- the rounding is cut off again
    have hcut : (slice bytes 0 (round_up_to_word total_len)).take total_len
        = slice bytes 0 total_len := by
      rw [slice_append bytes (Nat.zero_le total_len) hle]
      exact List.take_left' (length_slice _ hbuf)
    rw [hlen, hcut, hslice]
    exact SdpcmHeader.parse_to_bytes hinv (by omega) hheader

end Buffer

/-! ## What is sent -/

theorem tx_header_len {total_len : ℕ} (h : total_len ≤ BUF_SIZE) (sequence channel : UInt8)
    (header_length : ℕ) : (tx_header total_len sequence channel header_length).len.toNat = total_len := by
  refine UInt16.toNat_ofNat_of_lt' ?_
  have hbuf : BUF_SIZE = 2048 := rfl
  have hsize : UInt16.size = 65536 := rfl
  omega

variable {runner runner' : Runner} {kind : IoctlType} {cmd : Ioctl} {iface : UInt32}
  {data packet frame : List UInt8} {buf8 buf8' : Vector UInt8 BUF_SIZE}

/-- What `send_ioctl` does. -/
theorem send_ioctl_ok (h : runner.send_ioctl kind cmd iface data buf8 = .ok (runner', buf8', frame)) :
    runner' = { runner with sdpcm_seq := runner.sdpcm_seq + 1, ioctl_id := runner.ioctl_id + 1 }
      ∧ ControlFrame frame runner.sdpcm_seq runner'.ioctl_id kind cmd iface data := by
  unfold Runner.send_ioctl at h
  simp only at h
  by_cases hlong : BUF_SIZE < SdpcmHeader.SIZE + CdcHeader.SIZE + data.length
  · rw [if_pos hlong] at h
    cases h
  · rw [if_neg hlong, Except.ok.injEq, Prod.mk.injEq, Prod.mk.injEq] at h
    obtain ⟨rfl, -, rfl⟩ := h
    have hbuf : SdpcmHeader.SIZE + CdcHeader.SIZE + data.length ≤ BUF_SIZE := Nat.not_lt.mp hlong
    let sdpcm_header := tx_header (SdpcmHeader.SIZE + CdcHeader.SIZE + data.length) runner.sdpcm_seq
      CHANNEL_TYPE_CONTROL SdpcmHeader.SIZE
    let cdc_header : CdcHeader :=
      { cmd := cmd.code
        len := UInt32.ofNat data.length
        flags := kind.code ||| iface.toUInt16 <<< 12
        id := runner.ioctl_id + 1
        status := 0 }
    have hdata : cdc_header.len.toNat = data.length := by
      refine UInt32.toNat_ofNat_of_lt' ?_
      have hsize : UInt32.size = 4294967296 := rfl
      have : BUF_SIZE = 2048 := rfl
      omega
    -- the three copies lie one behind the other
    have hslice : slice (copy_from_slice (copy_from_slice (copy_from_slice buf8 0 sdpcm_header.to_bytes)
          SdpcmHeader.SIZE cdc_header.to_bytes) (SdpcmHeader.SIZE + CdcHeader.SIZE) data)
        0 (SdpcmHeader.SIZE + CdcHeader.SIZE + data.length)
        = sdpcm_header.to_bytes ++ ([] ++ (cdc_header.to_bytes ++ data)) := by
      rw [slice_copy_behind _ _ rfl hbuf,
        slice_copy_behind _ _ (by rw [CdcHeader.length_to_bytes]) (by omega),
        slice_copy_behind _ _ (by rw [SdpcmHeader.length_to_bytes, Nat.zero_add]) (by omega)]
      simp [slice]
    have hheader : sdpcm_header.header_length = 12 := rfl
    have hpacket := packet_of_slice hbuf hslice (tx_header_len hbuf _ _ _) rfl (by
      rw [hheader]
      rfl)
    have heven : sdpcm_header.header_length.toNat % 2 = 0 := by
      rw [hheader]
      rfl
    exact ⟨rfl, sdpcm_header, cdc_header.to_bytes ++ data, cdc_header, hpacket, rfl, rfl,
      CdcHeader.parse_to_bytes heven hdata, rfl, rfl, rfl⟩

/-- What the branch of `run` for a frame of the network stack does. -/
theorem send_packet_ok (h : runner.send_packet packet buf8 = .ok (runner', buf8', frame)) :
    runner' = { runner with sdpcm_seq := runner.sdpcm_seq + 1 }
      ∧ DataFrame frame runner.sdpcm_seq packet := by
  unfold Runner.send_packet at h
  simp only at h
  by_cases hlong : BUF_SIZE < SdpcmHeader.SIZE + PADDING_SIZE + BdcHeader.SIZE + packet.length
  · rw [if_pos hlong] at h
    cases h
  · rw [if_neg hlong, Except.ok.injEq, Prod.mk.injEq, Prod.mk.injEq] at h
    obtain ⟨rfl, -, rfl⟩ := h
    have hbuf := Nat.not_lt.mp hlong
    let sdpcm_header := tx_header (SdpcmHeader.SIZE + PADDING_SIZE + BdcHeader.SIZE + packet.length)
      runner.sdpcm_seq CHANNEL_TYPE_DATA (SdpcmHeader.SIZE + PADDING_SIZE)
    let bdc_header : BdcHeader :=
      { flags := BDC_VERSION <<< BDC_VERSION_SHIFT, priority := 0, flags2 := 0, data_offset := 0 }
    -- the two bytes between the headers are what the buffer had there
    have hslice : slice (copy_from_slice (copy_from_slice (copy_from_slice buf8 0 sdpcm_header.to_bytes)
          (SdpcmHeader.SIZE + PADDING_SIZE) bdc_header.to_bytes)
          (SdpcmHeader.SIZE + PADDING_SIZE + BdcHeader.SIZE) packet)
        0 (SdpcmHeader.SIZE + PADDING_SIZE + BdcHeader.SIZE + packet.length)
        = sdpcm_header.to_bytes ++ (slice buf8 SdpcmHeader.SIZE (SdpcmHeader.SIZE + PADDING_SIZE)
          ++ (bdc_header.to_bytes ++ packet)) := by
      have hpadding : PADDING_SIZE = 2 := rfl
      have hsdpcm := sdpcm_header.length_to_bytes
      rw [slice_copy_behind _ _ rfl hbuf,
        slice_append _ (Nat.zero_le (SdpcmHeader.SIZE + PADDING_SIZE)) (by omega),
        slice_copy_same _ _ _ _ (by rw [BdcHeader.length_to_bytes]) (by omega),
        slice_copy_disjoint _ _ _ _ _ (.inl le_rfl),
        slice_append _ (Nat.zero_le SdpcmHeader.SIZE) (by omega),
        slice_copy_same _ _ _ _ (by omega) (by omega),
        slice_copy_disjoint _ _ _ _ _ (.inr (by omega))]
      simp only [List.append_assoc]
    have hheader : sdpcm_header.header_length = 14 := rfl
    have hpacket := packet_of_slice hbuf hslice (tx_header_len hbuf _ _ _) rfl (by
      rw [hheader, length_slice _ (by decide)]
      rfl)
    have hparse : BdcHeader.parse (bdc_header.to_bytes ++ ([] ++ packet)) = some (bdc_header, packet) :=
      BdcHeader.parse_to_bytes rfl
    exact ⟨rfl, sdpcm_header, bdc_header.to_bytes ++ packet, bdc_header, hpacket, rfl, rfl,
      hparse, rfl⟩

/-- A packet is sent if and only if it fits in the buffer; what is too long is a panic. -/
theorem send_ioctl_short (runner : Runner) (kind : IoctlType) (cmd : Ioctl) (iface : UInt32)
    (buf8 : Vector UInt8 BUF_SIZE) (h : SdpcmHeader.SIZE + CdcHeader.SIZE + data.length ≤ BUF_SIZE) :
    ∃ runner' buf8' frame, runner.send_ioctl kind cmd iface data buf8 = .ok (runner', buf8', frame) := by
  unfold Runner.send_ioctl
  simp only
  rw [if_neg (Nat.not_lt.mpr h)]
  exact ⟨_, _, _, rfl⟩

theorem send_packet_short (runner : Runner) (buf8 : Vector UInt8 BUF_SIZE)
    (h : SdpcmHeader.SIZE + PADDING_SIZE + BdcHeader.SIZE + packet.length ≤ BUF_SIZE) :
    ∃ runner' buf8' frame, runner.send_packet packet buf8 = .ok (runner', buf8', frame) := by
  unfold Runner.send_packet
  simp only
  rw [if_neg (Nat.not_lt.mpr h)]
  exact ⟨_, _, _, rfl⟩

theorem send_ioctl_error {halt : Halt} (h : runner.send_ioctl kind cmd iface data buf8 = .error halt) :
    halt = .panic ∧ BUF_SIZE < SdpcmHeader.SIZE + CdcHeader.SIZE + data.length := by
  by_cases hlong : BUF_SIZE < SdpcmHeader.SIZE + CdcHeader.SIZE + data.length
  · unfold Runner.send_ioctl at h
    simp only at h
    rw [if_pos hlong] at h
    cases h
    exact ⟨rfl, hlong⟩
  · obtain ⟨runner', buf8', frame, hok⟩ := send_ioctl_short runner kind cmd iface buf8
      (Nat.not_lt.mp hlong)
    rw [hok] at h
    cases h

/-- **The packets of the driver.** Over any earlier packet in the buffer, an ioctl of up to
2020 bytes and a frame of up to 2030 are written as a packet of whole words; cut where its
header says, and read with the functions that read what comes in, it gives back the
sequence number, the channel, the command, its ID and its data, or the frame. -/
theorem sent_packets_read_back (runner : Runner) (buf8 : Vector UInt8 BUF_SIZE) :
    (∀ kind cmd iface data, data.length ≤ 2020 →
      ∃ buf8' frame,
        runner.send_ioctl kind cmd iface data buf8
          = .ok ({ runner with sdpcm_seq := runner.sdpcm_seq + 1, ioctl_id := runner.ioctl_id + 1 },
            buf8', frame)
          ∧ ControlFrame frame runner.sdpcm_seq (runner.ioctl_id + 1) kind cmd iface data)
      ∧ ∀ packet, packet.length ≤ 2030 →
        ∃ buf8' frame,
          runner.send_packet packet buf8
            = .ok ({ runner with sdpcm_seq := runner.sdpcm_seq + 1 }, buf8', frame)
            ∧ DataFrame frame runner.sdpcm_seq packet := by
  have hbuf : BUF_SIZE = 2048 := rfl
  constructor
  · intro kind cmd iface data hdata
    have hsizes : SdpcmHeader.SIZE + CdcHeader.SIZE = 28 := rfl
    obtain ⟨runner', buf8', frame, hok⟩ :=
      send_ioctl_short runner kind cmd iface buf8
        (show SdpcmHeader.SIZE + CdcHeader.SIZE + data.length ≤ BUF_SIZE by omega)
    obtain ⟨rfl, hframe⟩ := send_ioctl_ok hok
    exact ⟨buf8', frame, hok, hframe⟩
  · intro packet hpacket
    have hsizes : SdpcmHeader.SIZE + PADDING_SIZE + BdcHeader.SIZE = 18 := rfl
    obtain ⟨runner', buf8', frame, hok⟩ :=
      send_packet_short runner buf8
        (show SdpcmHeader.SIZE + PADDING_SIZE + BdcHeader.SIZE + packet.length ≤ BUF_SIZE by omega)
    obtain ⟨rfl, hframe⟩ := send_packet_ok hok
    exact ⟨buf8', frame, hok, hframe⟩

theorem sent_packets_read_back_first :
    (∃ buf8' frame,
      Runner.new.send_ioctl .Set .SetSsid 0 [1, 2, 3] (Vector.replicate BUF_SIZE 0)
        = .ok ({ Runner.new with sdpcm_seq := 1, ioctl_id := 1 }, buf8', frame)
        ∧ ControlFrame frame 0 1 .Set .SetSsid 0 [1, 2, 3])
      ∧ ∃ buf8' frame,
        Runner.new.send_packet [0xaa, 0xbb, 0xcc] (Vector.replicate BUF_SIZE 0)
          = .ok ({ Runner.new with sdpcm_seq := 1 }, buf8', frame)
          ∧ DataFrame frame 0 [0xaa, 0xbb, 0xcc] := by
  obtain ⟨hioctl, hpacket⟩ := sent_packets_read_back .new (Vector.replicate BUF_SIZE 0)
  exact ⟨hioctl .Set .SetSsid 0 [1, 2, 3] (by decide), hpacket [0xaa, 0xbb, 0xcc] (by decide)⟩

end PicoDataLogger.Cyw43
