/-
The radio driver: `ioctl.rs`, `events.rs`, and the turns of `Runner` in `runner.rs`.

`Control` hands the runner one ioctl at a time through `IoctlState`, with a pointer
to a buffer of its own that the response is copied to. The runner sends it under the
next ID, and looks at every packet that comes in: a response to the last ID goes
to the buffer, an event to the flags of the link and to the queue, a frame to the
network stack; and every packet renews the credit.

What a function of the source does between two of its awaits is one function
here. Buffers have names, and the heap has the ones that are still there: a write to
another is `Halt.dangling`. Left out are the wakers, the scan results (nothing ever
enables their event) and bluetooth (a feature that is off).
-/
import PicoDataLogger.Cyw43.Structs

set_option autoImplicit false

namespace PicoDataLogger.Cyw43

/-! ## Ioctls -/

inductive IoctlType : Type where
  | Get
  | Set
deriving DecidableEq

def IoctlType.code : IoctlType → UInt16
  | .Get => 0
  | .Set => 2

/-- The commands this firmware sends. -/
inductive Ioctl : Type where
  | Up
  | SetInfra
  | SetAuth
  | SetSsid
  | Disassoc
  | SetAntdiv
  | SetPm
  | SetGmode
  | SetWsec
  | SetBand
  | SetWpaAuth
  | GetVar
  | SetVar
  | SetWsecPmk
deriving DecidableEq

def Ioctl.code : Ioctl → UInt32
  | .Up => 2
  | .SetInfra => 20
  | .SetAuth => 22
  | .SetSsid => 26
  | .Disassoc => 52
  | .SetAntdiv => 64
  | .SetPm => 86
  | .SetGmode => 110
  | .SetWsec => 134
  | .SetBand => 142
  | .SetWpaAuth => 165
  | .GetVar => 262
  | .SetVar => 263
  | .SetWsecPmk => 268

/-- A buffer of a caller, by its name. -/
abbrev Buf : Type := ℕ

/-- The buffers that are there, with their contents. -/
abbrev Heap : Type := Buf → Option (List UInt8)

structure PendingIoctl where
  buf : Buf
  kind : IoctlType
  cmd : Ioctl
  iface : UInt32

inductive IoctlState : Type where
  | pending (ioctl : PendingIoctl)
  | sent (buf : Buf)
  | done (resp_len : ℕ)

namespace IoctlState

def new : IoctlState := .done 0

/-- A poll of `wait_complete`. -/
def wait_complete : IoctlState → Option ℕ
  | .done resp_len => some resp_len
  | _ => none

/-- A poll of `wait_pending`. -/
def wait_pending : IoctlState → Option (PendingIoctl × IoctlState)
  | .pending ioctl => some (ioctl, .sent ioctl.buf)
  | _ => none

def cancel_ioctl : IoctlState := .done 0

/-- `do_ioctl`, up to its first await. -/
def do_ioctl (kind : IoctlType) (cmd : Ioctl) (iface : UInt32) (buf : Buf) : IoctlState :=
  .pending { buf, kind, cmd, iface }

/-- A response is copied over the start of the buffer; one that nobody waits for is dropped. -/
def ioctl_done (state : IoctlState) (heap : Heap) (response : List UInt8) :
    Except Halt (IoctlState × Heap) :=
  match state with
  | .sent buf =>
    match heap buf with
    | none => .error .dangling
    | some data =>
      if data.length < response.length then .error .panic
      else .ok (.done response.length,
        Function.update heap buf (some (response ++ data.drop response.length)))
  | _ => .ok (state, heap)

end IoctlState

/-! ## Events -/

/-- The events that are told apart; `other` is any other that has a name. -/
inductive Event : Type where
  | Unknown
  | SET_SSID
  | JOIN
  | AUTH
  | DEAUTH
  | LINK
  | PSK_SUP
  | other (code : UInt8)
deriving DecidableEq

/-- The codes below `LAST = 190` that have no name, and all the ones above. -/
def Event.unassigned (code : UInt8) : Bool :=
  code == 92 || code == 110 || code == 129 || (142 ≤ code && code ≤ 145)
    || (147 ≤ code && code ≤ 150) || (152 ≤ code && code ≤ 186) || 190 < code

def Event.from (value : UInt8) : Event :=
  if value = 0 then .SET_SSID
  else if value = 1 then .JOIN
  else if value = 3 then .AUTH
  else if value = 5 then .DEAUTH
  else if value = 16 then .LINK
  else if value = 46 then .PSK_SUP
  else if Event.unassigned value then .Unknown
  else .other value

/-- `event as u32` -/
def Event.code : Event → ℕ
  | .Unknown => 255
  | .SET_SSID => 0
  | .JOIN => 1
  | .AUTH => 3
  | .DEAUTH => 5
  | .LINK => 16
  | .PSK_SUP => 46
  | .other code => code.toNat

inductive EStatus : Type where
  | Unknown
  | SUCCESS
  | FAIL
  | TIMEOUT
  | NO_NETWORKS
  | ABORT
  | NO_ACK
  | UNSOLICITED
  | ATTEMPT
  | PARTIAL
  | NEWSCAN
  | NEWASSOC
  | QUIET_11H
  | SUPPRESS
  | NOCHANS
  | CCXFASTRM
  | CS_ABORT
deriving DecidableEq

/-- The statuses by their codes. -/
def EStatus.all : List EStatus :=
  [.SUCCESS, .FAIL, .TIMEOUT, .NO_NETWORKS, .ABORT, .NO_ACK, .UNSOLICITED, .ATTEMPT, .PARTIAL,
    .NEWSCAN, .NEWASSOC, .QUIET_11H, .SUPPRESS, .NOCHANS, .CCXFASTRM, .CS_ABORT]

def EStatus.from (value : UInt8) : EStatus := EStatus.all.getD value.toNat .Unknown

/-- The mask of the events that are queued: a bit for each code up to `LAST`. -/
abbrev EventMask : Type := Vector UInt32 6

namespace EventMask

def new : EventMask := Vector.replicate 6 0

/-- The word and the bit of an event. The code of `Unknown` is behind the last word. -/
def position (event : Event) : Except Halt (Fin 6 × UInt32) :=
  if h : event.code / 32 < 6 then .ok (⟨event.code / 32, h⟩, UInt32.ofNat (event.code % 32))
  else .error .panic

def enable (mask : EventMask) (event : Event) : Except Halt EventMask := do
  let (word, bit) ← position event
  return mask.set word (mask.get word ||| 1 <<< bit) word.isLt

def is_enabled (mask : EventMask) (event : Event) : Except Halt Bool := do
  let (word, bit) ← position event
  return mask.get word &&& 1 <<< bit != 0

end EventMask

/-- A message of the event queue. -/
structure Message where
  event_type : Event
  status : UInt32

/-- The queue of two messages: what its one subscriber has not read, if there is a subscriber. -/
abbrev EventQueue : Type := Option (List Message)

/-- `publish_immediate`: a full queue loses its oldest message. -/
def EventQueue.publish_immediate (queue : EventQueue) (message : Message) : EventQueue :=
  queue.map fun messages => (if messages.length = 2 then messages.tail else messages) ++ [message]

/-! ## The driver -/

inductive LinkState : Type where
  | up
  | down
deriving DecidableEq

/-- What the driver shares with the network stack: the link, and the frames received. -/
structure NetChannel where
  link_state : LinkState
  rx : List (List UInt8)

/-- `State`: what `Control` and the runner share. -/
structure State where
  ioctl_state : IoctlState
  mask : EventMask
  queue : EventQueue
  secure_network : Bool
  ch : NetChannel

structure Runner where
  ioctl_id : UInt16
  sdpcm_seq : UInt8
  sdpcm_seq_max : UInt8
  join_ok : Bool
  key_exchange_ok : Bool
  auth_ok : Bool

def State.new : State where
  ioctl_state := .new
  mask := .new
  queue := none
  secure_network := false
  ch := { link_state := .down, rx := [] }

def Runner.new : Runner where
  ioctl_id := 0
  sdpcm_seq := 0
  sdpcm_seq_max := 1
  join_ok := false
  key_exchange_ok := false
  auth_ok := false

/-- The driver's memory. -/
structure Radio where
  state : State
  runner : Runner
  heap : Heap

def CHANNEL_TYPE_CONTROL : UInt8 := 0
def CHANNEL_TYPE_EVENT : UInt8 := 1
def CHANNEL_TYPE_DATA : UInt8 := 2
def MTU : ℕ := 1514
def ETH_P_LINK_CTL : UInt16 := 0x886c
def BROADCOM_OUI : List UInt8 := [0x00, 0x10, 0x18]
def BCMILCP_SUBTYPE_VENDOR_LONG : UInt16 := 32769
def BCMILCP_BCM_SUBTYPE_EVENT : UInt16 := 1

/-! ### Credit -/

def Runner.has_credit (runner : Runner) : Bool :=
  runner.sdpcm_seq != runner.sdpcm_seq_max
    && (runner.sdpcm_seq_max - runner.sdpcm_seq) &&& 0x80 == 0

/-- `sdpcm_seq + 2` wraps: the release profile does not check it. -/
def Runner.update_credit (runner : Runner) (sdpcm_header : SdpcmHeader) : Runner :=
  if sdpcm_header.channel_and_flags &&& 0xf < 3 then
    let sdpcm_seq_max := sdpcm_header.bus_data_credit
    { runner with
      sdpcm_seq_max :=
        if 0x40 < sdpcm_seq_max - runner.sdpcm_seq then runner.sdpcm_seq + 2 else sdpcm_seq_max }
  else runner

/-! ### Sending -/

/-- The `[u32; 512]` that packets are put together in, as bytes. -/
abbrev BUF_SIZE : ℕ := 2048

/-- `(total_len + 3) & !3` -/
def round_up_to_word (total_len : ℕ) : ℕ := (total_len + 3) / 4 * 4

/-- The SDPCM header of a packet that is sent. -/
def tx_header (total_len : ℕ) (sequence channel : UInt8) (header_length : ℕ) : SdpcmHeader where
  len := UInt16.ofNat total_len
  len_inv := ~~~ UInt16.ofNat total_len
  sequence
  channel_and_flags := channel
  next_length := 0
  header_length := UInt8.ofNat header_length
  wireless_flow_control := 0
  bus_data_credit := 0
  reserved := (0, 0)

/-- The runner after it, the buffer, and what is written to the bus. -/
def Runner.send_ioctl (runner : Runner) (kind : IoctlType) (cmd : Ioctl) (iface : UInt32)
    (data : List UInt8) (buf8 : Vector UInt8 BUF_SIZE) :
    Except Halt (Runner × Vector UInt8 BUF_SIZE × List UInt8) :=
  let total_len := SdpcmHeader.SIZE + CdcHeader.SIZE + data.length
  let sdpcm_seq := runner.sdpcm_seq
  let runner := { runner with sdpcm_seq := sdpcm_seq + 1, ioctl_id := runner.ioctl_id + 1 }
  let sdpcm_header := tx_header total_len sdpcm_seq CHANNEL_TYPE_CONTROL SdpcmHeader.SIZE
  let cdc_header : CdcHeader :=
    { cmd := cmd.code
      len := UInt32.ofNat data.length
      flags := kind.code ||| iface.toUInt16 <<< 12
      id := runner.ioctl_id
      status := 0 }
  if BUF_SIZE < total_len then .error .panic
  else
    let buf8 := copy_from_slice buf8 0 sdpcm_header.to_bytes
    let buf8 := copy_from_slice buf8 SdpcmHeader.SIZE cdc_header.to_bytes
    let buf8 := copy_from_slice buf8 (SdpcmHeader.SIZE + CdcHeader.SIZE) data
    .ok (runner, buf8, slice buf8 0 (round_up_to_word total_len))

/-- Between the SDPCM and the BDC header of a frame of data. -/
def PADDING_SIZE : ℕ := 2

/-- The branch of `run` that sends a frame of the network stack. -/
def Runner.send_packet (runner : Runner) (packet : List UInt8) (buf8 : Vector UInt8 BUF_SIZE) :
    Except Halt (Runner × Vector UInt8 BUF_SIZE × List UInt8) :=
  let total_len := SdpcmHeader.SIZE + PADDING_SIZE + BdcHeader.SIZE + packet.length
  let seq := runner.sdpcm_seq
  let runner := { runner with sdpcm_seq := seq + 1 }
  let sdpcm_header := tx_header total_len seq CHANNEL_TYPE_DATA (SdpcmHeader.SIZE + PADDING_SIZE)
  let bdc_header : BdcHeader :=
    { flags := BDC_VERSION <<< BDC_VERSION_SHIFT, priority := 0, flags2 := 0, data_offset := 0 }
  if BUF_SIZE < total_len then .error .panic
  else
    let buf8 := copy_from_slice buf8 0 sdpcm_header.to_bytes
    let buf8 := copy_from_slice buf8 (SdpcmHeader.SIZE + PADDING_SIZE) bdc_header.to_bytes
    let buf8 := copy_from_slice buf8 (SdpcmHeader.SIZE + PADDING_SIZE + BdcHeader.SIZE) packet
    .ok (runner, buf8, slice buf8 0 (round_up_to_word total_len))

/-! ### Receiving -/

/-- What an event does to the flags of the link, and whether the link is to be looked at. -/
def Runner.link_event (runner : Runner) (event_type : Event) (status : EStatus) (flags : UInt16)
    (reason auth_type : UInt32) : Runner × Bool :=
  if event_type = .LINK ∧ status = .SUCCESS ∧ flags = 0 ∨ event_type = .DEAUTH ∧ status = .SUCCESS
      ∨ event_type = .AUTH ∧ status = .FAIL ∧ reason = 16 ∧ auth_type = 3 then
    ({ runner with auth_ok := false, join_ok := false, key_exchange_ok := false }, true)
  else if event_type = .AUTH ∧ status ≠ .UNSOLICITED then
    ({ runner with auth_ok := status = .SUCCESS }, false)
  else if event_type = .JOIN ∧ status = .SUCCESS then ({ runner with join_ok := true }, true)
  else if event_type = .PSK_SUP ∧ status = .UNSOLICITED ∧ flags = 0 ∧ reason = 0 then
    if runner.auth_ok then ({ runner with key_exchange_ok := true }, true) else (runner, false)
  else if event_type = .PSK_SUP ∧ reason = 14 then (runner, false)
  else if event_type = .PSK_SUP then ({ runner with key_exchange_ok := false }, true)
  else (runner, false)

/-- The link as the flags have it. -/
def Runner.link_state (runner : Runner) (secure_network : Bool) : LinkState :=
  if runner.join_ok && (!secure_network || runner.key_exchange_ok) then .up else .down

namespace Radio

/-- A message on the control channel: a response with the last ID is handed over. -/
def rx_control (R : Radio) (addr : ℕ) (payload : List UInt8) : Except Halt Radio := do
  match ← CdcHeader.parse addr payload with
  | none => return R
  | some (cdc_header, response) =>
    if cdc_header.id = R.runner.ioctl_id then
      if cdc_header.status ≠ 0 then .error .panic
      else
        let (ioctl_state, heap) ← R.state.ioctl_state.ioctl_done R.heap response
        return { R with state := { R.state with ioctl_state }, heap }
    else return R

/-- What is done with an event packet that was read. -/
def event (R : Radio) (event_packet : EventPacket) : Except Halt Radio := do
  let event_type := Event.from event_packet.event_type.toUInt8
  let status := EStatus.from event_packet.status.toUInt8
  let (runner, update_link_status) := R.runner.link_event event_type status event_packet.flags
    event_packet.reason event_packet.auth_type
  let ch :=
    if update_link_status then
      { R.state.ch with link_state := runner.link_state R.state.secure_network }
    else R.state.ch
  let queue :=
    if ← R.state.mask.is_enabled event_type then
      R.state.queue.publish_immediate { event_type, status := event_packet.status }
    else R.state.queue
  return { R with state := { R.state with ch, queue }, runner }

/-- A packet on the event channel. -/
def rx_event (R : Radio) (addr : ℕ) (payload : List UInt8) : Except Halt Radio := do
  match BdcHeader.parse payload with
  | none => return R
  | some (bdc_header, bdc_packet) =>
    match ← EventPacket.parse (addr + BdcHeader.SIZE + 4 * bdc_header.data_offset.toNat) bdc_packet with
    | none => return R
    | some event_packet =>
      if event_packet.ether_type ≠ ETH_P_LINK_CTL then return R
      else if event_packet.oui ≠ BROADCOM_OUI then return R
      else if event_packet.subtype ≠ BCMILCP_SUBTYPE_VENDOR_LONG then return R
      else if event_packet.user_subtype ≠ BCMILCP_BCM_SUBTYPE_EVENT then return R
      else R.event event_packet

/-- A frame for the network stack, which has four buffers of `MTU` bytes for them. -/
def rx_data (R : Radio) (payload : List UInt8) : Except Halt Radio :=
  match BdcHeader.parse payload with
  | none => .ok R
  | some (_, packet) =>
    if R.state.ch.rx.length < 4 then
      if MTU < packet.length then .error .panic
      else .ok { R with state := { R.state with ch := { R.state.ch with rx := R.state.ch.rx ++ [packet] } } }
    else .ok R

/-- `Runner::rx` -/
def rx (R : Radio) (packet : List UInt8) : Except Halt Radio := do
  match ← SdpcmHeader.parse packet with
  | none => return R
  | some (sdpcm_header, payload) =>
    let R := { R with runner := R.runner.update_credit sdpcm_header }
    let addr := sdpcm_header.header_length.toNat
    let channel := sdpcm_header.channel_and_flags &&& 0x0f
    if channel = CHANNEL_TYPE_CONTROL then R.rx_control addr payload
    else if channel = CHANNEL_TYPE_EVENT then R.rx_event addr payload
    else if channel = CHANNEL_TYPE_DATA then R.rx_data payload
    else return R

end Radio

end PicoDataLogger.Cyw43
