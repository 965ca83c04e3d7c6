/-
`Runner::run` and the callers of `Control::ioctl`, turn by turn.

Two tasks share the driver: the one that waits in `run`, and the one that has
`Control`, which is lent to one call at a time. A turn is what either does from one
of its awaits to the next, and the order of the turns is the executor's and the chip's.
A call of `ioctl` may return, or it may be dropped where it waits; `CancelOnDrop`
then takes the pointer to its buffer back, and the buffer is gone.
-/
import PicoDataLogger.Cyw43.Frames

set_option autoImplicit false

namespace PicoDataLogger.Cyw43

/-- The driver, between two turns. -/
structure Driver where
  radio : Radio
  /-- `buf` of `run`. -/
  buf8 : Vector UInt8 BUF_SIZE
  /-- In `check_status`, and not in the `select4` of `run`. -/
  checking : Bool
  /-- The buffer of the call of `ioctl` that has not returned. -/
  call : Option Buf
  /-- How many calls there were: the buffer of a call has its number. -/
  calls : ℕ

/-- What is seen of a turn. -/
inductive DriverEvent : Type where
  | called (kind : IoctlType) (cmd : Ioctl) (iface : UInt32) (request : List UInt8)
  | returned (resp_len : ℕ) (buf : List UInt8)
  | dropped
  | ioctl_sent (frame : List UInt8)
  | packet_sent (packet frame : List UInt8)
  | interrupt
  | received (packet : List UInt8)
  | no_packet
  | secured (secure_network : Bool)
  | shared

namespace Driver

/-- `Runner::new`, with `State::new`, and nothing left in the buffer. -/
def new : Driver where
  radio := { state := .new, runner := .new, heap := fun _ => none }
  buf8 := Vector.replicate BUF_SIZE 0
  checking := false
  call := none
  calls := 0

/-- `do_ioctl` up to its await. -/
def ioctl (D : Driver) (kind : IoctlType) (cmd : Ioctl) (iface : UInt32) (request : List UInt8) : Driver :=
  { D with
    radio :=
      { D.radio with
        state := { D.radio.state with ioctl_state := .do_ioctl kind cmd iface D.calls }
        heap := Function.update D.radio.heap D.calls (some request) }
    call := some D.calls
    calls := D.calls + 1 }

/-- The call returns, and its buffer is its caller's again. -/
def returns (D : Driver) (buf : Buf) : Driver :=
  { D with radio := { D.radio with heap := Function.update D.radio.heap buf none }, call := none }

/-- The call is dropped. -/
def drops (D : Driver) (buf : Buf) : Driver :=
  { D with
    radio :=
      { D.radio with
        state := { D.radio.state with ioctl_state := .cancel_ioctl }
        heap := Function.update D.radio.heap buf none }
    call := none }

/-- `Either4::First`: the pending ioctl is taken and sent. -/
def send_ioctl (D : Driver) (ioctl : PendingIoctl) (ioctl_state : IoctlState) :
    Except Halt (DriverEvent × Driver) :=
  match D.radio.heap ioctl.buf with
  | none => .error .dangling
  | some data => do
    let (runner, buf8, frame) ←
      D.radio.runner.send_ioctl ioctl.kind ioctl.cmd ioctl.iface data D.buf8
    return (.ioctl_sent frame,
      { D with
        radio := { D.radio with state := { D.radio.state with ioctl_state }, runner }
        buf8
        checking := true })

/-- `Either4::Second`: a frame of the network stack. -/
def send_packet (D : Driver) (packet : List UInt8) : Except Halt (DriverEvent × Driver) := do
  let (runner, buf8, frame) ← D.radio.runner.send_packet packet D.buf8
  return (.packet_sent packet frame, { D with radio := { D.radio with runner }, buf8, checking := true })

/-- A packet read off the bus; `buf8` is what reading and parsing it leaves in the buffer. -/
def receive (D : Driver) (packet : List UInt8) (buf8 : Vector UInt8 BUF_SIZE) :
    Except Halt (DriverEvent × Driver) := do
  let radio ← D.radio.rx packet
  return (.received packet, { D with radio, buf8 })

end Driver

/-- A turn from `D`, and what comes of it. -/
inductive Turn (D : Driver) : Except Halt (DriverEvent × Driver) → Prop where
  | ioctl (kind : IoctlType) (cmd : Ioctl) (iface : UInt32) (request : List UInt8)
      (hcall : D.call = none) :
      Turn D (.ok (.called kind cmd iface request, D.ioctl kind cmd iface request))
  | returns {buf : Buf} {resp_len : ℕ} {data : List UInt8} (hcall : D.call = some buf)
      (hcomplete : D.radio.state.ioctl_state.wait_complete = some resp_len)
      (hdata : D.radio.heap buf = some data) :
      Turn D (.ok (.returned resp_len data, D.returns buf))
  | drops {buf : Buf} (hcall : D.call = some buf) : Turn D (.ok (.dropped, D.drops buf))
  | send_ioctl {ioctl : PendingIoctl} {ioctl_state : IoctlState} (hchecking : D.checking = false)
      (hcredit : D.radio.runner.has_credit = true)
      (hpending : D.radio.state.ioctl_state.wait_pending = some (ioctl, ioctl_state))
      {result : Except Halt (DriverEvent × Driver)} (hsend : D.send_ioctl ioctl ioctl_state = result) :
      Turn D result
  | send_packet (packet : List UInt8) (hmtu : packet.length ≤ MTU) (hchecking : D.checking = false)
      (hcredit : D.radio.runner.has_credit = true)
      (hpending : D.radio.state.ioctl_state.wait_pending = none)
      {result : Except Halt (DriverEvent × Driver)} (hsend : D.send_packet packet = result) :
      Turn D result
  -- without credit, an interrupt is all that is waited for
  | interrupt (hchecking : D.checking = false)
      (hpending : D.radio.runner.has_credit = true → D.radio.state.ioctl_state.wait_pending = none) :
      Turn D (.ok (.interrupt, { D with checking := true }))
  | receive (packet : List UInt8) (buf8 : Vector UInt8 BUF_SIZE) (hchecking : D.checking = true)
      (hlen : packet.length < BUF_SIZE) {result : Except Halt (DriverEvent × Driver)}
      (hreceive : D.receive packet buf8 = result) : Turn D result
  | no_packet (hchecking : D.checking = true) :
      Turn D (.ok (.no_packet, { D with checking := false }))
  | secure (secure_network : Bool) :
      Turn D (.ok (.secured secure_network,
        { D with radio := { D.radio with state := { D.radio.state with secure_network } } }))
  -- the event queue, its mask and the received frames are read and changed by others as well
  | share (mask : EventMask) (queue : EventQueue) (rx : List (List UInt8)) :
      Turn D (.ok (.shared,
        { D with
          radio :=
            { D.radio with
              state := { D.radio.state with mask, queue, ch := { D.radio.state.ch with rx } } } }))

/-- The runs of the driver, by what was seen. -/
inductive DriverRun : List DriverEvent → Driver → Prop where
  | new : DriverRun [] .new
  | turn {history : List DriverEvent} {D D' : Driver} {e : DriverEvent} (hrun : DriverRun history D)
      (hturn : Turn D (.ok (e, D'))) : DriverRun (history ++ [e]) D'

/-! ## What a turn of the runner does -/

namespace Driver

variable {D D' : Driver} {e : DriverEvent}

theorem send_ioctl_ok {ioctl : PendingIoctl} {ioctl_state : IoctlState}
    (h : D.send_ioctl ioctl ioctl_state = .ok (e, D')) :
    ∃ data buf8 frame, D.radio.heap ioctl.buf = some data ∧ e = .ioctl_sent frame
      ∧ ControlFrame frame D.radio.runner.sdpcm_seq (D.radio.runner.ioctl_id + 1) ioctl.kind ioctl.cmd
          ioctl.iface data
      ∧ D' =
        { D with
          radio :=
            { D.radio with
              state := { D.radio.state with ioctl_state }
              runner :=
                { D.radio.runner with
                  sdpcm_seq := D.radio.runner.sdpcm_seq + 1, ioctl_id := D.radio.runner.ioctl_id + 1 } }
          buf8
          checking := true } := by
  unfold send_ioctl at h
  cases hdata : D.radio.heap ioctl.buf with
  | none =>
    simp only [hdata] at h
    cases h
  | some data =>
    simp only [hdata] at h
    cases hok : D.radio.runner.send_ioctl ioctl.kind ioctl.cmd ioctl.iface data D.buf8 with
    | error halt =>
      simp only [hok, bind, Except.bind] at h
      cases h
    | ok sent =>
      obtain ⟨runner, buf8, frame⟩ := sent
      simp only [hok, bind, Except.bind] at h
      cases h
      obtain ⟨rfl, hframe⟩ := Cyw43.send_ioctl_ok hok
      exact ⟨data, buf8, frame, rfl, rfl, hframe, rfl⟩

theorem send_packet_ok {packet : List UInt8} (h : D.send_packet packet = .ok (e, D')) :
    ∃ buf8 frame, e = .packet_sent packet frame ∧ DataFrame frame D.radio.runner.sdpcm_seq packet
      ∧ D' =
        { D with
          radio :=
            { D.radio with
              runner := { D.radio.runner with sdpcm_seq := D.radio.runner.sdpcm_seq + 1 } }
          buf8
          checking := true } := by
  unfold send_packet at h
  cases hok : D.radio.runner.send_packet packet D.buf8 with
  | error halt =>
    simp only [hok, bind, Except.bind] at h
    cases h
  | ok sent =>
    obtain ⟨runner, buf8, frame⟩ := sent
    simp only [hok, bind, Except.bind] at h
    cases h
    obtain ⟨rfl, hframe⟩ := Cyw43.send_packet_ok hok
    exact ⟨buf8, frame, rfl, hframe, rfl⟩

/-- A frame of the network stack always fits. -/
theorem exists_send_packet (D : Driver) {packet : List UInt8} (hmtu : packet.length ≤ MTU) :
    ∃ frame D', D.send_packet packet = .ok (.packet_sent packet frame, D')
      ∧ D'.radio.state = D.radio.state
      ∧ D'.radio.runner = { D.radio.runner with sdpcm_seq := D.radio.runner.sdpcm_seq + 1 }
      ∧ D'.checking = true := by
  have hmtu' : MTU = 1514 := rfl
  have hfits : SdpcmHeader.SIZE + PADDING_SIZE + BdcHeader.SIZE + packet.length ≤ BUF_SIZE :=
    calc _ = 18 + packet.length := rfl
      _ ≤ 2048 := by omega
  obtain ⟨runner, buf8, frame, hok⟩ := send_packet_short D.radio.runner D.buf8 hfits
  have hsend : ∃ D', D.send_packet packet = .ok (.packet_sent packet frame, D') := by
    unfold send_packet
    simp only [hok, bind, Except.bind]
    exact ⟨_, rfl⟩
  obtain ⟨D', hsend⟩ := hsend
  obtain ⟨_, _, -, -, rfl⟩ := send_packet_ok hsend
  exact ⟨frame, _, hsend, rfl, rfl, rfl⟩

theorem receive_ok {packet : List UInt8} {buf8 : Vector UInt8 BUF_SIZE}
    (h : D.receive packet buf8 = .ok (e, D')) :
    ∃ radio, D.radio.rx packet = .ok radio ∧ e = .received packet ∧ D' = { D with radio, buf8 } := by
  unfold receive at h
  cases hrx : D.radio.rx packet with
  | error halt =>
    simp only [hrx, bind, Except.bind] at h
    cases h
  | ok radio =>
    simp only [hrx, bind, Except.bind] at h
    cases h
    exact ⟨radio, rfl, rfl, rfl⟩

end Driver

end PicoDataLogger.Cyw43
