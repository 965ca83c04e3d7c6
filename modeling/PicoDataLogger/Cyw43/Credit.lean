/-
The driver sends what the chip has room for.

Every packet that comes in says up to which sequence number the chip takes packets. The
driver counts in eight bits, and takes a credit that is more than 64 ahead for one
that is behind; it then allows itself two. So between two credits it
sends no more than it was allowed, and it stalls when this is used up, not before.
-/
import Mathlib.Data.Nat.Bitwise
import PicoDataLogger.Cyw43.Received

set_option autoImplicit false

namespace PicoDataLogger.Cyw43

/-! ## What was sent, and what was granted -/

/-- A packet is written to the bus. -/
def DriverEvent.sends : DriverEvent → Option (List UInt8)
  | .ioctl_sent frame => some frame
  | .packet_sent _ frame => some frame
  | _ => none

/-- How many packets were written. -/
def frames_sent (history : List DriverEvent) : ℕ := history.countP fun e => e.sends.isSome

/-- The credit in a packet, if it is on a channel that has one. -/
def credit_of (packet : List UInt8) : Option UInt8 :=
  match SdpcmHeader.parse packet with
  | .ok (some (sdpcm_header, _)) =>
    if sdpcm_header.channel_and_flags &&& 0xf < 3 then some sdpcm_header.bus_data_credit else none
  | _ => none

def DriverEvent.grants : DriverEvent → Option UInt8
  | .received packet => credit_of packet
  | _ => none

/-- How many packets may be sent on a credit, if the next has sequence number `sequence`. -/
def allowance (sequence credit : UInt8) : ℕ :=
  if 0x40 < credit - sequence then 2 else (credit - sequence).toNat

/-- How many may be sent still. -/
def Runner.window (runner : Runner) : ℕ := (runner.sdpcm_seq_max - runner.sdpcm_seq).toNat

/-- The packet has the sequence number. -/
def Numbered (frame : List UInt8) (sequence : UInt8) : Prop :=
  ∃ sdpcm_header payload, Packet frame sdpcm_header payload ∧ sdpcm_header.sequence = sequence

/-! ## Eight bits -/

section Bytes

theorem allowance_le (sequence credit : UInt8) : allowance sequence credit ≤ 64 := by
  unfold allowance
  split
  · omega
  · rename_i h
    exact UInt8.le_iff_toNat_le.mp (UInt8.not_lt.mp h)

/-- Up to 64, the top bit of a difference is clear. -/
theorem has_credit_iff {runner : Runner} (h : runner.window ≤ 64) :
    runner.has_credit = true ↔ 0 < runner.window := by
  have htop : (runner.sdpcm_seq_max - runner.sdpcm_seq) &&& 0x80 = 0 := by
    apply UInt8.toNat.inj
    have hbit : (runner.sdpcm_seq_max - runner.sdpcm_seq).toNat.testBit 7 = false :=
      Nat.testBit_lt_two_pow (lt_of_le_of_lt h (by decide))
    rw [UInt8.toNat_and, show (0x80 : UInt8).toNat = 2 ^ 7 from rfl, Nat.and_two_pow, hbit]
    rfl
  have hzero : runner.sdpcm_seq = runner.sdpcm_seq_max ↔ runner.window = 0 := by
    rw [Runner.window, ← UInt8.toNat_zero, UInt8.toNat_inj]
    grind
  simp only [Runner.has_credit, htop, beq_self_eq_true, Bool.and_true, bne_iff_ne, ne_eq, hzero]
  omega

/-- A packet uses up one. -/
theorem window_sent {runner : Runner} (h : 0 < runner.window) :
    (runner.sdpcm_seq_max - (runner.sdpcm_seq + 1)).toNat + 1 = runner.window := by
  have hle : (1 : UInt8) ≤ runner.sdpcm_seq_max - runner.sdpcm_seq := UInt8.le_iff_toNat_le.mpr h
  have hstep : runner.sdpcm_seq_max - (runner.sdpcm_seq + 1)
      = runner.sdpcm_seq_max - runner.sdpcm_seq - 1 := by grind
  rw [hstep, UInt8.toNat_sub_of_le _ _ hle]
  have hwindow : runner.window = (runner.sdpcm_seq_max - runner.sdpcm_seq).toNat := rfl
  simp only [UInt8.toNat_one]
  omega

theorem window_update_credit (runner : Runner) (sdpcm_header : SdpcmHeader) :
    (runner.update_credit sdpcm_header).window
      = if sdpcm_header.channel_and_flags &&& 0xf < 3 then
          allowance runner.sdpcm_seq sdpcm_header.bus_data_credit
        else runner.window := by
  unfold Runner.update_credit
  by_cases hchannel : sdpcm_header.channel_and_flags &&& 0xf < 3
  · rw [if_pos hchannel, if_pos hchannel]
    unfold Runner.window allowance
    by_cases hfar : 0x40 < sdpcm_header.bus_data_credit - runner.sdpcm_seq
    · have htwo : runner.sdpcm_seq + 2 - runner.sdpcm_seq = 2 := by grind
      simp only [if_pos hfar, htwo]
      rfl
    · simp only [if_neg hfar]
  · rw [if_neg hchannel, if_neg hchannel]

theorem window_credited (runner : Runner) (packet : List UInt8) :
    (runner.credited packet).window
      = match credit_of packet with
        | some credit => allowance runner.sdpcm_seq credit
        | none => runner.window := by
  unfold Runner.credited credit_of
  rcases SdpcmHeader.parse packet with _ | _ | ⟨sdpcm_header, payload⟩
  · rfl
  · rfl
  · simp only [window_update_credit]
    split <;> rfl

end Bytes

/-! ## Turns -/

section Turns

variable {history : List DriverEvent} {D D' : Driver} {e : DriverEvent}

theorem ControlFrame.numbered {frame data : List UInt8} {sequence : UInt8} {id : UInt16} {kind : IoctlType}
    {cmd : Ioctl} {iface : UInt32} (h : ControlFrame frame sequence id kind cmd iface data) :
    Numbered frame sequence := by
  obtain ⟨sdpcm_header, payload, cdc_header, hpacket, hsequence, -⟩ := h
  exact ⟨sdpcm_header, payload, hpacket, hsequence⟩

theorem DataFrame.numbered {frame packet : List UInt8} {sequence : UInt8}
    (h : DataFrame frame sequence packet) : Numbered frame sequence := by
  obtain ⟨sdpcm_header, payload, bdc_header, hpacket, hsequence, -⟩ := h
  exact ⟨sdpcm_header, payload, hpacket, hsequence⟩

theorem frames_sent_snoc (history : List DriverEvent) (e : DriverEvent) :
    frames_sent (history ++ [e]) = frames_sent history + if e.sends.isSome then 1 else 0 := by
  simp [frames_sent, List.countP_append, List.countP_singleton]

/-- What a packet does to the counters. -/
theorem rx_counters {R R' : Radio} {packet : List UInt8} (h : R.rx packet = .ok R') :
    R'.runner.sdpcm_seq = R.runner.sdpcm_seq
      ∧ R'.runner.window = (R.runner.credited packet).window := by
  have hseq : (R.credited packet).runner.sdpcm_seq = R.runner.sdpcm_seq := by
    simp only [Radio.credited, Runner.credited]
    split
    · unfold Runner.update_credit
      split <;> rfl
    · rfl
  rcases rx_received h with _ | ⟨-, -, -, -⟩ | ⟨-, hevent⟩ | ⟨frame⟩
  · exact ⟨hseq, rfl⟩
  · exact ⟨hseq, rfl⟩
  · obtain ⟨-, -, auth_ok, join_ok, key_exchange_ok, hrunner⟩ := event_frame hevent
    rw [hrunner]
    exact ⟨hseq, rfl⟩
  · exact ⟨hseq, rfl⟩

/-- What a turn does to the counters: it sends the next number out of the window, or it opens the
window anew, or it leaves them alone. -/
inductive Counted (D : Driver) (e : DriverEvent) (D' : Driver) : Prop where
  | sent {frame : List UInt8} (hsends : e.sends = some frame) (hgrants : e.grants = none)
      (hnumber : Numbered frame D.radio.runner.sdpcm_seq)
      (hseq : D'.radio.runner.sdpcm_seq = D.radio.runner.sdpcm_seq + 1)
      (hcredit : D.radio.runner.has_credit = true)
      (hmax : D'.radio.runner.sdpcm_seq_max = D.radio.runner.sdpcm_seq_max)
  | granted {credit : UInt8} (hsends : e.sends = none) (hgrants : e.grants = some credit)
      (hseq : D'.radio.runner.sdpcm_seq = D.radio.runner.sdpcm_seq)
      (hwindow : D'.radio.runner.window = allowance D.radio.runner.sdpcm_seq credit)
  | quiet (hsends : e.sends = none) (hgrants : e.grants = none)
      (hseq : D'.radio.runner.sdpcm_seq = D.radio.runner.sdpcm_seq)
      (hwindow : D'.radio.runner.window = D.radio.runner.window)

theorem turn_counted (hturn : Turn D (.ok (e, D'))) : Counted D e D' := by
  cases hturn with
  | ioctl => exact .quiet rfl rfl rfl rfl
  | returns => exact .quiet rfl rfl rfl rfl
  | drops => exact .quiet rfl rfl rfl rfl
  | send_ioctl hchecking hcredit hpending hsend =>
    obtain ⟨data, buf8, frame, -, rfl, hframe, rfl⟩ := Driver.send_ioctl_ok hsend
    exact .sent rfl rfl hframe.numbered rfl hcredit rfl
  | send_packet packet hmtu hchecking hcredit hpending hsend =>
    obtain ⟨buf8, frame, rfl, hframe, rfl⟩ := Driver.send_packet_ok hsend
    exact .sent rfl rfl hframe.numbered rfl hcredit rfl
  | receive packet buf8 hchecking hlen hreceive =>
    obtain ⟨radio, hrx, rfl, rfl⟩ := Driver.receive_ok hreceive
    obtain ⟨hseq, hwindow⟩ := rx_counters hrx
    rw [window_credited] at hwindow
    cases hcredit : credit_of packet with
    | none => exact .quiet rfl hcredit hseq (by rw [hwindow, hcredit])
    | some credit => exact .granted rfl hcredit hseq (by rw [hwindow, hcredit])
  | interrupt => exact .quiet rfl rfl rfl rfl
  | no_packet => exact .quiet rfl rfl rfl rfl
  | secure => exact .quiet rfl rfl rfl rfl
  | share => exact .quiet rfl rfl rfl rfl

end Turns

/-! ## Runs -/

/-- The window is what the last credit allowed, less what was sent since. -/
def InCredit (history : List DriverEvent) (window : ℕ) : Prop :=
  (∀ before e after credit, history = before ++ e :: after → e.grants = some credit →
      (∀ e' ∈ after, e'.grants = none) →
      window + frames_sent after = allowance (UInt8.ofNat (frames_sent before)) credit)
    ∧ ((∀ e ∈ history, e.grants = none) → window + frames_sent history = 1)

section Runs

variable {history : List DriverEvent} {D D' : Driver} {e : DriverEvent} {window : ℕ}

theorem InCredit.snoc {window' : ℕ} (h : InCredit history window) (hgrants : e.grants = none)
    (hwindow : window' + frames_sent (history ++ [e]) = window + frames_sent history) :
    InCredit (history ++ [e]) window' := by
  rw [frames_sent_snoc] at hwindow
  constructor
  · intro before e' after credit hsplit hcredit hafter
    rcases List.eq_nil_or_concat after with rfl | ⟨after, last, rfl⟩
    · -- the last event gives no credit
      have hlast := List.append_inj_right' hsplit rfl
      cases hlast
      rw [hgrants] at hcredit
      cases hcredit
    · rw [List.concat_eq_append, ← List.cons_append, ← List.append_assoc] at hsplit
      obtain ⟨rfl, hlast⟩ := List.append_inj' hsplit rfl
      cases hlast
      have hbefore := h.1 before e' after credit rfl hcredit fun x hx => hafter x (by simp [hx])
      rw [List.concat_eq_append, frames_sent_snoc]
      omega
  · intro hall
    rw [frames_sent_snoc]
    have hbefore := h.2 fun x hx => hall x (by simp [hx])
    omega

theorem InCredit.granted {credit : UInt8} (hgrants : e.grants = some credit)
    (hwindow : window = allowance (UInt8.ofNat (frames_sent history)) credit) :
    InCredit (history ++ [e]) window := by
  constructor
  · intro before e' after credit' hsplit hcredit hafter
    rcases List.eq_nil_or_concat after with rfl | ⟨after, last, rfl⟩
    · obtain ⟨rfl, hlast⟩ := List.append_inj' hsplit rfl
      cases hlast
      rw [hgrants] at hcredit
      cases hcredit
      rw [hwindow]
      rfl
    · -- a credit came after the one that is said to be the last
      rw [List.concat_eq_append, ← List.cons_append, ← List.append_assoc] at hsplit
      obtain ⟨-, hlast⟩ := List.append_inj' hsplit rfl
      cases hlast
      rw [hafter e (by simp)] at hgrants
      cases hgrants
  · intro hall
    rw [hall e (by simp)] at hgrants
    cases hgrants

/-- Holds of every run. -/
structure Flow (history : List DriverEvent) (D : Driver) : Prop where
  seq : D.radio.runner.sdpcm_seq = UInt8.ofNat (frames_sent history)
  le : D.radio.runner.window ≤ 64
  credit : InCredit history D.radio.runner.window
  numbered : ∀ before e after frame, history = before ++ e :: after → e.sends = some frame →
    Numbered frame (UInt8.ofNat (frames_sent before))

theorem numbered_snoc
    (h : ∀ before e after frame, history = before ++ e :: after → e.sends = some frame →
      Numbered frame (UInt8.ofNat (frames_sent before)))
    (he : ∀ frame, e.sends = some frame → Numbered frame (UInt8.ofNat (frames_sent history))) :
    ∀ before e' after frame, history ++ [e] = before ++ e' :: after → e'.sends = some frame →
      Numbered frame (UInt8.ofNat (frames_sent before)) := by
  intro before e' after frame hsplit hsends
  rcases List.eq_nil_or_concat after with rfl | ⟨after, last, rfl⟩
  · obtain ⟨rfl, hlast⟩ := List.append_inj' hsplit rfl
    cases hlast
    exact he frame hsends
  · rw [List.concat_eq_append, ← List.cons_append, ← List.append_assoc] at hsplit
    obtain ⟨rfl, -⟩ := List.append_inj' hsplit rfl
    exact h before e' after frame rfl hsends

/-- One turn keeps the count. -/
theorem Flow.turn (h : Flow history D) (hturn : Turn D (.ok (e, D'))) : Flow (history ++ [e]) D' := by
  cases turn_counted hturn with
  | sent hsends hgrants hnumber hseq hcredit hmax =>
    have hwindow : D'.radio.runner.window + 1 = D.radio.runner.window := by
      rw [Runner.window, hseq, hmax]
      exact window_sent ((has_credit_iff h.le).mp hcredit)
    have hle := h.le
    have hcount : frames_sent (history ++ [e]) = frames_sent history + 1 := by
      rw [frames_sent_snoc, hsends]
      rfl
    refine ⟨?_, by omega, h.credit.snoc hgrants (by omega), numbered_snoc h.numbered ?_⟩
    · rw [hseq, h.seq, hcount, UInt8.ofNat_add]
      rfl
    · intro frame hframe
      rw [hsends] at hframe
      cases hframe
      exact h.seq ▸ hnumber
  | granted hsends hgrants hseq hwindow =>
    have hcount : frames_sent (history ++ [e]) = frames_sent history := by
      rw [frames_sent_snoc, hsends]
      rfl
    refine ⟨by rw [hseq, h.seq, hcount], ?_, .granted hgrants (by rw [hwindow, h.seq]),
      numbered_snoc h.numbered ?_⟩
    · rw [hwindow]
      exact allowance_le _ _
    · intro frame hframe
      rw [hsends] at hframe
      cases hframe
  | quiet hsends hgrants hseq hwindow =>
    have hcount : frames_sent (history ++ [e]) = frames_sent history := by
      rw [frames_sent_snoc, hsends]
      rfl
    refine ⟨by rw [hseq, h.seq, hcount], by rw [hwindow]; exact h.le,
      h.credit.snoc hgrants (by rw [hwindow, hcount]), numbered_snoc h.numbered ?_⟩
    intro frame hframe
    rw [hsends] at hframe
    cases hframe

theorem flow_of_run (hrun : DriverRun history D) : Flow history D := by
  induction hrun with
  | new =>
    refine ⟨rfl, by decide, ⟨?_, fun _ => rfl⟩, ?_⟩
    · intro before e after credit hsplit
      simp at hsplit
    · intro before e after frame hsplit
      simp at hsplit
  | turn hrun hturn ih => exact ih.turn hturn

/-- **Flow control.** The packets of a run have consecutive sequence numbers, the ioctls among the
frames. Before the first credit one packet is sent at most. After a credit, and until the next,
no more are sent than it allows, which is never more than 64, and the driver is out of
credit exactly when so many were sent. -/
theorem sends_within_credit (hrun : DriverRun history D) :
    (∀ before e after frame, history = before ++ e :: after → e.sends = some frame →
        Numbered frame (UInt8.ofNat (frames_sent before)))
      ∧ ((∀ e ∈ history, e.grants = none) → frames_sent history ≤ 1)
      ∧ ∀ before packet after credit, history = before ++ .received packet :: after →
        credit_of packet = some credit → (∀ e ∈ after, e.grants = none) →
        frames_sent after ≤ allowance (UInt8.ofNat (frames_sent before)) credit
          ∧ allowance (UInt8.ofNat (frames_sent before)) credit ≤ 64
          ∧ (D.radio.runner.has_credit = true
              ↔ frames_sent after < allowance (UInt8.ofNat (frames_sent before)) credit) := by
  have h := flow_of_run hrun
  refine ⟨h.numbered, fun hnone => Nat.le.intro ((Nat.add_comm _ _).trans (h.credit.2 hnone)), ?_⟩
  intro before packet after credit hsplit hcredit hafter
  have hwindow := h.credit.1 before (.received packet) after credit hsplit hcredit hafter
  have hle := allowance_le (UInt8.ofNat (frames_sent before)) credit
  refine ⟨by omega, hle, ?_⟩
  rw [has_credit_iff h.le]
  omega

/-- A frame of the network stack is sent, and no packet comes in after it. -/
theorem exists_packet_sent (hrun : DriverRun history D) (packet : List UInt8)
    (hmtu : packet.length ≤ MTU) (hchecking : D.checking = false)
    (hcredit : D.radio.runner.has_credit = true)
    (hpending : D.radio.state.ioctl_state.wait_pending = none) :
    ∃ frame D', DriverRun (history ++ [.packet_sent packet frame] ++ [.no_packet]) D'
      ∧ D'.checking = false ∧ D'.radio.state = D.radio.state
      ∧ D'.radio.runner = { D.radio.runner with sdpcm_seq := D.radio.runner.sdpcm_seq + 1 } := by
  obtain ⟨frame, D', hsend, hstate, hrunner, hchecking'⟩ := D.exists_send_packet hmtu
  exact ⟨frame, _, (hrun.turn (.send_packet packet hmtu hchecking hcredit hpending hsend)).turn
    (.no_packet hchecking'), rfl, hstate, hrunner⟩

/-- A header alone, with a credit of three, and three frames after it: then there is no credit. -/
theorem sends_within_credit_header :
    ∃ history D, DriverRun history D ∧ frames_sent history = 3
      ∧ D.radio.runner.has_credit = false := by
  have hwaiting := DriverRun.new.turn (.interrupt rfl fun _ => rfl)
  have hreceived := hwaiting.turn
    (.receive [12, 0, 243, 255, 0, 2, 0, 12, 0, 3, 0, 0] Driver.new.buf8 rfl (by decide) rfl)
  obtain ⟨first, D₁, hrun₁, hchecking₁, hstate₁, hrunner₁⟩ :=
    exists_packet_sent (hreceived.turn (.no_packet rfl)) [1] (by decide) rfl rfl rfl
  obtain ⟨second, D₂, hrun₂, hchecking₂, hstate₂, hrunner₂⟩ := exists_packet_sent hrun₁ [2] (by decide)
    hchecking₁ (by rw [hrunner₁]; rfl) (by rw [hstate₁]; rfl)
  rw [hrunner₁] at hrunner₂
  rw [hstate₁] at hstate₂
  obtain ⟨third, D₃, hrun₃, -, -, -⟩ := exists_packet_sent hrun₂ [3] (by decide) hchecking₂
    (by rw [hrunner₂]; rfl) (by rw [hstate₂]; rfl)
  refine ⟨_, D₃, hrun₃, rfl, ?_⟩
  have hiff := ((sends_within_credit hrun₃).2.2 [.interrupt] _
    [.no_packet, .packet_sent [1] first, .no_packet, .packet_sent [2] second, .no_packet,
      .packet_sent [3] third, .no_packet] 3 rfl rfl (by simp [DriverEvent.grants])).2.2
  rw [← Bool.not_eq_true, hiff]
  exact Nat.lt_irrefl 3

end Runs

end PicoDataLogger.Cyw43
