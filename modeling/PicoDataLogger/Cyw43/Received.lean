/-
What comes of a packet that is received.

`rx` ends in one of a few ways, whatever the bytes: the packet is no packet, or it
renews the credit and is a response that is waited for, an event, a frame for the
network stack, or nothing of these. Nothing else of the driver is touched.
-/
import PicoDataLogger.Cyw43.Driver

set_option autoImplicit false

namespace PicoDataLogger.Cyw43

/-! ## What a packet says -/

/-- The bytes are a packet with this header, on this channel. -/
def OnChannel (channel : UInt8) (packet : List UInt8) (sdpcm_header : SdpcmHeader) (payload : List UInt8) :
    Prop :=
  SdpcmHeader.parse packet = .ok (some (sdpcm_header, payload))
    ∧ sdpcm_header.channel_and_flags &&& 0x0f = channel

/-- A response without an error to the ioctl that had the ID. -/
def Response (packet : List UInt8) (id : UInt16) (response : List UInt8) : Prop :=
  ∃ sdpcm_header payload cdc_header, OnChannel CHANNEL_TYPE_CONTROL packet sdpcm_header payload
    ∧ CdcHeader.parse sdpcm_header.header_length.toNat payload = .ok (some (cdc_header, response))
    ∧ cdc_header.id = id ∧ cdc_header.status = 0

/-- An event of the chip's firmware. -/
def Reports (packet : List UInt8) (event_packet : EventPacket) : Prop :=
  ∃ sdpcm_header payload bdc_header bdc_packet, OnChannel CHANNEL_TYPE_EVENT packet sdpcm_header payload
    ∧ BdcHeader.parse payload = some (bdc_header, bdc_packet)
    ∧ EventPacket.parse
        (sdpcm_header.header_length.toNat + BdcHeader.SIZE + 4 * bdc_header.data_offset.toNat) bdc_packet
      = .ok (some event_packet)
    ∧ event_packet.ether_type = ETH_P_LINK_CTL ∧ event_packet.oui = BROADCOM_OUI
    ∧ event_packet.subtype = BCMILCP_SUBTYPE_VENDOR_LONG
    ∧ event_packet.user_subtype = BCMILCP_BCM_SUBTYPE_EVENT

/-- What the packet does to the credit. -/
def Runner.credited (runner : Runner) (packet : List UInt8) : Runner :=
  match SdpcmHeader.parse packet with
  | .ok (some (sdpcm_header, _)) => runner.update_credit sdpcm_header
  | _ => runner

/-- The driver with the credit of the packet. -/
def Radio.credited (R : Radio) (packet : List UInt8) : Radio :=
  { R with runner := R.runner.credited packet }

/-- The ends of `rx`. -/
inductive Received (R : Radio) (packet : List UInt8) : Radio → Prop where
  | ignored : Received R packet (R.credited packet)
  | response {buf : Buf} {data response : List UInt8} (hresponse : Response packet R.runner.ioctl_id response)
      (hsent : R.state.ioctl_state = .sent buf) (hdata : R.heap buf = some data)
      (hlen : response.length ≤ data.length) :
      Received R packet
        { R.credited packet with
          state := { R.state with ioctl_state := .done response.length }
          heap := Function.update R.heap buf (some (response ++ data.drop response.length)) }
  | event {event_packet : EventPacket} {R' : Radio} (hreports : Reports packet event_packet)
      (hevent : (R.credited packet).event event_packet = .ok R') : Received R packet R'
  | data (frame : List UInt8) :
      Received R packet
        { R.credited packet with
          state := { R.state with ch := { R.state.ch with rx := R.state.ch.rx ++ [frame] } } }

/-- Only the flags of the link are an event's. -/
theorem link_event_frame (runner : Runner) (event_type : Event) (status : EStatus) (flags : UInt16)
    (reason auth_type : UInt32) :
    ∃ auth_ok join_ok key_exchange_ok,
      (runner.link_event event_type status flags reason auth_type).1
        = { runner with auth_ok, join_ok, key_exchange_ok } := by
  unfold Runner.link_event
  split_ifs <;> exact ⟨_, _, _, rfl⟩

/-- What an event does, but for the queue. -/
theorem event_ok {R R' : Radio} {event_packet : EventPacket} (h : R.event event_packet = .ok R') :
    ∃ queue runner update_link_status,
      R.runner.link_event (.from event_packet.event_type.toUInt8) (.from event_packet.status.toUInt8)
          event_packet.flags event_packet.reason event_packet.auth_type = (runner, update_link_status)
        ∧ R' =
          { R with
            state :=
              { R.state with
                queue
                ch :=
                  if update_link_status then
                    { R.state.ch with link_state := runner.link_state R.state.secure_network }
                  else R.state.ch }
            runner } := by
  unfold Radio.event at h
  cases hevent : R.runner.link_event (.from event_packet.event_type.toUInt8)
      (.from event_packet.status.toUInt8) event_packet.flags event_packet.reason event_packet.auth_type with
  | mk runner update_link_status =>
    simp only [hevent] at h
    cases hmask : R.state.mask.is_enabled (.from event_packet.event_type.toUInt8) with
    | error halt =>
      simp only [hmask, bind, Except.bind] at h
      cases h
    | ok enabled =>
      simp only [hmask, bind, Except.bind] at h
      cases h
      exact ⟨_, _, _, rfl, rfl⟩

theorem event_frame {R R' : Radio} {event_packet : EventPacket} (h : R.event event_packet = .ok R') :
    R'.state.ioctl_state = R.state.ioctl_state ∧ R'.heap = R.heap
      ∧ ∃ auth_ok join_ok key_exchange_ok, R'.runner = { R.runner with auth_ok, join_ok, key_exchange_ok } := by
  obtain ⟨queue, runner, update_link_status, hlink, rfl⟩ := event_ok h
  have hrunner := link_event_frame R.runner (.from event_packet.event_type.toUInt8)
    (.from event_packet.status.toUInt8) event_packet.flags event_packet.reason event_packet.auth_type
  rw [hlink] at hrunner
  exact ⟨rfl, rfl, hrunner⟩

section Ends

variable {R R' : Radio} {packet payload response : List UInt8} {sdpcm_header : SdpcmHeader}

theorem update_credit_ioctl_id (runner : Runner) (sdpcm_header : SdpcmHeader) :
    (runner.update_credit sdpcm_header).ioctl_id = runner.ioctl_id := by
  unfold Runner.update_credit
  split <;> rfl

theorem credited_of_parse (h : SdpcmHeader.parse packet = .ok (some (sdpcm_header, payload))) :
    { R with runner := R.runner.update_credit sdpcm_header } = R.credited packet := by
  simp only [Radio.credited, Runner.credited, h]

theorem credited_ioctl_id (R : Radio) (packet : List UInt8) :
    (R.credited packet).runner.ioctl_id = R.runner.ioctl_id := by
  simp only [Radio.credited, Runner.credited]
  split
  · exact update_credit_ioctl_id _ _
  · rfl

theorem credited_flags (R : Radio) (packet : List UInt8) :
    (R.credited packet).runner.join_ok = R.runner.join_ok
      ∧ (R.credited packet).runner.auth_ok = R.runner.auth_ok
      ∧ (R.credited packet).runner.key_exchange_ok = R.runner.key_exchange_ok := by
  simp only [Radio.credited, Runner.credited]
  split
  · unfold Runner.update_credit
    split <;> exact ⟨rfl, rfl, rfl⟩
  · exact ⟨rfl, rfl, rfl⟩

theorem rx_control_received (hchannel : OnChannel CHANNEL_TYPE_CONTROL packet sdpcm_header payload)
    (h : (R.credited packet).rx_control sdpcm_header.header_length.toNat payload = .ok R') :
    Received R packet R' := by
  unfold Radio.rx_control at h
  cases hcdc : CdcHeader.parse sdpcm_header.header_length.toNat payload with
  | error halt =>
    rw [hcdc] at h
    cases h
  | ok parsed =>
    rw [hcdc] at h
    rcases parsed with _ | ⟨cdc_header, response⟩
    · cases h
      exact .ignored
    · simp only [bind, Except.bind] at h
      by_cases hid : cdc_header.id = (R.credited packet).runner.ioctl_id
      · rw [if_pos hid] at h
        by_cases hstatus : cdc_header.status ≠ 0
        · rw [if_pos hstatus] at h
          cases h
        · rw [if_neg hstatus] at h
          -- the ID is the last one, whatever the credit
          have hlast := hid.trans (credited_ioctl_id R packet)
          have hresponse : Response packet R.runner.ioctl_id response :=
            ⟨sdpcm_header, payload, cdc_header, hchannel, hcdc, hlast, not_not.mp hstatus⟩
          unfold IoctlState.ioctl_done at h
          cases hstate : R.state.ioctl_state with
          | pending ioctl =>
            simp only [Radio.credited, hstate] at h
            cases h
            exact hstate ▸ .ignored
          | done resp_len =>
            simp only [Radio.credited, hstate] at h
            cases h
            exact hstate ▸ .ignored
          | sent buf =>
            simp only [Radio.credited, hstate] at h
            cases hdata : R.heap buf with
            | none =>
              simp only [hdata] at h
              cases h
            | some data =>
              simp only [hdata] at h
              by_cases hlen : data.length < response.length
              · rw [if_pos hlen] at h
                cases h
              · rw [if_neg hlen] at h
                cases h
                exact .response hresponse hstate hdata (Nat.not_lt.mp hlen)
      · rw [if_neg hid] at h
        cases h
        exact .ignored

theorem rx_event_received (hchannel : OnChannel CHANNEL_TYPE_EVENT packet sdpcm_header payload)
    (h : (R.credited packet).rx_event sdpcm_header.header_length.toNat payload = .ok R') :
    Received R packet R' := by
  unfold Radio.rx_event at h
  cases hbdc : BdcHeader.parse payload with
  | none =>
    rw [hbdc] at h
    cases h
    exact .ignored
  | some parsed =>
    obtain ⟨bdc_header, bdc_packet⟩ := parsed
    simp only [hbdc] at h
    cases hevent : EventPacket.parse
        (sdpcm_header.header_length.toNat + BdcHeader.SIZE + 4 * bdc_header.data_offset.toNat)
        bdc_packet with
    | error halt =>
      rw [hevent] at h
      cases h
    | ok parsed =>
      rw [hevent] at h
      rcases parsed with _ | event_packet
      · cases h
        exact .ignored
      · simp only [bind, Except.bind] at h
        by_cases htype : event_packet.ether_type ≠ ETH_P_LINK_CTL
        · rw [if_pos htype] at h
          cases h
          exact .ignored
        rw [if_neg htype] at h
        by_cases houi : event_packet.oui ≠ BROADCOM_OUI
        · rw [if_pos houi] at h
          cases h
          exact .ignored
        rw [if_neg houi] at h
        by_cases hsubtype : event_packet.subtype ≠ BCMILCP_SUBTYPE_VENDOR_LONG
        · rw [if_pos hsubtype] at h
          cases h
          exact .ignored
        rw [if_neg hsubtype] at h
        by_cases huser : event_packet.user_subtype ≠ BCMILCP_BCM_SUBTYPE_EVENT
        · rw [if_pos huser] at h
          cases h
          exact .ignored
        rw [if_neg huser] at h
        exact .event ⟨sdpcm_header, payload, bdc_header, bdc_packet, hchannel, hbdc, hevent,
          not_not.mp htype, not_not.mp houi, not_not.mp hsubtype, not_not.mp huser⟩ h

theorem rx_data_received (h : (R.credited packet).rx_data payload = .ok R') : Received R packet R' := by
  unfold Radio.rx_data at h
  cases hbdc : BdcHeader.parse payload with
  | none =>
    rw [hbdc] at h
    cases h
    exact .ignored
  | some parsed =>
    simp only [hbdc] at h
    by_cases hroom : (R.credited packet).state.ch.rx.length < 4
    · rw [if_pos hroom] at h
      by_cases hlong : MTU < parsed.2.length
      · rw [if_pos hlong] at h
        cases h
      · rw [if_neg hlong] at h
        cases h
        exact .data parsed.2
    · rw [if_neg hroom] at h
      cases h
      exact .ignored

/-- What `rx` does. -/
theorem rx_received (h : R.rx packet = .ok R') : Received R packet R' := by
  unfold Radio.rx at h
  cases hparse : SdpcmHeader.parse packet with
  | error halt =>
    rw [hparse] at h
    cases h
  | ok parsed =>
    rw [hparse] at h
    rcases parsed with _ | ⟨sdpcm_header, payload⟩
    · cases h
      have hcredited : R.credited packet = R := by simp only [Radio.credited, Runner.credited, hparse]
      have hignored : Received R packet (R.credited packet) := .ignored
      rwa [hcredited] at hignored
    · simp only [bind, Except.bind] at h
      rw [credited_of_parse hparse] at h
      by_cases hcontrol : sdpcm_header.channel_and_flags &&& 0x0f = CHANNEL_TYPE_CONTROL
      · rw [if_pos hcontrol] at h
        exact rx_control_received ⟨hparse, hcontrol⟩ h
      rw [if_neg hcontrol] at h
      by_cases hevent : sdpcm_header.channel_and_flags &&& 0x0f = CHANNEL_TYPE_EVENT
      · rw [if_pos hevent] at h
        exact rx_event_received ⟨hparse, hevent⟩ h
      rw [if_neg hevent] at h
      by_cases hdata : sdpcm_header.channel_and_flags &&& 0x0f = CHANNEL_TYPE_DATA
      · rw [if_pos hdata] at h
        exact rx_data_received h
      rw [if_neg hdata] at h
      cases h
      exact .ignored

/-- A response to the last ioctl, while it is waited for, is handed over. -/
theorem rx_response {buf : Buf} {data : List UInt8} (hresponse : Response packet R.runner.ioctl_id response)
    (hsent : R.state.ioctl_state = .sent buf) (hdata : R.heap buf = some data)
    (h : R.rx packet = .ok R') : R'.state.ioctl_state = .done response.length := by
  obtain ⟨sdpcm_header, payload, cdc_header, hchannel, hcdc, hid, hstatus⟩ := hresponse
  unfold Radio.rx at h
  rw [hchannel.1] at h
  simp only [bind, Except.bind, hchannel.2] at h
  rw [if_pos trivial, Radio.rx_control, hcdc] at h
  simp only [bind, Except.bind] at h
  rw [if_pos (hid.trans (update_credit_ioctl_id _ _).symm), if_neg (not_not.mpr hstatus)] at h
  simp only [IoctlState.ioctl_done, hsent, hdata] at h
  by_cases hlen : data.length < response.length
  · rw [if_pos hlen] at h
    cases h
  · rw [if_neg hlen] at h
    cases h
    rfl

/-- A packet says one thing. -/
theorem Reports.unique {event_packet event_packet' : EventPacket} (h : Reports packet event_packet)
    (h' : Reports packet event_packet') : event_packet = event_packet' := by
  obtain ⟨sdpcm_header, payload, bdc_header, bdc_packet, hchannel, hbdc, hevent, -⟩ := h
  obtain ⟨sdpcm_header', payload', bdc_header', bdc_packet', hchannel', hbdc', hevent', -⟩ := h'
  have hparse := hchannel'.1
  rw [hchannel.1] at hparse
  cases hparse
  rw [hbdc] at hbdc'
  cases hbdc'
  rw [hevent] at hevent'
  cases hevent'
  rfl

/-- An event is looked at, whatever else there is. -/
theorem rx_reports {event_packet : EventPacket} (h : Reports packet event_packet) :
    R.rx packet = (R.credited packet).event event_packet := by
  obtain ⟨sdpcm_header, payload, bdc_header, bdc_packet, hchannel, hbdc, hevent, htype, houi, hsubtype,
    huser⟩ := h
  unfold Radio.rx
  rw [hchannel.1]
  simp only [bind, Except.bind, hchannel.2]
  rw [credited_of_parse hchannel.1, if_neg (by decide), if_pos trivial]
  unfold Radio.rx_event
  simp only [hbdc, hevent, bind, Except.bind]
  rw [if_neg (not_not.mpr htype), if_neg (not_not.mpr houi), if_neg (not_not.mpr hsubtype),
    if_neg (not_not.mpr huser)]

end Ends

/-! ## What stops it -/

section Halts

variable {R : Radio} {addr : ℕ} {packet payload : List UInt8} {halt : Halt}

theorem SdpcmHeader.parse_error (h : SdpcmHeader.parse packet = .error halt) : halt = .panic := by
  unfold SdpcmHeader.parse at h
  simp only at h
  split_ifs at h
  · cases h
    rfl
  · cases h
    rfl

theorem CdcHeader.parse_error (h : CdcHeader.parse addr packet = .error halt) : halt = .panic := by
  unfold CdcHeader.parse at h
  simp only at h
  split_ifs at h
  · cases h
    rfl
  · cases h
    rfl

theorem EventPacket.parse_error (h : EventPacket.parse addr packet = .error halt) : halt = .panic := by
  unfold EventPacket.parse at h
  simp only at h
  split_ifs at h
  cases h
  rfl

theorem EventMask.is_enabled_error {mask : EventMask} {event : Event}
    (h : mask.is_enabled event = .error halt) : halt = .panic := by
  unfold EventMask.is_enabled EventMask.position at h
  by_cases hcode : event.code / 32 < 6
  · simp only [hcode, bind, Except.bind] at h
    cases h
  · simp only [hcode, bind, Except.bind] at h
    cases h
    rfl

theorem rx_control_error (h : R.rx_control addr payload = .error halt) :
    halt = .panic ∨ ∃ buf, R.state.ioctl_state = .sent buf ∧ R.heap buf = none := by
  unfold Radio.rx_control at h
  cases hcdc : CdcHeader.parse addr payload with
  | error halt' =>
    rw [hcdc] at h
    cases h
    exact .inl (CdcHeader.parse_error hcdc)
  | ok parsed =>
    rw [hcdc] at h
    rcases parsed with _ | ⟨cdc_header, response⟩
    · cases h
    · simp only [bind, Except.bind] at h
      by_cases hid : cdc_header.id = R.runner.ioctl_id
      · rw [if_pos hid] at h
        by_cases hstatus : cdc_header.status ≠ 0
        · rw [if_pos hstatus] at h
          cases h
          exact .inl rfl
        · rw [if_neg hstatus] at h
          unfold IoctlState.ioctl_done at h
          cases hstate : R.state.ioctl_state with
          | pending ioctl =>
            simp only [hstate] at h
            cases h
          | done resp_len =>
            simp only [hstate] at h
            cases h
          | sent buf =>
            cases hdata : R.heap buf with
            | none => exact .inr ⟨buf, rfl, hdata⟩
            | some data =>
              simp only [hstate, hdata] at h
              by_cases hlen : data.length < response.length
              · rw [if_pos hlen] at h
                cases h
                exact .inl rfl
              · rw [if_neg hlen] at h
                cases h
      · rw [if_neg hid] at h
        cases h

theorem event_error {event_packet : EventPacket} (h : R.event event_packet = .error halt) :
    halt = .panic := by
  unfold Radio.event at h
  cases hmask : R.state.mask.is_enabled (.from event_packet.event_type.toUInt8) with
  | error halt' =>
    simp only [hmask, bind, Except.bind] at h
    cases h
    exact EventMask.is_enabled_error hmask
  | ok enabled =>
    simp only [hmask, bind, Except.bind] at h
    cases h

theorem rx_event_error (h : R.rx_event addr payload = .error halt) : halt = .panic := by
  unfold Radio.rx_event at h
  cases hbdc : BdcHeader.parse payload with
  | none =>
    rw [hbdc] at h
    cases h
  | some parsed =>
    obtain ⟨bdc_header, bdc_packet⟩ := parsed
    simp only [hbdc] at h
    cases hevent : EventPacket.parse (addr + BdcHeader.SIZE + 4 * bdc_header.data_offset.toNat)
        bdc_packet with
    | error halt' =>
      rw [hevent] at h
      cases h
      exact EventPacket.parse_error hevent
    | ok parsed =>
      rw [hevent] at h
      rcases parsed with _ | event_packet
      · cases h
      · simp only [bind, Except.bind] at h
        -- in every case but the last, the packet is ignored
        split_ifs at h <;> first | exact event_error h | cases h

theorem rx_data_error (h : R.rx_data payload = .error halt) : halt = .panic := by
  unfold Radio.rx_data at h
  cases hbdc : BdcHeader.parse payload with
  | none =>
    rw [hbdc] at h
    cases h
  | some parsed =>
    simp only [hbdc] at h
    split_ifs at h
    cases h
    rfl

/-- A packet stops the driver with a panic, unless there is a pointer to a buffer that is gone. -/
theorem rx_error (h : R.rx packet = .error halt) :
    halt = .panic ∨ ∃ buf, R.state.ioctl_state = .sent buf ∧ R.heap buf = none := by
  unfold Radio.rx at h
  cases hparse : SdpcmHeader.parse packet with
  | error halt' =>
    rw [hparse] at h
    cases h
    exact .inl (SdpcmHeader.parse_error hparse)
  | ok parsed =>
    rw [hparse] at h
    rcases parsed with _ | ⟨sdpcm_header, payload⟩
    · cases h
    · simp only [bind, Except.bind] at h
      rw [credited_of_parse hparse] at h
      split_ifs at h with hcontrol hevent hdata
      · have hcontrol' := rx_control_error h
        exact hcontrol'
      · exact .inl (rx_event_error h)
      · exact .inl (rx_data_error h)
      · cases h

end Halts

end PicoDataLogger.Cyw43
