/-
When the link is up.

The network stack is told that the link is up or down by the events of the chip's
firmware, and what it is told depends on the order they come in: a network is joined
until the link goes down, a key exchange counts if the last word on
authentication was good, and fails if it is said to have failed. The flags of the
runner are these histories, one by one, and the link is what they were at the last
event that had the runner look at them.
-/
import PicoDataLogger.Since
import PicoDataLogger.Cyw43.Received

set_option autoImplicit false

namespace PicoDataLogger.Cyw43

/-! ## What the events mean -/

/-- The event, with its status. -/
def EventPacket.is (event_packet : EventPacket) (event_type : Event) (status : EStatus) : Prop :=
  Event.from event_packet.event_type.toUInt8 = event_type
    ∧ EStatus.from event_packet.status.toUInt8 = status

/-- The link is lost: the signal, a deauthentication, or a failure that only WPA3 has. -/
def LinkLost (event_packet : EventPacket) : Prop :=
  event_packet.is .LINK .SUCCESS ∧ event_packet.flags = 0 ∨ event_packet.is .DEAUTH .SUCCESS
    ∨ event_packet.is .AUTH .FAIL ∧ event_packet.reason = 16 ∧ event_packet.auth_type = 3

/-- A word on the authentication that was asked for. -/
def AuthResult (event_packet : EventPacket) : Prop :=
  Event.from event_packet.event_type.toUInt8 = .AUTH
    ∧ EStatus.from event_packet.status.toUInt8 ≠ .UNSOLICITED

def KeyExchanged (event_packet : EventPacket) : Prop :=
  event_packet.is .PSK_SUP .UNSOLICITED ∧ event_packet.flags = 0 ∧ event_packet.reason = 0

/-- Reason 14 is roaming, and no failure. -/
def KeyFailed (event_packet : EventPacket) : Prop :=
  Event.from event_packet.event_type.toUInt8 = .PSK_SUP ∧ ¬ KeyExchanged event_packet
    ∧ event_packet.reason ≠ 14

/-- The runner reads such an event. -/
def Reported (p : EventPacket → Prop) (e : DriverEvent) : Prop :=
  ∃ packet event_packet, e = .received packet ∧ Reports packet event_packet ∧ p event_packet

def Authenticated : List DriverEvent → Prop :=
  Since (fun _ e => Reported (·.is .AUTH .SUCCESS) e)
    fun _ e => Reported (fun event_packet => LinkLost event_packet ∨ AuthResult event_packet) e

def Joined : List DriverEvent → Prop :=
  Since (fun _ e => Reported (·.is .JOIN .SUCCESS) e) fun _ e => Reported LinkLost e

def Keyed : List DriverEvent → Prop :=
  Since (fun history e => Reported KeyExchanged e ∧ Authenticated history)
    fun _ e => Reported (fun event_packet => LinkLost event_packet ∨ KeyFailed event_packet) e

/-- `Control` said that the network is to be a secure one. -/
def Secured : List DriverEvent → Prop :=
  Since (fun _ e => e = .secured true) fun _ e => e = .secured false

/-- The runner looks at the flags. -/
def Looks (history : List DriverEvent) (e : DriverEvent) : Prop :=
  Reported (fun event_packet => LinkLost event_packet ∨ event_packet.is .JOIN .SUCCESS
      ∨ KeyFailed event_packet) e
    ∨ Reported KeyExchanged e ∧ Authenticated history

/-- When it last looked, the network was joined and, if it was to be secure, the keys exchanged. -/
def LinkUp : List DriverEvent → Prop :=
  Since (fun history e => Looks history e ∧ Joined (history ++ [e])
    ∧ (Secured history → Keyed (history ++ [e]))) Looks

/-! ## What an event does to the flags -/

section Events

variable (runner : Runner) (event_packet : EventPacket)

/-- `link_event`, at an event packet. -/
def Runner.at_event : Runner × Bool :=
  runner.link_event (.from event_packet.event_type.toUInt8) (.from event_packet.status.toUInt8)
    event_packet.flags event_packet.reason event_packet.auth_type

theorem at_event_join_ok : (runner.at_event event_packet).1.join_ok = true
    ↔ event_packet.is .JOIN .SUCCESS ∨ (runner.join_ok = true ∧ ¬ LinkLost event_packet) := by
  unfold Runner.at_event Runner.link_event LinkLost EventPacket.is
  generalize Event.from event_packet.event_type.toUInt8 = event_type
  generalize EStatus.from event_packet.status.toUInt8 = status
  split_ifs <;> grind

theorem at_event_auth_ok : (runner.at_event event_packet).1.auth_ok = true
    ↔ event_packet.is .AUTH .SUCCESS
      ∨ (runner.auth_ok = true ∧ ¬ (LinkLost event_packet ∨ AuthResult event_packet)) := by
  unfold Runner.at_event Runner.link_event LinkLost AuthResult EventPacket.is
  generalize Event.from event_packet.event_type.toUInt8 = event_type
  generalize EStatus.from event_packet.status.toUInt8 = status
  split_ifs <;> grind

theorem at_event_key_exchange_ok : (runner.at_event event_packet).1.key_exchange_ok = true
    ↔ KeyExchanged event_packet ∧ runner.auth_ok = true
      ∨ (runner.key_exchange_ok = true ∧ ¬ (LinkLost event_packet ∨ KeyFailed event_packet)) := by
  unfold Runner.at_event Runner.link_event LinkLost KeyFailed KeyExchanged EventPacket.is
  generalize Event.from event_packet.event_type.toUInt8 = event_type
  generalize EStatus.from event_packet.status.toUInt8 = status
  split_ifs <;> grind

theorem at_event_looks : (runner.at_event event_packet).2 = true
    ↔ (LinkLost event_packet ∨ event_packet.is .JOIN .SUCCESS ∨ KeyFailed event_packet)
      ∨ KeyExchanged event_packet ∧ runner.auth_ok = true := by
  unfold Runner.at_event Runner.link_event LinkLost KeyFailed KeyExchanged EventPacket.is
  generalize Event.from event_packet.event_type.toUInt8 = event_type
  generalize EStatus.from event_packet.status.toUInt8 = status
  split_ifs <;> grind

end Events

/-! ## Turns -/

section Turns

variable {history : List DriverEvent} {D D' : Driver} {e : DriverEvent} {packet : List UInt8}
  {event_packet : EventPacket} {p : EventPacket → Prop}

theorem reported_received (h : Reports packet event_packet) :
    Reported p (.received packet) ↔ p event_packet := by
  constructor
  · rintro ⟨packet', event_packet', he, h', hp⟩
    cases he
    exact h.unique h' ▸ hp
  · intro hp
    exact ⟨packet, event_packet, rfl, h, hp⟩

/-- The flags are the histories. -/
structure Flags (history : List DriverEvent) (D : Driver) : Prop where
  join_ok : D.radio.runner.join_ok = true ↔ Joined history
  auth_ok : D.radio.runner.auth_ok = true ↔ Authenticated history
  key_exchange_ok : D.radio.runner.key_exchange_ok = true ↔ Keyed history
  secure_network : D.radio.state.secure_network = true ↔ Secured history
  link_state : D.radio.state.ch.link_state = .up ↔ LinkUp history

/-- A turn with nothing in it for the link. -/
theorem Flags.aside (h : Flags history D) (hreported : ∀ p, ¬ Reported p e)
    (hjoin : D'.radio.runner.join_ok = D.radio.runner.join_ok)
    (hauth : D'.radio.runner.auth_ok = D.radio.runner.auth_ok)
    (hkey : D'.radio.runner.key_exchange_ok = D.radio.runner.key_exchange_ok)
    (hsecure : D'.radio.state.secure_network = true ↔ Secured (history ++ [e]))
    (hlink : D'.radio.state.ch.link_state = D.radio.state.ch.link_state) :
    Flags (history ++ [e]) D' := by
  have hlooks : ¬ Looks history e := by
    rintro (hlook | hlook)
    · exact hreported _ hlook
    · exact hreported _ hlook.1
  constructor
  · rw [hjoin, h.join_ok]
    exact (Since.snoc_aside (hreported _) (hreported _)).symm
  · rw [hauth, h.auth_ok]
    exact (Since.snoc_aside (hreported _) (hreported _)).symm
  · rw [hkey, h.key_exchange_ok]
    exact (Since.snoc_aside (fun hset => hreported _ hset.1) (hreported _)).symm
  · exact hsecure
  · rw [hlink, h.link_state]
    exact (Since.snoc_aside (fun hset => hlooks hset.1) hlooks).symm

/-- Nor for the security of the network. -/
theorem Flags.secure_aside (h : Flags history D) (hsecured : ∀ secure_network, e ≠ .secured secure_network)
    (hsecure : D'.radio.state.secure_network = D.radio.state.secure_network) :
    D'.radio.state.secure_network = true ↔ Secured (history ++ [e]) := by
  rw [hsecure, h.secure_network]
  exact (Since.snoc_aside (hsecured true) (hsecured false)).symm

/-- A packet with an event. -/
theorem Flags.event (h : Flags history D) (hreports : Reports packet event_packet)
    {radio : Radio} {buf8 : Vector UInt8 BUF_SIZE} (hrx : D.radio.rx packet = .ok radio) :
    Flags (history ++ [.received packet]) { D with radio, buf8 } := by
  rw [rx_reports hreports] at hrx
  obtain ⟨queue, runner, update_link_status, hlink, rfl⟩ := event_ok hrx
  obtain ⟨hjoin', hauth', hkey'⟩ : (D.radio.credited packet).runner.join_ok = D.radio.runner.join_ok
      ∧ (D.radio.credited packet).runner.auth_ok = D.radio.runner.auth_ok
      ∧ (D.radio.credited packet).runner.key_exchange_ok = D.radio.runner.key_exchange_ok :=
    credited_flags D.radio packet
  have hrunner : runner = ((D.radio.credited packet).runner.at_event event_packet).1 := by
    rw [Runner.at_event, hlink]
  have hlooks : update_link_status = ((D.radio.credited packet).runner.at_event event_packet).2 := by
    rw [Runner.at_event, hlink]
  have hjoin : runner.join_ok = true ↔ Joined (history ++ [.received packet]) := by
    rw [hrunner, at_event_join_ok, hjoin', h.join_ok, Joined, Since.snoc, reported_received hreports,
      reported_received hreports]
  have hauth : runner.auth_ok = true ↔ Authenticated (history ++ [.received packet]) := by
    rw [hrunner, at_event_auth_ok, hauth', h.auth_ok, Authenticated, Since.snoc,
      reported_received hreports, reported_received hreports]
  have hkey : runner.key_exchange_ok = true ↔ Keyed (history ++ [.received packet]) := by
    rw [hrunner, at_event_key_exchange_ok, hauth', hkey', h.auth_ok, h.key_exchange_ok, Keyed, Since.snoc,
      reported_received hreports, reported_received hreports]
  have hlook : update_link_status = true ↔ Looks history (.received packet) := by
    rw [hlooks, at_event_looks, hauth', h.auth_ok, Looks, reported_received hreports,
      reported_received hreports]
  refine ⟨hjoin, hauth, hkey, h.secure_aside nofun rfl, ?_⟩
  rw [LinkUp, Since.snoc]
  by_cases hupdate : update_link_status = true
  · -- the runner looks, and the link is what the flags are
    have hup : runner.link_state D.radio.state.secure_network = .up
        ↔ Joined (history ++ [.received packet])
          ∧ (Secured history → Keyed (history ++ [.received packet])) := by
      rw [← hjoin, ← hkey, ← h.secure_network, Runner.link_state]
      grind
    simp only [hupdate, if_true]
    rw [or_iff_left (fun hsince => hsince.2 (hlook.mp hupdate)), and_iff_right (hlook.mp hupdate)]
    exact hup
  · have hnot : ¬ Looks history (.received packet) := fun hl => hupdate (hlook.mpr hl)
    simp only [hupdate]
    rw [or_iff_right (fun hset => hnot hset.1), and_iff_left hnot]
    exact h.link_state

/-- A packet without one. -/
theorem Flags.no_event (h : Flags history D) (hreports : ∀ event_packet, ¬ Reports packet event_packet)
    {radio : Radio} {buf8 : Vector UInt8 BUF_SIZE} (hrx : D.radio.rx packet = .ok radio) :
    Flags (history ++ [.received packet]) { D with radio, buf8 } := by
  have hreported : ∀ p, ¬ Reported p (.received packet) := by
    rintro p ⟨packet', event_packet, he, hpacket, -⟩
    cases he
    exact hreports event_packet hpacket
  obtain ⟨hjoin, hauth, hkey⟩ := credited_flags D.radio packet
  rcases rx_received hrx with _ | ⟨-, -, -, -⟩ | ⟨hreported', -⟩ | ⟨frame⟩
  · exact h.aside hreported hjoin hauth hkey (h.secure_aside nofun rfl) rfl
  · exact h.aside hreported hjoin hauth hkey (h.secure_aside nofun rfl) rfl
  · exact (hreports _ hreported').elim
  · exact h.aside hreported hjoin hauth hkey (h.secure_aside nofun rfl) rfl

/-- A turn that reads no packet and leaves the link alone. -/
theorem Flags.other (h : Flags history D) (hreceived : ∀ packet, e ≠ .received packet)
    (hsecured : ∀ secure_network, e ≠ .secured secure_network)
    (hjoin : D'.radio.runner.join_ok = D.radio.runner.join_ok)
    (hauth : D'.radio.runner.auth_ok = D.radio.runner.auth_ok)
    (hkey : D'.radio.runner.key_exchange_ok = D.radio.runner.key_exchange_ok)
    (hsecure : D'.radio.state.secure_network = D.radio.state.secure_network)
    (hlink : D'.radio.state.ch.link_state = D.radio.state.ch.link_state) :
    Flags (history ++ [e]) D' := by
  refine h.aside ?_ hjoin hauth hkey (h.secure_aside hsecured hsecure) hlink
  rintro p ⟨packet, event_packet, he, -⟩
  exact hreceived packet he

/-- One turn keeps the flags. -/
theorem Flags.turn (h : Flags history D) (hturn : Turn D (.ok (e, D'))) : Flags (history ++ [e]) D' := by
  cases hturn with
  | ioctl => exact h.other nofun nofun rfl rfl rfl rfl rfl
  | returns => exact h.other nofun nofun rfl rfl rfl rfl rfl
  | drops => exact h.other nofun nofun rfl rfl rfl rfl rfl
  | send_ioctl hchecking hcredit hpending hsend =>
    obtain ⟨data, buf8, frame, -, rfl, -, rfl⟩ := Driver.send_ioctl_ok hsend
    exact h.other nofun nofun rfl rfl rfl rfl rfl
  | send_packet packet hmtu hchecking hcredit hpending hsend =>
    obtain ⟨buf8, frame, rfl, -, rfl⟩ := Driver.send_packet_ok hsend
    exact h.other nofun nofun rfl rfl rfl rfl rfl
  | receive packet buf8 hchecking hlen hreceive =>
    obtain ⟨radio, hrx, rfl, rfl⟩ := Driver.receive_ok hreceive
    by_cases hreports : ∃ event_packet, Reports packet event_packet
    · obtain ⟨event_packet, hreports⟩ := hreports
      exact h.event hreports hrx
    · exact h.no_event (fun event_packet hpacket => hreports ⟨event_packet, hpacket⟩) hrx
  | interrupt => exact h.other nofun nofun rfl rfl rfl rfl rfl
  | no_packet => exact h.other nofun nofun rfl rfl rfl rfl rfl
  | share => exact h.other nofun nofun rfl rfl rfl rfl rfl
  | secure secure_network =>
    refine h.aside ?_ rfl rfl rfl ?_ rfl
    · rintro p ⟨packet, event_packet, he, -⟩
      cases he
    · rw [Secured, Since.snoc]
      cases secure_network <;> simp

end Turns

/-! ## Runs -/

section Runs

variable {history : List DriverEvent} {D : Driver}

theorem flags_of_run (hrun : DriverRun history D) : Flags history D := by
  induction hrun with
  | new =>
    constructor
    · exact ⟨nofun, fun h => (Since.not_nil h).elim⟩
    · exact ⟨nofun, fun h => (Since.not_nil h).elim⟩
    · exact ⟨nofun, fun h => (Since.not_nil h).elim⟩
    · exact ⟨nofun, fun h => (Since.not_nil h).elim⟩
    · exact ⟨nofun, fun h => (Since.not_nil h).elim⟩
  | turn hrun hturn ih => exact ih.turn hturn

/-- A link that is up is joined still. -/
theorem LinkUp.joined (h : LinkUp history) : Joined history := by
  induction h with
  | now hset => exact hset.2.1
  | still hsince hlooks ih =>
    refine .still ih fun hlost => hlooks (.inl ?_)
    obtain ⟨packet, event_packet, he, hreports, hlost⟩ := hlost
    exact ⟨packet, event_packet, he, hreports, .inl hlost⟩

/-- If the network was always to be secure while it was joined, the keys are exchanged still. -/
theorem LinkUp.keyed (h : LinkUp history)
    (hsecured : ∀ before after, history = before ++ after → Joined before → Secured before) :
    Keyed history := by
  induction h with
  | @now before e hset =>
    obtain ⟨hlooks, hjoined, hkeyed⟩ := hset
    -- an event does not change what the network is to be
    have hsecured' := hsecured (before ++ [e]) [] (by simp) hjoined
    rcases Since.snoc.mp hsecured' with he | ⟨hbefore, -⟩
    · rcases hlooks with ⟨packet, event_packet, he', -⟩ | ⟨⟨packet, event_packet, he', -⟩, -⟩
      · rw [he] at he'
        cases he'
      · rw [he] at he'
        cases he'
    · exact hkeyed hbefore
  | @still before e hsince hlooks ih =>
    refine .still (ih fun before' after hsplit => hsecured before' (after ++ [e]) (by rw [hsplit]; simp))
      fun hfailed => hlooks (.inl ?_)
    obtain ⟨packet, event_packet, he, hreports, hlost | hfailed⟩ := hfailed
    · exact ⟨packet, event_packet, he, hreports, .inl hlost⟩
    · exact ⟨packet, event_packet, he, hreports, .inr (.inr hfailed)⟩

/-- **The link.** In every run the link is up if and only if, at the last event that had the runner
look, the network was joined and, unless it was to be an open one, the keys had been
exchanged. So the link of a network that is to be secure is never up on a join alone: there
was a good key exchange while the last word on authentication was good, and since then the
link was not lost and no key exchange failed. -/
theorem link_state_of_run (hrun : DriverRun history D) :
    (D.radio.state.ch.link_state = .up ↔ LinkUp history)
      ∧ ((∀ before after, history = before ++ after → Joined before → Secured before) →
        D.radio.state.ch.link_state = .up → Joined history ∧ Keyed history) := by
  have h := (flags_of_run hrun).link_state
  refine ⟨h, ?_⟩
  intro hsecured hup
  have hlink := h.mp hup
  exact ⟨hlink.joined, hlink.keyed hsecured⟩

/-- A packet with an event, and nothing else in it. -/
def event_bytes (event_type status : UInt8) : List UInt8 :=
  [88, 0, 167, 255, 0, 1, 0, 12, 0, 2, 0, 0, 32, 0, 0, 0] ++ List.replicate 12 0
    ++ [0x88, 0x6c, 0x80, 0x01, 0, 0, 0, 0x00, 0x10, 0x18, 0, 1, 0, 0, 0, 0]
    ++ [0, 0, 0, event_type, 0, 0, 0, status] ++ List.replicate 36 0

/-- Said once, and not taken back. -/
theorem secured_cons {rest : List DriverEvent} (h : .secured false ∉ rest) :
    Secured (.secured true :: rest) := by
  induction rest using List.reverseRecOn with
  | nil => exact @Since.now _ _ _ [] _ rfl
  | append_singleton rest e ih =>
    rw [List.mem_append, not_or, List.mem_singleton] at h
    rw [← List.cons_append, Secured, Since.snoc]
    exact .inr ⟨ih h.1, fun he => h.2 he.symm⟩

/-- A secure network is joined: authentication, association, key exchange. -/
theorem link_state_of_run_secure :
    ∃ history D, DriverRun history D ∧ D.radio.state.secure_network = true
      ∧ LinkUp history ∧ Joined history ∧ Keyed history := by
  have hsecure := (DriverRun.new.turn (.secure true)).turn (.interrupt rfl fun _ => rfl)
  have hauth := hsecure.turn (.receive (event_bytes 3 0) Driver.new.buf8 rfl (by decide) rfl)
  have hjoin := hauth.turn (.receive (event_bytes 1 0) Driver.new.buf8 rfl (by decide) rfl)
  have hkey := hjoin.turn (.receive (event_bytes 46 6) Driver.new.buf8 rfl (by decide) rfl)
  obtain ⟨hlink, hkeyed⟩ := link_state_of_run hkey
  refine ⟨_, _, hkey, rfl, hlink.mp rfl, hkeyed ?_ rfl⟩
  intro before after hsplit hjoined
  cases before with
  | nil => exact (Since.not_nil hjoined).elim
  | cons e before =>
    obtain ⟨rfl, hrest⟩ := List.cons.inj hsplit
    refine secured_cons fun hmem => ?_
    have hmem := List.mem_append_left after hmem
    rw [show before ++ after = _ from hrest.symm] at hmem
    simp at hmem

end Runs

end PicoDataLogger.Cyw43
