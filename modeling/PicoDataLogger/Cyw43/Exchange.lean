/-
An ioctl gets the response to itself.

A call may be dropped after its ioctl was sent, and its response arrives when another
call waits. What keeps the two apart is the ID, which is the runner's: a call that is
not sent yet takes no response, and when it is sent the ID of every earlier one is
the last no more. And since a dropped call takes its pointer out of `IoctlState`, no
response is ever copied to a buffer that is gone.
-/
import PicoDataLogger.Cyw43.Received

set_option autoImplicit false

namespace PicoDataLogger.Cyw43

/-! ## The life of a call -/

/-- The events that do not belong to a call. -/
def DriverEvent.aside : DriverEvent → Bool
  | .called .. | .returned .. | .dropped | .ioctl_sent .. => false
  | _ => true

/-- How many ioctls were sent; in sixteen bits, it is the ID of the last one. -/
def ioctls_sent (history : List DriverEvent) : ℕ :=
  history.countP fun e => e matches .ioctl_sent _

/-- The last call was for this ioctl, and nothing has come of it. -/
def Called (history : List DriverEvent) (kind : IoctlType) (cmd : Ioctl) (iface : UInt32)
    (request : List UInt8) : Prop :=
  ∃ before after, history = before ++ .called kind cmd iface request :: after
    ∧ ∀ e ∈ after, e.aside

/-- It was sent under the ID, with the request as it was, and no response came since. -/
def Sent (history : List DriverEvent) (id : UInt16) (request : List UInt8) : Prop :=
  ∃ before frame after sequence kind cmd iface, history = before ++ .ioctl_sent frame :: after
    ∧ Called before kind cmd iface request
    ∧ id = UInt16.ofNat (ioctls_sent before + 1)
    ∧ ControlFrame frame sequence id kind cmd iface request
    ∧ ∀ e ∈ after, e.aside ∧ ∀ packet response, e = .received packet → ¬ Response packet id response

/-- The first response to it is in the buffer. -/
def Answered (history : List DriverEvent) (resp_len : ℕ) (buf : List UInt8) : Prop :=
  ∃ before packet after id request response, history = before ++ .received packet :: after
    ∧ Sent before id request ∧ Response packet id response
    ∧ resp_len = response.length ∧ response.length ≤ request.length
    ∧ buf = response ++ request.drop response.length
    ∧ ∀ e ∈ after, e.aside

section Histories

variable {history : List DriverEvent} {e : DriverEvent} {kind : IoctlType} {cmd : Ioctl} {iface : UInt32}
  {request buf : List UInt8} {id : UInt16} {resp_len : ℕ}

theorem forall_mem_snoc {p : DriverEvent → Prop} {after : List DriverEvent} (h : ∀ e ∈ after, p e)
    (he : p e) : ∀ e' ∈ after ++ [e], p e' := by
  intro e' hmem
  rcases List.mem_append.mp hmem with hmem | hmem
  · exact h e' hmem
  · rwa [List.mem_singleton.mp hmem]

theorem Called.snoc (h : Called history kind cmd iface request) (he : e.aside) :
    Called (history ++ [e]) kind cmd iface request := by
  obtain ⟨before, after, rfl, hafter⟩ := h
  exact ⟨before, after ++ [e], by simp, forall_mem_snoc hafter he⟩

theorem Sent.snoc (h : Sent history id request) (he : e.aside)
    (hresponse : ∀ packet response, e = .received packet → ¬ Response packet id response) :
    Sent (history ++ [e]) id request := by
  obtain ⟨before, frame, after, sequence, kind, cmd, iface, rfl, hcalled, hid, hframe, hafter⟩ := h
  exact ⟨before, frame, after ++ [e], sequence, kind, cmd, iface, by simp, hcalled, hid, hframe,
    forall_mem_snoc hafter ⟨he, hresponse⟩⟩

theorem Answered.snoc (h : Answered history resp_len buf) (he : e.aside) :
    Answered (history ++ [e]) resp_len buf := by
  obtain ⟨before, packet, after, id, request, response, rfl, hsent, hresponse, hlen, hle, hbuf, hafter⟩ := h
  exact ⟨before, packet, after ++ [e], id, request, response, by simp, hsent, hresponse, hlen, hle, hbuf,
    forall_mem_snoc hafter he⟩

theorem ioctls_sent_snoc (history : List DriverEvent) (e : DriverEvent) :
    ioctls_sent (history ++ [e])
      = ioctls_sent history + if e matches .ioctl_sent _ then 1 else 0 := by
  simp [ioctls_sent, List.countP_append, List.countP_singleton]

theorem ioctls_sent_aside (he : e.aside) : ioctls_sent (history ++ [e]) = ioctls_sent history := by
  rw [ioctls_sent_snoc, if_neg, Nat.add_zero]
  rintro h
  split at h
  · simp [DriverEvent.aside] at he
  · cases h

end Histories

/-! ## The invariant -/

/-- What `IoctlState` says about the call, and what the run so far says. -/
def Stage (history : List DriverEvent) (id : UInt16) (heap : Heap) : Option Buf → IoctlState → Prop
  | none, .done _ => True
  | none, _ => False
  | some buf, .pending ioctl =>
    ioctl.buf = buf
      ∧ ∃ request, heap buf = some request ∧ Called history ioctl.kind ioctl.cmd ioctl.iface request
  | some buf, .sent sent => sent = buf ∧ ∃ request, heap buf = some request ∧ Sent history id request
  | some buf, .done resp_len => ∃ data, heap buf = some data ∧ Answered history resp_len data

/-- Holds of every run. -/
structure Exchange (history : List DriverEvent) (D : Driver) : Prop where
  id : D.radio.runner.ioctl_id = UInt16.ofNat (ioctls_sent history)
  stage : Stage history D.radio.runner.ioctl_id D.radio.heap D.call D.radio.state.ioctl_state

section Turns

variable {history : List DriverEvent} {D D' : Driver} {e : DriverEvent}

/-- A turn that does not belong to the call. -/
theorem Exchange.aside (h : Exchange history D) (he : e.aside)
    (hid : D'.radio.runner.ioctl_id = D.radio.runner.ioctl_id) (hheap : D'.radio.heap = D.radio.heap)
    (hcall : D'.call = D.call) (hstate : D'.radio.state.ioctl_state = D.radio.state.ioctl_state)
    (hresponse : ∀ buf packet response, D.radio.state.ioctl_state = .sent buf → e = .received packet →
      ¬ Response packet D.radio.runner.ioctl_id response) : Exchange (history ++ [e]) D' := by
  constructor
  · rw [hid, h.id, ioctls_sent_aside he]
  · have hstage := h.stage
    rw [hid, hheap, hcall, hstate]
    cases hc : D.call with
    | none =>
      cases hs : D.radio.state.ioctl_state <;> rw [hc, hs] at hstage <;> exact hstage
    | some buf =>
      cases hs : D.radio.state.ioctl_state with
      | pending ioctl =>
        rw [hc, hs] at hstage
        obtain ⟨hbuf, request, hrequest, hcalled⟩ := hstage
        exact ⟨hbuf, request, hrequest, hcalled.snoc he⟩
      | sent sent =>
        rw [hc, hs] at hstage
        obtain ⟨hbuf, request, hrequest, hsent⟩ := hstage
        exact ⟨hbuf, request, hrequest, hsent.snoc he fun packet response => hresponse sent packet response hs⟩
      | done resp_len =>
        rw [hc, hs] at hstage
        obtain ⟨data, hdata, hanswered⟩ := hstage
        exact ⟨data, hdata, hanswered.snoc he⟩

/-- While an ioctl is sent, its call waits. -/
theorem Exchange.sent (h : Exchange history D) {buf : Buf} (hs : D.radio.state.ioctl_state = .sent buf) :
    D.call = some buf ∧ ∃ request, D.radio.heap buf = some request
      ∧ Sent history D.radio.runner.ioctl_id request := by
  have hstage := h.stage
  rw [hs] at hstage
  cases hc : D.call with
  | none =>
    rw [hc] at hstage
    exact hstage.elim
  | some buf' =>
    rw [hc] at hstage
    obtain ⟨rfl, hsent⟩ := hstage
    exact ⟨rfl, hsent⟩

/-- While it is pending as well. -/
theorem Exchange.pending (h : Exchange history D) {ioctl : PendingIoctl}
    (hs : D.radio.state.ioctl_state = .pending ioctl) :
    D.call = some ioctl.buf ∧ ∃ request, D.radio.heap ioctl.buf = some request
      ∧ Called history ioctl.kind ioctl.cmd ioctl.iface request := by
  have hstage := h.stage
  rw [hs] at hstage
  cases hc : D.call with
  | none =>
    rw [hc] at hstage
    exact hstage.elim
  | some buf' =>
    rw [hc] at hstage
    obtain ⟨rfl, hcalled⟩ := hstage
    exact ⟨rfl, hcalled⟩

theorem wait_pending_some {state ioctl_state : IoctlState} {ioctl : PendingIoctl}
    (h : state.wait_pending = some (ioctl, ioctl_state)) :
    state = .pending ioctl ∧ ioctl_state = .sent ioctl.buf := by
  unfold IoctlState.wait_pending at h
  split at h
  · cases h
    exact ⟨rfl, rfl⟩
  · cases h

theorem wait_complete_some {state : IoctlState} {resp_len : ℕ} (h : state.wait_complete = some resp_len) :
    state = .done resp_len := by
  unfold IoctlState.wait_complete at h
  split at h
  · cases h
    rfl
  · cases h

/-- A call that returns has its answer. -/
theorem Exchange.answered (h : Exchange history D) {buf : Buf} {resp_len : ℕ} {data : List UInt8}
    (hcall : D.call = some buf) (hcomplete : D.radio.state.ioctl_state.wait_complete = some resp_len)
    (hdata : D.radio.heap buf = some data) : Answered history resp_len data := by
  have hstage := h.stage
  rw [hcall, wait_complete_some hcomplete] at hstage
  obtain ⟨data', hdata', hanswered⟩ := hstage
  rw [hdata] at hdata'
  cases hdata'
  exact hanswered

/-- A pending ioctl is sent. -/
theorem Exchange.send_ioctl (h : Exchange history D) {ioctl : PendingIoctl} {ioctl_state : IoctlState}
    (hpending : D.radio.state.ioctl_state.wait_pending = some (ioctl, ioctl_state))
    (hsend : D.send_ioctl ioctl ioctl_state = .ok (e, D')) : Exchange (history ++ [e]) D' := by
  obtain ⟨hs, rfl⟩ := wait_pending_some hpending
  obtain ⟨hcall, request, hrequest, hcalled⟩ := h.pending hs
  obtain ⟨data, buf8, frame, hdata, rfl, hframe, rfl⟩ := Driver.send_ioctl_ok hsend
  rw [hrequest] at hdata
  cases hdata
  have hid : D.radio.runner.ioctl_id + 1 = UInt16.ofNat (ioctls_sent history + 1) := by
    rw [h.id]
    simp [UInt16.ofNat_add]
  constructor
  · rw [ioctls_sent_snoc]
    exact hid
  · simp only [hcall]
    exact ⟨rfl, request, hrequest, history, frame, [], _, _, _, _, rfl, hcalled, hid, hframe, by simp⟩

/-- A packet is received. -/
theorem Exchange.receive (h : Exchange history D) {packet : List UInt8} {buf8 : Vector UInt8 BUF_SIZE}
    (hreceive : D.receive packet buf8 = .ok (e, D')) : Exchange (history ++ [e]) D' := by
  obtain ⟨radio, hrx, rfl, rfl⟩ := Driver.receive_ok hreceive
  have hcredited := credited_ioctl_id D.radio packet
  -- if the ioctl is still sent, this was not its response
  have hnot : radio.state.ioctl_state = D.radio.state.ioctl_state →
      ∀ buf packet' response, D.radio.state.ioctl_state = .sent buf →
        DriverEvent.received packet = .received packet' →
        ¬ Response packet' D.radio.runner.ioctl_id response := by
    intro hsame buf packet' response hs hpacket hresponse
    cases hpacket
    obtain ⟨-, request, hrequest, -⟩ := h.sent hs
    rw [rx_response hresponse hs hrequest hrx, hs] at hsame
    cases hsame
  rcases rx_received hrx with _ | ⟨hresponse, hs, hdata, hlen⟩ | ⟨hreports, hevent⟩ | ⟨frame⟩
  · exact h.aside rfl hcredited rfl rfl rfl (hnot rfl)
  · obtain ⟨hcall, request, hrequest, hsent⟩ := h.sent hs
    rw [hdata] at hrequest
    cases hrequest
    constructor
    · rw [ioctls_sent_aside rfl]
      exact hcredited.trans h.id
    · simp only [hcall]
      exact ⟨_, Function.update_self .., history, packet, [], _, _, _, rfl, hsent, hresponse, rfl, hlen,
        rfl, by simp⟩
  · obtain ⟨hstate, hheap, auth_ok, join_ok, key_exchange_ok, hrunner⟩ := event_frame hevent
    have hid : radio.runner.ioctl_id = D.radio.runner.ioctl_id := by
      rw [hrunner]
      exact hcredited
    exact h.aside rfl hid hheap rfl hstate (hnot hstate)
  · exact h.aside rfl hcredited rfl rfl rfl (hnot rfl)

/-- One turn keeps the invariant. -/
theorem Exchange.turn (h : Exchange history D) (hturn : Turn D (.ok (e, D'))) :
    Exchange (history ++ [e]) D' := by
  cases hturn with
  | ioctl kind cmd iface request hcall =>
    constructor
    · rw [ioctls_sent_snoc]
      exact h.id
    · exact ⟨rfl, request, Function.update_self .., history, [], rfl, by simp⟩
  | returns hcall hcomplete hdata =>
    constructor
    · rw [ioctls_sent_snoc]
      exact h.id
    · simp only [Driver.returns, wait_complete_some hcomplete]
      exact trivial
  | drops hcall =>
    constructor
    · rw [ioctls_sent_snoc]
      exact h.id
    · exact trivial
  | send_ioctl hchecking hcredit hpending hsend => exact h.send_ioctl hpending hsend
  | send_packet packet hmtu hchecking hcredit hpending hsend =>
    obtain ⟨buf8, frame, rfl, -, rfl⟩ := Driver.send_packet_ok hsend
    exact h.aside rfl rfl rfl rfl rfl (by simp)
  | receive packet buf8 hchecking hlen hreceive => exact h.receive hreceive
  | interrupt hchecking hpending => exact h.aside rfl rfl rfl rfl rfl (by simp)
  | no_packet hchecking => exact h.aside rfl rfl rfl rfl rfl (by simp)
  | secure secure_network => exact h.aside rfl rfl rfl rfl rfl (by simp)
  | share mask queue rx => exact h.aside rfl rfl rfl rfl rfl (by simp)

end Turns

/-! ## Runs -/

section Runs

variable {history : List DriverEvent} {D D' : Driver} {resp_len : ℕ} {buf : List UInt8}

theorem exchange_of_run (hrun : DriverRun history D) : Exchange history D := by
  induction hrun with
  | new => exact ⟨rfl, trivial⟩
  | turn hrun hturn ih => exact ih.turn hturn

/-- **The exchange.** However the calls, the drops, the frames and the packets come, what a call
of `ioctl` returns is the response to its own ioctl: the runner sent this call's command
and request after the call, under an ID that no later ioctl has had since, and the
first packet with that ID that came after it is what is in the buffer. -/
theorem response_of_own_ioctl (hrun : DriverRun history D)
    (hturn : Turn D (.ok (.returned resp_len buf, D'))) : Answered history resp_len buf := by
  have h := exchange_of_run hrun
  cases hturn with
  | returns hcall hcomplete hdata => exact h.answered hcall hcomplete hdata
  | send_ioctl hchecking hcredit hpending hsend =>
    obtain ⟨data, buf8, frame, -, he, -⟩ := Driver.send_ioctl_ok hsend
    cases he
  | send_packet packet hmtu hchecking hcredit hpending hsend =>
    obtain ⟨buf8, frame, he, -⟩ := Driver.send_packet_ok hsend
    cases he
  | receive packet buf8 hchecking hlen hreceive =>
    obtain ⟨radio, -, he, -⟩ := Driver.receive_ok hreceive
    cases he

/-- The firmware says that `WLC_UP` is done. -/
def up_response : List UInt8 :=
  [28, 0, 227, 255, 0, 0, 0, 12, 0, 2, 0, 0, 2, 0, 0, 0, 0, 0, 0, 0, 2, 0, 1, 0, 0, 0, 0, 0]

/-- And that a variable has the value 7. -/
def var_response : List UInt8 :=
  [32, 0, 223, 255, 1, 0, 0, 12, 0, 3, 0, 0, 6, 1, 0, 0, 4, 0, 0, 0, 0, 0, 2, 0, 0, 0, 0, 0, 7, 0, 0, 0]

/-- `Control::up` is dropped after its ioctl was sent, and its response comes when the next ioctl
has been sent: what that call returns is its own. -/
theorem response_of_own_ioctl_late :
    ∃ history D D', DriverRun history D ∧ .dropped ∈ history ∧ .received up_response ∈ history
      ∧ Turn D (.ok (.returned 4 [7, 0, 0, 0], D')) ∧ Answered history 4 [7, 0, 0, 0] := by
  have hdropped := ((DriverRun.new.turn (.ioctl .Set .Up 0 [] rfl)).turn
    (.send_ioctl rfl rfl rfl rfl)).turn (.drops rfl)
  have hcredited := (hdropped.turn (.receive [12, 0, 243, 255, 0, 2, 0, 12, 0, 3, 0, 0]
    Driver.new.buf8 rfl (by decide) rfl)).turn (.no_packet rfl)
  have hsent := (hcredited.turn (.ioctl .Get .GetVar 0 [0, 0, 0, 0] rfl)).turn
    (.send_ioctl rfl rfl rfl rfl)
  have hlate := hsent.turn (.receive up_response Driver.new.buf8 rfl (by decide) rfl)
  have hreceived := hlate.turn (.receive var_response Driver.new.buf8 rfl (by decide) rfl)
  exact ⟨_, _, _, hreceived, by simp, by simp, .returns rfl rfl rfl,
    response_of_own_ioctl hreceived (.returns rfl rfl rfl)⟩

end Runs

end PicoDataLogger.Cyw43
