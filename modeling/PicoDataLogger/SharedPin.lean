/-
The pin that the bus and the voltage share.

GPIO29 is the clock of the radio's SPI bus and the input of the voltage. `sample`
makes it analog, converts, and writes the value that it had read back to the pad; nothing
in between waits. So whatever the order of the turns, and wherever a future is
dropped, a transfer finds the clock on the pin, and a conversion finds it analog. A
request is served at most once.
-/
import PicoDataLogger.FreshVoltage

set_option autoImplicit false

namespace PicoDataLogger.Voltage

open Interaction Cooperative

/-! ## Every part of a turn -/

/-- What is to be shown of the parts of a turn of the bus. -/
structure TurnRule (Φ : Shared → List (Answer Prim Prim.Reply) → Shared → Prop) : Prop where
  nil : ∀ w, Φ w [] w
  append : ∀ {w w₁ w' es es'}, Φ w es w₁ → Φ w₁ es' w' → Φ w (es ++ es') w'
  /-- There is no request before a transfer. -/
  skip : ∀ {w}, w.REQUEST = none → Φ w [⟨.request_try_take, none⟩] w
  /-- A request is taken, one way or the other, and served. -/
  serve : ∀ {w e voltage conversions}, w.REQUEST = some () →
    e = ⟨.request_try_take, some ()⟩ ∨ e = ⟨.select_event_request, .inr ()⟩ →
    Converted voltage conversions →
    Φ w (e :: sample_events w.pad voltage conversions)
      { w with REQUEST := none, RESPONSE := some voltage }
  cmd_write : ∀ {w write r}, Φ w [⟨.spi_cmd_write write, r⟩] w
  cmd_read : ∀ {w command len r}, Φ w [⟨.spi_cmd_read command len, r⟩] w
  event : ∀ {w}, Φ w [⟨.select_event_request, .inl ()⟩] w

section Rule

variable {Φ : Shared → List (Answer Prim Prim.Reply) → Shared → Prop} {w w' : Shared}
  {es : List (Answer Prim Prim.Reply)}

theorem TurnRule.service_request (hΦ : TurnRule Φ) {o : VoltageM Unit ⊕ Unit}
    (h : Lap poll service_request w es o w') : Φ w es w' ∧ o = .inr () := by
  obtain ⟨es', rfl, hlap⟩ := (lap_op rfl).mp h
  cases hrequest : w.REQUEST with
  | none =>
    simp only [hrequest] at hlap ⊢
    obtain ⟨rfl, rfl, rfl⟩ := hlap
    have hsame : { w with REQUEST := none } = w := by rw [← hrequest]
    refine ⟨?_, rfl⟩
    rw [hsame]
    exact hΦ.skip hrequest
  | some request =>
    simp only [hrequest] at hlap ⊢
    obtain ⟨voltage, conversions, hconverted, rfl, rfl, rfl⟩ := lap_sample.mp hlap
    exact ⟨hΦ.serve hrequest (.inl rfl) hconverted, rfl⟩

theorem TurnRule.transfer (hΦ : TurnRule Φ) {p : Prim} (hp : poll p = .event)
    (hask : ∀ {w r}, Φ w [⟨p, r⟩] w) {o : VoltageM p.Reply ⊕ p.Reply} (h : Lap poll (ask p) w es o w') :
    Φ w es w' := by
  rcases h with ⟨r, w₁, es', hready, rfl, rfl, rfl, rfl⟩ | ⟨hpending, rfl, rfl⟩
  · rw [hp] at hready
    obtain rfl := hready
    exact hask
  · rw [hp] at hpending
    obtain rfl := hpending
    exact hΦ.nil w'

theorem TurnRule.command (hΦ : TurnRule Φ) {p : Prim} (hp : poll p = .event)
    (hask : ∀ {w r}, Φ w [⟨p, r⟩] w) {o : VoltageM p.Reply ⊕ p.Reply}
    (h : Lap poll (Voltage.service_request >>= fun _ => ask p) w es o w') : Φ w es w' := by
  rcases (lap_bind _ _).mp h with ⟨_, w₁, es₁, es₂, hservice, rfl, hlap⟩ | ⟨rest, hservice, -⟩
  · exact hΦ.append (hΦ.service_request hservice).1 (hΦ.transfer hp hask hlap)
  · cases (hΦ.service_request hservice).2

theorem TurnRule.wait_for_event (hΦ : TurnRule Φ) {o : VoltageM (Option Unit) ⊕ Option Unit}
    (h : Lap poll Voltage.wait_for_event w es o w') : Φ w es w' := by
  rcases lap_ask.mp h with ⟨r, w₁, es', hready, rfl, hlap⟩ | ⟨hpending, rfl, rfl⟩
  · cases hready with
    | first hevent =>
      obtain rfl := hevent
      obtain ⟨rfl, -, rfl⟩ := hlap
      exact hΦ.event
    | second hevent hwait =>
      obtain rfl := hevent
      cases hwait with
      | ready hrequest =>
        -- the sample is taken in the same lap
        rcases (lap_bind _ _).mp hlap with ⟨_, w₂, es₁, es₂, hsample, rfl, rfl, -, rfl⟩
          | ⟨rest, hsample, -⟩
        · obtain ⟨voltage, conversions, hconverted, rfl, -, rfl⟩ := lap_sample.mp hsample
          rw [List.append_nil]
          exact hΦ.serve hrequest (.inr rfl) hconverted
        · obtain ⟨_, _, -, -, ho, -⟩ := lap_sample.mp hsample
          cases ho
  · cases hpending with
    | pending hevent hwait =>
      obtain rfl := hevent
      cases hwait
      exact hΦ.nil _

theorem lap_some {α : Type} {x : VoltageM α} {o : VoltageM (Option α) ⊕ Option α}
    (hx : ∀ {o'}, Lap poll x w es o' w' → Φ w es w') (h : Lap poll (some <$> x) w es o w') : Φ w es w' := by
  rcases (lap_map _ _).mp h with ⟨a, hlap, -⟩ | ⟨rest, hlap, -⟩
  · exact hx hlap
  · exact hx hlap

/-- A lap of an operation, from its start or from where it waits. -/
theorem TurnRule.lap (hΦ : TurnRule Φ) (op : BusOp) {x : VoltageM (Option op.Value)}
    (hx : x = op.loop ∨ x = op.pending) {o : VoltageM (Option op.Value) ⊕ Option op.Value}
    (h : Lap poll x w es o w') : Φ w es w' := by
  cases op with
  | cmd_write write =>
    rcases hx with rfl | rfl
    · exact lap_some (hΦ.command (p := .spi_cmd_write write) rfl hΦ.cmd_write) h
    · exact lap_some (hΦ.transfer (p := .spi_cmd_write write) rfl hΦ.cmd_write) h
  | cmd_read command len =>
    rcases hx with rfl | rfl
    · exact lap_some (hΦ.command (p := .spi_cmd_read command len) rfl hΦ.cmd_read) h
    · exact lap_some (hΦ.transfer (p := .spi_cmd_read command len) rfl hΦ.cmd_read) h
  | wait_for_event =>
    rcases hx with rfl | rfl
    · exact hΦ.wait_for_event h
    · exact hΦ.wait_for_event h

/-- **The rule for turns of the bus.** -/
theorem TurnRule.turn (hΦ : TurnRule Φ) (op : BusOp) {x : VoltageM (Option op.Value)}
    (hx : x = op.loop ∨ x = op.pending) {o : Turned Prim Prim.Reply op.Value}
    (h : Turn poll op.loop x w es o w') : Φ w es w' :=
  (h.rule (W := fun _ => True) hΦ.append (fun h => ⟨hΦ.lap op (.inl rfl) h, fun _ _ => trivial⟩)
    fun h => ⟨hΦ.lap op hx h, fun _ _ => trivial⟩).1

end Rule

/-! ## What is on the pin -/

/-- The clock, with the value that the pad's register has for it, or `none` when the pin is analog. -/
abbrev Pin : Type := Option UInt32

/-- What an event leaves on the pin. -/
def drive (pin : Pin) (e : Answer Prim Prim.Reply) : Pin :=
  match e.prim with
  | .channel_new_pin => none
  | .channel_drop => none
  | .pad_write_value value => some value
  | _ => pin

/-- What an event needs on the pin: a transfer the clock, a conversion the voltage. -/
def Needs (clock : UInt32) (pin : Pin) (e : Answer Prim Prim.Reply) : Prop :=
  match e.prim with
  | .spi_cmd_write _ => pin = some clock
  | .spi_cmd_read _ _ => pin = some clock
  | .select_event_request => pin = some clock
  | .blocking_read => pin = none
  | _ => True

/-- Every event finds on the pin what it needs. -/
def Driven (clock : UInt32) : Pin → List (Answer Prim Prim.Reply) → Prop
  | _, [] => True
  | pin, e :: es => Needs clock pin e ∧ Driven clock (drive pin e) es

/-- Requests that were made. -/
def requests (es : List (Answer Prim Prim.Reply)) : ℕ :=
  es.countP fun e => match e.prim with
    | .request_signal => true
    | _ => false

/-- Requests that were served. -/
def responses (es : List (Answer Prim Prim.Reply)) : ℕ :=
  es.countP fun e => match e.prim with
    | .response_signal _ => true
    | _ => false

/-- The request in its signal. -/
def Shared.requested (w : Shared) : ℕ := if w.REQUEST.isSome then 1 else 0

section Drives

variable {clock : UInt32} {pin : Pin} {w w₁ w' : Shared} {es es' : List (Answer Prim Prim.Reply)}

theorem driven_append :
    Driven clock pin (es ++ es') ↔ Driven clock pin es ∧ Driven clock (es.foldl drive pin) es' := by
  induction es generalizing pin with
  | nil => simp [Driven]
  | cons e es ih =>
    rw [List.cons_append, Driven, Driven, ih, List.foldl_cons, and_assoc]

/-- A piece of a run: the clock is on the pin before and after it, whatever is asked finds what it
needs, and a response is made only to a request. -/
structure Drives (w : Shared) (es : List (Answer Prim Prim.Reply)) (w' : Shared) : Prop where
  pad : w'.pad = w.pad
  pin : es.foldl drive (some w.pad) = some w.pad
  driven : Driven w.pad (some w.pad) es
  served : responses es + w'.requested ≤ w.requested + requests es

theorem Drives.append (h : Drives w es w₁) (h' : Drives w₁ es' w') : Drives w (es ++ es') w' := by
  obtain ⟨hpad', hpin', hdriven', hserved'⟩ := h'
  rw [h.pad] at hpad' hpin' hdriven'
  refine ⟨hpad', ?_, driven_append.mpr ⟨h.driven, ?_⟩, ?_⟩
  · rw [List.foldl_append, h.pin, hpin']
  · rwa [h.pin]
  · have := h.served
    rw [responses, requests, List.countP_append, List.countP_append]
    rw [responses, requests] at hserved' this
    omega

/-- An event that the pin is no matter to, or that the clock is right for. -/
theorem drives_event {e : Answer Prim Prim.Reply} (hpad : w'.pad = w.pad)
    (hpin : drive (some w.pad) e = some w.pad) (hneeds : Needs w.pad (some w.pad) e)
    (hresponse : responses [e] = 0) (hrequested : w'.requested ≤ w.requested + requests [e]) :
    Drives w [e] w' := by
  refine ⟨hpad, hpin, ⟨hneeds, trivial⟩, ?_⟩
  rwa [hresponse, Nat.zero_add]

/-- Conversions, while the pin is analog. -/
theorem driven_converted {voltage : Option F32} {conversions : List (Answer Prim Prim.Reply)}
    (h : Converted voltage conversions) : conversions.foldl drive none = none
      ∧ Driven clock none conversions ∧ responses conversions = 0 ∧ requests conversions = 0 := by
  have hall : ∀ e ∈ conversions, e.prim = .blocking_read := by
    cases h with
    | ok first h =>
      intro e he
      obtain ⟨conversion, -, rfl⟩ := List.mem_map.mp he
      rfl
    | failed h =>
      intro e he
      rcases List.mem_append.mp he with he | he
      · obtain ⟨conversion, -, rfl⟩ := List.mem_map.mp he
        rfl
      · rw [List.mem_singleton.mp he]
  clear h
  induction conversions with
  | nil => exact ⟨rfl, trivial, rfl, rfl⟩
  | cons e es ih =>
    have he : e.prim = .blocking_read := hall e List.mem_cons_self
    have hdrive : drive none e = none := by simp only [drive, he]
    obtain ⟨hpin, hdriven, hresponses, hrequests⟩ := ih fun e' he' => hall e' (List.mem_cons_of_mem e he')
    rw [responses] at hresponses
    rw [requests] at hrequests
    refine ⟨?_, ⟨?_, ?_⟩, ?_, ?_⟩
    · rw [List.foldl_cons, hdrive, hpin]
    · simp only [Needs, he]
    · rwa [hdrive]
    · rw [responses, List.countP_cons, hresponses, he]
      simp
    · rw [requests, List.countP_cons, hrequests, he]
      simp

/-- A sample finds the clock on the pin, and leaves it there. -/
theorem driven_sample {voltage : Option F32} {conversions : List (Answer Prim Prim.Reply)}
    (h : Converted voltage conversions) :
    (sample_events clock voltage conversions).foldl drive (some clock) = some clock
      ∧ Driven clock (some clock) (sample_events clock voltage conversions)
      ∧ responses (sample_events clock voltage conversions) = 1
      ∧ requests (sample_events clock voltage conversions) = 0 := by
  obtain ⟨hpin, hdriven, hresponses, hrequests⟩ := @driven_converted clock _ _ h
  refine ⟨?_, driven_append.mpr ⟨⟨trivial, trivial, trivial, hdriven⟩, trivial, trivial, trivial, trivial⟩,
    ?_, ?_⟩
  · rw [sample_events, List.foldl_append]
    change List.foldl drive (conversions.foldl drive none) _ = some clock
    rw [hpin]
    rfl
  · rw [responses] at hresponses
    simp [sample_events, responses, hresponses]
  · rw [requests] at hrequests
    simp [sample_events, requests, hrequests]

/-- A request that is taken is served once. -/
theorem drives_serve {e : Answer Prim Prim.Reply} {voltage : Option F32}
    {conversions : List (Answer Prim Prim.Reply)} (hrequest : w.REQUEST = some ())
    (he : e = ⟨.request_try_take, some ()⟩ ∨ e = ⟨.select_event_request, .inr ()⟩)
    (hconverted : Converted voltage conversions) : Drives w (e :: sample_events w.pad voltage conversions)
      { w with REQUEST := none, RESPONSE := some voltage } := by
  obtain ⟨hpin, hdriven, hresponses, -⟩ := @driven_sample w.pad _ _ hconverted
  have hdrive : drive (some w.pad) e = some w.pad := by rcases he with rfl | rfl <;> rfl
  refine ⟨rfl, ?_, ⟨?_, ?_⟩, ?_⟩
  · rw [List.foldl_cons, hdrive, hpin]
  · rcases he with rfl | rfl
    · trivial
    · rfl
  · rwa [hdrive]
  · have hone : w.requested = 1 := by rw [Shared.requested, hrequest]; rfl
    have hsum : responses (e :: sample_events w.pad voltage conversions) = 1 := by
      rw [responses] at hresponses
      rw [responses, List.countP_cons, hresponses]
      rcases he with rfl | rfl <;> rfl
    rw [hone, hsum]
    exact Nat.le_add_right 1 _

/-- The parts of a turn of the bus. -/
theorem turnRule_drives : TurnRule Drives where
  nil w := ⟨rfl, rfl, trivial, by simp [responses, requests]⟩
  append := Drives.append
  skip _ := drives_event rfl rfl trivial rfl (Nat.le_add_right _ _)
  serve := drives_serve
  cmd_write := drives_event rfl rfl rfl rfl (Nat.le_add_right _ _)
  cmd_read := drives_event rfl rfl rfl rfl (Nat.le_add_right _ _)
  event := drives_event rfl rfl rfl rfl (Nat.le_add_right _ _)

/-! ## The application's turns -/

/-- A call takes the response if there is one, or withdraws its request. -/
theorem drives_await_response {o : VoltageM (Option F32) ⊕ Option F32}
    (h : Lap poll await_response w es o w') : Drives w es w' := by
  rcases lap_ask.mp h with ⟨r, w₁, es', hready, rfl, hlap⟩ | ⟨hpending, rfl, rfl⟩
  · cases hready with
    | ready hwait =>
      cases hwait
      obtain ⟨rfl, -, rfl⟩ := hlap
      exact drives_event rfl rfl trivial rfl (Nat.le_add_right _ _)
    | expired hwait htimer =>
      cases hwait
      obtain rfl := htimer
      obtain ⟨es', rfl, hend⟩ := (lap_op rfl).mp hlap
      obtain ⟨rfl, -, rfl⟩ := hend
      have hexpired : Drives w₁ [⟨.response_wait 1, .error ()⟩] w₁ :=
        drives_event rfl rfl trivial rfl (Nat.le_add_right _ _)
      exact hexpired.append (drives_event rfl rfl trivial rfl (Nat.zero_le _))
  · cases hpending with
    | pending hwait htimer =>
      cases hwait
      obtain rfl := htimer
      exact turnRule_drives.nil _

/-- A call makes one request. -/
theorem drives_read_voltage {o : VoltageM (Option F32) ⊕ Option F32}
    (h : Lap poll read_voltage w es o w') : Drives w es w' := by
  obtain ⟨es₁, rfl, hsignal⟩ := (lap_op rfl).mp h
  obtain ⟨es₂, rfl, hawait⟩ := (lap_op rfl).mp hsignal
  have hreset : Drives w [⟨.response_reset, ()⟩] { w with RESPONSE := none } :=
    drives_event rfl rfl trivial rfl (Nat.le_add_right _ _)
  have hrequest : Drives { w with RESPONSE := none } [⟨.request_signal, ()⟩]
      { w with RESPONSE := none, REQUEST := some () } := by
    refine drives_event rfl rfl trivial rfl ?_
    exact Nat.le_add_left 1 _
  exact hreset.append (hrequest.append (drives_await_response hawait))

end Drives

/-! ## Runs -/

/-- All that was asked, in order. -/
def history (ts : List (Taken System Label)) : List (Answer Prim Prim.Reply) :=
  ts.flatMap fun t => t.label.events

section Runs

variable {ts : List (Taken System Label)} {S S' : System} {l : Label}

/-- **Every step** is such a piece. -/
theorem Fresh.drives (h : Fresh ts S) (hstep : Step S l S') : Drives S.shared l.events S'.shared := by
  cases hstep with
  | read_voltage _ hlap => exact drives_read_voltage hlap
  | @poll_read_voltage rest _ _ _ hsome hlap =>
    obtain ⟨rfl, -⟩ := h.call rest hsome
    exact drives_await_response hlap
  | drop_read_voltage => exact turnRule_drives.nil _
  | new _ hlap =>
    obtain ⟨_, rfl, hreset⟩ := (lap_op rfl).mp hlap
    obtain ⟨_, rfl, hend⟩ := (lap_op (f := pure) rfl).mp hreset
    obtain ⟨rfl, -, rfl⟩ := hend
    have hrequest : Drives S.shared [⟨.request_reset, ()⟩] { S.shared with REQUEST := none } :=
      drives_event rfl rfl trivial rfl (Nat.zero_le _)
    exact hrequest.append (drives_event rfl rfl trivial rfl (Nat.zero_le _))
  | @start op _ _ _ _ hturn => exact turnRule_drives.turn op (.inl rfl) hturn
  | @poll_bus task _ _ _ hbusy hturn => exact turnRule_drives.turn task.op (.inr (h.bus task hbusy)) hturn
  | drop_op _ => exact turnRule_drives.nil _
  | drop => exact turnRule_drives.nil _

theorem drives_run {pad : UInt32} (hrun : Run Step (.boot pad) ts S) :
    Drives (System.boot pad).shared (history ts) S.shared := by
  induction hrun with
  | nil => exact turnRule_drives.nil _
  | @snoc ts S S' l hrun hstep ih =>
    rw [history, List.flatMap_append, List.flatMap_singleton]
    exact ih.append ((Fresh.run hrun).drives hstep)

theorem events_ask {p : Prim} {w w' : Shared} {es : List (Answer Prim Prim.Reply)}
    {o : VoltageM p.Reply ⊕ p.Reply} (h : Lap poll (ask p) w es o w') : ∀ e ∈ es, e.prim = p := by
  rcases h with ⟨r, w₁, es', -, rfl, rfl, -, -⟩ | ⟨-, rfl, -⟩
  · intro e he
    rw [List.mem_singleton.mp he]
  · nofun

/-- The rest of a transfer is one lap, and asks for nothing else. -/
theorem turn_ask {p : Prim} {w w' : Shared} {es : List (Answer Prim Prim.Reply)}
    {loop : VoltageM (Option p.Reply)} {o : Turned Prim Prim.Reply p.Reply}
    (h : Turn poll loop (some <$> ask p) w es o w') : ∀ e ∈ es, e.prim = p := by
  cases h with
  | wait h =>
    rcases (lap_map _ _).mp h with ⟨_, hask, -⟩ | ⟨_, hask, -⟩
    · exact events_ask hask
    · exact events_ask hask
  | finish h =>
    rcases (lap_map _ _).mp h with ⟨_, hask, -⟩ | ⟨_, hask, -⟩
    · exact events_ask hask
    · exact events_ask hask
  | again h _ =>
    -- it does not go round
    rcases (lap_map _ _).mp h with ⟨_, -, ho⟩ | ⟨_, -, ho⟩
    · cases ho
    · cases ho

/-- What goes on after a transfer has begun is its end. -/
theorem turn_transfer {op : BusOp} (hop : op ≠ .wait_for_event) {w w' : Shared}
    {es : List (Answer Prim Prim.Reply)} {o : Turned Prim Prim.Reply op.Value}
    (h : Turn poll op.loop op.pending w es o w') : ∀ e ∈ es, e.prim ≠ .channel_new_pin := by
  intro e he
  cases op with
  | cmd_write write =>
    rw [turn_ask (p := .spi_cmd_write write) h e he]
    nofun
  | cmd_read command len =>
    rw [turn_ask (p := .spi_cmd_read command len) h e he]
    nofun
  | wait_for_event => exact absurd rfl hop

/-- **The pin is shared.** In every interleaving of the application, the bus and the dropping of
either: between two turns the pin has the clock, with the value its register had at power-on; every
transfer of the bus that completes found the clock on it, and every conversion found it analog. A turn that goes
on with a transfer which has begun never makes it analog. And no more samples are taken
than were requested. -/
theorem pin_shared {pad : UInt32} (hrun : Run Step (.boot pad) ts S) :
    S.shared.pad = pad
      ∧ (history ts).foldl drive (some pad) = some pad
      ∧ Driven pad (some pad) (history ts)
      ∧ (∀ t ∈ ts, ∀ task, t.label.act = .poll_bus → t.before.bus = .busy task →
        task.op ≠ .wait_for_event → ∀ e ∈ t.label.events, e.prim ≠ .channel_new_pin)
      ∧ responses (history ts) + S.shared.requested ≤ requests (history ts) := by
  obtain ⟨hpad, hpin, hdriven, hserved⟩ := drives_run hrun
  refine ⟨hpad, hpin, hdriven, ?_, ?_⟩
  · rintro ⟨S₁, l, S₂⟩ ht task hact hbusy hop
    obtain ⟨hstep, ts₁, hrun₁, -⟩ := hrun.of_mem ht
    have hfresh := Fresh.run hrun₁
    dsimp only at hstep hact hbusy hfresh ⊢
    cases hstep with
    | @poll_bus task' _ _ _ hbusy' hturn =>
      obtain rfl := Bus.busy.inj (hbusy'.symm.trans hbusy)
      rw [hfresh.bus task' hbusy] at hturn
      exact turn_transfer hop hturn
    | read_voltage _ _ => cases hact
    | poll_read_voltage _ _ => cases hact
    | drop_read_voltage => cases hact
    | new _ _ => cases hact
    | start _ _ => cases hact
    | drop_op _ => cases hact
    | drop => cases hact
  · have hnone : (System.boot pad).shared.requested = 0 := rfl
    rwa [hnone, Nat.zero_add] at hserved

/-- A call is made and its sample taken while the bus waits for an event. -/
theorem pin_shared_first : ∃ (ts : List (Taken System Label)) (S : System),
    Run Step (.boot 0x56) ts S ∧ S.shared.pad = 0x56
      ∧ (history ts).foldl drive (some 0x56) = some 0x56 ∧ Driven 0x56 (some 0x56) (history ts)
      ∧ responses (history ts) ≤ requests (history ts) := by
  obtain ⟨ts, S, l, S', hrun, hstep, -⟩ :=
    exists_answered 0x56 (@Converted.ok 1179 (List.replicate 16 1179) List.length_replicate)
  obtain ⟨hpad, hpin, hdriven, -, hserved⟩ := pin_shared (hrun.snoc hstep)
  exact ⟨_, _, hrun.snoc hstep, hpad, hpin, hdriven, Nat.le_of_add_right_le hserved⟩

end Runs

end PicoDataLogger.Voltage
