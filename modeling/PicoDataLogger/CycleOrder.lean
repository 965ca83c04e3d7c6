/-
The order of a cycle.

What a cycle has asked so far and been answered is in the log, and `Progress` is what
of it matters for what may be asked next: the sample is stored before the network is
joined, unless there is no clock to date it by; a network is joined once, and again
only after it has been left; nothing is published or acknowledged outside a session; and the
waits between two attempts are those of the backoff. `May` says so, and every question
of every cycle is one it may ask, whatever the surroundings answer and wherever the
cycle is dropped or the supply goes.
-/
import PicoDataLogger.ClockSync
import PicoDataLogger.GoodCycle

set_option autoImplicit false

namespace PicoDataLogger.CycleOrder

open Interaction NorFlash
open ClockSync (delay_secs advance_delay_secs)

/-! ## How far a cycle has come -/

structure Progress where
  /-- What the sensor has answered, once it was asked. -/
  measured : Option (Option (F32 × F32))
  joined : Bool
  left : Bool
  synchronized : Bool
  session : Bool
  retries : ℕ

def Progress.start : Progress where
  measured := none
  joined := false
  left := false
  synchronized := false
  session := false
  retries := 0

/-- What a question and its answer change. -/
def Progress.note (s : Progress) : Note → Progress
  | .await .measure r => { s with measured := some r.join }
  | .await (.connect_wifi _ _) _ => { s with joined := true, left := false }
  | .await .leave _ => { s with left := true }
  | .await (.synchronize_clock_until_ready _) _ => { s with synchronized := true }
  | .await .session_connect r => { s with session := r == some true }
  | .await .disconnect _ => { s with session := false }
  | .await (.after_secs _) _ => { s with session := false, retries := s.retries + 1 }
  | _ => s

/-- How far the notes of a cycle go, newest first. -/
def progress : List Note → Progress
  | [] => .start
  | n :: notes => (progress notes).note n

/-- The network is joined. -/
def Progress.online (s : Progress) : Prop := s.joined = true ∧ s.left = false

/-- What may be asked next; `clock` says whether there was one when the cycle began. -/
def May (clock : Bool) (s : Progress) : Ask → Prop
  | .await .measure => s.measured = none
  | .await (.connect_wifi _ _) => s.joined = true → s.left = true
  | .await (.synchronize_clock_until_ready _) => clock = false ∧ s.online ∧ s.synchronized = false
  | .await (.refresh_clock _ _) => clock = true ∧ s.online
  | .await (.resolve_ipv4 _) => s.online
  | .await (.connect _ _) => s.online
  | .await .session_connect => s.online
  | .await (.publish _ _) => s.online ∧ s.session = true
  | .await (.poll _) => s.online ∧ s.session = true
  | .await (.after_secs secs) => secs = delay_secs s.retries
  | .flash (.op (.append sample)) _ =>
    s.measured = some (some (sample.temperature_c, sample.relative_humidity_pct))
      ∧ if clock = true then s.joined = false else s.synchronized = true
  | .flash (.op .acknowledge_oldest) _ => s.online ∧ s.session = true
  | _ => True

/-! ## The rules -/

section Rules

variable {ε α β : Type} {F : Faults} {clock : Bool} {base : List Note} {s : Progress}

/-- The cycle that began with the log `base` has come so far. -/
def At (base : List Note) (w : World) (s : Progress) : Prop :=
  ∃ notes, w.log = notes ++ base ∧ progress notes = s

theorem At.note {w : World} (h : At base w s) (n : Note) : At base (w.note n) (s.note n) := by
  obtain ⟨notes, hlog, rfl⟩ := h
  refine ⟨n :: notes, ?_, rfl⟩
  rw [World.note, hlog]
  rfl

/-- Everything that is asked from here on may be asked, and what is returned is in `Q`. -/
def Obeys (F : Faults) (clock : Bool) (base : List Note) (x : AppM ε α) (rt : Runtime) (s : Progress)
    (Q : α → Runtime → Progress → Prop) : Prop :=
  ∀ w, At base w s → Proc.wp (surroundings F ε)
    (fun p w _ => ∃ s, At base w s ∧ May clock s p) x
    (fun o w' => match o with
      | .ok a rt' => ∃ s', At base w' s' ∧ Q a rt' s'
      | _ => True) rt w

variable {rt : Runtime}

theorem Obeys.bind {x : AppM ε α} {f : α → AppM ε β} {P : α → Runtime → Progress → Prop}
    {Q : β → Runtime → Progress → Prop} (hx : Obeys F clock base x rt s P)
    (hf : ∀ a rt' s', P a rt' s' → Obeys F clock base (f a) rt' s' Q) :
    Obeys F clock base (x >>= f) rt s Q := by
  intro w hw
  rw [Proc.wp_bind]
  refine Proc.wp_mono (hx w hw) (fun _ _ _ hG => hG) ?_
  rintro (⟨a, rt'⟩ | _ | _) w' h'
  · obtain ⟨s', hs', hP⟩ := h'
    exact hf a rt' s' hP w' hs'
  · trivial
  · trivial

theorem Obeys.mono {x : AppM ε α} {Q Q' : α → Runtime → Progress → Prop}
    (hx : Obeys F clock base x rt s Q) (hQ : ∀ a rt' s', Q a rt' s' → Q' a rt' s') :
    Obeys F clock base x rt s Q' := by
  intro w hw
  refine Proc.wp_mono (hx w hw) (fun _ _ _ hG => hG) ?_
  rintro (⟨a, rt'⟩ | _ | _) w' h'
  · obtain ⟨s', hs', h⟩ := h'
    exact ⟨s', hs', hQ a rt' s' h⟩
  · trivial
  · trivial

theorem pure_obeys {a : α} {Q : α → Runtime → Progress → Prop} (h : Q a rt s) :
    Obeys F clock base (pure a : AppM ε α) rt s Q :=
  fun _ hw => ⟨s, hw, h⟩

theorem get_obeys {Q : Runtime → Runtime → Progress → Prop} (h : Q rt rt s) :
    Obeys F clock base (get : AppM ε Runtime) rt s Q :=
  fun _ hw => ⟨s, hw, h⟩

theorem modify_obeys {f : Runtime → Runtime} {Q : PUnit → Runtime → Progress → Prop}
    (h : Q ⟨⟩ (f rt) s) : Obeys F clock base (modify f : AppM ε PUnit) rt s Q :=
  fun _ hw => ⟨s, hw, h⟩

theorem throw_obeys {Q : α → Runtime → Progress → Prop} :
    Obeys F clock base (throw .dropped : AppM ε α) rt s Q :=
  fun _ _ => trivial

/-- A question that is awaited. -/
theorem await_obeys {a : Await} {Q : a.Reply → Runtime → Progress → Prop} (hmay : May clock s (.await a))
    (h : ∀ r, Q r rt (s.note (.await a (some r)))) : Obeys F clock base (await a : AppM ε _) rt s Q := by
  intro w hw
  refine ⟨fun r w' hr => ⟨⟨s, hw, hmay⟩, ?_⟩, fun w' hcut => ⟨⟨s, hw, hmay⟩, trivial⟩⟩
  cases hr
  cases r with
  | none => exact trivial
  | some r => exact ⟨_, hw.note _, h r⟩

/-- A question that is answered at once is no progress. -/
theorem query_obeys {q : Query} {Q : q.Reply → Runtime → Progress → Prop} (h : ∀ r, Q r rt s) :
    Obeys F clock base (query q : AppM ε _) rt s Q := by
  intro w hw
  refine ⟨fun r w' hr => ⟨⟨s, hw, trivial⟩, ?_⟩, fun w' hcut => ⟨⟨s, hw, trivial⟩, trivial⟩⟩
  cases hr
  exact ⟨_, hw.note _, h r⟩

/-- Whatever a program comes to. -/
theorem wp_of_forall {P : Type} {R : P → Type} {σ : Type} {E : Env P R σ} (x : Prog P R α)
    {Q : Outcome α → σ → Prop} (h : ∀ o t, Q o t) (t : σ) : x.wp E (fun _ _ _ => True) Q t := by
  induction x generalizing t with
  | pure a => exact h _ _
  | call p k ih => exact ⟨fun r t' _ => ⟨trivial, ih r t'⟩, fun t' _ => ⟨trivial, h _ _⟩⟩

/-- A queue operation asks the flash only, and leaves the log alone. -/
theorem call_obeys {op : Op} {Q : Except (QueueError ε) op.Value → Runtime → Progress → Prop}
    (hmay : ∀ p, May clock s (.flash (.op op) p))
    (h : ∀ r rt', rt'.clock = rt.clock → Q r rt' s) :
    Obeys F clock base (call op : AppM ε _) rt s Q := by
  intro w hw
  refine (Prog.wp_bind _ _ _ _).mpr ?_
  have hlog : ∀ m, At base { w with flash := m } s := fun m => hw
  refine Prog.wp_embed (fun m => { w with flash := m }) (E := F.env ε) (G := fun _ _ _ => True) ?_ ?_
    ?_ ?_
  · rintro p m r _ ⟨m', hr, rfl⟩
    exact ⟨m', rfl, hr⟩
  · rintro p m _ ⟨m', hc, rfl⟩
    exact ⟨m', rfl, hc⟩
  · intro p m m' _
    exact ⟨s, hlog m, hmay p⟩
  · refine wp_of_forall _ ?_ _
    rintro (⟨r, q⟩ | _) m
    · exact ⟨s, hlog m, h r { rt with queue := q } rfl⟩
    · trivial

/-! ## The sample -/

variable {app : App}

/-- The sensor is asked once, and a reading has what it answered. -/
theorem capture_reading_obeys {anchor : ClockAnchor} {sequence : UInt64} (hs : s.measured = none) :
    Obeys F clock base (capture_reading app anchor sequence : AppM ε _) rt s fun reading rt' s' =>
      rt' = rt ∧ ∃ m, s' = { s with measured := some m } ∧ ∀ r, reading = some r →
        m = some (r.temperature_c, r.relative_humidity_pct) := by
  unfold capture_reading
  refine Obeys.bind (await_obeys (Q := fun m rt' s' => rt' = rt ∧ s' = { s with measured := some m }) hs
    fun _ => ⟨rfl, rfl⟩) ?_
  rintro m _ _ ⟨rfl, rfl⟩
  cases m with
  | none => exact pure_obeys ⟨rfl, none, rfl, nofun⟩
  | some measured =>
    refine Obeys.bind (query_obeys (Q := fun _ rt' s' => rt' = _ ∧ s' = _) fun _ => ⟨rfl, rfl⟩) ?_
    rintro now _ _ ⟨rfl, rfl⟩
    split
    · exact pure_obeys ⟨rfl, _, rfl, nofun⟩
    · refine Obeys.bind (query_obeys (Q := fun _ rt' s' => rt' = _ ∧ s' = _) fun _ => ⟨rfl, rfl⟩) ?_
      rintro now' _ _ ⟨rfl, rfl⟩
      refine pure_obeys ⟨rfl, _, rfl, ?_⟩
      intro r hr
      obtain rfl := Option.some.inj hr
      rfl

theorem read_on_battery_obeys :
    Obeys F clock base (read_on_battery : AppM ε _) rt s fun _ rt' s' => rt' = rt ∧ s' = s := by
  unfold read_on_battery
  refine Obeys.bind (await_obeys (Q := fun _ rt' s' => rt' = rt ∧ s' = s) trivial fun _ => ⟨rfl, rfl⟩) ?_
  rintro usb_present _ _ ⟨rfl, rfl⟩
  exact pure_obeys ⟨rfl, rfl⟩

theorem show_led_status_obeys {status : LedStatus} :
    Obeys F clock base (await (.show_led_status status) : AppM ε _) rt s fun _ rt' s' =>
      rt' = rt ∧ s' = s :=
  await_obeys trivial fun _ => ⟨rfl, rfl⟩

/-- **The sample** is what the sensor has answered. -/
theorem capture_and_enqueue_obeys (hs : s.measured = none)
    (hwhen : if clock = true then s.joined = false else s.synchronized = true) :
    Obeys F clock base (capture_and_enqueue app : AppM ε _) rt s fun _ rt' s' =>
      rt'.clock = rt.clock ∧ ∃ m, s' = { s with measured := m } := by
  have hsame : s = { s with measured := s.measured } := rfl
  unfold capture_and_enqueue
  refine Obeys.bind show_led_status_obeys ?_
  rintro _ _ _ ⟨rfl, rfl⟩
  refine Obeys.bind (get_obeys (Q := fun a rt' s' => a = rt' ∧ rt' = _ ∧ s' = _) ⟨rfl, rfl, rfl⟩) ?_
  rintro _ _ _ ⟨rfl, rfl, rfl⟩
  split
  · exact pure_obeys ⟨rfl, _, hsame⟩
  · refine Obeys.bind (capture_reading_obeys hs) ?_
    rintro reading _ _ ⟨rfl, m, rfl, hreading⟩
    cases reading with
    | none =>
      refine Obeys.bind show_led_status_obeys ?_
      rintro _ _ _ ⟨rfl, rfl⟩
      exact pure_obeys ⟨rfl, _, rfl⟩
    | some reading =>
      obtain rfl := hreading reading rfl
      refine Obeys.bind read_on_battery_obeys ?_
      rintro on_battery _ _ ⟨rfl, rfl⟩
      refine Obeys.bind (await_obeys (Q := fun _ rt' s' => rt' = _ ∧ s' = _) trivial
        fun _ => ⟨rfl, rfl⟩) ?_
      rintro vsys_voltage_v _ _ ⟨rfl, rfl⟩
      refine Obeys.bind (call_obeys (Q := fun _ rt' s' => rt'.clock = _ ∧ s' = _) ?_
        fun _ _ hrt => ⟨hrt, rfl⟩) ?_
      · exact fun p => ⟨rfl, hwhen⟩
      · rintro r rt' _ ⟨hrt, rfl⟩
        cases r with
        | ok record => exact pure_obeys ⟨hrt, _, rfl⟩
        | error e =>
          refine Obeys.bind show_led_status_obeys ?_
          rintro _ _ _ ⟨rfl, rfl⟩
          exact pure_obeys ⟨hrt, _, rfl⟩

/-! ## The session -/

theorem await_puback_obeys {operation : Operation} {deadline : Instant} {fuel : ℕ}
    (hs : s.online ∧ s.session = true) :
    Obeys F clock base (await_puback operation deadline fuel : AppM ε _) rt s fun _ rt' s' =>
      rt' = rt ∧ s' = s := by
  induction fuel with
  | zero => exact throw_obeys
  | succ fuel ih =>
    unfold await_puback
    refine Obeys.bind (query_obeys (Q := fun _ rt' s' => rt' = _ ∧ s' = _) fun _ => ⟨rfl, rfl⟩) ?_
    rintro pending _ _ ⟨rfl, rfl⟩
    cases pending with
    | false => exact pure_obeys ⟨rfl, rfl⟩
    | true =>
      refine Obeys.bind (await_obeys (Q := fun _ rt' s' => rt' = _ ∧ s' = _) hs fun _ => ⟨rfl, rfl⟩) ?_
      rintro reply _ _ ⟨rfl, rfl⟩
      cases reply with
      | ready => exact ih
      | failed => exact pure_obeys ⟨rfl, rfl⟩
      | timed_out => exact pure_obeys ⟨rfl, rfl⟩

/-- What a round does once it has an operation. -/
theorem finish_round_obeys {operation : Operation} {fuel : ℕ} (hs : s.online ∧ s.session = true) :
    Obeys F clock base (do
      let now ← query .now
      let settled ← await_puback operation (now + from_secs MQTT_PUBLISH_TIMEOUT_SECS) fuel
      if settled then
        if ← query (.is_complete operation) then
          match ← call .acknowledge_oldest with
          | .error _ => return some false
          | .ok _ =>
            if (← get).queue.depth = 0 then
              await (.show_led_status .idle)
            return none
        else return some false
      else return some false : AppM ε (Option Bool)) rt s fun _ _ s' => s' = s := by
  refine Obeys.bind (query_obeys (Q := fun _ rt' s' => rt' = _ ∧ s' = _) fun _ => ⟨rfl, rfl⟩) ?_
  rintro now _ _ ⟨rfl, rfl⟩
  refine Obeys.bind (await_puback_obeys hs) ?_
  rintro settled _ _ ⟨rfl, rfl⟩
  cases settled with
  | false => exact pure_obeys rfl
  | true =>
    refine Obeys.bind (query_obeys (Q := fun _ rt' s' => rt' = _ ∧ s' = _) fun _ => ⟨rfl, rfl⟩) ?_
    rintro complete _ _ ⟨rfl, rfl⟩
    cases complete with
    | false => exact pure_obeys rfl
    | true =>
      refine Obeys.bind (call_obeys (Q := fun _ _ s' => s' = _) (fun _ => hs) fun _ _ _ => rfl) ?_
      rintro r rt' _ rfl
      cases r with
      | error e => exact pure_obeys rfl
      | ok record =>
        refine Obeys.bind (get_obeys (Q := fun a rt' s' => a = rt' ∧ s' = _) ⟨rfl, rfl⟩) ?_
        rintro _ rt'' _ ⟨rfl, rfl⟩
        split
        · refine Obeys.bind show_led_status_obeys ?_
          rintro _ _ _ ⟨rfl, rfl⟩
          exact pure_obeys rfl
        · exact pure_obeys rfl

theorem drain_round_obeys {fuel : ℕ} (hs : s.online ∧ s.session = true) :
    Obeys F clock base (drain_round app fuel : AppM ε _) rt s fun _ _ s' => s' = s := by
  unfold drain_round
  refine Obeys.bind (call_obeys (Q := fun _ _ s' => s' = _) (fun _ => trivial) fun _ _ _ => rfl) ?_
  rintro oldest rt' _ rfl
  cases oldest with
  | error e => exact pure_obeys rfl
  | ok oldest =>
    cases oldest with
    | none => exact pure_obeys rfl
    | some record =>
      refine Obeys.bind show_led_status_obeys ?_
      rintro _ _ _ ⟨rfl, rfl⟩
      dsimp only
      split
      · exact pure_obeys rfl
      · refine Obeys.bind (await_obeys (Q := fun _ rt' s' => rt' = _ ∧ s' = _) hs fun _ => ⟨rfl, rfl⟩) ?_
        rintro reply _ _ ⟨rfl, rfl⟩
        cases reply with
        | failed => exact pure_obeys rfl
        | timed_out => exact pure_obeys rfl
        | submitted operation =>
          cases operation with
          | none => exact pure_obeys rfl
          | some operation => exact finish_round_obeys hs

theorem drain_queue_obeys {fuel : ℕ} (hs : s.online ∧ s.session = true) :
    Obeys F clock base (drain_queue app fuel : AppM ε _) rt s fun _ _ s' => s' = s := by
  induction fuel generalizing rt with
  | zero => exact throw_obeys
  | succ fuel ih =>
    unfold drain_queue
    refine Obeys.bind (drain_round_obeys hs) ?_
    rintro complete rt' _ rfl
    cases complete with
    | some complete => exact pure_obeys rfl
    | none => exact ih

/-- **An attempt** has its own session. -/
theorem upload_attempt_obeys {fuel : ℕ} (hs : s.online) :
    Obeys F clock base (upload_attempt app fuel : AppM ε _) rt s fun _ _ s' =>
      ∃ session, s' = { s with session } := by
  have hsame : s = { s with session := s.session } := rfl
  unfold upload_attempt
  refine Obeys.bind (await_obeys (Q := fun _ rt' s' => rt' = _ ∧ s' = _) hs fun _ => ⟨rfl, rfl⟩) ?_
  rintro address _ _ ⟨rfl, rfl⟩
  cases address with
  | none => exact pure_obeys ⟨_, hsame⟩
  | some address =>
    refine Obeys.bind (await_obeys (Q := fun _ rt' s' => rt' = _ ∧ s' = _) hs fun _ => ⟨rfl, rfl⟩) ?_
    rintro connected _ _ ⟨rfl, rfl⟩
    cases connected with
    | false => exact pure_obeys ⟨_, hsame⟩
    | true =>
      refine Obeys.bind (query_obeys (Q := fun _ rt' s' => rt' = _ ∧ s' = _) fun _ => ⟨rfl, rfl⟩) ?_
      rintro created _ s ⟨rfl, rfl⟩
      cases created with
      | false => exact pure_obeys ⟨_, hsame⟩
      | true =>
        refine Obeys.bind (await_obeys (Q := fun up rt' s' => rt' = _ ∧ s' = { s with session := up }) hs
          fun up => ⟨rfl, ?_⟩) ?_
        · cases up with
          | false => rfl
          | true => rfl
        rintro up _ _ ⟨rfl, rfl⟩
        cases up with
        | false => exact pure_obeys ⟨_, rfl⟩
        | true =>
          refine Obeys.bind (drain_queue_obeys ⟨hs, rfl⟩) ?_
          rintro complete rt' _ rfl
          cases complete with
          | false => exact pure_obeys ⟨_, rfl⟩
          | true =>
            refine Obeys.bind (await_obeys (Q := fun _ _ s' => s' = _) trivial fun _ => rfl) ?_
            rintro _ _ _ rfl
            exact pure_obeys ⟨_, rfl⟩

theorem rejoin_obeys (hs : s.online) :
    Obeys F clock base (rejoin app : AppM ε _) rt s fun _ _ s' => s' = s := by
  have hjoin : ∀ config_up rt, Obeys F clock base
      (if !config_up then (do
        await .leave
        await (.connect_wifi app.wifi_ssid app.wifi_password) : AppM ε _) else pure ()) rt s
      fun _ _ s' => s' = s := by
    intro config_up rt
    cases config_up with
    | true => exact pure_obeys rfl
    | false =>
      -- left, and joined again
      refine Obeys.bind (await_obeys (Q := fun _ _ s' => s' = _) trivial fun _ => rfl) ?_
      rintro _ _ _ rfl
      refine await_obeys (fun _ => rfl) fun _ => ?_
      obtain ⟨measured, joined, left, synchronized, session, retries⟩ := s
      obtain ⟨rfl, rfl⟩ := hs
      rfl
  unfold rejoin
  refine Obeys.bind (query_obeys (Q := fun _ rt' s' => rt' = _ ∧ s' = _) fun _ => ⟨rfl, rfl⟩) ?_
  rintro link_up _ _ ⟨rfl, rfl⟩
  cases link_up with
  | false => exact hjoin false _
  | true =>
    refine Obeys.bind (query_obeys (Q := fun _ rt' s' => rt' = _ ∧ s' = _) fun _ => ⟨rfl, rfl⟩) ?_
    rintro config_up _ _ ⟨rfl, rfl⟩
    exact hjoin config_up _

/-- **The retry loop** waits as the backoff says. -/
theorem upload_loop_obeys {fuel : ℕ} {backoff : RetryBackoff} (hs : s.online)
    (hbackoff : backoff.next_delay_secs = delay_secs s.retries) :
    Obeys F clock base (upload_loop app fuel backoff : AppM ε _) rt s fun _ _ _ => True := by
  induction fuel generalizing rt s backoff with
  | zero => exact throw_obeys
  | succ fuel ih =>
    unfold upload_loop
    refine Obeys.bind (rejoin_obeys hs) ?_
    rintro _ rt' _ rfl
    refine Obeys.bind (upload_attempt_obeys hs) ?_
    rintro complete rt'' _ ⟨session, rfl⟩
    cases complete with
    | true => exact await_obeys trivial fun _ => trivial
    | false =>
      refine Obeys.bind show_led_status_obeys ?_
      rintro _ _ _ ⟨rfl, rfl⟩
      refine Obeys.bind (await_obeys (Q := fun _ _ s' => s' = _) hbackoff fun _ => rfl) ?_
      rintro _ _ _ rfl
      exact ih hs (advance_delay_secs hbackoff)

/-! ## The cycle -/

/-- A clock is refreshed, or a first one comes with the sample that has waited for it. -/
theorem prepare_clock_obeys (hs : s.online) (hfirst : clock = false →
      s.measured = none ∧ s.synchronized = false) (hretries : s.retries = 0) :
    Obeys F clock base (prepare_clock app clock : AppM ε _) rt s fun _ _ s' =>
      s'.online ∧ s'.retries = 0 := by
  unfold prepare_clock
  cases clock with
  | false =>
    obtain ⟨hmeasured, hsynchronized⟩ := hfirst rfl
    refine Obeys.bind (await_obeys (Q := fun _ _ s' => s' = _) ⟨rfl, hs, hsynchronized⟩ fun _ => rfl) ?_
    rintro anchor _ _ rfl
    refine Obeys.bind (query_obeys (Q := fun _ _ s' => s' = _) fun _ => rfl) ?_
    rintro now _ _ rfl
    refine Obeys.bind (modify_obeys (Q := fun _ _ s' => s' = _) rfl) ?_
    rintro _ _ _ rfl
    refine Obeys.bind (capture_and_enqueue_obeys hmeasured rfl) ?_
    rintro stored _ _ ⟨-, m, rfl⟩
    exact pure_obeys ⟨hs, hretries⟩
  | true =>
    refine Obeys.bind (get_obeys (Q := fun _ _ s' => s' = _) rfl) ?_
    rintro rt' _ _ rfl
    cases rt'.clock with
    | none => exact pure_obeys ⟨hs, hretries⟩
    | some clock =>
      refine Obeys.bind (query_obeys (Q := fun _ _ s' => s' = _) fun _ => rfl) ?_
      rintro now _ _ rfl
      split
      · refine Obeys.bind (await_obeys (Q := fun _ _ s' => s' = _) ⟨rfl, hs⟩ fun _ => rfl) ?_
        rintro clock' _ _ rfl
        exact modify_obeys ⟨hs, hretries⟩
      · exact pure_obeys ⟨hs, hretries⟩

/-- **A cycle** that begins with the clock in its memory. -/
theorem upload_cycle_obeys {fuel : ℕ} : Obeys F rt.clock.isSome base
    (upload_cycle app fuel : AppM ε _) rt .start fun _ _ _ => True := by
  -- from the joining of the network on
  have hnetwork : ∀ (clock : Bool) (s : Progress) (rt : Runtime), s.joined = false → s.left = false →
      s.synchronized = false → s.retries = 0 → (clock = false → s.measured = none) →
      Obeys F clock base (do
        await (.connect_wifi app.wifi_ssid app.wifi_password)
        prepare_clock app clock
        upload_loop app fuel .new : AppM ε Unit) rt s fun _ _ _ => True := by
    intro clock s rt hjoined hleft hsynchronized hretries hmeasured
    refine Obeys.bind (await_obeys (Q := fun _ _ s' => s' = _) ?_ fun _ => rfl) ?_
    · intro h
      rw [hjoined] at h
      cases h
    rintro _ _ _ rfl
    refine Obeys.bind (prepare_clock_obeys ⟨rfl, rfl⟩ (fun h => ⟨hmeasured h, hsynchronized⟩)
      hretries) ?_
    rintro _ _ s' ⟨honline, hretries'⟩
    refine upload_loop_obeys honline ?_
    rw [hretries']
    rfl
  generalize hclock : rt.clock.isSome = clock
  unfold upload_cycle
  refine Obeys.bind (await_obeys (Q := fun _ rt' s' => rt' = _ ∧ s' = _) trivial fun _ => ⟨rfl, rfl⟩) ?_
  rintro _ _ _ ⟨rfl, rfl⟩
  refine Obeys.bind (await_obeys (Q := fun _ rt' s' => rt' = _ ∧ s' = _) trivial fun _ => ⟨rfl, rfl⟩) ?_
  rintro _ _ _ ⟨rfl, rfl⟩
  refine Obeys.bind show_led_status_obeys ?_
  rintro _ _ _ ⟨rfl, rfl⟩
  refine Obeys.bind read_on_battery_obeys ?_
  rintro on_battery rt _ ⟨rfl, rfl⟩
  refine Obeys.bind (modify_obeys (Q := fun _ rt' s' => rt' = _ ∧ s' = _) ⟨rfl, rfl⟩) ?_
  rintro _ _ _ ⟨rfl, rfl⟩
  refine Obeys.bind (get_obeys (Q := fun a rt' s' => a = rt' ∧ rt' = _ ∧ s' = _) ⟨rfl, rfl, rfl⟩) ?_
  rintro _ _ _ ⟨rfl, rfl, rfl⟩
  dsimp only
  rw [hclock]
  cases clock with
  | true =>
    refine Obeys.bind (capture_and_enqueue_obeys rfl rfl) ?_
    rintro stored _ _ ⟨-, m, rfl⟩
    exact hnetwork true _ _ rfl rfl rfl rfl nofun
  | false => exact hnetwork false _ _ rfl rfl rfl rfl fun _ => rfl

end Rules

section Runs

variable {ε : Type} {F : Faults} {app : App}

end Runs

end PicoDataLogger.CycleOrder
