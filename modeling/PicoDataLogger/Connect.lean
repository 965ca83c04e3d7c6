/-
`main.rs`, `connect_wifi`, and the LED of `status.rs` that flashes meanwhile.

The network is joined within 15 seconds, the link is waited for, and then an address for
30 seconds. What fails is tried again after five seconds; a join that was cut off by its
timer, and a network without an address, are left before that. Meanwhile the LED
changes every 100 ms, by the driver's own `gpio_set` during a join, and by the logger's
else. `LedStatusModel` is what the logger knows of the LED, and has to agree with
the pin whenever it hands the pin over and takes it back.

The answers are arbitrary, but a timer is never early.
-/
import PicoDataLogger.Device
import PicoDataLogger.Cyw43.Join

set_option autoImplicit false

namespace PicoDataLogger.Connect

open Interaction

/-! ## The LED -/

structure LedStatusModel where
  status : LedStatus
  fault_phase_on : Bool

namespace LedStatusModel

def new : LedStatusModel where
  status := .idle
  fault_phase_on := false

/-- `matches!(status, LedStatus::Fault)` -/
def transition (_ : LedStatusModel) (status : LedStatus) : LedStatusModel where
  status
  fault_phase_on := match status with
    | .fault => true
    | _ => false

def tick (led : LedStatusModel) : LedStatusModel :=
  match led.status with
  | .fault => { led with fault_phase_on := !led.fault_phase_on }
  | _ => led

def is_on (led : LedStatusModel) : Bool :=
  match led.status with
  | .idle => false
  | .publishing => true
  | .fault => led.fault_phase_on

variable {led : LedStatusModel}

@[simp] theorem transition_status (status : LedStatus) : (led.transition status).status = status := rfl

@[simp] theorem is_on_transition_fault : (led.transition .fault).is_on = true := rfl

@[simp] theorem tick_status : led.tick.status = led.status := by
  unfold tick
  split
  · rfl
  · rfl

theorem is_on_tick (h : led.status = .fault) : led.tick.is_on = !led.is_on := by
  simp only [is_on, tick, h]

end LedStatusModel

/-! ## The code -/

def WIFI_JOIN_TIMEOUT_SECS : ℕ := 15
def DHCP_TIMEOUT_SECS : ℕ := 30
def FAULT_FLASH_INTERVAL_MS : ℕ := 100
def LED_GPIO : UInt8 := 0

def from_millis (millis : ℕ) : ℕ := millis * 1000

inductive JoinAuth : Type where
  | Open
  | Wpa
  | Wpa2
  | Wpa3
  | Wpa2Wpa3

structure JoinOptions where
  auth : JoinAuth
  cipher_tkip : Bool
  cipher_aes : Bool
  passphrase : List UInt8
  passphrase_is_prehashed : Bool

def JoinOptions.new (passphrase : List UInt8) : JoinOptions where
  auth := .Wpa2Wpa3
  cipher_tkip := false
  cipher_aes := true
  passphrase
  passphrase_is_prehashed := false

/-- What the `select` of a join and its timer comes to. -/
inductive JoinReply : Type where
  | timed_out
  | joined
  | failed (error : Cyw43.JoinError)

/-- What is waited for while the LED flashes. -/
inductive Awaited : Type where
  /-- `Timer::at` -/
  | timer (deadline : Instant)
  | link_up
  /-- `wait_config_up`, in the `with_timeout` that ends at `deadline` -/
  | config_up (deadline : Instant)

abbrev Awaited.Output : Awaited → Type
  | .config_up _ => Bool
  | _ => Unit

inductive Ask : Type where
  | now
  | gpio_set (gpio_n : UInt8) (gpio_on : Bool)
  /-- `join_with_gpio_flash`, or 15 seconds -/
  | join (ssid : String) (options : JoinOptions) (gpio_flash : Cyw43.GpioFlash)
  | leave
  | is_link_up
  /-- `select` of what is waited for and 100 ms, which are `none` -/
  | select_flash (future : Awaited)

abbrev Ask.Reply : Ask → Type
  | .now => Instant
  | .gpio_set _ _ => Unit
  | .join _ _ _ => JoinReply
  | .leave => Unit
  | .is_link_up => Bool
  | .select_flash future => Option future.Output

/-- An await that is dropped has no answer. -/
abbrev Ask.Answer (a : Ask) : Type := Option a.Reply

abbrev ConnectM : Type → Type := Proc Ask Ask.Answer Dropped LedStatusModel

def ask (a : Ask) : ConnectM a.Reply := fun led =>
  .call a fun
    | some r => .pure (.ok r, led)
    | none => .pure (.error .dropped, led)

def show_led_status (status : LedStatus) : ConnectM Unit := do
  modify fun led => led.transition status
  ask (.gpio_set LED_GPIO (← get).is_on)

def tick_fault_led : ConnectM Unit := do
  modify fun led => led.tick
  ask (.gpio_set LED_GPIO (← get).is_on)

/-- A loop that is still going on when the fuel is out was dropped. -/
def flash_until (deadline : Instant) : ℕ → ConnectM Unit
  | 0 => throw .dropped
  | fuel + 1 => do
    let now ← ask .now
    if now < deadline then
      match ← ask (.select_flash (.timer deadline)) with
      | some () => return ()
      | none =>
        tick_fault_led
        flash_until deadline fuel
    else return ()

def flash_fault_for (duration fuel : ℕ) : ConnectM Unit := do
  let now ← ask .now
  show_led_status .fault
  flash_until (now + duration) fuel

def await_with_fault_flash (future : Awaited) : ℕ → ConnectM future.Output
  | 0 => throw .dropped
  | fuel + 1 => do
    match ← ask (.select_flash future) with
    | some output => return output
    | none =>
      tick_fault_led
      await_with_fault_flash future fuel

/-- `joined` -/
def join_wifi (ssid : String) (password : List UInt8) : ConnectM Bool := do
  let join_options := { JoinOptions.new password with auth := .Wpa2 }
  let led ← get
  match ← ask (.join ssid join_options { gpio_n := LED_GPIO, gpio_on := led.is_on }) with
  | .timed_out =>
    ask .leave
    show_led_status .fault
    return false
  | .joined =>
    show_led_status .fault
    return true
  | .failed _ =>
    show_led_status .fault
    return false

def wait_link_up (fuel : ℕ) : ConnectM Unit := do
  if !(← ask .is_link_up) then
    await_with_fault_flash .link_up fuel

/-- From the join to the address. -/
def wait_config_up (fuel : ℕ) : ConnectM Bool := do
  wait_link_up fuel
  let now ← ask .now
  await_with_fault_flash (.config_up (now + from_secs DHCP_TIMEOUT_SECS)) fuel

/-- `connect_wifi`, without the report of the address at its end. -/
def connect_wifi (ssid : String) (password : List UInt8) : ℕ → ConnectM Unit
  | 0 => throw .dropped
  | fuel + 1 => do
    if ← join_wifi ssid password then
      if ← wait_config_up fuel then
        return ()
      else
        ask .leave
        show_led_status .fault
        flash_fault_for (from_secs 5) fuel
        connect_wifi ssid password fuel
    else
      flash_fault_for (from_secs 5) fuel
      connect_wifi ssid password fuel

/-! ## Surroundings -/

/-- What was asked, what it came to, and when. -/
structure Note where
  ask : Ask
  reply : Option ask.Reply
  time : Instant

/-- `led_on` is the pin of the LED. -/
structure World where
  now : Instant
  led_on : Bool
  log : List Note

/-- What is known of an answer: timers are not early, and only the driver sets the pin meanwhile. -/
def Ask.Timely : (a : Ask) → World → a.Reply → Instant → Bool → Prop
  | .now, w, r, time, on => r = time ∧ on = w.led_on
  | .gpio_set gpio_n gpio_on, w, _, _, on => on = if gpio_n = LED_GPIO then gpio_on else w.led_on
  | .join _ _ _, w, r, time, _ => r = .timed_out → w.now + from_secs WIFI_JOIN_TIMEOUT_SECS ≤ time
  | .select_flash _, w, none, time, on =>
    w.now + from_millis FAULT_FLASH_INTERVAL_MS ≤ time ∧ on = w.led_on
  | .select_flash (.timer deadline), w, some _, time, on => deadline ≤ time ∧ on = w.led_on
  | .select_flash (.config_up deadline), w, some up, time, on =>
    (up = false → deadline ≤ time) ∧ on = w.led_on
  | _, w, _, _, on => on = w.led_on

def surroundings : Env Ask Ask.Answer World where
  respond a w r w' := ∃ time on, w.now ≤ time ∧ (∀ reply, r = some reply → a.Timely w reply time on)
    ∧ w' = ⟨time, on, ⟨a, r, time⟩ :: w.log⟩
  cut _ _ _ := False

/-! ## How far it has come -/

inductive Phase : Type where
  /-- Nothing is joined; the last try came to its end at `since`. -/
  | apart (since : Option Instant)
  /-- A join was cut off by its timer. -/
  | hanging
  | joined (since : Instant)
  | linked (since : Instant)
  /-- There was no address in time. -/
  | expired (since : Instant)
  | configured

def Phase.since : Phase → Instant
  | .joined since => since
  | .linked since => since
  | .expired since => since
  | _ => 0

/-- What an answer changes. -/
def Phase.note (phase : Phase) : Note → Phase
  | ⟨.join _ _ _, some .timed_out, _⟩ => .hanging
  | ⟨.join _ _ _, some .joined, time⟩ => .joined time
  | ⟨.join _ _ _, some (.failed _), time⟩ => .apart (some time)
  | ⟨.leave, some _, time⟩ => .apart (some time)
  | ⟨.is_link_up, some true, _⟩ => .linked phase.since
  | ⟨.select_flash .link_up, some (some _), _⟩ => .linked phase.since
  | ⟨.select_flash (.config_up _), some (some true), _⟩ => .configured
  | ⟨.select_flash (.config_up _), some (some false), _⟩ => .expired phase.since
  | _ => phase

/-- What the logger set the LED to last, and when. -/
abbrev Lit : Type := Option (Bool × Instant)

def Lit.note (lit : Lit) : Note → Lit
  | ⟨.gpio_set _ gpio_on, some _, time⟩ => some (gpio_on, time)
  | _ => lit

structure Progress where
  phase : Phase
  lit : Lit

def Progress.start : Progress where
  phase := .apart none
  lit := none

def Progress.note (s : Progress) (n : Note) : Progress where
  phase := s.phase.note n
  lit := s.lit.note n

/-- How far the notes go, newest first. -/
def progress : List Note → Progress
  | [] => .start
  | n :: notes => (progress notes).note n

/-- What may be asked then. -/
def May (s : Progress) (w : World) : Ask → Prop
  | .gpio_set gpio_n gpio_on => gpio_n = LED_GPIO ∧ (gpio_on = false →
      ∃ time, s.lit = some (true, time) ∧ time + from_millis FAULT_FLASH_INTERVAL_MS ≤ w.now)
  | .join _ options gpio_flash => options.auth = .Wpa2 ∧ gpio_flash = { gpio_n := LED_GPIO, gpio_on := w.led_on }
      ∧ ∃ since, s.phase = .apart since ∧ ∀ time, since = some time → time + from_secs 5 ≤ w.now
  | .leave => s.phase = .hanging
      ∨ ∃ since, s.phase = .expired since ∧ since + from_secs DHCP_TIMEOUT_SECS ≤ w.now
  | .is_link_up => ∃ since, s.phase = .joined since
  | .select_flash .link_up => ∃ since, s.phase = .joined since
  | .select_flash (.config_up deadline) =>
    ∃ since, s.phase = .linked since ∧ since + from_secs DHCP_TIMEOUT_SECS ≤ deadline
  | .select_flash (.timer deadline) =>
    ∃ time, s.phase = .apart (some time) ∧ time + from_secs 5 ≤ deadline
  | .now => True

/-! ## The rules -/

section Rules

variable {α β : Type} {base : List Note} {led : LedStatusModel} {w : World} {s : Progress}

/-- What began with the log `base` has come so far. -/
def At (base : List Note) (w : World) (s : Progress) : Prop :=
  ∃ notes, w.log = notes ++ base ∧ progress notes = s

theorem At.note (h : At base w s) (n : Note) {time : Instant} {on : Bool} :
    At base ⟨time, on, n :: w.log⟩ (s.note n) := by
  obtain ⟨notes, hlog, rfl⟩ := h
  refine ⟨n :: notes, ?_, rfl⟩
  rw [hlog]
  rfl

/-- Everything that is asked from here on may be asked, and what is returned is in `Q`. -/
def Obeys (base : List Note) (x : ConnectM α) (led : LedStatusModel) (w : World) (s : Progress)
    (Q : α → LedStatusModel → World → Progress → Prop) : Prop :=
  At base w s → Proc.wp surroundings (fun p w _ => ∃ s, At base w s ∧ May s w p) x
    (fun o w' => match o with
      | .ok a led' => ∃ s', At base w' s' ∧ Q a led' w' s'
      | _ => True) led w

theorem Obeys.bind {x : ConnectM α} {f : α → ConnectM β} {P : α → LedStatusModel → World → Progress → Prop}
    {Q : β → LedStatusModel → World → Progress → Prop} (hx : Obeys base x led w s P)
    (hf : ∀ a led' w' s', P a led' w' s' → Obeys base (f a) led' w' s' Q) :
    Obeys base (x >>= f) led w s Q := by
  intro hw
  rw [Proc.wp_bind]
  refine Proc.wp_mono (hx hw) (fun _ _ _ hG => hG) ?_
  rintro (⟨a, led'⟩ | _ | _) w' h'
  · obtain ⟨s', hs', hP⟩ := h'
    exact hf a led' w' s' hP hs'
  · trivial
  · trivial

theorem Obeys.mono {x : ConnectM α} {Q Q' : α → LedStatusModel → World → Progress → Prop}
    (hx : Obeys base x led w s Q) (hQ : ∀ a led' w' s', Q a led' w' s' → Q' a led' w' s') :
    Obeys base x led w s Q' := by
  intro hw
  refine Proc.wp_mono (hx hw) (fun _ _ _ hG => hG) ?_
  rintro (⟨a, led'⟩ | _ | _) w' h'
  · obtain ⟨s', hs', h⟩ := h'
    exact ⟨s', hs', hQ a led' w' s' h⟩
  · trivial
  · trivial

theorem pure_obeys {a : α} {Q : α → LedStatusModel → World → Progress → Prop} (h : Q a led w s) :
    Obeys base (pure a : ConnectM α) led w s Q :=
  fun hw => ⟨s, hw, h⟩

theorem get_obeys {Q : LedStatusModel → LedStatusModel → World → Progress → Prop} (h : Q led led w s) :
    Obeys base (get : ConnectM LedStatusModel) led w s Q :=
  fun hw => ⟨s, hw, h⟩

theorem modify_obeys {f : LedStatusModel → LedStatusModel}
    {Q : PUnit → LedStatusModel → World → Progress → Prop} (h : Q ⟨⟩ (f led) w s) :
    Obeys base (modify f : ConnectM PUnit) led w s Q :=
  fun hw => ⟨s, hw, h⟩

theorem throw_obeys {Q : α → LedStatusModel → World → Progress → Prop} :
    Obeys base (throw .dropped : ConnectM α) led w s Q :=
  fun _ => trivial

/-- A question that may be asked, and any answer to it. -/
theorem ask_obeys {a : Ask} {Q : a.Reply → LedStatusModel → World → Progress → Prop} (hmay : May s w a)
    (h : ∀ reply time on, w.now ≤ time → a.Timely w reply time on →
      Q reply led ⟨time, on, ⟨a, some reply, time⟩ :: w.log⟩ (s.note ⟨a, some reply, time⟩)) :
    Obeys base (ask a) led w s Q := by
  intro hw
  refine ⟨fun r w' hr => ⟨⟨s, hw, hmay⟩, ?_⟩, fun _ hcut => hcut.elim⟩
  obtain ⟨time, on, hlater, htimely, rfl⟩ := hr
  cases r with
  | none => exact trivial
  | some reply => exact ⟨_, hw.note _, h reply time on hlater (htimely reply rfl)⟩

/-! ## The flashing -/

/-- The LED shows a fault, the pin is what the logger knows of it, and the logger set it last. -/
structure Shown (led : LedStatusModel) (w : World) (s : Progress) : Prop where
  fault : led.status = .fault
  pin : w.led_on = led.is_on
  lit : ∃ time, time ≤ w.now ∧ s.lit = some (led.is_on, time)

/-- Later, with the LED as it should be, and in this phase. -/
structure Flashed (phase : Phase) (w : World) (led' : LedStatusModel) (w' : World) (s' : Progress) :
    Prop where
  shown : Shown led' w' s'
  later : w.now ≤ w'.now
  phase : s'.phase = phase

/-- The LED is set as the logger knows it. -/
theorem set_led_obeys {f : LedStatusModel → LedStatusModel} (hfault : (f led).status = .fault)
    (hmay : May s w (.gpio_set LED_GPIO (f led).is_on)) :
    Obeys base (do
      modify f
      ask (.gpio_set LED_GPIO (← get).is_on)) led w s fun _ => Flashed s.phase w := by
  apply Obeys.bind (modify_obeys (Q := fun _ led' w' s' => f led = led' ∧ w = w' ∧ s = s') ⟨rfl, rfl, rfl⟩)
  rintro _ _ _ _ ⟨rfl, rfl, rfl⟩
  apply Obeys.bind (get_obeys
    (Q := fun a led' w' s' => f led = a ∧ f led = led' ∧ w = w' ∧ s = s') ⟨rfl, rfl, rfl, rfl⟩)
  rintro _ _ _ _ ⟨rfl, rfl, rfl, rfl⟩
  apply ask_obeys hmay
  intro _ time on hlater hpin
  exact ⟨⟨hfault, hpin, time, le_rfl, rfl⟩, hlater, rfl⟩

/-- A fault can always be shown. -/
theorem show_fault_obeys : Obeys base (show_led_status .fault) led w s fun _ => Flashed s.phase w := by
  apply set_led_obeys rfl
  -- it is switched on
  refine ⟨rfl, ?_⟩
  intro hoff
  rw [LedStatusModel.is_on_transition_fault] at hoff
  cases hoff

/-- A tick is 100 ms after the last. -/
theorem tick_fault_led_obeys (hfault : led.status = .fault)
    (hlit : ∃ time, s.lit = some (led.is_on, time) ∧ time + from_millis FAULT_FLASH_INTERVAL_MS ≤ w.now) :
    Obeys base tick_fault_led led w s fun _ => Flashed s.phase w := by
  apply set_led_obeys
  · rw [LedStatusModel.tick_status, hfault]
  refine ⟨rfl, ?_⟩
  intro hoff
  obtain ⟨time, hlast, hlong⟩ := hlit
  refine ⟨time, ?_, hlong⟩
  -- what is switched off was on
  rw [LedStatusModel.is_on_tick hfault, Bool.not_eq_false'] at hoff
  rw [hlast, hoff]

/-- What is waited for has come, or it is time for a tick. -/
theorem select_flash_obeys {future : Awaited} (hmay : May s w (.select_flash future)) :
    Obeys base (ask (.select_flash future)) led w s fun reply led' w' s' => led' = led ∧ w.now ≤ w'.now
      ∧ (Ask.select_flash future).Timely w reply w'.now w'.led_on
      ∧ s' = s.note ⟨.select_flash future, some reply, w'.now⟩ :=
  ask_obeys hmay fun _ _ _ hlater htimely => ⟨rfl, hlater, htimely, rfl⟩

/-- What the phase is when what was waited for has come. -/
def Awaited.after (phase : Phase) : (future : Awaited) → future.Output → Phase
  | .timer _, _ => phase
  | .link_up, _ => .linked phase.since
  | .config_up _, true => .configured
  | .config_up _, false => .expired phase.since

/-- A deadline has passed that was waited for. -/
def Awaited.Passed : (future : Awaited) → future.Output → Instant → Prop
  | .timer deadline, _, time => deadline ≤ time
  | .link_up, _, _ => True
  | .config_up deadline, up, time => up = false → deadline ≤ time

/-- It has come. -/
theorem Shown.come {future : Awaited} {output : future.Output} {w' : World} (hshown : Shown led w s)
    (hlater : w.now ≤ w'.now)
    (htimely : (Ask.select_flash future).Timely w (some output) w'.now w'.led_on) :
    Flashed (future.after s.phase output) w led w'
        (s.note ⟨.select_flash future, some (some output), w'.now⟩)
      ∧ future.Passed output w'.now := by
  obtain ⟨hfault, hpin, time, htime, hlit⟩ := hshown
  have hwhen : time ≤ w'.now := htime.trans hlater
  cases future with
  | timer deadline =>
    obtain ⟨hpassed, hon⟩ := htimely
    exact ⟨⟨⟨hfault, hon.trans hpin, time, hwhen, hlit⟩, hlater, rfl⟩, hpassed⟩
  | link_up => exact ⟨⟨⟨hfault, Eq.trans htimely hpin, time, hwhen, hlit⟩, hlater, rfl⟩, trivial⟩
  | config_up deadline =>
    obtain ⟨hpassed, hon⟩ := htimely
    refine ⟨⟨⟨hfault, hon.trans hpin, time, hwhen, hlit⟩, hlater, ?_⟩, hpassed⟩
    cases output with
    | true => rfl
    | false => rfl

/-- It has not, and the LED changes. -/
theorem Shown.tick {future : Awaited} {w' : World} (hshown : Shown led w s) (hlater : w.now ≤ w'.now)
    (htimely : (Ask.select_flash future).Timely w none w'.now w'.led_on) :
    Obeys base tick_fault_led led w' (s.note ⟨.select_flash future, some none, w'.now⟩)
      fun _ => Flashed s.phase w := by
  obtain ⟨hfault, -, time, htime, hlit⟩ := hshown
  have hlong : w.now + from_millis FAULT_FLASH_INTERVAL_MS ≤ w'.now := htimely.1
  have hphase : s.phase.note ⟨.select_flash future, some none, w'.now⟩ = s.phase := by
    cases future with
    | timer deadline => rfl
    | link_up => rfl
    | config_up deadline => rfl
  refine (tick_fault_led_obeys (s := s.note ⟨.select_flash future, some none, w'.now⟩) hfault
    ⟨time, hlit, le_trans ?_ hlong⟩).mono ?_
  · exact Nat.add_le_add_right htime _
  · rintro _ led'' w'' s'' ⟨hshown', hlater', hphase'⟩
    exact ⟨hshown', hlater.trans hlater', hphase'.trans hphase⟩

/-- Only the phase matters for what is waited for. -/
theorem May.select_flash {future : Awaited} {s' : Progress} {w' : World}
    (h : May s w (.select_flash future)) (hphase : s'.phase = s.phase) : May s' w' (.select_flash future) := by
  cases future with
  | timer deadline =>
    change ∃ time, s'.phase = _ ∧ _
    rw [hphase]
    exact h
  | link_up =>
    change ∃ since, s'.phase = _
    rw [hphase]
    exact h
  | config_up deadline =>
    change ∃ since, s'.phase = _ ∧ _
    rw [hphase]
    exact h

/-- **What is waited for** is waited for once, however often the LED changes. -/
theorem await_with_fault_flash_obeys {future : Awaited} {fuel : ℕ} (hshown : Shown led w s)
    (hmay : May s w (.select_flash future)) :
    Obeys base (await_with_fault_flash future fuel) led w s fun output led' w' s' =>
      Flashed (future.after s.phase output) w led' w' s' ∧ future.Passed output w'.now := by
  induction fuel generalizing led w s with
  | zero => exact throw_obeys
  | succ fuel ih =>
    unfold await_with_fault_flash
    apply Obeys.bind (select_flash_obeys hmay)
    rintro reply _ w₁ _ ⟨rfl, hlater, htimely, rfl⟩
    cases reply with
    | some output => exact pure_obeys (hshown.come hlater htimely)
    | none =>
      apply Obeys.bind (hshown.tick hlater htimely)
      intro _ led₂ w₂ s₂ hflashed
      refine (ih hflashed.shown (hmay.select_flash hflashed.phase)).mono ?_
      intro output led' w' s' ⟨hcome, hpassed⟩
      refine ⟨⟨hcome.shown, hflashed.later.trans hcome.later, ?_⟩, hpassed⟩
      rw [hcome.phase, hflashed.phase]

/-- The time can always be read. -/
theorem now_obeys : Obeys base (ask .now) led w s fun now led' w' s' =>
    led' = led ∧ s' = s ∧ w.now ≤ now ∧ w'.now = now ∧ w'.led_on = w.led_on := by
  apply ask_obeys
  · trivial
  intro now time on hlater htimely
  obtain ⟨rfl, rfl⟩ := htimely
  exact ⟨rfl, rfl, hlater, rfl, rfl⟩

theorem Shown.later {w' : World} (h : Shown led w s) (hlater : w.now ≤ w'.now) (hon : w'.led_on = w.led_on) :
    Shown led w' s := by
  obtain ⟨hfault, hpin, time, htime, hlit⟩ := h
  exact ⟨hfault, hon.trans hpin, time, htime.trans hlater, hlit⟩

theorem flash_until_obeys {deadline : Instant} {fuel : ℕ} (hshown : Shown led w s)
    (hmay : May s w (.select_flash (.timer deadline))) :
    Obeys base (flash_until deadline fuel) led w s fun _ led' w' s' =>
      Flashed s.phase w led' w' s' ∧ deadline ≤ w'.now := by
  induction fuel generalizing led w s with
  | zero => exact throw_obeys
  | succ fuel ih =>
    unfold flash_until
    apply Obeys.bind now_obeys
    rintro now _ w₁ _ ⟨rfl, rfl, hlater, hnow, hon⟩
    have hlater₁ : w.now ≤ w₁.now := hlater.trans_eq hnow.symm
    have hshown₁ := hshown.later hlater₁ hon
    by_cases hearly : now < deadline
    · simp only [hearly, if_true]
      apply Obeys.bind (select_flash_obeys (hmay.select_flash rfl))
      rintro reply _ w₂ _ ⟨rfl, hlater₂, htimely, rfl⟩
      cases reply with
      | some output =>
        obtain ⟨hcome, hpassed⟩ := hshown₁.come hlater₂ htimely
        exact pure_obeys ⟨⟨hcome.shown, hlater₁.trans hcome.later, hcome.phase⟩, hpassed⟩
      | none =>
        apply Obeys.bind (hshown₁.tick hlater₂ htimely)
        intro _ led₃ w₃ s₃ hflashed
        refine (ih hflashed.shown (hmay.select_flash hflashed.phase)).mono ?_
        intro _ led' w' s' ⟨hcome, hpassed⟩
        refine ⟨⟨hcome.shown, ?_, hcome.phase.trans hflashed.phase⟩, hpassed⟩
        exact hlater₁.trans (hflashed.later.trans hcome.later)
    · simp only [hearly, if_false]
      refine pure_obeys ⟨⟨hshown₁, hlater₁, rfl⟩, ?_⟩
      rw [hnow]
      exact Nat.le_of_not_lt hearly

/-- **The pause** after a try that came to its end before. -/
theorem flash_fault_for_obeys {since : Instant} {fuel : ℕ} (hphase : s.phase = .apart (some since))
    (hsince : since ≤ w.now) :
    Obeys base (flash_fault_for (from_secs 5) fuel) led w s fun _ led' w' s' =>
      Flashed s.phase w led' w' s' ∧ since + from_secs 5 ≤ w'.now := by
  unfold flash_fault_for
  apply Obeys.bind now_obeys
  rintro now _ w₁ _ ⟨rfl, rfl, hlater, hnow, -⟩
  apply Obeys.bind show_fault_obeys
  intro _ led₂ w₂ s₂ hflashed
  have hpause : since + from_secs 5 ≤ now + from_secs 5 := Nat.add_le_add_right (hsince.trans hlater) _
  refine (flash_until_obeys hflashed.shown ⟨since, hflashed.phase.trans hphase, hpause⟩).mono ?_
  intro _ led' w' s' ⟨hcome, hpassed⟩
  refine ⟨⟨hcome.shown, ?_, hcome.phase.trans hflashed.phase⟩, hpause.trans hpassed⟩
  exact (hlater.trans_eq hnow.symm).trans (hflashed.later.trans hcome.later)

/-! ## The tries -/

variable {ssid : String} {password : List UInt8}

/-- A try may begin. -/
structure Ready (led : LedStatusModel) (w : World) (s : Progress) : Prop where
  pin : w.led_on = led.is_on
  apart : ∃ since, s.phase = .apart since ∧ ∀ time, since = some time → time + from_secs 5 ≤ w.now

/-- The last try has come to its end. -/
structure Ended (w : World) (s : Progress) : Prop where
  apart : ∃ time, s.phase = .apart (some time) ∧ time ≤ w.now

/-- **A join** is left when its timer cuts it off. -/
theorem join_wifi_obeys (hready : Ready led w s) :
    Obeys base (join_wifi ssid password) led w s fun joined led' w' s' => Shown led' w' s' ∧
      if joined = true then ∃ since, s'.phase = .joined since ∧ since ≤ w'.now else Ended w' s' := by
  obtain ⟨hpin, hapart⟩ := hready
  unfold join_wifi
  apply Obeys.bind (get_obeys
    (Q := fun a led' w' s' => a = led ∧ led' = led ∧ w' = w ∧ s' = s) ⟨rfl, rfl, rfl, rfl⟩)
  rintro a led₁ w₁ s₁ ⟨rfl, rfl, rfl, rfl⟩
  refine Obeys.bind (ask_obeys (Q := fun reply led' w' s' => led' = led₁ ∧
    ∃ ssid options gpio_flash, s' = s₁.note ⟨.join ssid options gpio_flash, some reply, w'.now⟩) ?_ ?_) ?_
  · refine ⟨rfl, ?_, hapart⟩
    rw [hpin]
  · intro reply time on _ _
    exact ⟨rfl, _, _, _, rfl⟩
  rintro reply _ w₂ _ ⟨rfl, ssid, options, gpio_flash, rfl⟩
  cases reply with
  | timed_out =>
    refine Obeys.bind (ask_obeys (Q := fun _ led' w' s' => Ended w' s') ?_ ?_) ?_
    · exact .inl rfl
    · intro _ time on _ _
      exact ⟨time, rfl, le_rfl⟩
    intro _ led₃ w₃ s₃ ⟨time, hphase, htime⟩
    apply Obeys.bind show_fault_obeys
    intro _ led₄ w₄ s₄ hflashed
    exact pure_obeys ⟨hflashed.shown, time, hflashed.phase.trans hphase, htime.trans hflashed.later⟩
  | joined =>
    apply Obeys.bind show_fault_obeys
    intro _ led₃ w₃ s₃ hflashed
    exact pure_obeys ⟨hflashed.shown, w₂.now, hflashed.phase, hflashed.later⟩
  | failed error =>
    apply Obeys.bind show_fault_obeys
    intro _ led₃ w₃ s₃ hflashed
    exact pure_obeys ⟨hflashed.shown, w₂.now, hflashed.phase, hflashed.later⟩

/-- The link that is up already, or is waited for. -/
theorem wait_link_up_obeys {since : Instant} {fuel : ℕ} (hshown : Shown led w s)
    (hphase : s.phase = .joined since) :
    Obeys base (wait_link_up fuel) led w s fun _ => Flashed (.linked since) w := by
  unfold wait_link_up
  refine Obeys.bind (ask_obeys (Q := fun up led' w' s' => led' = led ∧ w.now ≤ w'.now
    ∧ w'.led_on = w.led_on ∧ s' = s.note ⟨.is_link_up, some up, w'.now⟩) ?_ ?_) ?_
  · exact ⟨since, hphase⟩
  · intro up time on hlater htimely
    exact ⟨rfl, hlater, htimely, rfl⟩
  rintro up _ w₁ _ ⟨rfl, hlater, hon, rfl⟩
  obtain ⟨hfault, hpin, hlit⟩ := hshown.later hlater hon
  cases up with
  | true =>
    refine pure_obeys ⟨⟨hfault, hpin, hlit⟩, hlater, ?_⟩
    change Phase.linked s.phase.since = _
    rw [hphase]
    rfl
  | false =>
    have hmay : May (s.note ⟨.is_link_up, some false, w₁.now⟩) w₁ (.select_flash .link_up) :=
      ⟨since, hphase⟩
    refine (await_with_fault_flash_obeys ⟨hfault, hpin, hlit⟩ hmay).mono ?_
    rintro _ led' w' s' ⟨hcome, -⟩
    refine ⟨hcome.shown, hlater.trans hcome.later, hcome.phase.trans ?_⟩
    change Phase.linked s.phase.since = _
    rw [hphase]
    rfl

/-- **The address** is waited for half a minute, from when the link is up. -/
theorem wait_config_up_obeys {since : Instant} {fuel : ℕ} (hshown : Shown led w s)
    (hphase : s.phase = .joined since) (hsince : since ≤ w.now) :
    Obeys base (wait_config_up fuel) led w s fun up led' w' s' => Shown led' w' s' ∧
      if up = true then s'.phase = .configured
      else s'.phase = .expired since ∧ since + from_secs DHCP_TIMEOUT_SECS ≤ w'.now := by
  unfold wait_config_up
  apply Obeys.bind (wait_link_up_obeys hshown hphase)
  intro _ led₁ w₁ s₁ hlinked
  apply Obeys.bind now_obeys
  rintro now led₂ w₂ s₂ ⟨rfl, rfl, hlater, hnow, hon⟩
  have hpassed : since + from_secs DHCP_TIMEOUT_SECS ≤ now + from_secs DHCP_TIMEOUT_SECS :=
    Nat.add_le_add_right (hsince.trans (hlinked.later.trans hlater)) _
  have hmay : May s₂ w₂ (.select_flash (.config_up (now + from_secs DHCP_TIMEOUT_SECS))) :=
    ⟨since, hlinked.phase, hpassed⟩
  refine (await_with_fault_flash_obeys (hlinked.shown.later (hlater.trans_eq hnow.symm) hon) hmay).mono ?_
  intro up led' w' s' ⟨hcome, htime⟩
  refine ⟨hcome.shown, ?_⟩
  have hafter := hcome.phase
  rw [hlinked.phase] at hafter
  cases up with
  | true => exact hafter
  | false => exact ⟨hafter, hpassed.trans (htime rfl)⟩

/-- The pause between two tries. -/
theorem pause_obeys {fuel : ℕ} (hended : Ended w s) :
    Obeys base (flash_fault_for (from_secs 5) fuel) led w s fun _ => Ready := by
  obtain ⟨time, hphase, htime⟩ := hended
  refine (flash_fault_for_obeys hphase htime).mono ?_
  intro _ led' w' s' ⟨hflashed, hpause⟩
  refine ⟨hflashed.shown.pin, some time, hflashed.phase.trans hphase, ?_⟩
  intro _ hsame
  cases hsame
  exact hpause

/-- **The tries**, one after the other. -/
theorem connect_wifi_obeys {fuel : ℕ} (hready : Ready led w s) :
    Obeys base (connect_wifi ssid password fuel) led w s fun _ led' w' s' =>
      Shown led' w' s' ∧ s'.phase = .configured := by
  induction fuel generalizing led w s with
  | zero => exact throw_obeys
  | succ fuel ih =>
    unfold connect_wifi
    apply Obeys.bind (join_wifi_obeys hready)
    intro joined led₁ w₁ s₁ ⟨hshown, hjoined⟩
    cases joined with
    | false =>
      apply Obeys.bind (pause_obeys hjoined)
      intro _ led₂ w₂ s₂ hready₂
      exact ih hready₂
    | true =>
      obtain ⟨since, hphase, hsince⟩ := hjoined
      apply Obeys.bind (wait_config_up_obeys hshown hphase hsince)
      intro up led₂ w₂ s₂ ⟨hshown₂, hup⟩
      cases up with
      | true => exact pure_obeys ⟨hshown₂, hup⟩
      | false =>
        -- there is no address, and the network is left
        refine Obeys.bind (ask_obeys (Q := fun _ led' w' s' => Ended w' s') ?_ ?_) ?_
        · exact .inr ⟨since, hup⟩
        · intro _ time on _ _
          exact ⟨time, rfl, le_rfl⟩
        intro _ led₃ w₃ s₃ ⟨time, hapart, htime⟩
        apply Obeys.bind show_fault_obeys
        intro _ led₄ w₄ s₄ hflashed
        apply Obeys.bind (pause_obeys ⟨time, hflashed.phase.trans hapart, htime.trans hflashed.later⟩)
        intro _ led₅ w₅ s₅ hready₅
        exact ih hready₅

end Rules

section Runs

variable {ssid : String} {password : List UInt8} {fuel : ℕ} {led : LedStatusModel}

/-- **Connecting.** From any state of the LED that the logger knows, with any answers of the radio and the
network, dropped anywhere: a join is asked for when nothing is joined and no join hangs, five
seconds after the try before it has come to its end, and with the LED as it is on the pin. A network
is left when its join was cut off, or half a minute after it was joined, without an address. The LED
goes off only 100 ms after the logger has switched it on. When `connect_wifi` returns there is a network
with an address, joined since the last was left, and the LED on the pin is the fault light
that the logger knows. -/
theorem network_of_connect {w w' : World} {tr : List (Event Ask World)}
    {o : Outcome (Except Dropped Unit × LedStatusModel)} (hpin : w.led_on = led.is_on)
    (h : Exec surroundings ((connect_wifi ssid password fuel).prog led) w tr o w') :
    (∀ e ∈ tr, ∃ notes, e.before.log = notes ++ w.log ∧ May (progress notes) e.before e.prim)
      ∧ ∀ led', o = .done (.ok (), led') → led'.status = .fault ∧ w'.led_on = led'.is_on
        ∧ ∃ notes, w'.log = notes ++ w.log ∧ (progress notes).phase = .configured := by
  have hready : Ready led w .start := ⟨hpin, none, rfl, nofun⟩
  have hstart : At w.log w .start := ⟨[], rfl, rfl⟩
  obtain ⟨hall, hend⟩ := Proc.wp_sound (connect_wifi_obeys hready hstart) h
  refine ⟨?_, ?_⟩
  · intro e he
    obtain ⟨_, ⟨notes, hlog, rfl⟩, hmay⟩ := hall e he
    exact ⟨notes, hlog, hmay⟩
  · intro led' ho
    subst ho
    obtain ⟨_, ⟨notes, hlog, rfl⟩, hshown, hphase⟩ := hend
    exact ⟨hshown.fault, hshown.pin, notes, hlog, hphase⟩

/-- The first join takes too long, and the second succeeds at once. -/
def second_answer : (a : Ask) → World → a.Reply × Instant × Bool
  | .now, w => (w.now, w.now, w.led_on)
  | .gpio_set gpio_n gpio_on, w => ((), w.now, if gpio_n = LED_GPIO then gpio_on else w.led_on)
  | .join _ _ _, w =>
    if w.log.isEmpty then (.timed_out, w.now + from_secs WIFI_JOIN_TIMEOUT_SECS, true)
    else (.joined, w.now, true)
  | .leave, w => ((), w.now, w.led_on)
  | .is_link_up, w => (true, w.now, w.led_on)
  | .select_flash (.timer deadline), w => (some (), max w.now deadline, w.led_on)
  | .select_flash .link_up, w => (some (), w.now, w.led_on)
  | .select_flash (.config_up _), w => (some true, w.now, w.led_on)

def second_try (a : Ask) (w : World) : Ask.Answer a × World :=
  let answer := second_answer a w
  (some answer.1, ⟨answer.2.1, answer.2.2, ⟨a, some answer.1, answer.2.1⟩ :: w.log⟩)

theorem second_answer_timely (a : Ask) (w : World) : w.now ≤ (second_answer a w).2.1
    ∧ a.Timely w (second_answer a w).1 (second_answer a w).2.1 (second_answer a w).2.2 := by
  cases a with
  | now => exact ⟨le_rfl, rfl, rfl⟩
  | gpio_set gpio_n gpio_on => exact ⟨le_rfl, rfl⟩
  | join ssid options gpio_flash =>
    by_cases hempty : w.log.isEmpty = true
    · simp only [second_answer, hempty, if_true]
      exact ⟨Nat.le_add_right _ _, fun _ => le_rfl⟩
    · simp only [second_answer, hempty]
      exact ⟨le_rfl, nofun⟩
  | leave => exact ⟨le_rfl, rfl⟩
  | is_link_up => exact ⟨le_rfl, rfl⟩
  | select_flash future =>
    cases future with
    | timer deadline => exact ⟨le_max_left _ _, le_max_right _ _, rfl⟩
    | link_up => exact ⟨le_rfl, rfl⟩
    | config_up deadline => exact ⟨le_rfl, nofun, rfl⟩

theorem second_try_le : (Env.ofStep second_try).Le surroundings := by
  refine ⟨?_, fun h => h.elim⟩
  intro a w r w' h
  obtain ⟨hr, hw'⟩ := Prod.mk.inj h
  obtain ⟨hlater, htimely⟩ := second_answer_timely a w
  refine ⟨_, (second_answer a w).2.2, hlater, ?_, ?_⟩
  · intro reply hreply
    rw [hr, Option.some.injEq] at hreply
    rw [← hreply]
    exact htimely
  · rw [hr, hw']

/-- Twenty seconds from nothing to the address. -/
theorem network_of_connect_second_try : ∃ w' : World, w'.now = 20000000 ∧ w'.led_on = true
    ∧ ∃ notes, w'.log = notes ++ [] ∧ (progress notes).phase = .configured := by
  obtain ⟨tr, hexec⟩ := Prog.exec_run second_try
    ((connect_wifi "basement" [] 3).prog .new) ⟨0, false, []⟩
  have hrun := hexec.mono second_try_le
  obtain ⟨-, -, hnotes⟩ := (network_of_connect rfl hrun).2 ⟨.fault, true⟩ rfl
  exact ⟨_, rfl, rfl, hnotes⟩

end Runs

end PicoDataLogger.Connect
