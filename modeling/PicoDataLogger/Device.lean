/-
`main.rs`: the device as a program over its surroundings.

The firmware asks three kinds of things. It asks the flash, on behalf of a queue
operation; it awaits the radio, the network, the sensor or a timer; and it makes
synchronous calls that answer at once. An `.await` may never come back: the
awake budget drops the whole cycle future there, so its answer is an `Option`, and
`none` leaves the cycle with `Dropped`. The `FlashQueue` belongs to `main` and
survives that; a power loss takes it too.

What the surroundings answer is arbitrary. Functions of the source that only talk to
them and never to the queue (`connect_wifi`, `synchronize_clock_until_ready`,
`refresh_clock`, `resolve_ipv4`, `create_mqtt_session`, the LED) are one question
each. Everything that is asked is written down in the `log` of the `World`, newest
first, with what was answered.
-/
import PicoDataLogger.Runs

set_option autoImplicit false

namespace PicoDataLogger

open Interaction NorFlash

/-! ## Readings -/

structure Reading where
  device_id : String
  hardware_id : String
  sequence : UInt64
  temperature_c : F32
  relative_humidity_pct : F32
  vsys_voltage_v : Option F32
  on_battery : Option Bool
  timestamp_unix_s : UInt64
  uptime_s : UInt64

inductive EncodeError : Type where
  | bufferTooSmall

/-- `encode_reading`, into a buffer of `buffer` bytes; `to_slice` is the JSON serializer. -/
def encode_reading (to_slice : Reading → ℕ → Option (List UInt8)) (reading : Reading)
    (buffer : ℕ) : Except EncodeError (List UInt8) :=
  match to_slice reading buffer with
  | some encoded => .ok encoded
  | none => .error .bufferTooSmall

def queued_reading (record : MeasurementRecord) (device_id hardware_id : String) : Reading where
  device_id
  hardware_id
  sequence := record.sequence
  temperature_c := record.temperature_c
  relative_humidity_pct := record.relative_humidity_pct
  vsys_voltage_v := record.vsys_voltage_v
  on_battery := record.on_battery
  timestamp_unix_s := record.timestamp_unix_s
  uptime_s := record.uptime_s

/-! ## Clocks and delays -/

/-- `power::now()`, in microseconds. -/
abbrev Instant : Type := ℕ

def as_secs (duration : ℕ) : ℕ := duration / 1000000

def from_secs (secs : ℕ) : ℕ := secs * 1000000

structure ClockAnchor where
  unix_seconds : UInt64
  monotonic : Instant

structure ClockState where
  anchor : ClockAnchor
  next_refresh_at : Instant

def UTC_REFRESH_INTERVAL_SECS : ℕ := 24 * 60 * 60

def ClockState.new (anchor : ClockAnchor) (now : Instant) : ClockState where
  anchor
  next_refresh_at := now + from_secs UTC_REFRESH_INTERVAL_SECS

/-- `u64::checked_add`. -/
def unix_seconds_from_anchor (anchor_unix_seconds : UInt64) (elapsed_seconds : ℕ) :
    Option UInt64 :=
  if anchor_unix_seconds.toNat + elapsed_seconds < 2 ^ 64 then
    some (UInt64.ofNat (anchor_unix_seconds.toNat + elapsed_seconds))
  else none

structure RetryBackoff where
  next_delay_secs : ℕ

def RetryBackoff.new : RetryBackoff := { next_delay_secs := 1 }

/-- The delay after this one. -/
def RetryBackoff.advance (backoff : RetryBackoff) : RetryBackoff :=
  { next_delay_secs := min (2 * backoff.next_delay_secs) 60 }

/-! ## The surroundings -/

inductive LedStatus : Type where
  | idle
  | publishing
  | fault

inductive QoS : Type where
  | atMostOnce
  | atLeastOnce
  | exactlyOnce

structure Publication where
  topic : String
  payload : List UInt8
  qos : QoS

/-- The handle `minimq` gives out for a QoS 1 publication. -/
abbrev Operation : Type := ℕ

/-- What `with_timeout(connection.publish(..))` comes to. -/
inductive PublishReply : Type where
  | submitted (operation : Option Operation)
  | failed
  | timed_out

/-- What `select(connection.poll(), Timer::at(..))` comes to. -/
inductive PollReply : Type where
  | ready
  | failed
  | timed_out

/-- What the firmware awaits. A publication is listed with the reading it was built from. -/
inductive Await : Type where
  | init
  | set_power_management
  | show_led_status (status : LedStatus)
  | gpio_get (pin : UInt8)
  | measure
  | read_voltage
  | connect_wifi (ssid password : String)
  | synchronize_clock_until_ready (ntp_host : String)
  | refresh_clock (clock : ClockState) (ntp_host : String)
  | leave
  | after_secs (secs : ℕ)
  | resolve_ipv4 (host : String)
  | connect (address : UInt32) (port : UInt16)
  | session_connect
  | publish (reading : Reading) (publication : Publication)
  | poll (deadline : Instant)
  | disconnect

abbrev Await.Reply : Await → Type
  | .gpio_get _ => Option Bool
  | .measure => Option (F32 × F32)
  | .read_voltage => Option F32
  | .synchronize_clock_until_ready _ => ClockAnchor
  | .refresh_clock _ _ => ClockState
  | .resolve_ipv4 _ => Option UInt32
  | .connect _ _ => Bool
  | .session_connect => Bool
  | .publish _ _ => PublishReply
  | .poll _ => PollReply
  | _ => Unit

/-- What it calls and has an answer to at once. -/
inductive Query : Type where
  | now
  | is_link_up
  | is_config_up
  | create_mqtt_session (effective_client_id : String)
  | is_pending (operation : Operation)
  | is_complete (operation : Operation)

abbrev Query.Reply : Query → Type
  | .now => Instant
  | _ => Bool

/-- The queue operation on whose behalf the flash is asked. -/
inductive Call : Type where
  | recover
  | op (op : Op)

inductive Ask : Type where
  | flash (c : Call) (p : Prim)
  | await (a : Await)
  | query (q : Query)

/-- The answers. An `.await` that is dropped has none. -/
abbrev Ask.Answer (ε : Type) : Ask → Type
  | .flash _ p => p.Answer ε
  | .await a => Option a.Reply
  | .query q => q.Reply

/-- A question to the surroundings, and the answer. -/
inductive Note : Type where
  | await (a : Await) (r : Option a.Reply)
  | query (q : Query) (r : q.Reply)

/-- The flash, and all that was asked so far, newest first. -/
structure World where
  flash : Flash
  log : List Note

def World.note (w : World) (n : Note) : World := { w with log := n :: w.log }

@[simp] theorem World.note_flash (w : World) (n : Note) : (w.note n).flash = w.flash := rfl

/-- The surroundings: a flash with these faults, and no promise about anything else. -/
def surroundings (F : Faults) (ε : Type) : Env Ask (Ask.Answer ε) World where
  respond
    | .flash _ p, w, r, w' => ∃ m, (F.env ε).respond p w.flash r m ∧ w' = { w with flash := m }
    | .await a, w, r, w' => w' = w.note (.await a r)
    | .query q, w, r, w' => w' = w.note (.query q r)
  cut
    | .flash _ p, w, w' => ∃ m, (F.env ε).cut p w.flash m ∧ w' = { w with flash := m }
    | .await a, w, w' => w' = w ∨ w' = w.note (.await a none)
    | .query _, w, w' => w' = w

/-! ## The firmware -/

/-- The future of the cycle was dropped at an `.await`. -/
inductive Dropped : Type where
  | dropped

/-- What a cycle keeps in memory. -/
structure Runtime where
  queue : FlashQueue
  clock : Option ClockState
  on_battery : Option Bool

/-- What never changes: the configuration, the identity, and the JSON serializer. -/
structure App where
  wifi_ssid : String
  wifi_password : String
  mqtt_host : String
  mqtt_port : UInt16
  mqtt_topic : String
  mqtt_client_id : String
  ntp_host : String
  hardware_id : String
  effective_client_id : String
  started_at : Instant
  to_slice : Reading → ℕ → Option (List UInt8)

def MQTT_PUBLISH_TIMEOUT_SECS : ℕ := 15
def READING_JSON_BUFFER_SIZE : ℕ := 384
def VBUS_SENSE_GPIO : UInt8 := 2

/-- A part of the firmware. -/
abbrev AppM (ε : Type) : Type → Type := Proc Ask (Ask.Answer ε) Dropped Runtime

section Firmware

variable {ε : Type}

/-- `.await` -/
def await (a : Await) : AppM ε a.Reply := fun rt =>
  .call (.await a) fun
    | some r => .pure (.ok r, rt)
    | none => .pure (.error .dropped, rt)

/-- A synchronous call. -/
def query (q : Query) : AppM ε q.Reply := fun rt => .call (.query q) fun r => .pure (.ok r, rt)

/-- A queue operation. It takes no `.await`, so it is never dropped. -/
def call (op : Op) : AppM ε (Except (QueueError ε) op.Value) := fun rt =>
  ((op.proc.prog rt.queue).embed (Ask.flash (.op op)) fun _ r => r).bind
    fun (r, queue) => .pure (.ok r, { rt with queue })

variable (app : App)

def capture_reading (clock : ClockAnchor) (sequence : UInt64) : AppM ε (Option Reading) := do
  match ← await .measure with
  | none => return none
  | some (temperature_c, relative_humidity_pct) =>
    let now ← query .now
    match unix_seconds_from_anchor clock.unix_seconds (as_secs (now - clock.monotonic)) with
    | none => return none
    | some timestamp_unix_s =>
      let now ← query .now
      return some {
        device_id := app.mqtt_client_id
        hardware_id := app.hardware_id
        sequence
        temperature_c
        relative_humidity_pct
        vsys_voltage_v := none
        on_battery := none
        timestamp_unix_s
        uptime_s := UInt64.ofNat (as_secs (now - app.started_at)) }

/-- The arguments `capture_and_enqueue` gives to `append`. -/
def Reading.sample (reading : Reading) : Sample where
  timestamp_unix_s := reading.timestamp_unix_s
  temperature_c := reading.temperature_c
  relative_humidity_pct := reading.relative_humidity_pct
  uptime_s := reading.uptime_s
  vsys_voltage_v := reading.vsys_voltage_v
  on_battery := reading.on_battery

/-- `control.gpio_get(VBUS_SENSE_GPIO)` within a second, turned round. -/
def read_on_battery : AppM ε (Option Bool) := do
  let usb_present ← await (.gpio_get VBUS_SENSE_GPIO)
  return Option.map (fun present : Bool => !present) usb_present

def capture_and_enqueue : AppM ε Bool := do
  await (.show_led_status .publishing)
  let rt ← get
  match rt.clock with
  | none => return false
  | some clock =>
    match ← capture_reading app clock.anchor rt.queue.next_sequence with
    | none =>
      await (.show_led_status .fault)
      return false
    | some reading =>
      let on_battery ← read_on_battery
      let vsys_voltage_v ← await .read_voltage
      match ← call (.append { reading with on_battery, vsys_voltage_v }.sample) with
      | .ok _ => return true
      | .error _ =>
        await (.show_led_status .fault)
        return false

/-- The reading `drain_queue` builds from a record. -/
def App.reading (record : MeasurementRecord) : Reading :=
  queued_reading record app.mqtt_client_id app.hardware_id

/-- The publication it builds from the reading. -/
def App.publication (payload : List UInt8) : Publication where
  topic := app.mqtt_topic
  payload
  qos := .atLeastOnce

/-- The `while connection.is_pending(..)` loop of `drain_queue`: whether the operation is
no longer pending. A loop that is still going on when the fuel is out was dropped. -/
def await_puback (operation : Operation) (puback_deadline : Instant) : ℕ → AppM ε Bool
  | 0 => throw .dropped
  | fuel + 1 => do
    if ← query (.is_pending operation) then
      match ← await (.poll puback_deadline) with
      | .ready => await_puback operation puback_deadline fuel
      | .failed => return false
      | .timed_out => return false
    else return true

/-- One round of the loop in `drain_queue`: what it returns, or `none` to go round again. -/
def drain_round (fuel : ℕ) : AppM ε (Option Bool) := do
  match ← call .peek_oldest with
  | .ok none => return some true
  | .error _ => return some false
  | .ok (some record) =>
    await (.show_led_status .publishing)
    let reading := app.reading record
    match encode_reading app.to_slice reading READING_JSON_BUFFER_SIZE with
    | .error _ => return some false
    | .ok payload =>
      match ← await (.publish reading (app.publication payload)) with
      | .failed => return some false
      | .timed_out => return some false
      | .submitted none => return some false
      | .submitted (some operation) =>
        let now ← query .now
        let settled ← await_puback operation (now + from_secs MQTT_PUBLISH_TIMEOUT_SECS) fuel
        if settled then
          if ← query (.is_complete operation) then
            match ← call .acknowledge_oldest with
            | .error _ => return some false
            | .ok _ =>
              if (← get).queue.depth = 0 then
                await (.show_led_status .idle)
              return none
          else return some false
        else return some false

def drain_queue : ℕ → AppM ε Bool
  | 0 => throw .dropped
  | fuel + 1 => do
    match ← drain_round app fuel with
    | some complete => return complete
    | none => drain_queue fuel

def upload_attempt (fuel : ℕ) : AppM ε Bool := do
  match ← await (.resolve_ipv4 app.mqtt_host) with
  | none => return false
  | some address =>
    if ← await (.connect address app.mqtt_port) then
      if ← query (.create_mqtt_session app.effective_client_id) then
        if ← await .session_connect then
          let complete ← drain_queue app fuel
          if complete then
            await .disconnect
          return complete
        else return false
      else return false
    else return false

/-- Each round of the retry loop first sees to it that there is a network. -/
def rejoin : AppM ε Unit := do
  let link_up ← query .is_link_up
  let config_up ← if link_up then query .is_config_up else pure false
  if !config_up then
    await .leave
    await (.connect_wifi app.wifi_ssid app.wifi_password)

/-- The retry loop of `upload_cycle`. -/
def upload_loop : ℕ → RetryBackoff → AppM ε Unit
  | 0, _ => throw .dropped
  | fuel + 1, backoff => do
    rejoin app
    if ← upload_attempt app fuel then
      await (.show_led_status .idle)
    else
      await (.show_led_status .fault)
      await (.after_secs backoff.next_delay_secs)
      upload_loop fuel backoff.advance

/-- Between joining the network and uploading: a first clock and its sample, or a refresh. -/
def prepare_clock (had_clock : Bool) : AppM ε Unit := do
  if !had_clock then
    let anchor ← await (.synchronize_clock_until_ready app.ntp_host)
    let now ← query .now
    modify fun rt => { rt with clock := some (ClockState.new anchor now) }
    let _ ← capture_and_enqueue app
  else if let some clock := (← get).clock then
    let now ← query .now
    if clock.next_refresh_at ≤ now then
      let clock ← await (.refresh_clock clock app.ntp_host)
      modify fun rt => { rt with clock := some clock }

def upload_cycle (fuel : ℕ) : AppM ε Unit := do
  await .init
  await .set_power_management
  await (.show_led_status .idle)
  let on_battery ← read_on_battery
  modify fun rt => { rt with on_battery }
  let had_clock := (← get).clock.isSome
  if had_clock then
    let _ ← capture_and_enqueue app
  await (.connect_wifi app.wifi_ssid app.wifi_password)
  prepare_clock app had_clock
  upload_loop app fuel .new

end Firmware

/-! ## The device -/

/-- The device between two cycles: `runtime` is `none` while it is off, or has halted. -/
structure Device where
  world : World
  runtime : Option Runtime

/-- The recovery at boot. -/
def boot (ε : Type) (geo : Geometry) :
    Prog Ask (Ask.Answer ε) (Except (QueueError ε) (FlashQueue × RecoveryReport)) :=
  (recover geo.part geo.start geo.length).embed (Ask.flash .recover) fun _ r => r

/-- The memory `main` starts its loop with. -/
def Runtime.fresh (queue : FlashQueue) : Runtime where
  queue
  clock := none
  on_battery := none

/-- The memory after a cycle, however it ended. -/
def afterCycle : Result Dropped Runtime Unit → Option Runtime
  | .ok _ rt => some rt
  | .error _ rt => some rt
  | .cut => none

/-- One power cycle, or one wake cycle; the label is what was asked. -/
inductive Device.Step (ε : Type) (F : Faults) (geo : Geometry) (app : App) :
    Device → List (Event Ask World) → Device → Prop where
  | boot {D : Device} {w : World} {tr : List (Event Ask World)}
      {o : Outcome (Except (QueueError ε) (FlashQueue × RecoveryReport))}
      (h : Exec (surroundings F ε) (boot ε geo) D.world tr o w) :
      Device.Step ε F geo app D tr ⟨w, (recovered o).map Runtime.fresh⟩
  | cycle {rt : Runtime} {w w' : World} {tr : List (Event Ask World)} (fuel : ℕ)
      {o : Outcome (Except Dropped Unit × Runtime)}
      (h : Exec (surroundings F ε) ((upload_cycle app fuel).prog { rt with on_battery := none })
        w tr o w') :
      Device.Step ε F geo app ⟨w, some rt⟩ tr ⟨w', afterCycle (.of o)⟩

/-- A run of a device that is off, on a flash image `m₀`. -/
abbrev DeviceRun (ε : Type) (F : Faults) (geo : Geometry) (app : App) (m₀ : Flash) :
    List (Taken Device (List (Event Ask World))) → Device → Prop :=
  Run (Device.Step ε F geo app) ⟨⟨m₀, []⟩, none⟩

/-- All that a run of the device asked, in order. -/
def asked (es : List (Taken Device (List (Event Ask World)))) : List (Event Ask World) :=
  es.flatMap fun e => e.label

/-- The publications submitted, each with the reading it was built from. -/
def submissions (H : List (Event Ask World)) : List (Reading × Publication) :=
  H.filterMap fun e => match e.prim with
    | .await (.publish reading publication) => some (reading, publication)
    | _ => none

/-- The step does not start with the sequence counter at its last value. -/
def Device.NoWrap (e : Taken Device (List (Event Ask World))) : Prop :=
  ∀ rt, e.before.runtime = some rt → rt.queue.next_sequence.toNat + 1 < 2 ^ 64

end PicoDataLogger
