/-
`voltage.rs`: the supply voltage, measured between two transfers of the radio.

The pin that carries the voltage is also the clock of the radio's SPI bus, so the
application does not measure itself. `read_voltage` leaves a request in one
signal and waits for the response in another; `VoltageSpi`, which owns the bus,
serves the request when no transfer is under way. The two are tasks of one
executor: one runs until it waits, then the other may.

Left out are the wakers, which say when a task is worth polling: here any task
may be polled at any time.
-/
import PicoDataLogger.Cooperative
import PicoDataLogger.Record

set_option autoImplicit false

namespace PicoDataLogger.Voltage

open Interaction Cooperative

/-! ## What the code calls -/

/-- A `Signal` holds at most one value. -/
abbrev Signal (α : Type) : Type := Option α

inductive Prim : Type where
  | response_reset
  | response_signal (voltage : Option F32)
  /-- `with_timeout(Duration::from_secs(secs), RESPONSE.wait())` -/
  | response_wait (secs : ℕ)
  | request_reset
  | request_signal
  | request_try_take
  /-- `pad.read()` -/
  | pad_read
  | pad_write_value (value : UInt32)
  /-- `Channel::new_pin`, which makes the pad analog. -/
  | channel_new_pin
  | channel_drop
  | block_for (micros : ℕ)
  /-- `adc.blocking_read(&mut channel).ok()` -/
  | blocking_read
  | spi_cmd_write (write : List UInt32)
  /-- It fills a buffer of `len` words. -/
  | spi_cmd_read (command : UInt32) (len : ℕ)
  /-- `select(spi.wait_for_event(), REQUEST.wait())` -/
  | select_event_request

abbrev Prim.Reply : Prim → Type
  | .response_wait _ => Except Unit (Option F32)
  | .request_try_take => Option Unit
  | .pad_read => UInt32
  | .blocking_read => Option UInt16
  | .spi_cmd_write _ => UInt32
  | .spi_cmd_read _ _ => UInt32 × List UInt32
  | .select_event_request => Unit ⊕ Unit
  | _ => Unit

/-- `REQUEST`, `RESPONSE`, and the control register of the pad. -/
structure Shared : Type where
  REQUEST : Signal Unit
  RESPONSE : Signal (Option F32)
  pad : UInt32

/-- Whatever it leaves in the pad's register. -/
def set_pad {α : Type} : Poll Shared α := fun w r w' => r.isSome = true ∧ ∃ pad, w' = { w with pad }

/-- How the primitives are polled. A transfer and an event of the bus take as long as they like and
answer what they like, and so do the timers and the conversions. -/
def poll : (p : Prim) → Poll Shared p.Reply
  | .response_reset => .op fun w => ((), { w with RESPONSE := none })
  | .response_signal voltage => .op fun w => ((), { w with RESPONSE := some voltage })
  | .response_wait _ => .withTimeout .event (.wait Shared.RESPONSE fun w => { w with RESPONSE := none })
  | .request_reset => .op fun w => ((), { w with REQUEST := none })
  | .request_signal => .op fun w => ((), { w with REQUEST := some () })
  | .request_try_take => .op fun w => (w.REQUEST, { w with REQUEST := none })
  | .pad_read => .op fun w => (w.pad, w)
  | .pad_write_value value => .op fun w => ((), { w with pad := value })
  | .channel_new_pin => set_pad
  | .channel_drop => set_pad
  | .block_for _ => .op fun w => ((), w)
  | .blocking_read => .query
  | .spi_cmd_write _ => .event
  | .spi_cmd_read _ _ => .event
  | .select_event_request => .select .event (.wait Shared.REQUEST fun w => { w with REQUEST := none })

abbrev VoltageM : Type → Type := Prog Prim Prim.Reply

def ask (p : Prim) : VoltageM p.Reply := .call p .pure

/-! ## The application's side -/

def read_voltage : VoltageM (Option F32) := do
  ask .response_reset
  ask .request_signal
  match ← ask (.response_wait 1) with
  | .ok voltage => return voltage
  | .error () => do
    ask .request_reset
    return none

/-! ## The bus's side -/

/-- `VoltageSpi::new`. -/
def VoltageSpi.new : VoltageM Unit := do
  ask .request_reset
  ask .response_reset

/-- The rest of the loop that adds conversions up; a failed one ends it. -/
def add_conversions : ℕ → UInt32 → VoltageM (Option UInt32)
  | 0, total => return some total
  | n + 1, total => do
    match ← ask .blocking_read with
    | none => return none
    | some conversion => add_conversions n (total + conversion.toUInt32)

/-- Nominal 3.3 V reference, 12-bit ADC, 3:1 divider, rounded to millivolts. -/
def millivolts (total : UInt32) : UInt32 := (total * 9900 + 32768) / 65536

/-- `millivolts as f32 / 1000.0` -/
def volts (millivolts : UInt32) : F32 := ⟨(millivolts.toFloat32 / 1000.0).toBits⟩

/-- The closure in `sample`. -/
def convert : VoltageM (Option F32) := do
  -- the first conversion after switching the pin is discarded
  match ← ask .blocking_read with
  | none => return none
  | some _ => return (← add_conversions 16 0).map fun total => volts (millivolts total)

def sample : VoltageM Unit := do
  let saved_pad ← ask .pad_read
  ask .channel_new_pin
  ask (.block_for 100)
  let voltage ← convert
  ask .channel_drop
  ask (.pad_write_value saved_pad)
  ask (.response_signal voltage)

def service_request : VoltageM Unit := do
  match ← ask .request_try_take with
  | some () => sample
  | none => return ()

def cmd_write (write : List UInt32) : VoltageM UInt32 := do
  service_request
  ask (.spi_cmd_write write)

def cmd_read (command : UInt32) (len : ℕ) : VoltageM (UInt32 × List UInt32) := do
  service_request
  ask (.spi_cmd_read command len)

/-- One round of the loop: `none` is another one. -/
def wait_for_event : VoltageM (Option Unit) := do
  match ← ask .select_event_request with
  | .inl () => return some ()
  | .inr () => do
    sample
    return none

/-! ## The two together -/

/-- What the radio's driver asks of the bus. -/
inductive BusOp : Type where
  | cmd_write (write : List UInt32)
  | cmd_read (command : UInt32) (len : ℕ)
  | wait_for_event

abbrev BusOp.Value : BusOp → Type
  | .cmd_write _ => UInt32
  | .cmd_read _ _ => UInt32 × List UInt32
  | .wait_for_event => Unit

def BusOp.loop : (op : BusOp) → VoltageM (Option op.Value)
  | .cmd_write write => some <$> Voltage.cmd_write write
  | .cmd_read command len => some <$> Voltage.cmd_read command len
  | .wait_for_event => Voltage.wait_for_event

/-- An operation that waits, and what is left of it. -/
structure BusTask : Type where
  op : BusOp
  rest : VoltageM (Option op.Value)

/-- `VoltageSpi`: between two cycles there is none, and it does one operation at a time. -/
inductive Bus : Type where
  | absent
  | idle
  | busy (task : BusTask)

/-- Where a turn of an operation leaves the bus. -/
def BusOp.after (op : BusOp) (o : Turned Prim Prim.Reply op.Value) : Bus :=
  match o with
  | .waiting rest => .busy ⟨op, rest⟩
  | .finished _ => .idle

/-- The signals, the call of `read_voltage` that waits, if there is one, and the bus. -/
structure System : Type where
  shared : Shared
  call : Option (VoltageM (Option F32))
  bus : Bus

/-- At power-on. -/
def System.boot (pad : UInt32) : System where
  shared := { REQUEST := none, RESPONSE := none, pad }
  call := none
  bus := .absent

/-- Whose turn it is, or what is done to one of the two. -/
inductive Act : Type where
  | read_voltage
  | poll_read_voltage
  | drop_read_voltage
  | new
  | start (op : BusOp)
  | poll_bus
  | drop_op
  | drop

/-- A step: what was done, what the primitives answered, and what `read_voltage` returned, if it
returned. -/
structure Label : Type where
  act : Act
  events : List (Answer Prim Prim.Reply)
  returned : Option (Option F32)

/-- **Every interleaving**: a step is a turn of one of the two, up to the point where it waits, or
the dropping of a future at such a point, or a new bus. -/
inductive Step : System → Label → System → Prop where
  | read_voltage {S : System} {es : List (Answer Prim Prim.Reply)}
      {o : VoltageM (Option F32) ⊕ Option F32} {w : Shared} (h : S.call = none)
      (hlap : Lap poll Voltage.read_voltage S.shared es o w) :
      Step S ⟨.read_voltage, es, o.getRight?⟩ { S with shared := w, call := o.getLeft? }
  | poll_read_voltage {S : System} {rest : VoltageM (Option F32)}
      {es : List (Answer Prim Prim.Reply)} {o : VoltageM (Option F32) ⊕ Option F32} {w : Shared}
      (h : S.call = some rest) (hlap : Lap poll rest S.shared es o w) :
      Step S ⟨.poll_read_voltage, es, o.getRight?⟩ { S with shared := w, call := o.getLeft? }
  | drop_read_voltage {S : System} :
      Step S ⟨.drop_read_voltage, [], none⟩ { S with call := none }
  | new {S : System} {es : List (Answer Prim Prim.Reply)} {w : Shared} (h : S.bus = .absent)
      (hlap : Lap poll VoltageSpi.new S.shared es (.inr ()) w) :
      Step S ⟨.new, es, none⟩ { S with shared := w, bus := .idle }
  | start {S : System} {op : BusOp} {es : List (Answer Prim Prim.Reply)}
      {o : Turned Prim Prim.Reply op.Value} {w : Shared} (h : S.bus = .idle)
      (hturn : Turn poll op.loop op.loop S.shared es o w) :
      Step S ⟨.start op, es, none⟩ { S with shared := w, bus := op.after o }
  | poll_bus {S : System} {task : BusTask} {es : List (Answer Prim Prim.Reply)}
      {o : Turned Prim Prim.Reply task.op.Value} {w : Shared} (h : S.bus = .busy task)
      (hturn : Turn poll task.op.loop task.rest S.shared es o w) :
      Step S ⟨.poll_bus, es, none⟩ { S with shared := w, bus := task.op.after o }
  | drop_op {S : System} {task : BusTask} (h : S.bus = .busy task) :
      Step S ⟨.drop_op, [], none⟩ { S with bus := .idle }
  | drop {S : System} : Step S ⟨.drop, [], none⟩ { S with bus := .absent }

end PicoDataLogger.Voltage
