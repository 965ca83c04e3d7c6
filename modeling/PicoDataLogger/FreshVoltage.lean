/-
No voltage is older than its request.

A response may be left in its signal by a call that timed out or was dropped, and
a request may be left in the other by a call that was dropped. What makes the next
call safe is that it empties the response's signal before it leaves its own
request, with no turn of the bus in between, and that a sample is taken and
responded with in one turn of the bus. So whatever a call finds in the signal was
measured after its request.
-/
import PicoDataLogger.Voltage

set_option autoImplicit false

namespace PicoDataLogger.Voltage

open Interaction Cooperative

/-! ## One step of a program -/

section Laps

variable {α : Type} {w w' : Shared} {es : List (Answer Prim Prim.Reply)}

theorem lap_ask {p : Prim} {f : p.Reply → VoltageM α} {o : VoltageM α ⊕ α} :
    Lap poll (ask p >>= f) w es o w'
      ↔ (∃ r w₁ es', poll p w (some r) w₁ ∧ es = ⟨p, r⟩ :: es' ∧ Lap poll (f r) w₁ es' o w')
        ∨ poll p w none w' ∧ es = [] ∧ o = .inl (ask p >>= f) := Iff.rfl

/-- A call that does not wait. -/
theorem lap_ready {p : Prim} (hp : ∀ w', ¬ poll p w none w') {f : p.Reply → VoltageM α}
    {o : VoltageM α ⊕ α} :
    Lap poll (ask p >>= f) w es o w'
      ↔ ∃ r w₁ es', poll p w (some r) w₁ ∧ es = ⟨p, r⟩ :: es' ∧ Lap poll (f r) w₁ es' o w' :=
  lap_ask.trans (or_iff_left fun hpending => hp w' hpending.1)

/-- A call on the signals or the pad, with the answer they give. -/
theorem lap_op {p : Prim} {g : Shared → p.Reply × Shared} (hp : poll p = .op g)
    {f : p.Reply → VoltageM α} {o : VoltageM α ⊕ α} :
    Lap poll (ask p >>= f) w es o w'
      ↔ ∃ es', es = ⟨p, (g w).1⟩ :: es' ∧ Lap poll (f (g w).1) (g w).2 es' o w' := by
  have hready : ∀ w', ¬ poll p w none w' := by
    rw [hp]
    rintro _ ⟨hnone, -⟩
    cases hnone
  rw [lap_ready hready, hp]
  constructor
  · rintro ⟨r, w₁, es', ⟨hr, rfl⟩, rfl, h⟩
    obtain rfl := Option.some.inj hr
    exact ⟨es', rfl, h⟩
  · rintro ⟨es', rfl, h⟩
    exact ⟨_, _, es', ⟨rfl, rfl⟩, rfl, h⟩

theorem lap_set_pad {p : Prim} (hp : poll p = set_pad) {f : p.Reply → VoltageM α}
    {o : VoltageM α ⊕ α} :
    Lap poll (ask p >>= f) w es o w'
      ↔ ∃ r pad es', es = ⟨p, r⟩ :: es' ∧ Lap poll (f r) { w with pad } es' o w' := by
  have hready : ∀ w', ¬ poll p w none w' := by
    rw [hp]
    rintro _ ⟨hnone, -⟩
    cases hnone
  rw [lap_ready hready, hp]
  constructor
  · rintro ⟨r, w₁, es', ⟨-, pad, rfl⟩, rfl, h⟩
    exact ⟨r, pad, es', rfl, h⟩
  · rintro ⟨r, pad, es', rfl, h⟩
    exact ⟨r, _, es', ⟨rfl, pad, rfl⟩, rfl, h⟩

theorem lap_blocking_read {f : Option UInt16 → VoltageM α} {o : VoltageM α ⊕ α} :
    Lap poll (ask .blocking_read >>= f) w es o w'
      ↔ ∃ r es', es = ⟨.blocking_read, r⟩ :: es' ∧ Lap poll (f r) w es' o w' := by
  have hready : ∀ w', ¬ poll .blocking_read w none w' := by
    rintro _ ⟨hnone, -⟩
    cases hnone
  rw [lap_ready hready]
  constructor
  · rintro ⟨r, w₁, es', ⟨-, rfl⟩, rfl, h⟩
    exact ⟨r, es', rfl, h⟩
  · rintro ⟨r, es', rfl, h⟩
    exact ⟨r, w, es', ⟨rfl, rfl⟩, rfl, h⟩

end Laps

/-! ## A sample -/

/-- Conversions that went through. -/
def readings (conversions : List UInt16) : List (Answer Prim Prim.Reply) :=
  conversions.map fun conversion => ⟨.blocking_read, some conversion⟩

def total (conversions : List UInt16) : UInt32 := (conversions.map UInt16.toUInt32).sum

/-- What a sequence of conversions comes to: the first is discarded and sixteen are averaged, unless
one fails, which is the last one then. -/
inductive Converted : Option F32 → List (Answer Prim Prim.Reply) → Prop where
  | ok (first : UInt16) {rest : List UInt16} (h : rest.length = 16) :
      Converted (some (volts (millivolts (total rest)))) (readings (first :: rest))
  | failed {conversions : List UInt16} (h : conversions.length ≤ 16) :
      Converted none (readings conversions ++ [⟨.blocking_read, none⟩])

/-- Nothing is responded. -/
def Silent (es : List (Answer Prim Prim.Reply)) : Prop :=
  ∀ e ∈ es, ∀ voltage, e.prim ≠ .response_signal voltage

/-- The last response in `es` is `voltage`, and it was measured in `es`, right before it was
responded. -/
def Samples (voltage : Option F32) (es : List (Answer Prim Prim.Reply)) : Prop :=
  ∃ before saved_pad conversions after,
    es = before ++ (⟨.pad_read, saved_pad⟩ :: ⟨.channel_new_pin, ()⟩ :: ⟨.block_for 100, ()⟩ :: conversions)
        ++ ⟨.channel_drop, ()⟩ :: ⟨.pad_write_value saved_pad, ()⟩
          :: ⟨.response_signal voltage, ()⟩ :: after
      ∧ Converted voltage conversions ∧ Silent after

section Sample

variable {w w' : Shared} {es es' : List (Answer Prim Prim.Reply)} {voltage : Option F32}

theorem Silent.append (h : Silent es) (h' : Silent es') : Silent (es ++ es') := by
  intro e he
  rcases List.mem_append.mp he with he | he
  · exact h e he
  · exact h' e he

theorem silent_nil : Silent [] := nofun

theorem Samples.append_left (es : List (Answer Prim Prim.Reply)) (h : Samples voltage es') :
    Samples voltage (es ++ es') := by
  obtain ⟨before, saved_pad, conversions, after, rfl, hconverted, hsilent⟩ := h
  refine ⟨es ++ before, saved_pad, conversions, after, ?_, hconverted, hsilent⟩
  simp only [List.append_assoc]

theorem Samples.append_right (h : Samples voltage es) (h' : Silent es') :
    Samples voltage (es ++ es') := by
  obtain ⟨before, saved_pad, conversions, after, rfl, hconverted, hsilent⟩ := h
  refine ⟨before, saved_pad, conversions, after ++ es', ?_, hconverted, hsilent.append h'⟩
  simp only [List.append_assoc, List.cons_append]

theorem total_cons (conversion : UInt16) (rest : List UInt16) :
    total (conversion :: rest) = conversion.toUInt32 + total rest := by
  rw [total, List.map_cons, List.sum_cons, total]

theorem lap_add_conversions {n : ℕ} {sum : UInt32} {o : VoltageM (Option UInt32) ⊕ Option UInt32} :
    Lap poll (add_conversions n sum) w es o w' ↔ w' = w
      ∧ ((∃ conversions, conversions.length = n ∧ es = readings conversions
          ∧ o = .inr (some (sum + total conversions)))
        ∨ ∃ conversions, conversions.length < n
          ∧ es = readings conversions ++ [⟨.blocking_read, none⟩] ∧ o = .inr none) := by
  -- on the conversions still to come, for any sum so far
  induction n generalizing sum es with
  | zero =>
    constructor
    · rintro ⟨rfl, rfl, rfl⟩
      exact ⟨rfl, .inl ⟨[], rfl, rfl, by rw [total, List.map_nil, List.sum_nil, UInt32.add_zero]⟩⟩
    · rintro ⟨rfl, ⟨conversions, hlength, rfl, rfl⟩ | ⟨conversions, hlength, -⟩⟩
      · obtain rfl := List.length_eq_zero_iff.mp hlength
        exact ⟨rfl, by rw [total, List.map_nil, List.sum_nil, UInt32.add_zero], rfl⟩
      · exact absurd hlength (Nat.not_lt_zero _)
  | succ n ih =>
    rw [add_conversions, lap_blocking_read]
    constructor
    · rintro ⟨_ | conversion, es', rfl, h⟩
      -- this one fails: it ends the loop, and is the last event
      · obtain ⟨rfl, rfl, rfl⟩ := h
        exact ⟨rfl, .inr ⟨[], Nat.succ_pos n, rfl, rfl⟩⟩
      · obtain ⟨rfl, ⟨conversions, rfl, rfl, rfl⟩ | ⟨conversions, hlength, rfl, rfl⟩⟩ := ih.mp h
        · refine ⟨rfl, .inl ⟨conversion :: conversions, rfl, rfl, ?_⟩⟩
          rw [total_cons, UInt32.add_assoc]
        · exact ⟨rfl, .inr ⟨conversion :: conversions, Nat.succ_lt_succ hlength, rfl, rfl⟩⟩
    · rintro ⟨rfl, ⟨_ | ⟨conversion, conversions⟩, hlength, rfl, rfl⟩
        | ⟨_ | ⟨conversion, conversions⟩, hlength, rfl, rfl⟩⟩
      · cases hlength
      · refine ⟨some conversion, _, rfl, ih.mpr ⟨rfl, .inl ⟨conversions, Nat.succ.inj hlength, rfl, ?_⟩⟩⟩
        rw [total_cons, UInt32.add_assoc]
      · exact ⟨none, [], rfl, rfl, rfl, rfl⟩
      · exact ⟨some conversion, _, rfl,
          ih.mpr ⟨rfl, .inr ⟨conversions, Nat.lt_of_succ_lt_succ hlength, rfl, rfl⟩⟩⟩

/-- The events of a sample. -/
def sample_events (saved_pad : UInt32) (voltage : Option F32)
    (conversions : List (Answer Prim Prim.Reply)) : List (Answer Prim Prim.Reply) :=
  (⟨.pad_read, saved_pad⟩ :: ⟨.channel_new_pin, ()⟩ :: ⟨.block_for 100, ()⟩ :: conversions)
    ++ [⟨.channel_drop, ()⟩, ⟨.pad_write_value saved_pad, ()⟩, ⟨.response_signal voltage, ()⟩]

theorem lap_convert {o : VoltageM (Option F32) ⊕ Option F32} : Lap poll convert w es o w'
    ↔ w' = w ∧ ∃ voltage, Converted voltage es ∧ o = .inr voltage := by
  rw [convert, lap_blocking_read]
  constructor
  · rintro ⟨_ | first, es', rfl, h⟩
    · obtain ⟨rfl, rfl, rfl⟩ := h
      exact ⟨rfl, none, @Converted.failed [] (Nat.zero_le 16), rfl⟩
    -- the first conversion is an event like the others, but not part of the sum
    · rcases (lap_bind _ _).mp h with ⟨r, w₁, es₁, es₂, hadd, rfl, rfl, rfl, rfl⟩ | ⟨rest, hadd, -⟩
      · obtain ⟨rfl, ⟨conversions, hlength, rfl, hr⟩ | ⟨conversions, hlength, rfl, hr⟩⟩ :=
          lap_add_conversions.mp hadd
        · obtain rfl := Sum.inr.inj hr
          rw [List.append_nil, UInt32.zero_add]
          exact ⟨rfl, _, .ok first hlength, rfl⟩
        · obtain rfl := Sum.inr.inj hr
          rw [List.append_nil]
          exact ⟨rfl, none, @Converted.failed (first :: conversions) hlength, rfl⟩
      -- a conversion is never pending
      · obtain ⟨-, ⟨_, -, -, hr⟩ | ⟨_, -, -, hr⟩⟩ := lap_add_conversions.mp hadd
        · cases hr
        · cases hr
  · rintro ⟨rfl, voltage, hconverted, rfl⟩
    cases hconverted with
    | @ok first rest hlength =>
      refine ⟨some first, readings rest, rfl, (lap_bind _ _).mpr (.inl ⟨_, w', _, [],
        lap_add_conversions.mpr ⟨rfl, .inl ⟨rest, hlength, rfl, rfl⟩⟩, (List.append_nil _).symm, rfl, ?_, rfl⟩)⟩
      rw [UInt32.zero_add]
      rfl
    | @failed conversions hlength =>
      cases conversions with
      | nil => exact ⟨none, [], rfl, rfl, rfl, rfl⟩
      | cons first conversions =>
        exact ⟨some first, _, rfl, (lap_bind _ _).mpr (.inl ⟨_, w', _, [],
          lap_add_conversions.mpr ⟨rfl, .inr ⟨conversions, hlength, rfl, rfl⟩⟩, (List.append_nil _).symm,
          rfl, rfl, rfl⟩)⟩

/-- **A sample** responds with what it has converted, and leaves the pad as it was. -/
theorem lap_sample {o : VoltageM Unit ⊕ Unit} : Lap poll sample w es o w'
    ↔ ∃ voltage conversions, Converted voltage conversions
      ∧ es = sample_events w.pad voltage conversions ∧ o = .inr ()
      ∧ w' = { w with RESPONSE := some voltage } := by
  rw [sample, lap_op rfl]
  constructor
  -- up to the conversions
  · rintro ⟨_, rfl, hnew⟩
    obtain ⟨-, pad, _, rfl, hblock⟩ := (lap_set_pad rfl).mp hnew
    obtain ⟨_, rfl, hrest⟩ := (lap_op rfl).mp hblock
    rcases (lap_bind _ _).mp hrest with ⟨voltage, w₁, es₁, es₂, hconvert, rfl, h⟩ | ⟨rest, hconvert, -⟩
    -- from the conversions to the response: what is written to the pad is what was read from it
    · obtain ⟨rfl, _, hconverted, ho⟩ := lap_convert.mp hconvert
      obtain rfl := Sum.inr.inj ho
      obtain ⟨-, pad', _, rfl, hpad⟩ := (lap_set_pad rfl).mp h
      obtain ⟨_, rfl, hsignal⟩ := (lap_op rfl).mp hpad
      obtain ⟨_, rfl, hend⟩ := (lap_op (f := pure) rfl).mp hsignal
      obtain ⟨rfl, rfl, rfl⟩ := hend
      exact ⟨voltage, es₁, hconverted, rfl, rfl, rfl⟩
    · obtain ⟨-, _, -, ho⟩ := lap_convert.mp hconvert
      cases ho
  · rintro ⟨voltage, conversions, hconverted, rfl, rfl, rfl⟩
    refine ⟨_, rfl, (lap_set_pad rfl).mpr ⟨(), w.pad, _, rfl, (lap_op rfl).mpr ⟨_, rfl, ?_⟩⟩⟩
    refine (lap_bind _ _).mpr (.inl ⟨voltage, _, conversions, _,
      lap_convert.mpr ⟨rfl, voltage, hconverted, rfl⟩, rfl, ?_⟩)
    refine (lap_set_pad rfl).mpr ⟨(), w.pad, _, rfl, (lap_op rfl).mpr ⟨_, rfl, ?_⟩⟩
    exact (lap_op (f := pure) rfl).mpr ⟨[], rfl, rfl, rfl, rfl⟩

theorem samples_sample_events {saved_pad : UInt32} {conversions : List (Answer Prim Prim.Reply)}
    (h : Converted voltage conversions) : Samples voltage (sample_events saved_pad voltage conversions) :=
  ⟨[], saved_pad, conversions, [], rfl, h, silent_nil⟩

end Sample

/-! ## A turn of the bus -/

/-- A piece of a turn of the bus: it leaves the response alone, or the response is the one it has
sampled last. -/
structure Serves (w : Shared) (es : List (Answer Prim Prim.Reply)) (w' : Shared) : Prop where
  response : Silent es ∧ w'.RESPONSE = w.RESPONSE
    ∨ ∃ voltage, Samples voltage es ∧ w'.RESPONSE = some voltage
  pad : w'.pad = w.pad

/-- What an operation of the bus waits with. -/
def BusOp.pending : (op : BusOp) → VoltageM (Option op.Value)
  | .cmd_write write => some <$> ask (.spi_cmd_write write)
  | .cmd_read command len => some <$> ask (.spi_cmd_read command len)
  | .wait_for_event => Voltage.wait_for_event

section Bus

variable {w w₁ w' : Shared} {es es' : List (Answer Prim Prim.Reply)}

theorem silent_singleton {e : Answer Prim Prim.Reply} (h : ∀ voltage, e.prim ≠ .response_signal voltage) :
    Silent [e] := by
  intro e' he'
  obtain rfl := List.mem_singleton.mp he'
  exact h

theorem Serves.refl (w : Shared) : Serves w [] w := ⟨.inl ⟨silent_nil, rfl⟩, rfl⟩

theorem Serves.append (h : Serves w es w₁) (h' : Serves w₁ es' w') : Serves w (es ++ es') w' := by
  refine ⟨?_, h'.pad.trans h.pad⟩
  rcases h'.response with ⟨hsilent', heq'⟩ | ⟨voltage, hsamples', heq'⟩
  · rcases h.response with ⟨hsilent, heq⟩ | ⟨voltage, hsamples, heq⟩
    · exact .inl ⟨hsilent.append hsilent', heq'.trans heq⟩
    · exact .inr ⟨voltage, hsamples.append_right hsilent', heq'.trans heq⟩
  · exact .inr ⟨voltage, hsamples'.append_left es, heq'⟩

theorem serves_sample {o : VoltageM Unit ⊕ Unit} (h : Lap poll sample w es o w') :
    Serves w es w' ∧ o = .inr () := by
  obtain ⟨voltage, conversions, hconverted, rfl, rfl, rfl⟩ := lap_sample.mp h
  exact ⟨⟨.inr ⟨voltage, samples_sample_events hconverted, rfl⟩, rfl⟩, rfl⟩

theorem serves_service_request {o : VoltageM Unit ⊕ Unit} (h : Lap poll service_request w es o w') :
    Serves w es w' ∧ o = .inr () := by
  obtain ⟨es', rfl, hlap⟩ := (lap_op rfl).mp h
  have htake : Serves w [⟨.request_try_take, w.REQUEST⟩] { w with REQUEST := none } :=
    ⟨.inl ⟨silent_singleton nofun, rfl⟩, rfl⟩
  -- what was taken decides, and it is gone in either case
  cases hrequest : w.REQUEST with
  | none =>
    simp only [hrequest] at hlap htake ⊢
    obtain ⟨rfl, rfl, rfl⟩ := hlap
    exact ⟨htake, rfl⟩
  | some _ =>
    simp only [hrequest] at hlap htake ⊢
    obtain ⟨hserves, rfl⟩ := serves_sample hlap
    exact ⟨htake.append hserves, rfl⟩

/-- What only waits for the outside. -/
theorem serves_event {p : Prim} (hp : poll p = .event) (hne : ∀ voltage, p ≠ .response_signal voltage)
    {o : VoltageM p.Reply ⊕ p.Reply} (h : Lap poll (ask p) w es o w') :
    Serves w es w' ∧ ∀ rest, o = .inl rest → rest = ask p := by
  rcases h with ⟨r, w₁, es', hready, rfl, rfl, rfl, rfl⟩ | ⟨hpending, rfl, rfl⟩
  · rw [hp] at hready
    obtain rfl := hready
    exact ⟨⟨.inl ⟨silent_singleton hne, rfl⟩, rfl⟩, nofun⟩
  · rw [hp] at hpending
    obtain rfl := hpending
    exact ⟨.refl w', fun rest hrest => (Sum.inl.inj hrest).symm⟩

/-- A transfer serves a request before it starts. -/
theorem serves_transfer {p : Prim} (hp : poll p = .event)
    (hne : ∀ voltage, p ≠ .response_signal voltage) {o : VoltageM p.Reply ⊕ p.Reply}
    (h : Lap poll (service_request >>= fun _ => ask p) w es o w') :
    Serves w es w' ∧ ∀ rest, o = .inl rest → rest = ask p := by
  rcases (lap_bind _ _).mp h with ⟨_, w₁, es₁, es₂, hservice, rfl, hask⟩ | ⟨rest, hservice, -⟩
  · obtain ⟨hserves, hrest⟩ := serves_event hp hne hask
    exact ⟨(serves_service_request hservice).1.append hserves, hrest⟩
  · cases (serves_service_request hservice).2

theorem serves_map {α : Type} {x pending : VoltageM α} {o : VoltageM (Option α) ⊕ Option α}
    (hx : ∀ {o'}, Lap poll x w es o' w' → Serves w es w' ∧ ∀ rest, o' = .inl rest → rest = pending)
    (h : Lap poll (some <$> x) w es o w') :
    Serves w es w' ∧ ∀ rest, o = .inl rest → rest = some <$> pending := by
  rcases (lap_map _ _).mp h with ⟨a, hlap, rfl⟩ | ⟨rest, hlap, rfl⟩
  · exact ⟨(hx hlap).1, nofun⟩
  · obtain ⟨hserves, hrest⟩ := hx hlap
    refine ⟨hserves, fun rest' hrest' => ?_⟩
    rw [← Sum.inl.inj hrest', hrest rest rfl]

/-- A round of the event loop: an event ends it, a request is served and begins another. -/
theorem serves_wait_for_event {o : VoltageM (Option Unit) ⊕ Option Unit}
    (h : Lap poll wait_for_event w es o w') :
    Serves w es w' ∧ ∀ rest, o = .inl rest → rest = wait_for_event := by
  rcases lap_ask.mp h with ⟨r, w₁, es', hready, rfl, hlap⟩ | ⟨hpending, rfl, rfl⟩
  -- whichever is ready, `REQUEST` is all that changes
  · have hselect : Serves w [⟨.select_event_request, r⟩] w₁ := by
      refine ⟨.inl ⟨silent_singleton nofun, ?_⟩, ?_⟩
      · cases hready with
        | first hevent => exact congrArg Shared.RESPONSE hevent
        | second hevent hrequest =>
          obtain rfl := hevent
          cases hrequest
          rfl
      · cases hready with
        | first hevent => exact congrArg Shared.pad hevent
        | second hevent hrequest =>
          obtain rfl := hevent
          cases hrequest
          rfl
    cases r with
    | inl _ =>
      -- an event: the loop is left
      obtain ⟨rfl, rfl, rfl⟩ := hlap
      exact ⟨hselect, nofun⟩
    | inr _ =>
      -- a request: the sample is taken at once, as nothing in it waits
      rcases (lap_bind _ _).mp hlap with ⟨_, w₂, es₁, es₂, hsample, rfl, rfl, rfl, rfl⟩
        | ⟨rest, hsample, -⟩
      · rw [List.append_nil]
        exact ⟨hselect.append (serves_sample hsample).1, nofun⟩
      · cases (serves_sample hsample).2
  · cases hpending with
    | pending hevent hrequest =>
      obtain rfl := hevent
      cases hrequest
      exact ⟨.refl w', fun rest hrest => (Sum.inl.inj hrest).symm⟩

/-- A lap of an operation, from its start or from where it waits. -/
theorem BusOp.serves_lap (op : BusOp) {x : VoltageM (Option op.Value)}
    (hx : x = op.loop ∨ x = op.pending) {o : VoltageM (Option op.Value) ⊕ Option op.Value}
    (h : Lap poll x w es o w') : Serves w es w' ∧ ∀ rest, o = .inl rest → rest = op.pending := by
  cases op with
  | cmd_write write =>
    rcases hx with rfl | rfl
    · exact serves_map (serves_transfer (p := .spi_cmd_write write) rfl nofun) h
    · exact serves_map (serves_event (p := .spi_cmd_write write) rfl nofun) h
  | cmd_read command len =>
    rcases hx with rfl | rfl
    · exact serves_map (serves_transfer (p := .spi_cmd_read command len) rfl nofun) h
    · exact serves_map (serves_event (p := .spi_cmd_read command len) rfl nofun) h
  | wait_for_event =>
    rcases hx with rfl | rfl
    · exact serves_wait_for_event h
    · exact serves_wait_for_event h

/-- **A turn of the bus** leaves the response alone or leaves what it has sampled itself, and the
pad is the clock again at every point where it waits. -/
theorem BusOp.serves (op : BusOp) {x : VoltageM (Option op.Value)} (hx : x = op.loop ∨ x = op.pending)
    {o : Turned Prim Prim.Reply op.Value} (h : Turn poll op.loop x w es o w') :
    Serves w es w' ∧ ∀ rest, o = .waiting rest → rest = op.pending :=
  h.rule Serves.append (op.serves_lap (.inl rfl)) (op.serves_lap hx)

end Bus

/-! ## The application's turns -/

/-- `read_voltage` from where it waits. -/
def await_response : VoltageM (Option F32) := do
  match ← ask (.response_wait 1) with
  | .ok voltage => return voltage
  | .error () => do
    ask .request_reset
    return none

section Call

variable {w w' : Shared} {es : List (Answer Prim Prim.Reply)} {o : VoltageM (Option F32) ⊕ Option F32}

/-- A call that waits takes the response if there is one, and returns no voltage but that. -/
theorem lap_await_response (h : Lap poll await_response w es o w') :
    (Silent es ∧ w'.pad = w.pad)
      ∧ (∀ rest, o = .inl rest → rest = await_response ∧ w'.RESPONSE = w.RESPONSE)
      ∧ ∀ v, o = .inr (some v) → w.RESPONSE = some (some v) := by
  rcases lap_ask.mp h with ⟨r, w₁, es', hready, rfl, hlap⟩ | ⟨hpending, rfl, rfl⟩
  · cases r with
    | ok voltage =>
      obtain ⟨rfl, rfl, rfl⟩ := hlap
      -- a value was in the signal when it was polled
      cases hready with
      | ready hwait =>
        cases hwait with
        | ready hresponse =>
          refine ⟨⟨silent_singleton nofun, rfl⟩, nofun, fun v hv => ?_⟩
          obtain rfl := Sum.inr.inj hv
          exact hresponse
    | error _ =>
      -- the timer: the request is withdrawn, and there is no voltage
      obtain ⟨es', rfl, hend⟩ := (lap_op rfl).mp hlap
      obtain ⟨rfl, rfl, rfl⟩ := hend
      have hsilent : Silent [(⟨.response_wait 1, .error ()⟩ : Answer Prim Prim.Reply)] :=
        silent_singleton nofun
      cases hready with
      | expired hwait htimer =>
        cases hwait
        obtain rfl := htimer
        exact ⟨⟨hsilent.append (silent_singleton nofun), rfl⟩, nofun, nofun⟩
  · cases hpending with
    | pending hwait htimer =>
      cases hwait
      obtain rfl := htimer
      exact ⟨⟨silent_nil, rfl⟩, fun rest hrest => ⟨(Sum.inl.inj hrest).symm, rfl⟩, nofun⟩

/-- A call signals its request with the response emptied, so its first turn returns no voltage. -/
theorem lap_read_voltage (h : Lap poll read_voltage w es o w') :
    (⟨.request_signal, ()⟩ ∈ es ∧ w'.pad = w.pad)
      ∧ (∀ rest, o = .inl rest → rest = await_response ∧ w'.RESPONSE = none)
      ∧ ∀ v, o ≠ .inr (some v) := by
  obtain ⟨es₁, rfl, hsignal⟩ := (lap_op rfl).mp h
  obtain ⟨es₂, rfl, hawait⟩ := (lap_op rfl).mp hsignal
  obtain ⟨⟨-, hpad⟩, hwaits, hreturns⟩ := lap_await_response hawait
  exact ⟨⟨List.mem_cons_of_mem _ List.mem_cons_self, hpad⟩, hwaits, fun v hv => nomatch hreturns v hv⟩

end Call

/-! ## Runs -/

/-- The call that waits was made in the step `c` of the run, and `since` are the steps after it. -/
structure Called (es : List (Taken System Label)) (c : Taken System Label)
    (since : List (Taken System Label)) : Prop where
  split : ∃ before, es = before ++ c :: since
  act : c.label.act = .read_voltage
  requested : ⟨.request_signal, ()⟩ ∈ c.label.events
  waits : c.after.call.isSome = true
  same : ∀ t ∈ since, t.label.act ≠ .read_voltage ∧ t.after.call.isSome = true

/-- `voltage` was sampled in one of the steps, and it is the last response in them. -/
def SampledIn (voltage : Option F32) (ts : List (Taken System Label)) : Prop :=
  ∃ before d after, ts = before ++ d :: after ∧ Samples voltage d.label.events
    ∧ ∀ t ∈ after, Silent t.label.events

/-- What holds between two steps: a call that waits has in its signal nothing or what was sampled
since it was made. -/
structure Fresh (es : List (Taken System Label)) (S : System) : Prop where
  call : ∀ rest, S.call = some rest → rest = await_response ∧ ∃ c since, Called es c since
    ∧ ∀ voltage, S.shared.RESPONSE = some voltage → SampledIn voltage since
  bus : ∀ task, S.bus = .busy task → task.rest = task.op.pending

section Runs

variable {es : List (Taken System Label)} {S S' : System} {l : Label} {t c : Taken System Label}
  {since : List (Taken System Label)} {voltage : Option F32}

theorem Called.snoc (h : Called es c since) (hact : t.label.act ≠ .read_voltage)
    (hcall : t.after.call.isSome = true) : Called (es ++ [t]) c (since ++ [t]) where
  split := by
    obtain ⟨before, rfl⟩ := h.split
    exact ⟨before, by rw [List.append_assoc, List.cons_append]⟩
  act := h.act
  requested := h.requested
  waits := h.waits
  same := by
    intro t' ht'
    rcases List.mem_append.mp ht' with ht' | ht'
    · exact h.same t' ht'
    · obtain rfl := List.mem_singleton.mp ht'
      exact ⟨hact, hcall⟩

theorem SampledIn.snoc (h : SampledIn voltage since) (hsilent : Silent t.label.events) :
    SampledIn voltage (since ++ [t]) := by
  obtain ⟨before, d, after, rfl, hsamples, hafter⟩ := h
  -- the last sample stays the last one
  refine ⟨before, d, after ++ [t], by rw [List.append_assoc, List.cons_append], hsamples, ?_⟩
  intro t' ht'
  rcases List.mem_append.mp ht' with ht' | ht'
  · exact hafter t' ht'
  · obtain rfl := List.mem_singleton.mp ht'
    exact hsilent

theorem sampledIn_snoc (h : Samples voltage t.label.events) : SampledIn voltage (since ++ [t]) :=
  ⟨since, t, [], rfl, h, fun _ ht => absurd ht List.not_mem_nil⟩

/-- A step after which the same call still waits: it leaves the response alone, or samples it, or
empties it. -/
theorem Fresh.call_snoc (h : Fresh es S) (hcall : S'.call = S.call) (hact : l.act ≠ .read_voltage)
    (hresponse : Silent l.events ∧ S'.shared.RESPONSE = S.shared.RESPONSE
      ∨ (∃ voltage, Samples voltage l.events ∧ S'.shared.RESPONSE = some voltage)
      ∨ S'.shared.RESPONSE = none) (rest : VoltageM (Option F32)) (hrest : S'.call = some rest) :
    rest = await_response ∧ ∃ c since, Called (es ++ [⟨S, l, S'⟩]) c since
      ∧ ∀ voltage, S'.shared.RESPONSE = some voltage → SampledIn voltage since := by
  obtain ⟨heq, c, since, hcalled, hsampled⟩ := h.call rest (hcall.symm.trans hrest)
  refine ⟨heq, c, since ++ [⟨S, l, S'⟩], hcalled.snoc hact (by rw [hrest]; rfl), ?_⟩
  intro voltage hvoltage
  rcases hresponse with ⟨hsilent, hsame⟩ | ⟨v, hsamples, hnew⟩ | hnone
  · exact (hsampled voltage (hsame.symm.trans hvoltage)).snoc hsilent
  · obtain rfl := Option.some.inj (hnew.symm.trans hvoltage)
    exact sampledIn_snoc hsamples
  · rw [hnone] at hvoltage
    cases hvoltage

theorem Serves.call_snoc {w : Shared} (h : Serves S.shared l.events w) :
    Silent l.events ∧ w.RESPONSE = S.shared.RESPONSE
      ∨ (∃ voltage, Samples voltage l.events ∧ w.RESPONSE = some voltage) ∨ w.RESPONSE = none :=
  h.response.imp_right .inl

theorem BusOp.after_eq_busy {op : BusOp} {o : Turned Prim Prim.Reply op.Value} {task : BusTask}
    (h : op.after o = .busy task) (hrest : ∀ rest, o = .waiting rest → rest = op.pending) :
    task.rest = task.op.pending := by
  cases o with
  | waiting rest =>
    obtain rfl := Bus.busy.inj h
    exact hrest rest rfl
  | finished _ => cases h

/-- **Every step keeps it.** -/
theorem Fresh.step (h : Fresh es S) (hstep : Step S l S') : Fresh (es ++ [⟨S, l, S'⟩]) S' := by
  cases hstep with
  | @read_voltage events o w hnone hlap =>
    -- a new call: the signal is empty, so there is nothing to account for
    obtain ⟨⟨hrequested, -⟩, hwaits, -⟩ := lap_read_voltage hlap
    refine ⟨fun rest hrest => ?_, h.bus⟩
    obtain ⟨rfl, hempty⟩ := hwaits rest (Sum.getLeft?_eq_some_iff.mp hrest)
    refine ⟨rfl, _, [], ⟨⟨es, rfl⟩, rfl, hrequested, by rw [hrest]; rfl,
      fun _ ht => absurd ht List.not_mem_nil⟩, ?_⟩
    intro voltage hvoltage
    rw [hempty] at hvoltage
    cases hvoltage
  | @poll_read_voltage rest₀ events o w hsome hlap =>
    refine ⟨fun rest hrest => ?_, h.bus⟩
    -- the call is polled and waits on: no response is made in its turn
    obtain ⟨rfl, c, since, hcalled, hsampled⟩ := h.call rest₀ hsome
    obtain ⟨⟨hsilent, -⟩, hwaits, -⟩ := lap_await_response hlap
    obtain ⟨rfl, hsame⟩ := hwaits rest (Sum.getLeft?_eq_some_iff.mp hrest)
    refine ⟨rfl, c, _, hcalled.snoc nofun (by rw [hrest]; rfl), fun voltage hvoltage => ?_⟩
    exact (hsampled voltage (hsame.symm.trans hvoltage)).snoc hsilent
  -- whatever is left in the signal, no call is there to take it
  | drop_read_voltage => exact ⟨fun _ hrest => (by cases hrest), h.bus⟩
  | new _ hlap =>
    -- a new bus empties both signals
    obtain ⟨_, rfl, hreset⟩ := (lap_op rfl).mp hlap
    obtain ⟨_, rfl, hend⟩ := (lap_op (f := pure) rfl).mp hreset
    obtain ⟨rfl, -, rfl⟩ := hend
    exact ⟨h.call_snoc rfl nofun (.inr (.inr rfl)), fun _ htask => (by cases htask)⟩
  | @start op events o w _ hturn =>
    -- a turn of the bus: what it leaves it has sampled itself, after the call
    obtain ⟨hserves, hrest⟩ := op.serves (.inl rfl) hturn
    exact ⟨h.call_snoc rfl nofun hserves.call_snoc, fun task htask => BusOp.after_eq_busy htask hrest⟩
  | @poll_bus task events o w hbusy hturn =>
    obtain ⟨hserves, hrest⟩ := task.op.serves (.inr (h.bus task hbusy)) hturn
    exact ⟨h.call_snoc rfl nofun hserves.call_snoc, fun task htask => BusOp.after_eq_busy htask hrest⟩
  | drop_op _ => exact ⟨h.call_snoc rfl nofun (.inl ⟨silent_nil, rfl⟩), fun _ htask => (by cases htask)⟩
  | drop => exact ⟨h.call_snoc rfl nofun (.inl ⟨silent_nil, rfl⟩), fun _ htask => (by cases htask)⟩

/-- **The pin is never stranded**: it is analog only inside a turn, so wherever a future is dropped
the pad carries the clock. -/
theorem Fresh.pad (h : Fresh es S) (hstep : Step S l S') : S'.shared.pad = S.shared.pad := by
  cases hstep with
  | read_voltage _ hlap => exact (lap_read_voltage hlap).1.2
  | @poll_read_voltage rest _ _ _ hsome hlap =>
    obtain ⟨rfl, -⟩ := h.call rest hsome
    exact (lap_await_response hlap).1.2
  | drop_read_voltage => rfl
  | new _ hlap =>
    obtain ⟨_, rfl, hreset⟩ := (lap_op rfl).mp hlap
    obtain ⟨_, rfl, hend⟩ := (lap_op (f := pure) rfl).mp hreset
    obtain ⟨rfl, -, rfl⟩ := hend
    rfl
  | @start op _ _ _ _ hturn => exact (op.serves (.inl rfl) hturn).1.pad
  | @poll_bus task _ _ _ hbusy hturn =>
    exact (task.op.serves (.inr (h.bus task hbusy)) hturn).1.pad
  | drop_op _ => rfl
  | drop => rfl

theorem Fresh.run {pad : UInt32} (hrun : Run Step (.boot pad) es S) : Fresh es S :=
  hrun.invariant ⟨fun _ hrest => (by cases hrest), fun _ htask => (by cases htask)⟩
    fun _ _ _ _ h hs => h.step hs

/-- **No stale voltage.** In every interleaving, if the next step is a turn in which `read_voltage`
returns a voltage, that call was made in an earlier step `c`, which signalled its request, and the
voltage was sampled in a step after `c`. -/
theorem voltage_fresh {pad : UInt32} {v : F32} (hrun : Run Step (.boot pad) es S) (hstep : Step S l S')
    (hreturned : l.returned = some (some v)) :
    ∃ c since, Called es c since ∧ SampledIn (some v) since := by
  have hfresh := Fresh.run hrun
  cases hstep with
  | read_voltage _ hlap =>
    obtain ⟨-, -, hreturns⟩ := lap_read_voltage hlap
    -- the turn in which it is called returns no voltage
    exact absurd (Sum.getRight?_eq_some_iff.mp hreturned) (hreturns v)
  | @poll_read_voltage rest _ _ _ hsome hlap =>
    -- the turn in which it finds the response
    obtain ⟨rfl, c, since, hcalled, hsampled⟩ := hfresh.call rest hsome
    obtain ⟨-, -, hreturns⟩ := lap_await_response hlap
    exact ⟨c, since, hcalled, hsampled _ (hreturns v (Sum.getRight?_eq_some_iff.mp hreturned))⟩
  | drop_read_voltage => cases hreturned
  | new _ _ => cases hreturned
  | start _ _ => cases hreturned
  | poll_bus _ _ => cases hreturned
  | drop_op _ => cases hreturned
  | drop => cases hreturned

end Runs

/-! ## A call that is answered -/

/-- The event loop waits if there is no request. -/
theorem turn_wait_for_event {w : Shared} (h : w.REQUEST = none) :
    Turn poll wait_for_event wait_for_event w [] (.waiting wait_for_event) w :=
  .wait (.inr ⟨.pending rfl (.pending h), rfl, rfl⟩)

/-- A request wakes the event loop; it samples, and waits again. -/
theorem turn_sample {w : Shared} {voltage : Option F32} {conversions : List (Answer Prim Prim.Reply)}
    (h : w.REQUEST = some ()) (hconverted : Converted voltage conversions) :
    ∃ es, Turn poll wait_for_event wait_for_event w es (.waiting wait_for_event)
      { w with REQUEST := none, RESPONSE := some voltage } := by
  have hsample : Lap poll sample { w with REQUEST := none } (sample_events w.pad voltage conversions)
      (.inr ()) { w with REQUEST := none, RESPONSE := some voltage } :=
    lap_sample.mpr ⟨voltage, conversions, hconverted, rfl, rfl, rfl⟩
  have hround : Lap poll wait_for_event w
      (⟨.select_event_request, .inr ()⟩ :: (sample_events w.pad voltage conversions ++ []))
      (.inr none) { w with REQUEST := none, RESPONSE := some voltage } := by
    refine lap_ask.mpr (.inl ⟨.inr (), _, _, .second rfl (.ready h), rfl, ?_⟩)
    exact (lap_bind sample _).mpr (.inl ⟨(), _, _, [], hsample, rfl, rfl, rfl, rfl⟩)
  exact ⟨_, .again hround (turn_wait_for_event rfl)⟩

/-- A call made while the bus waits for an event returns what the bus converts then. -/
theorem exists_answered (pad : UInt32) {voltage : Option F32}
    {conversions : List (Answer Prim Prim.Reply)} (hconverted : Converted voltage conversions) :
    ∃ es S l S', Run Step (.boot pad) es S ∧ Step S l S' ∧ l.returned = some voltage := by
  -- five steps: a bus, its event loop, the call, the sample, the answer
  have hwaits : Lap poll await_response ⟨some (), none, pad⟩ [] (.inl await_response)
      ⟨some (), none, pad⟩ := .inr ⟨.pending (.pending rfl) rfl, rfl, rfl⟩
  have hrequest : Lap poll read_voltage ⟨none, none, pad⟩ [⟨.response_reset, ()⟩, ⟨.request_signal, ()⟩]
      (.inl await_response) ⟨some (), none, pad⟩ := by
    refine (lap_op rfl).mpr ⟨_, rfl, ?_⟩
    refine (lap_op rfl).mpr ⟨[], rfl, ?_⟩
    exact hwaits
  have hnew : Step (.boot pad) ⟨.new, _, none⟩ ⟨⟨none, none, pad⟩, none, .idle⟩ :=
    .new rfl ((lap_op rfl).mpr ⟨_, rfl, (lap_op (f := pure) rfl).mpr ⟨[], rfl, rfl, rfl, rfl⟩⟩)
  have hstart : Step ⟨⟨none, none, pad⟩, none, .idle⟩ ⟨.start .wait_for_event, [], none⟩
      ⟨⟨none, none, pad⟩, none, .busy ⟨.wait_for_event, wait_for_event⟩⟩ :=
    @Step.start _ .wait_for_event _ _ _ rfl (turn_wait_for_event rfl)
  have hcall : Step ⟨⟨none, none, pad⟩, none, .busy ⟨.wait_for_event, wait_for_event⟩⟩
      ⟨.read_voltage, _, none⟩
      ⟨⟨some (), none, pad⟩, some await_response, .busy ⟨.wait_for_event, wait_for_event⟩⟩ :=
    .read_voltage (o := .inl await_response) rfl hrequest
  obtain ⟨events, hturn⟩ := turn_sample (w := ⟨some (), none, pad⟩) rfl hconverted
  have hsample : Step
      ⟨⟨some (), none, pad⟩, some await_response, .busy ⟨.wait_for_event, wait_for_event⟩⟩
      ⟨.poll_bus, events, none⟩
      ⟨⟨none, some voltage, pad⟩, some await_response, .busy ⟨.wait_for_event, wait_for_event⟩⟩ :=
    @Step.poll_bus ⟨_, _, .busy ⟨.wait_for_event, wait_for_event⟩⟩ _ _ _ _ rfl hturn
  have hreturn : Step
      ⟨⟨none, some voltage, pad⟩, some await_response, .busy ⟨.wait_for_event, wait_for_event⟩⟩
      ⟨.poll_read_voltage, _, some voltage⟩
      ⟨⟨none, none, pad⟩, none, .busy ⟨.wait_for_event, wait_for_event⟩⟩ :=
    .poll_read_voltage (o := .inr voltage) rfl
      (.inl ⟨.ok voltage, _, [], .ready (.ready rfl), rfl, rfl, rfl, rfl⟩)
  exact ⟨_, _, _, _, (((Run.nil.snoc hnew).snoc hstart).snoc hcall).snoc hsample, hreturn, rfl⟩

/-- A supply of 2.85 V: each of the sixteen conversions is 1179. -/
theorem voltage_fresh_first : ∃ (es : List (Taken System Label)) (S S' : System) (l : Label) (v : F32),
    Run Step (.boot 0) es S ∧ Step S l S' ∧ l.returned = some (some v)
      ∧ v = volts (millivolts (total (List.replicate 16 1179)))
      ∧ ∃ c since, Called es c since ∧ SampledIn (some v) since := by
  obtain ⟨es, S, l, S', hrun, hstep, hreturned⟩ :=
    exists_answered 0 (@Converted.ok 1179 (List.replicate 16 1179) List.length_replicate)
  exact ⟨es, S, S', l, _, hrun, hstep, hreturned, rfl, voltage_fresh hrun hstep hreturned⟩

end PicoDataLogger.Voltage
