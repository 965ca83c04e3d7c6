/-
One cycle with a network delivers everything.

Whatever a run has left behind, whether readings could be uploaded or not, a
cycle that is not dropped, on flash that behaves and with a network on which everything
succeeds, takes its sample if it can, publishes every record that is stored then, the
new one last, and leaves the queue empty. What a cycle does before the upload is
`Captured`, on the lists of the records alone; the upload is `drain_queue_ends`.
-/
import PicoDataLogger.Drain
import PicoDataLogger.PublicationOrder

set_option autoImplicit false

namespace PicoDataLogger

open Interaction NorFlash SectorLog Proc

/-! ## A network on which everything succeeds -/

structure Network.Up (N : Network) (app : App) : Prop where
  acknowledged : ∀ i, (N.outcome i).acknowledged = true
  resolve_ipv4 : ∀ log, ∃ address, N.await log (.resolve_ipv4 app.mqtt_host) = some address
  connect : ∀ log address, N.await log (.connect address app.mqtt_port) = true
  create_mqtt_session : ∀ log, N.query log (.create_mqtt_session app.effective_client_id) = true
  session_connect : ∀ log, N.await log .session_connect = true

/-- One such network: the PUBACK comes after two polls. -/
def Network.good : Network where
  outcome _ := .puback 2
  await _
    | .gpio_get _ => some true
    | .measure => some (⟨0⟩, ⟨0⟩)
    | .read_voltage => none
    | .synchronize_clock_until_ready _ => ⟨1767225600, 0⟩
    | .refresh_clock clock _ => clock
    | .resolve_ipv4 _ => some 0
    | .connect _ _ => true
    | .session_connect => true
    | .publish _ _ => .failed
    | .poll _ => .failed
    | .init | .set_power_management | .show_led_status _ | .connect_wifi _ _ | .leave
    | .after_secs _ | .disconnect => ()
  query _
    | .now => (0 : ℕ)
    | .is_link_up | .is_config_up | .create_mqtt_session _ | .is_pending _ | .is_complete _ => true

theorem Network.up_good (app : App) : Network.good.Up app where
  acknowledged _ := rfl
  resolve_ipv4 _ := ⟨0, rfl⟩
  connect _ _ := rfl
  create_mqtt_session _ := rfl
  session_connect _ := rfl

/-! ## What a cycle stores -/

/-- What becomes of the records that are stored, before the upload: there is no reading; or it is
appended; or there is no slot for it. A full queue gives up its oldest record first. -/
inductive Captured (N : Network) (capacity : ℕ) (sequence : UInt64) (L : List MeasurementRecord) :
    List MeasurementRecord → Prop where
  | nothing : Captured N capacity sequence L L
  | appended (s : Sample) {log : List Note}
      (h : N.await log .measure = some (s.temperature_c, s.relative_humidity_pct)) :
      Captured N capacity sequence L
        ((if L.length = capacity then L.tail else L) ++ [(s.record sequence).stored])
  | no_slot : Captured N capacity sequence L (if L.length = capacity then L.tail else L)

theorem Captured.length_le {N : Network} {capacity : ℕ} {sequence : UInt64}
    {L L' : List MeasurementRecord} (h : Captured N capacity sequence L L') :
    L'.length ≤ L.length + 1 := by
  have hrest : (if L.length = capacity then L.tail else L).length ≤ L.length := by
    split
    · rw [List.length_tail]
      omega
    · exact le_rfl
  cases h with
  | nothing => omega
  | appended s h =>
    rw [List.length_append]
    exact Nat.add_le_add_right hrest 1
  | no_slot => omega

/-- A queue that is not full gives up nothing. -/
theorem Captured.exists_append {N : Network} {capacity : ℕ} {sequence : UInt64}
    {L L' : List MeasurementRecord} (h : Captured N capacity sequence L L')
    (hroom : L.length ≠ capacity) : ∃ later, L' = L ++ later := by
  cases h with
  | nothing => exact ⟨[], (List.append_nil L).symm⟩
  | appended s h =>
    rw [if_neg hroom]
    exact ⟨_, rfl⟩
  | no_slot =>
    rw [if_neg hroom]
    exact ⟨[], (List.append_nil L).symm⟩

section Capture

variable {ε : Type} {N : Network} {app : App} {rt : Runtime} {w : World} {g : Region}

/-- The queue is untouched, and nothing is published. -/
structure Untouched (rt : Runtime) (w : World) (rt' : Runtime) (w' : World) : Prop where
  queue : rt'.queue = rt.queue
  flash : w'.flash = w.flash
  submitted : submitted w'.log = submitted w.log

/-- A sample has been taken, or has not. -/
structure AfterCapture (N : Network) (g : Region) (rt : Runtime) (w : World) (rt' : Runtime)
    (w' : World) : Prop where
  counted : Counted g rt'.queue w'.flash
  live : Captured N g.capacity rt.queue.next_sequence (g.live w.flash) (g.live w'.flash)
  submitted : submitted w'.log = submitted w.log

theorem Untouched.afterCapture {rt' : Runtime} {w' : World} (h : Untouched rt w rt' w')
    (hq : Counted g rt.queue w.flash) : AfterCapture N g rt w rt' w' := by
  refine ⟨?_, ?_, h.submitted⟩
  · rw [h.queue, h.flash]
    exact hq
  · rw [h.flash]
    exact .nothing

theorem Untouched.trans {rt₁ rt' : Runtime} {w₁ w' : World} (h : Untouched rt w rt₁ w₁)
    (h' : Untouched rt₁ w₁ rt' w') : Untouched rt w rt' w' :=
  ⟨h'.queue.trans h.queue, h'.flash.trans h.flash, h'.submitted.trans h.submitted⟩

/-- A capture after something else. -/
theorem AfterCapture.of_untouched {rt₁ rt' : Runtime} {w₁ w' : World} (h : Untouched rt w rt₁ w₁)
    (h' : AfterCapture N g rt₁ w₁ rt' w') : AfterCapture N g rt w rt' w' := by
  obtain ⟨hcounted, hlive, hsubmitted⟩ := h'
  rw [h.queue, h.flash] at hlive
  exact ⟨hcounted, hlive, hsubmitted.trans h.submitted⟩

/-- Something else after a capture. -/
theorem AfterCapture.untouched {rt₁ rt' : Runtime} {w₁ w' : World} (h : AfterCapture N g rt w rt₁ w₁)
    (h' : Untouched rt₁ w₁ rt' w') : AfterCapture N g rt w rt' w' := by
  refine ⟨?_, ?_, h'.submitted.trans h.submitted⟩
  · rw [h'.queue, h'.flash]
    exact h.counted
  · rw [h'.flash]
    exact h.live

/-- The record that was appended is the last of the list. -/
theorem live_appended {q : FlashQueue} {m : Flash} (hq : InStep q.region q m) {s : Sample} {i : ℕ}
    (hf : q.region.firstErased (q.cleared m) = some i) :
    q.region.live (q.region.reclaimedAll
        (q.region.written (q.cleared m) i (s.record q.next_sequence)))
      = q.region.live (q.cleared m) ++ [(s.record q.next_sequence).stored] := by
  have hsound := sound_cleared hq.sound
  obtain ⟨hi, hv⟩ := firstErased_spec hf
  rw [Region.live_reclaimedAll, Region.live, Region.view_written hf,
    hsound.live_commit hi (by rw [hv]; rfl) (seqKey_record _ _)]
  rfl

/-- An append on flash that behaves, on the lists of the records. -/
theorem AppendEnd.captured {q : FlashQueue} {m m' : Flash} {s : Sample}
    {r : Result (QueueError ε) FlashQueue MeasurementRecord} (h : AppendEnd .none s q m r m')
    (hq : InStep q.region q m) {log : List Note}
    (hs : N.await log .measure = some (s.temperature_c, s.relative_humidity_pct)) :
    Captured N q.region.capacity q.next_sequence (q.region.live m) (q.region.live m') := by
  have hfull : q.depth = q.capacity ↔ (q.region.live m).length = q.region.capacity := by
    rw [Region.length_live, hq.depth]
    rfl
  have hcleared := live_cleared hq
  simp only [hfull] at hcleared
  cases h with
  | ok hf =>
    rw [live_appended hq hf, hcleared]
    exact .appended s hs
  | full hf =>
    rw [hcleared]
    exact .no_slot
  | failed h => exact absurd h (AppendStop.not_none fun _ _ _ => id)
  | cut h => exact absurd h (AppendStop.not_none fun _ _ _ => id)

/-- Appending, on the device. -/
theorem append_captures (hq : InStep g rt.queue w.flash) {s : Sample} {log : List Note}
    (hs : N.await log .measure = some (s.temperature_c, s.relative_humidity_pct)) :
    ∃ r rt' w', Yields (N.step ε) (call (.append s)) rt w (.ok r) rt' w'
      ∧ AfterCapture N g rt w rt' w' := by
  obtain rfl := hq.region
  obtain ⟨tr, hrun⟩ := Prog.exec_run NorFlash.step ((append s : QueueM ε _).prog rt.queue) w.flash
  have hend := append_ends (hrun.mono (Faults.ofStep_le_env .none ε))
  generalize hres : ((append s : QueueM ε _).prog rt.queue).run NorFlash.step w.flash = res at hend
  obtain ⟨⟨r, q⟩, m⟩ := res
  refine ⟨r, _, _, call_yields (.append s) hres, ?_⟩
  cases r with
  | ok a => exact ⟨hq.toCounted.append (hend.of_none (F := .storage)) rfl, hend.captured hq hs, rfl⟩
  | error e => exact ⟨hq.toCounted.append (hend.of_none (F := .storage)) rfl, hend.captured hq hs, rfl⟩

/-- It returns, and what it returns is in `Q`. -/
abbrev Gives {α : Type} (N : Network) (x : AppM ε α) (rt : Runtime) (w : World)
    (Q : α → Runtime → World → Prop) : Prop :=
  EndsIn (N.step ε) x rt w fun r rt' w' => ∃ a, r = .ok a ∧ Q a rt' w'

theorem Gives.bind {α β : Type} {x : AppM ε α} {f : α → AppM ε β} {P : α → Runtime → World → Prop}
    {Q : Except Dropped β → Runtime → World → Prop} (hx : Gives N x rt w P)
    (hf : ∀ a rt' w', P a rt' w' → EndsIn (N.step ε) (f a) rt' w' Q) :
    EndsIn (N.step ε) (x >>= f) rt w Q := by
  obtain ⟨_, rt', w', hyields, a, rfl, hP⟩ := hx
  exact hyields.bind_endsIn (hf a rt' w' hP)

theorem gives_pure {α : Type} {a : α} {Q : α → Runtime → World → Prop} (h : Q a rt w) :
    Gives N (pure a : AppM ε α) rt w Q :=
  (yields_pure a).endsIn ⟨a, rfl, h⟩

/-- A reading is of the sensor. -/
theorem capture_reading_gives (clock : ClockAnchor) (sequence : UInt64) :
    Gives N (capture_reading app clock sequence : AppM ε _) rt w fun reading rt' w' =>
      Untouched rt w rt' w' ∧ ∀ r, reading = some r →
        ∃ log, N.await log .measure = some (r.temperature_c, r.relative_humidity_pct) := by
  unfold capture_reading
  refine (await_yields rt w .measure).bind_endsIn ?_
  cases hmeasure : N.answer w.log .measure with
  | none => exact gives_pure ⟨⟨rfl, rfl, rfl⟩, nofun⟩
  | some measured =>
    obtain ⟨temperature_c, relative_humidity_pct⟩ := measured
    refine (query_yields _ _ .now).bind_endsIn ?_
    dsimp only
    split
    · exact gives_pure ⟨⟨rfl, rfl, rfl⟩, nofun⟩
    · refine (query_yields _ _ .now).bind_endsIn (gives_pure ⟨⟨rfl, rfl, rfl⟩, ?_⟩)
      intro r hr
      obtain rfl := Option.some.inj hr
      exact ⟨w.log, hmeasure⟩

theorem read_on_battery_gives : Gives N (read_on_battery : AppM ε _) rt w fun _ rt' w' =>
    Untouched rt w rt' w' :=
  (await_yields rt w (.gpio_get VBUS_SENSE_GPIO)).bind_endsIn (gives_pure ⟨rfl, rfl, rfl⟩)

/-- **The sample of a cycle**, on flash that behaves. -/
theorem capture_and_enqueue_gives (hq : InStep g rt.queue w.flash) :
    Gives N (capture_and_enqueue app : AppM ε _) rt w fun _ rt' w' => AfterCapture N g rt w rt' w' := by
  unfold capture_and_enqueue
  refine (await_yields rt w (.show_led_status .publishing)).bind_endsIn ?_
  refine yields_get.bind_endsIn ?_
  have hshown : Untouched rt w rt (w.note (.await (.show_led_status .publishing)
      (some (N.answer w.log (.show_led_status .publishing))))) := ⟨rfl, rfl, rfl⟩
  cases rt.clock with
  | none => exact gives_pure (hshown.afterCapture hq.toCounted)
  | some clock =>
    refine Gives.bind (capture_reading_gives clock.anchor rt.queue.next_sequence) ?_
    rintro reading rt₁ w₁ ⟨hread, hmeasure⟩
    cases reading with
    | none =>
      refine (await_yields _ _ (.show_led_status .fault)).bind_endsIn (gives_pure ?_)
      refine Untouched.afterCapture ((hshown.trans hread).trans ?_) hq.toCounted
      exact ⟨rfl, rfl, rfl⟩
    | some reading =>
      obtain ⟨log, hlog⟩ := hmeasure reading rfl
      refine Gives.bind read_on_battery_gives ?_
      intro on_battery rt₂ w₂ hbattery
      refine (await_yields rt₂ w₂ .read_voltage).bind_endsIn ?_
      -- nothing has been done to the queue up to here
      have hbefore : Untouched rt w rt₂ (w₂.note (.await .read_voltage
          (some (N.answer w₂.log .read_voltage)))) :=
        ((hshown.trans hread).trans hbattery).trans ⟨rfl, rfl, rfl⟩
      have hq₂ : InStep g rt₂.queue w₂.flash := by
        have hqueue := hbefore.queue
        have hflash := hbefore.flash
        change w₂.flash = w.flash at hflash
        rwa [hqueue, hflash]
      obtain ⟨r, rt₃, w₃, hcall, hcaptured⟩ := append_captures (ε := ε) (N := N)
        (w := w₂.note (.await .read_voltage (some (N.answer w₂.log .read_voltage))))
        (s := Reading.sample { reading with
          on_battery, vsys_voltage_v := N.answer w₂.log .read_voltage }) hq₂ hlog
      refine hcall.bind_endsIn ?_
      cases r with
      | ok record => exact gives_pure (hcaptured.of_untouched hbefore)
      | error e =>
        refine (await_yields _ _ (.show_led_status .fault)).bind_endsIn (gives_pure ?_)
        exact (hcaptured.of_untouched hbefore).untouched ⟨rfl, rfl, rfl⟩

end Capture

/-! ## The upload -/

section Upload

variable {ε : Type} {N : Network} {app : App} {rt : Runtime} {w : World} {g : Region}
  {payload : MeasurementRecord → List UInt8} {L : List MeasurementRecord}

/-- All of `L` has been published, and nothing is left. -/
structure Emptied (app : App) (payload : MeasurementRecord → List UInt8) (g : Region)
    (L : List MeasurementRecord) (w : World) (rt' : Runtime) (w' : World) : Prop where
  published : submitted w'.log = submitted w.log ++ L.map (app.submission payload)
  live : g.live w'.flash = []
  depth : rt'.queue.depth = 0

theorem Emptied.untouched {rt₁ rt' : Runtime} {w₁ w' : World} (h : Emptied app payload g L w rt₁ w₁)
    (h' : Untouched rt₁ w₁ rt' w') : Emptied app payload g L w rt' w' := by
  obtain ⟨hpublished, hlive, hdepth⟩ := h
  refine ⟨h'.submitted.trans hpublished, ?_, ?_⟩
  · rw [h'.flash, hlive]
  · rw [h'.queue, hdepth]

/-- Fuel for a round for each record, with its polls, and for one that finds none. -/
def Enough (N : Network) (n length fuel : ℕ) : Prop :=
  length < fuel ∧ ∀ j < length, (N.outcome (n + j)).polls + length < fuel

theorem drain_queue_empties (hN : N.Up app) (hq : Counted g rt.queue w.flash)
    (hL : g.live w.flash = L) (hjson : ∀ record,
      encode_reading app.to_slice (app.reading record) READING_JSON_BUFFER_SIZE = .ok (payload record))
    {fuel : ℕ} (hfuel : Enough N (submitted w.log).length L.length fuel) :
    Gives N (drain_queue app fuel : AppM ε _) rt w fun complete rt' w' =>
      complete = true ∧ Emptied app payload g L w rt' w' := by
  have hall : drained N.outcome (submitted w.log).length L = (true, L, []) :=
    drained_of_all fun j _ => hN.acknowledged _
  refine (drain_queue_ends rt w fuel hq hL (fun r _ => hjson r) rfl hfuel.1 hfuel.2).mono ?_
  rintro r rt' w' ⟨hcomplete, hpublished, hleft, hcounted⟩
  rw [hall] at hcomplete hpublished hleft
  refine ⟨true, hcomplete, rfl, hpublished, hleft, ?_⟩
  rw [hcounted.depth, ← Region.length_live, hleft]
  rfl

theorem upload_attempt_empties (hN : N.Up app) (hq : Counted g rt.queue w.flash)
    (hL : g.live w.flash = L) (hjson : ∀ record,
      encode_reading app.to_slice (app.reading record) READING_JSON_BUFFER_SIZE = .ok (payload record))
    {fuel : ℕ} (hfuel : Enough N (submitted w.log).length L.length fuel) :
    Gives N (upload_attempt app fuel : AppM ε _) rt w fun complete rt' w' =>
      complete = true ∧ Emptied app payload g L w rt' w' := by
  unfold upload_attempt
  -- each step up to the session succeeds
  obtain ⟨address, haddress⟩ := hN.resolve_ipv4 w.log
  have hresolve := await_yields (ε := ε) (N := N) rt w (.resolve_ipv4 app.mqtt_host)
  rw [show N.answer w.log (.resolve_ipv4 app.mqtt_host) = some address from haddress] at hresolve
  refine hresolve.bind_endsIn ?_
  generalize hw₁ : w.note (.await (.resolve_ipv4 app.mqtt_host) (some (some address))) = w₁
  have hconnect := await_yields (ε := ε) (N := N) rt w₁ (.connect address app.mqtt_port)
  rw [show N.answer w₁.log (.connect address app.mqtt_port) = true from hN.connect _ _] at hconnect
  refine hconnect.bind_endsIn ?_
  rw [if_pos rfl]
  generalize hw₂ : w₁.note (.await (.connect address app.mqtt_port) (some true)) = w₂
  have hsession := query_yields (ε := ε) (N := N) rt w₂ (.create_mqtt_session app.effective_client_id)
  rw [show N.reply w₂.log (.create_mqtt_session app.effective_client_id) = true from
    hN.create_mqtt_session _] at hsession
  refine hsession.bind_endsIn ?_
  rw [if_pos rfl]
  generalize hw₃ : w₂.note (.query (.create_mqtt_session app.effective_client_id) true) = w₃
  have haccepted := await_yields (ε := ε) (N := N) rt w₃ .session_connect
  rw [show N.answer w₃.log .session_connect = true from hN.session_connect _] at haccepted
  refine haccepted.bind_endsIn ?_
  rw [if_pos rfl]
  -- nothing of this is on the flash, or among the publications
  have hflash : (w₃.note (.await .session_connect (some true))).flash = w.flash := by
    rw [← hw₃, ← hw₂, ← hw₁]
    rfl
  have hsubmitted : submitted (w₃.note (.await .session_connect (some true))).log
      = submitted w.log := by
    rw [← hw₃, ← hw₂, ← hw₁]
    rfl
  rw [← hflash] at hq hL
  rw [← hsubmitted] at hfuel
  refine Gives.bind (drain_queue_empties hN hq hL hjson hfuel) ?_
  rintro complete rt' w' ⟨rfl, hpublished, hlive, hdepth⟩
  rw [if_pos rfl]
  refine (await_yields _ _ .disconnect).bind_endsIn (gives_pure ⟨rfl, ?_, hlive, hdepth⟩)
  rw [hsubmitted] at hpublished
  exact hpublished

theorem rejoin_gives : Gives N (rejoin app : AppM ε _) rt w fun _ rt' w' => Untouched rt w rt' w' := by
  unfold rejoin
  refine (query_yields rt w .is_link_up).bind_endsIn ?_
  have hjoin : ∀ {w₁ : World} {config_up : Bool}, Untouched rt w rt w₁ →
      Gives N (if !config_up then (do
          await .leave
          await (.connect_wifi app.wifi_ssid app.wifi_password) : AppM ε _) else pure ()) rt w₁
        fun _ rt' w' => Untouched rt w rt' w' := by
    intro w₁ config_up hw₁
    cases config_up with
    | true => exact gives_pure hw₁
    | false =>
      refine (await_yields rt w₁ .leave).bind_endsIn ?_
      refine (await_yields _ _ (.connect_wifi app.wifi_ssid app.wifi_password)).endsIn ?_
      exact ⟨_, rfl, hw₁.trans ⟨rfl, rfl, rfl⟩⟩
  cases N.reply w.log .is_link_up with
  | true =>
    refine (query_yields _ _ .is_config_up).bind_endsIn ?_
    exact hjoin ⟨rfl, rfl, rfl⟩
  | false =>
    refine (yields_pure false).bind_endsIn ?_
    exact hjoin ⟨rfl, rfl, rfl⟩

/-- The first attempt is the last. -/
theorem upload_loop_empties (hN : N.Up app) (hq : Counted g rt.queue w.flash)
    (hL : g.live w.flash = L) (hjson : ∀ record,
      encode_reading app.to_slice (app.reading record) READING_JSON_BUFFER_SIZE = .ok (payload record))
    {fuel : ℕ} (hfuel : Enough N (submitted w.log).length L.length fuel) (backoff : RetryBackoff) :
    Gives N (upload_loop app (fuel + 1) backoff : AppM ε _) rt w fun _ rt' w' =>
      Emptied app payload g L w rt' w' := by
  unfold upload_loop
  refine Gives.bind rejoin_gives ?_
  rintro _ rt₁ w₁ ⟨hqueue, hflash, hsubmitted⟩
  rw [← hqueue, ← hflash] at hq
  rw [← hflash] at hL
  rw [← hsubmitted] at hfuel
  refine Gives.bind (upload_attempt_empties hN hq hL hjson hfuel) ?_
  rintro complete rt₂ w₂ ⟨rfl, hpublished, hlive, hdepth⟩
  rw [if_pos rfl]
  refine (await_yields _ _ (.show_led_status .idle)).endsIn ⟨_, rfl, ?_⟩
  rw [hsubmitted] at hpublished
  exact ⟨hpublished, hlive, hdepth⟩

end Upload

/-! ## The cycle -/

section Cycle

variable {ε : Type} {N : Network} {app : App} {rt : Runtime} {w : World} {g : Region}

/-- A clock that is refreshed is no matter to the queue. -/
theorem prepare_clock_untouched : Gives N (prepare_clock app true : AppM ε _) rt w
    fun _ rt' w' => Untouched rt w rt' w' := by
  unfold prepare_clock
  refine yields_get.bind_endsIn ?_
  cases rt.clock with
  | none => exact gives_pure ⟨rfl, rfl, rfl⟩
  | some clock =>
    refine (query_yields rt w .now).bind_endsIn ?_
    dsimp only
    by_cases hdue : clock.next_refresh_at ≤ N.reply w.log .now
    · rw [if_pos hdue]
      refine (await_yields _ _ (.refresh_clock clock app.ntp_host)).bind_endsIn ?_
      exact ⟨_, _, _, rfl, _, rfl, rfl, rfl, rfl⟩
    · rw [if_neg hdue]
      exact gives_pure ⟨rfl, rfl, rfl⟩

/-- A first clock is followed by the sample that has waited for it. -/
theorem prepare_clock_captures (hq : InStep g rt.queue w.flash) :
    Gives N (prepare_clock app false : AppM ε _) rt w fun _ rt' w' => AfterCapture N g rt w rt' w' := by
  unfold prepare_clock
  refine (await_yields rt w (.synchronize_clock_until_ready app.ntp_host)).bind_endsIn ?_
  generalize hanchor : N.answer w.log (.synchronize_clock_until_ready app.ntp_host) = anchor
  refine (query_yields _ _ .now).bind_endsIn ?_
  generalize hw₁ : World.note _ (.query .now _) = w₁
  generalize N.reply _ .now = now
  have hflash : w₁.flash = w.flash := by
    rw [← hw₁]
    rfl
  have hsubmitted : submitted w₁.log = submitted w.log := by
    rw [← hw₁]
    rfl
  let rt₁ : Runtime := { rt with clock := some (.new anchor now) }
  have hmodify : Yields (N.step ε) (modify fun rt : Runtime => { rt with clock := some (.new anchor now) }
      : AppM ε PUnit) rt w₁ (.ok ⟨⟩) rt₁ w₁ := rfl
  have hbefore : Untouched rt w rt₁ w₁ := ⟨rfl, hflash, hsubmitted⟩
  have hq₁ : InStep g rt₁.queue w₁.flash := by rwa [hflash]
  refine hmodify.bind_endsIn (Gives.bind (capture_and_enqueue_gives hq₁) ?_)
  intro _ rt' w' hcaptured
  exact gives_pure (hcaptured.of_untouched hbefore)

/-- **What a cycle does** before the upload, with or without a clock. -/
theorem upload_cycle_empties (hN : N.Up app) (hq : InStep g rt.queue w.flash)
    {payload : MeasurementRecord → List UInt8} (hjson : ∀ record,
      encode_reading app.to_slice (app.reading record) READING_JSON_BUFFER_SIZE = .ok (payload record))
    {fuel : ℕ} (hfuel : ∀ length ≤ (g.live w.flash).length + 1,
      Enough N (submitted w.log).length length fuel) :
    Gives N (upload_cycle app (fuel + 1) : AppM ε _) rt w fun _ rt' w' =>
      ∃ L, Captured N g.capacity rt.queue.next_sequence (g.live w.flash) L
        ∧ Emptied app payload g L w rt' w' := by
  -- the upload, once the sample has been dealt with
  have hupload : ∀ {rt₁ : Runtime} {w₁ : World}, AfterCapture N g rt w rt₁ w₁ →
      Gives N (upload_loop app (fuel + 1) .new : AppM ε _) rt₁ w₁ fun _ rt' w' =>
        ∃ L, Captured N g.capacity rt.queue.next_sequence (g.live w.flash) L
          ∧ Emptied app payload g L w rt' w' := by
    rintro rt₁ w₁ ⟨hcounted, hlive, hsubmitted⟩
    have henough := hfuel _ hlive.length_le
    refine (upload_loop_empties (ε := ε) hN hcounted rfl hjson (by rwa [hsubmitted]) .new).mono ?_
    rintro _ rt' w' ⟨_, rfl, hpublished, hempty, hdepth⟩
    rw [hsubmitted] at hpublished
    exact ⟨_, rfl, _, hlive, hpublished, hempty, hdepth⟩
  unfold upload_cycle
  refine (await_yields rt w .init).bind_endsIn ?_
  refine (await_yields _ _ .set_power_management).bind_endsIn ?_
  refine (await_yields _ _ (.show_led_status .idle)).bind_endsIn ?_
  refine Gives.bind read_on_battery_gives ?_
  intro on_battery rt₁ w₁ hbattery
  have hmodify : Yields (N.step ε) (modify fun rt : Runtime => { rt with on_battery } : AppM ε PUnit)
      rt₁ w₁ (.ok ⟨⟩) { rt₁ with on_battery } w₁ := rfl
  refine hmodify.bind_endsIn (yields_get.bind_endsIn ?_)
  have hbefore : Untouched rt w { rt₁ with on_battery } w₁ := by
    refine Untouched.trans ?_ (hbattery.trans ⟨rfl, rfl, rfl⟩)
    exact ⟨rfl, rfl, rfl⟩
  have hq₁ : InStep g rt₁.queue w₁.flash := by
    have hqueue : rt₁.queue = rt.queue := hbefore.queue
    rwa [hqueue, hbefore.flash]
  have hconnect : ∀ (rt₂ : Runtime) (w₂ : World), Untouched rt₂ w₂ rt₂
      (w₂.note (.await (.connect_wifi app.wifi_ssid app.wifi_password)
        (some (N.answer w₂.log (.connect_wifi app.wifi_ssid app.wifi_password))))) :=
    fun _ _ => ⟨rfl, rfl, rfl⟩
  cases hclock : rt₁.clock with
  | some clock =>
    rw [hclock] at hbefore
    -- the sample first, whatever the network does
    refine Gives.bind (capture_and_enqueue_gives hq₁) ?_
    intro _ rt₂ w₂ hcaptured
    refine (await_yields rt₂ w₂ (.connect_wifi app.wifi_ssid app.wifi_password)).bind_endsIn ?_
    refine Gives.bind prepare_clock_untouched ?_
    intro _ rt₃ w₃ hclock
    exact hupload (((hcaptured.of_untouched hbefore).untouched (hconnect rt₂ w₂)).untouched hclock)
  | none =>
    rw [hclock] at hbefore
    refine (await_yields _ _ (.connect_wifi app.wifi_ssid app.wifi_password)).bind_endsIn ?_
    refine Gives.bind (prepare_clock_captures hq₁) ?_
    intro _ rt₃ w₃ hcaptured
    exact hupload (hcaptured.of_untouched (hbefore.trans (hconnect _ _)))

end Cycle

section Runs

variable {ε : Type} {geo : Geometry} {app : App} {m₀ : Flash} {D : Device}
  {es : List (Taken Device (List (Event Ask World)))}

/-- A run from a blank region leaves a queue that is in step with the flash. -/
theorem DeviceRun.inStep (hblank : geo.region.Blank m₀) (hrun : DeviceRun ε .storage geo app m₀ es D)
    (hwrap : ∀ e ∈ es, Device.NoWrap e) {rt : Runtime} (hrt : D.runtime = some rt) :
    InStep geo.region rt.queue D.world.flash := by
  have hinv := hrun.invariant_of_forall (C := Device.NoWrap)
    (I := fun _ D => Device.Consistent geo.region D) ⟨.blank hblank, fun rt hrt => by cases hrt⟩
    (fun es D tr D' hw hI hs => (hI.step hw hs).2) hwrap
  exact (hinv.up rt hrt).up _ rfl

end Runs

end PicoDataLogger
