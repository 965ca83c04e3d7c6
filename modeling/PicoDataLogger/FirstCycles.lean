/-
The first cycles of a device: one record, published twice and delivered once.

These runs exist whatever faults the flash may have, because the surroundings may also
behave. In the first cycle a sample is taken, its publication fails, and the cycle is
dropped while it waits to try again; in the second the sensor gives no sample, and the
record is published again and acknowledged.
-/
import PicoDataLogger.DeviceSpec
import PicoDataLogger.FirstSteps

set_option autoImplicit false

namespace PicoDataLogger

open Interaction NorFlash SectorLog

section Rules

variable {ε α β : Type} {F : Faults} {rt rt₁ rt₂ : Runtime} {m m₁ m₂ : Flash}
  {S T : List (Reading × Publication)}

/-- What awaiting this submits. -/
def Await.submits : Await → List (Reading × Publication)
  | .publish reading publication => [(reading, publication)]
  | _ => []

/-- Whatever was asked before, this part of the firmware may go from here to there and submit
`S` on the way. -/
def May (F : Faults) (x : AppM ε α) (rt : Runtime) (m : Flash) (S : List (Reading × Publication))
    (r : Except Dropped α) (rt' : Runtime) (m' : Flash) : Prop :=
  ∀ log, ∃ tr log', Exec (surroundings F ε) (x.prog rt) ⟨m, log⟩ tr (.done (r, rt')) ⟨m', log'⟩
    ∧ submissions tr = S

theorem asked_snoc (es : List (Taken Device (List (Event Ask World))))
    (e : Taken Device (List (Event Ask World))) : asked (es ++ [e]) = asked es ++ e.label := by
  simp [asked]

theorem submissions_append (H H' : List (Event Ask World)) :
    submissions (H ++ H') = submissions H ++ submissions H' := List.filterMap_append

theorem May.bind {x : AppM ε α} {f : α → AppM ε β} {a : α} {r : Except Dropped β}
    (hx : May F x rt m S (.ok a) rt₁ m₁) (hf : May F (f a) rt₁ m₁ T r rt₂ m₂) :
    May F (x >>= f) rt m (S ++ T) r rt₂ m₂ := by
  intro log
  obtain ⟨tr, log₁, hx₁, hS⟩ := hx log
  obtain ⟨tr', log₂, hf₁, hT⟩ := hf log₁
  refine ⟨tr ++ tr', log₂, hx₁.bind hf₁, ?_⟩
  rw [submissions_append, hS, hT]

/-- What comes after a part that submits nothing. -/
theorem May.after {x : AppM ε α} {f : α → AppM ε β} {a : α} {r : Except Dropped β}
    (hx : May F x rt m [] (.ok a) rt₁ m₁) (hf : May F (f a) rt₁ m₁ T r rt₂ m₂) :
    May F (x >>= f) rt m T r rt₂ m₂ := hx.bind hf

/-- A part that is dropped drops what comes after it. -/
theorem May.dropped {x : AppM ε α} {f : α → AppM ε β} {e : Dropped}
    (hx : May F x rt m S (.error e) rt₁ m₁) : May F (x >>= f) rt m S (.error e) rt₁ m₁ := by
  intro log
  obtain ⟨tr, log₁, hx₁, hS⟩ := hx log
  refine ⟨tr ++ [], log₁, hx₁.bind (.pure _ _), ?_⟩
  rwa [List.append_nil]

theorem may_await (a : Await) (r : a.Reply) :
    May F (await a : AppM ε _) rt m a.submits (.ok r) rt m := by
  intro log
  refine ⟨_, _, .call (r := some r) rfl (.pure _ _), ?_⟩
  cases a <;> rfl

/-- Any `.await` may be the one at which the cycle is dropped. -/
theorem may_drop (a : Await) :
    May F (await a : AppM ε _) rt m a.submits (.error .dropped) rt m := by
  intro log
  refine ⟨_, _, .call (r := none) rfl (.pure _ _), ?_⟩
  cases a <;> rfl

theorem may_query (q : Query) (r : q.Reply) :
    May F (query q : AppM ε _) rt m [] (.ok r) rt m :=
  fun _ => ⟨_, _, .call rfl (.pure _ _), rfl⟩

theorem may_pure (a : α) : May F (pure a : AppM ε α) rt m [] (.ok a) rt m :=
  fun _ => ⟨_, _, .pure _ _, rfl⟩

theorem may_get : May F (get : AppM ε Runtime) rt m [] (.ok rt) rt m :=
  fun _ => ⟨_, _, .pure _ _, rfl⟩

theorem may_modify (f : Runtime → Runtime) :
    May F (modify f : AppM ε PUnit) rt m [] (.ok ⟨⟩) (f rt) m := fun _ => ⟨_, _, .pure _ _, rfl⟩

/-- What a program may do on the flash it may do on the flash of the device, and it submits
nothing. -/
theorem may_flash {x : Prog Prim (Prim.Answer ε) β} {tr : List (Event Prim Flash)} {o : Outcome β}
    {m' : Flash} (h : Exec (F.env ε) x m tr o m') (c : Call) (log : List Note) :
    ∃ tr', Exec (surroundings F ε) (x.embed (Ask.flash c) fun _ r => r) ⟨m, log⟩ tr' o ⟨m', log⟩
      ∧ submissions tr' = [] := by
  refine ⟨_, Exec.embed (D := surroundings F ε) (φ := Ask.flash c) (ψ := fun _ r => r)
    (fun m => ⟨m, log⟩) (fun p m r m' hr => ⟨r, rfl, m', hr, rfl⟩)
    (fun p m m' hc => ⟨m', hc, rfl⟩) h, ?_⟩
  rw [submissions, List.filterMap_map, List.filterMap_eq_nil_iff]
  exact fun _ _ => rfl

theorem may_call {op : Op} {tr : List (Event Prim Flash)} {r : Except (QueueError ε) op.Value}
    {q : FlashQueue} {m' : Flash}
    (h : Exec (F.env ε) ((op.proc : QueueM ε _).prog rt.queue) m tr (.done (r, q)) m') :
    May F (call op) rt m [] (.ok r) { rt with queue := q } m' := by
  intro log
  obtain ⟨tr', hflash, hsub⟩ := may_flash h (.op op) log
  refine ⟨_, log, hflash.bind (.pure _ _), ?_⟩
  rwa [List.append_nil]

end Rules

section Flash

variable {g : Region} {m : Flash} {i : ℕ} {r : MeasurementRecord}

/-- After the first sample its record is the oldest. -/
theorem oldest_afterFirst (h : g.Blank m) (s : Sample) :
    g.oldest (afterFirst g m s) = some (0, (s.record 0).stored) := by
  have hf := h.firstErased
  have hpos := Region.firstErased_lt hf
  rw [Region.oldest, afterFirst, Region.reclaimedAll, Region.view_reclaimed, oldest_reclaimTo,
    Region.view_written hf, SectorLog.oldest, firstMin_eq_some_iff]
  refine ⟨g.layout_slots ▸ hpos, ?_, fun j t hj ht => ?_, fun j t hj => absurd hj (Nat.not_lt_zero j)⟩
  · rw [SectorLog.commit, Function.update_self, Slot.active?_active]
  · exact Nat.zero_le _

/-- When it is retired the queue is empty. -/
theorem oldest_retired_afterFirst (h : g.Blank m) (s : Sample) :
    g.oldest (g.reclaimedAll (g.retired (afterFirst g m s) 0)) = none := by
  have hf := h.firstErased
  rw [Region.oldest, Region.reclaimedAll, Region.view_reclaimed, oldest_reclaimTo,
    Region.view_retired (oldest_afterFirst h s), SectorLog.oldest, firstMin_eq_none_iff]
  intro j hj
  by_cases hj₀ : j = 0
  · rw [hj₀, SectorLog.retire, Function.update_self, Slot.active?_acknowledged]
  · rw [SectorLog.retire, Function.update_of_ne hj₀, afterFirst, Region.reclaimedAll,
      Region.view_reclaimed, active?_reclaimTo, Region.view_written hf, SectorLog.commit,
      Function.update_of_ne hj₀, h.view (g.layout_slots ▸ hj), Slot.active?_erased]

/-- A record is active as long as it is the oldest. -/
theorem Region.view_of_oldest (ho : g.oldest m = some (i, r)) : g.view m i = .active r :=
  (oldest_spec ho).2.1

theorem Region.oldest_ne_none_of_view (hi : i < g.slot_count) (hv : g.view m i = .active r) :
    g.oldest m ≠ none := by
  intro hnone
  have hlive := oldest_eq_none.mp hnone
  have hmem : r ∈ SectorLog.live g.layout seqKey (g.view m) :=
    SectorLog.mem_live.mpr ⟨i, g.layout_slots ▸ hi, hv⟩
  rw [hlive] at hmem
  cases hmem

end Flash

section Parts

variable {ε : Type} {F : Faults} {app : App} {rt : Runtime} {m : Flash} {payload : List UInt8}
  {i : ℕ} {r : MeasurementRecord} {clock : ClockState}

theorem unix_seconds_from_anchor_zero (anchor_unix_seconds : UInt64) :
    unix_seconds_from_anchor anchor_unix_seconds 0 = some anchor_unix_seconds := by
  unfold unix_seconds_from_anchor
  rw [Nat.add_zero, if_pos anchor_unix_seconds.toNat_lt, UInt64.ofNat_toNat]

/-- The sensor may give a sample. -/
theorem may_capture_reading (app : App) (rt : Runtime) (clock : ClockAnchor) (sequence : UInt64) :
    ∃ reading : Reading, May F (capture_reading app clock sequence : AppM ε (Option Reading)) rt m []
      (.ok (some reading)) rt m := by
  have hnow : unix_seconds_from_anchor clock.unix_seconds
      (as_secs (clock.monotonic - clock.monotonic)) = some clock.unix_seconds := by
    rw [Nat.sub_self]
    exact unix_seconds_from_anchor_zero _
  let reading : Reading := {
    device_id := app.mqtt_client_id
    hardware_id := app.hardware_id
    sequence
    temperature_c := ⟨0⟩
    relative_humidity_pct := ⟨0⟩
    vsys_voltage_v := none
    on_battery := none
    timestamp_unix_s := clock.unix_seconds
    uptime_s := UInt64.ofNat (as_secs (app.started_at - app.started_at)) }
  refine ⟨reading, May.after (may_await .measure (some (⟨0⟩, ⟨0⟩))) ?_⟩
  refine May.after (may_query .now clock.monotonic) ?_
  rw [hnow]
  exact May.after (may_query .now app.started_at) (may_pure _)

/-- What may be appended may be captured and appended. -/
theorem may_capture_and_enqueue {q : FlashQueue} {m' : Sample → Flash} (app : App) (rt : Runtime)
    (hclock : rt.clock = some clock)
    (happend : ∀ s, ∃ tr r, Exec (F.env ε) ((append s : QueueM ε _).prog rt.queue) m tr
      (.done (.ok r, q)) (m' s)) :
    ∃ s, May F (capture_and_enqueue app : AppM ε Bool) rt m [] (.ok true)
      { rt with queue := q } (m' s) := by
  obtain ⟨queue, clock', on_battery⟩ := rt
  obtain rfl : clock' = some clock := hclock
  obtain ⟨reading, hread⟩ := may_capture_reading (ε := ε) (F := F) (m := m) app
    ⟨queue, some clock, on_battery⟩ clock.anchor queue.next_sequence
  obtain ⟨tr, r, happend⟩ := happend { reading with on_battery := none, vsys_voltage_v := none }.sample
  refine ⟨Reading.sample { reading with on_battery := none, vsys_voltage_v := none }, ?_⟩
  unfold capture_and_enqueue
  refine .after (may_await _ ()) (.after may_get ?_)
  refine .after hread ?_
  refine .after (.after (may_await _ none) (may_pure none)) ?_
  refine .after (may_await _ none) ?_
  exact .after (may_call happend) (may_pure true)

/-- The sensor may fail. -/
theorem may_capture_fail (app : App) (hclock : rt.clock = some clock) :
    May F (capture_and_enqueue app : AppM ε Bool) rt m [] (.ok false) rt m := by
  unfold capture_and_enqueue
  refine .after (may_await _ ()) (.after may_get ?_)
  rw [hclock]
  refine .after (.after (may_await .measure none) (may_pure none)) ?_
  exact .after (may_await _ ()) (may_pure false)

/-- The publication of the oldest record may fail. -/
theorem may_drain_round_fail (fuel : ℕ) (ho : rt.queue.region.oldest m = some (i, r))
    (hjson : encode_reading app.to_slice (app.reading r) READING_JSON_BUFFER_SIZE = .ok payload) :
    May F (drain_round app fuel : AppM ε _) rt m [(app.reading r, app.publication payload)]
      (.ok (some false)) rt m := by
  obtain ⟨tr, hpeek⟩ := exists_peek_oldest_exec ε F rt.queue m
  rw [ho] at hpeek
  unfold drain_round
  refine .after (may_call hpeek) ?_
  refine .after (may_await _ ()) ?_
  dsimp only
  rw [hjson]
  exact .bind (may_await (.publish _ _) .failed) (may_pure (some false))

/-- The oldest record may be published and acknowledged. -/
theorem may_drain_round_done (fuel : ℕ) (ho : rt.queue.region.oldest m = some (i, r))
    (hjson : encode_reading app.to_slice (app.reading r) READING_JSON_BUFFER_SIZE = .ok payload) :
    May F (drain_round app (fuel + 1) : AppM ε _) rt m [(app.reading r, app.publication payload)]
      (.ok none) { rt with queue := { rt.queue with depth := rt.queue.depth - 1 } }
      (rt.queue.region.reclaimedAll (rt.queue.region.retired m i)) := by
  obtain ⟨tr, hpeek⟩ := exists_peek_oldest_exec ε F rt.queue m
  obtain ⟨tr', hack⟩ := exists_acknowledge_oldest_exec ε F ho
  rw [ho] at hpeek
  unfold drain_round
  refine .after (may_call hpeek) ?_
  refine .after (may_await _ ()) ?_
  dsimp only
  rw [hjson]
  refine .bind (may_await (.publish _ _) (.submitted (some 0))) ?_
  refine .after (may_query .now 0) ?_
  have hsettled : ∀ deadline, May F (await_puback 0 deadline (fuel + 1) : AppM ε Bool) rt m []
      (.ok true) rt m := fun deadline => .after (may_query (.is_pending 0) false) (may_pure true)
  refine .after (hsettled _) ?_
  refine .after (may_query (.is_complete 0) true) ?_
  refine .after (may_call hack) ?_
  refine .after may_get ?_
  dsimp only
  by_cases hempty : rt.queue.depth - 1 = 0
  · rw [if_pos hempty]
    exact .after (may_await _ ()) (may_pure none)
  · rw [if_neg hempty]
    exact may_pure none

/-- An empty queue is drained. -/
theorem may_drain_round_empty (fuel : ℕ) (ho : rt.queue.region.oldest m = none) :
    May F (drain_round app fuel : AppM ε _) rt m [] (.ok (some true)) rt m := by
  obtain ⟨tr, hpeek⟩ := exists_peek_oldest_exec ε F rt.queue m
  rw [ho] at hpeek
  unfold drain_round
  exact .after (may_call hpeek) (may_pure (some true))

/-- An attempt comes to what draining comes to. -/
theorem may_upload_attempt {S : List (Reading × Publication)} {rt' : Runtime} {m' : Flash}
    {complete : Bool} (fuel : ℕ)
    (h : May F (drain_queue app fuel : AppM ε Bool) rt m S (.ok complete) rt' m') :
    May F (upload_attempt app fuel : AppM ε Bool) rt m S (.ok complete) rt' m' := by
  unfold upload_attempt
  refine .after (may_await (.resolve_ipv4 _) (some 0)) ?_
  refine .after (may_await (.connect _ _) true) ?_
  refine .after (may_query (.create_mqtt_session _) true) ?_
  refine .after (may_await .session_connect true) ?_
  rw [← List.append_nil S]
  refine .bind h ?_
  cases complete with
  | false => exact may_pure false
  | true => exact .after (may_await .disconnect ()) (may_pure true)

theorem may_rejoin (app : App) : May F (rejoin app : AppM ε Unit) rt m [] (.ok ()) rt m := by
  unfold rejoin
  refine .after (may_query .is_link_up true) ?_
  exact .after (may_query .is_config_up true) (may_pure ())

/-- What comes before the first capture of a cycle. -/
theorem may_upload_cycle {S : List (Reading × Publication)} {rt' : Runtime} {m' : Flash}
    {e : Except Dropped Unit} (fuel : ℕ)
    (h : May F (do
        if rt.clock.isSome then
          let _ ← capture_and_enqueue app
        await (.connect_wifi app.wifi_ssid app.wifi_password)
        prepare_clock app rt.clock.isSome
        upload_loop app fuel .new : AppM ε Unit) { rt with on_battery := none } m S e rt' m') :
    May F (upload_cycle app fuel : AppM ε Unit) rt m S e rt' m' := by
  unfold upload_cycle
  refine .after (may_await .init ()) ?_
  refine .after (may_await .set_power_management ()) ?_
  refine .after (may_await (.show_led_status _) ()) ?_
  refine .after (.after (may_await (.gpio_get _) none) (may_pure none)) ?_
  refine .after (may_modify _) ?_
  exact .after may_get h

/-- Between two attempts the cycle may be dropped. -/
theorem may_upload_loop_drop {S : List (Reading × Publication)} {rt' : Runtime} {m' : Flash}
    {fuel : ℕ} {backoff : RetryBackoff}
    (h : May F (upload_attempt app fuel : AppM ε Bool) rt m S (.ok false) rt' m') :
    May F (upload_loop app (fuel + 1) backoff : AppM ε Unit) rt m S (.error .dropped) rt' m' := by
  unfold upload_loop
  refine .after (may_rejoin app) ?_
  rw [← List.append_nil S]
  refine .bind h ?_
  exact .after (may_await (.show_led_status _) ()) (.dropped (may_drop (.after_secs _)))

/-- An attempt that delivers everything ends the loop. -/
theorem may_upload_loop_end {S : List (Reading × Publication)} {rt' : Runtime} {m' : Flash}
    {fuel : ℕ} {backoff : RetryBackoff}
    (h : May F (upload_attempt app fuel : AppM ε Bool) rt m S (.ok true) rt' m') :
    May F (upload_loop app (fuel + 1) backoff : AppM ε Unit) rt m S (.ok ()) rt' m' := by
  unfold upload_loop
  refine .after (may_rejoin app) ?_
  rw [← List.append_nil S]
  exact .bind h (may_await (.show_led_status _) ())

end Parts

/-! ## Two cycles -/

section Cycles

variable {ε : Type} {F : Faults} {app : App} {rt : Runtime} {m : Flash} {g : Region}
  {r : MeasurementRecord} {payload : MeasurementRecord → List UInt8}

/-- A first cycle: a sample is taken, its publication fails, and the cycle is dropped. -/
theorem may_first_cycle (app : App) (rt : Runtime) (h : g.Blank m) (hq : rt.queue = FlashQueue.new g)
    (hclock : rt.clock = none) (hjson : ∀ record,
      encode_reading app.to_slice (app.reading record) READING_JSON_BUFFER_SIZE = .ok (payload record)) :
    ∃ s rt', May F (upload_cycle app 2 : AppM ε Unit) rt m
        [(app.reading (s.record 0).stored, app.publication (payload (s.record 0).stored))]
        (.error .dropped) rt' (afterFirst g m s)
      ∧ rt'.queue.region = g ∧ rt'.queue.next_sequence = 1 ∧ rt'.clock.isSome = true := by
  obtain ⟨queue, clock, on_battery⟩ := rt
  obtain rfl : queue = FlashQueue.new g := hq
  obtain rfl : clock = none := hclock
  -- the append is the same one whatever the sample is
  obtain ⟨q₁, hregion, hnext, happend⟩ : ∃ q₁ : FlashQueue, q₁.region = g ∧ q₁.next_sequence = 1
      ∧ ∀ s, ∃ tr r, Exec (F.env ε) ((append s : QueueM ε _).prog (FlashQueue.new g)) m tr
        (.done (.ok r, q₁)) (afterFirst g m s) := by
    refine ⟨{ (FlashQueue.new g).prepared m with
      depth := ((FlashQueue.new g).prepared m).depth + 1 }, rfl, rfl, fun s => ?_⟩
    obtain ⟨tr, hexec⟩ := exists_append_exec ε F s (q := FlashQueue.new g) (m := m) (i := 0)
      (by rw [cleared_new]; exact h.firstErased)
    rw [cleared_new] at hexec
    exact ⟨tr, _, hexec⟩
  obtain ⟨s, hcapture⟩ := may_capture_and_enqueue (F := F) app
    ⟨FlashQueue.new g, some (ClockState.new ⟨0, 0⟩ 0), none⟩ rfl happend
  refine ⟨s, ⟨q₁, some (ClockState.new ⟨0, 0⟩ 0), none⟩,
    may_upload_cycle 2 (.after (may_await (.connect_wifi _ _) ()) ?_), hregion, hnext, rfl⟩
  have hprepare : May F (prepare_clock app false : AppM ε Unit) ⟨FlashQueue.new g, none, none⟩ m []
      (.ok ()) ⟨q₁, some (ClockState.new ⟨0, 0⟩ 0), none⟩ (afterFirst g m s) := by
    unfold prepare_clock
    refine .after (may_await (.synchronize_clock_until_ready _) ⟨0, 0⟩) ?_
    refine .after (may_query .now 0) ?_
    refine .after (may_modify _) ?_
    exact .after hcapture (may_pure ())
  refine .after hprepare (may_upload_loop_drop (may_upload_attempt 1 ?_))
  -- the one round peeks at that record, publishes it, and fails
  unfold drain_queue
  rw [← List.append_nil [_]]
  have ho : q₁.region.oldest (afterFirst g m s) = some (0, (s.record 0).stored) := by
    rw [hregion]
    exact oldest_afterFirst h s
  exact .bind (may_drain_round_fail 0 ho (hjson _)) (may_pure false)

/-- A second cycle: no sample, and the record is published again and acknowledged. -/
theorem may_second_cycle (app : App) (rt : Runtime) (hregion : rt.queue.region = g)
    (ho : g.oldest m = some (0, r)) (hlast : g.oldest (g.reclaimedAll (g.retired m 0)) = none)
    (hclock : rt.clock.isSome = true) (hjson : ∀ record,
      encode_reading app.to_slice (app.reading record) READING_JSON_BUFFER_SIZE = .ok (payload record)) :
    ∃ rt', May F (upload_cycle app 4 : AppM ε Unit) rt m
      [(app.reading r, app.publication (payload r))] (.ok ()) rt'
      (g.reclaimedAll (g.retired m 0)) := by
  subst hregion
  obtain ⟨queue, _ | clock, on_battery⟩ := rt
  · cases hclock
  have hprepare : ∃ clock', May F (prepare_clock app true : AppM ε Unit) ⟨queue, some clock, none⟩ m
      [] (.ok ()) ⟨queue, clock', none⟩ m := by
    unfold prepare_clock
    by_cases hdue : clock.next_refresh_at ≤ 0
    · refine ⟨some clock, .after may_get (.after (may_query .now 0) ?_)⟩
      rw [if_pos hdue]
      exact .after (may_await (.refresh_clock _ _) clock) (may_modify _)
    · refine ⟨some clock, .after may_get (.after (may_query .now 0) ?_)⟩
      rw [if_neg hdue]
      exact may_pure ()
  obtain ⟨clock', hprepare⟩ := hprepare
  refine ⟨⟨{ queue with depth := queue.depth - 1 }, clock', none⟩,
    may_upload_cycle 4 (.after (may_capture_fail app rfl) ?_)⟩
  refine .after (may_await (.connect_wifi _ _) ()) (.after hprepare ?_)
  refine may_upload_loop_end (may_upload_attempt 3 ?_)
  unfold drain_queue
  rw [← List.append_nil [_]]
  refine .bind (may_drain_round_done 1 ho (hjson _)) ?_
  unfold drain_queue
  exact .after (may_drain_round_empty 1 hlast) (may_pure true)

/-- A device may come up on a blank region. -/
theorem may_boot (ε : Type) (F : Faults) (geo : Geometry) {m₀ : Flash} (h : geo.region.Blank m₀) :
    ∃ tr, Exec (surroundings F ε) (boot ε geo) ⟨m₀, []⟩ tr
      (.done (.ok (FlashQueue.new geo.region, geo.region.report m₀))) ⟨m₀, []⟩
        ∧ submissions tr = [] := by
  obtain ⟨tr, hrun⟩ := Prog.exec_run NorFlash.step
    (recover geo.part geo.start geo.length : Prog Prim (Prim.Answer ε) _) m₀
  rw [recover_run, h.recovered, h.reclaimedAll] at hrun
  exact may_flash (hrun.mono (Faults.ofStep_le_env F ε)) .recover []

/-- A device that has come up on a blank region, taken a sample `s`, published it in vain, and
dropped the cycle. -/
structure AfterFirstCycle (F : Faults) (geo : Geometry) (app : App)
    (payload : MeasurementRecord → List UInt8) (m₀ : Flash)
    (es : List (Taken Device (List (Event Ask World)))) (D : Device) (rt : Runtime) (s : Sample) :
    Prop where
  run : DeviceRun ε F geo app m₀ es D
  wrap : ∀ e ∈ es, Device.NoWrap e
  submissions : submissions (asked es)
    = [(app.reading (s.record 0).stored, app.publication (payload (s.record 0).stored))]
  flash : D.world.flash = afterFirst geo.region m₀ s
  runtime : D.runtime = some rt
  region : rt.queue.region = geo.region
  next_sequence : rt.queue.next_sequence = 1
  clock : rt.clock.isSome = true

theorem exists_first_cycle (ε : Type) (F : Faults) (app : App) {geo : Geometry} {m₀ : Flash}
    (h : geo.region.Blank m₀) (hjson : ∀ record,
      encode_reading app.to_slice (app.reading record) READING_JSON_BUFFER_SIZE = .ok (payload record)) :
    ∃ es D rt s, @AfterFirstCycle ε F geo app payload m₀ es D rt s := by
  obtain ⟨tr₀, hboot, hsub₀⟩ := may_boot ε F geo h
  obtain ⟨s, rt₁, hfirst, hregion, hnext, hclock⟩ := may_first_cycle (ε := ε) (F := F) app
    (Runtime.fresh (FlashQueue.new geo.region)) h rfl rfl hjson
  obtain ⟨tr₁, log₁, hfirst, hsub₁⟩ := hfirst []
  have hs₀ : Device.Step ε F geo app ⟨⟨m₀, []⟩, none⟩ tr₀
      ⟨⟨m₀, []⟩, some (Runtime.fresh (FlashQueue.new geo.region))⟩ := by
    exact @Device.Step.boot ε F geo app ⟨⟨m₀, []⟩, none⟩ _ _ _ hboot
  have hs₁ : Device.Step ε F geo app ⟨⟨m₀, []⟩, some (Runtime.fresh (FlashQueue.new geo.region))⟩ tr₁
      ⟨⟨afterFirst geo.region m₀ s, log₁⟩, some rt₁⟩ := by
    exact @Device.Step.cycle ε F geo app (.fresh (FlashQueue.new geo.region)) _ _ tr₁ 2 _ hfirst
  refine ⟨_, _, rt₁, s, (Run.nil.snoc hs₀).snoc hs₁, ?_, ?_, rfl, rfl, hregion, hnext, hclock⟩
  · intro e he rt hrt
    simp only [List.nil_append, List.cons_append, List.mem_cons, List.not_mem_nil, or_false] at he
    rcases he with rfl | rfl
    · cases hrt
    · cases hrt
      exact (by decide : (0 : UInt64).toNat + 1 < 2 ^ 64)
  · simp [asked, submissions_append, hsub₀, hsub₁]

/-- **The first delivery.** Whatever the faults of the flash, a device may come up on a blank
region, publish its first record twice and then retire it. -/
theorem exists_first_delivery (ε : Type) (F : Faults) (app : App) {geo : Geometry} {m₀ : Flash}
    (h : geo.region.Blank m₀) (hjson : ∀ record,
      encode_reading app.to_slice (app.reading record) READING_JSON_BUFFER_SIZE = .ok (payload record)) :
    ∃ (es : List (Taken Device (List (Event Ask World)))) (D : Device) (s : Sample),
      DeviceRun ε F geo app m₀ es D ∧ (∀ e ∈ es, Device.NoWrap e)
        ∧ submissions (asked es)
          = [(app.reading (s.record 0).stored, app.publication (payload (s.record 0).stored)),
            (app.reading (s.record 0).stored, app.publication (payload (s.record 0).stored))]
        ∧ ∃ e ∈ asked es, geo.region.view e.before.flash 0 = .active (s.record 0).stored
          ∧ geo.region.view e.after.flash 0 ≠ .active (s.record 0).stored := by
  obtain ⟨es, ⟨⟨m, log⟩, rt⟩, rt₁, s, hfirst⟩ := exists_first_cycle ε F app h hjson
  obtain ⟨hrun, hwrap, hsub, hflash, hrt, hregion, hnext, hclock⟩ := hfirst
  obtain rfl : m = afterFirst geo.region m₀ s := hflash
  obtain rfl : rt = some rt₁ := hrt
  have ho := oldest_afterFirst h s
  have hlast := oldest_retired_afterFirst h s
  obtain ⟨rt₂, hsecond⟩ := may_second_cycle (ε := ε) (F := F) app
    { rt₁ with on_battery := none } hregion ho hlast hclock hjson
  obtain ⟨tr₂, log₂, hsecond, hsub₂⟩ := hsecond log
  have hs₂ : Device.Step ε F geo app ⟨⟨afterFirst geo.region m₀ s, log⟩, some rt₁⟩ tr₂ _ :=
    .cycle 4 hsecond
  refine ⟨_, _, s, hrun.snoc hs₂, ?_, ?_, ?_⟩
  · intro e he
    rcases List.mem_append.mp he with he | he
    · exact hwrap e he
    · obtain rfl := List.mem_singleton.mp he
      intro rt hrt
      obtain rfl := Option.some.inj hrt
      rw [hnext]
      decide
  · rw [asked_snoc, submissions_append, hsub, hsub₂]
    rfl
  · by_contra hno
    -- if no question retires the record, it is still active after the last cycle
    have hkeep := hs₂.history (H := [])
      (J := fun _ w => geo.region.view w.flash 0 = .active (s.record 0).stored)
      (fun e he _ hv _ => ?_) (Region.view_of_oldest (oldest_afterFirst h s))
    · exact Region.oldest_ne_none_of_view (Region.firstErased_lt h.firstErased) hkeep hlast
    · by_contra hv'
      refine hno ⟨e, ?_, hv, hv'⟩
      rw [asked_snoc]
      exact List.mem_append_right _ he

end Cycles

end PicoDataLogger
