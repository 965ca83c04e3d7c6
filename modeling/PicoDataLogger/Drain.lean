/-
`drain_queue` on a network whose behaviour is settled beforehand.

A script says of every publication how it turns out: whether its submission comes
to anything, how many polls come back before the operation is decided, and what is
decided. Against a script the firmware is a function. `drained` says what that
function ought to be, on the list of the records alone, and the theorem is that
`drain_queue` computes it, on whatever layout the list lies.
-/
import PicoDataLogger.Counters
import PicoDataLogger.CrashConsistency
import PicoDataLogger.FirstCycles
import PicoDataLogger.ReadingJson
import Mathlib.Data.Finset.Lattice.Fold

set_option autoImplicit false

namespace PicoDataLogger

open Interaction NorFlash SectorLog Proc

/-! ## Scripts -/

/-- How a publication turns out; `polls` is the number of polls that come back before that. -/
inductive PublishOutcome : Type where
  | puback (polls : ℕ)
  | submission_failed
  | submission_timed_out
  | no_operation
  | puback_error (polls : ℕ)
  | puback_timed_out (polls : ℕ)
  | incomplete (polls : ℕ)

namespace PublishOutcome

/-- The publication is acknowledged. -/
def acknowledged : PublishOutcome → Bool
  | .puback _ => true
  | _ => false

def polls : PublishOutcome → ℕ
  | .puback n | .puback_error n | .puback_timed_out n | .incomplete n => n
  | _ => 0

/-- What the submission comes to, if the operation gets this number. -/
def submission (operation : Operation) : PublishOutcome → PublishReply
  | .submission_failed => .failed
  | .submission_timed_out => .timed_out
  | .no_operation => .submitted none
  | _ => .submitted (some operation)

/-- `is_pending` after so many polls. An operation whose polling fails stays pending. -/
def is_pending (polled : ℕ) : PublishOutcome → Bool
  | .puback_error _ | .puback_timed_out _ => true
  | o => polled < o.polls

/-- The poll after so many polls. -/
def poll (polled : ℕ) (o : PublishOutcome) : PollReply :=
  if polled < o.polls then .ready
  else match o with
    | .puback_error _ => .failed
    | .puback_timed_out _ => .timed_out
    | _ => .ready

/-- The loop ends because the operation is no longer pending. -/
def settles : PublishOutcome → Bool
  | .puback_error _ | .puback_timed_out _ => false
  | _ => true

theorem is_pending_of_lt {o : PublishOutcome} {n : ℕ} (h : n < o.polls) : o.is_pending n = true := by
  unfold is_pending
  split
  · rfl
  · rfl
  · exact decide_eq_true h

theorem poll_of_lt {o : PublishOutcome} {n : ℕ} (h : n < o.polls) : o.poll n = .ready := if_pos h

theorem is_pending_polls (o : PublishOutcome) : o.is_pending o.polls = !o.settles := by
  cases o <;> simp [is_pending, polls, settles]

/-- A publication that gets no operation is not acknowledged. -/
theorem submission_cases (o : PublishOutcome) (operation : Operation) :
    o.submission operation = .submitted (some operation)
      ∨ (o.submission operation = .failed ∨ o.submission operation = .timed_out
        ∨ o.submission operation = .submitted none) ∧ o.acknowledged = false := by
  cases o <;> simp [submission, acknowledged]

/-- An operation that is acknowledged has settled. -/
theorem settles_of_acknowledged {o : PublishOutcome} (h : o.acknowledged = true) :
    o.settles = true := by
  cases o <;> simp_all [acknowledged, settles]

theorem poll_polls {o : PublishOutcome} (h : o.settles = false) :
    o.poll o.polls = .failed ∨ o.poll o.polls = .timed_out := by
  unfold poll
  rw [if_neg (lt_irrefl _)]
  cases o <;> simp_all [settles]

end PublishOutcome

/-- The publications among the notes, in the order in which they were submitted. -/
def submitted : List Note → List (Reading × Publication)
  | [] => []
  | .await (.publish reading publication) _ :: log => submitted log ++ [(reading, publication)]
  | _ :: log => submitted log

/-- The polls since the last publication. -/
def polled : List Note → ℕ
  | [] => 0
  | .await (.publish _ _) _ :: _ => 0
  | .await (.poll _) _ :: log => polled log + 1
  | _ :: log => polled log

/-- A network that does with the `i`-th publication what `outcome i` says. What else is asked is
answered in any way, by what was asked before. -/
structure Network where
  outcome : ℕ → PublishOutcome
  await : List Note → (a : Await) → a.Reply
  query : List Note → (q : Query) → q.Reply

namespace Network

/-- The operations are numbered as their publications are. -/
def answer (N : Network) (log : List Note) : (a : Await) → a.Reply
  | .publish _ _ => (N.outcome (submitted log).length).submission (submitted log).length
  | .poll _ => (N.outcome ((submitted log).length - 1)).poll (polled log)
  | a => N.await log a

def reply (N : Network) (log : List Note) : (q : Query) → q.Reply
  | .is_pending operation => (N.outcome operation).is_pending (polled log)
  | .is_complete operation => (N.outcome operation).acknowledged
  | q => N.query log q

/-- A network of which nothing but publications is asked. -/
def ofScript (outcome : ℕ → PublishOutcome) : Network where
  outcome
  await _
    | .gpio_get _ => none
    | .measure => none
    | .read_voltage => none
    | .synchronize_clock_until_ready _ => ⟨0, 0⟩
    | .refresh_clock clock _ => clock
    | .resolve_ipv4 _ => none
    | .connect _ _ => false
    | .session_connect => false
    | .publish _ _ => .failed
    | .poll _ => .failed
    | .init | .set_power_management | .show_led_status _ | .connect_wifi _ _ | .leave
    | .after_secs _ | .disconnect => ()
  query _
    | .now => (0 : ℕ)
    | .is_link_up | .is_config_up | .create_mqtt_session _ | .is_pending _ | .is_complete _ => false

/-- The surroundings with this network, flash that behaves, and a cycle that is never dropped. -/
def step (ε : Type) (N : Network) : (a : Ask) → World → Ask.Answer ε a × World
  | .flash _ p, w =>
    let (r, m) := NorFlash.step (ε := ε) p w.flash
    (r, { w with flash := m })
  | .await a, w =>
    let r := N.answer w.log a
    (some r, w.note (.await a (some r)))
  | .query q, w =>
    let r := N.reply w.log q
    (r, w.note (.query q r))

/-- They are surroundings the device may have. -/
theorem step_le (ε : Type) (N : Network) (F : Faults) :
    (Env.ofStep (N.step ε)).Le (surroundings F ε) where
  respond {a w r w'} h := by
    cases a with
    | flash c p =>
      cases h
      exact ⟨_, (Faults.ofStep_le_env F ε).respond rfl, rfl⟩
    | await a =>
      cases h
      rfl
    | query q =>
      cases h
      rfl
  cut := False.elim

end Network

/-! ## The rules -/

section Rules

variable {ε : Type} {N : Network} {rt : Runtime} {w : World}

/-- A run with the network is a run of the device. -/
theorem exec_of_yields (F : Faults) {α : Type} {x : AppM ε α} {r : Except Dropped α} {rt' : Runtime}
    {w' : World} (h : Yields (N.step ε) x rt w r rt' w') :
    ∃ tr, Exec (surroundings F ε) (x.prog rt) w tr (.done (r, rt')) w' := by
  obtain ⟨tr, hexec⟩ := Prog.exec_run (N.step ε) (x.prog rt) w
  rw [show (x.prog rt).run (N.step ε) w = _ from h] at hexec
  exact ⟨tr, hexec.mono (N.step_le ε F)⟩

theorem await_yields (rt : Runtime) (w : World) (a : Await) :
    Yields (N.step ε) (await a) rt w (.ok (N.answer w.log a)) rt
      (w.note (.await a (some (N.answer w.log a)))) := rfl

theorem query_yields (rt : Runtime) (w : World) (q : Query) :
    Yields (N.step ε) (query q) rt w (.ok (N.reply w.log q)) rt
      (w.note (.query q (N.reply w.log q))) := rfl

/-- A call does to the flash of the device what it does to flash. -/
theorem call_yields (op : Op) {r : Except (QueueError ε) op.Value} {q : FlashQueue} {m : Flash}
    (h : ((op.proc : QueueM ε _).prog rt.queue).run NorFlash.step w.flash = ((r, q), m)) :
    Yields (N.step ε) (call op) rt w (.ok r) { rt with queue := q } { w with flash := m } := by
  have hembed := Prog.run_embed (φ := Ask.flash (.op op)) (ψ := fun _ r => r) NorFlash.step
    (N.step ε) (fun m => { w with flash := m }) (fun p m => ⟨rfl, rfl⟩)
    ((op.proc : QueueM ε _).prog rt.queue) w.flash
  rw [h] at hembed
  refine (Prog.run_bind (N.step ε) _ _ w).trans ?_
  rw [hembed]
  rfl

end Rules

/-! ## What draining is for -/

/-- Publishing the records of a list in order, until the first that is not acknowledged: whether
all were, the records published, and those that are left. `i` publications came before. -/
def drained (outcome : ℕ → PublishOutcome) :
    ℕ → List MeasurementRecord → Bool × List MeasurementRecord × List MeasurementRecord
  | _, [] => (true, [], [])
  | i, r :: L =>
    if (outcome i).acknowledged then
      let (complete, published, left) := drained outcome (i + 1) L
      (complete, r :: published, left)
    else (false, [r], r :: L)

section Spec

variable {outcome : ℕ → PublishOutcome} {L : List MeasurementRecord}

/-- If all are acknowledged, nothing is left. -/
theorem drained_of_all {i : ℕ} (h : ∀ j < L.length, (outcome (i + j)).acknowledged) :
    drained outcome i L = (true, L, []) := by
  induction L generalizing i with
  | nil => rfl
  | cons r L ih =>
    have hhead : (outcome i).acknowledged := h 0 (Nat.succ_pos _)
    have htail : drained outcome (i + 1) L = (true, L, []) := by
      refine ih fun j hj => ?_
      rw [Nat.add_assoc, Nat.add_comm 1 j]
      exact h (j + 1) (Nat.succ_lt_succ hj)
    rw [drained, if_pos hhead, htail]

/-- The first that is not is the last that is published, and the first that is left. -/
theorem drained_of_first {i k : ℕ} (hk : k < L.length)
    (hbefore : ∀ j < k, (outcome (i + j)).acknowledged)
    (hat : (outcome (i + k)).acknowledged = false) :
    drained outcome i L = (false, L.take (k + 1), L.drop k) := by
  induction L generalizing i k with
  | nil => exact absurd hk (Nat.not_lt_zero k)
  | cons r L ih =>
    cases k with
    | zero =>
      have hhead : ¬ (outcome i).acknowledged := by
        rw [Nat.add_zero] at hat
        simp [hat]
      rw [drained, if_neg hhead]
      simp
    | succ k =>
      have hhead : (outcome i).acknowledged := hbefore 0 (Nat.succ_pos _)
      -- the outcomes of the tail are those of the list one further on
      have htail : drained outcome (i + 1) L = (false, L.take (k + 1), L.drop k) := by
        refine ih (Nat.lt_of_succ_lt_succ hk) (fun j hj => ?_) ?_
        · rw [Nat.add_assoc, Nat.add_comm 1 j]
          exact hbefore (j + 1) (Nat.succ_lt_succ hj)
        · rw [Nat.add_assoc, Nat.add_comm 1 k]
          exact hat
      rw [drained, if_pos hhead, htail]
      simp

end Spec

/-! ## The loop that waits for the PUBACK -/

section Loop

variable {ε : Type} {N : Network} {rt : Runtime} {w : World} {app : App}

theorem is_pending_yields (rt : Runtime) (w : World) (operation : Operation) :
    Yields (N.step ε) (query (.is_pending operation)) rt w
      (.ok ((N.outcome operation).is_pending (polled w.log))) rt
      (w.note (.query (.is_pending operation) ((N.outcome operation).is_pending (polled w.log)))) :=
  query_yields rt w _

/-- A poll is about the last publication. -/
theorem poll_yields (rt : Runtime) {operation : Operation} (deadline : Instant) {n : ℕ}
    (hlog : (submitted w.log).length = operation + 1) (hn : polled w.log = n) :
    Yields (N.step ε) (await (.poll deadline)) rt w (.ok ((N.outcome operation).poll n)) rt
      (w.note (.await (.poll deadline) (some ((N.outcome operation).poll n)))) := by
  have hanswer : N.answer w.log (.poll deadline) = (N.outcome operation).poll n := by
    unfold Network.answer
    rw [hlog, Nat.add_sub_cancel, hn]
  have h := await_yields (ε := ε) (N := N) rt w (.poll deadline)
  rwa [hanswer] at h

/-- With fuel for the polls that are still to come the loop ends as the outcome says. -/
theorem await_puback_yields (rt : Runtime) {operation : Operation} (deadline : Instant) {fuel k : ℕ}
    (hlog : (submitted w.log).length = operation + 1)
    (hk : polled w.log + k = (N.outcome operation).polls) (hfuel : k < fuel) :
    ∃ w', Yields (N.step ε) (await_puback operation deadline fuel) rt w
        (.ok (N.outcome operation).settles) rt w'
      ∧ w'.flash = w.flash ∧ submitted w'.log = submitted w.log := by
  induction k generalizing fuel w with
  | zero =>
    obtain ⟨fuel, rfl⟩ := Nat.exists_eq_add_of_lt hfuel
    have hasked := is_pending_yields (ε := ε) (N := N) rt w operation
    rw [Nat.add_zero] at hk
    rw [hk, PublishOutcome.is_pending_polls] at hasked
    by_cases hs : (N.outcome operation).settles = true
    · -- the operation is decided
      rw [hs] at hasked ⊢
      exact ⟨_, hasked.bind (yields_pure true), rfl, rfl⟩
    · -- the next poll fails
      rw [Bool.not_eq_true] at hs
      rw [hs] at hasked ⊢
      have hpoll := poll_yields (ε := ε) (N := N)
        (w := w.note (.query (.is_pending operation) true)) rt deadline hlog hk
      rcases PublishOutcome.poll_polls hs with hfail | hfail
      · rw [hfail] at hpoll
        exact ⟨_, hasked.bind (hpoll.bind (yields_pure false)), rfl, rfl⟩
      · rw [hfail] at hpoll
        exact ⟨_, hasked.bind (hpoll.bind (yields_pure false)), rfl, rfl⟩
  | succ k ih =>
    obtain ⟨fuel, rfl⟩ : ∃ n, fuel = n + 1 := ⟨fuel - 1, by omega⟩
    have hlt : polled w.log < (N.outcome operation).polls := by omega
    have hasked := is_pending_yields (ε := ε) (N := N) rt w operation
    rw [PublishOutcome.is_pending_of_lt hlt] at hasked
    have hpoll := poll_yields (ε := ε) (N := N) (n := polled w.log)
      (w := w.note (.query (.is_pending operation) true)) rt deadline hlog rfl
    rw [PublishOutcome.poll_of_lt hlt] at hpoll
    -- one poll more is on the log
    obtain ⟨w', hrest, hflash, hsub⟩ := ih
      (w := (w.note (.query (.is_pending operation) true)).note
        (.await (.poll deadline) (some .ready)))
      hlog (show polled w.log + 1 + k = _ by omega) (Nat.lt_of_succ_lt_succ hfuel)
    exact ⟨w', hasked.bind (hpoll.bind hrest), hflash, hsub⟩

/-! ## One round -/

/-- An empty queue ends the loop. -/
theorem drain_round_empty_yields (fuel : ℕ) (ho : rt.queue.region.oldest w.flash = none) :
    Yields (N.step ε) (drain_round app fuel) rt w (.ok (some true)) rt w := by
  have hpeek := peek_oldest_run (ε := ε) rt.queue w.flash
  rw [ho] at hpeek
  exact (call_yields .peek_oldest hpeek).bind (yields_pure (some true))

/-- What the publication of a record is. -/
def App.submission (app : App) (payload : MeasurementRecord → List UInt8)
    (record : MeasurementRecord) : Reading × Publication :=
  (app.reading record, app.publication (payload record))

section Round

variable {payload : MeasurementRecord → List UInt8} {i : ℕ} {record : MeasurementRecord}

theorem publish_yields {n : ℕ} (reading : Reading) (publication : Publication)
    (hn : (submitted w.log).length = n) :
    Yields (N.step ε) (await (.publish reading publication)) rt w
      (.ok ((N.outcome n).submission n)) rt
      (w.note (.await (.publish reading publication) (some ((N.outcome n).submission n)))) := by
  subst hn
  exact await_yields rt w _

/-- How a round on a record ends, on flash `m`: the record is retired, or the loop ends and nothing
is. -/
inductive RoundEnd (N : Network) (n i : ℕ) (rt : Runtime) (m : Flash)
    (published : List (Reading × Publication)) :
    Except Dropped (Option Bool) → Runtime → World → Prop where
  | retired {w' : World} (h : (N.outcome n).acknowledged = true)
      (hflash : w'.flash = rt.queue.region.reclaimedAll (rt.queue.region.retired m i))
      (hsub : submitted w'.log = published) :
      RoundEnd N n i rt m published (.ok none)
        { rt with queue := { rt.queue with depth := rt.queue.depth - 1 } } w'
  | stopped {w' : World} (h : (N.outcome n).acknowledged = false) (hflash : w'.flash = m)
      (hsub : submitted w'.log = published) :
      RoundEnd N n i rt m published (.ok (some false)) rt w'

/-- What `drain_round` does once it has an operation. -/
def finish_round (operation : Operation) (fuel : ℕ) : AppM ε (Option Bool) := do
  let now ← query .now
  let settled ← await_puback operation (now + from_secs MQTT_PUBLISH_TIMEOUT_SECS) fuel
  if settled then
    if ← query (.is_complete operation) then
      match ← call .acknowledge_oldest with
      | .error _ => return some false
      | .ok _ =>
        if (← get).queue.depth = 0 then
          await (.show_led_status .idle)
        return none
    else return some false
  else return some false

/-- The operation of the last publication, before any poll: if it is acknowledged the oldest record
is retired. -/
theorem finish_round_ends {fuel n : ℕ} (ho : rt.queue.region.oldest w.flash = some (i, record))
    (hlen : (submitted w.log).length = n + 1) (hpolled : polled w.log = 0)
    (hfuel : (N.outcome n).polls < fuel) :
    EndsIn (N.step ε) (finish_round n fuel) rt w (RoundEnd N n i rt w.flash (submitted w.log)) := by
  have hpolls : polled w.log + (N.outcome n).polls = (N.outcome n).polls := by
    rw [hpolled, Nat.zero_add]
  unfold finish_round
  refine (query_yields rt w .now).bind_endsIn ?_
  obtain ⟨w', hwait, hflash, hlog⟩ := await_puback_yields (ε := ε) (N := N)
    (w := w.note (.query .now (N.reply w.log .now))) rt
    (N.reply w.log .now + from_secs MQTT_PUBLISH_TIMEOUT_SECS) hlen hpolls hfuel
  refine hwait.bind_endsIn ?_
  have hcomplete := query_yields (ε := ε) (N := N) rt w' (.is_complete n)
  by_cases hack : (N.outcome n).acknowledged = true
  · rw [show N.reply w'.log (.is_complete n) = true from hack] at hcomplete
    rw [PublishOutcome.settles_of_acknowledged hack, if_pos rfl]
    refine hcomplete.bind_endsIn ?_
    rw [if_pos rfl]
    -- waiting has not touched the flash, so the record that is retired is the one published
    have ho' : rt.queue.region.oldest w'.flash = some (i, record) := by
      rw [hflash]
      exact ho
    have hcall := call_yields (N := N) (w := w'.note (.query (.is_complete n) true))
      .acknowledge_oldest (acknowledge_oldest_run (ε := ε) ho')
    refine hcall.bind_endsIn ?_
    refine yields_get.bind_endsIn ?_
    rw [World.note_flash, hflash]
    by_cases hempty : rt.queue.depth - 1 = 0
    · rw [if_pos hempty]
      refine (await_yields _ _ (.show_led_status .idle)).bind_endsIn ?_
      exact (yields_pure none).endsIn (.retired hack rfl hlog)
    · rw [if_neg hempty]
      exact (yields_pure none).endsIn (.retired hack rfl hlog)
  · rw [Bool.not_eq_true] at hack
    rw [show N.reply w'.log (.is_complete n) = false from hack] at hcomplete
    by_cases hsettles : (N.outcome n).settles = true
    · -- the operation ended, and is not complete
      rw [hsettles, if_pos rfl]
      refine hcomplete.bind_endsIn ?_
      exact (yields_pure (some false)).endsIn (.stopped hack hflash hlog)
    · rw [Bool.not_eq_true] at hsettles
      rw [hsettles]
      exact (yields_pure (some false)).endsIn (.stopped hack hflash hlog)

/-- **One round** publishes the oldest record once, and retires it if that is acknowledged. -/
theorem drain_round_ends (payload : MeasurementRecord → List UInt8) (fuel : ℕ) {n : ℕ}
    (ho : rt.queue.region.oldest w.flash = some (i, record))
    (hjson : encode_reading app.to_slice (app.reading record) READING_JSON_BUFFER_SIZE
      = .ok (payload record))
    (hn : (submitted w.log).length = n) (hfuel : (N.outcome n).polls < fuel) :
    EndsIn (N.step ε) (drain_round app fuel) rt w
      (RoundEnd N n i rt w.flash (submitted w.log ++ [app.submission payload record])) := by
  have hpeek := peek_oldest_run (ε := ε) rt.queue w.flash
  rw [ho] at hpeek
  unfold drain_round
  refine (call_yields .peek_oldest hpeek).bind_endsIn ?_
  refine (await_yields _ _ (.show_led_status .publishing)).bind_endsIn ?_
  dsimp only
  rw [hjson]
  have hn' : (submitted (w.note (.await (.show_led_status .publishing)
      (some (N.answer w.log (.show_led_status .publishing))))).log).length = n := hn
  refine (publish_yields _ _ hn').bind_endsIn ?_
  rcases (N.outcome n).submission_cases n with hsub | ⟨hsub, hnot⟩
  · rw [hsub]
    -- the submission put the publication on the log, and no poll has been made since
    have hlen : (submitted w.log ++ [app.submission payload record]).length = n + 1 := by
      rw [List.length_append, hn, List.length_singleton]
    exact finish_round_ends (w := World.note (World.note w _) _) ho hlen rfl hfuel
  · -- there is no operation to wait for
    rcases hsub with hsub | hsub | hsub
    · rw [hsub]
      exact (yields_pure (some false)).endsIn (.stopped hnot rfl rfl)
    · rw [hsub]
      exact (yields_pure (some false)).endsIn (.stopped hnot rfl rfl)
    · rw [hsub]
      exact (yields_pure (some false)).endsIn (.stopped hnot rfl rfl)

/-- A record that cannot be encoded stops every attempt before anything is submitted, and is still
the oldest after it. -/
theorem drain_queue_stuck (fuel : ℕ) (ho : rt.queue.region.oldest w.flash = some (i, record))
    (hjson : encode_reading app.to_slice (app.reading record) READING_JSON_BUFFER_SIZE
      = .error .bufferTooSmall) :
    ∃ w', Yields (N.step ε) (drain_queue app (fuel + 1)) rt w (.ok false) rt w'
      ∧ w'.flash = w.flash ∧ submitted w'.log = submitted w.log := by
  have hpeek := peek_oldest_run (ε := ε) rt.queue w.flash
  rw [ho] at hpeek
  have hround : Yields (N.step ε) (drain_round app fuel) rt w (.ok (some false)) rt
      (w.note (.await (.show_led_status .publishing)
        (some (N.answer w.log (.show_led_status .publishing))))) := by
    unfold drain_round
    refine (call_yields .peek_oldest hpeek).bind ?_
    refine (await_yields _ _ (.show_led_status .publishing)).bind ?_
    dsimp only
    rw [hjson]
    exact yields_pure (some false)
  exact ⟨_, hround.bind (yields_pure false), rfl, rfl⟩

end Round

/-! ## The whole loop -/

/-- The head of the list is the oldest record, and retiring it leaves the rest. -/
theorem exists_oldest_of_live {g : Region} {m : Flash} {record : MeasurementRecord}
    {L : List MeasurementRecord} (hL : g.live m = record :: L) :
    ∃ i, g.oldest m = some (i, record) ∧ g.live (g.reclaimedAll (g.retired m i)) = L := by
  cases ho : g.oldest m with
  | none =>
    rw [Region.live, oldest_eq_none.mp ho] at hL
    cases hL
  | some b =>
    obtain ⟨i, r⟩ := b
    have hlive : g.live m = r :: g.live (g.reclaimedAll (g.retired m i)) := by
      rw [Region.live_reclaimedAll, Region.live, Region.live, Region.view_retired ho]
      exact live_retire ho
    obtain ⟨rfl, hrest⟩ := List.cons.inj (hlive.symm.trans hL)
    exact ⟨i, rfl, hrest⟩

/-- Draining has done what it is for, after `n` publications on the records `L`. -/
structure Drained (N : Network) (app : App) (payload : MeasurementRecord → List UInt8) (g : Region)
    (n : ℕ) (L : List MeasurementRecord) (w : World) (r : Except Dropped Bool) (rt' : Runtime)
    (w' : World) : Prop where
  complete : r = .ok (drained N.outcome n L).1
  published : submitted w'.log
    = submitted w.log ++ (drained N.outcome n L).2.1.map (app.submission payload)
  left : g.live w'.flash = (drained N.outcome n L).2.2
  counted : Counted g rt'.queue w'.flash

/-- **The loop.** The induction is on the list of the active records: a round that goes round
again has taken its head, wherever that lay. -/
theorem drain_queue_ends (rt : Runtime) (w : World) {g : Region}
    {payload : MeasurementRecord → List UInt8} {n : ℕ} (fuel : ℕ)
    {L : List MeasurementRecord} (hq : Counted g rt.queue w.flash) (hL : g.live w.flash = L)
    (hjson : ∀ r ∈ L,
      encode_reading app.to_slice (app.reading r) READING_JSON_BUFFER_SIZE = .ok (payload r))
    (hn : (submitted w.log).length = n) (hlen : L.length < fuel)
    (hfuel : ∀ j < L.length, (N.outcome (n + j)).polls + L.length < fuel) :
    EndsIn (N.step ε) (drain_queue app fuel) rt w (Drained N app payload g n L w) := by
  obtain ⟨fuel, rfl⟩ : ∃ k, fuel = k + 1 := ⟨fuel - 1, by omega⟩
  induction L generalizing rt w n fuel with
  | nil =>
    have ho : rt.queue.region.oldest w.flash = none := by
      rw [hq.region]
      exact oldest_eq_none.mpr hL
    refine (drain_round_empty_yields fuel ho).bind_endsIn ?_
    refine (yields_pure true).endsIn ⟨rfl, ?_, hL, hq⟩
    exact (List.append_nil _).symm
  | cons record L ih =>
    obtain ⟨i, ho, hrest⟩ := exists_oldest_of_live hL
    rw [List.length_cons] at hlen hfuel
    -- the bound at the head of the list is the one this round needs
    have hpolls := hfuel 0 (Nat.succ_pos _)
    rw [Nat.add_zero] at hpolls
    obtain rfl := hq.region
    obtain ⟨r, rt₁, w₁, hround, hend⟩ := drain_round_ends (ε := ε) (N := N) payload fuel
      ho (hjson _ List.mem_cons_self) hn (show (N.outcome n).polls < fuel by omega)
    cases hend with
    | retired hack hflash hsub =>
      -- the round goes round again: one record less, and one outcome further
      obtain ⟨fuel, rfl⟩ : ∃ k, fuel = k + 1 := ⟨fuel - 1, by omega⟩
      have hq₁ : Counted rt.queue.region { rt.queue with depth := rt.queue.depth - 1 } w₁.flash := by
        rw [hflash]
        exact hq.acknowledge_oldest (ε := ε) (.ok ho) rfl
      have hn₁ : (submitted w₁.log).length = n + 1 := by
        rw [hsub, List.length_append, hn, List.length_singleton]
      refine hround.bind_endsIn ((ih _ w₁ hq₁ (by rw [hflash, hrest])
        (fun r hr => hjson r (List.mem_cons_of_mem _ hr)) hn₁ fuel (by omega) fun j hj => ?_).mono ?_)
      · have := hfuel (j + 1) (Nat.succ_lt_succ hj)
        rw [Nat.add_right_comm, Nat.add_assoc]
        omega
      · rintro r rt' w' ⟨hcomplete, hpublished, hleft, hcounted⟩
        refine ⟨?_, ?_, ?_, hcounted⟩
        · rw [hcomplete, drained, if_pos hack]
        · rw [hpublished, hsub, List.append_assoc, drained, if_pos hack]
          rfl
        · rw [hleft, drained, if_pos hack]
    | stopped hack hflash hsub =>
      -- the round ends the loop, and the record it published is still stored
      have hnot : ¬ (N.outcome n).acknowledged = true := by simp [hack]
      refine hround.bind_endsIn ((yields_pure false).endsIn ⟨?_, ?_, ?_, ?_⟩)
      · rw [drained, if_neg hnot]
      · rw [hsub, drained, if_neg hnot]
        rfl
      · rw [hflash, hL, drained, if_neg hnot]
      · rw [hflash]
        exact hq

end Loop

section Runs

variable {ε : Type} {geo : Geometry} {m₀ m : Flash} {es : List (Taken Machine (Label ε))}
  {q : FlashQueue}

end Runs

end PicoDataLogger
