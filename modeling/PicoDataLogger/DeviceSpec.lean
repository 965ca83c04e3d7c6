/-
What every part of the firmware keeps.

`Proper` is what has to hold of each question at the moment it is asked: a flash
primitive is legal and retires no record that may not be retired yet, and a publication
is of the oldest record. `Upholds` says what is asked of an invariant between the queue
and the flash for that; each part of `main.rs` then gets one lemma, that it keeps the
invariant and asks nothing improper, whatever it is answered and wherever it is
dropped or cut (`Keeps`).
-/
import PicoDataLogger.Device
import PicoDataLogger.Primitives

set_option autoImplicit false

namespace PicoDataLogger

open Interaction NorFlash SectorLog

/-! ## What may be asked -/

/-- The notes of waiting for an operation. -/
inductive Waits (operation : Operation) : Note → Prop where
  | now (t : Instant) : Waits operation (.query .now t)
  | is_pending (b : Bool) : Waits operation (.query (.is_pending operation) b)
  | poll (deadline : Instant) (r : Option PollReply) : Waits operation (.await (.poll deadline) r)

/-- The publication carries the reading. -/
def Carries (app : App) (s : Reading × Publication) : Prop :=
  ∃ payload, encode_reading app.to_slice s.1 READING_JSON_BUFFER_SIZE = .ok payload
    ∧ s.2 = app.publication payload

/-- The last thing submitted was a publication that carries the reading, it got this handle, and
since then it was waited for. -/
def Submitted (app : App) (reading : Reading) (operation : Operation) (log : List Note) : Prop :=
  ∃ publication waits rest, Carries app (reading, publication)
    ∧ (∀ n ∈ waits, Waits operation n)
    ∧ log = waits ++
      .await (.publish reading publication) (some (.submitted (some operation))) :: rest

/-- A publication that carries the reading has just been found complete. -/
def Delivered (app : App) (reading : Reading) (log : List Note) : Prop :=
  ∃ operation rest, log = .query (.is_complete operation) true :: rest
    ∧ Submitted app reading operation rest

/-- Why the oldest record may be retired, by the operation that retires it: the queue is
full, or the record has been delivered. -/
def Justified (g : Region) (app : App) (w : World) (record : MeasurementRecord) : Call → Prop
  | .op (.append _) => g.depth w.flash = g.capacity
  | .op .acknowledge_oldest => Delivered app (app.reading record) w.log
  | _ => False

/-- The publication is of the oldest record. -/
def OfOldest (g : Region) (app : App) (m : Flash) (reading : Reading)
    (publication : Publication) : Prop :=
  ∃ i record payload, g.oldest m = some (i, record) ∧ reading = app.reading record
    ∧ encode_reading app.to_slice reading READING_JSON_BUFFER_SIZE = .ok payload
    ∧ publication = app.publication payload

/-- What holds of everything the firmware asks; `K` is what is known of a record it commits. -/
def Proper (g : Region) (app : App) (K : Flash → ℕ → MeasurementRecord → Prop) :
    Ask → World → World → Prop
  | .flash c p, w, _ => Legal g (fun _ record => Justified g app w record c) K w.flash p
  | .await (.publish reading publication), w, _ => OfOldest g app w.flash reading publication
  | _, _, _ => True

section Asked

variable {app : App} {reading : Reading} {operation : Operation} {log : List Note} {n : Note}

theorem Submitted.start {publication : Publication} (hcarries : Carries app (reading, publication)) :
    Submitted app reading operation
      (.await (.publish reading publication) (some (.submitted (some operation))) :: log) :=
  ⟨publication, [], log, hcarries, (fun n hn => by cases hn), rfl⟩

/-- Waiting for the operation changes nothing. -/
theorem Submitted.note (h : Submitted app reading operation log) (hn : Waits operation n) :
    Submitted app reading operation (n :: log) := by
  obtain ⟨publication, waits, rest, hcarries, hall, rfl⟩ := h
  refine ⟨publication, n :: waits, rest, hcarries, fun n' hn' => ?_, rfl⟩
  rcases List.mem_cons.mp hn' with rfl | hn'
  · exact hn
  · exact hall n' hn'

end Asked

/-! ## Invariants -/

/-- The invariant a queue operation leaves: between the fields and the flash, or, after a
power loss, of the flash alone. -/
def Left (I : FlashQueue → Flash → Prop) (Off : Flash → Prop) {ε α : Type} :
    Result (QueueError ε) FlashQueue α → Flash → Prop
  | .ok _ q, m => I q m
  | .error _ q, m => I q m
  | .cut, m => Off m

/-- What the proofs about the firmware ask of an invariant: `I₀` holds until the cycle appends,
`I` holds after, and `Off` holds of the flash when the device is off. -/
structure Upholds (ε : Type) (g : Region) (K : Flash → ℕ → MeasurementRecord → Prop)
    (I₀ I : FlashQueue → Flash → Prop) (Off : Flash → Prop) : Prop where
  counted : ∀ {q m}, I q m → Counted g q m
  sub : ∀ {q m}, I₀ q m → I q m
  off : ∀ {q m}, I q m → Off m
  fresh : ∀ {q m} (s : Sample) {i : ℕ}, I₀ q m → q.region.firstErased (q.cleared m) = some i →
    K (q.region.bodied (q.cleared m) i (s.record q.next_sequence)) i (s.record q.next_sequence)
  append : ∀ {q m s m'} {r : Result (QueueError ε) FlashQueue MeasurementRecord},
    I₀ q m → AppendEnd .storage s q m r m' → Left I Off r m'
  acknowledge_oldest : ∀ {q m m'} {r : Result (QueueError ε) FlashQueue (Option MeasurementRecord)},
    I q m → AckEnd .storage q m r m' → Left I Off r m'

/-- The end of a part of the firmware: it came back with what `Q` says, the cycle was
dropped, or the supply went. -/
def Ends (I : FlashQueue → Flash → Prop) (Off : Flash → Prop) {α : Type}
    (Q : α → Runtime → World → Prop) : Result Dropped Runtime α → World → Prop
  | .ok a rt, w => Q a rt w
  | .error _ rt, w => I rt.queue w.flash
  | .cut, w => Off w.flash

/-- From this memory and these surroundings, the part of the firmware asks nothing improper and
ends well. -/
def Keeps {ε α : Type} (g : Region) (app : App) (K : Flash → ℕ → MeasurementRecord → Prop)
    (I : FlashQueue → Flash → Prop) (Off : Flash → Prop) (x : AppM ε α)
    (Q : α → Runtime → World → Prop) (rt : Runtime) (w : World) : Prop :=
  Proc.wp (surroundings .storage ε) (Proper g app K) x (Ends I Off Q) rt w

section Rules

variable {ε α β : Type} {g : Region} {app : App} {K : Flash → ℕ → MeasurementRecord → Prop}
  {I₀ I : FlashQueue → Flash → Prop} {Off : Flash → Prop} {rt : Runtime} {w : World}

theorem Keeps.bind {x : AppM ε α} {f : α → AppM ε β} {Q : β → Runtime → World → Prop}
    (h : Keeps g app K I Off x (fun a rt w => Keeps g app K I Off (f a) Q rt w) rt w) :
    Keeps g app K I Off (x >>= f) Q rt w := by
  unfold Keeps
  rw [Proc.wp_bind]
  refine Proc.wp_mono h (fun _ _ _ hG => hG) ?_
  intro r w' h'
  cases r with
  | ok a rt' => exact h'
  | error e rt' => exact h'
  | cut => exact h'

theorem Keeps.mono {x : AppM ε α} {Q Q' : α → Runtime → World → Prop}
    (h : Keeps g app K I Off x Q rt w) (hQ : ∀ a rt' w', Q a rt' w' → Q' a rt' w') :
    Keeps g app K I Off x Q' rt w := by
  refine Proc.wp_mono h (fun _ _ _ hG => hG) ?_
  intro r w' h'
  cases r with
  | ok a rt' => exact hQ a rt' w' h'
  | error e rt' => exact h'
  | cut => exact h'

theorem pure_keeps {a : α} {Q : α → Runtime → World → Prop} (h : Q a rt w) :
    Keeps g app K I Off (pure a : AppM ε α) Q rt w := h

theorem get_keeps {Q : Runtime → Runtime → World → Prop} (h : Q rt rt w) :
    Keeps g app K I Off (get : AppM ε Runtime) Q rt w := h

theorem modify_keeps {f : Runtime → Runtime} {Q : PUnit → Runtime → World → Prop}
    (h : Q ⟨⟩ (f rt) w) : Keeps g app K I Off (modify f : AppM ε PUnit) Q rt w := h

/-- Leaving the cycle. -/
theorem throw_keeps {Q : α → Runtime → World → Prop} (hI : I rt.queue w.flash) :
    Keeps g app K I Off (throw .dropped : AppM ε α) Q rt w := hI

/-- A question that is awaited: the answer comes, or the cycle is dropped, or the supply goes. -/
theorem await_keeps (U : Upholds ε g K I₀ I Off) {a : Await} {Q : a.Reply → Runtime → World → Prop}
    (hI : I rt.queue w.flash) (h : ∀ r, Q r rt (w.note (.await a (some r))))
    (hp : ∀ w', Proper g app K (.await a) w w') :
    Keeps g app K I Off (await a : AppM ε _) Q rt w := by
  refine ⟨fun r w' hr => ⟨hp w', ?_⟩, fun w' hc => ⟨hp w', ?_⟩⟩
  · cases hr
    cases r with
    | none => exact hI
    | some r => exact h r
  · rcases hc with rfl | rfl
    · exact U.off hI
    · exact U.off hI

/-- A question that is answered at once. -/
theorem query_keeps (U : Upholds ε g K I₀ I Off) {q : Query} {Q : q.Reply → Runtime → World → Prop}
    (hI : I rt.queue w.flash) (h : ∀ r, Q r rt (w.note (.query q r))) :
    Keeps g app K I Off (query q : AppM ε _) Q rt w := by
  refine ⟨fun r w' hr => ⟨trivial, ?_⟩, fun w' hc => ⟨trivial, ?_⟩⟩
  · cases hr
    exact h r
  · cases hc
    exact U.off hI

/-- A queue operation, by what it does to the queue and the flash. -/
theorem call_keeps (op : Op) {Q : Except (QueueError ε) op.Value → Runtime → World → Prop}
    {G : Prim → Flash → Flash → Prop}
    (hG : ∀ p m m', G p m m' →
      Proper g app K (.flash (.op op) p) { w with flash := m } { w with flash := m' })
    (h : Proc.wp (Faults.storage.env ε) G op.proc
      (fun r m => match r with
        | .ok a q => Q (.ok a) { rt with queue := q } { w with flash := m }
        | .error e q => Q (.error e) { rt with queue := q } { w with flash := m }
        | .cut => Off m) rt.queue w.flash) :
    Keeps g app K I Off (call op) Q rt w := by
  refine (Prog.wp_bind _ _ _ _).mpr ?_
  refine Prog.wp_embed (fun m => { w with flash := m }) (E := Faults.storage.env ε)
    ?_ ?_ hG ?_
  · rintro p m r _ ⟨m', hr, rfl⟩
    exact ⟨m', rfl, hr⟩
  · rintro p m _ ⟨m', hc, rfl⟩
    exact ⟨m', rfl, hc⟩
  · refine Prog.wp_mono h (fun _ _ _ hG => hG) ?_
    rintro (⟨a | a, q⟩ | _) m h'
    · exact h'
    · exact h'
    · exact h'

/-! ## The queue operations -/

theorem peek_oldest_keeps (U : Upholds ε g K I₀ I Off)
    {Q : Except (QueueError ε) (Option MeasurementRecord) → Runtime → World → Prop}
    (hI : I rt.queue w.flash) (hok : Q (.ok ((g.oldest w.flash).map Prod.snd)) rt w)
    (herr : ∀ e, Q (.error e) rt w) :
    Keeps g app K I Off (call .peek_oldest) Q rt w := by
  obtain rfl := (U.counted hI).region
  have hscan : Scans .storage (fun p m _ => Quiet rt.queue.region m p)
      (PicoDataLogger.peek_oldest : QueueM ε _) rt.queue w.flash _ :=
    peek_oldest_scans fun _ _ hq => hq
  refine call_keeps .peek_oldest (fun p m m' hq => .quiet hq)
    (Proc.wp_mono hscan (fun _ _ _ hG => hG) ?_)
  rintro (⟨a, q⟩ | ⟨e, q⟩ | _) m ⟨rfl, h⟩
  · obtain ⟨rfl, rfl⟩ := h
    exact hok
  · obtain ⟨rfl, -⟩ := h
    exact herr e
  · exact U.off hI

/-- Appending retires the oldest record only if the queue is full. -/
theorem append_keeps (U : Upholds ε g K I₀ I Off) {s : Sample}
    {Q : Except (QueueError ε) MeasurementRecord → Runtime → World → Prop}
    (hI : I₀ rt.queue w.flash) (h : ∀ r rt' w', I rt'.queue w'.flash → Q r rt' w') :
    Keeps g app K I Off (call (.append s)) Q rt w := by
  have hcount := U.counted (U.sub hI)
  obtain rfl := hcount.region
  refine call_keeps (.append s) (G := fun p m m' => Proper rt.queue.region app K
      (.flash (.op (.append s)) p) { w with flash := m } { w with flash := m' })
    (fun p m m' hG => hG) ?_
  refine Proc.wp_mono (append_wp_ends ?_ ?_ ?_) (fun _ _ _ hG => hG) ?_
  · exact fun p m₁ m₂ hq => .quiet hq
  · exact fun hfull i record m' ho => .acknowledge ho (hcount.depth.symm.trans hfull)
  · exact fun i m' hf => .committing hf (U.fresh s hI hf)
  · intro r m' hend
    have hleft := U.append hI hend
    cases r with
    | ok a q => exact h _ _ _ hleft
    | error e q => exact h _ _ _ hleft
    | cut => exact hleft

/-- Acknowledging retires the oldest record, which has to have been delivered. -/
theorem acknowledge_oldest_keeps (U : Upholds ε g K I₀ I Off)
    {Q : Except (QueueError ε) (Option MeasurementRecord) → Runtime → World → Prop}
    (hI : I rt.queue w.flash)
    (hdone : ∀ i record, g.oldest w.flash = some (i, record) →
      Delivered app (app.reading record) w.log)
    (h : ∀ r rt' w', I rt'.queue w'.flash → Q r rt' w') :
    Keeps g app K I Off (call .acknowledge_oldest) Q rt w := by
  obtain rfl := (U.counted hI).region
  refine call_keeps .acknowledge_oldest (G := fun p m m' => Proper rt.queue.region app K
      (.flash (.op .acknowledge_oldest) p) { w with flash := m } { w with flash := m' })
    (fun p m m' hG => hG) ?_
  refine Proc.wp_mono (acknowledge_oldest_wp_ends ?_ ?_) (fun _ _ _ hG => hG) ?_
  · exact fun p m₁ m₂ hq => .quiet hq
  · exact fun i record m' ho => .acknowledge ho (hdone i record ho)
  · intro r m' hend
    have hleft := U.acknowledge_oldest hI hend
    cases r with
    | ok a q => exact h _ _ _ hleft
    | error e q => exact h _ _ _ hleft
    | cut => exact hleft

/-! ## The firmware -/

/-- Taking a reading leaves the queue alone. -/
theorem capture_reading_keeps (U : Upholds ε g K I₀ I Off) {clock : ClockAnchor}
    {sequence : UInt64} {Q : Option Reading → Runtime → World → Prop} (hI : I rt.queue w.flash)
    (h : ∀ r w', w'.flash = w.flash → Q r rt w') :
    Keeps g app K I Off (capture_reading app clock sequence : AppM ε _) Q rt w := by
  unfold capture_reading
  refine .bind (await_keeps U hI (fun r => ?_) fun _ => trivial)
  cases r with
  | none => exact h _ _ rfl
  | some measured =>
    refine .bind (query_keeps U hI fun now => ?_)
    split
    · exact h _ _ rfl
    · refine .bind (query_keeps U hI fun now' => ?_)
      exact h _ _ rfl

theorem read_on_battery_keeps (U : Upholds ε g K I₀ I Off)
    {Q : Option Bool → Runtime → World → Prop} (hI : I rt.queue w.flash)
    (h : ∀ r w', w'.flash = w.flash → Q r rt w') :
    Keeps g app K I Off (read_on_battery : AppM ε _) Q rt w := by
  unfold read_on_battery
  refine .bind (await_keeps U hI (fun r => ?_) fun _ => trivial)
  exact h _ _ rfl

/-- A sample is taken and appended, which is the one append of the cycle. -/
theorem capture_and_enqueue_keeps (U : Upholds ε g K I₀ I Off) (hI : I₀ rt.queue w.flash) :
    Keeps g app K I Off (capture_and_enqueue app : AppM ε _)
      (fun _ rt' w' => I rt'.queue w'.flash) rt w := by
  have hI' := U.sub hI
  unfold capture_and_enqueue
  refine .bind (await_keeps U hI' (fun _ => ?_) fun _ => trivial)
  refine .bind (get_keeps ?_)
  cases hclock : rt.clock with
  | none => exact hI'
  | some clock =>
    refine .bind (capture_reading_keeps U hI' fun r w' hflash => ?_)
    change w'.flash = w.flash at hflash
    -- sensors do not touch the flash: what held of it before they were read still does
    rw [← hflash] at hI hI'
    cases r with
    | none =>
      refine .bind (await_keeps U hI' (fun _ => ?_) fun _ => trivial)
      exact hI'
    | some reading =>
      refine .bind (read_on_battery_keeps U hI' fun on_battery w₁ hflash₁ => ?_)
      rw [← hflash₁] at hI hI'
      refine .bind (await_keeps U hI' (fun vsys_voltage_v => ?_) fun _ => trivial)
      -- the one use of the stronger hypothesis: an append may be made from here
      refine .bind (append_keeps U hI fun r rt₂ w₂ hI₂ => ?_)
      cases r with
      | ok record => exact hI₂
      | error e =>
        refine .bind (await_keeps U hI₂ (fun _ => ?_) fun _ => trivial)
        exact hI₂

/-- Waiting for the operation keeps the queue, and leaves its notes. -/
theorem await_puback_keeps (U : Upholds ε g K I₀ I Off) {reading : Reading}
    {operation : Operation} {deadline : Instant} (fuel : ℕ) {Q : Bool → Runtime → World → Prop}
    (hI : I rt.queue w.flash) (hlog : Submitted app reading operation w.log)
    (h : ∀ b w', w'.flash = w.flash → Submitted app reading operation w'.log → Q b rt w') :
    Keeps g app K I Off (await_puback operation deadline fuel : AppM ε _) Q rt w := by
  -- on the fuel: a poll that is ready asks again, with one note more in the log
  induction fuel generalizing w with
  | zero => exact throw_keeps hI
  | succ fuel ih =>
    unfold await_puback
    refine .bind (query_keeps U hI fun pending => ?_)
    have hlog₁ := hlog.note (.is_pending pending)
    by_cases hp : pending = true
    · rw [if_pos hp]
      refine .bind (await_keeps U hI (fun polled => ?_) fun _ => trivial)
      have hlog₂ := hlog₁.note (.poll deadline (some polled))
      cases polled with
      | ready => exact ih hI hlog₂ h
      | failed => exact h _ _ rfl hlog₂
      | timed_out => exact h _ _ rfl hlog₂
    · rw [if_neg hp]
      exact h _ _ rfl hlog₁

/-- **One round of draining.** What is submitted is the oldest record, and nothing touches
the flash until it is known to be delivered, so what is retired is that record. -/
theorem drain_round_keeps (U : Upholds ε g K I₀ I Off) (fuel : ℕ) (hI : I rt.queue w.flash) :
    Keeps g app K I Off (drain_round app fuel : AppM ε _)
      (fun _ rt' w' => I rt'.queue w'.flash) rt w := by
  unfold drain_round
  refine .bind (peek_oldest_keeps U hI ?_ fun e => hI)
  cases ho : g.oldest w.flash with
  | none => exact hI
  | some b =>
    obtain ⟨i, record⟩ := b
    refine .bind (await_keeps U hI (fun _ => ?_) fun _ => trivial)
    dsimp only
    -- a record whose JSON does not fit ends the round before anything is sent
    split
    · exact hI
    · rename_i payload hpayload
      have hcarries : Carries app (app.reading record, app.publication payload) :=
        ⟨payload, hpayload, rfl⟩
      refine .bind (await_keeps U hI (fun reply => ?_) fun w' => ?_)
      · cases reply with
        | failed => exact hI
        | timed_out => exact hI
        | submitted operation =>
          cases operation with
          | none => exact hI
          | some operation =>
            refine .bind (query_keeps U hI fun now => ?_)
            refine .bind (await_puback_keeps U fuel hI ((Submitted.start hcarries).note (.now now))
              fun settled w' hflash hlog => ?_)
            change w'.flash = w.flash at hflash
            -- polling left the flash alone, so the record peeked at is still the oldest
            rw [← hflash] at hI ho
            by_cases hs : settled = true
            · rw [if_pos hs]
              refine .bind (query_keeps U hI fun complete => ?_)
              by_cases hc : complete = true
              · rw [if_pos hc]
                subst hc
                -- the last thing noted is the answer that the operation is complete
                have hdone : Delivered app (app.reading record)
                    (.query (.is_complete operation) true :: w'.log) :=
                  ⟨operation, w'.log, rfl, hlog⟩
                refine .bind (acknowledge_oldest_keeps U hI (fun j r hj => ?_) fun r rt₁ w₁ hI₁ => ?_)
                · -- the flash is the one that was peeked at
                  cases hj.symm.trans ho
                  exact hdone
                · cases r with
                  | error e => exact hI₁
                  | ok retired =>
                    refine .bind (get_keeps ?_)
                    by_cases hempty : rt₁.queue.depth = 0
                    · rw [if_pos hempty]
                      refine .bind (await_keeps U hI₁ (fun _ => ?_) fun _ => trivial)
                      exact hI₁
                    · rw [if_neg hempty]
                      exact hI₁
              · rw [if_neg hc]
                exact hI
            · rw [if_neg hs]
              exact hI
      · exact ⟨i, record, payload, ho, rfl, hpayload, rfl⟩

theorem drain_queue_keeps (U : Upholds ε g K I₀ I Off) (fuel : ℕ) (hI : I rt.queue w.flash) :
    Keeps g app K I Off (drain_queue app fuel : AppM ε _)
      (fun _ rt' w' => I rt'.queue w'.flash) rt w := by
  induction fuel generalizing rt w with
  | zero => exact throw_keeps hI
  | succ fuel ih =>
    unfold drain_queue
    refine .bind ((drain_round_keeps U fuel hI).mono fun r rt' w' hI' => ?_)
    cases r with
    | none => exact ih hI'
    | some complete => exact hI'

theorem upload_attempt_keeps (U : Upholds ε g K I₀ I Off) (fuel : ℕ) (hI : I rt.queue w.flash) :
    Keeps g app K I Off (upload_attempt app fuel : AppM ε _)
      (fun _ rt' w' => I rt'.queue w'.flash) rt w := by
  unfold upload_attempt
  refine .bind (await_keeps U hI (fun address => ?_) fun _ => trivial)
  cases address with
  | none => exact hI
  | some address =>
    refine .bind (await_keeps U hI (fun connected => ?_) fun _ => trivial)
    cases connected with
    | false => exact hI
    | true =>
      refine .bind (query_keeps U hI fun session => ?_)
      cases session with
      | false => exact hI
      | true =>
        refine .bind (await_keeps U hI (fun handshake => ?_) fun _ => trivial)
        cases handshake with
        | false => exact hI
        | true =>
          refine .bind (Keeps.mono (drain_queue_keeps U fuel ?_) fun complete rt' w' hI' => ?_)
          · exact hI
          cases complete with
          | false => exact hI'
          | true =>
            refine .bind (await_keeps U hI' (fun _ => ?_) fun _ => trivial)
            exact hI'

theorem rejoin_keeps (U : Upholds ε g K I₀ I Off) (hI : I rt.queue w.flash) :
    Keeps g app K I Off (rejoin app : AppM ε _) (fun _ rt' w' => I rt'.queue w'.flash) rt w := by
  unfold rejoin
  refine .bind (query_keeps U hI fun link_up => ?_)
  cases link_up with
  | true =>
    refine .bind (query_keeps U hI fun config_up => ?_)
    cases config_up with
    | true => exact hI
    | false =>
      refine .bind (await_keeps U hI (fun _ => ?_) fun _ => trivial)
      refine await_keeps U hI (fun _ => ?_) fun _ => trivial
      exact hI
  | false =>
    refine .bind (pure_keeps ?_)
    refine .bind (await_keeps U hI (fun _ => ?_) fun _ => trivial)
    refine await_keeps U hI (fun _ => ?_) fun _ => trivial
    exact hI

theorem upload_loop_keeps (U : Upholds ε g K I₀ I Off) (fuel : ℕ) {backoff : RetryBackoff}
    (hI : I rt.queue w.flash) :
    Keeps g app K I Off (upload_loop app fuel backoff : AppM ε _)
      (fun _ rt' w' => I rt'.queue w'.flash) rt w := by
  induction fuel generalizing rt w backoff with
  | zero => exact throw_keeps hI
  | succ fuel ih =>
    unfold upload_loop
    refine .bind (Keeps.mono (rejoin_keeps U hI) fun _ rt₁ w₁ hI₁ => ?_)
    refine .bind (Keeps.mono (upload_attempt_keeps U fuel hI₁) fun complete rt₂ w₂ hI₂ => ?_)
    cases complete with
    | true =>
      refine await_keeps U hI₂ (fun _ => ?_) fun _ => trivial
      exact hI₂
    | false =>
      refine .bind (await_keeps U hI₂ (fun _ => ?_) fun _ => trivial)
      refine .bind (await_keeps U hI₂ (fun _ => ?_) fun _ => trivial)
      exact ih hI₂

theorem prepare_clock_keeps (U : Upholds ε g K I₀ I Off) {had_clock : Bool}
    (hI : if had_clock then I rt.queue w.flash else I₀ rt.queue w.flash) :
    Keeps g app K I Off (prepare_clock app had_clock : AppM ε _)
      (fun _ rt' w' => I rt'.queue w'.flash) rt w := by
  unfold prepare_clock
  cases had_clock with
  | false =>
    -- a first fix is followed by the capture that had to wait for it
    have hI₀ : I₀ rt.queue w.flash := hI
    have hI' := U.sub hI₀
    refine .bind (await_keeps U hI' (fun anchor => ?_) fun _ => trivial)
    refine .bind (query_keeps U hI' fun now => ?_)
    refine .bind (modify_keeps ?_)
    refine .bind (Keeps.mono (capture_and_enqueue_keeps U hI₀) fun _ rt₁ w₁ hI₁ => ?_)
    exact hI₁
  | true =>
    have hI' : I rt.queue w.flash := hI
    refine .bind (get_keeps ?_)
    cases rt.clock with
    | none => exact hI'
    | some clock =>
      refine .bind (query_keeps U hI' fun now => ?_)
      -- a later one only corrects the clock, and only when it is due
      by_cases hdue : clock.next_refresh_at ≤ now
      · rw [if_pos hdue]
        refine .bind (await_keeps U hI' (fun clock => ?_) fun _ => trivial)
        exact modify_keeps hI'
      · rw [if_neg hdue]
        exact hI'

/-- **One cycle.** From `I₀` it asks nothing improper, and leaves `I` however it ends. -/
theorem upload_cycle_keeps (U : Upholds ε g K I₀ I Off) (fuel : ℕ) (hI : I₀ rt.queue w.flash) :
    Keeps g app K I Off (upload_cycle app fuel : AppM ε _)
      (fun _ rt' w' => I rt'.queue w'.flash) rt w := by
  have hI' := U.sub hI
  unfold upload_cycle
  refine .bind (await_keeps U hI' (fun _ => ?_) fun _ => trivial)
  refine .bind (await_keeps U hI' (fun _ => ?_) fun _ => trivial)
  refine .bind (await_keeps U hI' (fun _ => ?_) fun _ => trivial)
  refine .bind (read_on_battery_keeps U hI' fun on_battery w₁ hflash => ?_)
  change w₁.flash = w.flash at hflash
  rw [← hflash] at hI hI'
  refine .bind (modify_keeps ?_)
  refine .bind (get_keeps ?_)
  -- whatever the clock, the rest of the cycle after the first capture is the same
  have hrest : ∀ had_clock rt₂ w₂,
      (if had_clock = true then I rt₂.queue w₂.flash else I₀ rt₂.queue w₂.flash) →
      Keeps g app K I Off (do
        await (.connect_wifi app.wifi_ssid app.wifi_password)
        prepare_clock app had_clock
        upload_loop app fuel .new : AppM ε Unit) (fun _ rt' w' => I rt'.queue w'.flash) rt₂ w₂ := by
    intro had_clock rt₂ w₂ hI₂
    have hI₂' : I rt₂.queue w₂.flash := by
      cases had_clock with
      | true => exact hI₂
      | false => exact U.sub hI₂
    refine .bind (await_keeps U hI₂' (fun _ => ?_) fun _ => trivial)
    refine .bind (Keeps.mono (prepare_clock_keeps U hI₂) fun _ rt₃ w₃ hI₃ => ?_)
    exact upload_loop_keeps U fuel hI₃
  cases hclock : rt.clock with
  | some clock =>
    refine .bind (Keeps.mono (capture_and_enqueue_keeps U hI) fun _ rt₂ w₂ hI₂ => ?_)
    exact hrest true rt₂ w₂ hI₂
  | none => exact hrest false _ _ hI

end Rules

/-! ## The device -/

section Steps

variable {ε : Type} {geo : Geometry} {app : App} {K : Flash → ℕ → MeasurementRecord → Prop}
  {I₀ I : FlashQueue → Flash → Prop} {Off : Flash → Prop} {D D' : Device}
  {tr : List (Event Ask World)}

/-- The recovery at boot asks nothing improper, and only the flash. -/
theorem boot_wp (app : App) (w : World) :
    (boot ε geo).wp (surroundings .storage ε) (Proper geo.region app K)
      (fun o w' => RecoverEnd .storage geo.region w.flash o w'.flash ∧ w'.log = w.log) w := by
  refine Prog.wp_embed (fun m => { w with flash := m }) (E := Faults.storage.env ε)
    (G := fun p m _ => Quiet geo.region m p) ?_ ?_ ?_ ?_
  · rintro p m r _ ⟨m', hr, rfl⟩
    exact ⟨m', rfl, hr⟩
  · rintro p m _ ⟨m', hc, rfl⟩
    exact ⟨m', rfl, hc⟩
  · exact fun p m m' hq => Legal.quiet hq
  · exact Prog.wp_mono (recover_wp_ends fun _ _ _ hq => hq) (fun _ _ _ hG => hG)
      fun _ _ hend => ⟨hend, rfl⟩

/-- **One step of the device**: a boot or a cycle, with everything it asks. -/
theorem Device.Step.keeps (U : Upholds ε geo.region K I₀ I Off)
    (hboot : ∀ {m m'} {o : Outcome (Except (QueueError ε) (FlashQueue × RecoveryReport))},
      Off m → RecoverEnd .storage geo.region m o m' →
        (∀ q, recovered o = some q → I q m') ∧ Off m')
    (hup : ∀ rt, D.runtime = some rt → I₀ rt.queue D.world.flash) (hoff : Off D.world.flash)
    (h : Device.Step ε .storage geo app D tr D') :
    (∀ e ∈ tr, Proper geo.region app K e.prim e.before e.after)
      ∧ (∀ rt, D'.runtime = some rt → I rt.queue D'.world.flash) ∧ Off D'.world.flash := by
  cases h with
  | boot h =>
    obtain ⟨hall, hend, -⟩ := Prog.wp_sound (boot_wp app (K := K) _) h
    -- a boot owes the invariant only to a queue it hands out
    obtain ⟨hI, hO⟩ := hboot hoff hend
    refine ⟨hall, fun rt hrt => ?_, hO⟩
    obtain ⟨q, hq, rfl⟩ := Option.map_eq_some_iff.mp hrt
    exact hI q hq
  | @cycle rt w w' tr fuel o h =>
    have hkeep : Keeps geo.region app K I Off (upload_cycle app fuel : AppM ε Unit)
        (fun _ rt' w' => I rt'.queue w'.flash) { rt with on_battery := none } w :=
      upload_cycle_keeps U fuel (hup rt rfl)
    obtain ⟨hall, hend⟩ := Proc.wp_sound hkeep h
    refine ⟨hall, ?_⟩
    generalize Result.of o = r at hend
    -- an error ends the cycle and not the run: the queue lives on, unless power went
    cases r with
    | ok a rt' =>
      refine ⟨fun rt hrt => ?_, U.off hend⟩
      cases hrt
      exact hend
    | error e rt' =>
      refine ⟨fun rt hrt => ?_, U.off hend⟩
      cases hrt
      exact hend
    | cut => exact ⟨(fun rt hrt => by cases hrt), hend⟩

/-- What was asked of the surroundings was possible. -/
theorem Device.Step.possible {F : Faults} (h : Device.Step ε F geo app D tr D') : ∀ e ∈ tr,
    (∃ r, (surroundings F ε).respond e.prim e.before r e.after)
      ∨ (surroundings F ε).cut e.prim e.before e.after := by
  cases h with
  | boot h => exact h.possible
  | cycle fuel h => exact h.possible

/-- A step is the history of its questions. -/
theorem Device.Step.history {F : Faults} {J : List (Event Ask World) → World → Prop}
    {H : List (Event Ask World)}
    (h : Device.Step ε F geo app D tr D')
    (hJ : ∀ e ∈ tr, ∀ H, J H e.before →
      (∃ r, (surroundings F ε).respond e.prim e.before r e.after)
        ∨ (surroundings F ε).cut e.prim e.before e.after → J (H ++ [e]) e.after)
    (hs : J H D.world) : J (H ++ tr) D'.world := by
  cases h with
  | boot h => exact h.history hJ hs
  | cycle fuel h => exact h.history hJ hs

end Steps

end PicoDataLogger
