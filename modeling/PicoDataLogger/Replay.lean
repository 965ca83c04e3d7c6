/-
Runs of the queue, computed.

On flash that behaves, a run of appends, acknowledgements and reboots is the run of
`SectorLog.replay` on the sequence numbers. A concrete run of the device is
thereby evaluated without a byte of its flash: `exists_replay_run` turns the result of
the replay into a run of the queue that ends in the state computed, and every step of
which is made in a state the replay has visited.
-/
import PicoDataLogger.FirstSteps

set_option autoImplicit false

namespace PicoDataLogger

open Interaction NorFlash SectorLog

-- so that no unification evaluates a record's bytes
attribute [local irreducible] record_body

/-- Its key: the number as a `u64`. -/
theorem seqKey_stored (s : Sample) : (fun n => seqKey (s.stored n)) = fun n => n % 2 ^ 64 :=
  funext fun _ => UInt64.toNat_ofNat'

/-- The flash is what the replay says, if every append is of the sample `s`. -/
structure Pictures (g : Region) (s : Sample) (m₀ : Flash) (st : LogState ℕ) (m : Flash) : Prop where
  shows : Shows g.layout s.stored (g.view m) st.slots
  erases : m.erases = m₀.erases + st.erases

/-- And so are the fields of the queue. -/
structure Follows (g : Region) (s : Sample) (m₀ : Flash) (st : LogState ℕ) (q : FlashQueue)
    (m : Flash) : Prop where
  region : q.region = g
  depth : q.depth = st.depth
  next_sequence : q.next_sequence = UInt64.ofNat st.next
  image : Pictures g s m₀ st m

section Steps

variable {ε : Type} {g : Region} {s : Sample} {m₀ m m' : Flash} {st st' : LogState ℕ} {i : ℕ}
  {r : MeasurementRecord} {q : FlashQueue}

/-- The slots become `v`, and every sector that can be is reclaimed. -/
theorem Pictures.settle_of (h : Pictures g s m₀ st m) {v : View ℕ}
    (hview : ∀ i < g.layout.slots, g.view m' i = (v i).map s.stored) (herases : m'.erases = m.erases) :
    Pictures g s m₀ (st.settle g.layout (· % 2 ^ 64) v) (g.reclaimedAll m') := by
  have hshows := Shows.tabulate hview
  have hreclaim := hshows.reclaim seqKey
  have hcount := hshows.count_reclaimable seqKey
  rw [seqKey_stored] at hreclaim hcount
  constructor
  · rw [Region.reclaimedAll, Region.view_reclaimed]
    exact hreclaim
  · rw [Region.reclaimedAll, Region.reclaimed_erases, herases, h.erases, LogState.settle, hcount,
      Nat.add_assoc]
    rfl

/-- One slot changes, and every sector that can be is reclaimed. -/
theorem Pictures.settle (h : Pictures g s m₀ st m) {c : SectorLog.Slot ℕ}
    (hview : g.view m' = Function.update (g.view m) i (c.map s.stored))
    (herases : m'.erases = m.erases) :
    Pictures g s m₀ (st.settle g.layout (· % 2 ^ 64) (Function.update (toView st.slots) i c))
      (g.reclaimedAll m') := by
  refine h.settle_of (fun j hj => ?_) herases
  rw [hview]
  by_cases hji : j = i
  · rw [hji, Function.update_self, Function.update_self]
  · rw [Function.update_of_ne hji, Function.update_of_ne hji, h.shows j hj]

/-- The oldest record of the replay is the oldest record. -/
theorem Pictures.oldest (h : Pictures g s m₀ st m) :
    g.oldest m = (SectorLog.oldest g.layout (· % 2 ^ 64) (toView st.slots)).map
      (Prod.map id s.stored) := by
  rw [Region.oldest, h.shows.oldest seqKey, seqKey_stored]

theorem Pictures.firstErased (h : Pictures g s m₀ st m) :
    g.firstErased m = SectorLog.firstErased g.layout (toView st.slots) :=
  h.shows.firstErased

theorem Pictures.removed (h : Pictures g s m₀ st m) :
    Pictures g s m₀ (st.acknowledge g.layout (· % 2 ^ 64)) (g.removed m) := by
  have ho := h.oldest
  rw [LogState.acknowledge]
  cases hold : SectorLog.oldest g.layout (· % 2 ^ 64) (toView st.slots) with
  | none =>
    rw [hold] at ho
    rwa [Region.removed, ho]
  | some b =>
    obtain ⟨i, n⟩ := b
    rw [hold] at ho
    have hset := h.settle (i := i) (c := .acknowledged (some n))
      (Region.view_retired ho) rfl
    rw [Region.removed_of_some ho]
    exact ⟨hset.shows, hset.erases⟩

theorem Pictures.written (h : Pictures g s m₀ st m) (hf : g.firstErased m = some i) {n : ℕ} :
    Pictures g s m₀
      (st.settle g.layout (· % 2 ^ 64) (SectorLog.commit (toView st.slots) i n))
      (g.reclaimedAll (g.written m i (s.record (UInt64.ofNat n)))) :=
  h.settle (Region.view_written hf) rfl

theorem acknowledge_next (L : Layout) (key : ℕ → ℕ) (st : LogState ℕ) :
    (st.acknowledge L key).next = st.next := by
  rw [LogState.acknowledge]
  split <;> rfl

theorem acknowledge_depth (L : Layout) (key : ℕ → ℕ) (st : LogState ℕ) :
    (st.acknowledge L key).depth
      = if (SectorLog.oldest L key (toView st.slots)).isSome then st.depth - 1 else st.depth := by
  rw [LogState.acknowledge]
  split
  · rename_i h
    rw [h]
    rfl
  · rename_i h
    rw [h]
    rfl

/-- The replay discards where the queue does. -/
theorem Follows.cleared (h : Follows g s m₀ st q m) :
    ∃ st₁, (if st.depth = g.capacity then st.acknowledge g.layout (· % 2 ^ 64) else st) = st₁
      ∧ Pictures g s m₀ st₁ (q.cleared m) ∧ (q.prepared m).depth = st₁.depth
      ∧ st₁.next = st.next := by
  refine ⟨_, rfl, ?_⟩
  obtain rfl := h.region
  have hcap : q.capacity = q.region.capacity := rfl
  have hd := h.depth
  by_cases hfull : st.depth = q.region.capacity
  · rw [if_pos hfull, FlashQueue.cleared, if_pos (hd.trans (hfull.trans hcap.symm))]
    refine ⟨h.image.removed, ?_, acknowledge_next _ _ _⟩
    have hsome : (q.region.oldest m).isSome
        = (SectorLog.oldest q.region.layout (· % 2 ^ 64) (toView st.slots)).isSome := by
      rw [h.image.oldest, Option.isSome_map]
    simp only [FlashQueue.prepared, hd, hcap, hfull, true_and, acknowledge_depth, hsome]
  · rw [if_neg hfull, FlashQueue.cleared, if_neg fun hq => hfull (hd.symm.trans (hq.trans hcap))]
    refine ⟨h.image, ?_, rfl⟩
    simp only [FlashQueue.prepared, hd, hcap, hfull, false_and, if_false]

/-- An acknowledgement can be made, and follows the replay. -/
theorem Follows.acknowledge_oldest (ε : Type) {geo : Geometry} (F : Faults)
    (h : Follows geo.region s m₀ st q m) :
    ∃ (l : Label ε) (q' : FlashQueue) (m' : Flash), Step F geo ⟨m, some q⟩ l ⟨m', some q'⟩
      ∧ Follows geo.region s m₀ (st.acknowledge geo.region.layout (· % 2 ^ 64)) q' m'
      ∧ ∃ r, l.reply = .op .acknowledge_oldest r := by
  obtain ⟨tr, r, m', hstep, hend⟩ := exists_acknowledge_oldest_end ε F geo q m
  have hrem := h.image.removed
  have ho := h.image.oldest
  have hreg := h.region
  rw [← hreg] at hrem ho ⊢
  cases hend with
  | empty hn =>
    rw [hn, eq_comm, Option.map_eq_none_iff] at ho
    refine ⟨_, _, _, hstep, ⟨rfl, ?_, ?_, ?_⟩, _, rfl⟩
    · rw [acknowledge_depth, ho]
      exact h.depth
    · rw [acknowledge_next]
      exact h.next_sequence
    · rwa [Region.removed, hn] at hrem
  | @ok i record hi =>
    rw [hi] at ho
    refine ⟨_, _, _, hstep, ⟨rfl, ?_, ?_, ?_⟩, _, rfl⟩
    · have hsome := congrArg Option.isSome ho
      rw [Option.isSome_map] at hsome
      rw [acknowledge_depth, ← hsome]
      exact congrArg (· - 1) h.depth
    · rw [acknowledge_next]
      exact h.next_sequence
    · rwa [Region.removed_of_some hi] at hrem
  | failed h => exact absurd h (AckStop.not_none fun _ _ _ => id)
  | cut h => exact absurd h (AckStop.not_none fun _ _ _ => id)

/-- An append can be made: it follows the replay, and is refused where the replay stops. -/
theorem Follows.append (ε : Type) {geo : Geometry} (F : Faults) (h : Follows geo.region s m₀ st q m) :
    ∃ (l : Label ε) (q' : FlashQueue) (m' : Flash), Step F geo ⟨m, some q⟩ l ⟨m', some q'⟩
      ∧ match st.append geo.region.layout (· % 2 ^ 64) id geo.region.capacity with
        | some st' => Follows geo.region s m₀ st' q' m' ∧ ∃ a q, l.reply = .op (.append s) (.ok a q)
        | none => l.reply = .op (.append s) (.error .invalidGeometry q') := by
  obtain ⟨tr, r, m', hstep, hend⟩ := exists_append_end ε F geo s q m
  obtain ⟨st₁, hst₁, himage, hdepth, hnext⟩ := h.cleared
  have hfirst := himage.firstErased
  rw [LogState.append, hst₁]
  have hreg := h.region
  rw [← hreg] at himage hfirst ⊢
  -- the two searches agree, so the append is refused where the replay stops
  cases hend with
  | @ok i hf =>
    rw [hf] at hfirst
    refine ⟨_, _, _, hstep, ?_⟩
    rw [← hfirst]
    have hw := himage.written hf (n := st.next)
    rw [← h.next_sequence] at hw
    refine ⟨⟨rfl, congrArg (· + 1) hdepth, ?_, ?_, ?_⟩, _, _, rfl⟩
    · change q.next_sequence + 1 = UInt64.ofNat (st₁.next + 1)
      rw [h.next_sequence, hnext, UInt64.ofNat_add]
      rfl
    · simp only [id_eq, hnext]
      exact hw.shows
    · simp only [id_eq, hnext]
      exact hw.erases
  | full hf =>
    rw [hf] at hfirst
    refine ⟨_, _, _, hstep, ?_⟩
    rw [← hfirst]
  | failed h => exact absurd h (AppendStop.not_none fun _ _ _ => id)
  | cut h => exact absurd h (AppendStop.not_none fun _ _ _ => id)

/-- Reclaiming leaves the state that a reboot computes. -/
theorem Pictures.rebooted (h : Pictures g s m₀ st m) :
    Pictures g s m₀ (st.reboot g.layout (· % 2 ^ 64)) (g.reclaimedAll m) := by
  have hset := h.settle_of h.shows rfl
  exact ⟨hset.shows, hset.erases⟩

/-- The counter that recovery goes on from. -/
theorem Pictures.next_sequence (h : Pictures g s m₀ st m) :
    g.next_sequence m = UInt64.ofNat (st.reboot g.layout (· % 2 ^ 64)).next := by
  rw [Region.next_sequence, Region.newest, h.shows.newest seqKey, seqKey_stored, LogState.reboot]
  cases SectorLog.newest g.layout (· % 2 ^ 64) (toView st.slots) with
  | none => rfl
  | some b =>
    obtain ⟨i, n⟩ := b
    have hmod : UInt64.ofNat (n % 2 ^ 64) = UInt64.ofNat n := by
      rw [← UInt64.toNat_inj, UInt64.toNat_ofNat', UInt64.toNat_ofNat', Nat.mod_mod]
    rw [Option.map_some, Option.elim_some, Option.elim_some, UInt64.ofNat_add, hmod]
    rfl

/-- And a reboot. -/
theorem Pictures.recover (ε : Type) {geo : Geometry} (F : Faults) {M : Machine}
    (h : Pictures geo.region s m₀ st M.flash) :
    ∃ (l : Label ε) (q' : FlashQueue) (m' : Flash), Step F geo M l ⟨m', some q'⟩
      ∧ Follows geo.region s m₀ (st.reboot geo.region.layout (· % 2 ^ 64)) q' m'
      ∧ ∃ o, l.reply = .recover o := by
  obtain ⟨tr, hstep⟩ := exists_recover_step ε F geo M
  refine ⟨_, _, _, hstep, ⟨rfl, ?_, h.next_sequence, h.rebooted⟩, _, rfl⟩
  change geo.region.depth M.flash = _
  rw [Region.depth, h.shows.depth]
  rfl

end Steps

/-- Before the first append the queue is what the replay starts from. -/
theorem Follows.blank {g : Region} {s : Sample} {m₀ : Flash} (h : g.Blank m₀) :
    Follows g s m₀ (.blank g.layout) (FlashQueue.new g) m₀ :=
  ⟨rfl, rfl, rfl, .blank fun _ hi => h.view (g.layout_slots ▸ hi), rfl⟩

/-! ## Commands -/

/-- The reply is one to the command; an append is answered. -/
def Answers {ε : Type} (s : Sample) : Command → Reply ε → Prop
  | .append, reply => ∃ a q, reply = .op (.append s) (.ok a q)
  | .acknowledge, reply => ∃ r, reply = .op .acknowledge_oldest r
  | .reboot, reply => ∃ o, reply = .recover o

/-- The step executes the command `c` of a replay that is at `st`. -/
structure Executes {ε : Type} (g : Region) (s : Sample) (m₀ : Flash) (st : LogState ℕ) (c : Command)
    (e : Taken Machine (Label ε)) : Prop where
  image : Pictures g s m₀ st e.before.flash
  queue : ∀ q, e.before.queue = some q → Follows g s m₀ st q e.before.flash
  reply : Answers s c e.label.reply

/-- A call is made on a queue that is up. -/
theorem Step.queue_of_op {ε : Type} {F : Faults} {geo : Geometry} {M M' : Machine} {l : Label ε}
    (h : Step F geo M l M') {op : Op} {r : Result (QueueError ε) FlashQueue op.Value}
    (hr : l.reply = .op op r) : ∃ q, M.queue = some q := by
  cases h with
  | op op h => exact ⟨_, rfl⟩
  | recover h => cases hr

section Runs

variable {ε : Type} {F : Faults} {geo : Geometry} {g : Region} {s : Sample} {m m₀ : Flash}
  {st st' : LogState ℕ} {q : FlashQueue} {c : Command} {cs : List Command}
  {e : Taken Machine (Label ε)} {es : List (Taken Machine (Label ε))}

/-- Every command that the replay does not refuse can be executed. -/
theorem Follows.exec (ε : Type) (F : Faults) (h : Follows geo.region s m₀ st q m)
    (hexec : st.exec geo.region.layout (· % 2 ^ 64) id geo.region.capacity c = some st') :
    ∃ (l : Label ε) (q' : FlashQueue) (m' : Flash), Step F geo ⟨m, some q⟩ l ⟨m', some q'⟩
      ∧ Follows geo.region s m₀ st' q' m' ∧ Answers s c l.reply := by
  cases c with
  | append =>
    obtain ⟨l, q', m', hstep, hend⟩ := h.append ε F
    rw [show st.append geo.region.layout (· % 2 ^ 64) id geo.region.capacity = some st' from hexec] at hend
    exact ⟨l, q', m', hstep, hend⟩
  | acknowledge =>
    obtain rfl := Option.some.inj hexec
    exact h.acknowledge_oldest ε F
  | reboot =>
    obtain rfl := Option.some.inj hexec
    exact Pictures.recover ε F h.image

/-- What a step of a replay takes the queue for. -/
theorem Executes.append_inv (h : Executes g s m₀ st c e) {s' : Sample}
    {r : Result (QueueError ε) FlashQueue MeasurementRecord} (hr : e.label.reply = .op (.append s') r) :
    c = .append ∧ ∃ a q, r = .ok a q := by
  have hreply := h.reply
  rw [hr] at hreply
  cases c with
  | append =>
    obtain ⟨a, q, heq⟩ := hreply
    cases heq
    exact ⟨rfl, a, q, rfl⟩
  | acknowledge =>
    obtain ⟨_, heq⟩ := hreply
    cases heq
  | reboot =>
    obtain ⟨_, heq⟩ := hreply
    cases heq

/-- Below the last `u64` the counter of the replay is that of the queue. -/
theorem Executes.noWrap (h : Executes g s m₀ st c e) (hn : st.next + 1 < 2 ^ 64) : NoWrap e := by
  intro _ _ q _ hq
  rw [(h.queue q hq).next_sequence, UInt64.toNat_ofNat']
  have := Nat.mod_le st.next (2 ^ 64)
  omega

theorem Executes.appendOk (h : Executes g s m₀ st c e) : AppendOk e :=
  fun _ _ hr => (h.append_inv hr).2

theorem Executes.appended (h : Executes g s m₀ st c e) :
    e.label.appended = decide (c = .append) := by
  have hreply := h.reply
  rw [Label.appended]
  cases c with
  | append =>
    obtain ⟨a, q, heq⟩ := hreply
    rw [heq]
    rfl
  | acknowledge =>
    obtain ⟨_, heq⟩ := hreply
    rw [heq]
    rfl
  | reboot =>
    obtain ⟨_, heq⟩ := hreply
    rw [heq]
    rfl

/-- The run `es`, from a device that is off on the image `m₀`, executes the commands `cs`, in a
replay from an empty log to `st`. -/
structure Replays (F : Faults) (geo : Geometry) (s : Sample) (m₀ : Flash) (cs : List Command)
    (st : LogState ℕ) (es : List (Taken Machine (Label ε))) (q : FlashQueue) (m : Flash) : Prop where
  run : QueueRun F geo m₀ es ⟨m, some q⟩
  follows : Follows geo.region s m₀ st q m
  executes : List.Forall₂ (fun p e => Executes geo.region s m₀ p.1 p.2 e)
    ((.blank geo.region.layout, .reboot) :: visits geo.region.layout (· % 2 ^ 64) id
      geo.region.capacity cs (.blank geo.region.layout)) es

/-- The rest of a replay is the rest of a run. -/
theorem exists_replay_from (F : Faults) (cs : List Command)
    {es : List (Taken Machine (Label ε))} {q : FlashQueue} {m : Flash}
    (hrun : QueueRun F geo m₀ es ⟨m, some q⟩) (hfol : Follows geo.region s m₀ st q m)
    (h : replay geo.region.layout (· % 2 ^ 64) id geo.region.capacity cs st = some st') :
    ∃ (es' : List (Taken Machine (Label ε))) (q' : FlashQueue) (m' : Flash),
      QueueRun F geo m₀ (es ++ es') ⟨m', some q'⟩ ∧ Follows geo.region s m₀ st' q' m'
        ∧ List.Forall₂ (fun p e => Executes geo.region s m₀ p.1 p.2 e)
          (visits geo.region.layout (· % 2 ^ 64) id geo.region.capacity cs st) es' := by
  induction cs generalizing es q m st with
  | nil =>
    cases h
    exact ⟨[], q, m, by rwa [List.append_nil], hfol, .nil⟩
  | cons c cs ih =>
    obtain ⟨st₁, hst₁, hrest⟩ := Option.bind_eq_some_iff.mp h
    obtain ⟨l, q₁, m₁, hstep, hfol₁, hreply⟩ := hfol.exec ε F hst₁
    obtain ⟨es', q', m', hrun', hfol', hall⟩ := ih (hrun.snoc hstep) hfol₁ hrest
    refine ⟨_ :: es', q', m', by simpa using hrun', hfol', ?_⟩
    rw [visits, hst₁, Option.elim_some]
    refine .cons ⟨hfol.image, fun q' hq' => ?_, hreply⟩ hall
    obtain rfl := Option.some.inj hq'
    exact hfol

/-- **Replaying is running.** From a blank region the queue can execute any commands the replay
can. -/
theorem exists_replay_run (ε : Type) (F : Faults) (s : Sample) (hblank : geo.region.Blank m₀)
    (cs : List Command)
    (h : replay geo.region.layout (· % 2 ^ 64) id geo.region.capacity cs (.blank geo.region.layout)
      = some st) :
    ∃ (es : List (Taken Machine (Label ε))) (q : FlashQueue) (m : Flash),
      Replays F geo s m₀ cs st es q m := by
  obtain ⟨l, hrun, hboot⟩ := exists_boot ε F hblank
  obtain ⟨es, q, m, hrun', hfol, hall⟩ := exists_replay_from F cs hrun (.blank hblank) h
  refine ⟨_, q, m, hrun', hfol, .cons ⟨(Follows.blank hblank).image, nofun, ?_⟩ hall⟩
  cases hr : l.reply with
  | op op r => exact absurd hr (hboot op r)
  | recover o => exact ⟨o, rfl⟩

theorem Replays.exists_visit (h : Replays F geo s m₀ cs st es q m) (he : e ∈ es) :
    ∃ p, p ∈ (LogState.blank geo.region.layout, Command.reboot) :: visits geo.region.layout
      (· % 2 ^ 64) id geo.region.capacity cs (.blank geo.region.layout)
        ∧ Executes geo.region s m₀ p.1 p.2 e := by
  obtain ⟨i, hi, rfl⟩ := List.getElem_of_mem he
  have hlen := h.executes.length_eq
  exact ⟨_, List.getElem_mem (hlen ▸ hi), h.executes.get (hlen ▸ hi) hi⟩

theorem Replays.exists_step (h : Replays F geo s m₀ cs st es q m) {p : LogState ℕ × Command}
    (hp : p ∈ visits geo.region.layout (· % 2 ^ 64) id geo.region.capacity cs
      (.blank geo.region.layout)) :
    ∃ e ∈ es, Executes geo.region s m₀ p.1 p.2 e := by
  have hmem := List.mem_cons_of_mem (LogState.blank geo.region.layout, Command.reboot) hp
  obtain ⟨i, hi, hget⟩ := List.getElem_of_mem hmem
  have hlen := h.executes.length_eq
  refine ⟨_, List.getElem_mem (hlen ▸ hi), ?_⟩
  rw [← hget]
  exact h.executes.get hi (hlen ▸ hi)

theorem Replays.noWrap (h : Replays F geo s m₀ cs st es q m)
    (hn : ∀ p ∈ visits geo.region.layout (· % 2 ^ 64) id geo.region.capacity cs
      (.blank geo.region.layout), p.1.next + 1 < 2 ^ 64) : ∀ e ∈ es, NoWrap e := by
  intro e he
  obtain ⟨p, hp, hexec⟩ := h.exists_visit he
  refine hexec.noWrap ?_
  rcases List.mem_cons.mp hp with rfl | hp
  · exact Nat.one_lt_two_pow (by decide)
  · exact hn p hp

theorem Replays.appendOk (h : Replays F geo s m₀ cs st es q m) : ∀ e ∈ es, AppendOk e := by
  intro e he
  obtain ⟨p, -, hexec⟩ := h.exists_visit he
  exact hexec.appendOk

/-- The run appends as often as it is told to. -/
theorem Replays.appended (h : Replays F geo s m₀ cs st es q m)
    (hreplay : replay geo.region.layout (· % 2 ^ 64) id geo.region.capacity cs
      (.blank geo.region.layout) = some st) : appended es = cs.count .append := by
  have hcount : ∀ {ps : List (LogState ℕ × Command)} {es : List (Taken Machine (Label ε))},
      List.Forall₂ (fun p e => Executes geo.region s m₀ p.1 p.2 e) ps es →
        PicoDataLogger.appended es = (ps.map Prod.snd).count .append := by
    intro ps es hall
    induction hall with
    | nil => rfl
    | cons hexec _ ih =>
      rw [PicoDataLogger.appended, List.countP_cons, ← PicoDataLogger.appended, ih, hexec.appended,
        List.map_cons, List.count_cons]
      simp
  rw [hcount h.executes, List.map_cons, map_snd_visits _ _ _ hreplay]
  rfl

/-- **Replays are evaluated.** Where the replay of the commands ends in a state of which `P` holds,
and `Q` holds before each command, there is a run of which that is true. -/
theorem exists_replays (ε : Type) (F : Faults) (s : Sample) (hblank : geo.region.Blank m₀) {L : Layout}
    {capacity : ℕ} (hL : geo.region.layout = L) (hcapacity : geo.region.capacity = capacity)
    {P : LogState ℕ → Prop} [DecidablePred P] {Q : LogState ℕ × Command → Prop} [DecidablePred Q]
    (hend : (replay L (· % 2 ^ 64) id capacity cs (.blank L)).any (fun st => decide (P st)) = true)
    (hvisits : (visits L (· % 2 ^ 64) id capacity cs (.blank L)).all (fun p => decide (Q p)) = true) :
    ∃ (st : LogState ℕ) (es : List (Taken Machine (Label ε))) (q : FlashQueue) (m : Flash),
      Replays F geo s m₀ cs st es q m ∧ P st
        ∧ (∀ p ∈ visits geo.region.layout (· % 2 ^ 64) id geo.region.capacity cs
          (.blank geo.region.layout), Q p)
        ∧ PicoDataLogger.appended es = cs.count .append := by
  subst hL hcapacity
  obtain ⟨st, hst, hP⟩ := (Option.any_eq_true _ _).mp hend
  obtain ⟨es, q, m, h⟩ := exists_replay_run ε F s hblank cs hst
  exact ⟨st, es, q, m, h, of_decide_eq_true hP,
    fun p hp => of_decide_eq_true (List.all_eq_true.mp hvisits p hp), h.appended hst⟩

end Runs

/-! ## An outage

On two sectors there is room for 16 records. During the outage 17 are taken, so the first is
discarded; then the next 15 are delivered, and with the last of them the first sector is
erased. The device reboots, and its next record goes to the first slot again. -/

section Outage

/-- The commands. -/
def outage : List Command :=
  List.replicate 17 .append ++ List.replicate 15 .acknowledge ++ [.reboot, .append]

/-- The log then: records 16 and 17, the newer one in the sector that was erased. -/
def AfterOutage (st : LogState ℕ) : Prop :=
  st.next = 18 ∧ st.depth = 2 ∧ st.erases = 1 ∧ toView st.slots 0 = .active 17
    ∧ toView st.slots 1 = .erased ∧ toView st.slots 16 = .active 16
    ∧ ((List.range 32).filterMap fun i => (toView st.slots i).active?) = [17, 16]

instance (st : LogState ℕ) : Decidable (AfterOutage st) := inferInstanceAs (Decidable (_ ∧ _))

theorem twoSectors_layout :
    Geometry.twoSectors.region.layout = { sectors := 2, width := 16, width_pos := by decide } :=
  rfl

theorem twoSectors_capacity : Geometry.twoSectors.region.capacity = 16 := rfl

/-- A run through the outage, nowhere near the last sequence, with an append to the full queue in
it. -/
theorem exists_outage (ε : Type) (F : Faults) (s : Sample) :
    ∃ (st : LogState ℕ) (es : List (Taken Machine (Label ε))) (q : FlashQueue) (m : Flash),
      Replays F Geometry.twoSectors s blankFlash outage st es q m ∧ AfterOutage st
        ∧ (∀ e ∈ es, NoWrap e) ∧ appended es = 18
        ∧ ∃ e ∈ es, ∃ q, e.before.queue = some q ∧ q.depth = q.capacity
          ∧ ∃ a t, e.label.reply = .op (.append s) (.ok a t) := by
  have hend : (replay ⟨2, 16, by decide⟩ (· % 2 ^ 64) id 16 outage (.blank ⟨2, 16, by decide⟩)).any
      (fun st => decide (AfterOutage st)) = true := by
    decide +kernel
  have hnext : (visits ⟨2, 16, by decide⟩ (· % 2 ^ 64) id 16 outage (.blank ⟨2, 16, by decide⟩)).all
      (fun p => decide (p.1.next + 1 < 2 ^ 64)) = true := by
    decide +kernel
  have hover : (visits ⟨2, 16, by decide⟩ (· % 2 ^ 64) id 16 outage (.blank ⟨2, 16, by decide⟩)).any
      (fun p => decide (p.2 = .append ∧ p.1.depth = 16)) = true := by
    decide +kernel
  obtain ⟨st, es, q, m, h, hafter, hvisits, hcount⟩ :=
    exists_replays ε F s (blank_blankFlash _) twoSectors_layout twoSectors_capacity hend hnext
  -- the append to the full queue
  obtain ⟨⟨st₁, c⟩, hp, hval⟩ := List.any_eq_true.mp hover
  obtain ⟨rfl, hfull⟩ : c = .append ∧ st₁.depth = 16 := of_decide_eq_true hval
  obtain ⟨e, he, hexec⟩ := h.exists_step hp
  obtain ⟨a, t, hreply⟩ := hexec.reply
  obtain ⟨hstep, -⟩ := h.run.of_mem he
  obtain ⟨q₁, hq₁⟩ := hstep.queue_of_op hreply
  have hfol := hexec.queue q₁ hq₁
  refine ⟨st, es, q, m, h, hafter, h.noWrap hvisits, hcount, e, he, q₁, hq₁, ?_, a, t, hreply⟩
  rw [hfol.depth, hfull, FlashQueue.capacity, hfol.region, twoSectors_capacity]

/-- The records left by the outage, in their order. -/
theorem Replays.live_afterOutage {ε : Type} {F : Faults} {s : Sample} {st : LogState ℕ}
    {es : List (Taken Machine (Label ε))} {q : FlashQueue} {m : Flash}
    (h : Replays F Geometry.twoSectors s blankFlash outage st es q m) (hafter : AfterOutage st) :
    SectorLog.live Geometry.twoSectors.region.layout seqKey (Geometry.twoSectors.region.view m)
      = [s.stored 16, s.stored 17] := by
  obtain ⟨-, -, -, -, -, -, hactive⟩ := hafter
  have hsort : [17, 16].mergeSort (fun a b => decide (a % 2 ^ 64 ≤ b % 2 ^ 64)) = [16, 17] := by
    simp [List.mergeSort, List.MergeSort.Internal.splitInTwo]
  rw [h.follows.image.shows.live seqKey, seqKey_stored, SectorLog.live]
  change List.map _ (List.mergeSort ((List.range 32).filterMap _) _) = _
  rw [hactive, hsort]
  rfl

end Outage

end PicoDataLogger
