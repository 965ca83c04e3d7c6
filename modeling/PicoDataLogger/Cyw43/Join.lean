/-
`wait_for_join`, and the events it waits for.

The runner publishes events to a queue that has room for two, if the mask has them and
somebody has subscribed, and a full queue loses its oldest. A join subscribes before it asks the
chip, and what comes then decides it: some messages end it, with success or an error,
and the others are passed over. While it waits it may flash the LED, which takes an
ioctl, and nothing is read meanwhile. It can be dropped at any of its awaits, and is when
it takes too long.

Joins follow one another on the same queue and the same mask. What is to be shown is that
none is decided by the events of an earlier one.
-/
import PicoDataLogger.Cyw43.Link

set_option autoImplicit false

namespace PicoDataLogger.Cyw43

/-! ## The code -/

inductive JoinError : Type where
  | NetworkNotFound
  | JoinFailure (status : UInt8)
  | AuthenticationFailure
deriving DecidableEq

/-- `status as u8` -/
def EStatus.code (status : EStatus) : UInt8 :=
  if status = .Unknown then 0xFF else UInt8.ofNat (EStatus.all.idxOf status)

/-- The `match` of `wait_for_join`; `none` is to wait on. -/
def verdict (secure_network : Bool) (msg : Message) : Option (Except JoinError Unit) :=
  let status := EStatus.from msg.status.toUInt8
  if msg.event_type = .SET_SSID ∧ status = .SUCCESS ∧ secure_network = false then some (.ok ())
  else if msg.event_type = .SET_SSID ∧ status = .NO_NETWORKS then some (.error .NetworkNotFound)
  else if msg.event_type = .SET_SSID ∧ status ≠ .SUCCESS then some (.error (.JoinFailure status.code))
  else if msg.event_type = .PSK_SUP ∧ status = .ABORT ∧ secure_network = true then none
  else if msg.event_type = .PSK_SUP ∧ status = .UNSOLICITED ∧ secure_network = true then some (.ok ())
  else if (msg.event_type = .PSK_SUP ∨ msg.event_type = .AUTH ∧ status = .FAIL) ∧ secure_network = true then
    some (.error .AuthenticationFailure)
  else none

/-- The `gpio_flash` of a join, without the interval. -/
structure GpioFlash where
  gpio_n : UInt8
  gpio_on : Bool

/-- Where a join waits. -/
inductive Phase : Type where
  | set_ssid (gpio_flash : Option GpioFlash)
  | next_message (gpio_flash : Option GpioFlash)
  | gpio_set (gpio_flash : GpioFlash)

/-- The driver, and the join that is going on. -/
structure Joiner where
  radio : Radio
  join : Option (Bool × Phase)

/-- `events.mask.enable(&[Event::SET_SSID, Event::AUTH, Event::PSK_SUP])` -/
def EventMask.enable_join (mask : EventMask) : Except Halt EventMask := do
  let mask ← mask.enable .SET_SSID
  let mask ← mask.enable .AUTH
  mask.enable .PSK_SUP

namespace Joiner

/-- Before the first join. -/
def new : Joiner where
  radio := { state := .new, runner := .new, heap := fun _ => none }
  join := none

def with_events (J : Joiner) (mask : EventMask) (queue : EventQueue) : Radio :=
  { J.radio with state := { J.radio.state with mask, queue } }

/-- `wait_for_join` up to its first await. The queue has one subscriber at most. -/
def wait_for_join (J : Joiner) (secure_network : Bool) (gpio_flash : Option GpioFlash) :
    Except Halt Joiner := do
  let mask ← J.radio.state.mask.enable_join
  if J.radio.state.queue.isSome then .error .panic
  else return { radio := J.with_events mask (some []), join := some (secure_network, .set_ssid gpio_flash) }

/-- The subscriber and `UnsubscribeOnDrop` are dropped. -/
def unsubscribe (J : Joiner) : Joiner where
  radio := J.with_events .new none
  join := none

/-- The oldest message is read. -/
def read (J : Joiner) (unread : List Message) : Joiner :=
  { J with radio := J.with_events J.radio.state.mask (some unread) }

/-- The next message that is published costs the oldest. -/
def full (J : Joiner) : Bool := J.radio.state.queue.any fun unread => unread.length = 2

end Joiner

/-- What the runner makes of a packet for the queue. -/
def Announces (packet : List UInt8) (msg : Message) : Prop :=
  ∃ event_packet, Reports packet event_packet
    ∧ msg = ⟨.from event_packet.event_type.toUInt8, event_packet.status⟩

/-- What is seen of a step. -/
inductive JoinEvent : Type where
  | began (secure_network : Bool)
  /-- A packet that came in, what it announces, and whether the queue was full. -/
  | packet (packet : List UInt8) (msg : Option Message) (full : Bool)
  | received (msg : Message)
  | ended (msg : Message) (result : Except JoinError Unit)
  | dropped
  | silent

/-- The steps of the driver and of the joins, in any order. -/
inductive JoinStep (J : Joiner) : Except Halt (JoinEvent × Joiner) → Prop where
  | began (secure_network : Bool) (gpio_flash : Option GpioFlash) (hjoin : J.join = none)
      {result : Except Halt Joiner} (h : J.wait_for_join secure_network gpio_flash = result) :
      JoinStep J (result.map fun J' => (.began secure_network, J'))
  | packet (packet : List UInt8) (msg : Option Message) (hmsg : ∀ m, msg = some m ↔ Announces packet m)
      {result : Except Halt Radio} (h : J.radio.rx packet = result) :
      JoinStep J (result.map fun radio => (.packet packet msg J.full, { J with radio }))
  -- anything else the driver does
  | aside {radio : Radio} (hmask : radio.state.mask = J.radio.state.mask)
      (hqueue : radio.state.queue = J.radio.state.queue) : JoinStep J (.ok (.silent, { J with radio }))
  | set_ssid {secure_network : Bool} {gpio_flash : Option GpioFlash}
      (hjoin : J.join = some (secure_network, .set_ssid gpio_flash)) :
      JoinStep J (.ok (.silent, { J with join := some (secure_network, .next_message gpio_flash) }))
  | received {secure_network : Bool} {gpio_flash : Option GpioFlash} {msg : Message} {unread : List Message}
      (hjoin : J.join = some (secure_network, .next_message gpio_flash))
      (hqueue : J.radio.state.queue = some (msg :: unread)) (hverdict : verdict secure_network msg = none) :
      JoinStep J (.ok (.received msg, J.read unread))
  | ended {secure_network : Bool} {gpio_flash : Option GpioFlash} {msg : Message} {unread : List Message}
      {result : Except JoinError Unit} (hjoin : J.join = some (secure_network, .next_message gpio_flash))
      (hqueue : J.radio.state.queue = some (msg :: unread))
      (hverdict : verdict secure_network msg = some result) :
      JoinStep J (.ok (.ended msg result, J.unsubscribe))
  -- the queue is polled before the timer
  | flash {secure_network : Bool} {gpio_flash : GpioFlash}
      (hjoin : J.join = some (secure_network, .next_message (some gpio_flash)))
      (hqueue : J.radio.state.queue = some []) :
      JoinStep J (.ok (.silent,
        { J with
          join := some (secure_network, .gpio_set { gpio_flash with gpio_on := !gpio_flash.gpio_on }) }))
  | flashed {secure_network : Bool} {gpio_flash : GpioFlash}
      (hjoin : J.join = some (secure_network, .gpio_set gpio_flash)) :
      JoinStep J (.ok (.silent, { J with join := some (secure_network, .next_message (some gpio_flash)) }))
  | dropped {join : Bool × Phase} (hjoin : J.join = some join) :
      JoinStep J (.ok (.dropped, J.unsubscribe))

/-- The runs, by what was seen. -/
inductive JoinRun : List JoinEvent → Joiner → Prop where
  | new : JoinRun [] .new
  | step {history : List JoinEvent} {J J' : Joiner} {e : JoinEvent} (hrun : JoinRun history J)
      (hstep : JoinStep J (.ok (e, J'))) : JoinRun (history ++ [e]) J'

/-! ## What a join has heard -/

/-- The mask while a join goes on. -/
def join_mask : EventMask := #v[9, 0x4000, 0, 0, 0, 0]

/-- The mask lets the message through. -/
def listened (msg : Message) : Bool :=
  match join_mask.is_enabled msg.event_type with
  | .ok enabled => enabled
  | .error _ => false

def JoinEvent.announced : JoinEvent → Option Message
  | .packet _ msg _ => msg
  | _ => none

def JoinEvent.read : JoinEvent → Option Message
  | .received msg => some msg
  | _ => none

/-- A message that is listened for came when the queue was full. -/
def JoinEvent.loses : JoinEvent → Bool
  | .packet _ msg full => full && msg.any listened
  | _ => false

/-- It neither begins a join nor ends one. -/
def JoinEvent.within : JoinEvent → Bool
  | .began _ => false
  | .ended _ _ => false
  | .dropped => false
  | _ => true

/-- The messages the join has read. -/
def heard (es : List JoinEvent) : List Message := es.filterMap (·.read)

/-- The messages that were announced to the runner. -/
def announcements (es : List JoinEvent) : List Message := es.filterMap (·.announced)

/-- The join that began before `during` has been undecided since. -/
structure Attends (secure_network : Bool) (during : List JoinEvent) (J : Joiner) : Prop where
  mask : J.radio.state.mask = join_mask
  unread : ∃ unread, J.radio.state.queue = some unread
    ∧ List.Sublist (heard during ++ unread) (announcements during)
    ∧ ((∀ e ∈ during, e.loses = false) →
        heard during ++ unread = (announcements during).filter listened)
  within : ∀ e ∈ during, e.within = true
  undecided : ∀ m ∈ heard during, verdict secure_network m = none

/-- Between joins nothing is listened for; during one, what has come since it began is all
that counts. -/
def Listens (history : List JoinEvent) (J : Joiner) : Prop :=
  match J.join with
  | none => J.radio.state.mask = .new ∧ J.radio.state.queue = none
  | some (secure_network, _) => ∃ before during,
      history = before ++ .began secure_network :: during ∧ Attends secure_network during J

section Steps

variable {history before during : List JoinEvent} {J J' : Joiner} {e : JoinEvent}
  {secure_network : Bool} {msg : Message}

theorem heard_snoc (es : List JoinEvent) (e : JoinEvent) : heard (es ++ [e]) = heard es ++ e.read.toList := by
  rw [heard, List.filterMap_append]
  cases hread : e.read <;> simp [heard, hread]

theorem announcements_snoc (es : List JoinEvent) (e : JoinEvent) :
    announcements (es ++ [e]) = announcements es ++ e.announced.toList := by
  rw [announcements, List.filterMap_append]
  cases hannounced : e.announced <;> simp [announcements, hannounced]

theorem within_snoc {es : List JoinEvent} (h : ∀ e' ∈ es, e'.within = true) (he : e.within = true) :
    ∀ e' ∈ es ++ [e], e'.within = true := by
  intro e' he'
  rcases List.mem_append.mp he' with he' | he'
  · exact h e' he'
  · rw [List.mem_singleton.mp he']
    exact he

theorem enable_join_new : EventMask.enable_join .new = .ok join_mask := by rfl

/-- What is not enabled is not published. -/
theorem listened_of_decisive (h : verdict secure_network msg ≠ none) : listened msg = true := by
  have htype : msg.event_type = .SET_SSID ∨ msg.event_type = .PSK_SUP ∨ msg.event_type = .AUTH := by
    by_contra hother
    simp only [not_or] at hother
    apply h
    simp only [verdict, hother, false_and, or_self, if_false]
  unfold listened
  rcases htype with htype | htype | htype
  · rw [htype]
    rfl
  · rw [htype]
    rfl
  · rw [htype]
    rfl

/-- The queue after a packet. -/
theorem rx_queue {R R' : Radio} {packet : List UInt8} (h : R.rx packet = .ok R') :
    R'.state.mask = R.state.mask
      ∧ ((∀ m, ¬ Announces packet m) → R'.state.queue = R.state.queue)
      ∧ ∀ m, Announces packet m →
          ∃ enabled, R.state.mask.is_enabled m.event_type = .ok enabled
            ∧ R'.state.queue = if enabled then R.state.queue.publish_immediate m else R.state.queue := by
  by_cases hreports : ∃ event_packet, Reports packet event_packet
  · obtain ⟨event_packet, hreports⟩ := hreports
    rw [rx_reports hreports] at h
    unfold Radio.event at h
    dsimp only at h
    cases henabled : R.state.mask.is_enabled (.from event_packet.event_type.toUInt8) with
    | error halt =>
      have hcredited : (R.credited packet).state.mask.is_enabled (.from event_packet.event_type.toUInt8)
        = .error halt := henabled
      simp only [hcredited, bind, Except.bind] at h
      cases h
    | ok enabled =>
      have hcredited : (R.credited packet).state.mask.is_enabled (.from event_packet.event_type.toUInt8)
        = .ok enabled := henabled
      simp only [hcredited, bind, Except.bind] at h
      cases h
      refine ⟨rfl, fun hnone => absurd ⟨event_packet, hreports, rfl⟩ (hnone _), ?_⟩
      rintro m ⟨event_packet', hreports', rfl⟩
      obtain rfl := hreports.unique hreports'
      exact ⟨enabled, henabled, rfl⟩
  · have hnone : ∀ m, ¬ Announces packet m := by
      rintro m ⟨event_packet, hpacket, -⟩
      exact hreports ⟨event_packet, hpacket⟩
    refine ⟨?_, fun _ => ?_, fun m hm => absurd hm (hnone m)⟩
    · cases rx_received h with
      | ignored => rfl
      | response => rfl
      | event hpacket _ => exact absurd ⟨_, hpacket⟩ hreports
      | data => rfl
    · cases rx_received h with
      | ignored => rfl
      | response => rfl
      | event hpacket _ => exact absurd ⟨_, hpacket⟩ hreports
      | data => rfl

/-- A step that the join is not told of. -/
theorem Attends.silent (h : Attends secure_network during J) (hread : e.read = none)
    (hannounced : e.announced = none) (hwithin : e.within = true)
    (hmask : J'.radio.state.mask = J.radio.state.mask)
    (hqueue : J'.radio.state.queue = J.radio.state.queue) : Attends secure_network (during ++ [e]) J' := by
  obtain ⟨hjoin, ⟨unread, hunread, hsublist, hexact⟩, hall, hundecided⟩ := h
  have hreads : heard (during ++ [e]) = heard during := by
    rw [heard_snoc, hread]
    exact List.append_nil _
  have hannounces : announcements (during ++ [e]) = announcements during := by
    rw [announcements_snoc, hannounced]
    exact List.append_nil _
  refine ⟨hmask.trans hjoin, ⟨unread, hqueue.trans hunread, ?_, ?_⟩, within_snoc hall hwithin, ?_⟩
  · rw [hreads, hannounces]
    exact hsublist
  · intro hloses
    rw [hreads, hannounces]
    exact hexact fun e' he' => hloses e' (List.mem_append_left _ he')
  · rw [hreads]
    exact hundecided

/-- A message is read and passed over. -/
theorem Attends.received (h : Attends secure_network during J) {unread : List Message}
    (hqueue : J.radio.state.queue = some (msg :: unread)) (hverdict : verdict secure_network msg = none) :
    Attends secure_network (during ++ [.received msg]) (J.read unread) := by
  obtain ⟨hjoin, ⟨unread', hunread, hsublist, hexact⟩, hall, hundecided⟩ := h
  obtain rfl : msg :: unread = unread' := Option.some.inj (hqueue.symm.trans hunread)
  have hreads : heard (during ++ [.received msg]) = heard during ++ [msg] := heard_snoc _ _
  have hannounces : announcements (during ++ [.received msg]) = announcements during := by
    rw [announcements_snoc]
    exact List.append_nil _
  refine ⟨hjoin, ⟨unread, rfl, ?_, ?_⟩, within_snoc hall rfl, ?_⟩
  · rw [hreads, hannounces, List.append_assoc]
    exact hsublist
  · intro hloses
    rw [hreads, hannounces, List.append_assoc]
    exact hexact fun e he => hloses e (List.mem_append_left _ he)
  · intro m hm
    rw [hreads] at hm
    rcases List.mem_append.mp hm with hm | hm
    · exact hundecided m hm
    · rw [List.mem_singleton.mp hm]
      exact hverdict

/-- A packet comes in. -/
theorem Attends.packet (h : Attends secure_network during J) {packet : List UInt8} {msg : Option Message}
    (hmsg : ∀ m, msg = some m ↔ Announces packet m) {radio : Radio} (hrx : J.radio.rx packet = .ok radio) :
    Attends secure_network (during ++ [.packet packet msg J.full]) { J with radio } := by
  obtain ⟨hmask, hnone, hsome⟩ := rx_queue hrx
  cases msg with
  | none =>
    refine h.silent rfl rfl rfl hmask (hnone fun m hm => ?_)
    cases (hmsg m).mpr hm
  | some msg =>
    obtain ⟨enabled, henabled, hqueue⟩ := hsome msg ((hmsg msg).mp rfl)
    obtain ⟨hjoin, ⟨unread, hunread, hsublist, hexact⟩, hall, hundecided⟩ := h
    have hlistened : listened msg = enabled := by
      rw [hjoin] at henabled
      rw [listened, henabled]
    have hreads : heard (during ++ [.packet packet (some msg) J.full]) = heard during := by
      rw [heard_snoc]
      exact List.append_nil _
    have hannounces : announcements (during ++ [.packet packet (some msg) J.full])
        = announcements during ++ [msg] := announcements_snoc _ _
    refine ⟨hmask.trans hjoin, ?_, within_snoc hall rfl, by rwa [hreads]⟩
    rw [hreads, hannounces, List.filter_append]
    by_cases hon : enabled = true
    · -- it is published, at the cost of the oldest if the queue is full
      have hfull : J.full = decide (unread.length = 2) := by
        rw [Joiner.full, hunread]
        rfl
      refine ⟨(if unread.length = 2 then unread.tail else unread) ++ [msg], ?_, ?_, ?_⟩
      · rw [hqueue, if_pos hon, hunread]
        rfl
      · rw [← List.append_assoc]
        apply List.Sublist.append_right
        split
        · exact (List.Sublist.append_left (List.tail_sublist unread) _).trans hsublist
        · exact hsublist
      · intro hloses
        have hlast := hloses (.packet packet (some msg) J.full) (List.mem_append_right _ (List.mem_singleton_self _))
        simp only [JoinEvent.loses, Option.any_some, hlistened, hon, Bool.and_true, hfull,
          decide_eq_false_iff_not] at hlast
        rw [if_neg hlast, ← List.append_assoc, hexact fun e he => hloses e (List.mem_append_left _ he),
          List.filter_cons_of_pos (hlistened.trans hon), List.filter_nil]
    · refine ⟨unread, ?_, hsublist.trans (List.sublist_append_left _ _), ?_⟩
      · rw [hqueue, if_neg hon, hunread]
      · intro hloses
        rw [hexact fun e he => hloses e (List.mem_append_left _ he),
          List.filter_cons_of_neg (by rw [hlistened]; exact hon), List.filter_nil, List.append_nil]

/-- Nothing is listened for while no join goes on. -/
theorem Listens.idle (hmask : J.radio.state.mask = .new) (hqueue : J.radio.state.queue = none)
    (hjoin : J.join = none) : Listens history J := by
  rw [Listens, hjoin]
  exact ⟨hmask, hqueue⟩

/-- A step within a join. -/
theorem Listens.within {phase phase' : Phase} (h : Listens history J)
    (hjoin : J.join = some (secure_network, phase)) (hjoin' : J'.join = some (secure_network, phase'))
    (hstep : ∀ during, Attends secure_network during J → Attends secure_network (during ++ [e]) J') :
    Listens (history ++ [e]) J' := by
  rw [Listens, hjoin] at h
  obtain ⟨before, during, rfl, hattends⟩ := h
  rw [Listens, hjoin']
  exact ⟨before, during ++ [e], by simp, hstep during hattends⟩

/-- A step that is not a join's. -/
theorem Listens.other (h : Listens history J) (hjoin : J'.join = J.join)
    (hmask : J'.radio.state.mask = J.radio.state.mask)
    (hqueue : J.radio.state.queue = none → J'.radio.state.queue = none)
    (hstep : ∀ secure_network during, Attends secure_network during J →
      Attends secure_network (during ++ [e]) J') : Listens (history ++ [e]) J' := by
  cases hgoing : J.join with
  | none =>
    rw [Listens, hgoing] at h
    exact .idle (hmask.trans h.1) (hqueue h.2) (hjoin.trans hgoing)
  | some join => exact h.within hgoing (hjoin.trans hgoing) (hstep join.1)

/-- **One step.** -/
theorem Listens.step (h : Listens history J) (hstep : JoinStep J (.ok (e, J'))) :
    Listens (history ++ [e]) J' := by
  generalize hresult : Except.ok (e, J') = result at hstep
  cases hstep with
  | began secure_network gpio_flash hjoin hwait =>
    rw [Listens, hjoin] at h
    obtain ⟨hmask, hqueue⟩ := h
    unfold Joiner.wait_for_join at hwait
    simp only [hmask, enable_join_new, hqueue, bind, Except.bind] at hwait
    cases hwait
    cases hresult
    refine ⟨history, [], rfl, rfl, ⟨[], rfl, List.Sublist.refl _, fun _ => rfl⟩, nofun, nofun⟩
  | packet packet msg hmsg hrx =>
    rename_i result
    cases result with
    | error halt => cases hresult
    | ok radio =>
      cases hresult
      obtain ⟨hmask, hnone, hsome⟩ := rx_queue hrx
      refine h.other rfl hmask ?_ fun _ during hattends => hattends.packet hmsg hrx
      intro hqueue
      -- without a subscriber nothing is queued
      cases msg with
      | none =>
        refine (hnone fun m hm => ?_).trans hqueue
        cases (hmsg m).mpr hm
      | some msg =>
        obtain ⟨enabled, -, hafter⟩ := hsome msg ((hmsg msg).mp rfl)
        rw [hafter, hqueue]
        exact ite_self _
  | aside hmask hqueue =>
    cases hresult
    exact h.other rfl hmask (fun hnone => hqueue.trans hnone) fun _ during hattends =>
      hattends.silent rfl rfl rfl hmask hqueue
  | set_ssid hjoin =>
    cases hresult
    exact h.within hjoin rfl fun during hattends => hattends.silent rfl rfl rfl rfl rfl
  | received hjoin hqueue hverdict =>
    cases hresult
    exact h.within hjoin hjoin fun during hattends => hattends.received hqueue hverdict
  | ended hjoin hqueue hverdict =>
    cases hresult
    exact .idle rfl rfl rfl
  | flash hjoin hqueue =>
    cases hresult
    exact h.within hjoin rfl fun during hattends => hattends.silent rfl rfl rfl rfl rfl
  | flashed hjoin =>
    cases hresult
    exact h.within hjoin rfl fun during hattends => hattends.silent rfl rfl rfl rfl rfl
  | dropped hjoin =>
    cases hresult
    exact .idle rfl rfl rfl

theorem listens_of_run (hrun : JoinRun history J) : Listens history J := by
  induction hrun with
  | new => exact .idle rfl rfl rfl
  | step _ hstep ih => exact ih.step hstep

/-- A join that begins finds the queue free, and the mask empty. -/
theorem wait_for_join_ok (hrun : JoinRun history J) (hjoin : J.join = none)
    (gpio_flash : Option GpioFlash) :
    J.wait_for_join secure_network gpio_flash
      = .ok { radio := J.with_events join_mask (some []), join := some (secure_network, .set_ssid gpio_flash) } := by
  have hlistens := listens_of_run hrun
  rw [Listens, hjoin] at hlistens
  obtain ⟨hmask, hqueue⟩ := hlistens
  simp only [Joiner.wait_for_join, hmask, enable_join_new, hqueue, bind, Except.bind, Option.isSome_none,
    Bool.false_eq_true, if_false, pure, Except.pure]

/-- The run before its last step. -/
theorem JoinRun.last (h : JoinRun (history ++ [e]) J') :
    ∃ J, JoinRun history J ∧ JoinStep J (.ok (e, J')) := by
  generalize hhistory : history ++ [e] = history' at h
  cases h with
  | new => simp at hhistory
  | step hrun hstep =>
    obtain ⟨rfl, he⟩ := List.append_inj' hhistory rfl
    cases he
    exact ⟨_, hrun, hstep⟩

theorem JoinStep.of_ended {result : Except JoinError Unit} (h : JoinStep J (.ok (.ended msg result, J'))) :
    ∃ secure_network gpio_flash unread, J.join = some (secure_network, .next_message gpio_flash)
      ∧ J.radio.state.queue = some (msg :: unread) ∧ verdict secure_network msg = some result
      ∧ J' = J.unsubscribe := by
  generalize hresult : Except.ok (JoinEvent.ended msg result, J') = outcome at h
  cases h with
  | ended hjoin hqueue hverdict =>
    cases hresult
    exact ⟨_, _, _, hjoin, hqueue, hverdict, rfl⟩
  | began _ _ _ _ =>
    rename_i outcome _
    cases outcome <;> cases hresult
  | packet _ _ _ _ =>
    rename_i outcome _
    cases outcome <;> cases hresult
  | _ => cases hresult

/-- What a packet is said to announce, it announces. -/
theorem announces_of_run {packet : List UInt8} {full : Bool} (hrun : JoinRun history J)
    (h : .packet packet (some msg) full ∈ history) : Announces packet msg := by
  induction hrun with
  | new => simp at h
  | @step history J J' e _ hstep ih =>
    rcases List.mem_append.mp h with h | h
    · exact ih h
    · obtain rfl := List.mem_singleton.mp h
      generalize hresult : Except.ok (JoinEvent.packet packet (some msg) full, J') = outcome at hstep
      cases hstep with
      | packet packet' msg' hmsg _ =>
        rename_i outcome _
        cases outcome with
        | error halt => cases hresult
        | ok radio =>
          cases hresult
          exact (hmsg msg).mp rfl
      | began _ _ _ _ =>
        rename_i outcome _
        cases outcome <;> cases hresult
      | _ => cases hresult

/-- What a join of a secure network ends well with. -/
theorem verdict_ok (h : verdict true msg = some (.ok ())) :
    msg.event_type = .PSK_SUP ∧ EStatus.from msg.status.toUInt8 = .UNSOLICITED := by
  unfold verdict at h
  dsimp only at h
  split at h
  · rename_i hopen
    exact absurd hopen.2.2 (by decide)
  split at h
  · cases h
  split at h
  · cases h
  split at h
  · cases h
  split at h
  · rename_i hpsk
    exact ⟨hpsk.1, hpsk.2.1⟩
  split at h
  · cases h
  · cases h

/-- What lies before the one that decides is of no account. -/
theorem first_decisive {announced earlier later : List Message}
    (h : announced.filter listened = earlier ++ msg :: later)
    (hearlier : ∀ m ∈ earlier, verdict secure_network m = none) :
    ∃ before after, announced = before ++ msg :: after
      ∧ ∀ m ∈ before, verdict secure_network m = none := by
  obtain ⟨before, rest, rfl, hbefore, hrest⟩ := List.filter_eq_append_iff.mp h
  obtain ⟨skipped, after, rfl, hskipped, -, -⟩ := List.filter_eq_cons_iff.mp hrest
  refine ⟨before ++ skipped, after, by simp, ?_⟩
  intro m hm
  by_contra hdecisive
  have hlistened := listened_of_decisive hdecisive
  rcases List.mem_append.mp hm with hm | hm
  · exact hdecisive (hearlier m (hbefore ▸ List.mem_filter.mpr ⟨hm, hlistened⟩))
  · exact hskipped m hm hlistened

/-- **The verdict on a join.** Whatever the chip sends, and however many joins ended or were dropped
before: a join ends with what one message means that came since it began, and of a secure network
with success only if that was the end of the key exchange. If the queue lost nothing that was
listened for, it was the first message that means anything. The next join can begin. -/
theorem join_verdict {result : Except JoinError Unit} (hrun : JoinRun (history ++ [.ended msg result]) J) :
    ∃ before secure_network during, history = before ++ .began secure_network :: during
      ∧ (∀ e ∈ during, e.within = true)
      ∧ (∃ packet full, .packet packet (some msg) full ∈ during ∧ Announces packet msg)
      ∧ verdict secure_network msg = some result
      ∧ (secure_network = true → result = .ok () →
          msg.event_type = .PSK_SUP ∧ EStatus.from msg.status.toUInt8 = .UNSOLICITED)
      ∧ ((∀ e ∈ during, e.loses = false) →
          ∃ earlier later, announcements during = earlier ++ msg :: later
            ∧ ∀ m ∈ earlier, verdict secure_network m = none)
      ∧ ∀ secure_network gpio_flash, ∃ J', J.wait_for_join secure_network gpio_flash = .ok J' := by
  obtain ⟨J₀, hrun₀, hstep⟩ := hrun.last
  obtain ⟨secure_network, phase, unread, hjoin, hqueue, hverdict, rfl⟩ := hstep.of_ended
  have hlistens := listens_of_run hrun₀
  rw [Listens, hjoin] at hlistens
  obtain ⟨before, during, rfl, -, ⟨unread', hunread, hsublist, hexact⟩, hwithin, hundecided⟩ := hlistens
  obtain rfl : msg :: unread = unread' := Option.some.inj (hqueue.symm.trans hunread)
  refine ⟨before, secure_network, during, rfl, hwithin, ?_, hverdict, ?_, ?_,
    fun _ gpio_flash => ⟨_, wait_for_join_ok hrun rfl gpio_flash⟩⟩
  · have hmem : msg ∈ announcements during := hsublist.subset (by simp)
    obtain ⟨e, he, hannounced⟩ := List.mem_filterMap.mp hmem
    obtain ⟨packet, full, rfl⟩ : ∃ packet full, e = .packet packet (some msg) full := by
      cases e with
      | packet packet msg' full => exact ⟨packet, full, by rw [show msg' = some msg from hannounced]⟩
      | _ => cases hannounced
    exact ⟨packet, full, he,
      announces_of_run hrun₀ (List.mem_append_right _ (List.mem_cons_of_mem _ he))⟩
  · rintro rfl rfl
    exact verdict_ok hverdict
  · intro hloses
    exact first_decisive (hexact hloses).symm hundecided

/-- A packet announces one message at most. -/
theorem Announces.iff_of {packet : List UInt8} (h : Announces packet msg) (m : Message) :
    some msg = some m ↔ Announces packet m := by
  obtain ⟨event_packet, hreports, rfl⟩ := h
  constructor
  · intro heq
    rw [← Option.some.inj heq]
    exact ⟨event_packet, hreports, rfl⟩
  · rintro ⟨event_packet', hreports', rfl⟩
    rw [hreports.unique hreports']

theorem announces_auth : Announces (event_bytes 3 0) ⟨.AUTH, 0⟩ :=
  ⟨_, ⟨_, _, _, _, ⟨rfl, rfl⟩, rfl, rfl, rfl, rfl, rfl, rfl⟩, rfl⟩

theorem announces_psk_sup : Announces (event_bytes 46 6) ⟨.PSK_SUP, 6⟩ :=
  ⟨_, ⟨_, _, _, _, ⟨rfl, rfl⟩, rfl, rfl, rfl, rfl, rfl, rfl⟩, rfl⟩

/-- A secure network is joined: the authentication is passed over, and the end of the key
exchange is the verdict. -/
theorem join_verdict_secure : ∃ history J before secure_network during earlier later,
    JoinRun (history ++ [.ended ⟨.PSK_SUP, 6⟩ (.ok ())]) J
      ∧ history = before ++ .began secure_network :: during ∧ .received ⟨.AUTH, 0⟩ ∈ history
      ∧ announcements during = earlier ++ ⟨.PSK_SUP, 6⟩ :: later
      ∧ (∀ m ∈ earlier, verdict secure_network m = none)
      ∧ ∃ J', J.wait_for_join true none = .ok J' := by
  have hbegan := JoinRun.new.step (.began true none rfl rfl)
  have hauth := hbegan.step (.packet (event_bytes 3 0) (some ⟨.AUTH, 0⟩) announces_auth.iff_of rfl)
  have hwaiting := hauth.step (.set_ssid rfl)
  have hpassed := hwaiting.step (.received rfl rfl rfl)
  have hkey := hpassed.step
    (.packet (event_bytes 46 6) (some ⟨.PSK_SUP, 6⟩) announces_psk_sup.iff_of rfl)
  obtain ⟨history, J, hended, hreceived, hloses⟩ : ∃ history J,
      JoinRun (history ++ [.ended ⟨.PSK_SUP, 6⟩ (.ok ())]) J ∧ .received ⟨.AUTH, 0⟩ ∈ history
        ∧ ∀ e ∈ history, e.loses = false := by
    refine ⟨_, _, hkey.step (.ended rfl rfl rfl),
      List.mem_append_left _ (List.mem_append_right _ List.mem_cons_self), fun e he => ?_⟩
    simp only [List.mem_append, List.mem_singleton, List.not_mem_nil, false_or] at he
    rcases he with (((rfl | rfl) | rfl) | rfl) | rfl <;> rfl
  obtain ⟨before, secure_network, during, rfl, -, -, -, -, hfirst, hnext⟩ := join_verdict hended
  obtain ⟨earlier, later, hannounced, hearlier⟩ := hfirst fun e he =>
    hloses e (List.mem_append_right _ (List.mem_cons_of_mem _ he))
  exact ⟨_, J, before, secure_network, during, earlier, later, hended, rfl, hreceived, hannounced,
    hearlier, hnext true none⟩

end Steps

end PicoDataLogger.Cyw43
