/-
`main.rs`: the clock, from its first anchor on.

The device has no clock of its own but a count of microseconds. An answer of an NTP server
anchors that to UTC: `synchronize_clock_until_ready` asks until there is one, and
`refresh_clock` asks again once a day. A refresh that fails keeps the anchor and is
repeated after a second, then two, and so on up to a minute; one that takes too
long is dropped where it waits, and is as if it had not been begun.

Every await may be dropped, and has no answer then. What the world keeps is the time,
which never runs back, and the exchanges there were.
-/
import PicoDataLogger.Ntp

set_option autoImplicit false

namespace PicoDataLogger.ClockSync

open Interaction

/-! ## The code -/

abbrev IpAddress : Type := UInt32

/-- `δ` is what a DNS query fails with. -/
inductive ResolveError (δ : Type) : Type where
  | Dns (error : δ)
  | NoAddresses

structure ClockState extends PicoDataLogger.ClockState where
  refresh_backoff : RetryBackoff

def ClockState.new (anchor : ClockAnchor) (now : Instant) : ClockState where
  toClockState := .new anchor now
  refresh_backoff := .new

/-- A UDP datagram in the buffer it was received to. -/
abbrev Datagram : Type := ℕ × Vector UInt8 512

/-- What the clock's functions ask for. `exchange` is one NTP exchange: it binds a socket, sends the
request, and waits five seconds for a datagram. -/
inductive Ask : Type where
  | dns_query (hostname : String)
  | after_millis (ms : ℕ)
  | exchange (address : IpAddress) (request : Vector UInt8 NTP_PACKET_LEN)
  | next_u64
  | now

/-- An await that is dropped has no answer. -/
abbrev Ask.Reply (δ : Type) : Ask → Type
  | .dns_query _ => Option (Except δ (List IpAddress))
  | .after_millis _ => Option Unit
  | .exchange _ _ => Option (Option Datagram)
  | .next_u64 => UInt64
  | .now => Instant

abbrev ClockM (δ τ : Type) : Type → Type := Proc Ask (Ask.Reply δ) Dropped τ

section Code

variable {δ τ : Type}

/-- What an await comes to. -/
def settle {α : Type} (t : τ) : Option α → Prog Ask (Ask.Reply δ) (Except Dropped α × τ)
  | some a => .pure (.ok a, t)
  | none => .pure (.error .dropped, t)

def dns_query (hostname : String) : ClockM δ τ (Except δ (List IpAddress)) := fun t =>
  .call (.dns_query hostname) (settle t)

def after_millis (ms : ℕ) : ClockM δ τ Unit := fun t => .call (.after_millis ms) (settle t)

def exchange (address : IpAddress) (request : Vector UInt8 NTP_PACKET_LEN) :
    ClockM δ τ (Option Datagram) := fun t => .call (.exchange address request) (settle t)

def next_u64 : ClockM δ τ UInt64 := fun t => .call .next_u64 fun r => .pure (.ok r, t)

def now : ClockM δ τ Instant := fun t => .call .now fun r => .pure (.ok r, t)

def query_result : Except δ (List IpAddress) → Except (ResolveError δ) IpAddress
  | .ok (address :: _) => .ok address
  | .ok [] => .error .NoAddresses
  | .error error => .error (.Dns error)

/-- The attempts that are left. -/
def resolve_loop (hostname : String) : ℕ → Option (ResolveError δ) →
    ClockM δ τ (Except (ResolveError δ) IpAddress)
  | 0, last_error => return .error (last_error.getD .NoAddresses)
  | left + 1, _ => do
    match query_result (← dns_query hostname) with
    | .ok address => return .ok address
    | .error error =>
      if left ≠ 0 then after_millis 100
      resolve_loop hostname left (some error)

def resolve_ipv4 (hostname : String) : ClockM δ τ (Except (ResolveError δ) IpAddress) :=
  resolve_loop hostname 3 none

/-- The time is read when the response has come. -/
def synchronize_clock (server_address : IpAddress) (request_id : UInt64) :
    ClockM δ τ (Option ClockAnchor) := do
  let received ← exchange server_address (build_ntp_request request_id)
  return PicoDataLogger.synchronize_clock request_id received (← now)

/-- One exchange with the server that has the name. -/
def ask_server (ntp_host : String) : ClockM δ τ (Option ClockAnchor) := do
  match ← resolve_ipv4 ntp_host with
  | .ok address => synchronize_clock address (← next_u64)
  | .error _ => return none

/-- A loop that is still going on when the fuel is out was dropped. -/
def synchronize_clock_until_ready (ntp_host : String) : ℕ → ClockM δ τ ClockAnchor
  | 0 => throw .dropped
  | fuel + 1 => do
    match ← ask_server ntp_host with
    | some anchor => return anchor
    | none =>
      after_millis 5000
      synchronize_clock_until_ready ntp_host fuel

def refresh_clock (ntp_host : String) : ClockM δ ClockState Bool := do
  match ← ask_server ntp_host with
  | some anchor =>
    modify fun clock => { clock with anchor, refresh_backoff := .new }
    let now ← now
    modify fun clock => { clock with next_refresh_at := now + from_secs UTC_REFRESH_INTERVAL_SECS }
    return true
  | none =>
    let retry_delay_secs := (← get).refresh_backoff.next_delay_secs
    modify fun clock => { clock with refresh_backoff := clock.refresh_backoff.advance }
    let now ← now
    modify fun clock => { clock with next_refresh_at := now + from_secs retry_delay_secs }
    return false

end Code

/-! ## Runs -/

/-- An exchange that was begun: what was sent, what came back, and when it began and ended. -/
structure Exchange where
  request : Vector UInt8 NTP_PACKET_LEN
  received : Option Datagram
  sent : Instant
  ended : Instant

structure World where
  now : Instant
  exchanges : List Exchange

/-- Time passes, and any answer may come. -/
def surroundings (δ : Type) : Env Ask (Ask.Reply δ) World where
  respond
    | .exchange _ request, w, r, w' =>
      w.now ≤ w'.now ∧ w'.exchanges = w.exchanges ++ [⟨request, r.join, w.now, w'.now⟩]
    | .now, w, r, w' => w.now ≤ w'.now ∧ w'.exchanges = w.exchanges ∧ r = w'.now
    | _, w, _, w' => w.now ≤ w'.now ∧ w'.exchanges = w.exchanges
  cut _ _ _ := False

/-- What a try comes to. -/
inductive ClockEvent : Type where
  | anchored (anchor : ClockAnchor)
  | failed
  | dropped

def ClockEvent.of (clock : ClockState) : Except Dropped Bool → ClockEvent
  | .ok true => .anchored clock.anchor
  | .ok false => .failed
  | .error _ => .dropped

/-- The life of the clock: `main` has no clock until it is first synchronized, and then refreshes it in
the cycles that begin after `next_refresh_at`. -/
inductive ClockRun (δ : Type) (ntp_host : String) : List ClockEvent → ClockState → World → Prop where
  | first {anchor : ClockAnchor} {w w' w'' : World} {fuel : ℕ} {tr : List (Event Ask World)}
      (h : Exec (surroundings δ) ((synchronize_clock_until_ready ntp_host fuel).prog ()) w tr
        (.done (.ok anchor, ())) w')
      (hlater : w'.now ≤ w''.now) (hexchanges : w''.exchanges = w'.exchanges) :
      ClockRun δ ntp_host [.anchored anchor] (.new anchor w''.now) w''
  | refresh {history : List ClockEvent} {clock clock' : ClockState} {w w₁ w' : World}
      {tr : List (Event Ask World)} {r : Except Dropped Bool} (hrun : ClockRun δ ntp_host history clock w)
      (hlater : w.now ≤ w₁.now) (hexchanges : w₁.exchanges = w.exchanges)
      (hdue : clock.next_refresh_at ≤ w₁.now)
      (h : Exec (surroundings δ) ((refresh_clock ntp_host).prog clock) w₁ tr (.done (r, clock')) w') :
      ClockRun δ ntp_host (history ++ [.of clock' r]) clock' w'

/-! ## Procedures that wait -/

/-- Later in the same world. -/
structure World.Later (w w' : World) : Prop where
  now : w.now ≤ w'.now
  exchanges : w.exchanges <+: w'.exchanges

theorem World.Later.trans {w w' w'' : World} (h : w.Later w') (h' : w'.Later w'') : w.Later w'' :=
  ⟨h.now.trans h'.now, h.exchanges.trans h'.exchanges⟩

/-- Time has passed, and nothing was exchanged. -/
theorem World.Later.of_eq {w w' : World} (hnow : w.now ≤ w'.now) (hexchanges : w'.exchanges = w.exchanges) :
    w.Later w' := by
  refine ⟨hnow, ?_⟩
  rw [hexchanges]

section Specs

variable {δ τ α β : Type}

/-- Every run is from a memory `t` and a world `w` to `Q`. -/
abbrev Spec (x : ClockM δ τ α) (t : τ) (w : World) (Q : Result Dropped τ α → World → Prop) : Prop :=
  Proc.wp (surroundings δ) (fun _ _ _ => True) x Q t w

/-- The memory stays as it is, time passes, and what comes back is in `Q`. -/
def Waits (x : ClockM δ τ α) (Q : World → α → World → Prop) : Prop :=
  ∀ t w, Spec x t w fun o w' => w.Later w' ∧ match o with
    | .ok a t' => t' = t ∧ Q w a w'
    | .error _ t' => t' = t
    | .cut => False

theorem waits_pure {a : α} {Q : World → α → World → Prop} (h : ∀ w, Q w a w) :
    Waits (pure a : ClockM δ τ α) Q :=
  fun _ w => ⟨.of_eq le_rfl rfl, rfl, h w⟩

theorem Waits.mono {x : ClockM δ τ α} {Q Q' : World → α → World → Prop} (h : Waits x Q)
    (hQ : ∀ w a w', Q w a w' → Q' w a w') : Waits x Q' := by
  intro t w
  refine Proc.wp_mono (h t w) (fun _ _ _ hg => hg) ?_
  rintro (⟨a, t'⟩ | _ | _) w' ⟨hlater, hend⟩
  · exact ⟨hlater, hend.1, hQ _ _ _ hend.2⟩
  · exact ⟨hlater, hend⟩
  · exact ⟨hlater, hend⟩

/-- One wait after the other. -/
theorem Waits.bind {x : ClockM δ τ α} {f : α → ClockM δ τ β} {Q : World → α → World → Prop}
    {Q' : World → β → World → Prop} (hx : Waits x Q)
    (hf : ∀ a, Waits (f a) fun w₁ b w' => ∀ w, w.Later w₁ → Q w a w₁ → Q' w b w') :
    Waits (x >>= f) Q' := by
  intro t w
  refine (Proc.wp_bind x f _ t w).mpr (Proc.wp_mono (hx t w) (fun _ _ _ hg => hg) ?_)
  rintro (⟨a, t'⟩ | _ | _) w₁ ⟨hlater, hend⟩
  · obtain ⟨rfl, hQ⟩ := hend
    refine Proc.wp_mono (hf a t' w₁) (fun _ _ _ hg => hg) ?_
    rintro (⟨b, t''⟩ | _ | _) w' ⟨hlater', hend'⟩
    · exact ⟨hlater.trans hlater', hend'.1, hend'.2 w hlater hQ⟩
    · exact ⟨hlater.trans hlater', hend'⟩
    · exact hend'.elim
  · exact ⟨hlater, hend⟩
  · exact hend.elim

/-- Nothing is said of what comes back. -/
abbrev Idles (x : ClockM δ τ α) : Prop := Waits x fun _ _ _ => True

theorem Idles.bind {x : ClockM δ τ α} {f : α → ClockM δ τ β} (hx : Idles x) (hf : ∀ a, Idles (f a)) :
    Idles (x >>= f) :=
  Waits.bind hx fun a => (hf a).mono fun _ _ _ _ _ _ _ => trivial

theorem idles_dns_query (hostname : String) : Idles (dns_query hostname : ClockM δ τ _) := by
  intro t w
  refine ⟨fun r w' hr => ⟨trivial, ?_⟩, fun _ hcut => hcut.elim⟩
  cases r with
  | none => exact ⟨.of_eq hr.1 hr.2, rfl⟩
  | some r => exact ⟨.of_eq hr.1 hr.2, rfl, trivial⟩

theorem idles_after_millis (ms : ℕ) : Idles (after_millis ms : ClockM δ τ Unit) := by
  intro t w
  refine ⟨fun r w' hr => ⟨trivial, ?_⟩, fun _ hcut => hcut.elim⟩
  cases r with
  | none => exact ⟨.of_eq hr.1 hr.2, rfl⟩
  | some r => exact ⟨.of_eq hr.1 hr.2, rfl, trivial⟩

theorem idles_next_u64 : Idles (next_u64 : ClockM δ τ UInt64) := by
  intro t w
  refine ⟨fun r w' hr => ⟨trivial, ?_⟩, fun _ hcut => hcut.elim⟩
  exact ⟨.of_eq hr.1 hr.2, rfl, trivial⟩

/-- The clock can always be read. -/
theorem spec_now {t : τ} {w : World} {Q : Result Dropped τ Instant → World → Prop}
    (h : ∀ w', w.Later w' → Q (.ok w'.now t) w') : Spec (now : ClockM δ τ Instant) t w Q := by
  refine ⟨fun r w' hr => ⟨trivial, ?_⟩, fun _ hcut => hcut.elim⟩
  obtain ⟨hnow, hexchanges, rfl⟩ := hr
  exact h w' (.of_eq hnow hexchanges)

theorem waits_now : Waits (now : ClockM δ τ Instant) fun _ instant w' => instant = w'.now := by
  intro t w
  apply spec_now
  intro w' hlater
  exact ⟨hlater, rfl, rfl⟩

theorem waits_exchange (address : IpAddress) (request : Vector UInt8 NTP_PACKET_LEN) :
    Waits (exchange address request : ClockM δ τ (Option Datagram)) fun w received w' =>
      ⟨request, received, w.now, w'.now⟩ ∈ w'.exchanges := by
  intro t w
  refine ⟨fun r w' hr => ⟨trivial, ?_⟩, fun _ hcut => hcut.elim⟩
  have hlater : w.Later w' := ⟨hr.1, by rw [hr.2]; exact List.prefix_append _ _⟩
  cases r with
  | none => exact ⟨hlater, rfl⟩
  | some received =>
    refine ⟨hlater, rfl, ?_⟩
    change (⟨request, received, w.now, w'.now⟩ : Exchange) ∈ w'.exchanges
    rw [hr.2]
    simp

theorem idles_resolve_loop (hostname : String) (left : ℕ) (last_error : Option (ResolveError δ)) :
    Idles (resolve_loop hostname left last_error : ClockM δ τ _) := by
  induction left generalizing last_error with
  | zero => exact waits_pure fun _ => trivial
  | succ left ih =>
    apply (idles_dns_query hostname).bind
    intro result
    dsimp only
    split
    · exact waits_pure fun _ => trivial
    · -- no pause after the last attempt
      by_cases hleft : left = 0
      · simp only [hleft, ne_eq, not_true_eq_false, if_false]
        rw [hleft] at ih
        exact Idles.bind (waits_pure fun _ => trivial) fun _ => ih _
      · simp only [hleft, ne_eq, not_false_eq_true, if_true]
        exact (idles_after_millis 100).bind fun _ => ih _

theorem idles_resolve_ipv4 (hostname : String) :
    Idles (resolve_ipv4 hostname : ClockM δ τ (Except (ResolveError δ) IpAddress)) :=
  idles_resolve_loop hostname 3 none

end Specs

/-! ## Anchors -/

/-- The datagram as it came, without the rest of its buffer. -/
def Exchange.response (x : Exchange) : Option (List UInt8) :=
  x.received.map fun (length, buffer) => slice buffer 0 length

/-- A synchronized server has answered this request. -/
structure Exchange.Answered (x : Exchange) (response : List UInt8) : Prop where
  received : x.response = some response
  synchronized : Synchronized response
  originate : PicoDataLogger.originate response = slice x.request 40 48

/-- The anchor was read off the answer. -/
def Exchange.Anchors (x : Exchange) (anchor : ClockAnchor) : Prop :=
  (∃ request_id, x.request = build_ntp_request request_id)
    ∧ (∃ response, x.Answered response
      ∧ ntp_to_unix_seconds (ntp_seconds response) = some anchor.unix_seconds)
    ∧ x.ended ≤ anchor.monotonic

/-- Between `w` and `w'` there was an exchange that gives the anchor. -/
structure Fresh (w : World) (anchor : ClockAnchor) (w' : World) : Prop where
  exchange : ∃ x ∈ w'.exchanges, w.now ≤ x.sent ∧ x.Anchors anchor
  monotonic : anchor.monotonic ≤ w'.now

theorem Fresh.of_later {w w₁ w' : World} {anchor : ClockAnchor} (h : w.Later w₁) (hf : Fresh w₁ anchor w') :
    Fresh w anchor w' := by
  obtain ⟨x, hx, hsent, hanchors⟩ := hf.exchange
  exact ⟨⟨x, hx, h.now.trans hsent, hanchors⟩, hf.monotonic⟩

theorem Fresh.trans_later {w w₁ w' : World} {anchor : ClockAnchor} (hf : Fresh w anchor w₁)
    (h : w₁.Later w') : Fresh w anchor w' := by
  obtain ⟨x, hx, hsent, hanchors⟩ := hf.exchange
  exact ⟨⟨x, h.exchanges.subset hx, hsent, hanchors⟩, hf.monotonic.trans h.now⟩

section Specs

variable {δ τ : Type}

theorem waits_synchronize_clock (server_address : IpAddress) (request_id : UInt64) :
    Waits (synchronize_clock server_address request_id : ClockM δ τ _) fun w r w' =>
      ∀ anchor, r = some anchor → Fresh w anchor w' := by
  refine (waits_exchange server_address (build_ntp_request request_id)).bind fun received => ?_
  refine (waits_now (δ := δ)).bind fun instant => waits_pure ?_
  rintro w' w₁ hlater rfl w hlater₁ hmem anchor hanchor
  obtain ⟨length, buffer, rfl, hsynchronized, horiginate, hseconds, hmonotonic⟩ :=
    synchronize_clock_eq_some hanchor
  refine ⟨⟨_, hlater.exchanges.subset hmem, le_rfl, ⟨request_id, rfl⟩,
    ⟨_, ⟨rfl, hsynchronized, ?_⟩, hseconds⟩, ?_⟩, hmonotonic.le⟩
  · rw [transmit_build_ntp_request, horiginate]
  · rw [hmonotonic]
    exact hlater.now

theorem waits_ask_server (ntp_host : String) :
    Waits (ask_server ntp_host : ClockM δ τ (Option ClockAnchor)) fun w r w' =>
      ∀ anchor, r = some anchor → Fresh w anchor w' := by
  refine Waits.bind (idles_resolve_ipv4 ntp_host) fun address => ?_
  cases address with
  | error error => exact waits_pure nofun
  | ok address =>
    refine Waits.bind idles_next_u64 fun request_id => ?_
    refine (waits_synchronize_clock address request_id).mono ?_
    intro w₁ r w' hfresh w hlater _ w₀ hlater₀ _ anchor hanchor
    exact (hfresh anchor hanchor).of_later (hlater₀.trans hlater)

theorem waits_until_ready (ntp_host : String) (fuel : ℕ) :
    Waits (synchronize_clock_until_ready ntp_host fuel : ClockM δ τ ClockAnchor) Fresh := by
  induction fuel with
  | zero =>
    intro t w
    exact ⟨.of_eq le_rfl rfl, rfl⟩
  | succ fuel ih =>
    refine (waits_ask_server ntp_host).bind fun r => ?_
    cases r with
    | some anchor =>
      refine waits_pure ?_
      intro w' w _ hfresh
      exact hfresh anchor rfl
    | none =>
      refine Waits.bind (idles_after_millis 5000) fun _ => ih.mono ?_
      intro w₁ anchor w' hfresh w hlater _ w₀ hlater₀ _
      exact hfresh.of_later (hlater₀.trans hlater)

/-- What a refresh leaves behind. -/
def Refreshed (clock : ClockState) (w : World) : Except Dropped Bool → ClockState → World → Prop
  | .ok true, clock', w' => Fresh w clock'.anchor w' ∧ clock'.refresh_backoff = .new
    ∧ clock'.next_refresh_at = w'.now + from_secs UTC_REFRESH_INTERVAL_SECS
  | .ok false, clock', w' => clock'.anchor = clock.anchor
    ∧ clock'.refresh_backoff = clock.refresh_backoff.advance
    ∧ clock'.next_refresh_at = w'.now + from_secs clock.refresh_backoff.next_delay_secs
  | .error _, clock', _ => clock' = clock

/-- The clock with its next refresh due then. -/
def ClockState.due (clock : ClockState) (t : Instant) : ClockState := { clock with next_refresh_at := t }

@[simp] theorem ClockState.due_anchor (clock : ClockState) (t : Instant) :
    (clock.due t).anchor = clock.anchor := rfl

@[simp] theorem ClockState.due_refresh_backoff (clock : ClockState) (t : Instant) :
    (clock.due t).refresh_backoff = clock.refresh_backoff := rfl

/-- The next refresh is due a while after the time that is read. -/
theorem spec_due {clock : ClockState} {w : World} (d : ℕ) {b : Bool}
    {Q : Result Dropped ClockState Bool → World → Prop}
    (h : ∀ w', w.Later w' → Q (.ok b (clock.due (w'.now + d))) w') :
    Spec (do
      let now ← now
      modify fun clock => { clock with next_refresh_at := now + d }
      return b : ClockM δ ClockState Bool) clock w Q := by
  refine (Proc.wp_bind _ _ _ clock w).mpr (spec_now ?_)
  intro w' hlater
  exact h w' hlater

/-- **One refresh**: a new anchor, or a longer delay, or nothing. -/
theorem refresh_clock_refreshed {ntp_host : String} {clock clock' : ClockState} {w w' : World}
    {r : Except Dropped Bool} {tr : List (Event Ask World)}
    (h : Exec (surroundings δ) ((refresh_clock ntp_host).prog clock) w tr (.done (r, clock')) w') :
    w.Later w' ∧ Refreshed clock w r clock' w' := by
  have hspec : Spec (refresh_clock ntp_host : ClockM δ ClockState Bool) clock w fun o w' =>
      w.Later w' ∧ match o with
        | .ok b clock' => Refreshed clock w (.ok b) clock' w'
        | .error e clock' => Refreshed clock w (.error e) clock' w'
        | .cut => True := by
    refine (Proc.wp_bind _ _ _ clock w).mpr ?_
    refine Proc.wp_mono (waits_ask_server ntp_host clock w) (fun _ _ _ hg => hg) ?_
    rintro (⟨_ | anchor, t'⟩ | ⟨_, t'⟩ | _) w₁ ⟨hlater, hend⟩
    · obtain ⟨rfl, -⟩ := hend
      dsimp only
      rw [Proc.wp_bind, Proc.wp_get]
      dsimp only
      rw [Proc.wp_bind, Proc.wp_modify]
      apply spec_due
      intro w' hlater'
      exact ⟨hlater.trans hlater', ClockState.due_anchor _ _, ClockState.due_refresh_backoff _ _, rfl⟩
    · obtain ⟨rfl, hfresh⟩ := hend
      dsimp only
      rw [Proc.wp_bind, Proc.wp_modify]
      apply spec_due
      intro w' hlater'
      refine ⟨hlater.trans hlater', ?_, ClockState.due_refresh_backoff _ _, rfl⟩
      rw [ClockState.due_anchor]
      exact (hfresh anchor rfl).trans_later hlater'
    · exact ⟨hlater, hend⟩
    · exact hend.elim
  obtain ⟨-, hlater, hend⟩ := Proc.wp_sound hspec h
  cases r with
  | ok b => exact ⟨hlater, hend⟩
  | error e => exact ⟨hlater, hend⟩

end Specs

/-! ## A clock there is -/

/-- A packet in the buffer it is received to. -/
def padded (packet : List UInt8) : Vector UInt8 512 := copy_from_slice (Vector.replicate 512 0) 0 packet

/-- At the start of 2026, half a second after the request. -/
def first_exchange : Exchange where
  request := build_ntp_request 7
  received := some (48, padded (primary_answer 7 1767225600))
  sent := 250000
  ended := 750000

def first_anchor : ClockAnchor where
  unix_seconds := 1767225600
  monotonic := 750000

theorem slice_padded (request_id : UInt64) (T : UInt32) :
    slice (padded (primary_answer request_id T)) 0 48 = primary_answer request_id T :=
  slice_copy_same _ _ _ _ (by simp [primary_answer]) (by decide)

theorem synchronize_first : PicoDataLogger.synchronize_clock 7 first_exchange.received 750000
    = some first_anchor := by
  have hanswer : ServerAnswer (build_ntp_request 7) 1767225600
      (slice (padded (primary_answer 7 1767225600)) 0 48) := by
    rw [slice_padded]
    exact serverAnswer_primary 7 1767225600
  rw [first_exchange, synchronize_clock_eq hanswer, if_pos (by decide)]
  rfl

/-- The next answer of a run. -/
theorem exec_answer {δ α : Type} {p : Ask} {k : Ask.Reply δ p → Prog Ask (Ask.Reply δ) α} {w w'' : World}
    {o : Outcome α} (r : Ask.Reply δ p) (w' : World) (hr : (surroundings δ).respond p w r w')
    (h : ∃ tr, Exec (surroundings δ) (k r) w' tr o w'') :
    ∃ tr, Exec (surroundings δ) (.call p k) w tr o w'' := by
  obtain ⟨tr, h⟩ := h
  exact ⟨_, .call hr h⟩

/-- The server answers the first request, and then the name cannot be resolved. -/
theorem clock_run_first : ClockRun Unit "ntp" [.anchored first_anchor, .failed]
    { anchor := first_anchor, next_refresh_at := 86403000000, refresh_backoff := ⟨2⟩ }
    ⟨86402000000, [first_exchange]⟩ := by
  have hask : ∃ tr, Exec (surroundings Unit) ((ask_server "ntp").prog ()) ⟨0, []⟩ tr
      (.done (.ok (PicoDataLogger.synchronize_clock 7 first_exchange.received 750000), ()))
      ⟨750000, [first_exchange]⟩ := by
    refine exec_answer (some (.ok [0])) ⟨250000, []⟩ ⟨by decide, rfl⟩ ?_
    refine exec_answer ((7 : UInt64)) ⟨250000, []⟩ ⟨le_rfl, rfl⟩ ?_
    refine exec_answer (some first_exchange.received) ⟨750000, [first_exchange]⟩ ⟨by decide, rfl⟩ ?_
    refine exec_answer ((750000 : ℕ)) ⟨750000, [first_exchange]⟩ ⟨le_rfl, rfl, rfl⟩ ?_
    exact ⟨_, .pure _ _⟩
  obtain ⟨tr, hask⟩ := hask
  rw [synchronize_first] at hask
  have hfirst : ClockRun Unit "ntp" [.anchored first_anchor] (.new first_anchor 750000)
      ⟨750000, [first_exchange]⟩ := by
    have hready : Exec (surroundings Unit) ((synchronize_clock_until_ready "ntp" 1).prog ()) ⟨0, []⟩
        (tr ++ []) (.done (.ok first_anchor, ())) ⟨750000, [first_exchange]⟩ := hask.bind (.pure _ _)
    exact .first hready le_rfl rfl
  have hrefresh : ∃ tr, Exec (surroundings Unit)
      ((refresh_clock "ntp").prog (.new first_anchor 750000)) ⟨86401000000, [first_exchange]⟩ tr
      (.done (.ok false, { anchor := first_anchor, next_refresh_at := 86403000000, refresh_backoff := ⟨2⟩ }))
      ⟨86402000000, [first_exchange]⟩ := by
    -- three queries with a pause after each but the last
    refine exec_answer (some (.ok [])) ⟨86401000000, [first_exchange]⟩ ⟨le_rfl, rfl⟩ ?_
    refine exec_answer (some ()) ⟨86401100000, [first_exchange]⟩ ⟨by decide, rfl⟩ ?_
    refine exec_answer (some (.ok [])) ⟨86401100000, [first_exchange]⟩ ⟨le_rfl, rfl⟩ ?_
    refine exec_answer (some ()) ⟨86401200000, [first_exchange]⟩ ⟨by decide, rfl⟩ ?_
    refine exec_answer (some (.ok [])) ⟨86402000000, [first_exchange]⟩ ⟨by decide, rfl⟩ ?_
    refine exec_answer ((86402000000 : ℕ)) ⟨86402000000, [first_exchange]⟩ ⟨le_rfl, rfl, rfl⟩ ?_
    exact ⟨_, .pure _ _⟩
  obtain ⟨tr', hrefresh⟩ := hrefresh
  -- a day later
  let later : World := ⟨86401000000, [first_exchange]⟩
  have hlater : (750000 : ℕ) ≤ later.now := by decide
  have hexchanges : later.exchanges = [first_exchange] := rfl
  exact hfirst.refresh hlater hexchanges (by decide) hrefresh

/-! ## The clock of a run -/

/-- How often the refresh has failed. -/
def failures (history : List ClockEvent) : ℕ :=
  history.countP fun
    | .failed => true
    | _ => false

/-- The delays of a backoff: they double, up to a minute. -/
def delay_secs (k : ℕ) : ℕ := min (2 ^ k) 60

theorem advance_delay_secs {backoff : RetryBackoff} {k : ℕ} (h : backoff.next_delay_secs = delay_secs k) :
    backoff.advance.next_delay_secs = delay_secs (k + 1) := by
  simp only [RetryBackoff.advance, h, delay_secs, pow_succ]
  omega

/-- When the next refresh is due: a day after an anchor, else as long as the backoff says after
the last of `k` failures. -/
def due_after (k : ℕ) : ℕ :=
  from_secs (if k = 0 then UTC_REFRESH_INTERVAL_SECS else delay_secs (k - 1))

/-- The clock after its last anchor and what came `after` it. -/
structure Kept (after : List ClockEvent) (clock : ClockState) (w : World) : Prop where
  missed : ∀ e ∈ after, e = .failed ∨ e = .dropped
  anchor : ∃ x ∈ w.exchanges, x.Anchors clock.anchor
  backoff : clock.refresh_backoff.next_delay_secs = delay_secs (failures after)
  due : ∃ t, clock.anchor.monotonic ≤ t ∧ t ≤ w.now
    ∧ clock.next_refresh_at = t + due_after (failures after)

theorem Kept.of_later {after : List ClockEvent} {clock : ClockState} {w w' : World}
    (h : Kept after clock w) (hlater : w.Later w') : Kept after clock w' where
  missed := h.missed
  anchor := by
    obtain ⟨x, hx, hanchors⟩ := h.anchor
    exact ⟨x, hlater.exchanges.subset hx, hanchors⟩
  backoff := h.backoff
  due := by
    obtain ⟨t, hanchor, ht, hdue⟩ := h.due
    exact ⟨t, hanchor, ht.trans hlater.now, hdue⟩

/-- A first anchor, or one that was refreshed. -/
theorem Fresh.kept {w w' : World} {clock : ClockState} (h : Fresh w clock.anchor w')
    (hbackoff : clock.refresh_backoff = .new)
    (hdue : clock.next_refresh_at = w'.now + from_secs UTC_REFRESH_INTERVAL_SECS) : Kept [] clock w' where
  missed := nofun
  anchor := by
    obtain ⟨x, hx, -, hanchors⟩ := h.exchange
    exact ⟨x, hx, hanchors⟩
  backoff := by
    rw [hbackoff]
    rfl
  due := by
    refine ⟨w'.now, h.monotonic, le_rfl, ?_⟩
    rw [hdue, due_after, failures, List.countP_nil, if_pos rfl]

theorem failures_append_failed (after : List ClockEvent) :
    failures (after ++ [.failed]) = failures after + 1 := by
  simp [failures]

theorem failures_append_dropped (after : List ClockEvent) :
    failures (after ++ [.dropped]) = failures after := by
  simp [failures]

/-- A refresh that failed. -/
theorem Kept.failed {after : List ClockEvent} {clock clock' : ClockState} {w w' : World}
    (h : Kept after clock w) (hlater : w.Later w') (hanchor : clock'.anchor = clock.anchor)
    (hbackoff : clock'.refresh_backoff = clock.refresh_backoff.advance)
    (hdue : clock'.next_refresh_at = w'.now + from_secs clock.refresh_backoff.next_delay_secs) :
    Kept (after ++ [.failed]) clock' w' where
  missed := by
    intro e he
    rcases List.mem_append.mp he with he | he
    · exact h.missed e he
    · exact .inl (List.mem_singleton.mp he)
  anchor := by
    rw [hanchor]
    exact (h.of_later hlater).anchor
  backoff := by
    rw [hbackoff, failures_append_failed]
    exact advance_delay_secs h.backoff
  due := by
    obtain ⟨t, hle, ht, -⟩ := (h.of_later hlater).due
    refine ⟨w'.now, ?_, le_rfl, ?_⟩
    · rw [hanchor]
      exact hle.trans ht
    · -- the delay of the failures before this one
      rw [hdue, h.backoff, failures_append_failed, due_after, if_neg (Nat.succ_ne_zero _),
        Nat.add_sub_cancel]

/-- A refresh that was dropped. -/
theorem Kept.dropped {after : List ClockEvent} {clock : ClockState} {w w' : World}
    (h : Kept after clock w) (hlater : w.Later w') : Kept (after ++ [.dropped]) clock w' := by
  obtain ⟨hmissed, hanchor, hbackoff, hdue⟩ := h.of_later hlater
  refine ⟨fun e he => ?_, hanchor, ?_, ?_⟩
  · rcases List.mem_append.mp he with he | he
    · exact hmissed e he
    · exact .inr (List.mem_singleton.mp he)
  · rwa [failures_append_dropped]
  · rwa [failures_append_dropped]

/-- What a run keeps. -/
theorem kept_of_run {δ : Type} {ntp_host : String} {history : List ClockEvent} {clock : ClockState}
    {w : World} (h : ClockRun δ ntp_host history clock w) :
    ∃ before after, history = before ++ .anchored clock.anchor :: after ∧ Kept after clock w := by
  induction h with
  | @first anchor w w' w'' fuel tr h hnow hexchanges =>
    have hspec := waits_until_ready (δ := δ) ntp_host fuel () w
    obtain ⟨-, -, -, hfresh⟩ := Proc.wp_sound hspec h
    exact ⟨[], [], rfl, (hfresh.trans_later (.of_eq hnow hexchanges)).kept rfl rfl⟩
  | @refresh history clock clock' w w₁ w' tr r _ hnow hexchanges hdue h ih =>
    obtain ⟨before, after, rfl, hkept⟩ := ih
    obtain ⟨hlater, hrefreshed⟩ := refresh_clock_refreshed h
    have hlater' : w.Later w' := (World.Later.of_eq hnow hexchanges).trans hlater
    match r, hrefreshed with
    | .ok true, ⟨hfresh, hbackoff, hnext⟩ => exact ⟨_, [], rfl, hfresh.kept hbackoff hnext⟩
    | .ok false, ⟨hanchor, hbackoff, hnext⟩ =>
      refine ⟨before, after ++ [.failed], ?_, hkept.failed hlater' hanchor hbackoff hnext⟩
      rw [hanchor, List.append_assoc]
      rfl
    | .error _, hsame =>
      cases hsame
      refine ⟨before, after ++ [.dropped], ?_, hkept.dropped hlater'⟩
      rw [List.append_assoc]
      rfl

/-- The servers tell the time: the second in an answer is that of a moment of the exchange. The device
started `utc` microseconds after the Unix epoch. -/
def Honest (utc : ℕ) (w : World) : Prop :=
  ∀ x ∈ w.exchanges, ∀ response, x.Answered response → ∃ s, x.sent ≤ s ∧ s ≤ x.ended
    ∧ (ntp_seconds response).toNat = ((utc + s) / 1000000 + 2208988800) % 2 ^ 32

/-- The second that was taken is not one of another era. -/
theorem unix_seconds_eq {field : UInt32} {n : ℕ} {unix_seconds : UInt64} (hn : n < 2 ^ 32)
    (hfield : field.toNat = (n + 2208988800) % 2 ^ 32)
    (h : ntp_to_unix_seconds field = some unix_seconds) : unix_seconds.toNat = n := by
  have hT : (UInt32.ofNat n).toNat = n := UInt32.toNat_ofNat_of_lt' hn
  rw [ntp_to_unix_seconds_eq (T := UInt32.ofNat n) (by rw [hT, hfield])] at h
  by_cases hwrap : (UInt32.ofNat n).toNat + 2208988800 < 2 ^ 32
  · rw [if_pos hwrap, Option.some.injEq] at h
    rw [← h, UInt32.toNat_toUInt64, hT]
  · rw [if_neg hwrap] at h
    cases h

/-- A second that was read at `s`, counted on from `m` to `now` in whole seconds. -/
theorem counted_on {utc sent s m now : ℕ} (hsent : sent ≤ s) (hs : s ≤ m) (hm : m ≤ now) :
    ((utc + s) / 1000000 + (now - m) / 1000000) * 1000000 ≤ utc + now
      ∧ utc + now
        < ((utc + s) / 1000000 + (now - m) / 1000000) * 1000000 + (m - sent) + 2000000 := by
  omega

end PicoDataLogger.ClockSync
