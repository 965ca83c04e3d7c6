/-
Tasks that run until they wait.

A task is a program whose primitives are polled: a primitive is ready with an
answer, or it is pending. From the primitive it was suspended at a task runs on
until one is pending, and only then another task has its turn. What is left of
the program is the whole state of a suspended task; dropping it is cancelling
the task.

`Lap` is one passage through a program and `Turn` a turn of a task that goes
round a loop. `Turn.rule` reduces what holds of a turn to what holds of a lap.

Nothing here names a particular device.
-/
import PicoDataLogger.Interaction

set_option autoImplicit false

namespace Cooperative

open Interaction

/-! ## Polling -/

/-- What polling may do to a state; `none` is pending. -/
abbrev Poll (σ α : Type) : Type := σ → Option α → σ → Prop

namespace Poll

variable {σ α β : Type}

/-- A call that does not wait. -/
def op (f : σ → α × σ) : Poll σ α := fun s r s' => r = some (f s).1 ∧ s' = (f s).2

/-- A call that does not wait, answered from outside. -/
def query : Poll σ α := fun s r s' => r.isSome = true ∧ s' = s

/-- An event outside, which may not have come yet. -/
def event : Poll σ α := fun s _ s' => s' = s

/-- A slot that is waited for until it is full, and emptied. -/
inductive wait (slot : σ → Option α) (empty : σ → σ) : σ → Option α → σ → Prop where
  | ready {s : σ} {a : α} (h : slot s = some a) : wait slot empty s (some a) (empty s)
  | pending {s : σ} (h : slot s = none) : wait slot empty s none s

/-- The one of two that is ready; `a` is polled first. -/
inductive select (a : Poll σ α) (b : Poll σ β) : σ → Option (α ⊕ β) → σ → Prop where
  | first {s s' : σ} {x : α} (h : a s (some x) s') : select a b s (some (.inl x)) s'
  | second {s s₁ s' : σ} {y : β} (ha : a s none s₁) (hb : b s₁ (some y) s') :
      select a b s (some (.inr y)) s'
  | pending {s s₁ s' : σ} (ha : a s none s₁) (hb : b s₁ none s') : select a b s none s'

/-- A deadline: `a` is polled before the timer. -/
inductive withTimeout (timer : Poll σ Unit) (a : Poll σ α) : σ → Option (Except Unit α) → σ → Prop where
  | ready {s s' : σ} {x : α} (h : a s (some x) s') : withTimeout timer a s (some (.ok x)) s'
  | expired {s s₁ s' : σ} (ha : a s none s₁) (ht : timer s₁ (some ()) s') :
      withTimeout timer a s (some (.error ())) s'
  | pending {s s₁ s' : σ} (ha : a s none s₁) (ht : timer s₁ none s') : withTimeout timer a s none s'

end Poll

/-! ## Laps and turns -/

variable {P : Type} {R : P → Type} {σ α β : Type}

/-- A primitive and what it answered. -/
structure Answer (P : Type) (R : P → Type) : Type where
  prim : P
  reply : R prim

/-- One passage through a program: it ends with a value, or is suspended at a pending primitive
with the rest of the program. -/
def Lap (poll : (p : P) → Poll σ (R p)) :
    Prog P R α → σ → List (Answer P R) → Prog P R α ⊕ α → σ → Prop
  | .pure a, s, es, o, s' => es = [] ∧ o = .inr a ∧ s' = s
  | .call p k, s, es, o, s' =>
    (∃ r s₁ es', poll p s (some r) s₁ ∧ es = ⟨p, r⟩ :: es' ∧ Lap poll (k r) s₁ es' o s')
      ∨ poll p s none s' ∧ es = [] ∧ o = .inl (.call p k)

/-- How a turn of a task ends. -/
inductive Turned (P : Type) (R : P → Type) (α : Type) : Type where
  | waiting (rest : Prog P R (Option α))
  | finished (a : α)

/-- A turn of a task that has `x` left of its loop: a lap that ends with `none` is followed by
another one. -/
inductive Turn (poll : (p : P) → Poll σ (R p)) (loop : Prog P R (Option α)) :
    Prog P R (Option α) → σ → List (Answer P R) → Turned P R α → σ → Prop where
  | wait {x rest : Prog P R (Option α)} {s s' : σ} {es : List (Answer P R)}
      (h : Lap poll x s es (.inl rest) s') : Turn poll loop x s es (.waiting rest) s'
  | finish {x : Prog P R (Option α)} {s s' : σ} {es : List (Answer P R)} {a : α}
      (h : Lap poll x s es (.inr (some a)) s') : Turn poll loop x s es (.finished a) s'
  | again {x : Prog P R (Option α)} {s s₁ s' : σ} {es es' : List (Answer P R)} {o : Turned P R α}
      (h : Lap poll x s es (.inr none) s₁) (ht : Turn poll loop loop s₁ es' o s') :
      Turn poll loop x s (es ++ es') o s'

variable {poll : (p : P) → Poll σ (R p)} {s s₁ s' : σ} {es es' : List (Answer P R)}

/-- **Sequencing**: the first program is suspended, or the second follows it. -/
theorem lap_bind (x : Prog P R α) (f : α → Prog P R β) {o : Prog P R β ⊕ β} :
    Lap poll (x >>= f) s es o s'
      ↔ (∃ a s₁ es₁ es₂, Lap poll x s es₁ (.inr a) s₁ ∧ es = es₁ ++ es₂
          ∧ Lap poll (f a) s₁ es₂ o s')
        ∨ ∃ rest, Lap poll x s es (.inl rest) s' ∧ o = .inl (rest >>= f) := by
  -- on the first program, a primitive at a time
  induction x generalizing s es with
  | pure a =>
    constructor
    · intro h
      exact .inl ⟨a, s, [], es, ⟨rfl, rfl, rfl⟩, rfl, h⟩
    · rintro (⟨b, s₁, es₁, es₂, ⟨rfl, hb, rfl⟩, rfl, h⟩ | ⟨rest, ⟨-, hrest, -⟩, -⟩)
      · obtain rfl := Sum.inr.inj hb
        exact h
      · cases hrest
  | call p k ih =>
    -- ready: the lap goes on in the continuation; pending: what is left is left to both
    constructor
    · rintro (⟨r, s₁, es', hp, rfl, h⟩ | ⟨hp, rfl, rfl⟩)
      · rcases (ih r).mp h with ⟨a, s₂, es₁, es₂, hx, rfl, hf⟩ | ⟨rest, hx, rfl⟩
        · exact .inl ⟨a, s₂, ⟨p, r⟩ :: es₁, es₂, .inl ⟨r, s₁, es₁, hp, rfl, hx⟩, rfl, hf⟩
        · exact .inr ⟨rest, .inl ⟨r, s₁, es', hp, rfl, hx⟩, rfl⟩
      · exact .inr ⟨.call p k, .inr ⟨hp, rfl, rfl⟩, rfl⟩
    · rintro (⟨a, s₂, es₁, es₂, ⟨r, s₁, es', hp, rfl, hx⟩ | ⟨-, -, ho⟩, rfl, hf⟩
        | ⟨rest, ⟨r, s₁, es', hp, rfl, hx⟩ | ⟨hp, rfl, hrest⟩, rfl⟩)
      · exact .inl ⟨r, s₁, es' ++ es₂, hp, rfl, (ih r).mpr (.inl ⟨a, s₂, es', es₂, hx, rfl, hf⟩)⟩
      · cases ho
      · exact .inl ⟨r, s₁, es', hp, rfl, (ih r).mpr (.inr ⟨rest, hx, rfl⟩)⟩
      · obtain rfl := Sum.inl.inj hrest
        exact .inr ⟨hp, rfl, rfl⟩

theorem lap_map (g : α → β) (x : Prog P R α) {o : Prog P R β ⊕ β} :
    Lap poll (g <$> x) s es o s'
      ↔ (∃ a, Lap poll x s es (.inr a) s' ∧ o = .inr (g a))
        ∨ ∃ rest, Lap poll x s es (.inl rest) s' ∧ o = .inl (g <$> rest) := by
  refine (lap_bind x (fun a => .pure (g a))).trans (or_congr ?_ Iff.rfl)
  constructor
  · rintro ⟨a, s₁, es₁, es₂, h, rfl, rfl, rfl, rfl⟩
    exact ⟨a, by rwa [List.append_nil], rfl⟩
  · rintro ⟨a, h, rfl⟩
    exact ⟨a, s', es, [], h, (List.append_nil es).symm, rfl, rfl, rfl⟩

/-- **The rule for turns**: what holds of every lap and is kept by joining holds of every turn, and
a task is left where one of its laps leaves it. -/
theorem Turn.rule {loop x : Prog P R (Option α)} {o : Turned P R α}
    {Φ : σ → List (Answer P R) → σ → Prop} {W : Prog P R (Option α) → Prop}
    (hjoin : ∀ {s es s₁ es' s'}, Φ s es s₁ → Φ s₁ es' s' → Φ s (es ++ es') s')
    (hloop : ∀ {s es o s'}, Lap poll loop s es o s' → Φ s es s' ∧ ∀ rest, o = .inl rest → W rest)
    (hx : ∀ {s es o s'}, Lap poll x s es o s' → Φ s es s' ∧ ∀ rest, o = .inl rest → W rest)
    (h : Turn poll loop x s es o s') : Φ s es s' ∧ ∀ rest, o = .waiting rest → W rest := by
  induction h with
  | wait h =>
    refine ⟨(hx h).1, fun rest hrest => ?_⟩
    obtain rfl := Turned.waiting.inj hrest
    exact (hx h).2 _ rfl
  | finish h => exact ⟨(hx h).1, nofun⟩
  -- round again: the rest of the turn starts from the whole loop
  | again h _ ih => exact ⟨hjoin (hx h).1 (ih hloop).1, (ih hloop).2⟩

end Cooperative
