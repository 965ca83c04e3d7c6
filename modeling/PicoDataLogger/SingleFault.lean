/-
A device one of whose primitives fails.

`failing step e` behaves as `step` does, but for one primitive, counted from now
on, which reports `e` and changes nothing. What a procedure does there is a
function of that number. `Timed` describes the function: how many primitives the
procedure issues, how it ends when none of them fails, and for every number below
that what is left when that one does. The rules are those of sequencing: the
counts add up, and a stop in the first part is a stop.

`audited` puts a ledger beside a device, for the accounts of what a run has
done; it changes nothing of the run.
-/
import PicoDataLogger.Interaction
import Mathlib.Algebra.BigOperators.Group.List.Basic
import Mathlib.Algebra.Order.Ring.Nat

set_option autoImplicit false

namespace Interaction

variable {P : Type} {V : P → Type} {ε₀ ε σ τ α β γ : Type}

/-! ## The devices -/

/-- The device whose `k`-th primitive from now on reports `e` and changes nothing, if the fault
is `some k`. -/
def failing (step : (p : P) → σ → Except ε₀ (V p) × σ) (e : ε₀) :
    (p : P) → σ × Option ℕ → Except ε₀ (V p) × (σ × Option ℕ)
  | _, (s, some 0) => (.error e, (s, none))
  | p, (s, some (k + 1)) => ((step p s).1, ((step p s).2, some k))
  | p, (s, none) => ((step p s).1, ((step p s).2, none))

/-- The device with a ledger, in which `note` enters what every primitive has changed. -/
def audited (note : σ → σ → γ → γ) (step : (p : P) → σ → Except ε₀ (V p) × σ) :
    (p : P) → σ × γ → Except ε₀ (V p) × (σ × γ)
  | p, (s, c) => ((step p s).1, ((step p s).2, note s (step p s).2 c))

section Run

variable {step : (p : P) → σ → Except ε₀ (V p) × σ} {e : ε₀} {note : σ → σ → γ → γ}

/-- What every primitive keeps a run keeps. -/
theorem Prog.run_invariant {R : P → Type} {step : (p : P) → σ → R p × σ} {I : σ → Prop}
    (hstep : ∀ p s, I s → I (step p s).2) (x : Prog P R α) {s : σ} (hs : I s) :
    I (x.run step s).2 := by
  induction x generalizing s with
  | pure a => exact hs
  | call p k ih => exact ih _ (hstep p s hs)

/-- A run with a fault is a run of a device that may report errors. -/
theorem exec_failing {E : Env P (fun p => Except ε₀ (V p)) σ}
    (step : (p : P) → σ → Except ε₀ (V p) × σ) (e : ε₀)
    (hok : ∀ p s, E.respond p s (step p s).1 (step p s).2) (herr : ∀ p s, E.respond p s (.error e) s)
    (x : Prog P (fun p => Except ε₀ (V p)) α) (s : σ) (f : Option ℕ) :
    ∃ tr, Exec E x s tr (.done (x.run (failing step e) (s, f)).1)
      (x.run (failing step e) (s, f)).2.1 := by
  induction x generalizing s f with
  | pure a => exact ⟨[], .pure a s⟩
  | call p k ih =>
    rcases f with _ | _ | n
    · obtain ⟨tr, h⟩ := ih _ (step p s).2 none
      exact ⟨_, .call (hok p s) h⟩
    · obtain ⟨tr, h⟩ := ih _ s none
      exact ⟨_, .call (herr p s) h⟩
    · obtain ⟨tr, h⟩ := ih _ (step p s).2 (some n)
      exact ⟨_, .call (hok p s) h⟩

/-- The ledger changes nothing of the run. -/
theorem run_audited (x : Prog P (fun p => Except ε₀ (V p)) α) (s : σ) (c : γ) (f : Option ℕ) :
    ∃ c', x.run (failing (audited note step) e) ((s, c), f)
      = ((x.run (failing step e) (s, f)).1, (((x.run (failing step e) (s, f)).2.1, c'),
          (x.run (failing step e) (s, f)).2.2)) := by
  induction x generalizing s c f with
  | pure a => exact ⟨c, rfl⟩
  | call p k ih =>
    rcases f with _ | _ | n
    · exact ih _ _ _ _
    · exact ih _ _ _ _
    · exact ih _ _ _ _

/-- The run without the ledger. -/
theorem run_of_audited {x : Prog P (fun p => Except ε₀ (V p)) α} {s s' : σ} {c c' : γ}
    {f f' : Option ℕ} {a : α}
    (h : x.run (failing (audited note step) e) ((s, c), f) = (a, ((s', c'), f'))) :
    x.run (failing step e) (s, f) = (a, (s', f')) := by
  obtain ⟨c₁, h₁⟩ := @run_audited _ _ _ _ _ _ step e note x s c f
  rw [h] at h₁
  simp only [Prod.mk.injEq] at h₁
  obtain ⟨ha, ⟨hs, -⟩, hf⟩ := h₁
  rw [ha, hs, hf]

end Run

/-! ## Timed procedures -/

namespace Proc

variable {step : (p : P) → σ → Except ε₀ (V p) × σ} {wrap : ε₀ → ε} {e : ε₀}

/-- From memory `t` on device `s`, the procedure issues `n` primitives and ends with `r`, leaving
`t'` and `s'`, unless one of them fails; if the `k`-th does, the procedure ends with that error
and leaves what `S k` allows. -/
structure Timed (step : (p : P) → σ → Except ε₀ (V p) × σ) (wrap : ε₀ → ε) (e : ε₀)
    (x : Proc P (fun p => Except ε₀ (V p)) ε τ α) (t : τ) (s : σ) (n : ℕ) (r : Except ε α)
    (t' : τ) (s' : σ) (S : ℕ → τ → σ → Prop) : Prop where
  completes : ∀ f : Option ℕ, (∀ k ∈ f, n ≤ k) →
    (x.prog t).run (failing step e) (s, f) = ((r, t'), (s', f.map (· - n)))
  stops : ∀ k < n, ∃ t₁ s₁, (x.prog t).run (failing step e) (s, some k)
    = ((.error (wrap e), t₁), (s₁, none)) ∧ S k t₁ s₁

variable {t t₁ t₂ : τ} {s s₁ s₂ : σ} {n n' : ℕ} {S S' : ℕ → τ → σ → Prop}

/-- What issues nothing cannot fail. -/
theorem timed_pure (a : α) : Timed step wrap e (pure a) t s 0 (.ok a) t s S where
  completes f _ := by
    cases f <;> rfl
  stops k hk := absurd hk (Nat.not_lt_zero k)

theorem timed_throw (c : ε) :
    Timed step wrap e (throw c : Proc P (fun p => Except ε₀ (V p)) ε τ α) t s 0 (.error c) t s S where
  completes f _ := by
    cases f <;> rfl
  stops k hk := absurd hk (Nat.not_lt_zero k)

/-- **Sequencing**: the counts add up, and a stop in the first part is a stop. -/
theorem Timed.bind {x : Proc P (fun p => Except ε₀ (V p)) ε τ α} {a : α}
    (h : Timed step wrap e x t s n (.ok a) t₁ s₁ S)
    {f : α → Proc P (fun p => Except ε₀ (V p)) ε τ β} {r : Except ε β}
    (hf : Timed step wrap e (f a) t₁ s₁ n' r t₂ s₂ fun k => S (n + k)) :
    Timed step wrap e (x >>= f) t s (n + n') r t₂ s₂ S := by
  constructor
  · intro fault hfault
    have hx := h.completes fault fun k hk => Nat.le_of_add_right_le (hfault k hk)
    have hy := hf.completes (fault.map (· - n)) fun k hk => by
      obtain ⟨k', hk', rfl⟩ := Option.map_eq_some_iff.mp hk
      have := hfault k' hk'
      omega
    refine (Prog.run_bind _ (x.prog t) _ _).trans ?_
    rw [hx]
    refine hy.trans ?_
    rw [Option.map_map]
    simp only [Function.comp_def, Nat.sub_sub]
  · intro k hk
    by_cases hkn : k < n
    · obtain ⟨t', s', hx, hS⟩ := h.stops k hkn
      refine ⟨t', s', (Prog.run_bind _ (x.prog t) _ _).trans ?_, hS⟩
      rw [hx]
      rfl
    · obtain ⟨t', s', hy, hS⟩ := hf.stops (k - n) (by omega)
      have hx := h.completes (some k) (by simpa using Nat.not_lt.mp hkn)
      refine ⟨t', s', (Prog.run_bind _ (x.prog t) _ _).trans ?_, ?_⟩
      · rw [hx]
        exact hy
      · rwa [Nat.add_sub_cancel' (Nat.not_lt.mp hkn)] at hS

/-- Ending issues nothing. -/
theorem Timed.bind_end {x : Proc P (fun p => Except ε₀ (V p)) ε τ α} {a : α}
    (h : Timed step wrap e x t s n (.ok a) t₁ s₁ S)
    {f : α → Proc P (fun p => Except ε₀ (V p)) ε τ β} {b : β} (hf : f a = pure b) :
    Timed step wrap e (x >>= f) t s n (.ok b) t₁ s₁ S := by
  have hend : Timed step wrap e (f a) t₁ s₁ 0 (.ok b) t₁ s₁ fun k => S (n + k) := by
    rw [hf]
    exact timed_pure b
  exact h.bind hend

theorem Timed.bind_throw {x : Proc P (fun p => Except ε₀ (V p)) ε τ α} {a : α}
    (h : Timed step wrap e x t s n (.ok a) t₁ s₁ S)
    {f : α → Proc P (fun p => Except ε₀ (V p)) ε τ β} {c : ε} (hf : f a = throw c) :
    Timed step wrap e (x >>= f) t s n (.error c) t₁ s₁ S := by
  have hend : Timed step wrap e (f a) t₁ s₁ 0 (.error c) t₁ s₁ fun k => S (n + k) := by
    rw [hf]
    exact timed_throw c
  exact h.bind hend

/-- Neither does looking at the memory. -/
theorem Timed.get_bind {f : τ → Proc P (fun p => Except ε₀ (V p)) ε τ β} {r : Except ε β}
    (h : Timed step wrap e (f t) t s n r t₁ s₁ S) : Timed step wrap e (get >>= f) t s n r t₁ s₁ S :=
  ⟨h.completes, h.stops⟩

theorem Timed.modify_bind {g : τ → τ} {f : PUnit → Proc P (fun p => Except ε₀ (V p)) ε τ β}
    {r : Except ε β} (h : Timed step wrap e (f ⟨⟩) (g t) s n r t₁ s₁ S) :
    Timed step wrap e (modify g >>= f) t s n r t₁ s₁ S :=
  ⟨h.completes, h.stops⟩

theorem Timed.mono {x : Proc P (fun p => Except ε₀ (V p)) ε τ α} {r : Except ε α}
    (h : Timed step wrap e x t s n r t₁ s₁ S) (hS : ∀ k < n, ∀ t s, S k t s → S' k t s) :
    Timed step wrap e x t s n r t₁ s₁ S' where
  completes := h.completes
  stops k hk := by
    obtain ⟨t', s', hx, hs⟩ := h.stops k hk
    exact ⟨t', s', hx, hS k hk _ _ hs⟩

/-- Whatever the fault, the procedure completes or has been stopped. -/
theorem Timed.run_cases {x : Proc P (fun p => Except ε₀ (V p)) ε τ α} {r : Except ε α}
    (h : Timed step wrap e x t s n r t₁ s₁ S) (f : Option ℕ) :
    (∃ f', (x.prog t).run (failing step e) (s, f) = ((r, t₁), (s₁, f')))
      ∨ ∃ k t' s', f = some k ∧ k < n
        ∧ (x.prog t).run (failing step e) (s, f) = ((.error (wrap e), t'), (s', none)) ∧ S k t' s' := by
  by_cases hf : ∀ k ∈ f, n ≤ k
  · exact .inl ⟨_, h.completes f hf⟩
  · simp only [not_forall, Nat.not_le, exists_prop] at hf
    obtain ⟨k, hfk, hk⟩ := hf
    obtain rfl : f = some k := hfk
    obtain ⟨t', s', hrun, hS⟩ := h.stops k hk
    exact .inr ⟨k, t', s', rfl, hk, hrun, hS⟩

/-- A look can stop at each of its primitives, with everything as it was. -/
theorem Looks.timed {x : Proc P (fun p => Except ε₀ (V p)) ε τ α} {ps : List P} {a : α}
    (h : Looks step wrap x t s ps a) (hS : ∀ k < ps.length, S k t s) :
    Timed step wrap e x t s ps.length (.ok a) t s S := by
  -- with the fault past the last primitive the look answers, otherwise it stops at it
  have hrun : (∀ f : Option ℕ, (∀ k ∈ f, ps.length ≤ k) →
        (x.prog t).run (failing step e) (s, f) = ((.ok a, t), (s, f.map (· - ps.length))))
      ∧ ∀ k < ps.length, (x.prog t).run (failing step e) (s, some k)
        = ((.error (wrap e), t), (s, none)) := by
    change Asks step wrap t s ps (x.prog t) a at h
    generalize x.prog t = y at h ⊢
    clear hS
    induction h with
    | pure a => exact ⟨fun f _ => by cases f <;> rfl, fun k hk => absurd hk (Nat.not_lt_zero k)⟩
    | @call p ps k a hs herr _ ih =>
      obtain ⟨hok, hstop⟩ := ih
      constructor
      · intro f hf
        -- no fault at all, one due at once, or one due later
        rcases f with _ | _ | j
        · have := hok none (by simp)
          simpa only [Prog.run, failing, hs, Option.map_none] using this
        · exact absurd (hf 0 rfl) (by simp)
        · have hj := hf (j + 1) rfl
          rw [List.length_cons] at hj
          have := hok (some j) (by simpa using hj)
          simpa only [Prog.run, failing, hs, List.length_cons, Option.map_some,
            Nat.add_sub_add_right] using this
      · intro j hj
        cases j with
        | zero =>
          rw [Prog.run, failing, herr]
          rfl
        | succ j =>
          have := hstop j (by simpa using hj)
          simpa only [Prog.run, failing, hs] using this
  exact ⟨hrun.1, fun k hk => ⟨t, s, hrun.2 k hk, hS k hk⟩⟩

/-- What looks on a device looks on it with a ledger, if looking is not entered. -/
theorem Looks.audited {note : σ → σ → γ → γ} {x : Proc P (fun p => Except ε₀ (V p)) ε τ α}
    {ps : List P} {a : α} (h : Looks step wrap x t s ps a) {c : γ} (hc : note s s c = c) :
    Looks (audited note step) wrap x t (s, c) ps a := by
  change Asks step wrap t s ps (x.prog t) a at h
  change Asks _ wrap t (s, c) ps (x.prog t) a
  generalize x.prog t = y at h ⊢
  induction h with
  | pure a => exact .pure a
  | call hs herr _ ih =>
    refine .call ?_ herr ih
    rw [Interaction.audited, hs, hc]

/-- **The loop rule**, for a loop that only acts: round `i` goes from `s i` to `s (i + 1)`. -/
theorem Timed.forIn {body : β → PUnit → Proc P (fun p => Except ε₀ (V p)) ε τ (ForInStep PUnit)}
    {xs : List β} {S : τ → σ → Prop} (s : ℕ → σ) (cost : ℕ → ℕ)
    (h : ∀ i (hi : i < xs.length), Timed step wrap e (body xs[i] ⟨⟩) t (s i) (cost i)
      (.ok (.yield ⟨⟩)) t (s (i + 1)) fun _ => S) :
    Timed step wrap e (forIn xs ⟨⟩ body) t (s 0) ((List.range xs.length).map cost).sum (.ok ⟨⟩) t
      (s xs.length) fun _ => S := by
  induction xs generalizing s cost with
  | nil => exact timed_pure _
  | cons x xs ih =>
    rw [List.forIn_cons, List.length_cons, List.range_succ_eq_map, List.map_cons, List.sum_cons,
      List.map_map]
    refine (h 0 (Nat.succ_pos _)).bind ?_
    exact ih (fun i => s (i + 1)) (cost ∘ Nat.succ) fun i hi => h (i + 1) (Nat.succ_lt_succ hi)

end Proc

end Interaction
