/-
Programs that talk to a device one primitive at a time.

A `Prog` is a finite tree of primitive calls with a continuation for every
possible answer. What the device answers, and what state it is left in, is not
part of the program: it is an `Env`, which is a relation, so one program can be
run on a device that never fails, on one whose primitives report errors, and on
one whose supply is cut in the middle of a primitive.

`Exec` is the meaning: a run of the program with the list of its events. `wp`
is the proof rule: the weakest precondition under which every run keeps a
guarantee `G` at each of its events and ends in the postcondition. The two are
joined by `wp_sound`; everything proved about a program goes through `wp_bind`.

Nothing here names a particular device.
-/
import Mathlib.Tactic.Common

set_option autoImplicit false

namespace Interaction

/-! ## Programs -/

/-- A program over primitives `P`, where primitive `p` is answered by an `R p`. -/
inductive Prog (P : Type) (R : P → Type) (α : Type) : Type where
  | pure (a : α) : Prog P R α
  | call (p : P) (k : R p → Prog P R α) : Prog P R α

variable {P : Type} {R : P → Type} {σ α β γ : Type}

namespace Prog

/-- Sequencing: graft the continuation on every leaf. -/
def bind : Prog P R α → (α → Prog P R β) → Prog P R β
  | .pure a, f => f a
  | .call p k, f => .call p fun r => (k r).bind f

instance : Monad (Prog P R) where
  pure := Prog.pure
  bind := Prog.bind

end Prog

/-! ## Environments and runs -/

/-- What a device may do with a primitive: `respond p s r s'` answers `r` and
leaves the device in `s'`, `cut p s s'` loses the supply during `p` and leaves
`s'` behind. Both are relations: an environment promises nothing by itself. -/
structure Env (P : Type) (R : P → Type) (σ : Type) where
  respond : (p : P) → σ → R p → σ → Prop
  cut : P → σ → σ → Prop

/-- How a run ends: with a value, or with the supply gone. -/
inductive Outcome (α : Type) : Type where
  | done (a : α) : Outcome α
  | cut : Outcome α

/-- One primitive of a run, with the device before and after it. -/
structure Event (P σ : Type) : Type where
  prim : P
  before : σ
  after : σ

/-- A run of a program from a device state, with its events in order. -/
inductive Exec (E : Env P R σ) :
    Prog P R α → σ → List (Event P σ) → Outcome α → σ → Prop where
  | pure (a : α) (s : σ) : Exec E (.pure a) s [] (.done a) s
  | call {p : P} {k : R p → Prog P R α} {s s' s'' : σ} {r : R p}
      {tr : List (Event P σ)} {o : Outcome α} (hr : E.respond p s r s')
      (hk : Exec E (k r) s' tr o s'') : Exec E (.call p k) s (⟨p, s, s'⟩ :: tr) o s''
  | cut {p : P} {k : R p → Prog P R α} {s s' : σ} (hc : E.cut p s s') :
      Exec E (.call p k) s [⟨p, s, s'⟩] .cut s'

/-- `E` allows no more than `E'`. -/
structure Env.Le (E E' : Env P R σ) : Prop where
  respond : ∀ {p s r s'}, E.respond p s r s' → E'.respond p s r s'
  cut : ∀ {p s s'}, E.cut p s s' → E'.cut p s s'

/-- A run on the tamer device is a run on the wilder one. -/
theorem Exec.mono {E E' : Env P R σ} (h : E.Le E') {x : Prog P R α} {s s' : σ}
    {tr : List (Event P σ)} {o : Outcome α} (hx : Exec E x s tr o s') :
    Exec E' x s tr o s' := by
  induction hx with
  | pure a s => exact .pure a s
  | call hr _ ih => exact .call (h.respond hr) ih
  | cut hc => exact .cut (h.cut hc)

/-- **Every event is a possible end.** A run can be stopped at any of its events, in any
way the device allows a cut there, also on a device `E'` that allows more cuts. -/
theorem Exec.cut_at {E E' : Env P R σ}
    (hresp : ∀ {p s r s'}, E.respond p s r s' → E'.respond p s r s') {x : Prog P R α}
    {s s' s'' : σ} {tr pre post : List (Event P σ)} {e : Event P σ} {o : Outcome α}
    (hx : Exec E x s tr o s') (htr : tr = pre ++ e :: post)
    (hcut : E'.cut e.prim e.before s'') :
    Exec E' x s (pre ++ [⟨e.prim, e.before, s''⟩]) .cut s'' := by
  induction hx generalizing pre with
  | pure a s => simp at htr
  | call hr _ ih =>
    cases pre with
    | nil =>
      obtain ⟨rfl, -⟩ := List.cons.inj htr
      exact .cut hcut
    | cons d pre =>
      obtain ⟨rfl, htail⟩ := List.cons.inj htr
      exact .call (hresp hr) (ih htail)
  | cut hc =>
    cases pre with
    | nil =>
      obtain ⟨rfl, -⟩ := List.cons.inj htr
      exact .cut hcut
    | cons d pre =>
      obtain ⟨-, htail⟩ := List.cons.inj htr
      simp at htail

/-- The device allowed every event of a run. -/
theorem Exec.possible {E : Env P R σ} {x : Prog P R α} {s s' : σ} {tr : List (Event P σ)}
    {o : Outcome α} (hx : Exec E x s tr o s') : ∀ e ∈ tr,
      (∃ r, E.respond e.prim e.before r e.after) ∨ E.cut e.prim e.before e.after := by
  induction hx with
  | pure a s =>
    intro e he
    cases he
  | call hr _ ih =>
    intro e he
    rcases List.mem_cons.mp he with rfl | he
    · exact .inl ⟨_, hr⟩
    · exact ih e he
  | cut hc =>
    intro e he
    obtain rfl := List.mem_singleton.mp he
    exact .inr hc

/-- **An invariant of the history.** If every event keeps `I`, where `I` speaks of
the device and of the events so far, every run keeps it. -/
theorem Exec.history {E : Env P R σ} {I : List (Event P σ) → σ → Prop} {x : Prog P R α}
    {s s' : σ} {tr : List (Event P σ)} {o : Outcome α} (hx : Exec E x s tr o s')
    (hI : ∀ e ∈ tr, ∀ h, I h e.before →
      (∃ r, E.respond e.prim e.before r e.after) ∨ E.cut e.prim e.before e.after →
        I (h ++ [e]) e.after)
    {h : List (Event P σ)} (hs : I h s) : I (h ++ tr) s' := by
  induction hx generalizing h with
  | pure a s => simpa using hs
  | call hr _ ih =>
    have := hI _ List.mem_cons_self h hs (.inl ⟨_, hr⟩)
    have := ih (fun e he => hI e (List.mem_cons_of_mem _ he)) this
    rwa [List.append_assoc] at this
  | cut hc => exact hI _ List.mem_cons_self h hs (.inr hc)

/-- **Every change has its event.** A run that ends what held before it has an event that does. -/
theorem Exec.exists_break {E : Env P R σ} {I : σ → Prop} {x : Prog P R α} {s s' : σ}
    {tr : List (Event P σ)} {o : Outcome α} (hx : Exec E x s tr o s') (hs : I s) (hs' : ¬ I s') :
    ∃ pre e post, tr = pre ++ e :: post ∧ I e.before ∧ ¬ I e.after := by
  by_contra hno
  refine hs' (hx.history (I := fun _ s => I s) (h := []) (fun e he _ hb _ => ?_) hs)
  by_contra hne
  obtain ⟨pre, post, htr⟩ := List.append_of_mem he
  exact hno ⟨pre, e, post, htr, hb, hne⟩

/-- The same, up to an event of the run. -/
theorem Exec.history_at {E : Env P R σ} {I : List (Event P σ) → σ → Prop} {x : Prog P R α}
    {s s' : σ} {tr pre post : List (Event P σ)} {e : Event P σ} {o : Outcome α}
    (hx : Exec E x s tr o s') (htr : tr = pre ++ e :: post)
    (hI : ∀ e ∈ tr, ∀ h, I h e.before →
      (∃ r, E.respond e.prim e.before r e.after) ∨ E.cut e.prim e.before e.after →
        I (h ++ [e]) e.after)
    {h : List (Event P σ)} (hs : I h s) : I (h ++ pre) e.before := by
  induction hx generalizing h pre with
  | pure a s => simp at htr
  | call hr _ ih =>
    cases pre with
    | nil =>
      obtain ⟨rfl, -⟩ := List.cons.inj htr
      simpa using hs
    | cons d pre =>
      obtain ⟨rfl, htail⟩ := List.cons.inj htr
      have hnext := hI _ List.mem_cons_self h hs (.inl ⟨_, hr⟩)
      have := ih htail (fun e he => hI e (List.mem_cons_of_mem _ he)) hnext
      rwa [List.append_assoc] at this
  | cut hc =>
    cases pre with
    | nil =>
      obtain ⟨rfl, -⟩ := List.cons.inj htr
      simpa using hs
    | cons d pre =>
      obtain ⟨-, htail⟩ := List.cons.inj htr
      simp at htail

/-! ## The weakest precondition -/

namespace Prog

variable {E : Env P R σ} {G : P → σ → σ → Prop}

/-- Every run from `s` keeps `G` at each event and ends in `Q`. -/
def wp (E : Env P R σ) (G : P → σ → σ → Prop) :
    Prog P R α → (Outcome α → σ → Prop) → σ → Prop
  | .pure a, Q, s => Q (.done a) s
  | .call p k, Q, s =>
      (∀ r s', E.respond p s r s' → G p s s' ∧ (k r).wp E G Q s')
        ∧ ∀ s', E.cut p s s' → G p s s' ∧ Q .cut s'

/-- **Sequencing.** The precondition of a sequence is the precondition of its
first part for the precondition of its second; a cut skips the second. -/
theorem wp_bind (x : Prog P R α) (f : α → Prog P R β) (Q : Outcome β → σ → Prop) (s : σ) :
    (x.bind f).wp E G Q s
      ↔ x.wp E G (fun o s' => match o with
          | .done a => (f a).wp E G Q s'
          | .cut => Q .cut s') s := by
  induction x generalizing s with
  | pure a => exact Iff.rfl
  | call p k ih => simp only [bind, wp, ih]

theorem wp_mono {x : Prog P R α} {G' : P → σ → σ → Prop} {Q Q' : Outcome α → σ → Prop}
    {s : σ} (h : x.wp E G Q s) (hG : ∀ p s s', G p s s' → G' p s s')
    (hQ : ∀ o s', Q o s' → Q' o s') : x.wp E G' Q' s := by
  induction x generalizing s with
  | pure a => exact hQ _ _ h
  | call p k ih =>
    refine ⟨fun r s' hr => ?_, fun s' hc => ?_⟩
    · obtain ⟨hg, hk⟩ := h.1 r s' hr
      exact ⟨hG _ _ _ hg, ih r hk⟩
    · obtain ⟨hg, hq⟩ := h.2 s' hc
      exact ⟨hG _ _ _ hg, hQ _ _ hq⟩

/-- **Soundness.** What `wp` promises holds of every run. -/
theorem wp_sound {x : Prog P R α} {Q : Outcome α → σ → Prop} {s s' : σ}
    {tr : List (Event P σ)} {o : Outcome α} (h : x.wp E G Q s) (hx : Exec E x s tr o s') :
    (∀ e ∈ tr, G e.prim e.before e.after) ∧ Q o s' := by
  induction hx with
  | pure a s => exact ⟨nofun, h⟩
  | call hr _ ih =>
    obtain ⟨hg, hk⟩ := h.1 _ _ hr
    obtain ⟨hall, hq⟩ := ih hk
    refine ⟨fun e he => ?_, hq⟩
    rcases List.mem_cons.mp he with rfl | he
    · exact hg
    · exact hall e he
  | cut hc =>
    obtain ⟨hg, hq⟩ := h.2 _ hc
    refine ⟨fun e he => ?_, hq⟩
    rcases List.mem_cons.mp he with rfl | he
    · exact hg
    · cases he

end Prog

/-! ## Programs inside larger ones

A program over `P` is a program over any `P'` that has its primitives, and a device
that has the smaller one as a part runs it there: `put` says where that part sits. -/

section Embed

variable {P' : Type} {R' : P' → Type} {σ' : Type}

/-- The same program, asking for `φ p` instead of `p`. -/
def Prog.embed (φ : P → P') (ψ : ∀ p, R' (φ p) → R p) : Prog P R α → Prog P' R' α
  | .pure a => .pure a
  | .call p k => .call (φ p) fun r => (k (ψ p r)).embed φ ψ

variable {φ : P → P'} {ψ : ∀ p, R' (φ p) → R p} {E : Env P R σ} {D : Env P' R' σ'}

/-- **Embedding.** If the larger device does with `φ p` what the smaller one may do with `p`,
to its part only, the precondition of the embedded program is that of the program. -/
theorem Prog.wp_embed (put : σ → σ') {G : P → σ → σ → Prop} {G' : P' → σ' → σ' → Prop}
    (hresp : ∀ p s r t, D.respond (φ p) (put s) r t →
      ∃ s', t = put s' ∧ E.respond p s (ψ p r) s')
    (hcut : ∀ p s t, D.cut (φ p) (put s) t → ∃ s', t = put s' ∧ E.cut p s s')
    (hG : ∀ p s s', G p s s' → G' (φ p) (put s) (put s')) {x : Prog P R α}
    {Q : Outcome α → σ' → Prop} {s : σ} (h : x.wp E G (fun o s => Q o (put s)) s) :
    (x.embed φ ψ).wp D G' Q (put s) := by
  induction x generalizing s with
  | pure a => exact h
  | call p k ih =>
    refine ⟨fun r t hr => ?_, fun t hc => ?_⟩
    · obtain ⟨s', rfl, hr'⟩ := hresp p s r t hr
      obtain ⟨hg, hk⟩ := h.1 _ s' hr'
      exact ⟨hG p s s' hg, ih _ hk⟩
    · obtain ⟨s', rfl, hc'⟩ := hcut p s t hc
      obtain ⟨hg, hq⟩ := h.2 s' hc'
      exact ⟨hG p s s' hg, hq⟩

/-- A run of the program is a run of the embedded one. -/
theorem Exec.embed (put : σ → σ') (hresp : ∀ p s r s', E.respond p s r s' →
      ∃ r', ψ p r' = r ∧ D.respond (φ p) (put s) r' (put s'))
    (hcut : ∀ p s s', E.cut p s s' → D.cut (φ p) (put s) (put s')) {x : Prog P R α} {s s' : σ}
    {tr : List (Event P σ)} {o : Outcome α} (h : Exec E x s tr o s') :
    Exec D (x.embed φ ψ) (put s) (tr.map fun e => ⟨φ e.prim, put e.before, put e.after⟩) o
      (put s') := by
  induction h with
  | pure a s => exact .pure a _
  | call hr _ ih =>
    obtain ⟨r', rfl, hr'⟩ := hresp _ _ _ _ hr
    exact .call hr' ih
  | cut hc => exact .cut (hcut _ _ _ hc)

end Embed

/-- One program after the other. -/
theorem Exec.bind {E : Env P R σ} {x : Prog P R α} {f : α → Prog P R β} {s s' s'' : σ}
    {tr tr' : List (Event P σ)} {a : α} {o : Outcome β} (hx : Exec E x s tr (.done a) s')
    (hf : Exec E (f a) s' tr' o s'') : Exec E (x.bind f) s (tr ++ tr') o s'' := by
  generalize ho : Outcome.done a = o' at hx
  induction hx with
  | pure a s =>
    cases ho
    exact hf
  | call hr _ ih => exact .call hr (ih hf ho)
  | cut hc => cases ho

/-! ## Runs of steps

A system that takes one labelled step after another, and the list of the steps
it has taken. -/

section Run

variable {S Λ : Type}

/-- A step that was taken. -/
structure Taken (S Λ : Type) : Type where
  before : S
  label : Λ
  after : S

/-- The runs from `init`: the steps taken, in order, and where they lead. -/
inductive Run (step : S → Λ → S → Prop) (init : S) : List (Taken S Λ) → S → Prop where
  | nil : Run step init [] init
  | snoc {es : List (Taken S Λ)} {s s' : S} {l : Λ} (h : Run step init es s) (hs : step s l s') :
      Run step init (es ++ [⟨s, l, s'⟩]) s'

variable {step : S → Λ → S → Prop} {init : S} {es : List (Taken S Λ)} {s : S}

/-- Every step of a run was taken after a shorter run. -/
theorem Run.of_mem (h : Run step init es s) {e : Taken S Λ} (he : e ∈ es) :
    step e.before e.label e.after
      ∧ ∃ es', Run step init es' e.before ∧ es' ++ [e] <+: es := by
  induction h with
  | nil => cases he
  | @snoc es s s' l h hs ih =>
    rcases List.mem_append.mp he with he | he
    · obtain ⟨hstep, es', hrun, hpre⟩ := ih he
      exact ⟨hstep, es', hrun, hpre.trans (List.prefix_append _ _)⟩
    · rw [List.mem_singleton] at he
      subst he
      exact ⟨hs, es, h, List.prefix_rfl⟩

/-- **An invariant of the run.** `I` speaks of the steps so far and the state; if
every step keeps it, every run has it. -/
theorem Run.invariant {I : List (Taken S Λ) → S → Prop} (h0 : I [] init)
    (hstep : ∀ es s l s', I es s → step s l s' → I (es ++ [⟨s, l, s'⟩]) s')
    (h : Run step init es s) : I es s := by
  induction h with
  | nil => exact h0
  | snoc _ hs ih => exact hstep _ _ _ _ ih hs

/-- The same for an invariant that only holds while the steps keep a condition. -/
theorem Run.invariant_of_forall {C : Taken S Λ → Prop} {I : List (Taken S Λ) → S → Prop}
    (h0 : I [] init)
    (hstep : ∀ es s l s', C ⟨s, l, s'⟩ → I es s → step s l s' → I (es ++ [⟨s, l, s'⟩]) s')
    (h : Run step init es s) (hC : ∀ e ∈ es, C e) : I es s := by
  induction h with
  | nil => exact h0
  | snoc _ hs ih =>
    refine hstep _ _ _ _ (hC _ (by simp)) (ih fun e he => hC e ?_) hs
    exact List.mem_append_left _ he

/-- **Simulation.** If `R` relates the two systems at the start and every step of the
first is matched by one step of the second with the label `φ` makes of it, every
run is matched by a run. -/
theorem Run.simulates {T Λ' : Type} {step' : T → Λ' → T → Prop} {init' : T} {φ : Λ → Λ'}
    {R : S → T → Prop} {C : Taken S Λ → Prop} (h0 : R init init')
    (hstep : ∀ s l s' t, C ⟨s, l, s'⟩ → R s t → step s l s' → ∃ t', step' t (φ l) t' ∧ R s' t')
    (h : Run step init es s) (hC : ∀ e ∈ es, C e) :
    ∃ es' t, Run step' init' es' t ∧ es'.map (·.label) = es.map (fun e => φ e.label) ∧ R s t := by
  induction h with
  | nil => exact ⟨[], init', .nil, rfl, h0⟩
  | @snoc es s s' l _ hs ih =>
    obtain ⟨es', t, hrun, hlab, hR⟩ := ih fun e he => hC e (List.mem_append_left _ he)
    obtain ⟨t', hs', hR'⟩ := hstep s l s' t (hC _ (by simp)) hR hs
    refine ⟨es' ++ [⟨t, φ l, t'⟩], t', .snoc hrun hs', ?_, hR'⟩
    rw [List.map_append, List.map_append, hlab]
    rfl

end Run

/-! ## Devices that behave

A device given by a function answers every primitive in one way; a program on
it is a function too, and `wp` is about that function. -/

/-- The environment of a device given by a function: one answer, no cuts. -/
def Env.ofStep (step : (p : P) → σ → R p × σ) : Env P R σ where
  respond p s r s' := (r, s') = step p s
  cut _ _ _ := False

/-- Run a program on a device given by a function. -/
def Prog.run (step : (p : P) → σ → R p × σ) : Prog P R α → σ → α × σ
  | .pure a, s => (a, s)
  | .call p k, s => (k (step p s).1).run step (step p s).2

/-- The function's run is a run. -/
theorem Prog.exec_run (step : (p : P) → σ → R p × σ) (x : Prog P R α) (s : σ) :
    ∃ tr, Exec (Env.ofStep step) x s tr (.done (x.run step s).1) (x.run step s).2 := by
  induction x generalizing s with
  | pure a => exact ⟨[], .pure a s⟩
  | call p k ih =>
    obtain ⟨tr, h⟩ := ih (step p s).1 (step p s).2
    exact ⟨_, .call rfl h⟩

theorem Prog.run_bind (step : (p : P) → σ → R p × σ) (x : Prog P R α) (f : α → Prog P R β) (s : σ) :
    (x.bind f).run step s = (f (x.run step s).1).run step (x.run step s).2 := by
  induction x generalizing s with
  | pure a => rfl
  | call p k ih => exact ih _ _

/-- A device that does with `φ p`, to its part only, what the smaller one does with `p` runs the
embedded program as the smaller one runs the program. -/
theorem Prog.run_embed {P' : Type} {R' : P' → Type} {σ' : Type} {φ : P → P'}
    {ψ : ∀ p, R' (φ p) → R p} (step : (p : P) → σ → R p × σ) (step' : (p : P') → σ' → R' p × σ')
    (put : σ → σ')
    (h : ∀ p s, ψ p (step' (φ p) (put s)).1 = (step p s).1
      ∧ (step' (φ p) (put s)).2 = put (step p s).2)
    (x : Prog P R α) (s : σ) :
    (x.embed φ ψ).run step' (put s) = ((x.run step s).1, put (x.run step s).2) := by
  induction x generalizing s with
  | pure a => rfl
  | call p k ih =>
    obtain ⟨hr, hs⟩ := h p s
    rw [Prog.embed, Prog.run, Prog.run, hr, hs]
    exact ih _ _

/-! ## Procedures: programs with a state of their own and errors

A procedure keeps a state `τ` in memory and may stop early with an error `ε`.
The memory survives an error, and is gone after a cut. -/

/-- A program with memory `τ` and errors `ε`. -/
abbrev Proc (P : Type) (R : P → Type) (ε τ : Type) : Type → Type :=
  ExceptT ε (StateT τ (Prog P R))

/-- How a procedure ends. -/
inductive Result (ε τ α : Type) : Type where
  | ok (a : α) (t : τ) : Result ε τ α
  | error (e : ε) (t : τ) : Result ε τ α
  | cut : Result ε τ α

/-- The end of a procedure, read off the end of its program. -/
def Result.of {ε τ : Type} : Outcome (Except ε α × τ) → Result ε τ α
  | .done (.ok a, t) => .ok a t
  | .done (.error e, t) => .error e t
  | .cut => .cut

/-- The procedure returned a value. -/
def Result.isOk {ε τ α : Type} : Result ε τ α → Bool
  | .ok _ _ => true
  | _ => false

namespace Proc

variable {ε τ : Type} {E : Env P R σ} {G : P → σ → σ → Prop}

/-- The procedure as a program from a memory. -/
def prog (x : Proc P R ε τ α) (t : τ) : Prog P R (Except ε α × τ) := x.run.run t

/-- Every run of the procedure from memory `t` and device `s` keeps `G` and ends in `Q`. -/
def wp (E : Env P R σ) (G : P → σ → σ → Prop) (x : Proc P R ε τ α)
    (Q : Result ε τ α → σ → Prop) (t : τ) (s : σ) : Prop :=
  (x.prog t).wp E G (fun o s' => Q (.of o) s') s

@[simp] theorem wp_pure (a : α) (Q : Result ε τ α → σ → Prop) (t : τ) (s : σ) :
    wp E G (pure a) Q t s ↔ Q (.ok a t) s := Iff.rfl

@[simp] theorem wp_get (Q : Result ε τ τ → σ → Prop) (t : τ) (s : σ) :
    wp E G get Q t s ↔ Q (.ok t t) s := Iff.rfl

@[simp] theorem wp_modify (f : τ → τ) (Q : Result ε τ PUnit → σ → Prop) (t : τ) (s : σ) :
    wp E G (modify f) Q t s ↔ Q (.ok ⟨⟩ (f t)) s := Iff.rfl

/-- **Sequencing of procedures.** An error keeps the memory and skips the rest;
a cut skips the rest and leaves no memory. -/
theorem wp_bind (x : Proc P R ε τ α) (f : α → Proc P R ε τ β)
    (Q : Result ε τ β → σ → Prop) (t : τ) (s : σ) :
    wp E G (x >>= f) Q t s
      ↔ wp E G x (fun o s' => match o with
          | .ok a t' => wp E G (f a) Q t' s'
          | .error e t' => Q (.error e t') s'
          | .cut => Q .cut s') t s := by
  refine (Prog.wp_bind (x.prog t) _ _ s).trans ?_
  refine ⟨fun h => Prog.wp_mono h (fun _ _ _ hg => hg) ?_,
    fun h => Prog.wp_mono h (fun _ _ _ hg => hg) ?_⟩
  all_goals
    rintro (⟨a | a, t'⟩ | _) s' h'
    · exact h'
    · exact h'
    · exact h'

theorem wp_mono {x : Proc P R ε τ α} {G' : P → σ → σ → Prop}
    {Q Q' : Result ε τ α → σ → Prop} {t : τ} {s : σ} (h : wp E G x Q t s)
    (hG : ∀ p s s', G p s s' → G' p s s') (hQ : ∀ o s', Q o s' → Q' o s') :
    wp E G' x Q' t s :=
  Prog.wp_mono h hG fun _ _ => hQ _ _

/-- Soundness, for procedures. -/
theorem wp_sound {x : Proc P R ε τ α} {Q : Result ε τ α → σ → Prop} {t : τ} {s s' : σ}
    {tr : List (Event P σ)} {o : Outcome (Except ε α × τ)} (h : wp E G x Q t s)
    (hx : Exec E (x.prog t) s tr o s') :
    (∀ e ∈ tr, G e.prim e.before e.after) ∧ Q (.of o) s' :=
  Prog.wp_sound h hx

/-! ## Devices that behave, for procedures -/

section Yields

variable {step : (p : P) → σ → R p × σ} {t t₁ t₂ : τ} {s s₁ s₂ : σ}

/-- From memory `t` on a device given by a function, the procedure ends with `r`, and leaves
memory `t'` and the device in `s'`. -/
def Yields (step : (p : P) → σ → R p × σ) (x : Proc P R ε τ α) (t : τ) (s : σ) (r : Except ε α)
    (t' : τ) (s' : σ) : Prop :=
  (x.prog t).run step s = ((r, t'), s')

theorem yields_pure (a : α) : Yields step (pure a : Proc P R ε τ α) t s (.ok a) t s := rfl

theorem yields_get : Yields step (get : Proc P R ε τ τ) t s (.ok t) t s := rfl

theorem Yields.bind {x : Proc P R ε τ α} {f : α → Proc P R ε τ β} {a : α} {r : Except ε β}
    (hx : Yields step x t s (.ok a) t₁ s₁) (hf : Yields step (f a) t₁ s₁ r t₂ s₂) :
    Yields step (x >>= f) t s r t₂ s₂ := by
  refine (Prog.run_bind step (x.prog t) _ s).trans ?_
  rw [show (x.prog t).run step s = _ from hx]
  exact hf

/-- The procedure ends in `Q`. -/
def EndsIn (step : (p : P) → σ → R p × σ) (x : Proc P R ε τ α) (t : τ) (s : σ)
    (Q : Except ε α → τ → σ → Prop) : Prop :=
  ∃ r t' s', Yields step x t s r t' s' ∧ Q r t' s'

theorem Yields.endsIn {x : Proc P R ε τ α} {r : Except ε α} {Q : Except ε α → τ → σ → Prop}
    (hx : Yields step x t s r t₁ s₁) (hQ : Q r t₁ s₁) : EndsIn step x t s Q :=
  ⟨r, t₁, s₁, hx, hQ⟩

/-- What comes after a part whose end is known decides how the whole ends. -/
theorem Yields.bind_endsIn {x : Proc P R ε τ α} {f : α → Proc P R ε τ β} {a : α}
    {Q : Except ε β → τ → σ → Prop} (hx : Yields step x t s (.ok a) t₁ s₁)
    (hf : EndsIn step (f a) t₁ s₁ Q) : EndsIn step (x >>= f) t s Q := by
  obtain ⟨r, t', s', hf, hQ⟩ := hf
  exact ⟨r, t', s', hx.bind hf, hQ⟩

theorem EndsIn.mono {x : Proc P R ε τ α} {Q Q' : Except ε α → τ → σ → Prop}
    (h : EndsIn step x t s Q) (hQ : ∀ r t' s', Q r t' s' → Q' r t' s') : EndsIn step x t s Q' := by
  obtain ⟨r, t', s', hx, h⟩ := h
  exact ⟨r, t', s', hx, hQ r t' s' h⟩

end Yields

/-! ## Loops -/

/-- **The loop rule.** `J i` holds before round `i`; a round that ends the loop
early establishes what the end of the list would. -/
theorem wp_forIn {xs : List β} {body : β → γ → Proc P R ε τ (ForInStep γ)}
    {Q : Result ε τ γ → σ → Prop} (J : ℕ → γ → τ → σ → Prop)
    (hstep : ∀ i (hi : i < xs.length) acc t s, J i acc t s →
      wp E G (body xs[i] acc) (fun o s' => match o with
        | .ok (.yield acc') t' => J (i + 1) acc' t' s'
        | .ok (.done acc') t' => Q (.ok acc' t') s'
        | .error e t' => Q (.error e t') s'
        | .cut => Q .cut s') t s)
    (hend : ∀ acc t s, J xs.length acc t s → Q (.ok acc t) s)
    {init : γ} {t : τ} {s : σ} (hinit : J 0 init t s) :
    wp E G (forIn xs init body) Q t s := by
  induction xs generalizing J init t s with
  | nil => exact hend _ _ _ hinit
  | cons x xs ih =>
    rw [List.forIn_cons, wp_bind]
    refine wp_mono (hstep 0 (Nat.succ_pos _) _ _ _ hinit) (fun _ _ _ hg => hg) ?_
    rintro (⟨_ | acc', t'⟩ | _ | _) s' h'
    · exact h'
    · exact ih (fun i => J (i + 1)) (fun i hi => hstep (i + 1) (Nat.succ_lt_succ hi)) hend h'
    · exact h'
    · exact h'

/-! ## Procedures that only look

Most of what a storage procedure does is look at the device. `Observes` says so
once: the value is `a`, the memory and the device stay as they were, and the
only other way out is an error `err` allows or a cut, if `cut` allows one. -/

/-- `x`, started from memory `t` on device `s`, finds `a` and changes nothing. -/
def Observes (E : Env P R σ) (G : P → σ → σ → Prop) (err : ε → Prop) (cut : Prop)
    (x : Proc P R ε τ α) (t : τ) (s : σ) (a : α) : Prop :=
  wp E G x (fun o s' => s' = s ∧ match o with
    | .ok b t' => b = a ∧ t' = t
    | .error e t' => t' = t ∧ err e
    | .cut => cut) t s

section Observes

variable {err : ε → Prop} {cut : Prop} {t : τ} {s : σ}

theorem Observes.wp_bind {x : Proc P R ε τ α} {a : α} (h : Observes E G err cut x t s a)
    {f : α → Proc P R ε τ β} {Q : Result ε τ β → σ → Prop} (hok : wp E G (f a) Q t s)
    (herr : ∀ e, err e → Q (.error e t) s) (hcut : cut → Q .cut s) :
    wp E G (x >>= f) Q t s := by
  rw [Proc.wp_bind]
  refine wp_mono h (fun _ _ _ hg => hg) ?_
  rintro (⟨b, t'⟩ | ⟨e, t'⟩ | _) s' ⟨rfl, h'⟩
  · obtain ⟨rfl, rfl⟩ := h'
    exact hok
  · obtain ⟨rfl, he⟩ := h'
    exact herr e he
  · exact hcut h'

end Observes

/-! ## What a look asks for

`Looks` says of a procedure that only looks which primitives it asks for, in
which order. It is about the program and the answers of a device that behaves, so
it holds on every device that either answers like that or reports an error. -/

section Looks

variable {V : P → Type} {ε₀ : Type} {step : (p : P) → σ → Except ε₀ (V p) × σ} {wrap : ε₀ → ε}
  {t : τ} {s : σ}

/-- Answered by `step` on device `s`, the program asks for `ps`, one after the other, changes
nothing and ends with `a`; an error in the place of an answer ends it with that error. -/
inductive Asks (step : (p : P) → σ → Except ε₀ (V p) × σ) (wrap : ε₀ → ε) (t : τ) (s : σ) :
    List P → Prog P (fun p => Except ε₀ (V p)) (Except ε α × τ) → α → Prop where
  | pure (a : α) : Asks step wrap t s [] (.pure (.ok a, t)) a
  | call {p : P} {ps : List P} {k : Except ε₀ (V p) → Prog P (fun p => Except ε₀ (V p)) (Except ε α × τ)}
      {a : α} (hs : (step p s).2 = s)
      (herr : ∀ e, k (.error e) = .pure (.error (wrap e), t))
      (hk : Asks step wrap t s ps (k (step p s).1) a) : Asks step wrap t s (p :: ps) (.call p k) a

/-- The same, for a procedure started from memory `t`. -/
abbrev Looks (step : (p : P) → σ → Except ε₀ (V p) × σ) (wrap : ε₀ → ε)
    (x : Proc P (fun p => Except ε₀ (V p)) ε τ α) (t : τ) (s : σ) (ps : List P) (a : α) : Prop :=
  Asks step wrap t s ps (x.prog t) a

theorem looks_pure (a : α) : Looks step wrap (pure a) t s [] a := .pure a

theorem looks_get : Looks step wrap get t s [] t := .pure t

theorem Asks.bind {x : Prog P (fun p => Except ε₀ (V p)) (Except ε α × τ)} {ps ps' : List P}
    {a : α} (h : Asks step wrap t s ps x a)
    {f : Except ε α × τ → Prog P (fun p => Except ε₀ (V p)) (Except ε β × τ)} {b : β}
    (herr : ∀ e, f (.error e, t) = .pure (.error e, t))
    (hf : Asks step wrap t s ps' (f (.ok a, t)) b) :
    Asks step wrap t s (ps ++ ps') (x.bind f) b := by
  induction h with
  | pure a => exact hf
  | call hs he _ ih =>
    refine .call hs (fun e => ?_) (ih hf)
    rw [he]
    exact herr _

/-- One look after the other asks for the primitives of the one and then of the other. -/
theorem Looks.bind {x : Proc P (fun p => Except ε₀ (V p)) ε τ α} {ps ps' : List P} {a : α}
    (h : Looks step wrap x t s ps a) {f : α → Proc P (fun p => Except ε₀ (V p)) ε τ β} {b : β}
    (hf : Looks step wrap (f a) t s ps' b) : Looks step wrap (x >>= f) t s (ps ++ ps') b :=
  Asks.bind h (fun _ => rfl) hf

/-- A loop of single looks that never ends early finds what the fold finds. -/
theorem Looks.foldl {body : β → γ → Proc P (fun p => Except ε₀ (V p)) ε τ (ForInStep γ)}
    {g : γ → β → γ} {ask : β → P} (xs : List β)
    (h : ∀ x ∈ xs, ∀ acc, Looks step wrap (body x acc) t s [ask x] (.yield (g acc x)))
    (init : γ) :
    Looks step wrap (forIn xs init body) t s (xs.map ask) (xs.foldl g init) := by
  induction xs generalizing init with
  | nil => exact .pure _
  | cons x xs ih =>
    rw [List.forIn_cons]
    exact (h x List.mem_cons_self init).bind (ih (fun y hy => h y (List.mem_cons_of_mem x hy)) _)

/-- A search that stops at the first hit looks no further. -/
theorem Looks.find? {body : β → Option (Option β) × PUnit →
      Proc P (fun p => Except ε₀ (V p)) ε τ (ForInStep (Option (Option β) × PUnit))}
    {hit : β → Bool} {ask : β → P} (xs : List β)
    (h : ∀ x ∈ xs, ∀ acc, Looks step wrap (body x acc) t s [ask x]
      (if hit x then .done (some (some x), ⟨⟩) else .yield (none, ⟨⟩))) :
    Looks step wrap (forIn xs (none, ⟨⟩) body) t s ((xs.take (xs.findIdx hit + 1)).map ask)
      ((xs.find? hit).map some, ⟨⟩) := by
  induction xs with
  | nil => exact .pure _
  | cons x xs ih =>
    rw [List.forIn_cons, List.find?_cons, List.findIdx_cons]
    have hx := h x List.mem_cons_self (none, ⟨⟩)
    cases hh : hit x with
    | true =>
      rw [hh] at hx
      exact hx.bind (.pure _)
    | false =>
      rw [hh] at hx
      exact hx.bind (ih fun y hy => h y (List.mem_cons_of_mem x hy))

/-- What looks on a device that behaves observes on one that behaves or reports an error. -/
theorem Looks.observes {E : Env P (fun p => Except ε₀ (V p)) σ} {G : P → σ → σ → Prop}
    {err : ε → Prop} {cut : Prop} {x : Proc P (fun p => Except ε₀ (V p)) ε τ α} {ps : List P}
    {a : α} (h : Looks step wrap x t s ps a)
    (hresp : ∀ p ∈ ps, ∀ r s', E.respond p s r s' →
      G p s s' ∧ s' = s ∧ (r = (step p s).1 ∨ ∃ e, r = .error e ∧ err (wrap e)))
    (hcut : ∀ p ∈ ps, ∀ s', E.cut p s s' → G p s s' ∧ s' = s ∧ cut) :
    Observes E G err cut x t s a := by
  change Asks step wrap t s ps (x.prog t) a at h
  rw [Observes, wp]
  generalize x.prog t = y at h ⊢
  induction h with
  | pure a => exact ⟨rfl, rfl, rfl⟩
  | @call p ps k a hs herr hk ih =>
    refine ⟨fun r s' hr => ?_, fun s' hc => ?_⟩
    · obtain ⟨hg, rfl, rfl | ⟨e, rfl, he⟩⟩ := hresp p List.mem_cons_self r s' hr
      · exact ⟨hg, ih (fun p hp => hresp p (List.mem_cons_of_mem _ hp))
          fun p hp => hcut p (List.mem_cons_of_mem _ hp)⟩
      · rw [herr]
        exact ⟨hg, rfl, rfl, he⟩
    · obtain ⟨hg, rfl, hc'⟩ := hcut p List.mem_cons_self s' hc
      exact ⟨hg, rfl, hc'⟩

end Looks

end Proc

end Interaction
