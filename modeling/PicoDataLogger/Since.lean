/-
Histories that have a reason.

A flag that some events set and others clear says which came last. `Since set cleared`
says this of a history: an event came that sets the flag, and none since that clears
it. Whether an event sets or clears it may depend on what was before. What a step
keeps is `since_snoc`, and what a reader of a history wants is `Since.split`.
-/
import Mathlib.Tactic.Common

set_option autoImplicit false

namespace PicoDataLogger

variable {ε : Type}

/-- An event came that sets, and since then none that clears. -/
inductive Since (set cleared : List ε → ε → Prop) : List ε → Prop where
  | now {history : List ε} {e : ε} (hset : set history e) : Since set cleared (history ++ [e])
  | still {history : List ε} {e : ε} (hsince : Since set cleared history)
      (hcleared : ¬ cleared history e) : Since set cleared (history ++ [e])

namespace Since

variable {set cleared : List ε → ε → Prop} {history : List ε} {e : ε}

theorem not_nil : ¬ Since set cleared [] := by
  intro h
  generalize hnil : ([] : List ε) = history at h
  cases h <;> simp at hnil

/-- One more event. -/
theorem snoc : Since set cleared (history ++ [e])
    ↔ set history e ∨ (Since set cleared history ∧ ¬ cleared history e) := by
  constructor
  · intro h
    generalize hsnoc : history ++ [e] = history' at h
    cases h with
    | now hset =>
      obtain ⟨rfl, he⟩ := List.append_inj' hsnoc rfl
      cases he
      exact .inl hset
    | still hsince hcleared =>
      obtain ⟨rfl, he⟩ := List.append_inj' hsnoc rfl
      cases he
      exact .inr ⟨hsince, hcleared⟩
  · rintro (hset | ⟨hsince, hcleared⟩)
    · exact .now hset
    · exact .still hsince hcleared

/-- An event that neither sets nor clears. -/
theorem snoc_aside (hset : ¬ set history e) (hcleared : ¬ cleared history e) :
    Since set cleared (history ++ [e]) ↔ Since set cleared history := by
  rw [snoc, or_iff_right hset, and_iff_left hcleared]

/-- The event that set it, and what came since. -/
theorem split (h : Since set cleared history) :
    ∃ before e after, history = before ++ e :: after ∧ set before e
      ∧ ∀ mid e' rest, after = mid ++ e' :: rest → ¬ cleared (before ++ e :: mid) e' := by
  induction h with
  | @now before e hset =>
    refine ⟨before, e, [], rfl, hset, ?_⟩
    intro mid e' rest hnil
    simp at hnil
  | @still history last hsince hcleared ih =>
    obtain ⟨before, e, after, rfl, hset, hafter⟩ := ih
    refine ⟨before, e, after ++ [last], by simp, hset, ?_⟩
    intro mid e' rest hsplit
    rcases List.eq_nil_or_concat rest with rfl | ⟨rest, last', rfl⟩
    · obtain ⟨rfl, he⟩ := List.append_inj' hsplit rfl
      cases he
      exact hcleared
    · rw [List.concat_eq_append, ← List.cons_append, ← List.append_assoc] at hsplit
      obtain ⟨rfl, -⟩ := List.append_inj' hsplit rfl
      exact hafter mid e' rest rfl

end Since

end PicoDataLogger
