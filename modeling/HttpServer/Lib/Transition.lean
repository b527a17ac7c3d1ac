import Mathlib.Tactic

/-!
# Runs of transition systems that emit events

A step takes a state to a state and emits a word of events; a run concatenates
the words.  The rules below reduce a statement about runs to one about steps:

* `Run.invariant`: what holds at the start and is kept by every step;
* `Run.conservation`: what came in is what went out and what is still inside;
* `Run.after`: once an event has occurred, only certain events follow;
* `exists_run_of_measure`: where some step always lowers a measure, a run gets
  to its end;
* `exists_done_of_progress`: a sequence whose rank falls again and again ends.
-/

namespace Transition

universe u v w

variable {σ : Type u} {ε : Type v}

/-- The runs from a state, with the events they emit. -/
inductive Run (step : σ → List ε → σ → Prop) (start : σ) : List ε → σ → Prop
  | refl : Run step start [] start
  | tail {trace word : List ε} {s s' : σ}
      (front : Run step start trace s)
      (last : step s word s') :
      Run step start (trace ++ word) s'

variable {step : σ → List ε → σ → Prop} {start : σ}

/-- The state that a run has come to. -/
abbrev Run.target
    {trace : List ε}
    {s : σ}
    (_h : Run step start trace s) : σ :=
  s

/-- An invariant of the events so far and the state. -/
theorem Run.invariant
    (Inv : List ε → σ → Prop)
    (hstart : Inv [] start)
    (hstep : ∀ trace s word s', Inv trace s → step s word s' → Inv (trace ++ word) s')
    {trace : List ε}
    {s : σ}
    (h : Run step start trace s) :
    Inv trace s := by
  induction h with
  | refl => exact hstart
  | tail _ last ih => exact hstep _ _ _ _ ih last

/--
What was inside and what came in during a run is what went out and what is inside
at its end, in order, when every step keeps this balance.
-/
theorem Run.conservation
    {γ : Type w}
    (incoming outgoing : ε → Option γ)
    (inside : σ → List γ)
    (hstep : ∀ s word s', step s word s' →
      inside s ++ word.filterMap incoming = word.filterMap outgoing ++ inside s')
    {trace : List ε}
    {s : σ}
    (h : Run step start trace s) :
    inside start ++ trace.filterMap incoming = trace.filterMap outgoing ++ inside s := by
  induction h with
  | refl => simp
  | tail _ last ih =>
      rw [List.filterMap_append, List.filterMap_append, ← List.append_assoc, ih,
        List.append_assoc, hstep _ _ _ last, List.append_assoc]

/--
Once a marked event has occurred, the state is of the kind `After` and stays so,
and all later events are quiet.
-/
theorem Run.after
    (marked quiet : ε → Prop)
    (After : σ → Prop)
    (hmark : ∀ s before e after s', step s (before ++ e :: after) s' → marked e →
      After s' ∧ ∀ x ∈ after, quiet x)
    (hkeep : ∀ s word s', After s → step s word s' → After s' ∧ ∀ x ∈ word, quiet x)
    {trace : List ε}
    {s : σ}
    (h : Run step start trace s)
    {before after : List ε}
    {e : ε}
    (htrace : trace = before ++ e :: after)
    (he : marked e) :
    After s ∧ ∀ x ∈ after, quiet x := by
  induction h generalizing before after with
  | refl => simp at htrace
  | @tail trace word s s' front last ih =>
      rcases List.append_eq_append_iff.1 htrace with ⟨mid, _, hword⟩ | ⟨mid, hfront, hafter⟩
      · subst hword
        exact hmark s mid e after s' last he
      · cases mid with
        | nil =>
            simp only [List.nil_append] at hafter
            subst hafter
            exact hmark s [] e after s' last he
        | cons first mid =>
            obtain ⟨rfl, rfl⟩ := List.cons.inj hafter
            obtain ⟨hs, hmid⟩ := ih hfront
            obtain ⟨hs', hquiet⟩ := hkeep s word s' hs last
            refine ⟨hs', ?_⟩
            intro x hx
            rcases List.mem_append.1 hx with hx | hx
            · exact hmid x hx
            · exact hquiet x hx

/-- A run whose steps are steps of another system. -/
theorem Run.mono
    {step' : σ → List ε → σ → Prop}
    (hstep : ∀ s word s', step s word s' → step' s word s')
    {trace : List ε}
    {s : σ}
    (h : Run step start trace s) :
    Run step' start trace s := by
  induction h with
  | refl => exact .refl
  | tail _ last ih => exact ih.tail (hstep _ _ _ last)

/-- A step before a run. -/
theorem Run.head
    {word trace : List ε}
    {s s' : σ}
    (first : step start word s)
    (h : Run step s trace s') :
    Run step start (word ++ trace) s' := by
  induction h with
  | refl =>
      rw [List.append_nil]
      exact Run.refl.tail first
  | tail _ last ih =>
      rw [← List.append_assoc]
      exact ih.tail last

/-- A run behind a run. -/
theorem Run.trans
    {trace trace' : List ε}
    {s s' : σ}
    (front : Run step start trace s)
    (back : Run step s trace' s') :
    Run step start (trace ++ trace') s' := by
  induction back with
  | refl =>
      rw [List.append_nil]
      exact front
  | tail _ last ih =>
      rw [← List.append_assoc]
      exact ih.tail last

section Progress

/-- Where a step is done or lowers a measure as long as a condition holds, a run gets there. -/
theorem exists_run_of_measure
    (Cond Done : σ → Prop)
    (measure : σ → ℕ)
    (hstep : ∀ s, Cond s → ∃ word s', step s word s' ∧
      (Done s' ∨ Cond s' ∧ measure s' < measure s))
    (s : σ)
    (hs : Cond s) :
    ∃ trace s', Run step s trace s' ∧ Done s' := by
  induction hn : measure s using Nat.strong_induction_on generalizing s with
  | h n ih =>
      obtain ⟨word, mid, hfirst, hdone | ⟨hmid, hless⟩⟩ := hstep s hs
      · exact ⟨_, mid, Run.refl.tail hfirst, hdone⟩
      · obtain ⟨trace, s', hrun, hdone⟩ := ih (measure mid) (hn ▸ hless) mid hmid rfl
        exact ⟨_, s', hrun.head hfirst, hdone⟩

variable {β : Type w} {r : β → β → Prop}

/--
A sequence that is done, or keeps its rank, or lowers it, and is not stuck at a
rank forever, is done at some point.
-/
theorem exists_done_of_progress
    (hwf : WellFounded r)
    (rank : σ → β)
    (Done : σ → Prop)
    (x : ℕ → σ)
    (hstep : ∀ n, Done (x n) ∨ rank (x (n + 1)) = rank (x n) ∨ r (rank (x (n + 1))) (rank (x n)))
    (hfair : ∀ n, ∃ m, n ≤ m ∧ (Done (x m) ∨ rank (x (m + 1)) ≠ rank (x m))) :
    ∃ n, Done (x n) := by
  suffices hmain : ∀ b n, rank (x n) = b → ∃ m, Done (x m) from hmain _ 0 rfl
  intro b
  induction b using hwf.induction with
  | h b ih =>
      intro n hn
      obtain ⟨m, hnm, hm⟩ := hfair n
      by_contra hnone
      push Not at hnone
      have hlower : ∃ k, n ≤ k ∧ r (rank (x (k + 1))) b := by
        by_contra hnever
        push Not at hnever
        have hconst : ∀ k, rank (x (n + k)) = b := by
          intro k
          induction k with
          | zero => exact hn
          | succ k ihk =>
              rcases hstep (n + k) with hdone | hsame | hless
              · exact absurd hdone (hnone _)
              · rw [← ihk, ← hsame]
                rfl
              · rw [ihk] at hless
                exact absurd hless (hnever (n + k) (by omega))
        rcases hm with hdone | hchange
        · exact hnone m hdone
        · have h1 := hconst (m - n)
          have h2 := hconst (m + 1 - n)
          rw [show n + (m - n) = m by omega] at h1
          rw [show n + (m + 1 - n) = m + 1 by omega] at h2
          exact hchange (h2.trans h1.symm)
      obtain ⟨k, _, hk⟩ := hlower
      obtain ⟨m', hm'⟩ := ih _ hk (k + 1) rfl
      exact hnone m' hm'

end Progress

end Transition
