import Mathlib.Tactic

/-!
# Steps of one's own and steps from outside

A system takes steps of its own and steps that its surroundings cause.  Its own
steps lower a rank, and a step from outside raises the rank by a bounded amount.

* `CountedRun`: runs with the number of their steps of either kind;
* `CountedRun.own_add_le`: the steps from outside bound the steps of one's own;
* `exists_stop`: left alone, the system comes to a state with no step of its own.
-/

namespace Ranking

universe u

variable {σ : Type u}

/-- The runs from a state, with the number of own steps and of steps from outside. -/
inductive CountedRun (own outside : σ → σ → Prop) (start : σ) : ℕ → ℕ → σ → Prop
  | refl : CountedRun own outside start 0 0 start
  | own {m k : ℕ} {s s' : σ}
      (front : CountedRun own outside start m k s)
      (last : own s s') :
      CountedRun own outside start (m + 1) k s'
  | outside {m k : ℕ} {s s' : σ}
      (front : CountedRun own outside start m k s)
      (last : outside s s') :
      CountedRun own outside start m (k + 1) s'

variable {own outside : σ → σ → Prop} {start s : σ} {m k : ℕ}

/-- What holds at the start and is kept by the steps of both kinds. -/
theorem CountedRun.invariant
    (Inv : σ → Prop)
    (hstart : Inv start)
    (hown : ∀ s s', Inv s → own s s' → Inv s')
    (houtside : ∀ s s', Inv s → outside s s' → Inv s')
    (h : CountedRun own outside start m k s) :
    Inv s := by
  induction h with
  | refl => exact hstart
  | own _ last ih => exact hown _ _ ih last
  | outside _ last ih => exact houtside _ _ ih last

/-- Without steps from outside it is enough that one's own steps keep it. -/
theorem CountedRun.invariant_alone
    (Inv : σ → Prop)
    (hstart : Inv start)
    (hown : ∀ s s', Inv s → own s s' → Inv s')
    (h : CountedRun own outside start m 0 s) :
    Inv s := by
  generalize hk : 0 = k at h
  induction h with
  | refl => exact hstart
  | own _ last ih => exact hown _ _ (ih hk) last
  | outside => cases hk

/-- The own steps of a run are bounded by the rank at its start and the steps from outside. -/
theorem CountedRun.own_add_le
    (Inv : σ → Prop)
    (rank : σ → ℕ)
    (raise : ℕ)
    (hstart : Inv start)
    (hown : ∀ s s', Inv s → own s s' → Inv s' ∧ rank s' < rank s)
    (houtside : ∀ s s', Inv s → outside s s' → Inv s' ∧ rank s' ≤ rank s + raise)
    (h : CountedRun own outside start m k s) :
    m + rank s ≤ rank start + k * raise := by
  induction h with
  | refl => simp
  | @own m k s s' front last ih =>
      have hs := front.invariant Inv hstart (fun s s' hs h => (hown s s' hs h).1)
        (fun s s' hs h => (houtside s s' hs h).1)
      have hless := (hown s s' hs last).2
      omega
  | @outside m k s s' front last ih =>
      have hs := front.invariant Inv hstart (fun s s' hs h => (hown s s' hs h).1)
        (fun s s' hs h => (houtside s s' hs h).1)
      have hmore := (houtside s s' hs last).2
      rw [Nat.add_mul, Nat.one_mul]
      omega

/-- An own step before a run. -/
theorem CountedRun.head
    {s₀ : σ}
    (first : own s₀ start)
    (h : CountedRun own outside start m k s) :
    CountedRun own outside s₀ (m + 1) k s := by
  induction h with
  | refl => exact CountedRun.refl.own first
  | own _ last ih => exact ih.own last
  | outside _ last ih => exact ih.outside last

/-- Left alone, a system whose own steps lower a rank comes to a state without such a step. -/
theorem exists_stop
    (Inv : σ → Prop)
    (rank : σ → ℕ)
    (hown : ∀ s s', Inv s → own s s' → Inv s' ∧ rank s' < rank s)
    (s : σ)
    (hs : Inv s) :
    ∃ m s', CountedRun own outside s m 0 s' ∧ ∀ s'', ¬ own s' s'' := by
  induction hn : rank s using Nat.strong_induction_on generalizing s with
  | h n ih =>
      by_cases hstep : ∃ s', own s s'
      · obtain ⟨mid, hmid⟩ := hstep
        obtain ⟨hinv, hless⟩ := hown s mid hs hmid
        obtain ⟨m, s', hrun, hstop⟩ := ih (rank mid) (hn ▸ hless) mid hinv rfl
        exact ⟨m + 1, s', hrun.head hmid, hstop⟩
      · exact ⟨0, s, .refl, fun s'' h => hstep ⟨s'', h⟩⟩

end Ranking
