import HttpServer.Lib.Transition
import Mathlib.Logic.Function.Basic

/-!
# Atomic objects

An object is atomic if each operation on it takes effect at one moment between its
call and its return.  The canonical atomic object (`Step`) does just that: a thread
calls an operation, the operation is applied to the value, and the thread returns
with the result.  A history of calls and returns is linearizable if the canonical
object of its sequential specification can produce it.

* `Linearizable`: the histories of the canonical object;
* `linearizable_of_simulation`: a system whose steps are matched by runs of the
  canonical object has linearizable histories only.
-/

namespace AtomicObject

open Transition

universe u v w x y

variable {τ : Type u} {σ : Type v} {ο : Type w} {ρ : Type x}

section Canonical

/-- What the callers of an object see, and when their operations take effect. -/
inductive Event (τ : Type u) (ο : Type w) (ρ : Type x)
  | called (t : τ) (o : ο)
  | applied (t : τ) (o : ο) (r : ρ)
  | returned (t : τ) (r : ρ)

/-- How far the operation of a thread has got. -/
inductive Phase (ο : Type w) (ρ : Type x)
  | idle
  | called (o : ο)
  | applied (r : ρ)

structure State (τ : Type u) (σ : Type v) (ο : Type w) (ρ : Type x) where
  value : σ
  phase : τ → Phase ο ρ

/-- The canonical object, where `Applies` is its sequential specification. -/
inductive Step [DecidableEq τ] (Applies : σ → ο → ρ → σ → Prop) :
    State τ σ ο ρ → List (Event τ ο ρ) → State τ σ ο ρ → Prop
  | calls {s : State τ σ ο ρ} {t : τ} {o : ο}
      (hphase : s.phase t = .idle) :
      Step Applies s [.called t o] { s with phase := Function.update s.phase t (.called o) }
  | applies {s : State τ σ ο ρ} {t : τ} {o : ο} {r : ρ} {value : σ}
      (hphase : s.phase t = .called o)
      (happlies : Applies s.value o r value) :
      Step Applies s [.applied t o r]
        { value := value, phase := Function.update s.phase t (.applied r) }
  | returns {s : State τ σ ο ρ} {t : τ} {r : ρ}
      (hphase : s.phase t = .applied r) :
      Step Applies s [.returned t r] { s with phase := Function.update s.phase t .idle }

/-- An object before its first operation. -/
def State.start (value : σ) : State τ σ ο ρ where
  value := value
  phase := fun _ => .idle

def Event.visible : Event τ ο ρ → Bool
  | .applied _ _ _ => false
  | _ => true

/-- The calls and returns of a run. -/
def history (trace : List (Event τ ο ρ)) : List (Event τ ο ρ) :=
  trace.filter Event.visible

/-- A history of calls and returns between which the operations can have taken effect. -/
def Linearizable [DecidableEq τ] (Applies : σ → ο → ρ → σ → Prop) (value : σ)
    (calls : List (Event τ ο ρ)) : Prop :=
  ∃ trace s, Run (Step Applies) (State.start value) trace s ∧ history trace = calls

end Canonical

section Simulation

@[simp] theorem history_append
    (front back : List (Event τ ο ρ)) :
    history (front ++ back) = history front ++ history back := by
  simp [history]

variable [DecidableEq τ] {Applies : σ → ο → ρ → σ → Prop}

/-- An operation that takes effect and returns in one step of a system. -/
theorem run_applies_returns
    {s : State τ σ ο ρ}
    {t : τ}
    {o : ο}
    {r : ρ}
    {value : σ}
    (hphase : s.phase t = .called o)
    (happlies : Applies s.value o r value) :
    Run (Step Applies) s [.applied t o r, .returned t r]
      { value := value, phase := Function.update s.phase t .idle } := by
  have hreturn := (Run.refl.tail (Step.applies hphase happlies)).tail
    (.returns (t := t) (r := r) (Function.update_self _ _ _))
  rwa [Function.update_idem] at hreturn

/--
If every step of a system, seen through `abstraction`, is a run of the canonical
object with the same calls and returns, its histories are linearizable.
-/
theorem linearizable_of_simulation
    {S : Type y}
    {step : S → List (Event τ ο ρ) → S → Prop}
    (Inv : S → Prop)
    (abstraction : S → State τ σ ο ρ)
    (hstep : ∀ s word s', Inv s → step s word s' →
      Inv s' ∧ ∃ run, Run (Step Applies) (abstraction s) run (abstraction s') ∧
        history run = word)
    {start s : S}
    {value : σ}
    {calls : List (Event τ ο ρ)}
    (hinv : Inv start)
    (hstart : abstraction start = State.start value)
    (hrun : Run step start calls s) :
    Linearizable Applies value calls := by
  have hmain := hrun.invariant (fun calls s => Inv s ∧
    ∃ trace, Run (Step Applies) (State.start value) trace (abstraction s) ∧
      history trace = calls) ⟨hinv, [], by rw [hstart]; exact .refl, rfl⟩ ?_
  · obtain ⟨_, trace, htrace, hcalls⟩ := hmain
    exact ⟨trace, abstraction s, htrace, hcalls⟩
  · rintro calls s word s' ⟨hs, trace, htrace, rfl⟩ hlast
    obtain ⟨hs', run, hmore, rfl⟩ := hstep s word s' hs hlast
    exact ⟨hs', trace ++ run, htrace.trans hmore, history_append _ _⟩

end Simulation

end AtomicObject
