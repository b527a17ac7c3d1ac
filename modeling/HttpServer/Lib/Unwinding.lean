import Mathlib.Logic.Relation
import Mathlib.Tactic

/-!
# Programs that call the system, throw and unwind

A program is a tree of calls: it returns, throws, or makes a call and goes on with
the answer.  The answers are those of a system, which relates the state before a
call to the states behind it; between any two steps of the program something else
may happen to the state (another thread, a signal handler).

* `Prog.tryCatch`, `Prog.onThrow`, `Prog.guarded`: handlers and destructors;
* `Step`: the program and its interruptions, one step at a time;
* `wp`: the states from which the program keeps an invariant, is never stuck,
  returns in one kind of state and throws in another;
* `wp_seq`, `wp_tryCatch`, `wp_guarded`, `wp_forUpTo`: the rules for programs,
  beside `wp_pure`, `wp_throw` and `wp_perform` for assertions that survive
  interruptions;
* `wp.invariant`, `wp.returned`, `wp.threw`, `wp.finishes`: what they say of runs.
-/

namespace Unwinding

open Relation

universe u v w x y

/-- A program that makes calls `κ` with answers `ρ`, and may throw an `ε`. -/
inductive Prog (κ : Type u) (ρ : κ → Type v) (ε : Type w) (α : Type x)
  | pure (a : α)
  | throw (e : ε)
  | call (k : κ) (next : ρ k → Prog κ ρ ε α)

namespace Prog

variable {κ : Type u} {ρ : κ → Type v} {ε : Type w} {α β : Type x}

protected def bind : Prog κ ρ ε α → (α → Prog κ ρ ε β) → Prog κ ρ ε β
  | .pure a, f => f a
  | .throw e, _ => .throw e
  | .call k next, f => .call k (fun r => (next r).bind f)

instance : Monad (Prog κ ρ ε) where
  pure := .pure
  bind := Prog.bind

/-- Make a call and return its answer. -/
def perform {ρ : κ → Type x} (k : κ) : Prog κ ρ ε (ρ k) :=
  .call k .pure

/-- Handle what a program throws. -/
def tryCatch : Prog κ ρ ε α → (ε → Prog κ ρ ε α) → Prog κ ρ ε α
  | .pure a, _ => .pure a
  | .throw e, handler => handler e
  | .call k next, handler => .call k (fun r => (next r).tryCatch handler)

/-- Clean up while an exception passes. -/
def onThrow (p : Prog κ ρ ε α) (cleanup : Prog κ ρ ε PUnit) : Prog κ ρ ε α :=
  p.tryCatch (fun e => cleanup.bind (fun _ => .throw e))

/-- Run the destructor of a local object, which may find it in another state when the
program returns than when an exception passes. -/
def guarded (p : Prog κ ρ ε α) (returned threw : Prog κ ρ ε PUnit) : Prog κ ρ ε α :=
  (p.onThrow threw).bind (fun a => returned.bind (fun _ => .pure a))

/-- A loop over the numbers below a bound. -/
def forUpTo : Nat → (Nat → Prog κ ρ ε PUnit) → Prog κ ρ ε PUnit
  | 0, _ => .pure ⟨⟩
  | n + 1, body => (forUpTo n body).bind (fun _ => body n)

end Prog

/-- How calls are answered, and what may happen between two steps of a program. -/
structure System (κ : Type u) (ρ : κ → Type v) (σ : Type y) where
  answer : (k : κ) → σ → ρ k → σ → Prop
  interrupt : σ → σ → Prop

variable {κ : Type u} {ρ : κ → Type v} {ε : Type w} {α β : Type x} {σ : Type y}

section Steps

variable (sys : System κ ρ σ)

/-- One step of a program, or an interruption. -/
inductive Step : σ × Prog κ ρ ε α → σ × Prog κ ρ ε α → Prop
  | answered {k : κ} {next : ρ k → Prog κ ρ ε α} {s s' : σ} {r : ρ k}
      (h : sys.answer k s r s') :
      Step (s, .call k next) (s', next r)
  | interrupted {p : Prog κ ρ ε α} {s s' : σ}
      (h : sys.interrupt s s') :
      Step (s, p) (s', p)

/-- What interruptions do not change. -/
def Stable (P : σ → Prop) : Prop :=
  ∀ s s', sys.interrupt s s' → P s → P s'

/-- What holds now and after any interruptions. -/
def Always (P : σ → Prop) (s : σ) : Prop :=
  ∀ s', ReflTransGen sys.interrupt s s' → P s'

/--
The program keeps `Inv`, can always go on, returns where `Q` holds and throws where
`E` holds.
-/
def wp (Inv : σ → Prop) (Q : α → σ → Prop) (E : ε → σ → Prop) :
    Prog κ ρ ε α → σ → Prop
  | .pure a => Always sys (fun s => Inv s ∧ Q a s)
  | .throw e => Always sys (fun s => Inv s ∧ E e s)
  | .call k next => Always sys (fun s => Inv s ∧
      (∃ mid r s', ReflTransGen sys.interrupt s mid ∧ sys.answer k mid r s') ∧
      ∀ r s', sys.answer k s r s' → wp Inv Q E (next r) s')

end Steps

variable {sys : System κ ρ σ} {Inv : σ → Prop}

section Stability

theorem Stable.always
    {P : σ → Prop}
    (h : Stable sys P)
    {s : σ}
    (hs : P s) :
    Always sys P s := by
  intro s' hreach
  induction hreach with
  | refl => exact hs
  | tail _ hlast ih => exact h _ _ hlast ih

theorem Stable.and
    {P Q : σ → Prop}
    (hP : Stable sys P)
    (hQ : Stable sys Q) :
    Stable sys (fun s => P s ∧ Q s) := by
  intro s s' hstep hs
  exact ⟨hP s s' hstep hs.1, hQ s s' hstep hs.2⟩

theorem Stable.exists
    {ι : Sort*}
    {P : ι → σ → Prop}
    (h : ∀ i, Stable sys (P i)) :
    Stable sys (fun s => ∃ i, P i s) := by
  rintro s s' hstep ⟨i, hi⟩
  exact ⟨i, h i s s' hstep hi⟩

theorem Always.now
    {P : σ → Prop}
    {s : σ}
    (h : Always sys P s) :
    P s :=
  h s .refl

theorem Always.later
    {P : σ → Prop}
    {s s' : σ}
    (h : Always sys P s)
    (hreach : ReflTransGen sys.interrupt s s') :
    Always sys P s' :=
  fun _ hlater => h _ (hreach.trans hlater)

theorem Always.mono
    {P Q : σ → Prop}
    {s : σ}
    (h : Always sys P s)
    (himp : ∀ s, P s → Q s) :
    Always sys Q s :=
  fun s' hreach => himp s' (h s' hreach)

end Stability

section Rules

variable {Q : α → σ → Prop} {E : ε → σ → Prop}

theorem wp.later
    {p : Prog κ ρ ε α}
    {s s' : σ}
    (h : wp sys Inv Q E p s)
    (hreach : ReflTransGen sys.interrupt s s') :
    wp sys Inv Q E p s' := by
  cases p with
  | pure a => exact Always.later h hreach
  | throw e => exact Always.later h hreach
  | call k next => exact Always.later h hreach

/-- The rule of consequence. -/
theorem wp.mono
    {Q' : α → σ → Prop}
    {E' : ε → σ → Prop}
    {p : Prog κ ρ ε α}
    {s : σ}
    (h : wp sys Inv Q E p s)
    (hQ : ∀ a s, Q a s → Q' a s)
    (hE : ∀ e s, E e s → E' e s) :
    wp sys Inv Q' E' p s := by
  induction p generalizing s with
  | pure a => exact Always.mono h (fun s hs => ⟨hs.1, hQ a s hs.2⟩)
  | throw e => exact Always.mono h (fun s hs => ⟨hs.1, hE e s hs.2⟩)
  | call k next ih =>
      refine Always.mono h ?_
      rintro s ⟨hinv, hgoes, hnext⟩
      exact ⟨hinv, hgoes, fun r s' hanswer => ih r (hnext r s' hanswer)⟩

theorem wp_pure
    {a : α}
    {s : σ}
    (hstable : Stable sys (Q a))
    (hinv : ∀ s, Q a s → Inv s)
    (hs : Q a s) :
    wp sys Inv Q E (pure a) s :=
  (hstable.always hs).mono (fun s hs => ⟨hinv s hs, hs⟩)

theorem wp_throw
    {e : ε}
    {s : σ}
    (hstable : Stable sys (E e))
    (hinv : ∀ s, E e s → Inv s)
    (hs : E e s) :
    wp sys Inv Q E (.throw e) s :=
  (hstable.always hs).mono (fun s hs => ⟨hinv s hs, hs⟩)

theorem wp_bind
    {p : Prog κ ρ ε α}
    {f : α → Prog κ ρ ε β}
    {R : β → σ → Prop}
    {s : σ}
    (h : wp sys Inv (fun a => wp sys Inv R E (f a)) E p s) :
    wp sys Inv R E (p >>= f) s := by
  change wp sys Inv R E (p.bind f) s
  induction p generalizing s with
  | pure a => exact (Always.now h).2
  | throw e => exact h
  | call k next ih =>
      refine Always.mono h ?_
      rintro s ⟨hinv, hgoes, hnext⟩
      exact ⟨hinv, hgoes, fun r s' hanswer => ih r (hnext r s' hanswer)⟩

/-- A program and then what its result asks for. -/
theorem wp_seq
    {p : Prog κ ρ ε α}
    {f : α → Prog κ ρ ε β}
    {R : β → σ → Prop}
    {s : σ}
    (h : wp sys Inv Q E p s)
    (hnext : ∀ a s, Q a s → wp sys Inv R E (f a) s) :
    wp sys Inv R E (p >>= f) s :=
  wp_bind (h.mono hnext (fun _ _ hs => hs))

theorem bind_assoc
    (p : Prog κ ρ ε α)
    (f : α → Prog κ ρ ε β)
    {γ : Type x}
    (g : β → Prog κ ρ ε γ) :
    p >>= (fun a => f a >>= g) = (p >>= f) >>= g := by
  change p.bind (fun a => (f a).bind g) = (p.bind f).bind g
  induction p with
  | pure a => rfl
  | throw e => rfl
  | call k next ih => simp only [Prog.bind, ih]

/-- The first two parts of a program, and then the rest. -/
theorem wp_seq_two
    {p : Prog κ ρ ε α}
    {f : α → Prog κ ρ ε β}
    {γ : Type x}
    {g : β → Prog κ ρ ε γ}
    {R : β → σ → Prop}
    {R' : γ → σ → Prop}
    {s : σ}
    (h : wp sys Inv R E (p >>= f) s)
    (hnext : ∀ b s, R b s → wp sys Inv R' E (g b) s) :
    wp sys Inv R' E (p >>= fun a => f a >>= g) s := by
  rw [bind_assoc]
  exact wp_seq h hnext

theorem wp_tryCatch
    {p : Prog κ ρ ε α}
    {handler : ε → Prog κ ρ ε α}
    {s : σ}
    (h : wp sys Inv Q (fun e => wp sys Inv Q E (handler e)) p s) :
    wp sys Inv Q E (p.tryCatch handler) s := by
  induction p generalizing s with
  | pure a => exact h
  | throw e => exact (Always.now h).2
  | call k next ih =>
      refine Always.mono h ?_
      rintro s ⟨hinv, hgoes, hnext⟩
      exact ⟨hinv, hgoes, fun r s' hanswer => ih r (hnext r s' hanswer)⟩

theorem wp_onThrow
    {p : Prog κ ρ ε α}
    {cleanup : Prog κ ρ ε PUnit}
    {s : σ}
    (h : wp sys Inv Q
      (fun e => wp sys Inv (fun _ => wp sys Inv Q E (.throw e)) E cleanup) p s) :
    wp sys Inv Q E (p.onThrow cleanup) s :=
  wp_tryCatch (h.mono (fun _ _ hs => hs) (fun _ _ hs => wp_bind hs))

/-- Of the two runs of a destructor, one happens on either way out. -/
theorem wp_guarded
    {p : Prog κ ρ ε α}
    {returned threw : Prog κ ρ ε PUnit}
    {s : σ}
    (h : wp sys Inv
      (fun a => wp sys Inv (fun _ => wp sys Inv Q E (pure a)) E returned)
      (fun e => wp sys Inv (fun _ => wp sys Inv Q E (.throw e)) E threw) p s) :
    wp sys Inv Q E (p.guarded returned threw) s := by
  refine wp_bind (wp_onThrow (h.mono ?_ ?_))
  · intro a s hs
    exact wp_bind hs
  · intro e s hs
    exact hs.mono (fun _ _ hthrow => hthrow) (fun _ _ herror => herror)

/-- A call from a state whose description survives interruptions. -/
theorem wp_perform
    {ρ : κ → Type x}
    {sys : System κ ρ σ}
    {k : κ}
    {P : σ → Prop}
    {R : ρ k → σ → Prop}
    {E : ε → σ → Prop}
    {s : σ}
    (hs : P s)
    (hstable : Stable sys P)
    (hinv : ∀ s, P s → Inv s)
    (hgoes : ∀ s, P s → ∃ mid r s', ReflTransGen sys.interrupt s mid ∧ sys.answer k mid r s')
    (hanswer : ∀ s r s', P s → sys.answer k s r s' → R r s')
    (hstable' : ∀ r, Stable sys (R r))
    (hinv' : ∀ r s, R r s → Inv s) :
    wp sys Inv R E (Prog.perform k) s := by
  refine (hstable.always hs).mono ?_
  intro s hs
  refine ⟨hinv s hs, hgoes s hs, ?_⟩
  intro r s' hreply
  exact wp_pure (hstable' r) (hinv' r) (hanswer s r s' hs hreply)

/-- The rule for loops: `J i` holds in front of round `i`. -/
theorem wp_forUpTo
    {n : Nat}
    {body : Nat → Prog κ ρ ε PUnit}
    {J : Nat → σ → Prop}
    {s : σ}
    (hs : J 0 s)
    (hstable : Stable sys (J 0))
    (hinv : ∀ s, J 0 s → Inv s)
    (hbody : ∀ i < n, ∀ s, J i s → wp sys Inv (fun _ => J (i + 1)) E (body i) s) :
    wp sys Inv (fun _ => J n) E (Prog.forUpTo n body) s := by
  induction n with
  | zero => exact wp_pure hstable hinv hs
  | succ n ih =>
      have hfront := ih (fun i hi => hbody i (by omega))
      exact wp_bind (hfront.mono (fun _ s hs => hbody n (by omega) s hs) (fun _ _ hs => hs))

end Rules

section Runs

variable {Q : α → σ → Prop} {E : ε → σ → Prop}

theorem wp.step
    {p p' : Prog κ ρ ε α}
    {s s' : σ}
    (h : wp sys Inv Q E p s)
    (hstep : Step sys (s, p) (s', p')) :
    wp sys Inv Q E p' s' := by
  cases hstep with
  | answered hanswer => exact (Always.now h).2.2 _ _ hanswer
  | interrupted hinterrupt => exact h.later (.single hinterrupt)

theorem wp.reached
    {p : Prog κ ρ ε α}
    {s : σ}
    (h : wp sys Inv Q E p s)
    {c : σ × Prog κ ρ ε α}
    (hrun : ReflTransGen (Step sys) (s, p) c) :
    wp sys Inv Q E c.2 c.1 := by
  induction hrun with
  | refl => exact h
  | tail _ hlast ih => exact ih.step hlast

/-- The invariant holds at every moment. -/
theorem wp.invariant
    {p : Prog κ ρ ε α}
    {s : σ}
    (h : wp sys Inv Q E p s) :
    Inv s := by
  cases p with
  | pure a => exact (Always.now h).1
  | throw e => exact (Always.now h).1
  | call k next => exact (Always.now h).1

theorem wp.returned
    {a : α}
    {s : σ}
    (h : wp sys Inv Q E (.pure a) s) :
    Q a s :=
  (Always.now h).2

theorem wp.threw
    {e : ε}
    {s : σ}
    (h : wp sys Inv Q E (.throw e) s) :
    E e s :=
  (Always.now h).2

theorem run_of_interrupts
    (p : Prog κ ρ ε α)
    {s s' : σ}
    (h : ReflTransGen sys.interrupt s s') :
    ReflTransGen (Step sys) (s, p) (s', p) := by
  induction h with
  | refl => exact .refl
  | tail _ hlast ih => exact ih.tail (.interrupted hlast)

/-- From every state on the way the program can come to its end. -/
theorem wp.finishes
    {p : Prog κ ρ ε α}
    {s : σ}
    (h : wp sys Inv Q E p s) :
    ∃ s', (∃ a, ReflTransGen (Step sys) (s, p) (s', .pure a)) ∨
      ∃ e, ReflTransGen (Step sys) (s, p) (s', .throw e) := by
  induction p generalizing s with
  | pure a => exact ⟨s, Or.inl ⟨a, .refl⟩⟩
  | throw e => exact ⟨s, Or.inr ⟨e, .refl⟩⟩
  | call k next ih =>
      obtain ⟨mid, r, behind, hwait, hanswer⟩ := (Always.now h).2.1
      have hmid := h.later hwait
      have hnext := (Always.now hmid).2.2 r behind hanswer
      have hcall : ReflTransGen (Step sys) (s, .call k next) (behind, next r) :=
        (run_of_interrupts _ hwait).tail (.answered hanswer)
      obtain ⟨s', ⟨a, hend⟩ | ⟨e, hend⟩⟩ := ih r hnext
      · exact ⟨s', Or.inl ⟨a, hcall.trans hend⟩⟩
      · exact ⟨s', Or.inr ⟨e, hcall.trans hend⟩⟩

end Runs

end Unwinding
