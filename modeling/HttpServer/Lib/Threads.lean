import Mathlib.Data.Fintype.Card
import Mathlib.Tactic

/-!
# Threads at program points

A system of threads is a function from threads to program points.  A thread
moves by an update of that function; a condition variable moves the threads that
wait on it.

* `NotifyOne`, `notifyAll`: what notifying a condition variable does;
* `total`: what the threads have in total, and how a move changes it;
* `count`: how many threads are at program points of a kind.
-/

namespace Threads

universe u v w

variable {τ : Type u} {β : Type v}

section Notification

variable [DecidableEq τ]

/--
`wake` says where a thread that waits on the condition variable continues.  One
waiting thread continues, whichever it is; if none waits, nothing happens.
-/
inductive NotifyOne (wake : β → Option β) (pc : τ → β) : (τ → β) → Prop
  | woken {u : τ} {b : β}
      (hwaits : wake (pc u) = some b) :
      NotifyOne wake pc (Function.update pc u b)
  | nobody
      (hnone : ∀ u, wake (pc u) = none) :
      NotifyOne wake pc pc

theorem NotifyOne.exists
    (wake : β → Option β)
    (pc : τ → β) :
    ∃ pc', NotifyOne wake pc pc' := by
  by_cases hwaits : ∃ u b, wake (pc u) = some b
  · obtain ⟨u, b, hu⟩ := hwaits
    exact ⟨_, .woken hu⟩
  · refine ⟨pc, .nobody (fun u => Option.eq_none_iff_forall_ne_some.2 ?_)⟩
    intro b hb
    exact hwaits ⟨u, b, hb⟩

/-- All waiting threads continue. -/
def notifyAll (wake : β → Option β) (pc : τ → β) : τ → β :=
  fun u => (wake (pc u)).getD (pc u)

/-- What a move of one thread does not change there, it changes nowhere. -/
theorem apply_update_eq
    {γ : Type w}
    {f : β → γ}
    {pc : τ → β}
    {u : τ}
    {b : β}
    (h : f b = f (pc u))
    (t : τ) :
    f (Function.update pc u b t) = f (pc t) := by
  by_cases htu : t = u
  · subst htu
    rw [Function.update_self]
    exact h
  · rw [Function.update_of_ne htu]

/-- What waking does not change, a notification does not change. -/
theorem NotifyOne.apply_eq
    {γ : Type w}
    {wake : β → Option β}
    {f : β → γ}
    (hwake : ∀ a b, wake a = some b → f b = f a)
    {pc pc' : τ → β}
    (h : NotifyOne wake pc pc')
    (t : τ) :
    f (pc' t) = f (pc t) := by
  cases h with
  | nobody => rfl
  | woken hwaits => exact apply_update_eq (hwake _ _ hwaits) t

omit [DecidableEq τ] in
theorem notifyAll_apply_eq
    {γ : Type w}
    {wake : β → Option β}
    {f : β → γ}
    (hwake : ∀ a b, wake a = some b → f b = f a)
    (pc : τ → β)
    (t : τ) :
    f (notifyAll wake pc t) = f (pc t) := by
  unfold notifyAll
  cases h : wake (pc t) with
  | none => rfl
  | some b => exact hwake _ _ h

end Notification

section Total

variable [Fintype τ] {M : Type w} [AddCommMonoid M]

/-- What the threads have in total. -/
def total (f : β → M) (pc : τ → β) : M :=
  ∑ t, f (pc t)

theorem total_congr
    {f : β → M}
    {pc pc' : τ → β}
    (h : ∀ t, f (pc' t) = f (pc t)) :
    total f pc' = total f pc :=
  Finset.sum_congr rfl (fun t _ => h t)

variable [DecidableEq τ]

/-- A total is what one thread has and what the others have. -/
theorem exists_total_rest
    (f : β → M)
    (pc : τ → β)
    (t : τ) :
    ∃ rest, total f pc = f (pc t) + rest ∧
      ∀ b, total f (Function.update pc t b) = f b + rest := by
  refine ⟨∑ u ∈ Finset.univ.erase t, f (pc u), ?_, fun b => ?_⟩
  · exact (Finset.add_sum_erase Finset.univ (fun u => f (pc u)) (Finset.mem_univ t)).symm
  · unfold total
    rw [← Finset.add_sum_erase Finset.univ _ (Finset.mem_univ t), Function.update_self]
    congr 1
    refine Finset.sum_congr rfl (fun u hu => ?_)
    rw [Function.update_of_ne (Finset.ne_of_mem_erase hu)]

/-- Moving one thread changes a total by what it leaves and what it reaches. -/
theorem total_update
    (f : β → M)
    (pc : τ → β)
    (t : τ)
    (b : β) :
    total f (Function.update pc t b) + f (pc t) = total f pc + f b := by
  obtain ⟨rest, hpc, hupdate⟩ := exists_total_rest f pc t
  rw [hpc, hupdate b]
  abel

end Total

section Bound

variable [Fintype τ] {f : β → ℕ} {wake : β → Option β} {k : ℕ}

/-- A notification raises a total by what it gives to one thread. -/
theorem NotifyOne.total_le
    [DecidableEq τ]
    (hwake : ∀ a b, wake a = some b → f b ≤ f a + k)
    {pc pc' : τ → β}
    (h : NotifyOne wake pc pc') :
    total f pc' ≤ total f pc + k := by
  cases h with
  | nobody => exact Nat.le_add_right _ _
  | @woken u b hwaits =>
      have hmove := total_update f pc u b
      have hgain := hwake _ _ hwaits
      omega

/-- Notifying all threads raises a total by what it gives to each. -/
theorem total_notifyAll_le
    (hwake : ∀ a b, wake a = some b → f b ≤ f a + k)
    (pc : τ → β) :
    total f (notifyAll wake pc) ≤ total f pc + Fintype.card τ * k := by
  have heach : ∀ t ∈ Finset.univ, f (notifyAll wake pc t) ≤ f (pc t) + k := by
    intro t _
    unfold notifyAll
    cases h : wake (pc t) with
    | none => exact Nat.le_add_right _ _
    | some b => exact hwake _ _ h
  have hsum := Finset.sum_le_sum heach
  rw [Finset.sum_add_distrib, Finset.sum_const, smul_eq_mul] at hsum
  exact hsum

end Bound

section Count

variable [Fintype τ]

/-- The number of threads at program points of a kind. -/
def count (kind : β → Bool) (pc : τ → β) : Nat :=
  total (fun b => (kind b).toNat) pc

theorem count_pos_iff
    (kind : β → Bool)
    (pc : τ → β) :
    0 < count kind pc ↔ ∃ t, kind (pc t) = true := by
  have hpos : ∀ b : Bool, 0 < b.toNat ↔ b = true := by decide
  simp [count, total, Finset.sum_pos_iff, hpos]

theorem count_eq_zero_iff
    (kind : β → Bool)
    (pc : τ → β) :
    count kind pc = 0 ↔ ∀ t, kind (pc t) = false := by
  simp [count, total]

theorem count_le_card
    (kind : β → Bool)
    (pc : τ → β) :
    count kind pc ≤ Fintype.card τ := by
  have hle := Finset.sum_le_card_nsmul Finset.univ (fun t => (kind (pc t)).toNat) 1
    (fun t _ => Bool.toNat_le _)
  simpa [count, total] using hle

theorem count_congr
    {kind : β → Bool}
    {pc pc' : τ → β}
    (h : ∀ t, kind (pc' t) = kind (pc t)) :
    count kind pc' = count kind pc :=
  total_congr (fun t => by rw [h t])

theorem count_update
    [DecidableEq τ]
    (kind : β → Bool)
    (pc : τ → β)
    (t : τ)
    (b : β) :
    count kind (Function.update pc t b) + (kind (pc t)).toNat =
      count kind pc + (kind b).toNat :=
  total_update (fun b => (kind b).toNat) pc t b

end Count

end Threads
