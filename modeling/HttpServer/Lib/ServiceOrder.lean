import HttpServer.Lib.Transition

/-!
# The order of service

Clients are numbered as they arrive.  An arriving client is offered to a waiting
line, which takes it at its end or, once closed, refuses it; servers take clients
from the front of the line and begin to serve what they hold, each in its own time.

A server that begins early may overtake the others, but only by the clients that
they hold: whoever came before a client that has been begun has been begun as well,
or is in the hands of a server (`begun_or_held`).  `SameOrder` is that invariant for
a client in any stage, and `not_begun_card_le` counts who can be overtaken.
-/

namespace ServiceOrder

open Transition

universe u

variable {ω : Type u}

/-- The line, the client that is offered to it and the clients that servers hold. -/
structure State (ω : Type u) where
  waiting : List ℕ := []
  offered : Option ℕ := none
  held : ω → Option ℕ := fun _ => none
  next : ℕ := 0
  closed : Bool := false

inductive Event (ω : Type u)
  | begun (w : ω) (n : ℕ)
  | refused (n : ℕ)

inductive Step [DecidableEq ω] : State ω → List (Event ω) → State ω → Prop
  | rest {a : State ω} :
      Step a [] a
  | arrive {a : State ω}
      (hoffered : a.offered = none) :
      Step a [] { a with offered := some a.next, next := a.next + 1 }
  | enter {a : State ω} {n : ℕ}
      (hoffered : a.offered = some n)
      (hopen : a.closed = false) :
      Step a [] { a with offered := none, waiting := a.waiting ++ [n] }
  | refuse {a : State ω} {n : ℕ}
      (hoffered : a.offered = some n)
      (hclosed : a.closed = true) :
      Step a [.refused n] { a with offered := none }
  | close {a : State ω} :
      Step a [] { a with closed := true }
  | take {a : State ω} {w : ω} {n : ℕ} {rest : List ℕ}
      (hfree : a.held w = none)
      (hwaiting : a.waiting = n :: rest) :
      Step a [] { a with waiting := rest, held := Function.update a.held w (some n) }
  | start {a : State ω} {w : ω} {n : ℕ}
      (hheld : a.held w = some n) :
      Step a [.begun w n] { a with held := Function.update a.held w none }

/-- A client that has left the line for a server. -/
def Taken (trace : List (Event ω)) (a : State ω) (n : ℕ) : Prop :=
  (∃ w, .begun w n ∈ trace) ∨ ∃ w, a.held w = some n

/-- What holds of a history and the line at its end. -/
structure SameOrder (trace : List (Event ω)) (a : State ω) : Prop where
  sorted : (a.waiting ++ a.offered.toList).Pairwise (· < ·)
  below : ∀ n ∈ a.waiting ++ a.offered.toList, n < a.next
  taken : ∀ n, Taken trace a n → n < a.next ∧ ∀ m ∈ a.waiting ++ a.offered.toList, n < m
  accounted : ∀ m < a.next,
    Taken trace a m ∨ m ∈ a.waiting ++ a.offered.toList ∨ .refused m ∈ trace
  refused : ∀ m, .refused m ∈ trace →
    a.closed = true ∧ m < a.next ∧ (∀ n, Taken trace a n → n < m) ∧ ∀ n ∈ a.waiting, n < m

namespace SameOrder

variable {trace word : List (Event ω)} {a a' : State ω}

theorem start :
    SameOrder [] ({} : State ω) where
  sorted := by simp
  below := by simp
  taken := by simp [Taken]
  accounted := by simp
  refused := by simp

theorem arrive
    (h : SameOrder trace a)
    (hoffered : a.offered = none) :
    SameOrder trace { a with offered := some a.next, next := a.next + 1 } := by
  have hline : a.waiting ++ a.offered.toList = a.waiting := by simp [hoffered]
  obtain ⟨hsorted, hbelow, htaken, haccounted, hrefused⟩ := h
  rw [hline] at hsorted hbelow htaken haccounted
  refine ⟨?_, ?_, ?_, ?_, ?_⟩
  · simpa [List.pairwise_append] using ⟨hsorted, hbelow⟩
  · simp only [Option.toList_some, List.mem_append, List.mem_singleton]
    rintro n (hn | rfl)
    · exact Nat.lt_succ_of_lt (hbelow n hn)
    · exact Nat.lt_succ_self _
  · intro n hn
    obtain ⟨hlt, hfront⟩ := htaken n hn
    refine ⟨Nat.lt_succ_of_lt hlt, ?_⟩
    simp only [Option.toList_some, List.mem_append, List.mem_singleton]
    rintro m (hm | rfl)
    · exact hfront m hm
    · exact hlt
  · intro m hm
    rcases Nat.lt_succ_iff_lt_or_eq.1 hm with hlt | rfl
    · rcases haccounted m hlt with hm | hm | hm
      · exact Or.inl hm
      · exact Or.inr (Or.inl (List.mem_append_left _ hm))
      · exact Or.inr (Or.inr hm)
    · exact Or.inr (Or.inl (by simp))
  · intro m hm
    obtain ⟨hclosed, hlt, hrest⟩ := hrefused m hm
    exact ⟨hclosed, Nat.lt_succ_of_lt hlt, hrest⟩

theorem enter
    (h : SameOrder trace a)
    {n : ℕ}
    (hoffered : a.offered = some n)
    (hopen : a.closed = false) :
    SameOrder trace { a with offered := none, waiting := a.waiting ++ [n] } := by
  have hline : a.waiting ++ a.offered.toList = (a.waiting ++ [n]) ++ [] := by simp [hoffered]
  obtain ⟨hsorted, hbelow, htaken, haccounted, hrefused⟩ := h
  rw [hline] at hsorted hbelow htaken haccounted
  refine ⟨hsorted, hbelow, htaken, haccounted, ?_⟩
  intro m hm
  obtain ⟨hclosed, _⟩ := hrefused m hm
  simp [hopen] at hclosed

theorem refuse
    (h : SameOrder trace a)
    {n : ℕ}
    (hoffered : a.offered = some n)
    (hclosed : a.closed = true) :
    SameOrder (trace ++ [.refused n]) { a with offered := none } := by
  have hline : a.waiting ++ a.offered.toList = a.waiting ++ [n] := by simp [hoffered]
  obtain ⟨hsorted, hbelow, htaken, haccounted, hrefused⟩ := h
  rw [hline] at hsorted hbelow htaken haccounted
  have hsame : ∀ m, Taken (trace ++ [.refused n]) { a with offered := none } m ↔
      Taken trace a m := by
    simp [Taken]
  rw [List.pairwise_append] at hsorted
  refine ⟨?_, ?_, ?_, ?_, ?_⟩
  · simpa using hsorted.1
  · intro m hm
    exact hbelow m (by simpa using Or.inl hm)
  · intro m hm
    obtain ⟨hlt, hfront⟩ := htaken m ((hsame m).1 hm)
    exact ⟨hlt, fun k hk => hfront k (by simpa using Or.inl hk)⟩
  · intro m hm
    rw [hsame]
    rcases haccounted m hm with hm | hm | hm
    · exact Or.inl hm
    · rcases List.mem_append.1 hm with hm | hm
      · exact Or.inr (Or.inl (List.mem_append_left _ hm))
      · rw [List.mem_singleton] at hm
        exact Or.inr (Or.inr (by simp [hm]))
    · exact Or.inr (Or.inr (List.mem_append_left _ hm))
  · intro m hm
    rcases List.mem_append.1 hm with hm | hm
    · obtain ⟨_, hlt, hbegun, hwaiting⟩ := hrefused m hm
      exact ⟨hclosed, hlt, fun k hk => hbegun k ((hsame k).1 hk), hwaiting⟩
    · cases List.mem_singleton.1 hm
      refine ⟨hclosed, hbelow n (by simp), fun k hk => ?_, fun k hk => ?_⟩
      · exact (htaken k ((hsame k).1 hk)).2 n (by simp)
      · exact hsorted.2.2 k hk n (by simp)

theorem close
    (h : SameOrder trace a) :
    SameOrder trace { a with closed := true } where
  sorted := h.sorted
  below := h.below
  taken := h.taken
  accounted := h.accounted
  refused := fun m hm => ⟨rfl, (h.refused m hm).2⟩

/-- Whoever came before a client that has been begun has been begun, or is held. -/
theorem begun_or_held
    (h : SameOrder trace a)
    {w : ω}
    {n m : ℕ}
    (hbegun : .begun w n ∈ trace)
    (hm : m < n) :
    (∃ w', .begun w' m ∈ trace) ∨ ∃ w', a.held w' = some m := by
  have htaken : Taken trace a n := Or.inl ⟨w, hbegun⟩
  obtain ⟨hlt, hfront⟩ := h.taken n htaken
  rcases h.accounted m (hm.trans hlt) with hm' | hm' | hm'
  · exact hm'
  · exact absurd (hfront m hm') (by omega)
  · exact absurd ((h.refused m hm').2.2.1 n htaken) (by omega)

/-- Only as many clients can be overtaken as servers hold one. -/
theorem not_begun_card_le
    [Fintype ω]
    (h : SameOrder trace a)
    {w : ω}
    {n : ℕ}
    (hbegun : .begun w n ∈ trace)
    {overtaken : Finset ℕ}
    (hovertaken : ∀ m ∈ overtaken, m < n ∧ ∀ w', .begun w' m ∉ trace) :
    overtaken.card ≤ (Finset.univ.filter (fun w' => (a.held w').isSome)).card := by
  have hheld : ∀ m ∈ overtaken, ∃ w', a.held w' = some m := by
    intro m hm
    obtain ⟨hlt, hnot⟩ := hovertaken m hm
    rcases h.begun_or_held hbegun hlt with ⟨w', hw'⟩ | hheld
    · exact absurd hw' (hnot w')
    · exact hheld
  have hsubset : overtaken.image some ⊆
      (Finset.univ.filter (fun w' => (a.held w').isSome)).image a.held := by
    intro o ho
    obtain ⟨m, hm, rfl⟩ := Finset.mem_image.1 ho
    obtain ⟨w', hw'⟩ := hheld m hm
    exact Finset.mem_image.2 ⟨w', by simp [hw'], hw'⟩
  calc
    overtaken.card = (overtaken.image some).card :=
      (Finset.card_image_of_injective _ (Option.some_injective _)).symm
    _ ≤ _ := (Finset.card_le_card hsubset).trans Finset.card_image_le

variable [DecidableEq ω]

/-- Taking the first of the line passes nobody. -/
theorem take
    (h : SameOrder trace a)
    {w : ω}
    {n : ℕ}
    {rest : List ℕ}
    (hfree : a.held w = none)
    (hwaiting : a.waiting = n :: rest) :
    SameOrder trace { a with waiting := rest, held := Function.update a.held w (some n) } := by
  have hline : a.waiting ++ a.offered.toList = n :: (rest ++ a.offered.toList) := by
    simp [hwaiting]
  obtain ⟨hsorted, hbelow, htaken, haccounted, hrefused⟩ := h
  rw [hline] at hsorted hbelow htaken haccounted
  rw [hwaiting] at hrefused
  obtain ⟨hfirst, hrest⟩ := List.pairwise_cons.1 hsorted
  have hcases : ∀ m, Taken trace
      { a with waiting := rest, held := Function.update a.held w (some n) } m ↔
        Taken trace a m ∨ m = n := by
    intro m
    constructor
    · rintro (hbegun | ⟨u, hu⟩)
      · exact Or.inl (Or.inl hbegun)
      · by_cases huw : u = w
        · subst huw
          simp only [Function.update_self, Option.some.injEq] at hu
          exact Or.inr hu.symm
        · simp only [Function.update_of_ne huw] at hu
          exact Or.inl (Or.inr ⟨u, hu⟩)
    · rintro ((hbegun | ⟨u, hu⟩) | rfl)
      · exact Or.inl hbegun
      · have huw : u ≠ w := by
          rintro rfl
          simp [hfree] at hu
        exact Or.inr ⟨u, by simpa [Function.update_of_ne huw] using hu⟩
      · exact Or.inr ⟨w, by simp⟩
  refine ⟨hrest, fun m hm => hbelow m (List.mem_cons_of_mem _ hm), ?_, ?_, ?_⟩
  · intro m hm
    rcases (hcases m).1 hm with hm | rfl
    · obtain ⟨hlt, hfront⟩ := htaken m hm
      exact ⟨hlt, fun k hk => hfront k (List.mem_cons_of_mem _ hk)⟩
    · exact ⟨hbelow m List.mem_cons_self, hfirst⟩
  · intro m hm
    rw [hcases]
    rcases haccounted m hm with hm | hm | hm
    · exact Or.inl (Or.inl hm)
    · rcases List.mem_cons.1 hm with rfl | hm
      · exact Or.inl (Or.inr rfl)
      · exact Or.inr (Or.inl hm)
    · exact Or.inr (Or.inr hm)
  · intro m hm
    obtain ⟨hclosed, hlt, hbegun, hbefore⟩ := hrefused m hm
    refine ⟨hclosed, hlt, fun k hk => ?_, fun k hk => hbefore k (List.mem_cons_of_mem _ hk)⟩
    rcases (hcases k).1 hk with hk | rfl
    · exact hbegun k hk
    · exact hbefore k List.mem_cons_self

theorem begin
    (h : SameOrder trace a)
    {w : ω}
    {n : ℕ}
    (hheld : a.held w = some n) :
    SameOrder (trace ++ [.begun w n]) { a with held := Function.update a.held w none } := by
  have hsame : ∀ m, Taken (trace ++ [.begun w n])
      { a with held := Function.update a.held w none } m ↔ Taken trace a m := by
    intro m
    constructor
    · rintro (⟨u, hu⟩ | ⟨u, hu⟩)
      · rcases List.mem_append.1 hu with hu | hu
        · exact Or.inl ⟨u, hu⟩
        · cases List.mem_singleton.1 hu
          exact Or.inr ⟨w, hheld⟩
      · by_cases huw : u = w
        · subst huw
          simp at hu
        · simp only [Function.update_of_ne huw] at hu
          exact Or.inr ⟨u, hu⟩
    · rintro (⟨u, hu⟩ | ⟨u, hu⟩)
      · exact Or.inl ⟨u, List.mem_append_left _ hu⟩
      · by_cases huw : u = w
        · subst huw
          rw [hheld] at hu
          cases hu
          exact Or.inl ⟨u, by simp⟩
        · exact Or.inr ⟨u, by simpa [Function.update_of_ne huw] using hu⟩
  refine ⟨h.sorted, h.below, fun m hm => h.taken m ((hsame m).1 hm), fun m hm => ?_, ?_⟩
  · rw [hsame]
    simpa using h.accounted m hm
  · intro m hm
    have hm : .refused m ∈ trace := by simpa using hm
    obtain ⟨hclosed, hlt, hbegun, hwaiting⟩ := h.refused m hm
    exact ⟨hclosed, hlt, fun k hk => hbegun k ((hsame k).1 hk), hwaiting⟩

theorem step
    (h : SameOrder trace a)
    (hstep : Step a word a') :
    SameOrder (trace ++ word) a' := by
  cases hstep with
  | rest => simpa using h
  | arrive hoffered => simpa using h.arrive hoffered
  | enter hoffered hopen => simpa using h.enter hoffered hopen
  | refuse hoffered hclosed => exact h.refuse hoffered hclosed
  | close => simpa using h.close
  | take hfree hwaiting => simpa using h.take hfree hwaiting
  | start hheld => exact h.begin hheld

theorem of_run
    (hrun : Run Step ({} : State ω) trace a) :
    SameOrder trace a :=
  hrun.invariant SameOrder start (fun _ _ _ _ h hstep => h.step hstep)

end SameOrder

end ServiceOrder
