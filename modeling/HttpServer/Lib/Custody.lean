import HttpServer.Lib.Transition

/-!
# Custody of resources

A resource is taken into custody by a holder, may be passed to another one, and is
given up or disposed of.  That it has one holder at a time is the type of the state;
what the history of a resource says about its custody is proved here.

* `Step`: custody as a transition system;
* `last`: the last thing that happened to a resource;
* `Ledger`: a resource is held exactly if the last thing that happened to it is that it
  was taken, and only what was taken last is given up or disposed of;
* `Ledger.taken_between`: between two disposals it was taken again.
-/

namespace Custody

open Transition

universe u v

inductive Event (κ : Type u)
  | taken (k : κ)
  | given (k : κ)
  | disposed (k : κ)

/-- The resource that an event is about. -/
def Event.key {κ : Type u} : Event κ → κ
  | .taken k => k
  | .given k => k
  | .disposed k => k

@[simp] theorem Event.key_taken {κ : Type u} (k : κ) : (Event.taken k).key = k := rfl

@[simp] theorem Event.key_given {κ : Type u} (k : κ) : (Event.given k).key = k := rfl

@[simp] theorem Event.key_disposed {κ : Type u} (k : κ) : (Event.disposed k).key = k := rfl

section Histories

variable {κ : Type u} {ι : Type v} [DecidableEq κ]

/-- The state maps each resource to its holder. -/
inductive Step : (κ → Option ι) → List (Event κ) → (κ → Option ι) → Prop
  | take {holder : κ → Option ι} {k : κ} {o : ι}
      (hfree : ∀ p, holder k = some p → p = o) :
      Step holder [.taken k] (Function.update holder k (some o))
  | pass {holder : κ → Option ι} {k : κ} {o p : ι}
      (hheld : holder k = some o) :
      Step holder [] (Function.update holder k (some p))
  | give {holder : κ → Option ι} {k : κ} {o : ι}
      (hheld : holder k = some o) :
      Step holder [.given k] (Function.update holder k none)
  | dispose {holder : κ → Option ι} {k : κ} {o : ι}
      (hheld : holder k = some o) :
      Step holder [.disposed k] (Function.update holder k none)

/-- The last event of a history that is about a resource. -/
def last (k : κ) (trace : List (Event κ)) : Option (Event κ) :=
  (trace.filter (fun e => e.key = k)).getLast?

@[simp] theorem last_nil (k : κ) : last k ([] : List (Event κ)) = none := rfl

theorem last_concat
    (k : κ)
    (trace : List (Event κ))
    (e : Event κ) :
    last k (trace ++ [e]) = if e.key = k then some e else last k trace := by
  unfold last
  rw [List.filter_append]
  by_cases hkey : e.key = k
  · simp [hkey]
  · simp [hkey]

theorem last_append_of_ne
    {k : κ}
    {trace word : List (Event κ)}
    (h : ∀ e ∈ word, e.key ≠ k) :
    last k (trace ++ word) = last k trace := by
  have hnone : word.filter (fun e => e.key = k) = [] :=
    List.filter_eq_nil_iff.2 (by simpa using h)
  rw [last, List.filter_append, hnone, List.append_nil, last]

theorem mem_of_last
    {k : κ}
    {trace : List (Event κ)}
    {e : Event κ}
    (h : last k trace = some e) :
    e ∈ trace ∧ e.key = k := by
  simpa using List.mem_filter.1 (List.mem_of_getLast? h)

/-- The last event behind another one about the same resource, unless there is none. -/
theorem last_append_cons
    {k : κ}
    (front back : List (Event κ))
    {e : Event κ}
    (hkey : e.key = k) :
    last k (front ++ e :: back) = (last k back).or (some e) := by
  unfold last
  rw [List.filter_append, List.filter_cons_of_pos (by simpa using hkey), List.getLast?_append,
    List.getLast?_cons]
  cases (back.filter (fun e => e.key = k)).getLast? <;> rfl

theorem last_ne_none_of_mem
    {trace : List (Event κ)}
    {e : Event κ}
    (h : e ∈ trace) :
    last e.key trace ≠ none := by
  obtain ⟨front, back, rfl⟩ := List.append_of_mem h
  rw [last_append_cons front back rfl]
  cases last e.key back <;> simp

/-- What a history says about who holds what. -/
structure Ledger (trace : List (Event κ)) (holder : κ → Option ι) : Prop where
  held : ∀ k, (∃ o, holder k = some o) ↔ last k trace = some (.taken k)
  kept : ∀ front e back, trace = front ++ e :: back → (∀ k, e ≠ .taken k) →
    last e.key front = some (.taken e.key)

namespace Ledger

variable {trace word : List (Event κ)} {holder holder' : κ → Option ι}

theorem start : Ledger [] (fun _ : κ => (none : Option ι)) where
  held k := by simp
  kept front e back h := by simp at h

/-- An event about one resource says nothing about the others. -/
theorem concat
    (h : Ledger trace holder)
    {e : Event κ}
    {x : Option ι}
    (hx : (∃ o, x = some o) ↔ e = .taken e.key)
    (hkept : (∀ k, e ≠ .taken k) → ∃ o, holder e.key = some o) :
    Ledger (trace ++ [e]) (Function.update holder e.key x) where
  held k := by
    rw [last_concat]
    by_cases hkey : e.key = k
    · subst hkey
      simpa using hx
    · rw [if_neg hkey, Function.update_of_ne (Ne.symm hkey)]
      exact h.held k
  kept front e' back hsplit htaken := by
    cases back using List.reverseRecOn with
    | nil =>
        obtain ⟨rfl, hlast⟩ := List.append_inj' hsplit rfl
        obtain rfl := List.singleton_inj.1 hlast
        exact (h.held _).1 (hkept htaken)
    | append_singleton back e'' =>
        rw [← List.cons_append, ← List.append_assoc] at hsplit
        exact h.kept front e' back (List.append_inj' hsplit rfl).1 htaken

theorem step
    (h : Ledger trace holder)
    (hstep : Step holder word holder') :
    Ledger (trace ++ word) holder' := by
  cases hstep with
  | @take k o hfree => exact h.concat (e := .taken k) (by simp) (fun hne => absurd rfl (hne k))
  | @pass k o p hheld =>
      rw [List.append_nil]
      refine ⟨fun k' => ?_, h.kept⟩
      by_cases hk : k' = k
      · subst hk
        simpa using (h.held k').1 ⟨o, hheld⟩
      · rw [Function.update_of_ne hk]
        exact h.held k'
  | @give k o hheld => exact h.concat (e := .given k) (by simp) (fun _ => ⟨o, hheld⟩)
  | @dispose k o hheld => exact h.concat (e := .disposed k) (by simp) (fun _ => ⟨o, hheld⟩)

theorem of_run
    (hrun : Run Step (fun _ : κ => (none : Option ι)) trace holder) :
    Ledger trace holder :=
  hrun.invariant Ledger start (fun _ _ _ _ => step)

/-- What is given up or disposed of has been taken. -/
theorem taken_mem
    (h : Ledger trace holder)
    {e : Event κ}
    (he : e ∈ trace) :
    .taken e.key ∈ trace := by
  cases e with
  | taken k => exact he
  | given k | disposed k =>
      obtain ⟨front, back, rfl⟩ := List.append_of_mem he
      have htaken := (mem_of_last (h.kept front _ back rfl (by simp))).1
      exact List.mem_append_left _ htaken

/-- What is disposed of twice has been taken in between. -/
theorem taken_between
    (h : Ledger trace holder)
    {front mid back : List (Event κ)}
    {k : κ}
    (hsplit : trace = front ++ .disposed k :: mid ++ .disposed k :: back) :
    .taken k ∈ mid := by
  have hlast := h.kept _ _ _ hsplit (by simp)
  rw [Event.key_disposed, last_append_cons front mid (Event.key_disposed k)] at hlast
  cases hmid : last k mid with
  | none => simp [hmid] at hlast
  | some e =>
      rw [hmid, Option.some_or, Option.some.injEq] at hlast
      subst hlast
      exact (mem_of_last hmid).1

end Ledger

end Histories

end Custody
