import HttpServer.Server

/-!
# Objects that own descriptors

Any number of `Fd` objects are made, moved, reset, released and destroyed, in any
order, while the operating system opens descriptors and reuses their numbers.  The
one thing asked of the program is that a raw descriptor is handed to an object only
while it is open and no other object owns it.

* `Executes`: what each operation does;
* `run_move_of_step`: an operation is a sequence of moves, each of which touches the
  ownership of one descriptor;
* `worldInv_move`: what is owned stays open and has one owner;
* `owns_of_closed`: an object closes what it owns itself.
-/

namespace HttpServer

open Transition

universe u

section Worlds

/-- The operations on `Fd` objects, which are named by `ι`. -/
inductive FdOp (ι : Type u)
  | construct (o : ι) (fd : Int)
  | moveConstruct (o other : ι)
  | moveAssign (o other : ι)
  | release (o : ι)
  | reset (o : ι) (fd : Int)
  | destroy (o : ι)

inductive FdEvent (ι : Type u)
  | opened (serial : Nat) (number : Int)
  | closedElsewhere (serial : Nat) (number : Int)
  | handedIn (o : ι) (serial : Nat) (number : Int)
  | released (o : ι) (serial : Nat) (number : Int)
  | closed (o : ι) (serial : Nat) (number : Int)
  | badClose (o : ι) (number : Int)

/-- The objects that are alive, and the open descriptors. -/
structure FdWorld (ι : Type u) where
  objects : ι → Option Fd
  os : Descriptors

namespace FdWorld

variable {ι : Type u}

/-- No object has been made, and no descriptor opened. -/
def start : FdWorld ι where
  objects := fun _ => none
  os := {}

/-- A live object owns a number. -/
def Owns (s : FdWorld ι) (o : ι) (number : Int) : Prop :=
  ∃ f, s.objects o = some f ∧ f.fd = number ∧ 0 ≤ number

/-- What is in the place of an object owns nothing. -/
def OwnsNothing (x : Option Fd) : Prop :=
  ∀ f, x = some f → f.fd < 0

theorem owns_of_object
    {s : FdWorld ι}
    {o : ι}
    {f : Fd}
    (hobject : s.objects o = some f)
    (number : Int) :
    s.Owns o number ↔ f.fd = number ∧ 0 ≤ number := by
  simp [Owns, hobject]

theorem not_owns_of_ownsNothing
    {s : FdWorld ι}
    {o : ι}
    (h : OwnsNothing (s.objects o))
    (number : Int) :
    ¬ s.Owns o number := by
  rintro ⟨f, hobject, rfl, hvalid⟩
  have hneg := h f hobject
  omega

/-- A raw descriptor is handed in, unless the number is no descriptor. -/
def handIn (os : Descriptors) (o : ι) (fd : Int) : List (FdEvent ι) :=
  if 0 ≤ fd then
    match os.lookup fd with
    | some serial => [.handedIn o serial fd]
    | none => []
  else
    []

/-- A raw descriptor is taken out. -/
def takeOut (os : Descriptors) (o : ι) (f : Fd) : List (FdEvent ι) :=
  if f.valid then
    match os.lookup f.fd with
    | some serial => [.released o serial f.fd]
    | none => []
  else
    []

/-- What an object reports of the system calls that it makes. -/
def reported (o : ι) (number : Int) : DescriptorEvent → FdEvent ι
  | .accepted serial n => .opened serial n
  | .closed serial => .closed o serial number
  | .badClose n => .badClose o n

/-- `Fd::reset` on an object: the descriptors and the events behind it. -/
def resets (os : Descriptors) (o : ι) (f : Fd) (fd : Int) : Descriptors × List (FdEvent ι) :=
  ((f.reset fd os).1, (f.reset fd os).2.map (reported o f.fd))

variable [DecidableEq ι]

/-- Move from one object to another, which then owns what the first one did. -/
def moveInto (objects : ι → Option Fd) (o other : ι) (g : Fd) : ι → Option Fd :=
  Function.update (Function.update objects other (some g.movedFrom)) o (some g.moved)

/-- An operation on objects that are alive, or not yet alive, as it needs. -/
def exec (s : FdWorld ι) : FdOp ι → Option (FdWorld ι × List (FdEvent ι))
  | .construct o fd =>
      match s.objects o with
      | none =>
          some ({ s with objects := Function.update s.objects o (some ⟨fd⟩) }, handIn s.os o fd)
      | some _ => none
  | .moveConstruct o other =>
      match s.objects o, s.objects other with
      | none, some g =>
          some ({ s with objects := moveInto s.objects o other g }, [])
      | _, _ => none
  | .moveAssign o other =>
      match s.objects o, s.objects other with
      | some f, some g =>
          if o = other then
            some (s, [])
          else
            let closed := resets s.os o f (-1)
            some (⟨moveInto s.objects o other g, closed.1⟩, closed.2)
      | _, _ => none
  | .release o =>
      match s.objects o with
      | some f =>
          some ({ s with objects := Function.update s.objects o (some Fd.none) },
            takeOut s.os o f)
      | none => none
  | .reset o fd =>
      match s.objects o with
      | some f =>
          let closed := resets s.os o f fd
          some (⟨Function.update s.objects o (some ⟨fd⟩), closed.1⟩,
            closed.2 ++ handIn closed.1 o fd)
      | none => none
  | .destroy o =>
      match s.objects o with
      | some f =>
          let closed := resets s.os o f (-1)
          some (⟨Function.update s.objects o none, closed.1⟩, closed.2)
      | none => none

/-- A number may be handed to an object: it is negative, or open and owned by no other one. -/
def MayHandIn (s : FdWorld ι) (o : ι) (fd : Int) : Prop :=
  0 ≤ fd → (∃ serial, s.os.lookup fd = some serial) ∧ ∀ p, p ≠ o → ¬ s.Owns p fd

def Permitted (s : FdWorld ι) : FdOp ι → Prop
  | .construct o fd => s.MayHandIn o fd
  | .reset o fd => s.MayHandIn o fd
  | _ => True

/--
The program operates on its objects; the operating system opens descriptors under
numbers that are free, and descriptors that no object owns may be closed elsewhere.
-/
inductive Step : FdWorld ι → List (FdEvent ι) → FdWorld ι → Prop
  | operates {s s' : FdWorld ι} {op : FdOp ι} {word : List (FdEvent ι)}
      (hpermitted : s.Permitted op)
      (hexec : s.exec op = some (s', word)) :
      Step s word s'
  | opens {s : FdWorld ι} {number : Int}
      (hnumber : 0 ≤ number)
      (hfree : s.os.lookup number = none) :
      Step s [.opened s.os.next number] { s with os := s.os.accept number }
  | closesElsewhere {s : FdWorld ι} {number : Int} {serial : Nat}
      (hopen : s.os.lookup number = some serial)
      (hunowned : ∀ o, ¬ s.Owns o number) :
      Step s [.closedElsewhere serial number] { s with os := (s.os.close number).1 }

end FdWorld

end Worlds

section Tables

namespace Descriptors

variable {os : Descriptors} {number : Int} {serial : Nat}

theorem mem_of_lookup
    (h : os.lookup number = some serial) :
    (number, serial) ∈ os.table := by
  obtain ⟨front, back, htable, _⟩ := List.lookup_eq_some_iff.1 h
  simp [htable]

theorem lookup_accept
    (os : Descriptors)
    (number n : Int) :
    (os.accept number).lookup n = if n = number then some os.next else os.lookup n := by
  unfold accept lookup
  rw [List.lookup_cons]
  by_cases hn : n = number
  · simp [hn]
  · simp [hn, beq_eq_false_iff_ne.2 hn]

theorem close_of_open
    (h : os.lookup number = some serial) :
    os.close number =
      ({ os with table := os.table.filter (fun e => e.1 ≠ number) }, [.closed serial]) := by
  simp [close, h]

theorem lookup_filter
    (table : List (Int × Nat))
    (number n : Int) :
    (table.filter (fun e => e.1 ≠ number)).lookup n =
      if n = number then none else table.lookup n := by
  induction table with
  | nil => simp
  | cons entry table ih =>
      by_cases hentry : entry.1 = number
      · rw [List.filter_cons_of_neg (by simp [hentry]), ih, List.lookup_cons]
        by_cases hn : n = number
        · simp [hn]
        · simp [hn, hentry, beq_eq_false_iff_ne.2 hn]
      · rw [List.filter_cons_of_pos (by simp [hentry]), List.lookup_cons, List.lookup_cons, ih]
        by_cases hn : n = entry.1
        · simp [hn, hentry]
        · simp [beq_eq_false_iff_ne.2 hn]

theorem lookup_close
    (h : os.lookup number = some serial)
    (n : Int) :
    (os.close number).1.lookup n = if n = number then none else os.lookup n := by
  rw [close_of_open h]
  exact lookup_filter os.table number n

end Descriptors

end Tables

namespace FdWorld

variable {ι : Type u} {s s' : FdWorld ι} {word : List (FdEvent ι)}

section Invariant

/-- The table of open descriptors has no number and no serial number twice. -/
structure TableInv (os : Descriptors) : Prop where
  numbers : ∀ d ∈ os.table, ∀ d' ∈ os.table, d.1 = d'.1 → d = d'
  serials : ∀ d ∈ os.table, ∀ d' ∈ os.table, d.2 = d'.2 → d = d'
  fresh : ∀ d ∈ os.table, d.2 < os.next

/-- What is owned is open and has one owner. -/
structure WorldInv (s : FdWorld ι) : Prop where
  table : TableInv s.os
  opened : ∀ o number, s.Owns o number → ∃ serial, s.os.lookup number = some serial
  exclusive : ∀ o p number, s.Owns o number → s.Owns p number → o = p

theorem TableInv.close
    {os : Descriptors}
    (h : TableInv os)
    {number : Int}
    {serial : Nat}
    (hopen : os.lookup number = some serial) :
    TableInv (os.close number).1 := by
  rw [Descriptors.close_of_open hopen]
  exact
    { numbers := fun d hd d' hd' =>
        h.numbers d (List.mem_filter.1 hd).1 d' (List.mem_filter.1 hd').1
      serials := fun d hd d' hd' =>
        h.serials d (List.mem_filter.1 hd).1 d' (List.mem_filter.1 hd').1
      fresh := fun d hd => h.fresh d (List.mem_filter.1 hd).1 }

theorem TableInv.accept
    {os : Descriptors}
    (h : TableInv os)
    {number : Int}
    (hfree : os.lookup number = none) :
    TableInv (os.accept number) := by
  have hnew : ∀ d ∈ os.table, d.1 ≠ number := by
    intro d hd
    have hne := List.lookup_eq_none_iff.1 hfree d hd
    exact fun heq => by simp [heq] at hne
  refine ⟨?_, ?_, ?_⟩
  · rintro d (_ | ⟨_, hd⟩) d' (_ | ⟨_, hd'⟩) heq
    · rfl
    · exact absurd heq.symm (hnew d' hd')
    · exact absurd heq (hnew d hd)
    · exact h.numbers d hd d' hd' heq
  · rintro d (_ | ⟨_, hd⟩) d' (_ | ⟨_, hd'⟩) heq
    · rfl
    · exact absurd heq.symm (Nat.ne_of_lt (h.fresh d' hd'))
    · exact absurd heq (Nat.ne_of_lt (h.fresh d hd))
    · exact h.serials d hd d' hd' heq
  · rintro d (_ | ⟨_, hd⟩)
    · exact Nat.lt_succ_self _
    · exact Nat.lt_succ_of_lt (h.fresh d hd)

theorem worldInv_start : WorldInv (start : FdWorld ι) where
  table := ⟨by simp [start], by simp [start], by simp [start]⟩
  opened := by simp [Owns, start]
  exclusive := by simp [Owns, start]

/-- No object comes to own anything, and what is still owned stays open. -/
theorem WorldInv.of_owns
    (h : WorldInv s)
    (htable : TableInv s'.os)
    (howns : ∀ p number, s'.Owns p number → s.Owns p number)
    (hlookup : ∀ p number, s'.Owns p number → s'.os.lookup number = s.os.lookup number) :
    WorldInv s' where
  table := htable
  opened p number hp := by
    rw [hlookup p number hp]
    exact h.opened p number (howns p number hp)
  exclusive p q number hp hq := h.exclusive p q number (howns p number hp) (howns q number hq)

theorem WorldInv.not_owns_of_free
    (h : WorldInv s)
    {number : Int}
    (hfree : s.os.lookup number = none)
    (o : ι) :
    ¬ s.Owns o number := by
  intro ho
  obtain ⟨serial, hopen⟩ := h.opened o number ho
  simp [hfree] at hopen

end Invariant

variable [DecidableEq ι]

section Moves

/-- The moves that operations consist of, and those of the operating system. -/
inductive Move : FdWorld ι → List (FdEvent ι) → FdWorld ι → Prop
  | adjust {s : FdWorld ι} {o : ι} {x : Option Fd}
      (hbefore : OwnsNothing (s.objects o))
      (hafter : OwnsNothing x) :
      Move s [] { s with objects := Function.update s.objects o x }
  | take {s : FdWorld ι} {o : ι} {fd : Int} {serial : Nat}
      (hvalid : 0 ≤ fd)
      (hopen : s.os.lookup fd = some serial)
      (hself : ∀ number, s.Owns o number → number = fd)
      (hothers : ∀ p, p ≠ o → ¬ s.Owns p fd) :
      Move s [.handedIn o serial fd]
        { s with objects := Function.update s.objects o (some ⟨fd⟩) }
  | pass {s : FdWorld ι} {o other : ι} {g : Fd}
      (hself : OwnsNothing (s.objects o))
      (hne : o ≠ other)
      (hother : s.objects other = some g)
      (hvalid : 0 ≤ g.fd) :
      Move s [] { s with objects := moveInto s.objects o other g }
  | give {s : FdWorld ι} {o : ι} {f : Fd} {serial : Nat}
      (hobject : s.objects o = some f)
      (hvalid : 0 ≤ f.fd)
      (hopen : s.os.lookup f.fd = some serial) :
      Move s [.released o serial f.fd]
        { s with objects := Function.update s.objects o (some Fd.none) }
  | close {s : FdWorld ι} {o : ι} {f : Fd} {serial : Nat} {x : Option Fd}
      (hobject : s.objects o = some f)
      (hvalid : 0 ≤ f.fd)
      (hopen : s.os.lookup f.fd = some serial)
      (hafter : OwnsNothing x) :
      Move s [.closed o serial f.fd]
        { objects := Function.update s.objects o x, os := (s.os.close f.fd).1 }
  | opens {s : FdWorld ι} {number : Int}
      (hnumber : 0 ≤ number)
      (hfree : s.os.lookup number = none) :
      Move s [.opened s.os.next number] { s with os := s.os.accept number }
  | closesElsewhere {s : FdWorld ι} {number : Int} {serial : Nat}
      (hopen : s.os.lookup number = some serial)
      (hunowned : ∀ o, ¬ s.Owns o number) :
      Move s [.closedElsewhere serial number] { s with os := (s.os.close number).1 }

/-- Owning is changed for the object that is written to. -/
theorem owns_update
    (objects : ι → Option Fd)
    (os : Descriptors)
    (o p : ι)
    (x : Option Fd)
    (number : Int) :
    (⟨Function.update objects o x, os⟩ : FdWorld ι).Owns p number ↔
      if p = o then ∃ f, x = some f ∧ f.fd = number ∧ 0 ≤ number
      else (⟨objects, os⟩ : FdWorld ι).Owns p number := by
  unfold Owns
  by_cases hp : p = o
  · subst hp
    simp
  · simp [hp]

theorem owns_moveInto
    (objects : ι → Option Fd)
    (os : Descriptors)
    (o other p : ι)
    (g : Fd)
    (number : Int) :
    (⟨moveInto objects o other g, os⟩ : FdWorld ι).Owns p number ↔
      if p = o then g.fd = number ∧ 0 ≤ number
      else p ≠ other ∧ (⟨objects, os⟩ : FdWorld ι).Owns p number := by
  rw [moveInto, owns_update, owns_update]
  by_cases hp : p = o
  · simp [hp, Fd.moved]
  · by_cases hother : p = other
    · subst hother
      simp only [if_neg hp, if_true, ne_eq, not_true_eq_false, false_and, iff_false]
      rintro ⟨f, hf, hnumber, hvalid⟩
      cases hf
      simp only [Fd.movedFrom] at hnumber
      omega
    · simp [hp, hother]

/-- An object that is written to, and then owns nothing. -/
theorem owns_update_nothing_iff
    {objects : ι → Option Fd}
    {os os' : Descriptors}
    {o p : ι}
    {x : Option Fd}
    (hx : OwnsNothing x)
    {number : Int} :
    (⟨Function.update objects o x, os'⟩ : FdWorld ι).Owns p number ↔
      p ≠ o ∧ (⟨objects, os⟩ : FdWorld ι).Owns p number := by
  rw [owns_update]
  by_cases hp : p = o
  · rw [if_pos hp]
    refine iff_of_false ?_ (fun h => h.1 hp)
    rintro ⟨f, hf, rfl, hvalid⟩
    have hneg := hx f hf
    omega
  · rw [if_neg hp]
    exact ⟨fun h => ⟨hp, h⟩, fun h => h.2⟩

theorem ownsNothing_none : OwnsNothing (some Fd.none) := by
  rintro f hf
  cases hf
  decide

theorem worldInv_move
    (h : WorldInv s)
    (hmove : Move s word s') :
    WorldInv s' := by
  cases hmove with
  | adjust _ hafter =>
      exact h.of_owns h.table (fun _ _ hp => ((owns_update_nothing_iff hafter).1 hp).2)
        (fun _ _ _ => rfl)
  | @take o fd serial hvalid hopen hself hothers =>
      refine ⟨h.table, fun p number hp => ?_, fun p q number hp hq => ?_⟩
      · rw [owns_update] at hp
        split at hp
        next =>
          obtain ⟨f, hf, rfl, _⟩ := hp
          cases hf
          exact ⟨serial, hopen⟩
        next => exact h.opened p number hp
      · rw [owns_update] at hp hq
        split at hp <;> split at hq
        next hpo hqo => rw [hpo, hqo]
        next hpo hqo =>
          obtain ⟨f, hf, rfl, _⟩ := hp
          cases hf
          exact absurd hq (hothers q hqo)
        next hpo hqo =>
          obtain ⟨f, hf, rfl, _⟩ := hq
          cases hf
          exact absurd hp (hothers p hpo)
        next => exact h.exclusive p q number hp hq
  | @pass o other g hself hne hother hvalid =>
      have hg := (owns_of_object hother g.fd).2 ⟨rfl, hvalid⟩
      refine ⟨h.table, fun p number hp => ?_, fun p q number hp hq => ?_⟩
      · rw [owns_moveInto] at hp
        split at hp
        next =>
          obtain ⟨rfl, _⟩ := hp
          exact h.opened other g.fd hg
        next => exact h.opened p number hp.2
      · rw [owns_moveInto] at hp hq
        split at hp <;> split at hq
        next hpo hqo => rw [hpo, hqo]
        next hpo hqo =>
          obtain ⟨rfl, _⟩ := hp
          exact absurd (h.exclusive q other _ hq.2 hg) hq.1
        next hpo hqo =>
          obtain ⟨rfl, _⟩ := hq
          exact absurd (h.exclusive p other _ hp.2 hg) hp.1
        next => exact h.exclusive p q number hp.2 hq.2
  | give _ _ _ =>
      exact h.of_owns h.table (fun _ _ hp => ((owns_update_nothing_iff ownsNothing_none).1 hp).2)
        (fun _ _ _ => rfl)
  | @close o f serial x hobject hvalid hopen hafter =>
      refine h.of_owns (h.table.close hopen)
        (fun _ _ hp => ((owns_update_nothing_iff hafter).1 hp).2) (fun p number hp => ?_)
      obtain ⟨hpo, hp⟩ : p ≠ o ∧ s.Owns p number := (owns_update_nothing_iff hafter).1 hp
      have hnumber : number ≠ f.fd := by
        rintro rfl
        exact hpo (h.exclusive p o _ hp ((owns_of_object hobject _).2 ⟨rfl, hvalid⟩))
      rw [Descriptors.lookup_close hopen, if_neg hnumber]
  | @opens number _ hfree =>
      refine h.of_owns (h.table.accept hfree) (fun _ _ hp => hp) (fun p n hp => ?_)
      have hn : n ≠ number := by
        rintro rfl
        exact h.not_owns_of_free hfree p hp
      rw [Descriptors.lookup_accept, if_neg hn]
  | @closesElsewhere number serial hopen hunowned =>
      refine h.of_owns (h.table.close hopen) (fun _ _ hp => hp) (fun p n hp => ?_)
      have hn : n ≠ number := by
        rintro rfl
        exact hunowned p hp
      rw [Descriptors.lookup_close hopen, if_neg hn]

end Moves

section Operations

/-- What each operation does, on objects for which it is possible. -/
inductive Executes (s : FdWorld ι) : FdOp ι → FdWorld ι → List (FdEvent ι) → Prop
  | construct {o : ι} {fd : Int}
      (hobject : s.objects o = none) :
      Executes s (.construct o fd)
        { s with objects := Function.update s.objects o (some ⟨fd⟩) } (handIn s.os o fd)
  | moveConstruct {o other : ι} {g : Fd}
      (hobject : s.objects o = none)
      (hother : s.objects other = some g) :
      Executes s (.moveConstruct o other) { s with objects := moveInto s.objects o other g } []
  | selfAssign {o : ι} {f : Fd}
      (hobject : s.objects o = some f) :
      Executes s (.moveAssign o o) s []
  | moveAssign {o other : ι} {f g : Fd}
      (hobject : s.objects o = some f)
      (hother : s.objects other = some g)
      (hne : o ≠ other) :
      Executes s (.moveAssign o other)
        ⟨moveInto s.objects o other g, (resets s.os o f (-1)).1⟩ (resets s.os o f (-1)).2
  | release {o : ι} {f : Fd}
      (hobject : s.objects o = some f) :
      Executes s (.release o)
        { s with objects := Function.update s.objects o (some Fd.none) } (takeOut s.os o f)
  | reset {o : ι} {fd : Int} {f : Fd}
      (hobject : s.objects o = some f) :
      Executes s (.reset o fd)
        ⟨Function.update s.objects o (some ⟨fd⟩), (resets s.os o f fd).1⟩
        ((resets s.os o f fd).2 ++ handIn (resets s.os o f fd).1 o fd)
  | destroy {o : ι} {f : Fd}
      (hobject : s.objects o = some f) :
      Executes s (.destroy o)
        ⟨Function.update s.objects o none, (resets s.os o f (-1)).1⟩ (resets s.os o f (-1)).2

theorem executes_of_exec
    {op : FdOp ι}
    (h : s.exec op = some (s', word)) :
    Executes s op s' word := by
  cases op with
  | construct o fd =>
      cases hobject : s.objects o with
      | some f => simp [exec, hobject] at h
      | none =>
          simp only [exec, hobject] at h
          cases h
          exact .construct hobject
  | moveConstruct o other =>
      cases hobject : s.objects o with
      | some f => simp [exec, hobject] at h
      | none =>
          cases hother : s.objects other with
          | none => simp [exec, hobject, hother] at h
          | some g =>
              simp only [exec, hobject, hother] at h
              cases h
              exact .moveConstruct hobject hother
  | moveAssign o other =>
      cases hobject : s.objects o with
      | none => simp [exec, hobject] at h
      | some f =>
          cases hother : s.objects other with
          | none => simp [exec, hobject, hother] at h
          | some g =>
              simp only [exec, hobject, hother] at h
              split at h
              next hsame =>
                cases h
                subst hsame
                exact .selfAssign hobject
              next hne =>
                cases h
                exact .moveAssign hobject hother hne
  | release o =>
      cases hobject : s.objects o with
      | none => simp [exec, hobject] at h
      | some f =>
          simp only [exec, hobject] at h
          cases h
          exact .release hobject
  | reset o fd =>
      cases hobject : s.objects o with
      | none => simp [exec, hobject] at h
      | some f =>
          simp only [exec, hobject] at h
          cases h
          exact .reset hobject
  | destroy o =>
      cases hobject : s.objects o with
      | none => simp [exec, hobject] at h
      | some f =>
          simp only [exec, hobject] at h
          cases h
          exact .destroy hobject

/-- Handing a number to an object that owns nothing. -/
theorem run_handIn
    {o : ι}
    {fd : Int}
    (hself : OwnsNothing (s.objects o))
    (hmay : s.MayHandIn o fd) :
    Run Move s (handIn s.os o fd)
      { s with objects := Function.update s.objects o (some ⟨fd⟩) } := by
  unfold handIn
  split
  next hvalid =>
    obtain ⟨⟨serial, hopen⟩, hothers⟩ := hmay hvalid
    rw [hopen]
    exact Run.refl.tail (.take hvalid hopen
      (fun number ho => absurd ho (not_owns_of_ownsNothing hself number)) hothers)
  next hneg =>
    refine Run.refl.tail (.adjust hself ?_)
    rintro f hf
    cases hf
    exact Int.not_le.1 hneg

/-- Moving from one object to another one that owns nothing. -/
theorem run_moveInto
    {o other : ι}
    {g : Fd}
    (hself : OwnsNothing (s.objects o))
    (hne : o ≠ other)
    (hother : s.objects other = some g) :
    Run Move s [] { s with objects := moveInto s.objects o other g } := by
  by_cases hvalid : 0 ≤ g.fd
  · exact Run.refl.tail (.pass hself hne hother hvalid)
  · -- an object that owns nothing is moved from: both objects are only written to
    have hnothing : OwnsNothing (some g) := by
      rintro f hf
      cases hf
      exact Int.not_le.1 hvalid
    have hfirst : Move s [] { s with
        objects := Function.update s.objects other (some g.movedFrom) } :=
      .adjust (hother ▸ hnothing) ownsNothing_none
    refine (Run.refl.tail hfirst).tail (.adjust ?_ hnothing)
    dsimp only
    rwa [Function.update_of_ne hne]

/-- Resetting an object to another number closes what it owns. -/
theorem run_resets
    (h : WorldInv s)
    {o : ι}
    {f : Fd}
    (hobject : s.objects o = some f)
    {fd : Int}
    (hchanges : 0 ≤ f.fd → f.fd ≠ fd)
    {x : Option Fd}
    (hx : OwnsNothing x) :
    Run Move s (resets s.os o f fd).2
      ⟨Function.update s.objects o x, (resets s.os o f fd).1⟩ := by
  unfold resets Fd.reset
  by_cases hvalid : 0 ≤ f.fd
  · obtain ⟨serial, hopen⟩ := h.opened o f.fd ((owns_of_object hobject f.fd).2 ⟨rfl, hvalid⟩)
    have hclose : Move s [.closed o serial f.fd] _ := .close hobject hvalid hopen hx
    rw [if_pos ⟨hvalid, hchanges hvalid⟩, Descriptors.close_of_open hopen] at *
    exact Run.refl.tail hclose
  · rw [if_neg (fun hboth => hvalid hboth.1)]
    refine Run.refl.tail (.adjust ?_ hx)
    rintro f' hf'
    rw [hobject] at hf'
    cases hf'
    exact Int.not_le.1 hvalid

/-- Another object keeps what it owns when one is reset. -/
theorem mayHandIn_of_resets
    (h : WorldInv s)
    {o : ι}
    {f : Fd}
    (hobject : s.objects o = some f)
    {fd : Int}
    (hmay : s.MayHandIn o fd) :
    (⟨Function.update s.objects o (some Fd.none), (resets s.os o f fd).1⟩ : FdWorld ι).MayHandIn o
      fd := by
  intro hvalid
  obtain ⟨⟨serial, hopen⟩, hothers⟩ := hmay hvalid
  refine ⟨⟨serial, ?_⟩, fun p hp hown => ?_⟩
  · unfold resets Fd.reset
    split
    next hclose =>
      obtain ⟨serial', hopen'⟩ := h.opened o f.fd ((owns_of_object hobject f.fd).2 ⟨rfl, hclose.1⟩)
      rw [← hopen]
      exact (Descriptors.lookup_close hopen' fd).trans (if_neg (Ne.symm hclose.2))
    next => exact hopen
  · exact hothers p hp ((owns_update_nothing_iff ownsNothing_none).1 hown).2

/-- Resetting an object to a number that may be handed to it, or to the one it owns. -/
theorem run_reset
    (h : WorldInv s)
    {o : ι}
    {f : Fd}
    (hobject : s.objects o = some f)
    {fd : Int}
    (hmay : s.MayHandIn o fd) :
    Run Move s ((resets s.os o f fd).2 ++ handIn (resets s.os o f fd).1 o fd)
      ⟨Function.update s.objects o (some ⟨fd⟩), (resets s.os o f fd).1⟩ := by
  by_cases hsame : 0 ≤ fd ∧ f.fd = fd
  · obtain ⟨hvalid, rfl⟩ := hsame
    obtain ⟨⟨serial, hopen⟩, hothers⟩ := hmay hvalid
    have hresets : resets s.os o f f.fd = (s.os, []) := by simp [resets, Fd.reset]
    rw [hresets]
    simp only [handIn, if_pos hvalid, hopen]
    refine Run.refl.tail (.take hvalid hopen (fun number ho => ?_) hothers)
    exact ((owns_of_object hobject number).1 ho).1.symm
  · have hclosed : Run Move s (resets s.os o f fd).2
        ⟨Function.update s.objects o (some Fd.none), (resets s.os o f fd).1⟩ :=
      run_resets h hobject (by omega) ownsNothing_none
    have hhanded := run_handIn (by simp [ownsNothing_none]) (mayHandIn_of_resets h hobject hmay)
    simpa using hclosed.trans hhanded

/-- Releasing gives up what the object owns. -/
theorem run_takeOut
    (h : WorldInv s)
    {o : ι}
    {f : Fd}
    (hobject : s.objects o = some f) :
    Run Move s (takeOut s.os o f)
      { s with objects := Function.update s.objects o (some Fd.none) } := by
  unfold takeOut Fd.valid
  by_cases hvalid : 0 ≤ f.fd
  · obtain ⟨serial, hopen⟩ := h.opened o f.fd ((owns_of_object hobject f.fd).2 ⟨rfl, hvalid⟩)
    rw [if_pos (decide_eq_true hvalid), hopen]
    exact Run.refl.tail (.give hobject hvalid hopen)
  · rw [if_neg (by simpa using hvalid)]
    refine Run.refl.tail (.adjust ?_ ownsNothing_none)
    rintro f' hf'
    rw [hobject] at hf'
    cases hf'
    exact Int.not_le.1 hvalid

theorem moveInto_update
    (objects : ι → Option Fd)
    (o other : ι)
    (g : Fd)
    (x : Option Fd) :
    moveInto (Function.update objects o x) o other g = moveInto objects o other g := by
  funext p
  unfold moveInto
  by_cases hp : p = o
  · simp [hp]
  · by_cases hother : p = other
    · simp [Function.update_apply, hother]
    · simp [hp, hother]

/-- Assigning from another object closes what the first one owns. -/
theorem run_moveAssign
    (h : WorldInv s)
    {o other : ι}
    {f g : Fd}
    (hobject : s.objects o = some f)
    (hother : s.objects other = some g)
    (hne : o ≠ other) :
    Run Move s (resets s.os o f (-1)).2
      ⟨moveInto s.objects o other g, (resets s.os o f (-1)).1⟩ := by
  have hreset : Run Move s (resets s.os o f (-1)).2
      ⟨Function.update s.objects o (some Fd.none), (resets s.os o f (-1)).1⟩ :=
    run_resets h hobject (by omega) ownsNothing_none
  have hother' : Function.update s.objects o (some Fd.none) other = some g := by
    rw [Function.update_of_ne (Ne.symm hne), hother]
  have hmove : Run Move
      ⟨Function.update s.objects o (some Fd.none), (resets s.os o f (-1)).1⟩ []
      ⟨moveInto (Function.update s.objects o (some Fd.none)) o other g,
        (resets s.os o f (-1)).1⟩ :=
    run_moveInto (by simp [ownsNothing_none]) hne hother'
  rw [moveInto_update] at hmove
  simpa using hreset.trans hmove

/-- Every operation is a sequence of moves. -/
theorem run_move_of_executes
    (h : WorldInv s)
    {op : FdOp ι}
    (hpermitted : s.Permitted op)
    (hexecutes : Executes s op s' word) :
    Run Move s word s' := by
  cases hexecutes with
  | construct hobject => exact run_handIn (by simp [OwnsNothing, hobject]) hpermitted
  | moveConstruct hobject hother =>
      refine run_moveInto (by simp [OwnsNothing, hobject]) ?_ hother
      rintro rfl
      simp [hobject] at hother
  | selfAssign => exact .refl
  | moveAssign hobject hother hne => exact run_moveAssign h hobject hother hne
  | release hobject => exact run_takeOut h hobject
  | reset hobject => exact run_reset h hobject hpermitted
  | destroy hobject => exact run_resets h hobject (by omega) (by simp [OwnsNothing])

theorem run_move_of_step
    (h : WorldInv s)
    (hstep : Step s word s') :
    Run Move s word s' := by
  cases hstep with
  | operates hpermitted hexec =>
      exact run_move_of_executes h hpermitted (executes_of_exec hexec)
  | opens hnumber hfree => exact Run.refl.tail (.opens hnumber hfree)
  | closesElsewhere hopen hunowned => exact Run.refl.tail (.closesElsewhere hopen hunowned)

omit [DecidableEq ι] in
/-- What a reset reports. -/
theorem closed_mem_resets
    {os : Descriptors}
    {o p : ι}
    {f : Fd}
    {fd number : Int}
    {serial : Nat}
    (h : .closed p serial number ∈ (resets os o f fd).2) :
    p = o ∧ number = f.fd ∧ 0 ≤ f.fd := by
  unfold resets Fd.reset at h
  split at h
  next hclose =>
    obtain ⟨event, _, hreported⟩ := List.mem_map.1 h
    cases event with
    | closed =>
        cases hreported
        exact ⟨rfl, rfl, hclose.1⟩
    | accepted | badClose => cases hreported
  next => simp at h

/-- An object closes what it owns itself. -/
theorem owns_of_closed
    (hstep : Step s word s')
    {o : ι}
    {serial : Nat}
    {number : Int}
    (hmem : .closed o serial number ∈ word) :
    s.Owns o number := by
  have hin : ∀ (os : Descriptors) (p : ι) fd, FdEvent.closed o serial number ∉ handIn os p fd := by
    intro os p fd
    unfold handIn
    split
    next => cases os.lookup fd <;> simp
    next => simp
  have hout : ∀ (os : Descriptors) (p : ι) f, FdEvent.closed o serial number ∉ takeOut os p f := by
    intro os p f
    unfold takeOut
    split
    next => cases os.lookup f.fd <;> simp
    next => simp
  have hresets : ∀ {p f fd}, s.objects p = some f →
      FdEvent.closed o serial number ∈ (resets s.os p f fd).2 → s.Owns o number := by
    intro p f fd hobject hmem
    obtain ⟨rfl, rfl, hvalid⟩ := closed_mem_resets hmem
    exact ⟨f, hobject, rfl, hvalid⟩
  cases hstep with
  | opens | closesElsewhere => simp at hmem
  | operates _ hexec =>
      cases executes_of_exec hexec with
      | construct => exact absurd hmem (hin _ _ _)
      | moveConstruct | selfAssign => simp at hmem
      | moveAssign hobject _ _ | destroy hobject => exact hresets hobject hmem
      | release => exact absurd hmem (hout _ _ _)
      | reset hobject =>
          exact hresets hobject ((List.mem_append.1 hmem).resolve_right (hin _ _ _))

end Operations

end FdWorld

end HttpServer
