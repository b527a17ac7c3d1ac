import HttpServer.FdObjects
import HttpServer.Lib.Custody

/-!
# The custody of descriptors

The owner of a number has the descriptor in custody from the time it is handed in
until it is closed or taken out.  Descriptors are told apart by their numbers, which
are used again, or by their serial numbers, which are not.

* `simulates_move`: every move of the objects is a step of custody;
* `closedFinal_move`: a descriptor that has been closed does not come back;
* `fd_exclusive`: what follows for every sequence of operations.
-/

namespace HttpServer

open Transition

universe u v

/-- What an event does to the custody of a descriptor. -/
def FdEvent.custody {ι : Type u} {κ : Type v} (key : Int × Nat → κ) :
    FdEvent ι → Option (Custody.Event κ)
  | .handedIn _ serial number => some (.taken (key (number, serial)))
  | .released _ serial number => some (.given (key (number, serial)))
  | .closed _ serial number => some (.disposed (key (number, serial)))
  | _ => none

namespace FdWorld

variable {ι : Type u} {s s' : FdWorld ι} {word : List (FdEvent ι)}

section Representation

variable {κ : Type v} {key : Int × Nat → κ} {holder : κ → Option ι}

/-- A key tells the open descriptors apart. -/
def Separates (key : Int × Nat → κ) (os : Descriptors) : Prop :=
  ∀ d ∈ os.table, ∀ d' ∈ os.table, key d = key d' → d = d'

/-- The holder of a descriptor is the object that owns its number. -/
def Represents (key : Int × Nat → κ) (s : FdWorld ι) (holder : κ → Option ι) : Prop :=
  ∀ k o, holder k = some o ↔
    ∃ number serial, (s.os.lookup number = some serial ∧ s.Owns o number) ∧
      key (number, serial) = k

theorem Represents.of_iff
    (h : Represents key s holder)
    (howns : ∀ n p c, s'.os.lookup n = some c ∧ s'.Owns p n ↔ s.os.lookup n = some c ∧ s.Owns p n) :
    Represents key s' holder := by
  intro k o
  rw [h k o]
  simp only [howns]

theorem Represents.owns_of_holder
    (h : Represents key s holder)
    (hseparates : Separates key s.os)
    {number : Int}
    {serial : Nat}
    (hopen : s.os.lookup number = some serial)
    {o : ι}
    (hholder : holder (key (number, serial)) = some o) :
    s.Owns o number := by
  obtain ⟨n, c, ⟨hlookup, howns⟩, hkey⟩ := (h _ _).1 hholder
  have heq := hseparates _ (Descriptors.mem_of_lookup hlookup) _
    (Descriptors.mem_of_lookup hopen) hkey
  cases heq
  exact howns

variable [DecidableEq κ]

/-- A move that touches the custody of one descriptor. -/
theorem Represents.update
    (h : Represents key s holder)
    (hseparates : Separates key s.os)
    {number : Int}
    {serial : Nat}
    (hopen : s.os.lookup number = some serial)
    {x : Option ι}
    (hothers : ∀ n, n ≠ number → ∀ p c,
      (s'.os.lookup n = some c ∧ s'.Owns p n ↔ s.os.lookup n = some c ∧ s.Owns p n))
    (hself : ∀ p c, s'.os.lookup number = some c ∧ s'.Owns p number ↔ c = serial ∧ x = some p) :
    Represents key s' (Function.update holder (key (number, serial)) x) := by
  intro k p
  by_cases hk : k = key (number, serial)
  · subst hk
    rw [Function.update_self]
    constructor
    · intro hx
      exact ⟨number, serial, (hself p serial).2 ⟨rfl, hx⟩, rfl⟩
    · rintro ⟨n, c, howns, hkey⟩
      by_cases hn : n = number
      · subst hn
        exact ((hself p c).1 howns).2
      · have hlookup := ((hothers n hn p c).1 howns).1
        have heq := hseparates _ (Descriptors.mem_of_lookup hlookup) _
          (Descriptors.mem_of_lookup hopen) hkey
        exact absurd (congrArg Prod.fst heq) hn
  · rw [Function.update_of_ne hk, h k p]
    constructor
    · rintro ⟨n, c, howns, hkey⟩
      have hn : n ≠ number := by
        rintro rfl
        rw [hopen, Option.some.injEq] at howns
        exact hk (by rw [← hkey, howns.1])
      exact ⟨n, c, (hothers n hn p c).2 howns, hkey⟩
    · rintro ⟨n, c, howns, hkey⟩
      have hn : n ≠ number := by
        rintro rfl
        exact hk (by rw [← hkey, ((hself p c).1 howns).1])
      exact ⟨n, c, (hothers n hn p c).1 howns, hkey⟩

end Representation

variable [DecidableEq ι]

section Custody

variable {κ : Type v} [DecidableEq κ] {key : Int × Nat → κ} {holder : κ → Option ι}

/-- An object comes to own nothing. -/
theorem Represents.drop
    (hrepresents : Represents key s holder)
    (h : WorldInv s)
    (hseparates : Separates key s.os)
    {o : ι}
    {f : Fd}
    {serial : Nat}
    (hobject : s.objects o = some f)
    (hvalid : 0 ≤ f.fd)
    (hopen : s.os.lookup f.fd = some serial)
    {x : Option Fd}
    (hx : OwnsNothing x)
    {os : Descriptors}
    (hlookup : ∀ n, n ≠ f.fd → os.lookup n = s.os.lookup n) :
    Represents key ⟨Function.update s.objects o x, os⟩
      (Function.update holder (key (f.fd, serial)) none) := by
  have ho := (owns_of_object hobject f.fd).2 ⟨rfl, hvalid⟩
  refine hrepresents.update hseparates hopen (fun n hn p c => ?_) (fun p c => ?_)
  · rw [hlookup n hn, owns_update_nothing_iff hx]
    refine and_congr_right fun _ => and_iff_right_of_imp ?_
    rintro hp rfl
    exact hn ((owns_of_object hobject n).1 hp).1.symm
  · rw [owns_update_nothing_iff hx]
    refine iff_of_false ?_ (by simp)
    rintro ⟨_, hne, hp⟩
    exact hne (h.exclusive p o _ hp ho)

/-- The objects keep the descriptors in custody. -/
theorem simulates_move
    (h : WorldInv s)
    (hseparates : Separates key s.os)
    (hrepresents : Represents key s holder)
    (hmove : Move s word s') :
    ∃ holder', Run Custody.Step holder (word.filterMap (FdEvent.custody key)) holder' ∧
      Represents key s' holder' := by
  -- the descriptor that a number stands for is held by the object that owns the number
  have hheld : ∀ {o number serial}, s.os.lookup number = some serial → s.Owns o number →
      holder (key (number, serial)) = some o :=
    fun hopen howns => (hrepresents _ _).2 ⟨_, _, ⟨hopen, howns⟩, rfl⟩
  cases hmove with
  | @adjust o x hbefore hafter =>
      refine ⟨holder, .refl, hrepresents.of_iff fun n p c => ?_⟩
      rw [owns_update_nothing_iff hafter]
      refine and_congr_right fun _ => and_iff_right_of_imp ?_
      rintro hp rfl
      exact not_owns_of_ownsNothing hbefore n hp
  | @take o fd serial hvalid hopen hself hothers =>
      refine ⟨_, Run.refl.tail (Custody.Step.take (o := o) fun p hp => ?_),
        hrepresents.update hseparates hopen ?_ ?_⟩
      · by_contra hne
        exact hothers p hne (hrepresents.owns_of_holder hseparates hopen hp)
      · intro n hn p c
        rw [owns_update]
        split
        next hpo =>
          subst hpo
          refine and_congr_right fun _ => iff_of_false ?_ (fun hp => hn (hself n hp))
          rintro ⟨f, hf, rfl, _⟩
          cases hf
          exact hn rfl
        next => rfl
      · intro p c
        rw [owns_update, hopen]
        split
        next hpo => simp [hpo, hvalid, eq_comm]
        next hpo => simp [hothers p hpo, Ne.symm hpo]
  | @pass o other g hself hne hother hvalid =>
      have hg := (owns_of_object hother g.fd).2 ⟨rfl, hvalid⟩
      obtain ⟨serial, hopen⟩ := h.opened other g.fd hg
      refine ⟨_, Run.refl.tail (Custody.Step.pass (p := o) (hheld hopen hg)),
        hrepresents.update hseparates hopen ?_ ?_⟩
      · intro n hn p c
        rw [owns_moveInto]
        split
        next hpo =>
          subst hpo
          exact and_congr_right fun _ => iff_of_false (fun hp => hn hp.1.symm)
            (not_owns_of_ownsNothing hself n)
        next hpo =>
          refine and_congr_right fun _ => and_iff_right_of_imp ?_
          rintro hp rfl
          exact hn ((owns_of_object hother n).1 hp).1.symm
      · intro p c
        rw [owns_moveInto, hopen]
        split
        next hpo => simp [hpo, hvalid, eq_comm]
        next hpo =>
          refine iff_of_false ?_ (fun hp => hpo (Option.some.inj hp.2).symm)
          rintro ⟨_, hnot, hp⟩
          exact hnot (h.exclusive p other _ hp hg)
  | @give o f serial hobject hvalid hopen =>
      have ho := (owns_of_object hobject f.fd).2 ⟨rfl, hvalid⟩
      exact ⟨_, Run.refl.tail (Custody.Step.give (hheld hopen ho)),
        hrepresents.drop h hseparates hobject hvalid hopen ownsNothing_none (fun _ _ => rfl)⟩
  | @close o f serial x hobject hvalid hopen hafter =>
      have ho := (owns_of_object hobject f.fd).2 ⟨rfl, hvalid⟩
      refine ⟨_, Run.refl.tail (Custody.Step.dispose (hheld hopen ho)),
        hrepresents.drop h hseparates hobject hvalid hopen hafter (fun n hn => ?_)⟩
      rw [Descriptors.lookup_close hopen, if_neg hn]
  | @opens number _ hfree =>
      refine ⟨holder, .refl, hrepresents.of_iff fun n p c => and_congr_left fun hp => ?_⟩
      have hn : n ≠ number := by
        rintro rfl
        exact h.not_owns_of_free hfree p hp
      rw [Descriptors.lookup_accept, if_neg hn]
  | @closesElsewhere number serial hopen hunowned =>
      refine ⟨holder, .refl, hrepresents.of_iff fun n p c => and_congr_left fun hp => ?_⟩
      have hn : n ≠ number := by
        rintro rfl
        exact hunowned p hp
      rw [Descriptors.lookup_close hopen, if_neg hn]

/-- A key that tells the descriptors of every table apart. -/
def KeyOf (key : Int × Nat → κ) : Prop :=
  ∀ os, TableInv os → Separates key os

theorem keyOf_number : KeyOf (Prod.fst : Int × Nat → Int) :=
  fun _ h => h.numbers

theorem keyOf_serial : KeyOf (Prod.snd : Int × Nat → Nat) :=
  fun _ h => h.serials

theorem worldInv_of_run
    {trace : List (FdEvent ι)}
    (hrun : Run Move start trace s) :
    WorldInv s :=
  hrun.invariant (fun _ s => WorldInv s) worldInv_start (fun _ _ _ _ => worldInv_move)

/-- The history of the objects is a history of custody. -/
theorem ledger_of_run
    (hkey : KeyOf key)
    {trace : List (FdEvent ι)}
    (hrun : Run Move start trace s) :
    ∃ holder : κ → Option ι,
      Custody.Ledger (trace.filterMap (FdEvent.custody key)) holder ∧ Represents key s holder := by
  have hsimulation := hrun.invariant
    (fun trace s => WorldInv s ∧ ∃ holder : κ → Option ι,
      Run Custody.Step (fun _ => none) (trace.filterMap (FdEvent.custody key)) holder ∧
        Represents key s holder)
    ⟨worldInv_start, _, .refl, by simp [Represents, Owns, start]⟩ ?_
  · obtain ⟨_, holder, hcustody, hrepresents⟩ := hsimulation
    exact ⟨holder, .of_run hcustody, hrepresents⟩
  · rintro trace s word s' ⟨h, holder, hcustody, hrepresents⟩ hmove
    obtain ⟨holder', hword, hrepresents'⟩ :=
      simulates_move h (hkey _ h.table) hrepresents hmove
    refine ⟨worldInv_move h hmove, holder', ?_, hrepresents'⟩
    rw [List.filterMap_append]
    exact hcustody.trans hword

end Custody

section Finality

/-- A descriptor that an object has closed is closed for good. -/
def ClosedFinal (trace : List (FdEvent ι)) (s : FdWorld ι) : Prop :=
  ∀ o serial number, .closed o serial number ∈ trace →
    Custody.last serial (trace.filterMap (FdEvent.custody Prod.snd)) = some (.disposed serial) ∧
    (∀ n, s.os.lookup n ≠ some serial) ∧ serial < s.os.next

/-- A move opens a descriptor only under a new serial number. -/
theorem lookup_of_move
    (hmove : Move s word s') :
    (∀ n c, s'.os.lookup n = some c → s.os.lookup n = some c ∨ c = s.os.next) ∧
      s.os.next ≤ s'.os.next := by
  cases hmove with
  | adjust | take | pass | give => exact ⟨fun _ _ h => Or.inl h, le_rfl⟩
  | close _ _ hopen _ | closesElsewhere hopen _ =>
      refine ⟨fun n c hlookup => Or.inl ?_, by rw [Descriptors.close_of_open hopen]⟩
      rw [Descriptors.lookup_close hopen] at hlookup
      split at hlookup
      next => cases hlookup
      next => exact hlookup
  | opens =>
      refine ⟨fun n c hlookup => ?_, Nat.le_succ _⟩
      rw [Descriptors.lookup_accept] at hlookup
      split at hlookup
      next => exact Or.inr (Option.some.inj hlookup).symm
      next => exact Or.inl hlookup

/-- Only open descriptors change custody. -/
theorem open_of_custody
    (hmove : Move s word s') :
    ∀ e ∈ word.filterMap (FdEvent.custody Prod.snd), ∃ n, s.os.lookup n = some e.key := by
  intro e he
  obtain ⟨event, hevent, he⟩ := List.mem_filterMap.1 he
  cases hmove with
  | adjust | pass => simp at hevent
  | take _ hopen | give _ _ hopen | close _ _ hopen _ =>
      rw [List.mem_singleton] at hevent
      subst hevent
      cases he
      exact ⟨_, hopen⟩
  | opens | closesElsewhere =>
      rw [List.mem_singleton] at hevent
      subst hevent
      cases he

theorem closedFinal_move
    {trace : List (FdEvent ι)}
    (h : WorldInv s)
    (hfinal : ClosedFinal trace s)
    (hmove : Move s word s') :
    ClosedFinal (trace ++ word) s' := by
  obtain ⟨hlookup, hnext⟩ := lookup_of_move hmove
  intro o serial number hmem
  rcases List.mem_append.1 hmem with hmem | hmem
  · obtain ⟨hlast, hclosed, hlt⟩ := hfinal o serial number hmem
    refine ⟨?_, fun n hn => ?_, by omega⟩
    · rw [List.filterMap_append, Custody.last_append_of_ne, hlast]
      rintro e he rfl
      obtain ⟨n, hn⟩ := open_of_custody hmove e he
      exact hclosed n hn
    · rcases hlookup n serial hn with hn | heq
      · exact hclosed n hn
      · omega
  · cases hmove with
    | adjust | pass => simp at hmem
    | take | give | opens | closesElsewhere => simp at hmem
    | close hobject hvalid hopen hafter =>
        rw [List.mem_singleton] at hmem
        cases hmem
        have hentry := Descriptors.mem_of_lookup hopen
        refine ⟨?_, fun n hn => ?_, ?_⟩
        · rw [List.filterMap_append]
          exact (Custody.last_concat _ _ (.disposed _)).trans (if_pos rfl)
        · rw [Descriptors.lookup_close hopen] at hn
          split at hn
          next => cases hn
          next hne =>
            have heq := h.table.serials _ (Descriptors.mem_of_lookup hn) _ hentry rfl
            exact hne (congrArg Prod.fst heq)
        · rw [Descriptors.close_of_open hopen]
          exact h.table.fresh _ hentry

theorem badClose_not_mem
    (hmove : Move s word s')
    (o : ι)
    (number : Int) :
    .badClose o number ∉ word := by
  cases hmove <;> simp

end Finality

section Results

variable {trace : List (FdEvent ι)}

theorem run_move_of_run
    (hrun : Run Step start trace s) :
    Run Move start trace s :=
  hrun.invariant (fun trace s => Run Move start trace s) .refl
    (fun _ _ _ _ hmoves hstep => hmoves.trans (run_move_of_step (worldInv_of_run hmoves) hstep))

theorem closedFinal_of_run
    (hmoves : Run Move start trace s) :
    ClosedFinal trace s := by
  refine (hmoves.invariant (fun trace s => WorldInv s ∧ ClosedFinal trace s)
    ⟨worldInv_start, by simp [ClosedFinal]⟩ ?_).2
  rintro trace s word s' ⟨h, hfinal⟩ hmove
  exact ⟨worldInv_move h hmove, closedFinal_move h hfinal hmove⟩

theorem badClose_not_mem_of_run
    (hmoves : Run Move start trace s) :
    ∀ o number, .badClose o number ∉ trace := by
  refine hmoves.invariant (fun trace _ => ∀ o number, .badClose o number ∉ trace) (by simp) ?_
  intro trace s word s' h hmove o number hmem
  rcases List.mem_append.1 hmem with hmem | hmem
  · exact h o number hmem
  · exact badClose_not_mem hmove o number hmem

/-- Between two events that dispose of one key, an event takes it. -/
theorem handedIn_between
    {κ : Type v}
    [DecidableEq κ]
    {key : Int × Nat → κ}
    (hkey : KeyOf key)
    (hmoves : Run Move start trace s)
    {front mid back : List (FdEvent ι)}
    {o o' : ι}
    {serial serial' : Nat}
    {number number' : Int}
    (hsplit : trace = front ++ .closed o serial number :: mid ++
      .closed o' serial' number' :: back)
    (hsame : key (number, serial) = key (number', serial')) :
    ∃ p c n, .handedIn p c n ∈ mid ∧ key (n, c) = key (number, serial) := by
  obtain ⟨holder, hledger, _⟩ := ledger_of_run hkey hmoves
  have hcustody : trace.filterMap (FdEvent.custody key) =
      front.filterMap (FdEvent.custody key) ++ .disposed (key (number, serial)) ::
        mid.filterMap (FdEvent.custody key) ++ .disposed (key (number, serial)) ::
          back.filterMap (FdEvent.custody key) := by
    rw [hsplit]
    simp [FdEvent.custody, hsame]
  obtain ⟨event, hevent, htaken⟩ := List.mem_filterMap.1 (hledger.taken_between hcustody)
  cases event with
  | handedIn p c n =>
      exact ⟨p, c, n, hevent, Custody.Event.taken.inj (Option.some.inj htaken)⟩
  | opened | closedElsewhere | released | closed | badClose => cases htaken

/-- When no object is left, what was handed in and not closed was taken out last. -/
theorem released_of_no_object
    (hmoves : Run Move start trace s)
    (hnone : ∀ o, s.objects o = none)
    (serial : Nat) :
    ((∃ o number, .handedIn o serial number ∈ trace) ∧
        ∀ o number, .closed o serial number ∉ trace) ↔
      Custody.last serial (trace.filterMap (FdEvent.custody Prod.snd)) = some (.given serial) := by
  obtain ⟨holder, hledger, hrepresents⟩ := ledger_of_run keyOf_serial hmoves
  have hfree : ∀ o, holder serial ≠ some o := by
    intro o ho
    obtain ⟨_, _, ⟨_, f, hobject, _⟩, _⟩ := (hrepresents serial o).1 ho
    simp [hnone o] at hobject
  constructor
  · rintro ⟨⟨o, number, hmem⟩, hopen⟩
    have htaken : Custody.Event.taken serial ∈ trace.filterMap (FdEvent.custody Prod.snd) :=
      List.mem_filterMap.2 ⟨_, hmem, rfl⟩
    cases hlast : Custody.last serial (trace.filterMap (FdEvent.custody Prod.snd)) with
    | none => exact absurd hlast (Custody.last_ne_none_of_mem htaken)
    | some e =>
        obtain ⟨he, rfl⟩ := Custody.mem_of_last hlast
        cases e with
        | given k => rfl
        | taken k =>
            obtain ⟨p, hp⟩ := (hledger.held k).2 hlast
            exact absurd hp (hfree p)
        | disposed k =>
            obtain ⟨event, hevent, hcustody⟩ := List.mem_filterMap.1 he
            cases event with
            | closed p c n =>
                cases hcustody
                exact absurd hevent (hopen p n)
            | opened | closedElsewhere | released | handedIn | badClose => cases hcustody
  · intro hlast
    have hgiven := (Custody.mem_of_last hlast).1
    refine ⟨?_, fun o number hclosed => ?_⟩
    · obtain ⟨event, hevent, hcustody⟩ := List.mem_filterMap.1 (hledger.taken_mem hgiven)
      cases event with
      | handedIn p c n =>
          cases hcustody
          exact ⟨p, n, hevent⟩
      | opened | closedElsewhere | released | closed | badClose => cases hcustody
    · rw [(closedFinal_of_run hmoves o serial number hclosed).1] at hlast
      cases hlast

/--
`Fd` owns exclusively and closes once.  In every state that operations on any number of
objects can reach, a descriptor has at most one owner; nothing is closed that is not open;
an object closes a descriptor only as its sole owner; between two closes of one number, and
of one descriptor, it was handed in anew; and when all objects are destroyed, the descriptors
handed in and never closed are those last taken out by `release`.
-/
theorem fd_exclusive
    (hrun : Run Step start trace s) :
    (∀ o p number, s.Owns o number → s.Owns p number → o = p) ∧
    (∀ o number, .badClose o number ∉ trace) ∧
    (∀ word s' o serial number, Step s word s' → .closed o serial number ∈ word →
      ∀ p, s.Owns p number ↔ p = o) ∧
    (∀ front mid back o o' serial serial' number,
      trace = front ++ .closed o serial number :: mid ++ .closed o' serial' number :: back →
      ∃ p c, .handedIn p c number ∈ mid) ∧
    (∀ front mid back o o' serial number number',
      trace = front ++ .closed o serial number :: mid ++ .closed o' serial number' :: back →
      ∃ p n, .handedIn p serial n ∈ mid) ∧
    ((∀ o, s.objects o = none) → ∀ serial,
      ((∃ o number, .handedIn o serial number ∈ trace) ∧
          ∀ o number, .closed o serial number ∉ trace) ↔
        Custody.last serial (trace.filterMap (FdEvent.custody Prod.snd)) =
          some (.given serial)) := by
  have hmoves := run_move_of_run hrun
  have hworld := worldInv_of_run hmoves
  refine ⟨hworld.exclusive, badClose_not_mem_of_run hmoves, ?_, ?_, ?_,
    released_of_no_object hmoves⟩
  · intro word s' o serial number hstep hmem p
    have ho := owns_of_closed hstep hmem
    exact ⟨fun hp => hworld.exclusive p o number hp ho, fun hp => hp ▸ ho⟩
  · intro front mid back o o' serial serial' number hsplit
    obtain ⟨p, c, n, hmem, rfl⟩ := handedIn_between keyOf_number hmoves hsplit rfl
    exact ⟨p, c, hmem⟩
  · intro front mid back o o' serial number number' hsplit
    obtain ⟨p, c, n, hmem, rfl⟩ := handedIn_between keyOf_serial hmoves hsplit rfl
    exact ⟨p, n, hmem⟩

/-- An object is handed 3, reset to 4 and released: only 4 has not been closed. -/
theorem fd_exclusive_reset :
    ∃ trace, ∃ s : FdWorld Unit, Run Step start trace s ∧ (∀ o, s.objects o = none) ∧
      FdEvent.closed () 0 3 ∈ trace ∧
      Custody.last 1 (trace.filterMap (FdEvent.custody Prod.snd)) = some (.given 1) := by
  have hothers : ∀ (s : FdWorld Unit) fd p, p ≠ () → ¬ s.Owns p fd :=
    fun _ _ _ hp => absurd rfl hp
  have hopened : Run Step (start : FdWorld Unit) _ _ :=
    (Run.refl.tail (.opens (show (0 : Int) ≤ 3 by decide) rfl)).tail
      (.opens (show (0 : Int) ≤ 4 by decide) rfl)
  have hmade := hopened.tail (@Step.operates Unit _ _ _ (.construct () 3) _
    (fun _ => ⟨⟨0, rfl⟩, hothers _ _⟩) rfl)
  have hreset := hmade.tail (@Step.operates Unit _ _ _ (.reset () 4) _
    (fun _ => ⟨⟨1, rfl⟩, hothers _ _⟩) rfl)
  have hreleased := hreset.tail (@Step.operates Unit _ _ _ (.release ()) _ trivial rfl)
  have hdestroyed := hreleased.tail (@Step.operates Unit _ _ _ (.destroy ()) _ trivial rfl)
  have hrun : Run Step (start : FdWorld Unit) [.opened 0 3, .opened 1 4, .handedIn () 0 3,
      .closed () 0 3, .handedIn () 1 4, .released () 1 4] _ := hdestroyed
  refine ⟨_, _, hrun, fun _ => rfl, by simp, ?_⟩
  obtain ⟨_, _, _, _, _, hlast⟩ := fd_exclusive hrun
  exact (hlast (fun _ => rfl) 1).1 ⟨⟨(), 4, by simp⟩, by simp⟩

end Results

end FdWorld

end HttpServer
