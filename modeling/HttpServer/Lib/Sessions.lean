import HttpServer.Lib.Threads
import HttpServer.Lib.Transition

/-!
# Sessions in the slots of a host

A host has slots and gives each slot to one session after another.  A session is
the run of a component: it is opened with a fresh component, the component takes
steps of its own, and the session ends.  The steps of different sessions
interleave in any order.  Sessions carry identifiers, and the events of a host
say which session they belong to.

* `count_holds`: a session is in as many slots as it was opened and has not ended;
* `Traced`: the events of one identifier are one run of a fresh component;
* `traced_of_run`: this holds of every session, as long as no identifier is used twice.
-/

namespace Sessions

open Transition Threads

universe u v w x

variable {ω : Type u} {ι : Type v} {σ : Type w} {ε : Type x}

inductive Event (ι : Type v) (σ : Type w) (ε : Type x)
  | opened (i : ι) (c : σ)
  | stepped (i : ι) (word : List ε)
  | ended (i : ι) (c : σ)

/-- The sessions in the slots. -/
abbrev Slots (ω : Type u) (ι : Type v) (σ : Type w) := ω → Option (ι × σ)

/-- The steps of a host whose components step by `component` and are opened `Fresh`. -/
inductive Step [DecidableEq ω] (component : σ → List ε → σ → Prop) (Fresh : σ → Prop) :
    Slots ω ι σ → List (Event ι σ ε) → Slots ω ι σ → Prop
  | rest {slots : Slots ω ι σ} :
      Step component Fresh slots [] slots
  | opens {slots : Slots ω ι σ} {w : ω} {i : ι} {c : σ}
      (hfree : slots w = none)
      (hfresh : Fresh c) :
      Step component Fresh slots [.opened i c] (Function.update slots w (some (i, c)))
  | steps {slots : Slots ω ι σ} {w : ω} {i : ι} {c c' : σ} {word : List ε}
      (hslot : slots w = some (i, c))
      (hstep : component c word c') :
      Step component Fresh slots [.stepped i word] (Function.update slots w (some (i, c')))
  | ends {slots : Slots ω ι σ} {w : ω} {i : ι} {c : σ}
      (hslot : slots w = some (i, c)) :
      Step component Fresh slots [.ended i c] (Function.update slots w none)

section Histories

def Event.openedId : Event ι σ ε → Option ι
  | .opened i _ => some i
  | _ => none

def Event.endedId : Event ι σ ε → Option ι
  | .ended i _ => some i
  | _ => none

/-- The identifiers of the sessions that were opened, in order. -/
def openedIds (trace : List (Event ι σ ε)) : List ι :=
  trace.filterMap Event.openedId

/-- The identifiers of the sessions that have ended, in order. -/
def endedIds (trace : List (Event ι σ ε)) : List ι :=
  trace.filterMap Event.endedId

variable [DecidableEq ι]

def Event.stepsOf (i : ι) : Event ι σ ε → List ε
  | .stepped j word => if j = i then word else []
  | _ => []

/-- What the component of a session emitted. -/
def history (i : ι) (trace : List (Event ι σ ε)) : List ε :=
  trace.flatMap (Event.stepsOf i)

omit [DecidableEq ι] in
@[simp] theorem openedIds_append (front back : List (Event ι σ ε)) :
    openedIds (front ++ back) = openedIds front ++ openedIds back :=
  List.filterMap_append

omit [DecidableEq ι] in
@[simp] theorem endedIds_append (front back : List (Event ι σ ε)) :
    endedIds (front ++ back) = endedIds front ++ endedIds back :=
  List.filterMap_append

@[simp] theorem history_append (i : ι) (front back : List (Event ι σ ε)) :
    history i (front ++ back) = history i front ++ history i back :=
  List.flatMap_append

section Words

omit [DecidableEq ι]

variable (i : ι) (c : σ) (word : List ε)

@[simp] theorem openedIds_opened : openedIds [Event.opened (ε := ε) i c] = [i] := rfl

@[simp] theorem openedIds_stepped : openedIds [Event.stepped (σ := σ) i word] = [] := rfl

@[simp] theorem openedIds_ended : openedIds [Event.ended (ε := ε) i c] = [] := rfl

@[simp] theorem endedIds_opened : endedIds [Event.opened (ε := ε) i c] = [] := rfl

@[simp] theorem endedIds_stepped : endedIds [Event.stepped (σ := σ) i word] = [] := rfl

@[simp] theorem endedIds_ended : endedIds [Event.ended (ε := ε) i c] = [i] := rfl

end Words

omit [DecidableEq ι] in
theorem mem_endedIds
    {i : ι}
    {c : σ}
    {trace : List (Event ι σ ε)}
    (h : Event.ended i c ∈ trace) :
    i ∈ endedIds trace :=
  List.mem_filterMap.2 ⟨_, h, rfl⟩

/-- The slot belongs to the session. -/
def holds (i : ι) : Option (ι × σ) → Bool
  | none => false
  | some (j, _) => decide (j = i)

@[simp] theorem holds_none (i : ι) : holds i (none : Option (ι × σ)) = false := rfl

@[simp] theorem holds_some (i j : ι) (c : σ) : holds i (some (j, c)) = decide (j = i) := rfl

end Histories

section Runs

variable [DecidableEq ω] [DecidableEq ι] {component : σ → List ε → σ → Prop} {Fresh : σ → Prop}
  {trace : List (Event ι σ ε)} {slots : Slots ω ι σ}

/-- A session is in as many slots as it was opened and has not ended. -/
theorem count_holds
    [Fintype ω]
    (hrun : Run (Step component Fresh) (fun _ => none) trace slots)
    (i : ι) :
    count (holds i) slots + (endedIds trace).count i = (openedIds trace).count i := by
  induction hrun with
  | refl => exact Nat.add_eq_zero_iff.2 ⟨(count_eq_zero_iff _ _).2 (fun _ => rfl), rfl⟩
  | @tail _ _ before _ _ last ih =>
      cases last with
      | rest => simpa using ih
      | @opens w j c hfree hfresh =>
          have hmove := count_update (holds i) before w (some (j, c))
          rw [hfree, holds_none, holds_some] at hmove
          by_cases hj : j = i <;> simp [hj] at hmove ⊢ <;> omega
      | @steps w j c c' word hslot hstep =>
          have hmove := count_update (holds i) before w (some (j, c'))
          rw [hslot, holds_some, holds_some] at hmove
          simp only [openedIds_append, endedIds_append, openedIds_stepped, endedIds_stepped,
            List.append_nil]
          omega
      | @ends w j c hslot =>
          have hmove := count_update (holds i) before w none
          rw [hslot, holds_none, holds_some] at hmove
          by_cases hj : j = i <;> simp [hj] at hmove ⊢ <;> omega

/-- A session in a slot has been opened. -/
theorem mem_openedIds_of_slot
    [Fintype ω]
    (hrun : Run (Step component Fresh) (fun _ => none) trace slots)
    {w : ω}
    {i : ι}
    {c : σ}
    (hslot : slots w = some (i, c)) :
    i ∈ openedIds trace := by
  have hcount := count_holds hrun i
  have hpos : 0 < count (holds i) slots := (count_pos_iff _ _).2 ⟨w, by simp [hslot]⟩
  exact List.count_pos_iff.1 (by omega)

/-- A session that was opened is in a slot, or it has ended. -/
theorem slot_or_ended
    [Fintype ω]
    (hrun : Run (Step component Fresh) (fun _ => none) trace slots)
    {i : ι}
    (hi : i ∈ openedIds trace) :
    (∃ w c, slots w = some (i, c)) ∨ ∃ c, Event.ended i c ∈ trace := by
  have hcount := count_holds hrun i
  have hpos := List.count_pos_iff.2 hi
  by_cases hslots : 0 < count (holds i) slots
  · obtain ⟨w, hw⟩ := (count_pos_iff _ _).1 hslots
    cases hslot : slots w with
    | none => simp [hslot] at hw
    | some session =>
        obtain ⟨j, c⟩ := session
        obtain rfl : j = i := by simpa [hslot] using hw
        exact Or.inl ⟨w, c, hslot⟩
  · have hended : 0 < (endedIds trace).count i := by omega
    obtain ⟨e, he, hid⟩ := List.mem_filterMap.1 (List.count_pos_iff.1 hended)
    cases e with
    | opened | stepped => simp [Event.endedId] at hid
    | ended j c =>
        obtain rfl : j = i := Option.some.inj hid
        exact Or.inr ⟨c, he⟩

/-- A session whose component has taken a step has been opened. -/
theorem mem_openedIds_of_stepped
    [Fintype ω]
    (hrun : Run (Step component Fresh) (fun _ => none) trace slots)
    {i : ι}
    {word : List ε}
    (hi : Event.stepped i word ∈ trace) :
    i ∈ openedIds trace := by
  induction hrun with
  | refl => simp at hi
  | tail front last ih =>
      rw [openedIds_append]
      refine List.mem_append_left _ ?_
      rcases List.mem_append.1 hi with hfront | hlast
      · exact ih hfront
      · cases last with
        | rest | opens | ends => simp at hlast
        | steps hslot =>
            obtain ⟨rfl, _⟩ : i = _ ∧ word = _ := by simpa using hlast
            exact mem_openedIds_of_slot front hslot

/-- Before a session is opened nothing belongs to it. -/
theorem history_eq_nil
    [Fintype ω]
    (hrun : Run (Step component Fresh) (fun _ => none) trace slots)
    {i : ι}
    (hi : i ∉ openedIds trace) :
    history i trace = [] := by
  induction hrun with
  | refl => rfl
  | tail front last ih =>
      rw [openedIds_append, List.mem_append, not_or] at hi
      rw [history_append, ih hi.1, List.nil_append]
      cases last with
      | rest | opens | ends => rfl
      | @steps w j c c' word hslot hstep =>
          have hj : j ≠ i := by
            rintro rfl
            exact hi.1 (mem_openedIds_of_slot front hslot)
          simp [history, Event.stepsOf, hj]

/-- The events of a session are one run of a component that was fresh when it was opened. -/
def Traced (component : σ → List ε → σ → Prop) (Fresh : σ → Prop)
    (trace : List (Event ι σ ε)) (i : ι) (c : σ) : Prop :=
  ∃ c₀, Event.opened i c₀ ∈ trace ∧ Fresh c₀ ∧ Run component c₀ (history i trace) c

/-- Events of other sessions do not matter. -/
theorem Traced.append
    {i : ι}
    {c : σ}
    (h : Traced component Fresh trace i c)
    {word : List (Event ι σ ε)}
    (hword : history i word = []) :
    Traced component Fresh (trace ++ word) i c := by
  obtain ⟨c₀, hopened, hfresh, hrun⟩ := h
  refine ⟨c₀, List.mem_append_left _ hopened, hfresh, ?_⟩
  rw [history_append, hword, List.append_nil]
  exact hrun

section Exclusion

variable [Fintype ω] {w : ω} {i j : ι} {c d : σ}

/-- A session that was opened once and is in a slot has not ended. -/
theorem ne_of_ended
    (hrun : Run (Step component Fresh) (fun _ => none) trace slots)
    (hnodup : (openedIds trace).Nodup)
    (hslot : slots w = some (i, c))
    (hended : Event.ended j d ∈ trace) :
    i ≠ j := by
  rintro rfl
  have hbalance := count_holds hrun i
  have honce := List.nodup_iff_count_le_one.1 hnodup i
  have hslots : 0 < count (holds i) slots := (count_pos_iff _ _).2 ⟨w, by simp [hslot]⟩
  have hgone : 0 < (endedIds trace).count i := List.count_pos_iff.2 (mem_endedIds hended)
  omega

/-- A session that was opened once is in one slot. -/
theorem ne_of_slots
    (hrun : Run (Step component Fresh) (fun _ => none) trace slots)
    (hnodup : (openedIds trace).Nodup)
    {w' : ω}
    (hne : w' ≠ w)
    (hslot : slots w = some (i, c))
    (hslot' : slots w' = some (j, d)) :
    i ≠ j := by
  rintro rfl
  have hbalance := count_holds hrun i
  have honce := List.nodup_iff_count_le_one.1 hnodup i
  have hmove := count_update (holds i) slots w none
  have hother : 0 < count (holds i) (Function.update slots w none) :=
    (count_pos_iff _ _).2 ⟨w', by simp [Function.update_of_ne hne, hslot']⟩
  simp only [hslot, holds_none, holds_some, decide_true, Bool.toNat_true, Bool.toNat_false]
    at hmove
  omega

end Exclusion

/-- Every session that is in a slot, or that has ended, is one run of a fresh component. -/
structure AllTraced (component : σ → List ε → σ → Prop) (Fresh : σ → Prop)
    (trace : List (Event ι σ ε)) (slots : Slots ω ι σ) : Prop where
  slot : ∀ w i c, slots w = some (i, c) → Traced component Fresh trace i c
  ended : ∀ i c, Event.ended i c ∈ trace → Traced component Fresh trace i c

namespace AllTraced

theorem opens
    [Fintype ω]
    (h : AllTraced component Fresh trace slots)
    (hrun : Run (Step component Fresh) (fun _ => none) trace slots)
    {w : ω}
    {j : ι}
    {c : σ}
    (hnew : j ∉ openedIds trace)
    (hfresh : Fresh c) :
    AllTraced component Fresh (trace ++ [.opened j c]) (Function.update slots w (some (j, c))) where
  slot := by
    intro w' i c' hslot
    by_cases hw : w' = w
    · subst hw
      rw [Function.update_self] at hslot
      obtain ⟨rfl, rfl⟩ := Prod.mk.inj (Option.some.inj hslot)
      refine ⟨c, by simp, hfresh, ?_⟩
      rw [history_append, history_eq_nil hrun hnew]
      exact .refl
    · rw [Function.update_of_ne hw] at hslot
      exact (h.slot w' i c' hslot).append rfl
  ended := fun i c' hi => (h.ended i c' (by simpa using hi)).append rfl

theorem steps
    [Fintype ω]
    (h : AllTraced component Fresh trace slots)
    (hrun : Run (Step component Fresh) (fun _ => none) trace slots)
    (hnodup : (openedIds trace).Nodup)
    {w : ω}
    {j : ι}
    {c c' : σ}
    {word : List ε}
    (hslot : slots w = some (j, c))
    (hstep : component c word c') :
    AllTraced component Fresh (trace ++ [.stepped j word])
      (Function.update slots w (some (j, c'))) := by
  -- The step belongs to no other session.
  have hothers : ∀ i, j ≠ i → history i [Event.stepped (σ := σ) j word] = [] :=
    fun i hi => by simp [history, Event.stepsOf, hi]
  constructor
  · intro w' i d hslot'
    by_cases hw : w' = w
    · subst hw
      rw [Function.update_self] at hslot'
      obtain ⟨rfl, rfl⟩ := Prod.mk.inj (Option.some.inj hslot')
      obtain ⟨c₀, hopened, hfresh, hsession⟩ := h.slot w' _ _ hslot
      refine ⟨c₀, List.mem_append_left _ hopened, hfresh, ?_⟩
      have hown : history j [Event.stepped (σ := σ) j word] = word := by
        simp [history, Event.stepsOf]
      rw [history_append, hown]
      exact hsession.tail hstep
    · rw [Function.update_of_ne hw] at hslot'
      exact (h.slot w' i d hslot').append (hothers i (ne_of_slots hrun hnodup hw hslot hslot'))
  · intro i d hi
    have hi' : Event.ended i d ∈ trace := by simpa using hi
    exact (h.ended i d hi').append (hothers i (ne_of_ended hrun hnodup hslot hi'))

theorem ends
    (h : AllTraced component Fresh trace slots)
    {w : ω}
    {j : ι}
    {c : σ}
    (hslot : slots w = some (j, c)) :
    AllTraced component Fresh (trace ++ [.ended j c]) (Function.update slots w none) where
  slot := by
    intro w' i c' hslot'
    by_cases hw : w' = w
    · subst hw
      simp at hslot'
    · rw [Function.update_of_ne hw] at hslot'
      exact (h.slot w' i c' hslot').append rfl
  ended := by
    intro i c' hi
    rcases List.mem_append.1 hi with hi | hi
    · exact (h.ended i c' hi).append rfl
    · obtain ⟨rfl, rfl⟩ : i = j ∧ c' = c := by simpa using hi
      exact (h.slot w i c' hslot).append rfl

end AllTraced

/-- As long as no identifier is used twice, every session is one run of a fresh component. -/
theorem traced_of_run
    [Fintype ω]
    (hrun : Run (Step component Fresh) (fun _ => none) trace slots)
    (hnodup : (openedIds trace).Nodup) :
    AllTraced component Fresh trace slots := by
  induction hrun with
  | refl => exact ⟨fun w i c h => by simp at h, fun i c h => by simp at h⟩
  | tail front last ih =>
      rw [openedIds_append] at hnodup
      obtain ⟨hfront, _, hdisjoint⟩ := List.nodup_append.1 hnodup
      have h := ih hfront
      cases last with
      | rest =>
          rw [List.append_nil]
          exact h
      | @opens w j c hfree hfresh =>
          have hnew : j ∉ openedIds _ :=
            fun hj => hdisjoint j hj j (by simp) rfl
          exact h.opens front hnew hfresh
      | steps hslot hstep => exact h.steps front hfront hslot hstep
      | ends hslot => exact h.ends hslot

end Runs

end Sessions
