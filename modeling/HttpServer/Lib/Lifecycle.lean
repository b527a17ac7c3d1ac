import HttpServer.Lib.Transition

/-!
# The life cycle of resources whose keys are reused

A resource is admitted under a key, waits, is begun, leaves and is released; one
that waits may also leave without having been begun.  A key is in use by one
resource at a time and may be given out again after a release, so resources are
told apart by serial numbers.

* `Step`: the life cycle as a transition system;
* `Sound`: what holds of a history and the resources at its end;
* `Sound.owned_or_released`, `Sound.begun_once`, `Sound.leaving_or_released`: what
  this means for one resource.
-/

namespace Lifecycle

open Transition

universe u

variable {κ : Type u}

/-- The resources in use, as pairs of a key and a serial number, by their stage. -/
structure State (κ : Type u) where
  waiting : Multiset (κ × ℕ) := 0
  begun : Multiset (κ × ℕ) := 0
  leaving : Multiset (κ × ℕ) := 0
  next : ℕ := 0

/-- All resources in use. -/
def State.inUse (a : State κ) : Multiset (κ × ℕ) :=
  a.waiting + a.begun + a.leaving

inductive Event
  | admitted (c : ℕ)
  | begun (c : ℕ)
  | left (c : ℕ)
  | released (c : ℕ)

inductive Step : State κ → List Event → State κ → Prop
  | rest {a : State κ} :
      Step a [] a
  | arrive {a : State κ} {k : κ}
      (hfresh : k ∉ a.inUse.map Prod.fst) :
      Step a [.admitted a.next]
        { a with waiting := {(k, a.next)} + a.waiting, next := a.next + 1 }
  | start {a : State κ} {e : κ × ℕ} {waiting : Multiset (κ × ℕ)}
      (hwaiting : a.waiting = {e} + waiting) :
      Step a [.begun e.2] { a with waiting := waiting, begun := {e} + a.begun }
  | abandon {a : State κ} {e : κ × ℕ} {waiting : Multiset (κ × ℕ)}
      (hwaiting : a.waiting = {e} + waiting) :
      Step a [.left e.2] { a with waiting := waiting, leaving := {e} + a.leaving }
  | finish {a : State κ} {e : κ × ℕ} {begun : Multiset (κ × ℕ)}
      (hbegun : a.begun = {e} + begun) :
      Step a [.left e.2] { a with begun := begun, leaving := {e} + a.leaving }
  | release {a : State κ} {e : κ × ℕ} {leaving : Multiset (κ × ℕ)}
      (hleaving : a.leaving = {e} + leaving) :
      Step a [.released e.2] { a with leaving := leaving }

section Histories

@[simp] def Event.admittedSerial : Event → Option ℕ
  | .admitted c => some c
  | _ => none

@[simp] def Event.begunSerial : Event → Option ℕ
  | .begun c => some c
  | _ => none

@[simp] def Event.leftSerial : Event → Option ℕ
  | .left c => some c
  | _ => none

@[simp] def Event.releasedSerial : Event → Option ℕ
  | .released c => some c
  | _ => none

/-- The serial numbers that occur in events of a kind. -/
def serials (kind : Event → Option ℕ) (trace : List Event) : Multiset ℕ :=
  ↑(trace.filterMap kind)

@[simp] theorem serials_append
    (kind : Event → Option ℕ)
    (front back : List Event) :
    serials kind (front ++ back) = serials kind front + serials kind back := by
  simp [serials]

@[simp] theorem serials_singleton
    (kind : Event → Option ℕ)
    (e : Event) :
    serials kind [e] = ↑(kind e).toList := by
  cases hkind : kind e <;> simp [serials, hkind]

end Histories

/-- What holds of a history and the resources at its end. -/
structure Sound (trace : List Event) (a : State κ) : Prop where
  keys : (a.inUse.map Prod.fst).Nodup
  admitted : serials Event.admittedSerial trace = Multiset.range a.next
  accounted : a.inUse.map Prod.snd + serials Event.releasedSerial trace = Multiset.range a.next
  once : a.waiting.map Prod.snd + serials Event.begunSerial trace ≤ Multiset.range a.next
  left : serials Event.leftSerial trace =
    a.leaving.map Prod.snd + serials Event.releasedSerial trace

namespace Sound

variable {trace word : List Event} {a a' : State κ}

/-- A step that keeps the resources in use and releases none. -/
theorem of_inUse_eq
    (h : Sound trace a)
    (hinUse : a'.inUse = a.inUse)
    (hnext : a'.next = a.next)
    (hadmitted : serials Event.admittedSerial word = 0)
    (hreleased : serials Event.releasedSerial word = 0)
    (honce : a'.waiting.map Prod.snd + serials Event.begunSerial word ≤ a.waiting.map Prod.snd)
    (hleft : a.leaving.map Prod.snd + serials Event.leftSerial word = a'.leaving.map Prod.snd) :
    Sound (trace ++ word) a' where
  keys := by
    rw [hinUse]
    exact h.keys
  admitted := by
    rw [serials_append, hadmitted, add_zero, hnext, h.admitted]
  accounted := by
    rw [serials_append, hreleased, add_zero, hinUse, hnext, h.accounted]
  once := by
    rw [serials_append, hnext]
    calc
      a'.waiting.map Prod.snd +
          (serials Event.begunSerial trace + serials Event.begunSerial word)
        = a'.waiting.map Prod.snd + serials Event.begunSerial word +
            serials Event.begunSerial trace := by abel
      _ ≤ a.waiting.map Prod.snd + serials Event.begunSerial trace :=
          add_le_add_left honce _
      _ ≤ Multiset.range a.next := h.once
  left := by
    rw [serials_append, serials_append, hreleased, add_zero, h.left, ← hleft]
    abel

theorem step
    (h : Sound trace a)
    (hstep : Step a word a') :
    Sound (trace ++ word) a' := by
  cases hstep with
  | rest =>
      rw [List.append_nil]
      exact h
  | @arrive k hfresh =>
      have hinUse :
          State.inUse { a with waiting := {(k, a.next)} + a.waiting, next := a.next + 1 } =
            {(k, a.next)} + a.inUse := by
        simp [State.inUse, add_assoc]
      have hrange : Multiset.range (a.next + 1) = {a.next} + Multiset.range a.next := by
        rw [Multiset.range_succ, Multiset.singleton_add]
      refine ⟨?_, ?_, ?_, ?_, ?_⟩
      · rw [hinUse, Multiset.map_add, Multiset.map_singleton, Multiset.singleton_add]
        exact Multiset.nodup_cons.2 ⟨hfresh, h.keys⟩
      · rw [serials_append, serials_singleton, h.admitted, hrange, add_comm]
        rfl
      · rw [hinUse, hrange, ← h.accounted, Multiset.map_add, Multiset.map_singleton]
        simp
      · simpa [hrange] using h.once
      · simpa using h.left
  | start hwaiting =>
      refine h.of_inUse_eq ?_ rfl rfl rfl ?_ (add_zero _)
      · simp only [State.inUse, hwaiting]
        abel
      · rw [hwaiting, Multiset.map_add, add_comm]
        rfl
  | abandon hwaiting =>
      refine h.of_inUse_eq ?_ rfl rfl rfl ?_ ?_
      · simp only [State.inUse, hwaiting]
        abel
      · rw [hwaiting, Multiset.map_add]
        exact (add_zero _).trans_le (Multiset.le_add_left _ _)
      · rw [Multiset.map_add, add_comm]
        rfl
  | finish hbegun =>
      refine h.of_inUse_eq ?_ rfl rfl rfl (add_zero _).le ?_
      · simp only [State.inUse, hbegun]
        abel
      · rw [Multiset.map_add, add_comm]
        rfl
  | @release e leaving hleaving =>
      have hinUse : a.inUse = {e} + State.inUse { a with leaving := leaving } := by
        simp only [State.inUse, hleaving]
        abel
      have hkeys := h.keys
      have haccounted := h.accounted
      rw [hinUse, Multiset.map_add, Multiset.map_singleton] at hkeys haccounted
      refine ⟨?_, ?_, ?_, ?_, ?_⟩
      · exact (Multiset.nodup_cons.1 (Multiset.singleton_add _ _ ▸ hkeys)).2
      · simpa using h.admitted
      · simp only [serials_append, serials_singleton, Event.releasedSerial, Option.toList_some,
          Multiset.coe_singleton, ← haccounted]
        abel
      · simpa using h.once
      · simp only [serials_append, serials_singleton, Event.releasedSerial, Event.leftSerial,
          Option.toList_some, Option.toList_none, Multiset.coe_singleton, Multiset.coe_nil, h.left,
          hleaving, Multiset.map_add, Multiset.map_singleton]
        abel

theorem of_run
    (h : Run Step ({} : State κ) trace a) :
    Sound trace a := by
  refine h.invariant Sound ?_ (fun _ _ _ _ hsound hstep => hsound.step hstep)
  exact ⟨by simp [State.inUse], rfl, rfl, le_refl _, rfl⟩

section OneResource

variable {c : ℕ}

theorem count_range_of_admitted
    (h : Sound trace a)
    (hc : Event.admitted c ∈ trace) :
    (Multiset.range a.next).count c = 1 := by
  rw [Multiset.count_eq_one_of_mem (Multiset.nodup_range _)]
  rw [← h.admitted]
  exact List.mem_filterMap.2 ⟨_, hc, rfl⟩

/-- An admitted resource is in use, once, or has been released, once. -/
theorem owned_or_released
    (h : Sound trace a)
    (hc : Event.admitted c ∈ trace) :
    (a.inUse.map Prod.snd).count c + (serials Event.releasedSerial trace).count c = 1 := by
  rw [← Multiset.count_add, h.accounted, h.count_range_of_admitted hc]

/-- A resource is begun at most once. -/
theorem begun_once
    (h : Sound trace a) :
    (serials Event.begunSerial trace).count c ≤ 1 := by
  have hrange : (Multiset.range a.next).count c ≤ 1 :=
    Multiset.nodup_iff_count_le_one.1 (Multiset.nodup_range _) c
  have hle := Multiset.count_le_of_le c h.once
  rw [Multiset.count_add] at hle
  omega

/-- A resource that has left is about to be released, or has been. -/
theorem leaving_or_released
    (h : Sound trace a)
    (hc : Event.left c ∈ trace) :
    (a.leaving.map Prod.snd).count c + (serials Event.releasedSerial trace).count c = 1 := by
  have hpos : 0 < (serials Event.leftSerial trace).count c :=
    Multiset.count_pos.2 (List.mem_filterMap.2 ⟨_, hc, rfl⟩)
  have hrange : (Multiset.range a.next).count c ≤ 1 :=
    Multiset.nodup_iff_count_le_one.1 (Multiset.nodup_range _) c
  rw [← h.accounted, State.inUse, Multiset.map_add, Multiset.count_add,
    Multiset.count_add] at hrange
  rw [h.left, Multiset.count_add] at hpos
  omega

/-- Each key in use stands for one resource. -/
theorem countP_keys
    [DecidableEq κ]
    (h : Sound trace a)
    {part : Multiset (κ × ℕ)}
    (hpart : part ≤ a.inUse) :
    (part.map Prod.fst).countP (fun k => (k, c) ∈ a.inUse) = (part.map Prod.snd).count c := by
  rw [Multiset.countP_map, Multiset.count, Multiset.countP_map]
  congr 1
  refine Multiset.filter_congr (fun e he => ?_)
  have hmem := Multiset.mem_of_le hpart he
  constructor
  · intro hkey
    exact congrArg Prod.snd (Multiset.inj_on_of_nodup_map h.keys _ hkey _ hmem rfl)
  · rintro rfl
    exact hmem

end OneResource

end Sound

end Lifecycle
