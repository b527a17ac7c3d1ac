import Mathlib.Data.List.Infix
import Mathlib.InformationTheory.Coding.UniquelyDecodable

/-!
# Prefix codes

The words of a code in which no word begins another can be written one behind the
other without marks between them: what is written is cut in one way only.

* `PrefixFree.split`: the first word of a concatenation is determined;
* `PrefixFree.uniquelyDecodable`: so are all of them.
-/

namespace PrefixCode

universe u

section Words

variable {α : Type u}

/-- No word is empty, and none begins another. -/
structure PrefixFree (words : Set (List α)) : Prop where
  nonempty : [] ∉ words
  eq_of_begins : ∀ u ∈ words, ∀ v ∈ words, u <+: v → u = v

variable {words : Set (List α)}

theorem PrefixFree.split
    (h : PrefixFree words)
    {u v rest rest' : List α}
    (hu : u ∈ words)
    (hv : v ∈ words)
    (heq : u ++ rest = v ++ rest') :
    u = v ∧ rest = rest' := by
  have hsame : u = v := by
    have hbegins : u <+: v ++ rest' := heq ▸ List.prefix_append u rest
    rcases List.prefix_or_prefix_of_prefix hbegins (List.prefix_append v rest') with huv | hvu
    · exact h.eq_of_begins u hu v hv huv
    · exact (h.eq_of_begins v hv u hu hvu).symm
  subst hsame
  exact ⟨rfl, List.append_cancel_left heq⟩

theorem PrefixFree.uniquelyDecodable
    (h : PrefixFree words) :
    InformationTheory.UniquelyDecodable words := by
  intro written written' hwritten hwritten' heq
  induction written generalizing written' with
  | nil =>
      cases written' with
      | nil => rfl
      | cons v written' =>
          have hnil : v = [] := (List.append_eq_nil_iff.1 heq.symm).1
          exact absurd (hnil ▸ hwritten' v List.mem_cons_self) h.nonempty
  | cons u written ih =>
      have hu := hwritten u List.mem_cons_self
      cases written' with
      | nil =>
          have hnil : u = [] := (List.append_eq_nil_iff.1 heq).1
          exact absurd (hnil ▸ hu) h.nonempty
      | cons v written' =>
          obtain ⟨rfl, hrest⟩ := h.split hu (hwritten' v List.mem_cons_self) heq
          rw [ih written' (fun w hw => hwritten w (List.mem_cons_of_mem _ hw))
            (fun w hw => hwritten' w (List.mem_cons_of_mem _ hw)) hrest]

end Words

end PrefixCode
