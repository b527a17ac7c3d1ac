import Mathlib.Data.List.Infix
import Mathlib.Tactic

/-!
# First occurrences of a pattern in a list

A string search returns the first position at which a pattern occurs.  This
module fixes that search for lists over an arbitrary alphabet and gives it a
declarative specification (`FirstAt`), so that a program that cuts a buffer at
such a position can be compared with a grammar written by concatenation.

* `find_eq_some_iff`, `find_eq_none_iff`: the search is exactly `FirstAt`;
* `FirstAt.append`, `length_lt_of_find_append`: what more input can change;
* `firstAt_append_of_unbordered`: after a separator-free piece, the first
  occurrence of an unbordered separator is the one that was written there;
* `firstAt_double_of_pieces`: the same for a separator written twice;
* `exists_pieces`, `split_intercalate`: every list is cut into separator-free
  pieces, and splitting recovers them.
-/

namespace Occurrence

universe u

section Specification

variable {α : Type u}

/-- The position `i` is the first one at which `pat` occurs in `xs`. -/
structure FirstAt (pat xs : List α) (i : Nat) : Prop where
  here : pat <+: xs.drop i
  first : ∀ j, j < i → ¬ pat <+: xs.drop j

theorem firstAt_zero_iff
    (pat xs : List α) :
    FirstAt pat xs 0 ↔ pat <+: xs := by
  constructor
  · intro h
    simpa using h.here
  · intro h
    exact ⟨by simpa using h, fun j hj => absurd hj (Nat.not_lt_zero j)⟩

theorem firstAt_succ_cons_iff
    (pat : List α)
    (x : α)
    (xs : List α)
    (i : Nat) :
    FirstAt pat (x :: xs) (i + 1)
      ↔
    ¬ pat <+: x :: xs ∧ FirstAt pat xs i := by
  constructor
  · intro h
    refine ⟨by simpa using h.first 0 (Nat.succ_pos i), by simpa using h.here, ?_⟩
    intro j hj
    simpa using h.first (j + 1) (by omega)
  · rintro ⟨hne, h⟩
    refine ⟨by simpa using h.here, ?_⟩
    intro j hj
    cases j with
    | zero =>
        simpa using hne
    | succ j =>
        simpa using h.first j (by omega)

namespace FirstAt

/-- The occurrence lies inside the list. -/
theorem add_length_le
    {pat xs : List α}
    {i : Nat}
    (h : FirstAt pat xs i) :
    i + pat.length ≤ xs.length := by
  have hlen := h.here.length_le
  rw [List.length_drop] at hlen
  by_cases hi : i ≤ xs.length
  · omega
  · have hnil : pat = [] := List.eq_nil_of_length_eq_zero (by omega)
    subst hnil
    exact absurd List.nil_prefix (h.first 0 (by omega))

/-- Cut the list at its first occurrence. -/
theorem eq_take_append
    {pat xs : List α}
    {i : Nat}
    (h : FirstAt pat xs i) :
    xs = xs.take i ++ pat ++ xs.drop (i + pat.length) := by
  obtain ⟨rest, hrest⟩ := h.here
  have hdrop : xs.drop (i + pat.length) = rest := by
    rw [← List.drop_drop, ← hrest]
    simp
  rw [hdrop, List.append_assoc, hrest, List.take_append_drop]

theorem unique
    {pat xs : List α}
    {i j : Nat}
    (hi : FirstAt pat xs i)
    (hj : FirstAt pat xs j) :
    i = j := by
  rcases Nat.lt_trichotomy i j with hlt | heq | hgt
  · exact absurd hi.here (hj.first i hlt)
  · exact heq
  · exact absurd hj.here (hi.first j hgt)

/-- An occurrence that fits into the front part is an occurrence of the front part. -/
theorem prefix_drop_of_append
    {pat xs ys : List α}
    {j : Nat}
    (hle : j + pat.length ≤ xs.length)
    (h : pat <+: (xs ++ ys).drop j) :
    pat <+: xs.drop j := by
  rw [List.drop_append_of_le_length (by omega)] at h
  refine List.prefix_of_prefix_length_le h (List.prefix_append _ _) ?_
  rw [List.length_drop]
  omega

/-- More input does not move an occurrence that has been found. -/
theorem append
    {pat xs : List α}
    {i : Nat}
    (h : FirstAt pat xs i)
    (ys : List α) :
    FirstAt pat (xs ++ ys) i := by
  have hle := h.add_length_le
  refine ⟨?_, ?_⟩
  · rw [List.drop_append_of_le_length (by omega)]
    exact h.here.trans (List.prefix_append _ _)
  · intro j hj hp
    exact h.first j hj (prefix_drop_of_append (by omega) hp)

/-- An occurrence that fits into the front part was already there. -/
theorem of_append
    {pat xs ys : List α}
    {i : Nat}
    (h : FirstAt pat (xs ++ ys) i)
    (hle : i + pat.length ≤ xs.length) :
    FirstAt pat xs i := by
  refine ⟨prefix_drop_of_append hle h.here, ?_⟩
  intro j hj hp
  apply h.first j hj
  rw [List.drop_append_of_le_length (by omega)]
  exact hp.trans (List.prefix_append _ _)

end FirstAt

/-- No proper suffix of the pattern is also a beginning of it. -/
def Unbordered (sep : List α) : Prop :=
  ∀ k, 0 < k → k < sep.length → ¬ sep.drop k <+: sep

theorem unbordered_singleton (a : α) : Unbordered [a] := by
  intro k hpos hlt
  simp at hlt
  omega

/-- After a piece without the separator, the first separator is the written one. -/
theorem firstAt_append_of_unbordered
    {sep : List α}
    (hsep : Unbordered sep)
    {piece : List α}
    (hfree : ¬ sep <:+: piece)
    (rest : List α) :
    FirstAt sep (piece ++ sep ++ rest) piece.length := by
  refine ⟨by simp, ?_⟩
  intro j hj hp
  by_cases hfit : j + sep.length ≤ piece.length
  · rw [List.append_assoc] at hp
    have hin := FirstAt.prefix_drop_of_append hfit hp
    exact hfree (hin.isInfix.trans (List.drop_suffix j piece).isInfix)
  · have hk : 0 < piece.length - j := by omega
    refine hsep (piece.length - j) hk (by omega) ?_
    rw [List.append_assoc, List.drop_append_of_le_length (by omega)] at hp
    obtain ⟨tail, htail⟩ := hp
    have hcut := congrArg (List.drop (piece.length - j)) htail
    have hlen : (piece.drop j).length = piece.length - j := List.length_drop
    rw [List.drop_append_of_le_length (by omega)] at hcut
    rw [← hlen, List.drop_left, hlen] at hcut
    have hpre : sep.drop (piece.length - j) <+: sep ++ rest := ⟨tail, hcut⟩
    refine List.prefix_of_prefix_length_le hpre (List.prefix_append _ _) ?_
    rw [List.length_drop]
    omega

/-- A list of pieces that ends in an empty one ends in a separator. -/
theorem suffix_intercalate_of_getLast_eq_nil
    (sep piece : List α)
    (pieces : List (List α))
    (hne : pieces ≠ [])
    (hlast : pieces.getLast hne = []) :
    sep <:+ List.intercalate sep (piece :: pieces) := by
  induction pieces generalizing piece with
  | nil =>
      exact absurd rfl hne
  | cons next pieces ih =>
      rw [List.intercalate_cons_cons]
      cases pieces with
      | nil =>
          rw [List.getLast_singleton] at hlast
          subst hlast
          exact ⟨piece, by simp⟩
      | cons third rest =>
          have hrest : (third :: rest).getLast (by simp) = [] := by
            simpa using hlast
          exact (ih next (by simp) hrest).trans (List.suffix_append _ _)

/-- Every separator takes room. -/
theorem length_le_length_intercalate
    {sep : List α}
    (hsep : sep ≠ [])
    (piece : List α)
    (pieces : List (List α)) :
    pieces.length ≤ (List.intercalate sep (piece :: pieces)).length := by
  have hpos : 0 < sep.length := List.length_pos_of_ne_nil hsep
  induction pieces generalizing piece with
  | nil =>
      simp
  | cons next pieces ih =>
      have hnext := ih next
      rw [List.intercalate_cons_cons, List.length_append, List.length_append, List.length_cons]
      omega

/-- Shorter pieces between the same separators are shorter together. -/
theorem length_intercalate_map_le
    {ι : Type*}
    (sep : List α)
    {f g : ι → List α}
    {indices : List ι}
    (h : ∀ i ∈ indices, (f i).length ≤ (g i).length)
    {piece piece' : List α}
    (hpiece : piece.length ≤ piece'.length) :
    (List.intercalate sep (piece :: indices.map f)).length ≤
      (List.intercalate sep (piece' :: indices.map g)).length := by
  induction indices generalizing piece piece' with
  | nil => simpa using hpiece
  | cons i indices ih =>
      have hi := h i List.mem_cons_self
      have htail := ih (fun j hj => h j (List.mem_cons_of_mem i hj)) hi
      simp only [List.map_cons, List.intercalate_cons_cons, List.length_append] at htail ⊢
      omega

/-- Pieces followed by a separator begin with the first piece and a separator. -/
theorem exists_intercalate_append_eq
    (sep piece : List α)
    (pieces : List (List α))
    (rest : List α) :
    ∃ tail, List.intercalate sep (piece :: pieces) ++ sep ++ rest = piece ++ sep ++ tail := by
  cases pieces with
  | nil => exact ⟨rest, by simp⟩
  | cons next pieces => exact ⟨_, by rw [List.intercalate_cons_cons]; simp; rfl⟩

/-- Pieces followed by a separator are the pieces, each followed by one. -/
theorem intercalate_append_sep
    (sep piece : List α)
    (pieces : List (List α)) :
    List.intercalate sep (piece :: pieces) ++ sep =
      piece ++ sep ++ (pieces.map (fun p => p ++ sep)).flatten := by
  induction pieces generalizing piece with
  | nil => simp
  | cons next pieces ih =>
      rw [List.intercalate_cons_cons, List.append_assoc, ih next]
      simp

/-- One more piece comes behind a separator. -/
theorem intercalate_concat
    (sep piece : List α)
    (pieces : List (List α))
    (last : List α) :
    List.intercalate sep (piece :: (pieces ++ [last])) =
      List.intercalate sep (piece :: pieces) ++ sep ++ last := by
  induction pieces generalizing piece with
  | nil => simp
  | cons next pieces ih =>
      rw [List.cons_append, List.intercalate_cons_cons, List.intercalate_cons_cons, ih next]
      simp

/-- A separator cannot begin inside a copy of itself. -/
theorem Unbordered.not_prefix_drop_append
    {sep : List α}
    (hsep : Unbordered sep)
    {k : Nat}
    (hpos : 0 < k)
    (hlt : k < sep.length)
    (rest : List α) :
    ¬ sep <+: sep.drop k ++ rest := by
  intro h
  refine hsep k hpos hlt (List.prefix_of_prefix_length_le (List.prefix_append _ rest) h ?_)
  rw [List.length_drop]
  omega

/--
Behind pieces without the separator, of which only the first may be empty, the
first double separator is the one written there.
-/
theorem firstAt_double_of_pieces
    {sep : List α}
    (hsep : Unbordered sep)
    (piece : List α)
    (pieces : List (List α))
    (hfree : ∀ p ∈ piece :: pieces, ¬ sep <:+: p)
    (hpieces : ∀ p ∈ pieces, p ≠ [])
    (rest : List α) :
    FirstAt (sep ++ sep) (List.intercalate sep (piece :: pieces) ++ (sep ++ sep) ++ rest)
      (List.intercalate sep (piece :: pieces)).length := by
  refine ⟨by simp, ?_⟩
  induction pieces generalizing piece with
  | nil =>
      intro j hj hp
      rw [List.intercalate_singleton] at hj hp
      have hfirst := firstAt_append_of_unbordered hsep (hfree piece (by simp)) (sep ++ rest)
      refine hfirst.first j hj ((List.prefix_append sep sep).trans ?_)
      simpa using hp
  | cons next pieces ih =>
      intro j hj hp
      rw [List.intercalate_cons_cons] at hj hp
      set Y := List.intercalate sep (next :: pieces) ++ (sep ++ sep) ++ rest with hY
      have hX : piece ++ sep ++ List.intercalate sep (next :: pieces) ++ (sep ++ sep) ++ rest =
          piece ++ sep ++ Y := by
        rw [hY]
        simp
      rw [hX] at hp
      have hone : sep <+: (piece ++ sep ++ Y).drop j := (List.prefix_append sep sep).trans hp
      have hfirst := firstAt_append_of_unbordered hsep (hfree piece (by simp)) Y
      rcases Nat.lt_or_ge j piece.length with hlt | hge
      · exact hfirst.first j hlt hone
      · obtain ⟨k, rfl⟩ : ∃ k, j = piece.length + k := ⟨j - piece.length, by omega⟩
        rw [List.append_assoc, List.drop_append, List.drop_of_length_le (by omega),
          List.nil_append, show piece.length + k - piece.length = k by omega] at hp hone
        rcases Nat.lt_or_ge k sep.length with hk | hk
        · rcases Nat.eq_zero_or_pos k with rfl | hpos
          · rw [List.drop_zero, List.prefix_append_right_inj] at hp
            obtain ⟨tail, htail⟩ := exists_intercalate_append_eq sep next pieces (sep ++ rest)
            have hnext := firstAt_append_of_unbordered hsep (hfree next (by simp)) tail
            have hYtail : Y = next ++ sep ++ tail := by
              rw [hY, ← htail]
              simp
            refine hnext.first 0 (List.length_pos_iff.2 (hpieces next (by simp))) ?_
            rw [List.drop_zero, ← hYtail]
            exact hp
          · rw [List.drop_append_of_le_length (by omega)] at hone
            exact hsep.not_prefix_drop_append hpos hk Y hone
        · obtain ⟨i, rfl⟩ : ∃ i, k = sep.length + i := ⟨k - sep.length, by omega⟩
          rw [List.drop_append, List.drop_of_length_le (by omega), List.nil_append,
            show sep.length + i - sep.length = i by omega] at hp
          refine ih next (fun p hmem => hfree p (by simp [hmem]))
            (fun p hmem => hpieces p (by simp [hmem])) i ?_ hp
          simp only [List.length_append] at hj
          omega

theorem singleton_infix_iff (a : α) (xs : List α) : [a] <:+: xs ↔ a ∈ xs := by
  constructor
  · intro h
    exact h.subset (by simp)
  · intro h
    obtain ⟨front, back, rfl⟩ := List.append_of_mem h
    exact ⟨front, back, by simp⟩

/-- An occurrence does not begin in a front that lacks its first element. -/
theorem infix_of_infix_append
    {a : α}
    {pat front back : List α}
    (hfront : a ∉ front)
    (h : a :: pat <:+: front ++ back) :
    a :: pat <:+: back := by
  induction front with
  | nil => exact h
  | cons b front ih =>
      rw [List.mem_cons, not_or] at hfront
      rcases List.infix_cons_iff.1 h with hhere | hlater
      · exact absurd (List.cons_prefix_cons.1 hhere).1 hfront.1
      · exact ih hfront.2 hlater

end Specification

section Search

variable {α : Type u} [DecidableEq α]

/-- Position of the first occurrence of `pat`, if there is one. -/
def find (pat : List α) : List α → Option Nat
  | [] => if pat.isEmpty then some 0 else none
  | x :: xs =>
      if pat.isPrefixOf (x :: xs) then some 0
      else (find pat xs).map (· + 1)

/-- The search returns the first occurrence and nothing else. -/
theorem find_eq_some_iff
    (pat xs : List α)
    (i : Nat) :
    find pat xs = some i ↔ FirstAt pat xs i := by
  induction xs generalizing i with
  | nil =>
      cases pat with
      | nil =>
          cases i with
          | zero =>
              simp [find, firstAt_zero_iff]
          | succ i =>
              refine ⟨fun h => by simp [find] at h, fun h => ?_⟩
              exact absurd List.nil_prefix (h.first 0 (Nat.succ_pos i))
      | cons p ps =>
          refine ⟨fun h => by simp [find] at h, fun h => ?_⟩
          simpa using h.here
  | cons x xs ih =>
      by_cases hp : pat <+: x :: xs
      · have hb : pat.isPrefixOf (x :: xs) = true := List.isPrefixOf_iff_prefix.mpr hp
        cases i with
        | zero =>
            simp [find, hb, firstAt_zero_iff, hp]
        | succ i =>
            simp [find, hb, firstAt_succ_cons_iff, hp]
      · have hb : pat.isPrefixOf (x :: xs) = false := by
          rw [Bool.eq_false_iff]
          exact fun h => hp (List.isPrefixOf_iff_prefix.mp h)
        cases i with
        | zero =>
            simp [find, hb, firstAt_zero_iff, hp]
        | succ i =>
            simp [find, hb, firstAt_succ_cons_iff, hp, ih]

theorem find_eq_none_iff
    (pat xs : List α) :
    find pat xs = none ↔ ¬ pat <:+: xs := by
  induction xs with
  | nil =>
      cases pat with
      | nil =>
          simp [find]
      | cons p ps =>
          simp [find]
  | cons x xs ih =>
      by_cases hp : pat <+: x :: xs
      · have hb : pat.isPrefixOf (x :: xs) = true := List.isPrefixOf_iff_prefix.mpr hp
        simp [find, hb, hp.isInfix]
      · have hb : pat.isPrefixOf (x :: xs) = false := by
          rw [Bool.eq_false_iff]
          exact fun h => hp (List.isPrefixOf_iff_prefix.mp h)
        simp [find, hb, ih, List.infix_cons_iff, hp]

theorem find_append_of_some
    {pat xs : List α}
    {i : Nat}
    (h : find pat xs = some i)
    (ys : List α) :
    find pat (xs ++ ys) = some i := by
  rw [find_eq_some_iff] at h ⊢
  exact h.append ys

/-- A pattern that only more input completes ends beyond the old input. -/
theorem length_lt_of_find_append
    {pat xs ys : List α}
    {i : Nat}
    (hnone : find pat xs = none)
    (h : find pat (xs ++ ys) = some i) :
    xs.length < i + pat.length := by
  by_contra hle
  have hfirst := ((find_eq_some_iff _ _ _).1 h).of_append (by omega)
  rw [(find_eq_some_iff _ _ _).2 hfirst] at hnone
  cases hnone

theorem find_append_of_unbordered
    {sep : List α}
    (hsep : Unbordered sep)
    {piece : List α}
    (hfree : ¬ sep <:+: piece)
    (rest : List α) :
    find sep (piece ++ sep ++ rest) = some piece.length :=
  (find_eq_some_iff _ _ _).2 (firstAt_append_of_unbordered hsep hfree rest)

/-- Every list is cut into separator-free pieces. -/
theorem exists_pieces
    {sep : List α}
    (hne : sep ≠ [])
    (xs : List α) :
    ∃ piece pieces,
      xs = List.intercalate sep (piece :: pieces) ∧
      ∀ p ∈ piece :: pieces, ¬ sep <:+: p := by
  induction hn : xs.length using Nat.strong_induction_on generalizing xs with
  | _ n ih =>
      cases hfind : find sep xs with
      | none =>
          refine ⟨xs, [], by simp, ?_⟩
          simpa using (find_eq_none_iff _ _).1 hfind
      | some i =>
          have hfirst := (find_eq_some_iff _ _ _).1 hfind
          have hpos : 0 < sep.length := List.length_pos_of_ne_nil hne
          have hle := hfirst.add_length_le
          have hlen : (xs.drop (i + sep.length)).length < n := by
            rw [List.length_drop]
            omega
          obtain ⟨piece, pieces, heq, hfree⟩ := ih _ hlen _ rfl
          refine ⟨xs.take i, piece :: pieces, ?_, ?_⟩
          · rw [List.intercalate_cons_cons, ← heq]
            exact hfirst.eq_take_append
          · intro p hp
            rcases List.mem_cons.mp hp with rfl | hp
            · intro hin
              have hnot : find sep (xs.take i) = none := by
                cases htake : find sep (xs.take i) with
                | none =>
                    rfl
                | some j =>
                    have hj := (find_eq_some_iff _ _ _).1 htake
                    have hj' := hj.append (xs.drop i)
                    rw [List.take_append_drop] at hj'
                    have hij := hfirst.unique hj'
                    have hjle := hj.add_length_le
                    rw [List.length_take] at hjle
                    omega
              exact (find_eq_none_iff _ _).1 hnot hin
            · exact hfree p hp

/-- Searching for one letter fails exactly when the letter is absent. -/
theorem find_singleton_eq_none_iff
    (a : α)
    (xs : List α) :
    find [a] xs = none ↔ a ∉ xs := by
  rw [find_eq_none_iff, singleton_infix_iff]

/-- Searching for one letter cuts the list at its first copy. -/
theorem find_singleton_eq_some_iff
    (a : α)
    (xs : List α)
    (i : Nat) :
    find [a] xs = some i
      ↔
    ∃ front back, xs = front ++ a :: back ∧ a ∉ front ∧ front.length = i := by
  constructor
  · intro h
    have hfirst := (find_eq_some_iff _ _ _).1 h
    have hle := hfirst.add_length_le
    refine ⟨xs.take i, xs.drop (i + 1), ?_, ?_, ?_⟩
    · simpa using hfirst.eq_take_append
    · intro hmem
      obtain ⟨j, hj, hget⟩ := List.mem_iff_getElem.mp hmem
      rw [List.length_take] at hj
      apply hfirst.first j (by omega)
      rw [List.drop_eq_getElem_cons (by omega)]
      rw [List.getElem_take] at hget
      simp [hget]
    · rw [List.length_take]
      simp at hle
      omega
  · rintro ⟨front, back, rfl, hfree, rfl⟩
    have h := find_append_of_unbordered (unbordered_singleton a)
      (mt (singleton_infix_iff a front).1 hfree) back
    simpa using h

/-- Cut a list at the separators, in at most the given number of cuts. -/
def split (sep : List α) : Nat → List α → List (List α)
  | 0, xs => [xs]
  | cuts + 1, xs =>
      match find sep xs with
      | none => [xs]
      | some i => xs.take i :: split sep cuts (xs.drop (i + sep.length))

/-- Splitting recovers pieces without the separator. -/
theorem split_intercalate
    {sep : List α}
    (hsep : Unbordered sep)
    (cuts : Nat)
    (piece : List α)
    (pieces : List (List α))
    (hfree : ∀ p ∈ piece :: pieces, ¬ sep <:+: p)
    (hcuts : pieces.length ≤ cuts) :
    split sep cuts (List.intercalate sep (piece :: pieces)) = piece :: pieces := by
  induction pieces generalizing cuts piece with
  | nil =>
      have hnone : find sep piece = none := (find_eq_none_iff _ _).2 (hfree piece (by simp))
      cases cuts with
      | zero => simp [split]
      | succ cuts => simp [split, hnone]
  | cons next pieces ih =>
      obtain ⟨cuts, rfl⟩ : ∃ k, cuts = k + 1 := ⟨cuts - 1, by simp at hcuts; omega⟩
      have hsome := find_append_of_unbordered hsep (hfree piece (by simp))
        (List.intercalate sep (next :: pieces))
      rw [List.intercalate_cons_cons, split, hsome]
      dsimp only
      rw [List.append_assoc, List.take_left, ← List.append_assoc, ← List.length_append,
        List.drop_left, ih cuts next (fun p hp => hfree p (by simp [hp])) (by simpa using hcuts)]

end Search

end Occurrence
