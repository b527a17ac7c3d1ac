import HttpServer.Lib.Occurrence

/-!
# Reading a section line by line

A reader takes lines from its input up to the first empty line.  What ends a line
is a parameter, so that two readers that differ only in that can be compared.

* `readSection`: the lines of a section and what is behind its end;
* `readSection_lines`: lines that are written with one ending are read back by
  every cut that recognises this ending behind each of them;
* `forall_mem_of_readSection`: what a cut guarantees of a line holds of all lines;
* `cutAt`, `cutAtLetter`: lines that end in a separator, and lines that end in a
  letter with an optional letter in front of it.
-/

namespace LineReader

open Occurrence

universe u

section Sections

variable {α : Type u}

/-- A way of ending lines: the first line of an input and what is behind its end. -/
abbrev Cut (α : Type u) := List α → Option (List α × List α)

/-- Read lines up to the first empty one, in at most the given number of rounds. -/
def readSection (cut : Cut α) : Nat → List α → Option (List (List α) × List α)
  | 0, _ => none
  | rounds + 1, xs =>
      match cut xs with
      | none => none
      | some (line, rest) =>
          if line.isEmpty then some ([], rest)
          else (readSection cut rounds rest).map (fun tail => (line :: tail.1, tail.2))

variable {cut : Cut α}

/-- Lines that the cut ends where they were ended are read back. -/
theorem readSection_lines
    {ending tail : List α}
    (hempty : cut (ending ++ tail) = some ([], tail))
    (lines : List (List α))
    (hcut : ∀ line ∈ lines, ∀ rest, cut (line ++ ending ++ rest) = some (line, rest))
    (hlines : ∀ line ∈ lines, line ≠ [])
    {rounds : Nat}
    (hrounds : lines.length < rounds) :
    readSection cut rounds ((lines.map (fun line => line ++ ending)).flatten ++ (ending ++ tail)) =
      some (lines, tail) := by
  induction lines generalizing rounds with
  | nil =>
      obtain ⟨n, rfl⟩ : ∃ n, rounds = n + 1 := ⟨rounds - 1, by omega⟩
      simp [readSection, hempty]
  | cons line lines ih =>
      obtain ⟨n, rfl⟩ : ∃ n, rounds = n + 1 := ⟨rounds - 1, by omega⟩
      have hrest := ih (fun l hl => hcut l (by simp [hl])) (fun l hl => hlines l (by simp [hl]))
        (by simpa using hrounds)
      have hne : line.isEmpty = false := by simpa using hlines line (by simp)
      rw [List.map_cons, List.flatten_cons, List.append_assoc, readSection,
        hcut line (by simp)]
      simp [hne, hrest]

/-- What a cut guarantees of a line holds of every line of a section. -/
theorem forall_mem_of_readSection
    {P : List α → Prop}
    (hcut : ∀ xs line rest, cut xs = some (line, rest) → P line)
    {rounds : Nat}
    {xs : List α}
    {lines : List (List α)}
    {tail : List α}
    (h : readSection cut rounds xs = some (lines, tail)) :
    ∀ line ∈ lines, P line := by
  induction rounds generalizing xs lines with
  | zero => simp [readSection] at h
  | succ rounds ih =>
      rw [readSection] at h
      cases hfirst : cut xs with
      | none => simp [hfirst] at h
      | some first =>
          obtain ⟨line, rest⟩ := first
          simp only [hfirst] at h
          split_ifs at h with hempty
          · cases h
            simp
          · obtain ⟨⟨lines', tail'⟩, hrest, heq⟩ := Option.map_eq_some_iff.1 h
            cases heq
            intro l hl
            rcases List.mem_cons.1 hl with rfl | hl
            · exact hcut _ _ _ hfirst
            · exact ih hrest l hl

end Sections

section Cuts

variable {α : Type u} [DecidableEq α]

/-- A line ends at the first separator. -/
def cutAt (sep : List α) : Cut α := fun xs =>
  (find sep xs).map (fun i => (xs.take i, xs.drop (i + sep.length)))

/-- Drop a letter from the end, if it stands there. -/
def dropLastLetter (a : α) (xs : List α) : List α :=
  if xs.getLast? = some a then xs.dropLast else xs

/-- A line ends at the first copy of a letter; another letter in front of it is part of the end. -/
def cutAtLetter (optional letter : α) : Cut α := fun xs =>
  (find [letter] xs).map (fun i => (dropLastLetter optional (xs.take i), xs.drop (i + 1)))

theorem cutAt_append
    {sep line : List α}
    (hsep : Unbordered sep)
    (hfree : ¬ sep <:+: line)
    (rest : List α) :
    cutAt sep (line ++ sep ++ rest) = some (line, rest) := by
  unfold cutAt
  rw [find_append_of_unbordered hsep hfree]
  have hdrop : (line ++ sep ++ rest).drop (line.length + sep.length) = rest := by
    rw [← List.length_append, List.drop_left]
  rw [Option.map_some, hdrop, List.append_assoc, List.take_left]

variable {optional letter : α}

theorem cutAtLetter_append
    {line : List α}
    (hne : optional ≠ letter)
    (hfree : letter ∉ line)
    (rest : List α) :
    cutAtLetter optional letter (line ++ [optional, letter] ++ rest) = some (line, rest) := by
  have hinput : line ++ [optional, letter] ++ rest = (line ++ [optional]) ++ letter :: rest := by
    simp
  have hlen : (line ++ [optional]).length = line.length + 1 := by simp
  have hfind : find [letter] ((line ++ [optional]) ++ letter :: rest) =
      some (line ++ [optional]).length :=
    (find_singleton_eq_some_iff _ _ _).2 ⟨_, rest, rfl, by simp [hfree, hne.symm], rfl⟩
  unfold cutAtLetter
  rw [hinput, hfind, Option.map_some, List.take_left, ← List.drop_drop, List.drop_left]
  simp [dropLastLetter]

/-- A line that ends at its first copy of a letter does not contain it. -/
theorem not_mem_of_cutAtLetter
    {xs line rest : List α}
    (h : cutAtLetter optional letter xs = some (line, rest)) :
    letter ∉ line := by
  obtain ⟨i, hfind, heq⟩ := Option.map_eq_some_iff.1 h
  obtain ⟨front, back, rfl, hfree, rfl⟩ := (find_singleton_eq_some_iff _ _ _).1 hfind
  cases heq
  rw [List.take_left, dropLastLetter]
  split_ifs
  · exact fun hmem => hfree (List.dropLast_subset _ hmem)
  · exact hfree

end Cuts

end LineReader
