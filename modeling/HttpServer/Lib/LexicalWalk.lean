import HttpServer.Lib.PathWalk

/-!
# Paths that are read as text

Read as text, a path moves a list of names: `up` removes the last one and an entry
adds one, whatever the tree holds.  `trail` lists the names after each element.  As
long as no symbolic link lies on the trail, the tree can only cut a walk short:

* `walk_eq_or_notFound`: the walk ends where the text ends, or finds nothing;
* `node_eq_directory_of_trailing`: a walk that ends in `here` or `up` ends in a directory;
* `walk_of_missing`: names that the tree does not hold are not found.
-/

namespace PathWalk

universe u v

section Text

variable {α : Type u}

/-- What an element makes of the names in front of it. -/
def move (names : List α) : Element α → List α
  | .here => names
  | .up => names.dropLast
  | .entry name => names ++ [name]

/-- The names in front of the first element and behind each one. -/
def trail : List α → List (Element α) → List (List α)
  | names, [] => [names]
  | names, element :: rest => names :: trail (move names element) rest

theorem mem_trail_self
    (names : List α)
    (elements : List (Element α)) :
    names ∈ trail names elements := by
  cases elements <;> simp [trail]

theorem mem_trail_append
    {names path : List α}
    {front back : List (Element α)} :
    path ∈ trail names (front ++ back) ↔
      path ∈ trail names front ∨ path ∈ trail (front.foldl move names) back := by
  induction front generalizing names with
  | nil =>
      simp only [List.nil_append, List.foldl_nil, trail, List.mem_singleton]
      constructor
      · exact Or.inr
      · rintro (rfl | h)
        · exact mem_trail_self _ back
        · exact h
  | cons element front ih =>
      simp only [List.cons_append, List.foldl_cons, trail, List.mem_cons, ih, or_assoc]

theorem foldl_names
    (names more : List α) :
    (more.map Element.entry).foldl move names = names ++ more := by
  induction more generalizing names with
  | nil => simp
  | cons name more ih => simp [move, ih]

/-- The trail of names passes their beginnings. -/
theorem exists_of_mem_trail_names
    {names more path : List α}
    (h : path ∈ trail names (more.map .entry)) :
    path <+: names ++ more := by
  induction more generalizing names with
  | nil =>
      simp only [List.map_nil, trail, List.mem_singleton] at h
      simp [h]
  | cons name more ih =>
      simp only [List.map_cons, trail, move, List.mem_cons] at h
      rcases h with rfl | h
      · exact List.prefix_append _ _
      · simpa using ih h

/-- The normal form keeps the names at the end of the trail. -/
theorem normalLoop_fst
    (names : List α)
    (trailing : Bool)
    (elements : List (Element α)) :
    (normalLoop names trailing elements).1 = elements.foldl move names := by
  induction elements generalizing names trailing with
  | nil => rfl
  | cons element rest ih => cases element <;> exact ih _ _

theorem normalLoop_append
    (names : List α)
    (trailing : Bool)
    (front back : List (Element α)) :
    normalLoop names trailing (front ++ back) =
      normalLoop (front.foldl move names) (normalLoop names trailing front).2 back := by
  induction front generalizing names trailing with
  | nil => rfl
  | cons element front ih => cases element <;> exact ih _ _

/-- Only the last element says whether a name stands at the end. -/
theorem normalLoop_of_ne_nil
    (names : List α)
    (trailing trailing' : Bool)
    {elements : List (Element α)}
    (hne : elements ≠ []) :
    normalLoop names trailing elements = normalLoop names trailing' elements := by
  cases elements with
  | nil => exact absurd rfl hne
  | cons element rest => cases element <;> rfl

end Text

section Links

variable {α : Type u} {φ : Type v} {T : Tree α φ}

/-- No symbolic link lies on the trail of a path. -/
def Unlinked (T : Tree α φ) (names : List α) (elements : List (Element α)) : Prop :=
  ∀ path ∈ trail names elements, ∀ absolute target,
    T.node path ≠ some (.symlink absolute target)

def Node.isSymlink : Option (Node α φ) → Bool
  | some (.symlink _ _) => true
  | _ => false

theorem unlinked_iff
    {names : List α}
    {elements : List (Element α)} :
    Unlinked T names elements ↔
      ∀ path ∈ trail names elements, Node.isSymlink (T.node path) = false := by
  refine forall₂_congr (fun path _ => ?_)
  cases hnode : T.node path with
  | none => simp [Node.isSymlink]
  | some node => cases node <;> simp [Node.isSymlink]

instance (names : List α) (elements : List (Element α)) : Decidable (Unlinked T names elements) :=
  decidable_of_iff _ unlinked_iff.symm

theorem Unlinked.tail
    {names : List α}
    {element : Element α}
    {rest : List (Element α)}
    (h : Unlinked T names (element :: rest)) :
    Unlinked T (move names element) rest :=
  fun path hpath => h path (List.mem_cons_of_mem _ hpath)

theorem unlinked_append
    {names : List α}
    {front back : List (Element α)} :
    Unlinked T names (front ++ back) ↔
      Unlinked T names front ∧ Unlinked T (front.foldl move names) back := by
  unfold Unlinked
  simp only [mem_trail_append, or_imp, forall_and]

/-- What a node on an unlinked trail can be. -/
theorem Unlinked.isReal_or_none
    {names : List α}
    {elements : List (Element α)}
    (h : Unlinked T names elements)
    {path : List α}
    (hpath : path ∈ trail names elements) :
    T.node path = none ∨ T.IsReal path := by
  cases hnode : T.node path with
  | none => exact Or.inl rfl
  | some node =>
      cases node with
      | directory => exact Or.inr (Or.inl hnode)
      | regular file => exact Or.inr (Or.inr ⟨file, hnode⟩)
      | symlink absolute target => exact absurd hnode (h path hpath absolute target)

/-- Without links, a walk ends where the text ends, or finds nothing. -/
theorem walk_eq_or_notFound
    (links : Nat)
    {dir : List α}
    {elements : List (Element α)}
    (h : Unlinked T dir elements) :
    walk T links dir elements = .found (elements.foldl move dir) ∨
      walk T links dir elements = .notFound := by
  simp only [walk_eq_iff]
  induction elements generalizing dir with
  | nil => exact Or.inl .done
  | cons element rest ih =>
      by_cases hdir : T.node dir = some .directory
      · cases element with
        | here => exact (ih h.tail).imp (Walks.here hdir) (Walks.here hdir)
        | up => exact (ih h.tail).imp (Walks.up hdir) (Walks.up hdir)
        | entry name =>
            rcases h.isReal_or_none (List.mem_cons_of_mem _ (mem_trail_self _ rest)) with
              hname | hname
            · exact Or.inr (.missing hdir hname)
            · exact (ih h.tail).imp (Walks.real hdir hname) (Walks.real hdir hname)
      · exact Or.inr (.blocked hdir)

theorem walk_ne_tooManyLinks
    (links : Nat)
    {dir : List α}
    {elements : List (Element α)}
    (h : Unlinked T dir elements) :
    walk T links dir elements ≠ .tooManyLinks := by
  rcases walk_eq_or_notFound links h with hwalk | hwalk <;> simp [hwalk]

theorem eq_foldl_of_walk
    {links : Nat}
    {dir path : List α}
    {elements : List (Element α)}
    (h : Unlinked T dir elements)
    (hwalk : walk T links dir elements = .found path) :
    path = elements.foldl move dir := by
  rcases walk_eq_or_notFound links h with hfound | hmissing
  · rw [hfound] at hwalk
    cases hwalk
    rfl
  · rw [hmissing] at hwalk
    cases hwalk

theorem node_dropLast_of_directory
    {dir : List α}
    (hdir : T.node dir = some .directory) :
    T.node dir.dropLast = some .directory := by
  rcases List.eq_nil_or_concat dir with rfl | ⟨front, name, rfl⟩
  · exact hdir
  · rw [List.concat_eq_append] at hdir ⊢
    rw [List.dropLast_concat]
    exact T.parentDirectory front name (by simp [hdir])

/-- A walk that ends in an element which is no name ends in a directory. -/
theorem node_eq_directory_of_trailing
    {links : Nat}
    {dir path : List α}
    {elements : List (Element α)}
    (h : Unlinked T dir elements)
    (hwalk : walk T links dir elements = .found path)
    {trailing : Bool}
    (hstart : trailing = true → T.node dir = some .directory)
    (htrailing : (normalLoop dir trailing elements).2 = true) :
    T.node path = some .directory := by
  rw [walk_eq_iff] at hwalk
  generalize hr : Resolution.found path = r at hwalk
  -- The mark is set behind `here` and `up` only, and both need a directory.
  induction hwalk generalizing trailing with
  | done =>
      cases hr
      exact hstart htrailing
  | here hdir _ ih => exact ih h.tail (fun _ => hdir) htrailing hr
  | up hdir _ ih =>
      exact ih h.tail (fun _ => node_dropLast_of_directory hdir) htrailing hr
  | link _ hname =>
      exact absurd hname (h _ (List.mem_cons_of_mem _ (mem_trail_self _ _)) _ _)
  | real _ _ _ ih => exact ih h.tail (by simp) htrailing hr
  | blocked => cases hr
  | missing => cases hr
  | exhausted => cases hr

/-- No beginning of a list of names is a link. -/
def Direct (T : Tree α φ) (names : List α) : Prop :=
  ∀ path, path <+: names → ∀ absolute target, T.node path ≠ some (.symlink absolute target)

theorem direct_of_isReal
    {names : List α}
    (h : T.IsReal names) :
    Direct T names := by
  rintro path ⟨back, rfl⟩ absolute target hlink
  cases back with
  | nil =>
      rw [List.append_nil] at h
      exact h.not_symlink hlink
  | cons name back =>
      have hdir := node_directory_of_append path (by simp) h.ne_none
      simp [hdir] at hlink

/-- Moving along a trail without links leaves the beginnings of the names direct. -/
theorem Direct.foldl
    {names : List α}
    {elements : List (Element α)}
    (hnames : Direct T names)
    (h : Unlinked T names elements) :
    Direct T (elements.foldl move names) := by
  induction elements generalizing names with
  | nil => exact hnames
  | cons element rest ih =>
      refine ih ?_ h.tail
      cases element with
      | here => exact hnames
      | up => exact fun path hpath => hnames path (hpath.trans (List.dropLast_prefix names))
      | entry name =>
          intro path hpath
          rcases List.prefix_concat_iff.1 (by simpa [move] using hpath) with rfl | hpath
          · exact h _ (List.mem_cons_of_mem _ (mem_trail_self _ rest))
          · exact hnames path hpath

theorem Direct.unlinked
    {names : List α}
    (h : Direct T names) :
    Unlinked T [] (names.map .entry) :=
  fun path hpath => h path (by simpa using exists_of_mem_trail_names hpath)

/-- Names that the tree does not hold are not found, whatever follows them. -/
theorem walk_of_missing
    (links : Nat)
    {names : List α}
    (h : Direct T names)
    (hmissing : T.node names = none)
    (rest : List (Element α)) :
    walk T links [] (names.map .entry ++ rest) = .notFound := by
  refine walk_append_of_notFound ?_ rest
  rcases walk_eq_or_notFound links h.unlinked with hfound | hnone
  · have hreal := isReal_of_walk hfound
    rw [foldl_names, List.nil_append] at hreal
    exact absurd hmissing hreal.ne_none
  · exact hnone

end Links

end PathWalk
