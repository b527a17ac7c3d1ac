import Mathlib.Tactic

/-!
# Path resolution in a tree with symbolic links

A tree maps real paths (lists of names from the root) to nodes.  Resolving a
path walks down from a real directory, element by element; a symbolic link
replaces the rest of the walk by its target followed by that rest, and only a
bounded number of links is followed.

`walk` computes the answer; `Walks` is the same answer as a derivation, one
constructor for each thing a step can meet, and every fact about walks is an
induction on it:

* `walk_append_of_found`, `walk_append_of_notFound`: a walk is the walk of its
  beginning followed by the walk of its end;
* `walk_mono`: an answer other than "too many links" does not depend on the bound;
* `isReal_of_walk`, `walk_names`: a found path is real, and a real path resolves
  to itself without following any link;
* `lexicalNormal_of_no_up`: the normal form, which never looks at the tree, only
  extends a path of names as long as no `up` follows.
-/

namespace PathWalk

universe u v

/-- One element of a path. -/
inductive Element (α : Type u)
  | here
  | up
  | entry (name : α)
deriving DecidableEq

/-- What a tree holds at a real path. -/
inductive Node (α : Type u) (φ : Type v)
  | directory
  | regular (file : φ)
  | symlink (absolute : Bool) (target : List (Element α))

/-- A tree: entries exist only in directories. -/
structure Tree (α : Type u) (φ : Type v) where
  node : List α → Option (Node α φ)
  rootDirectory : node [] = some .directory
  parentDirectory : ∀ dir name, node (dir ++ [name]) ≠ none → node dir = some .directory

/-- The end of a walk. -/
inductive Resolution (α : Type u)
  | found (path : List α)
  | notFound
  | tooManyLinks
deriving DecidableEq

section Walk

variable {α : Type u} {φ : Type v}

/-- Walk down from a real path; `follow` continues behind a link. -/
def scan (T : Tree α φ) (follow : List α → List (Element α) → Resolution α) :
    List α → List (Element α) → Resolution α
  | dir, [] => .found dir
  | dir, element :: rest =>
      match T.node dir with
      | some .directory =>
          match element with
          | .here => scan T follow dir rest
          | .up => scan T follow dir.dropLast rest
          | .entry name =>
              match T.node (dir ++ [name]) with
              | none => .notFound
              | some (.symlink absolute target) =>
                  follow (if absolute then [] else dir) (target ++ rest)
              | some _ => scan T follow (dir ++ [name]) rest
      | _ => .notFound

/-- Walk, following at most the given number of links. -/
def walk (T : Tree α φ) : Nat → List α → List (Element α) → Resolution α
  | 0 => scan T (fun _ _ => .tooManyLinks)
  | links + 1 => scan T (walk T links)

/-- A path at which the tree holds something other than a link. -/
def Tree.IsReal (T : Tree α φ) (path : List α) : Prop :=
  T.node path = some .directory ∨ ∃ file, T.node path = some (.regular file)

/-- The derivations of a walk. -/
inductive Walks (T : Tree α φ) :
    Nat → List α → List (Element α) → Resolution α → Prop
  | done {links : Nat} {dir : List α} :
      Walks T links dir [] (.found dir)
  | blocked {links : Nat} {dir : List α} {element : Element α} {rest : List (Element α)}
      (hdir : T.node dir ≠ some .directory) :
      Walks T links dir (element :: rest) .notFound
  | here {links : Nat} {dir : List α} {rest : List (Element α)} {r : Resolution α}
      (hdir : T.node dir = some .directory)
      (h : Walks T links dir rest r) :
      Walks T links dir (.here :: rest) r
  | up {links : Nat} {dir : List α} {rest : List (Element α)} {r : Resolution α}
      (hdir : T.node dir = some .directory)
      (h : Walks T links dir.dropLast rest r) :
      Walks T links dir (.up :: rest) r
  | missing {links : Nat} {dir : List α} {name : α} {rest : List (Element α)}
      (hdir : T.node dir = some .directory)
      (hname : T.node (dir ++ [name]) = none) :
      Walks T links dir (.entry name :: rest) .notFound
  | exhausted {dir : List α} {name : α} {absolute : Bool} {target rest : List (Element α)}
      (hdir : T.node dir = some .directory)
      (hname : T.node (dir ++ [name]) = some (.symlink absolute target)) :
      Walks T 0 dir (.entry name :: rest) .tooManyLinks
  | link {links : Nat} {dir : List α} {name : α} {absolute : Bool}
      {target rest : List (Element α)} {r : Resolution α}
      (hdir : T.node dir = some .directory)
      (hname : T.node (dir ++ [name]) = some (.symlink absolute target))
      (h : Walks T links (if absolute then [] else dir) (target ++ rest) r) :
      Walks T (links + 1) dir (.entry name :: rest) r
  | real {links : Nat} {dir : List α} {name : α} {rest : List (Element α)} {r : Resolution α}
      (hdir : T.node dir = some .directory)
      (hname : T.IsReal (dir ++ [name]))
      (h : Walks T links (dir ++ [name]) rest r) :
      Walks T links dir (.entry name :: rest) r

variable (T : Tree α φ)

/-- One level of the walk, given derivations for what lies behind a link. -/
theorem walks_scan
    (links : Nat)
    (follow : List α → List (Element α) → Resolution α)
    (hlink : ∀ dir name absolute target rest,
      T.node dir = some .directory →
      T.node (dir ++ [name]) = some (.symlink absolute target) →
      Walks T links dir (.entry name :: rest)
        (follow (if absolute then [] else dir) (target ++ rest)))
    (dir : List α)
    (elements : List (Element α)) :
    Walks T links dir elements (scan T follow dir elements) := by
  induction elements generalizing dir with
  | nil =>
      exact .done
  | cons element rest ih =>
      by_cases hdir : T.node dir = some .directory
      · cases element with
        | here =>
            have heq : scan T follow dir (.here :: rest) = scan T follow dir rest := by
              rw [scan, hdir]
            rw [heq]
            exact .here hdir (ih dir)
        | up =>
            have heq : scan T follow dir (.up :: rest) = scan T follow dir.dropLast rest := by
              rw [scan, hdir]
            rw [heq]
            exact .up hdir (ih dir.dropLast)
        | entry name =>
            cases hname : T.node (dir ++ [name]) with
            | none =>
                have heq : scan T follow dir (.entry name :: rest) = .notFound := by
                  simp [scan, hdir, hname]
                rw [heq]
                exact .missing hdir hname
            | some node =>
                cases node with
                | symlink absolute target =>
                    have heq : scan T follow dir (.entry name :: rest) =
                        follow (if absolute then [] else dir) (target ++ rest) := by
                      simp [scan, hdir, hname]
                    rw [heq]
                    exact hlink dir name absolute target rest hdir hname
                | directory =>
                    have heq : scan T follow dir (.entry name :: rest) =
                        scan T follow (dir ++ [name]) rest := by
                      simp [scan, hdir, hname]
                    rw [heq]
                    exact .real hdir (Or.inl hname) (ih (dir ++ [name]))
                | regular file =>
                    have heq : scan T follow dir (.entry name :: rest) =
                        scan T follow (dir ++ [name]) rest := by
                      simp [scan, hdir, hname]
                    rw [heq]
                    exact .real hdir (Or.inr ⟨file, hname⟩) (ih (dir ++ [name]))
      · have heq : scan T follow dir (element :: rest) = .notFound := by
          unfold scan
          split
          · rename_i h
            exact absurd h hdir
          · rfl
        rw [heq]
        exact .blocked hdir

theorem walks_walk
    (links : Nat)
    (dir : List α)
    (elements : List (Element α)) :
    Walks T links dir elements (walk T links dir elements) := by
  induction links generalizing dir elements with
  | zero =>
      exact walks_scan T 0 _ (fun _ _ _ _ _ hdir hname => .exhausted hdir hname) dir elements
  | succ links ih =>
      exact walks_scan T (links + 1) _
        (fun _ _ _ _ _ hdir hname => .link hdir hname (ih _ _)) dir elements

variable {T}

theorem Tree.IsReal.not_symlink
    {path : List α}
    {absolute : Bool}
    {target : List (Element α)}
    (h : T.IsReal path) :
    T.node path ≠ some (.symlink absolute target) := by
  rcases h with h | ⟨file, h⟩ <;> simp [h]

theorem Tree.isReal_of_not_symlink
    {path : List α}
    (hexists : T.node path ≠ none)
    (hplain : ∀ absolute target, T.node path ≠ some (.symlink absolute target)) :
    T.IsReal path := by
  cases hnode : T.node path with
  | none => exact absurd hnode hexists
  | some node =>
      cases node with
      | directory => exact Or.inl hnode
      | regular file => exact Or.inr ⟨file, hnode⟩
      | symlink absolute target => exact absurd hnode (hplain absolute target)

theorem Tree.IsReal.ne_none
    {path : List α}
    (h : T.IsReal path) :
    T.node path ≠ none := by
  rcases h with h | ⟨file, h⟩ <;> simp [h]

/-- Two derivations for the same walk have the same answer. -/
theorem Walks.unique
    {links : Nat}
    {dir : List α}
    {elements : List (Element α)}
    {r r' : Resolution α}
    (h : Walks T links dir elements r)
    (h' : Walks T links dir elements r') :
    r = r' := by
  induction h with
  | done =>
      cases h'
      rfl
  | blocked hdir =>
      cases h' with
      | blocked => rfl
      | here hdir' => exact absurd hdir' hdir
      | up hdir' => exact absurd hdir' hdir
      | missing hdir' => exact absurd hdir' hdir
      | exhausted hdir' => exact absurd hdir' hdir
      | link hdir' => exact absurd hdir' hdir
      | real hdir' => exact absurd hdir' hdir
  | here hdir h ih =>
      cases h' with
      | blocked hdir' => exact absurd hdir hdir'
      | here _ h' => exact ih h'
  | up hdir h ih =>
      cases h' with
      | blocked hdir' => exact absurd hdir hdir'
      | up _ h' => exact ih h'
  | missing hdir hname =>
      cases h' with
      | blocked => rfl
      | missing => rfl
      | exhausted _ hname' => simp [hname] at hname'
      | link _ hname' => simp [hname] at hname'
      | real _ hname' => exact absurd hname hname'.ne_none
  | exhausted hdir hname =>
      cases h' with
      | blocked hdir' => exact absurd hdir hdir'
      | missing _ hname' => simp [hname] at hname'
      | exhausted => rfl
      | real _ hname' => exact absurd hname hname'.not_symlink
  | link hdir hname h ih =>
      cases h' with
      | blocked hdir' => exact absurd hdir hdir'
      | missing _ hname' => simp [hname] at hname'
      | link _ hname' h' =>
          rw [hname] at hname'
          cases hname'
          exact ih h'
      | real _ hname' => exact absurd hname hname'.not_symlink
  | real hdir hname h ih =>
      cases h' with
      | blocked hdir' => exact absurd hdir hdir'
      | missing _ hname' => exact absurd hname' hname.ne_none
      | exhausted _ hname' => exact absurd hname' hname.not_symlink
      | link _ hname' => exact absurd hname' hname.not_symlink
      | real _ _ h' => exact ih h'

/-- The function and its derivations agree. -/
theorem walk_eq_iff
    {links : Nat}
    {dir : List α}
    {elements : List (Element α)}
    {r : Resolution α} :
    walk T links dir elements = r ↔ Walks T links dir elements r := by
  constructor
  · rintro rfl
    exact walks_walk T links dir elements
  · intro h
    exact (walks_walk T links dir elements).unique h

theorem isReal_nil : T.IsReal [] :=
  Or.inl T.rootDirectory

/-- What lies above an entry is a directory. -/
theorem node_directory_of_append
    (front : List α)
    {back : List α}
    (hback : back ≠ [])
    (h : T.node (front ++ back) ≠ none) :
    T.node front = some .directory := by
  induction back using List.reverseRecOn with
  | nil =>
      exact absurd rfl hback
  | append_singleton back name ih =>
      rw [← List.append_assoc] at h
      have hdir := T.parentDirectory _ _ h
      cases back with
      | nil =>
          simpa using hdir
      | cons first rest =>
          exact ih (by simp) (by simp [hdir])

theorem isReal_dropLast
    {dir : List α}
    (hdir : T.node dir = some .directory) :
    T.IsReal dir.dropLast := by
  rcases List.eq_nil_or_concat dir with rfl | ⟨front, name, rfl⟩
  · exact isReal_nil
  · rw [List.concat_eq_append, List.dropLast_concat]
    rw [List.concat_eq_append] at hdir
    exact Or.inl (T.parentDirectory front name (by simp [hdir]))

/-- A walk from a real path ends in a real path. -/
theorem isReal_of_walks
    {links : Nat}
    {dir : List α}
    {elements : List (Element α)}
    {r : Resolution α}
    (h : Walks T links dir elements r)
    (hreal : T.IsReal dir)
    {path : List α}
    (hr : r = .found path) :
    T.IsReal path := by
  induction h with
  | done =>
      cases hr
      exact hreal
  | blocked => cases hr
  | here _ _ ih => exact ih hreal hr
  | up hdir _ ih => exact ih (isReal_dropLast hdir) hr
  | missing => cases hr
  | exhausted => cases hr
  | @link _ _ _ absolute _ _ _ _ _ _ ih =>
      refine ih ?_ hr
      cases absolute with
      | true => exact isReal_nil
      | false => exact hreal
  | real _ hname _ ih => exact ih hname hr

theorem isReal_of_walk
    {links : Nat}
    {elements : List (Element α)}
    {path : List α}
    (h : walk T links [] elements = .found path) :
    T.IsReal path :=
  isReal_of_walks (walk_eq_iff.1 h) isReal_nil rfl

/-- Behind a found beginning, a walk goes on with the links that are left. -/
theorem walk_append_of_found
    {links : Nat}
    {dir path : List α}
    {front : List (Element α)}
    (h : walk T links dir front = .found path) :
    ∃ left, left ≤ links ∧
      ∀ back, walk T links dir (front ++ back) = walk T left path back := by
  have hw := walk_eq_iff.1 h
  clear h
  generalize hr : Resolution.found path = r at hw
  have hmain : ∃ left, left ≤ links ∧
      ∀ back, Walks T links dir (front ++ back) (walk T left path back) := by
    induction hw with
    | @done links dir =>
        cases hr
        exact ⟨links, le_refl _, fun back => walks_walk T links path back⟩
    | blocked => cases hr
    | here hdir _ ih =>
        obtain ⟨left, hle, hback⟩ := ih hr
        exact ⟨left, hle, fun back => .here hdir (hback back)⟩
    | up hdir _ ih =>
        obtain ⟨left, hle, hback⟩ := ih hr
        exact ⟨left, hle, fun back => .up hdir (hback back)⟩
    | missing => cases hr
    | exhausted => cases hr
    | link hdir hname _ ih =>
        obtain ⟨left, hle, hback⟩ := ih hr
        refine ⟨left, by omega, fun back => .link hdir hname ?_⟩
        simpa using hback back
    | real hdir hname _ ih =>
        obtain ⟨left, hle, hback⟩ := ih hr
        exact ⟨left, hle, fun back => .real hdir hname (hback back)⟩
  obtain ⟨left, hle, hback⟩ := hmain
  exact ⟨left, hle, fun back => walk_eq_iff.2 (hback back)⟩

/-- What is missing at the beginning of a path is missing. -/
theorem walk_append_of_notFound
    {links : Nat}
    {dir : List α}
    {front : List (Element α)}
    (h : walk T links dir front = .notFound)
    (back : List (Element α)) :
    walk T links dir (front ++ back) = .notFound := by
  have hw := walk_eq_iff.1 h
  rw [walk_eq_iff]
  clear h
  generalize hr : Resolution.notFound = r at hw ⊢
  induction hw with
  | done => cases hr
  | blocked hdir => exact .blocked hdir
  | here hdir _ ih => exact .here hdir (ih hr)
  | up hdir _ ih => exact .up hdir (ih hr)
  | missing hdir hname => exact .missing hdir hname
  | exhausted => cases hr
  | link hdir hname _ ih =>
      refine .link hdir hname ?_
      simpa using ih hr
  | real hdir hname _ ih => exact .real hdir hname (ih hr)

/-- The beginning of a path that is found is found. -/
theorem walk_found_of_append
    {links : Nat}
    {dir path : List α}
    {front back : List (Element α)}
    (h : walk T links dir (front ++ back) = .found path) :
    ∃ path', walk T links dir front = .found path' := by
  have hw := walk_eq_iff.1 h
  suffices hmain : ∃ path', Walks T links dir front (.found path') by
    obtain ⟨path', hpath'⟩ := hmain
    exact ⟨path', walk_eq_iff.2 hpath'⟩
  clear h
  generalize hes : front ++ back = elements at hw
  generalize hr : Resolution.found path = r at hw
  induction hw generalizing front with
  | done =>
      obtain ⟨rfl, rfl⟩ := List.append_eq_nil_iff.1 hes
      exact ⟨_, .done⟩
  | blocked => cases hr
  | missing => cases hr
  | exhausted => cases hr
  | here hdir _ ih =>
      cases front with
      | nil => exact ⟨_, .done⟩
      | cons element front =>
          obtain ⟨rfl, hrest⟩ := List.cons.inj hes
          obtain ⟨path', hpath'⟩ := ih hrest hr
          exact ⟨path', .here hdir hpath'⟩
  | up hdir _ ih =>
      cases front with
      | nil => exact ⟨_, .done⟩
      | cons element front =>
          obtain ⟨rfl, hrest⟩ := List.cons.inj hes
          obtain ⟨path', hpath'⟩ := ih hrest hr
          exact ⟨path', .up hdir hpath'⟩
  | @link _ _ _ _ target rest _ hdir hname _ ih =>
      cases front with
      | nil => exact ⟨_, .done⟩
      | cons element front =>
          obtain ⟨rfl, hrest⟩ := List.cons.inj hes
          have hassoc : (target ++ front) ++ back = target ++ rest := by
            rw [List.append_assoc, ← hrest]
            rfl
          obtain ⟨path', hpath'⟩ := ih hassoc hr
          exact ⟨path', .link hdir hname hpath'⟩
  | real hdir hname _ ih =>
      cases front with
      | nil => exact ⟨_, .done⟩
      | cons element front =>
          obtain ⟨rfl, hrest⟩ := List.cons.inj hes
          obtain ⟨path', hpath'⟩ := ih hrest hr
          exact ⟨path', .real hdir hname hpath'⟩

/-- A definite answer stays when more links may be followed. -/
theorem walk_mono
    {links links' : Nat}
    {dir : List α}
    {elements : List (Element α)}
    (hle : links ≤ links')
    (hr : walk T links dir elements ≠ .tooManyLinks) :
    walk T links' dir elements = walk T links dir elements := by
  have hw := walks_walk T links dir elements
  rw [walk_eq_iff]
  generalize walk T links dir elements = r at hw hr
  induction hw generalizing links' with
  | done => exact .done
  | blocked hdir => exact .blocked hdir
  | here hdir _ ih => exact .here hdir (ih hle hr)
  | up hdir _ ih => exact .up hdir (ih hle hr)
  | missing hdir hname => exact .missing hdir hname
  | exhausted => exact absurd rfl hr
  | link hdir hname _ ih =>
      obtain ⟨k, rfl⟩ : ∃ k, links' = k + 1 := ⟨links' - 1, by omega⟩
      exact .link hdir hname (ih (by omega) hr)
  | real hdir hname _ ih => exact .real hdir hname (ih hle hr)

/-- A real path is walked name by name, without following a link. -/
theorem walk_names
    (links : Nat)
    (dir names : List α)
    (hreal : T.IsReal (dir ++ names))
    (rest : List (Element α)) :
    walk T links dir (names.map .entry ++ rest) = walk T links (dir ++ names) rest := by
  induction names generalizing dir with
  | nil =>
      simp
  | cons name names ih =>
      have hdir := node_directory_of_append dir (by simp) hreal.ne_none
      have hassoc : dir ++ name :: names = (dir ++ [name]) ++ names := by simp
      rw [hassoc] at hreal ⊢
      have hname : T.IsReal (dir ++ [name]) := by
        cases names with
        | nil =>
            simpa using hreal
        | cons next names =>
            exact Or.inl (node_directory_of_append _ (by simp) hreal.ne_none)
      rw [← ih (dir ++ [name]) hreal, walk_eq_iff]
      exact .real hdir hname (walks_walk T links _ _)

theorem walk_cons_of_not_directory
    (links : Nat)
    {dir : List α}
    (hdir : T.node dir ≠ some .directory)
    {elements : List (Element α)}
    (hne : elements ≠ []) :
    walk T links dir elements = .notFound := by
  obtain ⟨element, rest, rfl⟩ := List.exists_cons_of_ne_nil hne
  exact walk_eq_iff.2 (.blocked hdir)

end Walk

section Table

variable {α : Type u} {φ : Type v}

def Node.isDirectory : Option (Node α φ) → Bool
  | some .directory => true
  | _ => false

theorem Node.isDirectory_iff
    (node : Option (Node α φ)) :
    Node.isDirectory node = true ↔ node = some .directory := by
  cases node with
  | none => simp [Node.isDirectory]
  | some node => cases node <;> simp [Node.isDirectory]

variable [DecidableEq α]

/-- The node that a table of paths gives to a path; the root is always there. -/
def tableNode (table : List (List α × Node α φ)) (path : List α) : Option (Node α φ) :=
  if path = [] then some .directory else table.lookup path

/-- A path listed in a table, or the root. -/
theorem mem_of_tableNode_ne_none
    {table : List (List α × Node α φ)}
    {path : List α}
    (hpath : path ≠ [])
    (h : tableNode table path ≠ none) :
    ∃ entry ∈ table, entry.1 = path := by
  unfold tableNode at h
  rw [if_neg hpath, Ne, List.lookup_eq_none_iff] at h
  push Not at h
  obtain ⟨entry, hmem, hentry⟩ := h
  exact ⟨entry, hmem, (by simpa using hentry : path = entry.1).symm⟩

/-- The tree of a table in which every path stands in a directory. -/
def Tree.ofTable (table : List (List α × Node α φ))
    (hparents : ∀ entry ∈ table, Node.isDirectory (tableNode table entry.1.dropLast) = true) :
    Tree α φ where
  node := tableNode table
  rootDirectory := by simp [tableNode]
  parentDirectory := by
    intro dir name hname
    obtain ⟨entry, hmem, hentry⟩ := mem_of_tableNode_ne_none (by simp) hname
    have hdir := (Node.isDirectory_iff _).1 (hparents entry hmem)
    rwa [hentry, List.dropLast_concat] at hdir

end Table

section Normal

variable {α : Type u}

/-- The names that are left, and whether the last element was no name. -/
def normalLoop : List α → Bool → List (Element α) → List α × Bool
  | names, trailing, [] => (names, trailing)
  | names, _, .here :: rest => normalLoop names true rest
  | names, _, .up :: rest => normalLoop names.dropLast true rest
  | names, _, .entry name :: rest => normalLoop (names ++ [name]) false rest

/--
The lexical normal form of a path from the root: every `up` removes the name in
front of it.  A path that ended in something other than a name keeps a last
empty element, unless it is the root.
-/
def lexicalNormal (elements : List (Element α)) : List (Element α) :=
  let (names, trailing) := normalLoop [] false elements
  names.map .entry ++ (if trailing && !names.isEmpty then [.here] else [])

theorem normalLoop_names
    (stack : List α)
    (trailing : Bool)
    (names : List α)
    (hne : names ≠ [])
    (rest : List (Element α)) :
    normalLoop stack trailing (names.map .entry ++ rest) =
      normalLoop (stack ++ names) false rest := by
  induction names generalizing stack trailing with
  | nil =>
      exact absurd rfl hne
  | cons name names ih =>
      rw [List.map_cons, List.cons_append, normalLoop]
      cases names with
      | nil =>
          simp
      | cons next names =>
          rw [ih (stack ++ [name]) false (by simp)]
          simp

/-- Without `up`, names are only added, and what adds none leaves a mark. -/
theorem normalLoop_of_no_up
    (stack : List α)
    (trailing : Bool)
    (elements : List (Element α))
    (hup : .up ∉ elements) :
    ∃ names trailing',
      normalLoop stack trailing elements = (stack ++ names, trailing') ∧
      (trailing = true ∨ elements ≠ [] → names = [] → trailing' = true) := by
  induction elements generalizing stack trailing with
  | nil =>
      exact ⟨[], trailing, by simp [normalLoop], by simp⟩
  | cons element rest ih =>
      have hrest : .up ∉ rest := fun h => hup (List.mem_cons_of_mem _ h)
      cases element with
      | up => exact absurd List.mem_cons_self hup
      | here =>
          obtain ⟨names, trailing', hloop, hmark⟩ := ih stack true hrest
          exact ⟨names, trailing', by rw [normalLoop, hloop], fun _ => hmark (Or.inl rfl)⟩
      | entry name =>
          obtain ⟨names, trailing', hloop, _⟩ := ih (stack ++ [name]) false hrest
          exact ⟨name :: names, trailing', by rw [normalLoop, hloop]; simp, by simp⟩

/-- A path of names is in normal form. -/
theorem lexicalNormal_names
    (names : List α) :
    lexicalNormal (names.map Element.entry) = names.map .entry := by
  cases names with
  | nil =>
      rfl
  | cons name names =>
      have h := normalLoop_names [] false (name :: names) (by simp) []
      rw [List.append_nil, List.nil_append, normalLoop] at h
      unfold lexicalNormal
      rw [h]
      simp

/-- The normal form of names followed by elements without `up`. -/
theorem lexicalNormal_of_no_up
    (front : List α)
    (back : List (Element α))
    (hfront : front ≠ [])
    (hup : .up ∉ back) :
    ∃ more : List (Element α),
      lexicalNormal (front.map .entry ++ back) = front.map .entry ++ more ∧
      (back ≠ [] → more ≠ []) := by
  obtain ⟨names, trailing, hloop, hmark⟩ := normalLoop_of_no_up front false back hup
  have hnormal : normalLoop [] false (front.map .entry ++ back) = (front ++ names, trailing) := by
    rw [normalLoop_names [] false front hfront, List.nil_append, hloop]
  refine ⟨names.map .entry ++ (if trailing && !(front ++ names).isEmpty then [.here] else []),
    ?_, ?_⟩
  · rw [lexicalNormal, hnormal]
    simp
  · intro hback
    cases names with
    | nil => simp [hmark (Or.inr hback) rfl, hfront]
    | cons name names => simp

theorem lexicalNormal_entry_of_no_up
    (front : List α)
    (name : α)
    (rest : List (Element α))
    (hup : .up ∉ rest) :
    ∃ more : List (Element α),
      lexicalNormal (front.map .entry ++ .entry name :: rest) =
        front.map .entry ++ .entry name :: more := by
  obtain ⟨more, hnormal, _⟩ := lexicalNormal_of_no_up (front ++ [name]) rest (by simp) hup
  exact ⟨more, by simpa using hnormal⟩

theorem lexicalNormal_here_of_no_up
    (front : List α)
    (rest : List (Element α))
    (hfront : front ≠ [])
    (hup : .up ∉ rest) :
    ∃ more : List (Element α), more ≠ [] ∧
      lexicalNormal (front.map .entry ++ .here :: rest) = front.map .entry ++ more := by
  obtain ⟨more, hnormal, hne⟩ :=
    lexicalNormal_of_no_up front (.here :: rest) hfront (by simpa using hup)
  exact ⟨more, hne (by simp), hnormal⟩

end Normal

end PathWalk
