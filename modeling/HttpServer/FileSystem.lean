import HttpServer.Bytes
import HttpServer.Lib.PathWalk

/-!
# File systems as the operating system sees them

A file system is a tree of directories, regular files and symbolic links whose
entry names are byte strings.  It does not change while a request is answered, and every
lookup in a directory is answered with an entry or with its absence: directories may be
searched, names are not too long, and the only error of a resolution is that it meets too
many links.

`std::filesystem::path` values are lists of elements below the root directory.
The functions of `std::filesystem` used by the server are built on `realpath`:
they hand the path to the operating system, which reads it up to the first NUL
byte and follows every symbolic link.

* `weaklyCanonical` canonicalises the leading elements that exist, appends the
  remaining ones and brings the result to lexical normal form;
* `weaklyCanonical_eq_some_iff` says which of the two parts a result consists of;
* `realpath_lexicalNormal_of_no_up`: when elements are missing and none of the
  remaining ones is `..`, the result names nothing.
-/

namespace HttpServer

open PathWalk

/-- A regular file: its bytes, whether it can be opened, and where a read fails. -/
structure RegularFile where
  content : Bytes
  openable : Bool := true
  faultAt : Option Nat := none
deriving DecidableEq

abbrev PathElement := Element Bytes

/-- The names that a directory can hold. -/
def validName (name : Bytes) : Bool :=
  !name.isEmpty && name != [46] && name != [46, 46] && !name.contains 47 && !name.contains 0

/-- A file system, with the number of links that one resolution may follow. -/
structure FileSystem where
  tree : Tree Bytes RegularFile
  maxLinks : Nat
  names : ∀ dir name, tree.node (dir ++ [name]) ≠ none → validName name = true

/-- The file system of a table of real paths. -/
def FileSystem.ofTable (maxLinks : Nat) (table : List (List Bytes × Node Bytes RegularFile))
    (hparents : ∀ entry ∈ table, Node.isDirectory (tableNode table entry.1.dropLast) = true)
    (hnames : ∀ entry ∈ table, validName (entry.1.getLastD []) = true) :
    FileSystem where
  tree := Tree.ofTable table hparents
  maxLinks := maxLinks
  names := by
    intro dir name hname
    obtain ⟨entry, hmem, hentry⟩ := mem_of_tableNode_ne_none (by simp) hname
    have hvalid := hnames entry hmem
    rwa [hentry, List.getLastD_concat] at hvalid

/-- The element that a piece of a path string denotes. -/
def elementOf (piece : Bytes) : PathElement :=
  if piece = [] ∨ piece = [46] then
    .here
  else if piece = [46, 46] then
    .up
  else
    .entry piece

/--
The elements of a relative path: pieces between slashes.  Empty pieces are
skipped, except that a path which is empty or ends in a slash has a last empty
element.
-/
def pathElements (path : Bytes) : List PathElement :=
  let pieces := path.splitOn 47
  (pieces.dropLast.filter (· ≠ [])).map elementOf ++ [elementOf (pieces.getLastD [])]

/-- The part of a path that the operating system reads: up to the first NUL byte. -/
def osView : List PathElement → List PathElement
  | [] => []
  | .entry name :: rest =>
      if name.contains 0 then
        [elementOf (name.takeWhile (· ≠ 0))]
      else
        .entry name :: osView rest
  | .here :: rest => .here :: osView rest
  | .up :: rest => .up :: osView rest

/-- A path without NUL bytes. -/
def nulFree (path : List PathElement) : Prop :=
  ∀ name, Element.entry name ∈ path → name.contains 0 = false

theorem osView_append_of_nulFree
    (front back : List PathElement)
    (h : nulFree front) :
    osView (front ++ back) = front ++ osView back := by
  induction front with
  | nil =>
      rfl
  | cons element front ih =>
      have hfront : nulFree front := fun name hname => h name (List.mem_cons_of_mem _ hname)
      cases element with
      | here => rw [List.cons_append, osView, ih hfront, List.cons_append]
      | up => rw [List.cons_append, osView, ih hfront, List.cons_append]
      | entry name =>
          rw [List.cons_append, osView, h name List.mem_cons_self, ih hfront]
          rfl

theorem osView_append_of_not_nulFree
    (front back : List PathElement)
    (h : ¬ nulFree front) :
    osView (front ++ back) = osView front := by
  induction front with
  | nil =>
      exact absurd (fun name hname => absurd hname (by simp)) h
  | cons element front ih =>
      have hstep : (∀ name, element = .entry name → name.contains 0 = false) →
          osView (front ++ back) = osView front := by
        intro hfirst
        refine ih (fun hfront => h ?_)
        intro name hname
        rcases List.mem_cons.1 hname with heq | hmem
        · exact hfirst name heq.symm
        · exact hfront name hmem
      cases element with
      | here => rw [List.cons_append, osView, osView, hstep (by simp)]
      | up => rw [List.cons_append, osView, osView, hstep (by simp)]
      | entry name =>
          rw [List.cons_append, osView, osView]
          cases hnul : name.contains 0 with
          | true => rfl
          | false =>
              rw [hstep (by rintro _ ⟨rfl⟩; exact hnul)]

theorem osView_ne_nil
    {path : List PathElement}
    (h : path ≠ []) :
    osView path ≠ [] := by
  obtain ⟨element, rest, rfl⟩ := List.exists_cons_of_ne_nil h
  cases element with
  | here => simp [osView]
  | up => simp [osView]
  | entry name =>
      rw [osView]
      split <;> simp

namespace FileSystem

/-- The real path of what a path names: `realpath`, `open` and `stat` go there. -/
def realpath (fs : FileSystem) (path : List PathElement) : Resolution Bytes :=
  walk fs.tree fs.maxLinks [] (osView path)

/--
`weakly_canonical`: `existing` is the leading part known to exist.  `none` is an
error of the resolution.
-/
def weaklyCanonicalLoop (fs : FileSystem) :
    List PathElement → List PathElement → Option (List PathElement)
  | existing, [] =>
      match fs.realpath existing with
      | .found real => some (lexicalNormal (real.map .entry))
      | _ => none
  | existing, element :: rest =>
      match fs.realpath (existing ++ [element]) with
      | .found _ => weaklyCanonicalLoop fs (existing ++ [element]) rest
      | .tooManyLinks => none
      | .notFound =>
          match fs.realpath existing with
          | .found real => some (lexicalNormal (real.map .entry ++ element :: rest))
          | _ => none

def weaklyCanonical (fs : FileSystem) (path : List PathElement) : Option (List PathElement) :=
  fs.weaklyCanonicalLoop [] path

/-- `is_regular_file`, with the file itself. -/
def regularFile (fs : FileSystem) (real : List Bytes) : Option RegularFile :=
  match fs.tree.node real with
  | some (.regular file) => some file
  | _ => none

section Resolution

variable {fs : FileSystem}

theorem isReal_of_realpath
    {path : List PathElement}
    {real : List Bytes}
    (h : fs.realpath path = .found real) :
    fs.tree.IsReal real :=
  isReal_of_walk h

/-- The names of a real path are names that a directory can hold. -/
theorem validName_of_isReal
    {real : List Bytes}
    (h : fs.tree.IsReal real)
    {name : Bytes}
    (hname : name ∈ real) :
    validName name = true := by
  obtain ⟨front, back, rfl⟩ := List.append_of_mem hname
  refine fs.names front name ?_
  cases back with
  | nil => exact h.ne_none
  | cons next back =>
      have hassoc : front ++ name :: next :: back = (front ++ [name]) ++ next :: back := by simp
      rw [hassoc] at h
      have hdir := node_directory_of_append (front ++ [name]) (by simp) h.ne_none
      simp [hdir]

theorem nulFree_of_isReal
    {real : List Bytes}
    (h : fs.tree.IsReal real) :
    nulFree (real.map .entry) := by
  intro name hname
  obtain ⟨name', hmem, heq⟩ := List.mem_map.1 hname
  cases heq
  have hvalid := validName_of_isReal h hmem
  simp only [validName, Bool.and_eq_true, Bool.not_eq_true'] at hvalid
  exact hvalid.2

/-- Resolving a path that begins with a real path continues from there. -/
theorem realpath_names_append
    {real : List Bytes}
    (h : fs.tree.IsReal real)
    (rest : List PathElement) :
    fs.realpath (real.map .entry ++ rest) = walk fs.tree fs.maxLinks real (osView rest) := by
  unfold realpath
  rw [osView_append_of_nulFree _ _ (nulFree_of_isReal h)]
  have hwalk := walk_names fs.maxLinks [] real (by simpa using h) (osView rest)
  simpa using hwalk

/-- A real path resolves to itself. -/
theorem realpath_names
    {real : List Bytes}
    (h : fs.tree.IsReal real) :
    fs.realpath (real.map .entry) = .found real := by
  have hwalk := realpath_names_append h []
  rw [List.append_nil] at hwalk
  rw [hwalk]
  exact walk_eq_iff.2 .done

/-- The first missing element is missing in the directory reached so far. -/
theorem walk_first_missing
    {existing : List PathElement}
    {element : PathElement}
    {real : List Bytes}
    (hfound : fs.realpath existing = .found real)
    (hmissing : fs.realpath (existing ++ [element]) = .notFound) :
    walk fs.tree fs.maxLinks real (osView [element]) = .notFound := by
  unfold realpath at hfound hmissing
  by_cases hnul : nulFree existing
  · have hself : osView existing = existing := by
      simpa [osView] using osView_append_of_nulFree existing [] hnul
    rw [hself] at hfound
    rw [osView_append_of_nulFree _ _ hnul] at hmissing
    obtain ⟨left, hle, hback⟩ := walk_append_of_found hfound
    rw [hback] at hmissing
    rw [walk_mono hle (by simp [hmissing]), hmissing]
  · rw [osView_append_of_not_nulFree _ _ hnul, hfound] at hmissing
    exact absurd hmissing (by simp)

/-- With no `..` behind the first missing element, the normal form names nothing. -/
theorem realpath_lexicalNormal_of_no_up
    {existing : List PathElement}
    {element : PathElement}
    {rest : List PathElement}
    {real : List Bytes}
    (hfound : fs.realpath existing = .found real)
    (hmissing : fs.realpath (existing ++ [element]) = .notFound)
    (hup : .up ∉ element :: rest) :
    fs.realpath (lexicalNormal (real.map .entry ++ element :: rest)) = .notFound := by
  have hreal := isReal_of_realpath hfound
  have hfirst := walk_first_missing hfound hmissing
  have hrest : .up ∉ rest := fun h => hup (List.mem_cons_of_mem _ h)
  cases element with
  | up => exact absurd List.mem_cons_self hup
  | entry name =>
      obtain ⟨more, hnormal⟩ := lexicalNormal_entry_of_no_up real name rest hrest
      rw [hnormal, realpath_names_append hreal]
      by_cases hnul : nulFree [.entry name]
      · rw [← List.singleton_append, osView_append_of_nulFree _ _ hnul]
        have hself : osView [.entry name] = [.entry name] := by
          simpa [osView] using osView_append_of_nulFree [.entry name] [] hnul
        rw [hself] at hfirst
        exact walk_append_of_notFound hfirst _
      · rw [← List.singleton_append, osView_append_of_not_nulFree _ _ hnul]
        exact hfirst
  | here =>
      have hdir : fs.tree.node real ≠ some .directory := by
        intro hdir
        have hthere : walk fs.tree fs.maxLinks real (osView [.here]) = .found real :=
          walk_eq_iff.2 (.here hdir .done)
        simp [hthere] at hfirst
      have hne : real ≠ [] := by
        rintro rfl
        exact hdir fs.tree.rootDirectory
      obtain ⟨more, hmore, hnormal⟩ := lexicalNormal_here_of_no_up real rest hne hrest
      rw [hnormal, realpath_names_append hreal]
      exact walk_cons_of_not_directory _ hdir (osView_ne_nil hmore)

/-- Where a successful `weakly_canonical` comes from. -/
inductive WeaklyCanonicalOf (fs : FileSystem) (path : List PathElement) :
    List PathElement → Prop
  | existing {real : List Bytes}
      (hfound : fs.realpath path = .found real) :
      WeaklyCanonicalOf fs path (real.map .entry)
  | missing {existing rest : List PathElement} {element : PathElement} {real : List Bytes}
      (hpath : path = existing ++ element :: rest)
      (hfound : fs.realpath existing = .found real)
      (hmissing : fs.realpath (existing ++ [element]) = .notFound) :
      WeaklyCanonicalOf fs path (lexicalNormal (real.map .entry ++ element :: rest))

theorem realpath_of_append
    {front back : List PathElement}
    {real : List Bytes}
    (h : fs.realpath (front ++ back) = .found real) :
    ∃ real', fs.realpath front = .found real' := by
  unfold realpath at h ⊢
  by_cases hnul : nulFree front
  · have hself : osView front = front := by
      simpa [osView] using osView_append_of_nulFree front [] hnul
    rw [osView_append_of_nulFree _ _ hnul] at h
    rw [hself]
    exact walk_found_of_append h
  · rw [osView_append_of_not_nulFree _ _ hnul] at h
    exact ⟨real, h⟩

/-- The loop runs through the leading elements that exist. -/
theorem weaklyCanonicalLoop_append
    {front back : List PathElement}
    {real : List Bytes}
    (h : fs.realpath (front ++ back) = .found real)
    (rest : List PathElement) :
    fs.weaklyCanonicalLoop front (back ++ rest) = fs.weaklyCanonicalLoop (front ++ back) rest := by
  induction back generalizing front with
  | nil =>
      simp
  | cons element back ih =>
      have hassoc : front ++ element :: back = (front ++ [element]) ++ back := by simp
      rw [hassoc] at h ⊢
      obtain ⟨real', hreal'⟩ := realpath_of_append h
      rw [List.cons_append, weaklyCanonicalLoop, hreal']
      exact ih h

theorem weaklyCanonicalOf_of_loop
    {existing rest candidate : List PathElement}
    (h : fs.weaklyCanonicalLoop existing rest = some candidate) :
    WeaklyCanonicalOf fs (existing ++ rest) candidate := by
  induction rest generalizing existing with
  | nil =>
      rw [weaklyCanonicalLoop] at h
      cases hfound : fs.realpath existing with
      | found real =>
          rw [hfound] at h
          cases h
          rw [lexicalNormal_names, List.append_nil]
          exact .existing hfound
      | notFound => simp [hfound] at h
      | tooManyLinks => simp [hfound] at h
  | cons element rest ih =>
      rw [weaklyCanonicalLoop] at h
      cases hnext : fs.realpath (existing ++ [element]) with
      | found real =>
          rw [hnext] at h
          simpa using ih h
      | tooManyLinks => simp [hnext] at h
      | notFound =>
          cases hfound : fs.realpath existing with
          | found real =>
              simp only [hnext, hfound, Option.some.injEq] at h
              subst h
              exact .missing rfl hfound hnext
          | notFound => simp [hnext, hfound] at h
          | tooManyLinks => simp [hnext, hfound] at h

theorem weaklyCanonical_eq_some_iff
    (fs : FileSystem)
    (path candidate : List PathElement) :
    fs.weaklyCanonical path = some candidate ↔ WeaklyCanonicalOf fs path candidate := by
  constructor
  · intro h
    exact weaklyCanonicalOf_of_loop h
  · intro h
    unfold weaklyCanonical
    cases h with
    | existing hfound =>
        have hloop := weaklyCanonicalLoop_append ((List.nil_append path).symm ▸ hfound) []
        rw [List.append_nil] at hloop
        rw [hloop, weaklyCanonicalLoop, List.nil_append, hfound]
        simp [lexicalNormal_names]
    | @missing existing rest element real hpath hfound hmissing =>
        have hloop := weaklyCanonicalLoop_append
          ((List.nil_append existing).symm ▸ hfound) (element :: rest)
        rw [hpath, hloop, List.nil_append, weaklyCanonicalLoop, hmissing, hfound]

end Resolution

end FileSystem

end HttpServer
