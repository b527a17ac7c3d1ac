import HttpServer.Confinement
import HttpServer.Lib.LexicalWalk
import HttpServer.ServedConnections
import HttpServer.TargetDecoding

/-!
# Files outside the document root

`weakly_canonical` looks at every directory that a target passes, also at those that
lie outside the root when the target holds `..`.  Still nothing that a client receives
depends on them, as long as every lookup on the way is answered (`FileSystem`: a directory
that may not be searched would make `weakly_canonical` fail where a missing one does not),
no symbolic link lies on the way and the target holds no NUL byte: the handler answers as
`lexicalAnswer` does, which reads the target as text and looks at one node below the root.

The threads of the server use the handler in no other way, so that a run of the whole
program over one file system is a run over any other that agrees below the root
(`outside_unobservable`).

The NUL byte matters.  The operating system reads a path up to it and the normal form
does not, so that a target with a literal NUL byte tells whether a name exists beside
the root (`nul_target_probes`).
-/

namespace HttpServer

open Transition PathWalk

section Elements

theorem entry_of_elementOf
    {piece name : Bytes}
    (h : elementOf piece = .entry name) :
    name = piece := by
  unfold elementOf at h
  split_ifs at h
  cases h
  rfl

theorem mem_intercalate_of_mem
    {byte separator : UInt8}
    {pieces : List Bytes}
    {piece : Bytes}
    (hpiece : piece ∈ pieces)
    (hbyte : byte ∈ piece) :
    byte ∈ List.intercalate [separator] pieces := by
  induction pieces with
  | nil => cases hpiece
  | cons first rest ih =>
      cases rest with
      | nil =>
          rw [List.mem_singleton] at hpiece
          simpa [← hpiece] using hbyte
      | cons next rest =>
          rw [List.intercalate_cons_cons]
          rcases List.mem_cons.1 hpiece with rfl | hrest
          · exact List.mem_append_left _ (List.mem_append_left _ hbyte)
          · exact List.mem_append_right _ (ih hrest)

/-- The names of a path are pieces of it. -/
theorem subset_of_entry_mem
    {path name : Bytes}
    (h : .entry name ∈ pathElements path) :
    name ⊆ path := by
  have hpiece : name = [] ∨ name ∈ path.splitOn 47 := by
    unfold pathElements at h
    rcases List.mem_append.1 h with hfront | hlast
    · obtain ⟨piece, hmem, hentry⟩ := List.mem_map.1 hfront
      rw [entry_of_elementOf hentry]
      exact Or.inr (List.dropLast_subset _ (List.mem_of_mem_filter hmem))
    · rw [List.mem_singleton] at hlast
      rw [entry_of_elementOf hlast.symm, List.getLastD_eq_getLast?]
      cases hpieces : (path.splitOn 47).getLast? with
      | none => exact Or.inl rfl
      | some piece => exact Or.inr (List.mem_of_getLast? hpieces)
  rcases hpiece with rfl | hpiece
  · exact List.nil_subset _
  · intro byte hbyte
    have hmem : byte ∈ List.intercalate [47] (path.splitOn 47) :=
      mem_intercalate_of_mem hpiece hbyte
    rwa [List.intercalate_splitOn] at hmem

theorem nulFree_makeRelativePath
    {decoded : Bytes}
    (h : 0 ∉ decoded) :
    nulFree (StaticFileHandler.makeRelativePath decoded) := by
  intro name hname
  have hsubset := subset_of_entry_mem hname
  have hnul : (0 : UInt8) ∉ name :=
    fun hzero => h (List.dropWhile_subset _ (hsubset hzero))
  simpa using hnul

theorem nulFree.append
    {front back : List PathElement}
    (hfront : nulFree front)
    (hback : nulFree back) :
    nulFree (front ++ back) := by
  intro name hname
  rcases List.mem_append.1 hname with h | h
  · exact hfront name h
  · exact hback name h

theorem nulFree.of_prefix
    {front path : List PathElement}
    (hpath : nulFree path)
    (h : front <+: path) :
    nulFree front :=
  fun name hname => hpath name (h.subset hname)

theorem osView_of_nulFree
    {path : List PathElement}
    (h : nulFree path) :
    osView path = path := by
  simpa [osView] using osView_append_of_nulFree path [] h

theorem nulFree_foldl
    {names : List Bytes}
    {elements : List PathElement}
    (hnames : nulFree (names.map .entry))
    (helements : nulFree elements) :
    nulFree ((elements.foldl move names).map .entry) := by
  induction elements generalizing names with
  | nil => exact hnames
  | cons element rest ih =>
      refine ih ?_ (fun name hname => helements name (List.mem_cons_of_mem _ hname))
      cases element with
      | here => exact hnames
      | up => exact hnames.of_prefix ((List.dropLast_prefix names).map _)
      | entry name =>
          rw [move, List.map_append]
          refine hnames.append (fun other hother => ?_)
          have heq : Element.entry other = .entry name := by simpa using hother
          cases heq
          exact helements name List.mem_cons_self

end Elements

namespace FileSystem

variable {fs : FileSystem}

/-- Only a resolution that meets too many links is an error. -/
theorem exists_weaklyCanonicalLoop
    {existing rest : List PathElement}
    {real : List Bytes}
    (hfound : fs.realpath existing = .found real)
    (hlinks : ∀ front, front <+: rest → fs.realpath (existing ++ front) ≠ .tooManyLinks) :
    ∃ candidate, fs.weaklyCanonicalLoop existing rest = some candidate := by
  induction rest generalizing existing real with
  | nil => exact ⟨_, by rw [weaklyCanonicalLoop, hfound]⟩
  | cons element rest ih =>
      rw [weaklyCanonicalLoop]
      cases hnext : fs.realpath (existing ++ [element]) with
      | found next =>
          refine ih hnext (fun front hfront => ?_)
          have h := hlinks (element :: front) (List.cons_prefix_cons.2 ⟨rfl, hfront⟩)
          simpa using h
      | notFound => exact ⟨_, by rw [hfound]⟩
      | tooManyLinks =>
          exact absurd hnext (hlinks [element] (List.cons_prefix_cons.2 ⟨rfl, List.nil_prefix⟩))

section Unlinked

variable {root : List Bytes} {rel candidate : List PathElement}

/-- The way from the root of the tree to the document root holds no link. -/
theorem unlinked_below
    (hroot : fs.tree.IsReal root)
    (hrel : Unlinked fs.tree root rel) :
    Unlinked fs.tree [] (root.map .entry ++ rel) := by
  rw [unlinked_append, foldl_names, List.nil_append]
  exact ⟨(direct_of_isReal hroot).unlinked, hrel⟩

theorem normalLoop_root
    (root : List Bytes)
    (rel : List PathElement) :
    normalLoop [] false (root.map .entry ++ rel) = normalLoop root false rel := by
  cases root with
  | nil => rfl
  | cons name root => exact normalLoop_names [] false (name :: root) (by simp) rel

theorem realpath_of_unlinked
    {path : List PathElement}
    {real : List Bytes}
    (hnul : nulFree path)
    (h : Unlinked fs.tree [] path)
    (hfound : fs.realpath path = .found real) :
    real = path.foldl move [] := by
  unfold realpath at hfound
  rw [osView_of_nulFree hnul] at hfound
  exact eq_foldl_of_walk h hfound

theorem exists_weaklyCanonical
    (hroot : fs.tree.IsReal root)
    (hnul : nulFree rel)
    (hrel : Unlinked fs.tree root rel) :
    ∃ candidate, fs.weaklyCanonical (root.map .entry ++ rel) = some candidate := by
  have hstart : fs.realpath [] = .found [] := walk_eq_iff.2 .done
  refine exists_weaklyCanonicalLoop hstart (fun front hfront => ?_)
  have hpath := (nulFree_of_isReal hroot).append hnul
  obtain ⟨back, hback⟩ := hfront
  have hunlinked := unlinked_below hroot hrel
  rw [← hback, unlinked_append] at hunlinked
  rw [List.nil_append, realpath, osView_of_nulFree (hpath.of_prefix ⟨back, hback⟩)]
  exact walk_ne_tooManyLinks _ hunlinked.1

/--
The path that `weakly_canonical` makes of a target without links on its trail: the
names at the end, and a last empty element only where the target ended in no name.
-/
inductive CandidateOf (fs : FileSystem) (names : List Bytes) (trailing : Bool) :
    List PathElement → Prop
  | names (h : trailing = true → fs.tree.node names = some .directory) :
      CandidateOf fs names trailing (names.map .entry)
  | trailing (h : trailing = true) :
      CandidateOf fs names trailing (names.map .entry ++ [.here])

theorem candidateOf_lexicalNormal
    (names : List Bytes)
    (trailing : Bool) :
    CandidateOf fs names trailing
      (names.map .entry ++ (if trailing && !names.isEmpty then [.here] else [])) := by
  cases trailing with
  | false =>
      rw [Bool.false_and, if_neg (by simp), List.append_nil]
      exact .names (by simp)
  | true =>
      cases names with
      | nil => exact .names (fun _ => fs.tree.rootDirectory)
      | cons name names => exact .trailing rfl

/-- `weakly_canonical` of a path without links on its trail reads it as text. -/
theorem candidateOf_weaklyCanonical
    (hroot : fs.tree.IsReal root)
    (hnul : nulFree rel)
    (hrel : Unlinked fs.tree root rel)
    (h : fs.weaklyCanonical (root.map .entry ++ rel) = some candidate) :
    CandidateOf fs (rel.foldl move root) (normalLoop root false rel).2 candidate := by
  have hunlinked := unlinked_below hroot hrel
  have hpath := (nulFree_of_isReal hroot).append hnul
  have hends : (root.map Element.entry ++ rel).foldl move [] = rel.foldl move root := by
    rw [List.foldl_append, foldl_names, List.nil_append]
  generalize hwhole : root.map Element.entry ++ rel = path at h hunlinked hpath hends
  cases (weaklyCanonical_eq_some_iff fs path candidate).1 h with
  | existing hfound =>
      have hreal := realpath_of_unlinked hpath hunlinked hfound
      rw [← hends, ← hreal]
      refine .names (fun htrailing => ?_)
      rw [realpath, osView_of_nulFree hpath] at hfound
      rw [← normalLoop_root, hwhole] at htrailing
      exact node_eq_directory_of_trailing hunlinked hfound (by simp) htrailing
  | @missing existing rest element real hsplit hfound _ =>
      rw [hsplit] at hpath hunlinked hends
      have hreal := realpath_of_unlinked (hpath.of_prefix (List.prefix_append _ _))
        (unlinked_append.1 hunlinked).1 hfound
      -- What is left behind the reached directory is normalised as the whole path is.
      have hloop : normalLoop [] false (real.map .entry ++ element :: rest) =
          normalLoop root false rel := by
        rw [normalLoop_root, ← normalLoop_root root rel, hwhole, hsplit, normalLoop_append,
          ← hreal]
        exact normalLoop_of_ne_nil _ _ _ (by simp)
      unfold lexicalNormal
      rw [hloop, ← normalLoop_fst root false rel]
      exact candidateOf_lexicalNormal _ _

/-- Whether a candidate lies inside the root is seen from its names. -/
theorem CandidateOf.isInsideRoot_iff
    {names : List Bytes}
    {trailing : Bool}
    (h : CandidateOf fs names trailing candidate) :
    StaticFileHandler.isInsideRoot (root.map .entry) candidate = true ↔ root <+: names := by
  have hentries : root.map (Element.entry (α := Bytes)) <+: names.map .entry ↔ root <+: names :=
    ⟨StaticFileHandler.prefix_of_map_entry, fun hprefix => hprefix.map _⟩
  rw [StaticFileHandler.isInsideRoot_iff]
  cases h with
  | names => exact hentries
  | trailing =>
      rw [← hentries]
      constructor
      · intro hprefix
        rcases List.prefix_concat_iff.1 hprefix with heq | hprefix
        · have hmem : Element.here ∈ root.map (Element.entry (α := Bytes)) := by simp [heq]
          simp at hmem
        · exact hprefix
      · exact fun hprefix => hprefix.trans (List.prefix_append _ _)

end Unlinked

end FileSystem

namespace StaticFileHandler

section Answer

/-- The response to names that were followed by no name if `trailing`. -/
def nodeResponse (node : Option (Node Bytes RegularFile)) (names : List Bytes) (trailing : Bool)
    (isHead : Bool) (maxFileBytes : Nat) : HttpResponse :=
  match node with
  | none => notFound
  | some (.regular file) =>
      if trailing then notFound else fileResponse (names.map .entry) file isHead maxFileBytes
  | some _ => forbidden

/--
The answer of a handler that reads the target as text and then looks at one node:
`below` is what the tree holds below the root.
-/
def lexicalAnswer (root : List Bytes) (maxFileBytes : Nat)
    (below : List Bytes → Option (Node Bytes RegularFile)) (request : HttpRequest) :
    HttpResponse :=
  match percentDecode (targetPath request.target) with
  | none => badRequest
  | some decoded =>
      if decoded.head? ≠ some 47 then
        badRequest
      else
        let (names, trailing) := normalLoop root false (makeRelativePath decoded)
        if root <+: names then
          nodeResponse (below (names.drop root.length)) names trailing
            (request.method == ascii "HEAD") maxFileBytes
        else
          forbidden

variable {fs : FileSystem}

theorem serveFile_eq_fileResponse
    {path : List PathElement}
    {real : List Bytes}
    {file : RegularFile}
    (hopened : fs.realpath path = .found real)
    (hfile : fs.regularFile real = some file)
    (isHead : Bool)
    (maxFileBytes : Nat) :
    serveFile fs path isHead maxFileBytes = fileResponse path file isHead maxFileBytes := by
  simp only [serveFile, hopened, hfile]

theorem respondWith_of_notFound
    {candidate : List PathElement}
    (h : fs.realpath candidate = .notFound)
    (isHead : Bool)
    (maxFileBytes : Nat) :
    respondWith fs candidate isHead maxFileBytes = notFound := by
  simp only [respondWith, requireRegular, h]

theorem respondWith_of_directory
    {candidate : List PathElement}
    {real : List Bytes}
    (h : fs.realpath candidate = .found real)
    (hnode : fs.tree.node real = some .directory)
    (isHead : Bool)
    (maxFileBytes : Nat) :
    respondWith fs candidate isHead maxFileBytes = forbidden := by
  simp only [respondWith, requireRegular, h, FileSystem.regularFile, hnode]

theorem respondWith_of_regular
    {candidate : List PathElement}
    {real : List Bytes}
    {file : RegularFile}
    (h : fs.realpath candidate = .found real)
    (hnode : fs.tree.node real = some (.regular file))
    (isHead : Bool)
    (maxFileBytes : Nat) :
    respondWith fs candidate isHead maxFileBytes =
      fileResponse candidate file isHead maxFileBytes := by
  have hfile : fs.regularFile real = some file := by simp [FileSystem.regularFile, hnode]
  simp only [respondWith, requireRegular, h, hfile]
  exact serveFile_eq_fileResponse h hfile isHead maxFileBytes

/-- The answer to a candidate is read off the node that its names have. -/
theorem respondWith_candidate
    {names : List Bytes}
    {trailing : Bool}
    {candidate : List PathElement}
    (hnul : nulFree (names.map .entry))
    (hdirect : Direct fs.tree names)
    (h : FileSystem.CandidateOf fs names trailing candidate)
    (isHead : Bool)
    (maxFileBytes : Nat) :
    respondWith fs candidate isHead maxFileBytes =
      nodeResponse (fs.tree.node names) names trailing isHead maxFileBytes := by
  cases hnode : fs.tree.node names with
  | none =>
      have hmissing : fs.realpath candidate = .notFound := by
        cases h with
        | names =>
            have hwalk := walk_of_missing fs.maxLinks hdirect hnode []
            rwa [List.append_nil, ← osView_of_nulFree hnul] at hwalk
        | trailing =>
            rw [FileSystem.realpath, osView_append_of_nulFree _ _ hnul]
            exact walk_of_missing fs.maxLinks hdirect hnode _
      exact respondWith_of_notFound hmissing isHead maxFileBytes
  | some node =>
      cases node with
      | symlink absolute target => exact absurd hnode (hdirect names List.prefix_rfl _ _)
      | directory =>
          have hreal : fs.tree.IsReal names := Or.inl hnode
          refine respondWith_of_directory ?_ hnode isHead maxFileBytes
          cases h with
          | names => exact FileSystem.realpath_names hreal
          | trailing =>
              rw [FileSystem.realpath_names_append hreal]
              exact walk_eq_iff.2 (.here hnode .done)
      | regular file =>
          have hreal : fs.tree.IsReal names := Or.inr ⟨file, hnode⟩
          cases h with
          | names hdirectory =>
              have htrailing : trailing = false := by
                by_contra hmark
                have := hdirectory (by simpa using hmark)
                simp [hnode] at this
              rw [respondWith_of_regular (FileSystem.realpath_names hreal) hnode, htrailing]
              rfl
          | trailing hmark =>
              have hmissing : fs.realpath (names.map .entry ++ [.here]) = .notFound := by
                rw [FileSystem.realpath_names_append hreal]
                exact walk_eq_iff.2 (.blocked (by simp [hnode]))
              rw [respondWith_of_notFound hmissing, hmark]
              rfl

end Answer

section Lookup

variable {fs : FileSystem}

/-- A request whose target can be read as text: no NUL byte, and no link on its trail. -/
structure ReadsAsText (handler : StaticFileHandler fs) (request : HttpRequest) : Prop where
  nul : 0 ∉ extractPath request.target
  unlinked : ∀ decoded, percentDecode (targetPath request.target) = some decoded →
    Unlinked fs.tree handler.root (makeRelativePath decoded)

theorem readsAsText_iff
    {handler : StaticFileHandler fs}
    {request : HttpRequest} :
    handler.ReadsAsText request ↔
      0 ∉ extractPath request.target ∧ ∀ decoded ∈ percentDecode (targetPath request.target),
        Unlinked fs.tree handler.root (makeRelativePath decoded) :=
  ⟨fun h => ⟨h.nul, h.unlinked⟩, fun h => ⟨h.1, h.2⟩⟩

instance (handler : StaticFileHandler fs) (request : HttpRequest) :
    Decidable (handler.ReadsAsText request) :=
  decidable_of_iff _ readsAsText_iff.symm

theorem ReadsAsText.nulFree
    {handler : StaticFileHandler fs}
    {request : HttpRequest}
    (h : handler.ReadsAsText request)
    {decoded : Bytes}
    (hdecoded : percentDecode (targetPath request.target) = some decoded) :
    nulFree (makeRelativePath decoded) := by
  refine nulFree_makeRelativePath (fun hnul => ?_)
  rw [nul_mem_iff_of_percentDecode hdecoded] at hnul
  rcases targetPath_cases request.target with hpath | ⟨_, hindex⟩
  · rw [hpath] at hnul
    exact h.nul hnul
  · rw [hindex] at hnul
    exact absurd hnul (by decide)

variable (handler : StaticFileHandler fs)

/-- What the handler answers once it has a path. -/
theorem handle_of_weaklyCanonical
    {request : HttpRequest}
    {decoded : Bytes}
    {candidate : List PathElement}
    (hdecoded : percentDecode (targetPath request.target) = some decoded)
    (hslash : decoded.head? = some 47)
    (hcandidate : fs.weaklyCanonical (handler.root.map .entry ++ makeRelativePath decoded) =
      some candidate) :
    handler.handle request =
      if isInsideRoot (handler.root.map .entry) candidate then
        respondWith fs candidate (request.method == ascii "HEAD") handler.maxFileBytes
      else
        forbidden := by
  have hfor : handler.candidateFor request.target =
      if isInsideRoot (handler.root.map .entry) candidate then .ok candidate
      else .error forbidden := by
    simp [candidateFor, candidateAt, hdecoded, hslash, hcandidate]
  split_ifs at hfor ⊢
  · exact handle_of_candidateFor_ok hfor
  · exact handle_of_candidateFor_error hfor

/-- The handler reads the target as text and looks at one node below the root. -/
theorem handle_eq_lexicalAnswer
    {request : HttpRequest}
    (h : handler.ReadsAsText request) :
    handler.handle request =
      lexicalAnswer handler.root handler.maxFileBytes
        (fun names => fs.tree.node (handler.root ++ names)) request := by
  unfold lexicalAnswer
  cases hdecoded : percentDecode (targetPath request.target) with
  | none =>
      exact handle_of_candidateFor_error (by simp [candidateFor, candidateAt, hdecoded])
  | some decoded =>
      dsimp only
      by_cases hslash : decoded.head? = some 47
      · rw [if_neg (not_not.2 hslash), normalLoop_fst]
        have hnul := h.nulFree hdecoded
        have hunlinked := h.unlinked decoded hdecoded
        obtain ⟨candidate, hcandidate⟩ :=
          FileSystem.exists_weaklyCanonical handler.canonical hnul hunlinked
        have hof := FileSystem.candidateOf_weaklyCanonical handler.canonical hnul hunlinked
          hcandidate
        have hdirect := (direct_of_isReal handler.canonical).foldl hunlinked
        have hnames := nulFree_foldl (FileSystem.nulFree_of_isReal handler.canonical) hnul
        rw [handler.handle_of_weaklyCanonical hdecoded hslash hcandidate,
          respondWith_candidate hnames hdirect hof]
        by_cases hinside : handler.root <+: (makeRelativePath decoded).foldl move handler.root
        · rw [if_pos (hof.isInsideRoot_iff.2 hinside), if_pos hinside,
            List.prefix_iff_eq_append.1 hinside]
        · rw [if_neg (fun hin => hinside (hof.isInsideRoot_iff.1 hin)), if_neg hinside]
      · rw [if_pos hslash]
        exact handle_of_candidateFor_error
          (by simp [candidateFor, candidateAt, hdecoded, hslash])

end Lookup

section Probe

variable {fs : FileSystem} (handler : StaticFileHandler fs)

/-- The elements of a target that steps beside the root, to a name with a NUL byte, and back. -/
def probe (name junk last : Bytes) (names : List Bytes) : List PathElement :=
  .up :: .entry (name ++ 0 :: junk) :: .up :: .entry last :: names.map .entry

/-- The target leads the handler to the elements of a probe. -/
def Probes (target name last : Bytes) (names : List Bytes) : Prop :=
  ∃ decoded junk, percentDecode (targetPath target) = some decoded ∧ decoded.head? = some 47 ∧
    makeRelativePath decoded = probe name junk last names

/-- The target of a probe, with a literal NUL byte between two spellings. -/
def probeTarget (spelledName spelledPath : Bytes) : Bytes :=
  ascii "/../" ++ (spelledName ++ 0 :: (ascii "/../" ++ spelledPath))

theorem elementOf_of_nul_mem
    {piece : Bytes}
    (h : 0 ∈ piece) :
    elementOf piece = .entry piece := by
  have hne : piece ≠ [] ∧ piece ≠ [46] ∧ piece ≠ [46, 46] := by
    refine ⟨?_, ?_, ?_⟩ <;> rintro rfl <;> revert h <;> decide
  simp [elementOf, hne]

/-- What the target of a probe decodes to, as pieces between slashes. -/
theorem percentDecode_probeTarget
    {name last spelledName spelledPath : Bytes}
    {names : List Bytes}
    (hname : Spells name spelledName)
    (hnul : 0 ∉ name)
    (hpath : Spells (List.intercalate [47] (last :: names)) spelledPath)
    (hnuls : 0 ∉ List.intercalate [47] (last :: names)) :
    percentDecode (probeTarget spelledName spelledPath) =
      some (47 :: List.intercalate [47]
        ([46, 46] :: (name ++ [0]) :: [46, 46] :: last :: names)) := by
  have hfront : Spells (ascii "/../") (ascii "/../") :=
    .literal (by decide) (.literal (by decide) (.literal (by decide) (.literal (by decide) .nil)))
  have hclean : 0 ∉ ascii "/../" := by decide
  rw [probeTarget, percentDecode_spells_append hfront hclean,
    percentDecode_spells_append hname hnul, percentDecode_cons_of_ne (by decide),
    percentDecode_spells_append hfront hclean, percentDecode_of_spells hpath hnuls]
  simp [List.intercalate_cons_cons, ascii]

/-- A spelling of the name and one of the public path make the target of a probe. -/
theorem probes_probeTarget
    {name last spelledName spelledPath : Bytes}
    {names : List Bytes}
    (hvalid : ∀ n ∈ name :: last :: names, validName n = true)
    (hname : Spells name spelledName)
    (hpath : Spells (List.intercalate [47] (last :: names)) spelledPath) :
    Probes (probeTarget spelledName spelledPath) name last names := by
  obtain ⟨hvalidName, hvalidPath⟩ := List.forall_mem_cons.1 hvalid
  have hnul : ∀ {n : Bytes}, validName n = true → 0 ∉ n :=
    fun {n} hn => ((validName_iff n).1 hn).2.2.2.2
  have hnuls : 0 ∉ List.intercalate [47] (last :: names) :=
    not_mem_intercalate (by decide) (fun n hn => hnul (hvalidPath n hn))
  have hdecode := percentDecode_probeTarget hname (hnul hvalidName) hpath hnuls
  refine ⟨_, [], Eq.trans (congrArg percentDecode ?_) hdecode, rfl, ?_⟩
  · -- there is no query, so that all of the target is its path
    have hquery : 63 ∉ ascii "../" ++ (spelledName ++ 0 :: (ascii "/../" ++ spelledPath)) := by
      simp [ascii, hname.not_mem, hpath.not_mem]
    have htarget := targetPath_of_spelled (by simp) hquery (Or.inl rfl)
    rwa [List.append_nil] at htarget
  · rw [makeRelativePath_pieces (by simp)]
    · have hnames : (last :: names).map elementOf = (last :: names).map .entry :=
        List.map_congr_left (fun n hn => elementOf_of_validName (hvalidPath n hn))
      have hmarked : elementOf (name ++ [0]) = .entry (name ++ [0]) :=
        elementOf_of_nul_mem (by simp)
      simp only [List.map_cons] at hnames ⊢
      rw [hnames, hmarked]
      rfl
    · obtain ⟨_, hslash⟩ := piece_of_validName hvalidName
      have hrest := fun n hn => piece_of_validName (hvalidPath n hn)
      simp only [List.forall_mem_cons] at hrest ⊢
      exact ⟨by decide, by simp [hslash], by decide, hrest⟩

/-- There is a probe for every name, in a request line that the parser accepts. -/
theorem exists_probes
    {name last : Bytes}
    {names : List Bytes}
    (hvalid : ∀ n ∈ name :: last :: names, validName n = true) :
    ∃ target, Probes target name last names ∧
      (RequestLine.mk (ascii "GET") target (ascii "HTTP/1.1")).WellFormed ∧
      ¬ crlf <:+: (RequestLine.mk (ascii "GET") target (ascii "HTTP/1.1")).bytes := by
  obtain ⟨spelledName, hname⟩ := exists_spells name
  obtain ⟨spelledPath, hpath⟩ := exists_spells (List.intercalate [47] (last :: names))
  refine ⟨_, probes_probeTarget hvalid hname hpath, wellFormed_of_target rfl ?_ ?_ (Or.inl rfl)⟩
  · simp [probeTarget, ascii, hname.not_mem, hpath.not_mem]
  · simp [probeTarget, ascii, hname.not_mem, hpath.not_mem]

theorem takeWhile_nul
    {name : Bytes}
    (h : 0 ∉ name)
    (junk : Bytes) :
    (name ++ 0 :: junk).takeWhile (· ≠ 0) = name := by
  have hname : ∀ byte ∈ name, decide (byte ≠ 0) = true := by
    intro byte hbyte
    rw [decide_eq_true_eq]
    rintro rfl
    exact h hbyte
  rw [List.takeWhile_append_of_pos hname]
  simp

/-- The operating system sees the name beside the root and nothing behind it. -/
theorem realpath_probe
    {dir : List Bytes}
    {last name : Bytes}
    (hroot : fs.tree.IsReal (dir ++ [last]))
    (hname : validName name = true)
    (junk : Bytes)
    (rest : List PathElement) :
    fs.realpath ((dir ++ [last]).map .entry ++ .up :: .entry (name ++ 0 :: junk) :: rest) =
      walk fs.tree fs.maxLinks (dir ++ [last]) [.up, .entry name] := by
  rw [FileSystem.realpath_names_append hroot]
  have hnul : (0 : UInt8) ∉ name := ((validName_iff name).1 hname).2.2.2.2
  have hcontains : (name ++ 0 :: junk).contains 0 = true := by simp
  rw [osView, osView, if_pos hcontains, takeWhile_nul hnul, elementOf_of_validName hname]

theorem walk_beside
    {dir : List Bytes}
    {last : Bytes}
    (name : Bytes)
    (hroot : fs.tree.node (dir ++ [last]) = some .directory)
    (links : Nat) :
    (fs.tree.node (dir ++ [name]) = none →
      walk fs.tree links (dir ++ [last]) [.up, .entry name] = .notFound) ∧
    (fs.tree.IsReal (dir ++ [name]) →
      walk fs.tree links (dir ++ [last]) [.up, .entry name] = .found (dir ++ [name])) := by
  have hdir := fs.tree.parentDirectory dir last (by simp [hroot])
  simp only [walk_eq_iff]
  constructor
  · intro hname
    refine .up hroot ?_
    rw [List.dropLast_concat]
    exact .missing hdir hname
  · intro hname
    refine .up hroot ?_
    rw [List.dropLast_concat]
    exact .real hdir hname .done

/-- As text, the steps beside the root and back leave nothing behind. -/
theorem lexicalNormal_probe
    (dir : List Bytes)
    (last name : Bytes)
    {names : List Bytes}
    (hne : names ≠ []) :
    lexicalNormal (dir.map .entry ++
        .entry name :: .up :: .entry last :: names.map .entry) =
      (dir ++ [last] ++ names).map .entry := by
  have hloop : normalLoop [] false (dir.map .entry ++
      .entry name :: .up :: .entry last :: names.map .entry) =
        (dir ++ [last] ++ names, false) := by
    have hnames := normalLoop_names (dir ++ [last]) false names hne []
    rw [List.append_nil, normalLoop] at hnames
    rw [FileSystem.normalLoop_root, normalLoop, normalLoop, normalLoop, List.dropLast_concat,
      hnames]
  unfold lexicalNormal
  rw [hloop]
  simp

section Candidates

variable {dir : List Bytes} {last name : Bytes}
  (hdirectory : fs.tree.node (dir ++ [last]) = some .directory)
  (hname : validName name = true)

include hdirectory hname

/-- Every element behind the NUL byte is hidden, so that the whole path of a probe exists. -/
theorem weaklyCanonical_probe_found
    (hthere : fs.tree.IsReal (dir ++ [name]))
    (junk : Bytes)
    (names : List Bytes) :
    fs.weaklyCanonical ((dir ++ [last]).map .entry ++ probe name junk last names) =
      some ((dir ++ [name]).map .entry) := by
  rw [FileSystem.weaklyCanonical_eq_some_iff]
  refine .existing ?_
  rw [probe, realpath_probe (Or.inl hdirectory) hname]
  exact (walk_beside name hdirectory fs.maxLinks).2 hthere

/-- What is missing is taken as text, and the text leads back to the public file. -/
theorem weaklyCanonical_probe_missing
    (hmissing : fs.tree.node (dir ++ [name]) = none)
    (junk : Bytes)
    {names : List Bytes}
    (hne : names ≠ []) :
    fs.weaklyCanonical ((dir ++ [last]).map .entry ++ probe name junk last names) =
      some ((dir ++ [last] ++ names).map .entry) := by
  have hreal : fs.tree.IsReal (dir ++ [last]) := Or.inl hdirectory
  rw [FileSystem.weaklyCanonical_eq_some_iff,
    ← lexicalNormal_probe dir last (name ++ 0 :: junk) hne]
  refine @FileSystem.WeaklyCanonicalOf.missing _ _ ((dir ++ [last]).map .entry ++ [.up])
    _ _ _ ?_ ?_ ?_
  · simp [probe]
  · rw [FileSystem.realpath_names_append hreal]
    refine walk_eq_iff.2 (.up hdirectory ?_)
    rw [List.dropLast_concat]
    exact .done
  · rw [List.append_assoc, List.singleton_append, realpath_probe hreal hname]
    exact (walk_beside name hdirectory fs.maxLinks).1 hmissing

end Candidates

/-- A target whose candidate is a public file is answered with it. -/
theorem handle_of_public_candidate
    {names : List Bytes}
    {file : RegularFile}
    (hfile : fs.tree.node (handler.root ++ names) = some (.regular file))
    (hreadable : readable file = true)
    (hfits : file.content.length ≤ handler.maxFileBytes)
    {request : HttpRequest}
    (hmethod : request.method = ascii "GET")
    {decoded : Bytes}
    (hdecoded : percentDecode (targetPath request.target) = some decoded)
    (hslash : decoded.head? = some 47)
    (hcandidate : fs.weaklyCanonical (handler.root.map .entry ++ makeRelativePath decoded) =
      some ((handler.root ++ names).map .entry)) :
    (handler.handle request).statusCode = 200 ∧
      (handler.handle request).body = file.content := by
  have hregular : fs.regularFile (handler.root ++ names) = some file := by
    simp [FileSystem.regularFile, hfile]
  have hopened := FileSystem.realpath_names (Or.inr ⟨file, hfile⟩)
  have hinside : isInsideRoot (handler.root.map .entry)
      ((handler.root ++ names).map .entry) = true := by
    rw [isInsideRoot_iff]
    exact (List.prefix_append _ _).map _
  rw [handler.handle_of_weaklyCanonical hdecoded hslash hcandidate, if_pos hinside,
    respondWith_of_regular hopened hfile, ← serveFile_eq_fileResponse hopened hregular, hmethod]
  have hservable : Servable fs ((handler.root ++ names).map .entry) false handler.maxFileBytes
      (handler.root ++ names) file := ⟨hopened, hregular, hfits, Or.inr hreadable⟩
  obtain ⟨hstatus, hbody, _⟩ := serveFile_of_servable handler.bounded hservable
  exact ⟨hstatus, hbody⟩

/--
A target with a literal NUL byte tells whether a name exists beside the root: it is
refused if it does, and answered with a public file if it does not.  There is such a
target for every name that a directory can hold, if it is not that of a symbolic link.
-/
theorem nul_target_probes
    {dir names : List Bytes}
    {last name : Bytes}
    (hroot : handler.root = dir ++ [last])
    (hname : validName name = true)
    (hbeside : name ≠ last)
    (hplain : ∀ absolute target, fs.tree.node (dir ++ [name]) ≠ some (.symlink absolute target))
    (hne : names ≠ [])
    {file : RegularFile}
    (hfile : fs.tree.node (handler.root ++ names) = some (.regular file))
    (hreadable : readable file = true)
    (hfits : file.content.length ≤ handler.maxFileBytes) :
    (∃ target, Probes target name last names ∧
      (RequestLine.mk (ascii "GET") target (ascii "HTTP/1.1")).WellFormed ∧
      ¬ crlf <:+: (RequestLine.mk (ascii "GET") target (ascii "HTTP/1.1")).bytes) ∧
    ∀ request : HttpRequest, request.method = ascii "GET" →
      Probes request.target name last names →
      (fs.tree.node (dir ++ [name]) ≠ none → handler.handle request = forbidden) ∧
      (fs.tree.node (dir ++ [name]) = none →
        (handler.handle request).statusCode = 200 ∧
          (handler.handle request).body = file.content) := by
  have hthere : fs.tree.IsReal (handler.root ++ names) := Or.inr ⟨file, hfile⟩
  have hvalid : ∀ n ∈ name :: last :: names, validName n = true := by
    refine List.forall_mem_cons.2 ⟨hname, fun n hn => FileSystem.validName_of_isReal hthere ?_⟩
    rw [hroot, List.append_assoc]
    exact List.mem_append_right _ hn
  have hdirectory := node_directory_of_append handler.root hne hthere.ne_none
  rw [hroot] at hdirectory
  refine ⟨exists_probes hvalid, ?_⟩
  rintro request hmethod ⟨decoded, junk, hdecoded, hslash, hprobe⟩
  constructor
  · intro hexists
    have hfound := weaklyCanonical_probe_found hdirectory hname
      (Tree.isReal_of_not_symlink hexists hplain) junk names
    rw [← hroot, ← hprobe] at hfound
    rw [handler.handle_of_weaklyCanonical hdecoded hslash hfound, if_neg]
    -- the candidate lies beside the root
    rw [isInsideRoot_iff, hroot]
    intro hprefix
    have hlast := (List.prefix_append_right_inj dir).1 (prefix_of_map_entry hprefix)
    have heq : last = name := by simpa using hlast
    exact hbeside heq.symm
  · intro hmissing
    have hcandidate := weaklyCanonical_probe_missing hdirectory hname hmissing junk hne
    rw [← hroot, ← hprobe] at hcandidate
    exact handler.handle_of_public_candidate hfile hreadable hfits hmethod hdecoded hslash
      hcandidate

end Probe

end StaticFileHandler

section Runs

variable {fs fs' : FileSystem} {handler : StaticFileHandler fs} {handler' : StaticFileHandler fs'}
  {order : IterationOrder}

namespace Connection

/-- A round uses the handler for the request that it parses, and for nothing else. -/
theorem step_of_agree
    {c : Connection}
    {env : Env}
    (h : ∀ request ∈ emittedRequests (c.step handler order env).2,
      routeRequest request handler' = routeRequest request handler) :
    c.step handler' order env = c.step handler order env := by
  unfold step at h ⊢
  cases hstate : c.state with
  | reading => rfl
  | writing => rfl
  | closed => rfl
  | parsing =>
      simp only [hstate] at h ⊢
      unfold parseRequest at h ⊢
      dsimp only at h ⊢
      split_ifs at h ⊢ with hmore
      · rfl
      · rfl
      · cases hrequest : (c.noticeBuffered env.now).parser.next.1.request with
        | none => rfl
        | some request =>
            simp only [hrequest] at h ⊢
            have hroute : routeRequest request handler' = routeRequest request handler :=
              h request (List.mem_filterMap.2 ⟨_, List.mem_cons_self, hrequest⟩)
            unfold answer
            rw [hroute]

theorem RoundStep.of_agree
    {c c' : Connection}
    {rounds : List Round}
    (hstep : RoundStep handler order c rounds c')
    (h : ∀ request ∈ emittedRequests (eventsOf rounds),
      routeRequest request handler' = routeRequest request handler) :
    RoundStep handler' order c rounds c' := by
  obtain ⟨hopen, env, hpermitted, events, hround, rfl⟩ := hstep
  refine ⟨hopen, env, hpermitted, events, ?_, rfl⟩
  rw [step_of_agree, hround]
  simpa [hround] using h

end Connection

universe u v

variable {ω : Type u} {ρ : Type v}

/-- The requests that connections read in an event. -/
def ProgramEvent.requests : ProgramEvent ω ρ → List HttpRequest
  | .session (.stepped _ rounds) => emittedRequests (eventsOf rounds)
  | _ => []

/-- The requests of all clients. -/
def requestsOf (trace : List (ProgramEvent ω ρ)) : List HttpRequest :=
  trace.flatMap ProgramEvent.requests

variable [DecidableEq ω] [DecidableEq ρ] {config : ConnectionConfig}
  {maxHeaderBytes maxBodyBytes : Nat} {start s s' : ProgramState ω ρ}
  {trace word : List (ProgramEvent ω ρ)}

theorem ProgramStep.of_agree
    (hstep : ProgramStep handler order config maxHeaderBytes maxBodyBytes s word s')
    (h : ∀ request ∈ requestsOf word,
      routeRequest request handler' = routeRequest request handler) :
    ProgramStep handler' order config maxHeaderBytes maxBodyBytes s word s' := by
  cases hstep with
  | server hstep hword => exact .server hstep hword
  | constructs hpc hmake => exact .constructs hpc hmake
  | constructorThrows hpc hmake => exact .constructorThrows hpc hmake
  | round hserved hround =>
      refine .round hserved (hround.of_agree (fun request hrequest => h request ?_))
      simpa [requestsOf, ProgramEvent.requests] using hrequest
  | serveReturns hpc hserved hclosed => exact .serveReturns hpc hserved hclosed
  | serveThrows hpc hserved => exact .serveThrows hpc hserved

/-- Two handlers that agree on the requests of a run have that run in common. -/
theorem run_of_agree
    (hrun : Run (ProgramStep handler order config maxHeaderBytes maxBodyBytes) start trace s)
    (h : ∀ request ∈ requestsOf trace,
      routeRequest request handler' = routeRequest request handler) :
    Run (ProgramStep handler' order config maxHeaderBytes maxBodyBytes) start trace s := by
  induction hrun with
  | refl => exact .refl
  | tail _ last ih =>
      simp only [requestsOf, List.flatMap_append, List.mem_append, or_imp, forall_and] at h
      exact (ih h.1).tail (last.of_agree h.2)

/-- Handlers of one root answer alike where they can only look below it. -/
theorem routeRequest_of_below
    (hroot : handler'.root = handler.root)
    (hmax : handler'.maxFileBytes = handler.maxFileBytes)
    (hbelow : ∀ names,
      fs'.tree.node (handler.root ++ names) = fs.tree.node (handler.root ++ names))
    {request : HttpRequest}
    (h : handler.ReadsAsText request)
    (h' : handler'.ReadsAsText request) :
    routeRequest request handler' = routeRequest request handler := by
  have hhandle : handler'.handle request = handler.handle request := by
    rw [handler.handle_eq_lexicalAnswer h, handler'.handle_eq_lexicalAnswer h', hroot, hmax]
    simp only [hbelow]
  unfold routeRequest
  rw [hhandle]

variable (handler handler') in
/--
Two file systems that agree below the document root cannot be told apart: the program
has the same runs over both, as long as the targets hold no NUL byte and pass no link.
Both answer every lookup with an entry or with its absence.
-/
theorem outside_unobservable
    (hroot : handler'.root = handler.root)
    (hmax : handler'.maxFileBytes = handler.maxFileBytes)
    (hbelow : ∀ names,
      fs'.tree.node (handler.root ++ names) = fs.tree.node (handler.root ++ names))
    (htext : ∀ request ∈ requestsOf trace,
      handler.ReadsAsText request ∧ handler'.ReadsAsText request) :
    Run (ProgramStep handler order config maxHeaderBytes maxBodyBytes) start trace s ↔
      Run (ProgramStep handler' order config maxHeaderBytes maxBodyBytes) start trace s := by
  have hagree : ∀ request ∈ requestsOf trace,
      routeRequest request handler' = routeRequest request handler := by
    intro request hrequest
    obtain ⟨h, h'⟩ := htext request hrequest
    exact routeRequest_of_below hroot hmax hbelow h h'
  constructor
  · intro hrun
    exact run_of_agree hrun hagree
  · intro hrun
    exact run_of_agree hrun (fun request hrequest => (hagree request hrequest).symm)

end Runs

section Sample

open StaticFileHandler Connection

/-- The site of `spacedSite`, with a directory beside its root. -/
def guardedSite : FileSystem :=
  FileSystem.ofTable 40
    [([ascii "key"], .directory),
      ([ascii "www"], .directory),
      ([ascii "www", ascii "a b"], .regular { content := ascii "spaced\n" })]
    (by decide)
    (by decide)

def guardedHandler : StaticFileHandler guardedSite where
  root := [ascii "www"]
  canonical := Or.inl rfl
  bounded := default_maxFileBytes_lt

/-- A client that climbs out of the root and back. -/
def climbingEnv : Env :=
  { now := 0
    later := 0
    setsockopt := none
    read := .data ⟨ascii "GET /../key/../www/a%20b HTTP/1.0\r\n\r\n", by decide, by decide⟩
    send := .sent 0 }

def climbingRound (c : Connection) : Connection × List Event :=
  c.step guardedHandler .insertion climbingEnv

theorem roundStep_climbingRound
    {c : Connection}
    (hopen : c.state ≠ .closed) :
    RoundStep guardedHandler .insertion c [⟨c, climbingEnv, (climbingRound c).2⟩]
      (climbingRound c).1 := by
  refine ⟨hopen, climbingEnv, ?_, _, rfl, rfl⟩
  intro _ n hsend
  cases hsend
  exact Nat.zero_le _

/-- A worker that has begun to serve that client. -/
def servingState : ProgramState Unit Unit :=
  (ProgramState.start Unit Unit { capacity := 1 }).setWorker () (.serving ⟨-1⟩ ⟨3⟩)
    (some sampleConnection)

/-- The request is read and answered in the same way without the directory. -/
theorem outside_unobservable_climbing :
    ∃ (trace : List (ProgramEvent Unit Unit)) (s : ProgramState Unit Unit),
      (requestsOf trace).map HttpRequest.target = [ascii "/../key/../www/a%20b"] ∧
      Run (ProgramStep guardedHandler .insertion {} (16 * 1024) (1024 * 1024))
        servingState trace s ∧
      Run (ProgramStep spacedHandler .insertion {} (16 * 1024) (1024 * 1024))
        servingState trace s := by
  have hstart : Run (ProgramStep guardedHandler .insertion {} (16 * 1024) (1024 * 1024))
      servingState [] servingState := .refl
  have hread := hstart.tail
    (.round (w := ()) rfl (roundStep_climbingRound (c := sampleConnection) (by decide)))
  have hparsed := hread.tail (.round (w := ()) rfl (roundStep_climbingRound (by decide +kernel)))
  refine ⟨_, _, ?_, hparsed,
    (outside_unobservable guardedHandler spacedHandler rfl rfl (fun _ => rfl) ?_).1 hparsed⟩
  · decide +kernel
  · decide +kernel

/-- `GET /../key/../www/a%20b` with a NUL byte behind `key`. -/
def probingRequest : HttpRequest :=
  { method := ascii "GET"
    target := ascii "/../key" ++ [0] ++ ascii "/../www/a%20b"
    version := ascii "HTTP/1.1"
    headers := HeaderMap.empty
    headerFields := []
    body := [] }

/-- One site holds a directory beside its root and the other does not. -/
theorem nul_target_probes_key :
    guardedHandler.handle probingRequest = forbidden ∧
      (spacedHandler.handle probingRequest).statusCode = 200 := by
  have hdecoded : percentDecode (targetPath probingRequest.target) =
      some (ascii "/../key" ++ [0] ++ ascii "/../www/a b") := by decide +kernel
  have hprobe : makeRelativePath (ascii "/../key" ++ [0] ++ ascii "/../www/a b") =
      probe (ascii "key") [] (ascii "www") [ascii "a b"] := by decide +kernel
  have hprobes : Probes probingRequest.target (ascii "key") (ascii "www") [ascii "a b"] :=
    ⟨_, _, hdecoded, rfl, hprobe⟩
  have hthere : guardedSite.tree.node [ascii "key"] = some .directory := rfl
  have hmissing : spacedSite.tree.node [ascii "key"] = none := rfl
  have hguarded : guardedHandler.root = [] ++ [ascii "www"] := rfl
  have hspaced : spacedHandler.root = [] ++ [ascii "www"] := rfl
  constructor
  · refine ((guardedHandler.nul_target_probes hguarded (by decide) (by decide) ?_
      (by simp) rfl (by decide) (by decide)).2 probingRequest rfl hprobes).1 ?_
    · simp [hthere]
    · simp [hthere]
  · refine (((spacedHandler.nul_target_probes hspaced (by decide) (by decide) ?_
      (by simp) rfl (by decide) (by decide)).2 probingRequest rfl hprobes).2 hmissing).1
    simp [hmissing]

end Sample

end HttpServer
