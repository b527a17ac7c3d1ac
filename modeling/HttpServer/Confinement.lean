import HttpServer.StaticFileHandler

/-!
# Confinement to the document root

A response is confined when the file it reports lies, with every symbolic link
resolved, under the document root.

The containment test looks at the weakly canonical path.  Where the whole path
exists that path is real, and the test decides confinement.  Where an element is
missing, the elements behind it are only normalised as text: a `..` takes back
the missing element, and what follows it is never resolved before the test.  If
it is a symbolic link, opening the path follows it.  `Escape` describes these
requests, and they are the only ones that are not confined.
-/

namespace HttpServer

open PathWalk

namespace StaticFileHandler

variable {fs : FileSystem}

/-- The file that a successful response reports lies under the root. -/
def Confined (handler : StaticFileHandler fs) (request : HttpRequest) : Prop :=
  (handler.handle request).statusCode = 200 →
    ∃ candidate real file,
      handler.locate request.target = .ok candidate ∧
      fs.realpath candidate = .found real ∧
      fs.regularFile real = some file ∧
      Reports (request.method == ascii "HEAD") (handler.handle request) file ∧
      handler.root <+: real

/--
A target whose elements below the root are `existing`, then `element`, the first
that is missing behind the directory `reached`, then `rest`.
-/
structure Escape (handler : StaticFileHandler fs) (request : HttpRequest)
    (decoded : Bytes) (existing rest : List PathElement) (element : PathElement)
    (reached real : List Bytes) (file : RegularFile) : Prop where
  decodes : percentDecode (targetPath request.target) = some decoded
  slash : decoded.head? = some 47
  split : handler.root.map .entry ++ makeRelativePath decoded = existing ++ element :: rest
  reachable : fs.realpath existing = .found reached
  missing : fs.realpath (existing ++ [element]) = .notFound
  dotdot : .up ∈ element :: rest
  /-- As text, what remains leads back below the root. -/
  inside : handler.root.map .entry <+: lexicalNormal (reached.map .entry ++ element :: rest)
  /-- As a path, it leads to a regular file elsewhere. -/
  opens : Servable fs (lexicalNormal (reached.map .entry ++ element :: rest))
    (request.method == ascii "HEAD") handler.maxFileBytes real file
  outside : ¬ handler.root <+: real

/-- The requests that are led out of the root. -/
def EscapesRoot (handler : StaticFileHandler fs) (request : HttpRequest) : Prop :=
  ∃ decoded existing rest element reached real file,
    Escape handler request decoded existing rest element reached real file

theorem prefix_of_map_entry
    {root real : List Bytes}
    (h : root.map Element.entry <+: real.map Element.entry) :
    root <+: real := by
  have hinj : Function.Injective (Element.entry : Bytes → PathElement) :=
    fun _ _ heq => Element.entry.inj heq
  obtain ⟨rest, hrest⟩ := h
  obtain ⟨front, back, rfl, hfront, _⟩ := List.map_eq_append_iff.1 hrest.symm
  rw [List.map_injective_iff.2 hinj hfront]
  exact List.prefix_append _ _

variable (handler : StaticFileHandler fs)

/-- A confined response reports the file its candidate leads to. -/
theorem confined_iff
    (request : HttpRequest) :
    Confined handler request ↔
      ∀ candidate real file, handler.candidateFor request.target = .ok candidate →
        Servable fs candidate (request.method == ascii "HEAD") handler.maxFileBytes real file →
        handler.root <+: real := by
  constructor
  · intro h candidate real file hcandidate hserve
    obtain ⟨path, real', file', hlocate, hopened, _, _, hroot⟩ :=
      h ((handler.handle_ok_iff request).2 ⟨candidate, real, file, hcandidate, hserve⟩)
    have hpath := ((handler.locate_eq_ok_iff _ _).1 hlocate).1
    rw [hcandidate] at hpath
    cases hpath
    rw [hserve.opened] at hopened
    cases hopened
    exact hroot
  · intro h hok
    obtain ⟨candidate, real, file, hcandidate, hserve⟩ := (handler.handle_ok_iff request).1 hok
    have hlocate := (handler.locate_eq_ok_iff request.target candidate).2
      ⟨hcandidate, real, file, hserve.opened, hserve.regular⟩
    refine ⟨candidate, real, file, hlocate, hserve.opened, hserve.regular, ?_,
      h candidate real file hcandidate hserve⟩
    have hhandle : handler.handle request =
        serveFile fs candidate (request.method == ascii "HEAD") handler.maxFileBytes := by
      rw [handle_eq_locate, hlocate]
    rw [hhandle]
    exact (serveFile_of_servable handler.bounded hserve).2

/-- A candidate that existed as a whole is a real path. -/
theorem root_prefix_of_existing
    {path : List PathElement}
    {reached real : List Bytes}
    (hfound : fs.realpath path = .found reached)
    (hinside : handler.root.map .entry <+: reached.map Element.entry)
    (hopened : fs.realpath (reached.map .entry) = .found real) :
    handler.root <+: real := by
  rw [FileSystem.realpath_names (FileSystem.isReal_of_realpath hfound)] at hopened
  cases hopened
  exact prefix_of_map_entry hinside

/--
A request is answered from inside the root unless a missing element, taken back
by a later `..`, hides a symbolic link that leads out of it.
-/
theorem confined_iff_not_escapesRoot
    (request : HttpRequest) :
    Confined handler request ↔ ¬ EscapesRoot handler request := by
  rw [confined_iff]
  constructor
  · rintro h ⟨decoded, existing, rest, element, reached, real, file, hesc⟩
    refine hesc.outside (h _ real file ?_ hesc.opens)
    rw [candidateFor_eq_ok_iff]
    exact ⟨decoded, hesc.decodes, hesc.slash, .missing hesc.split hesc.reachable hesc.missing,
      hesc.inside⟩
  · intro h candidate real file hcandidate hserve
    by_contra houtside
    obtain ⟨decoded, hdecodes, hslash, hcanonical, hinside⟩ :=
      (handler.candidateFor_eq_ok_iff _ _).1 hcandidate
    cases hcanonical with
    | existing hfound =>
        exact houtside (handler.root_prefix_of_existing hfound hinside hserve.opened)
    | @missing existing rest element reached hpath hfound hmissing =>
        have hdotdot : .up ∈ element :: rest := by
          by_contra hup
          have hnone := FileSystem.realpath_lexicalNormal_of_no_up hfound hmissing hup
          have hopened := hserve.opened
          simp [hnone] at hopened
        exact h ⟨decoded, existing, rest, element, reached, real, file,
          ⟨hdecodes, hslash, hpath, hfound, hmissing, hdotdot, hinside, hserve, houtside⟩⟩

section Counterexample

/-- `/srv/www` holds a link to `/srv/secret`, a directory with one file. -/
def linkedSite : FileSystem :=
  FileSystem.ofTable 40
    [([ascii "srv"], .directory),
      ([ascii "srv", ascii "www"], .directory),
      ([ascii "srv", ascii "www", ascii "link"],
        .symlink false [.up, .entry (ascii "secret")]),
      ([ascii "srv", ascii "secret"], .directory),
      ([ascii "srv", ascii "secret", ascii "key"], .regular { content := ascii "hidden\n" })]
    (by decide)
    (by decide)

/-- The handler of `/srv/www` with the default size bound. -/
def linkedHandler : StaticFileHandler linkedSite where
  root := [ascii "srv", ascii "www"]
  canonical := Or.inl rfl
  bounded := default_maxFileBytes_lt

/-- `GET /x/../link/key`, where the root holds no `x`. -/
def escapingRequest : HttpRequest :=
  { method := ascii "GET"
    target := ascii "/x/../link/key"
    version := ascii "HTTP/1.1"
    headers := HeaderMap.empty
    headerFields := []
    body := [] }

theorem linkedHandler_not_confined :
    (linkedHandler.handle escapingRequest).statusCode = 200 ∧
    (linkedHandler.handle escapingRequest).body = ascii "hidden\n" ∧
    ¬ Confined linkedHandler escapingRequest := by
  have hok : (linkedHandler.handle escapingRequest).statusCode = 200 := by decide +kernel
  have hcandidate : linkedHandler.locate escapingRequest.target =
      .ok ([ascii "srv", ascii "www", ascii "link", ascii "key"].map .entry) := by
    decide +kernel
  have hreal : linkedSite.realpath
      ([ascii "srv", ascii "www", ascii "link", ascii "key"].map .entry) =
        .found [ascii "srv", ascii "secret", ascii "key"] := by
    decide +kernel
  refine ⟨hok, by decide +kernel, ?_⟩
  intro h
  obtain ⟨candidate, real, file, hlocate, hopened, _, _, hroot⟩ := h hok
  rw [hcandidate] at hlocate
  cases hlocate
  rw [hreal] at hopened
  cases hopened
  exact absurd hroot (by decide)

end Counterexample

end StaticFileHandler

end HttpServer
