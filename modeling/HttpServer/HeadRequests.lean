import HttpServer.Router

/-!
# Responses to HEAD

A `HEAD` request is answered like the `GET` request with the same target, without
the body.  The two come from different paths of the code: for a file that is served,
`HEAD` asks the file system for its size and never opens it, while `GET` reads it;
for a refusal, the router puts the length of the body that it leaves out into the
response to `HEAD`.

`head_mirrors_get_iff` says for which targets the answers agree: all but those of a
file whose size can be asked for and whose bytes cannot be read.
-/

namespace HttpServer

/-- The response to a `HEAD` request is that to the `GET` request without the body. -/
structure Mirrors (order : IterationOrder) (head get : HttpResponse) : Prop where
  statusCode : head.statusCode = get.statusCode
  reasonPhrase : head.reasonPhrase = get.reasonPhrase
  headers : head.headers = get.headers
  length : head.declaredLength = get.declaredLength
  noBody : head.sentBody = []
  wire : serializeResponse order get = serializeResponse order head ++ get.body

section Serialised

variable {order : IterationOrder} {head get : HttpResponse}

/-- Responses that differ only in the body, and in how its length is given. -/
theorem mirrors_of_eq
    (hversion : head.version = get.version)
    (hstatus : head.statusCode = get.statusCode)
    (hreason : head.reasonPhrase = get.reasonPhrase)
    (hheaders : head.headers = get.headers)
    (hlength : head.declaredLength = get.declaredLength)
    (hhead : head.suppressBody = true)
    (hget : get.suppressBody = false) :
    Mirrors order head get := by
  have hnone : head.sentBody = [] := by simp [HttpResponse.sentBody, hhead]
  have hbody : get.sentBody = get.body := by simp [HttpResponse.sentBody, hget]
  refine ⟨hstatus, hreason, hheaders, hlength, hnone, ?_⟩
  simp only [serializeResponse, statusLine, hversion, hstatus, hreason, hheaders, hlength, hnone,
    hbody, List.append_nil]

/-- A response that the router deprives of its body. -/
theorem mirrors_withoutBody
    (order : IterationOrder)
    {response : HttpResponse}
    (hbody : response.suppressBody = false) :
    Mirrors order response.withoutBody response :=
  mirrors_of_eq rfl rfl rfl rfl rfl rfl hbody

end Serialised

namespace StaticFileHandler

variable {fs : FileSystem} (handler : StaticFileHandler fs)

/-- The file of a target has a size within the bound, but cannot be read. -/
def Unreadable (target : Bytes) : Prop :=
  ∃ candidate real file, handler.candidateFor target = .ok candidate ∧
    Servable fs candidate true handler.maxFileBytes real file ∧ readable file = false

variable {path : List PathElement} {maxFileBytes : Nat} {real : List Bytes} {file : RegularFile}

/-- A file that can be read: `HEAD` reports the size of what `GET` sends. -/
theorem serveFile_mirrors
    (order : IterationOrder)
    (hmax : maxFileBytes < sizeBound)
    (h : Servable fs path true maxFileBytes real file)
    (hreadable : readable file = true) :
    Mirrors order (serveFile fs path true maxFileBytes).withoutBody
      (serveFile fs path false maxFileBytes) := by
  have hread := (readFile_eq_some_iff file hmax file.content).2 ⟨hreadable, h.fits, rfl⟩
  have hfits : ¬ maxFileBytes < file.content.length := by
    have := h.fits
    omega
  unfold serveFile fileResponse
  simp only [h.opened, h.regular, hfits, if_false, if_true, hread, Bool.false_eq_true]
  exact mirrors_of_eq rfl rfl rfl rfl rfl rfl rfl

/-- A file that cannot be served for `HEAD` is refused for both. -/
theorem serveFile_of_not_servable
    (hnone : ∀ real file, ¬ Servable fs path true maxFileBytes real file)
    (isHead : Bool) :
    serveFile fs path isHead maxFileBytes = forbidden := by
  unfold serveFile fileResponse
  cases hopened : fs.realpath path with
  | notFound => rfl
  | tooManyLinks => rfl
  | found real =>
      dsimp only
      cases hregular : fs.regularFile real with
      | none => rfl
      | some file =>
          have hsize : maxFileBytes < file.content.length := by
            by_contra hfits
            exact hnone real file ⟨hopened, hregular, by omega, Or.inl rfl⟩
          simp [hsize]

/-- A path leads to one file. -/
theorem Servable.file_eq
    {isHead isHead' : Bool}
    {real' : List Bytes}
    {file' : RegularFile}
    (h : Servable fs path isHead maxFileBytes real file)
    (h' : Servable fs path isHead' maxFileBytes real' file') :
    file' = file := by
  have hopened := h'.opened
  rw [h.opened] at hopened
  cases hopened
  exact Option.some.inj (h'.regular.symm.trans h.regular)

theorem unreadable_iff
    {target : Bytes}
    {candidate : List PathElement}
    (hcandidate : handler.candidateFor target = .ok candidate)
    (h : Servable fs candidate true handler.maxFileBytes real file) :
    handler.Unreadable target ↔ readable file = false := by
  constructor
  · rintro ⟨candidate', real', file', hcandidate', h', hreadable⟩
    rw [hcandidate] at hcandidate'
    cases hcandidate'
    rw [← h.file_eq h']
    exact hreadable
  · intro hreadable
    exact ⟨candidate, real, file, hcandidate, h, hreadable⟩

theorem handle_head
    (request : HttpRequest) :
    handler.handle { request with method := ascii "HEAD" } =
      match handler.locate request.target with
      | .error response => response
      | .ok candidate => serveFile fs candidate true handler.maxFileBytes :=
  handler.handle_eq_locate _

theorem handle_get
    (request : HttpRequest) :
    handler.handle { request with method := ascii "GET" } =
      match handler.locate request.target with
      | .error response => response
      | .ok candidate => serveFile fs candidate false handler.maxFileBytes :=
  handler.handle_eq_locate _

/--
`HEAD` mirrors `GET` for every target, except for those whose file has a size within
the bound and cannot be read.
-/
theorem head_mirrors_get_iff
    (order : IterationOrder)
    (request : HttpRequest) :
    Mirrors order (routeRequest { request with method := ascii "HEAD" } handler)
      (routeRequest { request with method := ascii "GET" } handler) ↔
    ¬ handler.Unreadable request.target := by
  have hhead : routeRequest { request with method := ascii "HEAD" } handler =
      (handler.handle { request with method := ascii "HEAD" }).withoutBody := rfl
  have hget : routeRequest { request with method := ascii "GET" } handler =
      handler.handle { request with method := ascii "GET" } := rfl
  rw [hhead, hget, handle_head, handle_get]
  cases hlocate : handler.locate request.target with
  | error response =>
      have hbody : response.suppressBody = false := by
        have hmem := handler.locate_error_mem hlocate
        simp only [List.mem_cons, List.not_mem_nil, or_false] at hmem
        rcases hmem with rfl | rfl | rfl <;> rfl
      refine iff_of_true (mirrors_withoutBody order hbody) ?_
      rintro ⟨candidate, real, file, hcandidate, h, _⟩
      have hok := (handler.locate_eq_ok_iff request.target candidate).2
        ⟨hcandidate, real, file, h.opened, h.regular⟩
      simp [hlocate] at hok
  | ok candidate =>
      have hcandidate := ((handler.locate_eq_ok_iff request.target candidate).1 hlocate).1
      dsimp only
      by_cases hservable : ∃ real file,
          Servable fs candidate true handler.maxFileBytes real file
      · obtain ⟨real, file, h⟩ := hservable
        rw [handler.unreadable_iff hcandidate h, Bool.not_eq_false]
        constructor
        · intro hmirrors
          have hok : (serveFile fs candidate false handler.maxFileBytes).statusCode = 200 :=
            hmirrors.statusCode.symm.trans (serveFile_of_servable handler.bounded h).1
          obtain ⟨real', file', h'⟩ := servable_of_serveFile handler.bounded hok
          rw [← h.file_eq h']
          exact h'.readable.resolve_left (by simp)
        · exact serveFile_mirrors order handler.bounded h
      · have hnone : ∀ real file, ¬ Servable fs candidate true handler.maxFileBytes real file :=
          fun real file h => hservable ⟨real, file, h⟩
        rw [serveFile_of_not_servable hnone, serveFile_of_not_servable hnone]
        refine iff_of_true (mirrors_withoutBody order rfl) ?_
        rintro ⟨candidate', real, file, hcandidate', h, _⟩
        rw [hcandidate] at hcandidate'
        cases hcandidate'
        exact hnone real file h

section Counterexample

/-- A file that the server has no permission to open. -/
def privateSite : FileSystem :=
  FileSystem.ofTable 40
    [([ascii "www"], .directory),
      ([ascii "www", ascii "a.txt"], .regular { content := ascii "text\n", openable := false })]
    (by decide)
    (by decide)

def privateHandler : StaticFileHandler privateSite where
  root := [ascii "www"]
  canonical := Or.inl rfl
  bounded := default_maxFileBytes_lt

/-- A request for that file, by any method. -/
def privateRequest (method : Bytes) : HttpRequest :=
  { method := method
    target := ascii "/a.txt"
    version := ascii "HTTP/1.1"
    headers := HeaderMap.empty
    headerFields := []
    body := [] }

/-- `HEAD` reports the size of the file, and `GET` is refused. -/
theorem privateHandler_not_mirrors :
    (routeRequest (privateRequest (ascii "HEAD")) privateHandler).statusCode = 200 ∧
    (routeRequest (privateRequest (ascii "GET")) privateHandler).statusCode = 403 ∧
    ∀ order, ¬ Mirrors order (routeRequest (privateRequest (ascii "HEAD")) privateHandler)
      (routeRequest (privateRequest (ascii "GET")) privateHandler) := by
  have hhead : (routeRequest (privateRequest (ascii "HEAD")) privateHandler).statusCode = 200 := by
    decide +kernel
  have hget : (routeRequest (privateRequest (ascii "GET")) privateHandler).statusCode = 403 := by
    decide +kernel
  refine ⟨hhead, hget, fun order h => ?_⟩
  have hstatus := h.statusCode
  rw [hhead, hget] at hstatus
  cases hstatus

end Counterexample

end StaticFileHandler

end HttpServer
