import HttpServer.FileSystem
import HttpServer.Parser
import HttpServer.Response

/-!
# The static file handler

A request target is cut at its query, percent-decoded, joined to the document
root, weakly canonicalised and compared with the root element by element; what
passes is opened, and the operating system then follows whatever symbolic links
are still in it.

* `readFile_eq_some_iff`, `serveFile_ok_iff`: a file is served exactly when it
  can be read to its end and fits the size bound;
* `handle_ok_iff`: what a request answered with 200 was answered from.
-/

namespace HttpServer

open PathWalk

namespace StaticFileHandler

def extractPath (target : Bytes) : Bytes :=
  match Occurrence.find [63] target with
  | none => target
  | some query => target.take query

def hexValue (ch : UInt8) : Option Nat :=
  if 48 ≤ ch ∧ ch ≤ 57 then
    some (ch.toNat - 48)
  else if 97 ≤ ch ∧ ch ≤ 102 then
    some (ch.toNat - 97 + 10)
  else if 65 ≤ ch ∧ ch ≤ 70 then
    some (ch.toNat - 65 + 10)
  else
    none

/-- A `%` needs two hexadecimal digits behind it and may not denote NUL. -/
def percentDecode : Bytes → Option Bytes
  | [] => some []
  | ch :: rest =>
      if ch ≠ 37 then
        (percentDecode rest).map (fun output => ch :: output)
      else
        match rest with
        | first :: second :: rest =>
            match hexValue first, hexValue second with
            | some high, some low =>
                let decoded := UInt8.ofNat (high <<< 4 ||| low)
                if decoded = 0 then
                  none
                else
                  (percentDecode rest).map (fun output => decoded :: output)
            | _, _ => none
        | _ => none

def makeRelativePath (decodedPath : Bytes) : List PathElement :=
  pathElements (decodedPath.dropWhile (· == 47))

def isInsideRoot : List PathElement → List PathElement → Bool
  | [], _ => true
  | _ :: _, [] => false
  | rootElement :: root, candidateElement :: candidate =>
      if rootElement ≠ candidateElement then
        false
      else
        isInsideRoot root candidate

theorem isInsideRoot_iff
    (root candidate : List PathElement) :
    isInsideRoot root candidate = true ↔ root <+: candidate := by
  induction root generalizing candidate with
  | nil =>
      simp [isInsideRoot]
  | cons element root ih =>
      cases candidate with
      | nil => simp [isInsideRoot]
      | cons other candidate =>
          rw [isInsideRoot, List.cons_prefix_cons]
          by_cases h : element = other
          · simp [h, ih]
          · simp [h]

def badRequest : HttpResponse :=
  textResponse 400 (ascii "Bad Request") (ascii "bad request\n")

def forbidden : HttpResponse :=
  textResponse 403 (ascii "Forbidden") (ascii "forbidden\n")

def notFound : HttpResponse :=
  textResponse 404 (ascii "Not Found") (ascii "not found\n")

/-- `path::extension`: from the last dot of the file name, unless it begins the name. -/
def extension (path : List PathElement) : Bytes :=
  match path.getLast? with
  | some (.entry name) =>
      let behindDot := (name.reverse.takeWhile (· ≠ 46)).reverse
      if behindDot.length + 1 < name.length then 46 :: behindDot else []
  | _ => []

def contentTypeFor (path : List PathElement) : Bytes :=
  let suffix := extension path
  if suffix = ascii ".html" ∨ suffix = ascii ".htm" then
    ascii "text/html"
  else if suffix = ascii ".txt" then
    ascii "text/plain"
  else if suffix = ascii ".css" then
    ascii "text/css"
  else if suffix = ascii ".js" then
    ascii "application/javascript"
  else
    ascii "application/octet-stream"

section ReadFile

/-- The state of an input stream after a read. -/
inductive StreamState
  | good
  | eof
  | bad
deriving DecidableEq

/-- What one `read` of up to 8192 bytes delivers. -/
structure Delivery where
  bytes : Bytes
  state : StreamState

/-- The reads of a file: full buffers, then a short one that ends the stream. -/
def deliveries (ending : StreamState) : Nat → Bytes → List Delivery
  | 0, _ => []
  | rounds + 1, rest =>
      if rest.length < 8192 then
        [⟨rest, ending⟩]
      else
        ⟨rest.take 8192, .good⟩ :: deliveries ending rounds (rest.drop 8192)

/-- Open a file: its stream ends at the end of the file, or where reading fails. -/
def openFile (file : RegularFile) : Option (List Delivery) :=
  if file.openable then
    match file.faultAt with
    | none => some (deliveries .eof (file.content.length / 8192 + 1) file.content)
    | some position =>
        let front := file.content.take position
        some (deliveries .bad (front.length / 8192 + 1) front)
  else
    none

/-- The read loop.  The room left is a `std::size_t`, computed modulo its range. -/
def readLoop (maxFileBytes : Nat) : List Delivery → Bytes → Option Bytes
  | [], _ => none
  | delivery :: rest, body =>
      if (maxFileBytes + sizeBound - body.length) % sizeBound < delivery.bytes.length then
        none
      else
        match delivery.state with
        | .good => readLoop maxFileBytes rest (body ++ delivery.bytes)
        | .eof => some (body ++ delivery.bytes)
        | .bad => none

def readFile (file : RegularFile) (maxFileBytes : Nat) : Option Bytes :=
  match openFile file with
  | none => none
  | some stream => readLoop maxFileBytes stream []

/-- The room computed modulo the word size is the room there is. -/
theorem room_eq
    {maxFileBytes used : Nat}
    (hmax : maxFileBytes < sizeBound)
    (hused : used ≤ maxFileBytes) :
    (maxFileBytes + sizeBound - used) % sizeBound = maxFileBytes - used := by
  have hsum : maxFileBytes + sizeBound - used = (maxFileBytes - used) + sizeBound := by omega
  rw [hsum, Nat.add_mod_right, Nat.mod_eq_of_lt (by omega)]

theorem readLoop_deliveries_eq_some_iff
    {maxFileBytes : Nat}
    (hmax : maxFileBytes < sizeBound)
    {ending : StreamState}
    (hending : ending ≠ .good)
    (rounds : Nat)
    (rest body result : Bytes)
    (hrounds : rest.length < 8192 * rounds)
    (hbody : body.length ≤ maxFileBytes) :
    readLoop maxFileBytes (deliveries ending rounds rest) body = some result ↔
      ending = .eof ∧ body.length + rest.length ≤ maxFileBytes ∧ result = body ++ rest := by
  induction rounds generalizing rest body with
  | zero =>
      omega
  | succ rounds ih =>
      rw [deliveries]
      by_cases hshort : rest.length < 8192
      · rw [if_pos hshort, readLoop, room_eq hmax hbody]
        by_cases hroom : maxFileBytes - body.length < rest.length
        · rw [if_pos hroom]
          constructor
          · intro h
            cases h
          · rintro ⟨_, hfits, _⟩
            omega
        · rw [if_neg hroom]
          cases ending with
          | good => exact absurd rfl hending
          | bad => simp
          | eof =>
              simp only [Option.some.injEq, true_and]
              constructor
              · rintro rfl
                exact ⟨by omega, rfl⟩
              · rintro ⟨_, rfl⟩
                rfl
      · have hlen : (rest.take 8192).length = 8192 := by
          rw [List.length_take]
          omega
        rw [if_neg hshort, readLoop, room_eq hmax hbody, hlen]
        by_cases hroom : maxFileBytes - body.length < 8192
        · rw [if_pos hroom]
          constructor
          · intro h
            cases h
          · rintro ⟨_, hfits, _⟩
            omega
        · rw [if_neg hroom]
          dsimp only
          rw [ih _ _ (by rw [List.length_drop]; omega)
            (by rw [List.length_append, hlen]; omega)]
          rw [List.length_append, hlen, List.length_drop, List.append_assoc,
            List.take_append_drop]
          constructor
          · rintro ⟨heof, hfits, hresult⟩
            exact ⟨heof, by omega, hresult⟩
          · rintro ⟨heof, hfits, hresult⟩
            exact ⟨heof, by omega, hresult⟩

/-- A file whose bytes can be read to the end. -/
def readable (file : RegularFile) : Bool :=
  file.openable && file.faultAt.isNone

/-- The read loop returns the whole file or nothing. -/
theorem readFile_eq_some_iff
    (file : RegularFile)
    {maxFileBytes : Nat}
    (hmax : maxFileBytes < sizeBound)
    (body : Bytes) :
    readFile file maxFileBytes = some body ↔
      readable file = true ∧ file.content.length ≤ maxFileBytes ∧ body = file.content := by
  unfold readFile openFile readable
  cases hopen : file.openable with
  | false => simp
  | true =>
      cases hfault : file.faultAt with
      | none =>
          simp only [if_true]
          rw [readLoop_deliveries_eq_some_iff hmax (by simp) _ _ _ _ (by omega) (by simp)]
          simp
      | some position =>
          simp only [if_true]
          rw [readLoop_deliveries_eq_some_iff hmax (by simp) _ _ _ _ (by omega) (by simp)]
          simp

end ReadFile

/-- The response that carries a file. -/
def fileResponse (path : List PathElement) (file : RegularFile) (isHead : Bool)
    (maxFileBytes : Nat) : HttpResponse :=
  let response : HttpResponse :=
    { statusCode := 200
      reasonPhrase := ascii "OK"
      headers := HeaderMap.empty.assign (ascii "Content-Type") (contentTypeFor path) }
  if maxFileBytes < file.content.length then
    forbidden
  else if isHead then
    { response with
      contentLength := some file.content.length
      suppressBody := true }
  else
    match readFile file maxFileBytes with
    | none => forbidden
    | some body => { response with body := body }

def serveFile (fs : FileSystem) (path : List PathElement) (isHead : Bool) (maxFileBytes : Nat) :
    HttpResponse :=
  match fs.realpath path with
  | .found real =>
      match fs.regularFile real with
      | some file => fileResponse path file isHead maxFileBytes
      | none => forbidden
  | _ => forbidden

end StaticFileHandler

/-- A handler: a canonical document root and a `std::size_t` bound. -/
structure StaticFileHandler (fs : FileSystem) where
  root : List Bytes
  canonical : fs.tree.IsReal root
  maxFileBytes : Nat := 16 * 1024 * 1024
  bounded : maxFileBytes < sizeBound

namespace StaticFileHandler

theorem default_maxFileBytes_lt : 16 * 1024 * 1024 < sizeBound := by
  norm_num [sizeBound]

variable {fs : FileSystem}

/-- The path part of a target; the root stands for its index page. -/
def targetPath (target : Bytes) : Bytes :=
  let path := extractPath target
  if path = ascii "/" then ascii "/index.html" else path

/-- The canonical path of a decoded target, which has to lie inside the root. -/
def candidateAt (handler : StaticFileHandler fs) (decoded : Option Bytes) :
    Except HttpResponse (List PathElement) :=
  match decoded with
  | none => .error badRequest
  | some decoded =>
      if decoded.head? ≠ some 47 then
        .error badRequest
      else
        match fs.weaklyCanonical (handler.root.map .entry ++ makeRelativePath decoded) with
        | none => .error forbidden
        | some candidate =>
            if isInsideRoot (handler.root.map .entry) candidate then
              .ok candidate
            else
              .error forbidden

def candidateFor (handler : StaticFileHandler fs) (target : Bytes) :
    Except HttpResponse (List PathElement) :=
  handler.candidateAt (percentDecode (targetPath target))

/-- The tests that `exists` and `is_regular_file` make, following symbolic links. -/
def requireRegular (fs : FileSystem) (candidate : List PathElement) :
    Except HttpResponse (List PathElement) :=
  match fs.realpath candidate with
  | .tooManyLinks => .error forbidden
  | .notFound => .error notFound
  | .found real =>
      match fs.regularFile real with
      | none => .error forbidden
      | some _ => .ok candidate

/-- What the handler makes of a candidate inside the root. -/
def respondWith (fs : FileSystem) (candidate : List PathElement) (isHead : Bool)
    (maxFileBytes : Nat) : HttpResponse :=
  match requireRegular fs candidate with
  | .error response => response
  | .ok candidate => serveFile fs candidate isHead maxFileBytes

/-- The steps of the handler behind the decoder. -/
def respondTo (handler : StaticFileHandler fs) (method : Bytes) (decoded : Option Bytes) :
    HttpResponse :=
  match handler.candidateAt decoded with
  | .error response => response
  | .ok candidate => respondWith fs candidate (method == ascii "HEAD") handler.maxFileBytes

def handle (handler : StaticFileHandler fs) (request : HttpRequest) : HttpResponse :=
  handler.respondTo request.method (percentDecode (targetPath request.target))

/-- The path that is served for a target, or the response that refuses it. -/
def locate (handler : StaticFileHandler fs) (target : Bytes) :
    Except HttpResponse (List PathElement) :=
  handler.candidateFor target >>= requireRegular fs

theorem handle_of_candidateFor_error
    {handler : StaticFileHandler fs}
    {request : HttpRequest}
    {response : HttpResponse}
    (h : handler.candidateFor request.target = .error response) :
    handler.handle request = response := by
  unfold candidateFor at h
  rw [handle, respondTo, h]

theorem handle_of_candidateFor_ok
    {handler : StaticFileHandler fs}
    {request : HttpRequest}
    {candidate : List PathElement}
    (h : handler.candidateFor request.target = .ok candidate) :
    handler.handle request =
      respondWith fs candidate (request.method == ascii "HEAD") handler.maxFileBytes := by
  unfold candidateFor at h
  rw [handle, respondTo, h]

/-- A path is located and then served. -/
theorem handle_eq_locate
    (handler : StaticFileHandler fs)
    (request : HttpRequest) :
    handler.handle request =
      match handler.locate request.target with
      | .error response => response
      | .ok candidate =>
          serveFile fs candidate (request.method == ascii "HEAD") handler.maxFileBytes := by
  unfold locate
  cases h : handler.candidateFor request.target with
  | error response => exact handle_of_candidateFor_error h
  | ok candidate => exact handle_of_candidateFor_ok h

section Served

/-- A response that carries a file: its size for HEAD, its bytes otherwise. -/
def Reports (isHead : Bool) (response : HttpResponse) (file : RegularFile) : Prop :=
  if isHead then
    response.contentLength = some file.content.length ∧ response.suppressBody = true
  else
    response.body = file.content ∧ response.contentLength = none ∧ response.suppressBody = false

/-- The file that a path leads to can be served within the bound. -/
structure Servable (fs : FileSystem) (path : List PathElement) (isHead : Bool)
    (maxFileBytes : Nat) (real : List Bytes) (file : RegularFile) : Prop where
  opened : fs.realpath path = .found real
  regular : fs.regularFile real = some file
  fits : file.content.length ≤ maxFileBytes
  readable : isHead = true ∨ readable file = true

theorem serveFile_of_servable
    {path : List PathElement}
    {isHead : Bool}
    {maxFileBytes : Nat}
    {real : List Bytes}
    {file : RegularFile}
    (hmax : maxFileBytes < sizeBound)
    (h : Servable fs path isHead maxFileBytes real file) :
    (serveFile fs path isHead maxFileBytes).statusCode = 200 ∧
      Reports isHead (serveFile fs path isHead maxFileBytes) file := by
  unfold serveFile fileResponse
  rw [h.opened]
  simp only [h.regular]
  rw [if_neg (by have := h.fits; omega)]
  cases isHead with
  | true => simp [Reports]
  | false =>
      have hread := (readFile_eq_some_iff file hmax file.content).2
        ⟨h.readable.resolve_left (by simp), h.fits, rfl⟩
      simp [hread, Reports]

theorem servable_of_serveFile
    {path : List PathElement}
    {isHead : Bool}
    {maxFileBytes : Nat}
    (hmax : maxFileBytes < sizeBound)
    (h : (serveFile fs path isHead maxFileBytes).statusCode = 200) :
    ∃ real file, Servable fs path isHead maxFileBytes real file := by
  have hforbidden : forbidden.statusCode ≠ 200 := by decide
  unfold serveFile fileResponse at h
  cases hopened : fs.realpath path with
  | notFound => exact absurd (by simpa [hopened] using h) hforbidden
  | tooManyLinks => exact absurd (by simpa [hopened] using h) hforbidden
  | found real =>
      simp only [hopened] at h
      cases hregular : fs.regularFile real with
      | none => exact absurd (by simpa [hregular] using h) hforbidden
      | some file =>
          simp only [hregular] at h
          by_cases hsize : maxFileBytes < file.content.length
          · exact absurd (by simpa [hsize] using h) hforbidden
          · refine ⟨real, file, hopened, hregular, by omega, ?_⟩
            cases isHead with
            | true => exact Or.inl rfl
            | false =>
                cases hread : readFile file maxFileBytes with
                | none => exact absurd (by simpa [hsize, hread] using h) hforbidden
                | some body => exact Or.inr ((readFile_eq_some_iff file hmax body).1 hread).1

theorem serveFile_statusCode_mem
    (fs : FileSystem)
    (path : List PathElement)
    (isHead : Bool)
    (maxFileBytes : Nat) :
    (serveFile fs path isHead maxFileBytes).statusCode ∈ [200, 403] := by
  have hforbidden : forbidden.statusCode ∈ [200, 403] := by decide
  unfold serveFile fileResponse
  dsimp only
  split
  · split
    · split_ifs
      · exact hforbidden
      · simp
      · split
        · exact hforbidden
        · simp
    · exact hforbidden
  · exact hforbidden

variable (handler : StaticFileHandler fs)

theorem candidateFor_eq_ok_iff
    (target : Bytes)
    (candidate : List PathElement) :
    handler.candidateFor target = .ok candidate ↔
      ∃ decoded, percentDecode (targetPath target) = some decoded ∧
        decoded.head? = some 47 ∧
        FileSystem.WeaklyCanonicalOf fs
          (handler.root.map .entry ++ makeRelativePath decoded) candidate ∧
        handler.root.map .entry <+: candidate := by
  simp only [← fs.weaklyCanonical_eq_some_iff, ← isInsideRoot_iff]
  unfold candidateFor candidateAt
  cases hdecoded : percentDecode (targetPath target) with
  | none => simp
  | some decoded =>
      simp only [Option.some.injEq, exists_eq_left']
      by_cases hslash : decoded.head? = some 47
      · rw [if_neg (by simpa using hslash)]
        cases hcanonical :
            fs.weaklyCanonical (handler.root.map .entry ++ makeRelativePath decoded) with
        | none => simp
        | some path =>
            by_cases hinside : isInsideRoot (handler.root.map .entry) path = true
            · simp only [hinside, if_true, Except.ok.injEq, hslash, true_and, Option.some.injEq]
              constructor
              · rintro rfl
                exact ⟨rfl, hinside⟩
              · exact And.left
            · simp only [hinside, Bool.false_eq_true, if_false, reduceCtorEq, hslash, true_and,
                Option.some.injEq, false_iff]
              rintro ⟨rfl, h⟩
              exact hinside h
      · rw [if_pos (by simpa using hslash)]
        simp [hslash]

theorem requireRegular_eq_ok_iff
    (candidate path : List PathElement) :
    requireRegular fs candidate = .ok path ↔
      path = candidate ∧
        ∃ real file, fs.realpath candidate = .found real ∧ fs.regularFile real = some file := by
  unfold requireRegular
  cases hopened : fs.realpath candidate with
  | notFound => simp
  | tooManyLinks => simp
  | found real =>
      cases hregular : fs.regularFile real with
      | none => simp [hregular]
      | some file =>
          simp only [hregular, Except.ok.injEq]
          constructor
          · rintro rfl
            exact ⟨rfl, real, file, rfl, hregular⟩
          · rintro ⟨rfl, _⟩
            rfl

theorem locate_eq_ok_iff
    (target : Bytes)
    (candidate : List PathElement) :
    handler.locate target = .ok candidate ↔
      handler.candidateFor target = .ok candidate ∧
        ∃ real file, fs.realpath candidate = .found real ∧ fs.regularFile real = some file := by
  unfold locate
  cases handler.candidateFor target with
  | error response => simp [bind, Except.bind]
  | ok path =>
      simp only [bind, Except.bind, Except.ok.injEq, requireRegular_eq_ok_iff]
      constructor
      · rintro ⟨rfl, h⟩
        exact ⟨rfl, h⟩
      · rintro ⟨rfl, h⟩
        exact ⟨rfl, h⟩

theorem requireRegular_error_mem
    {candidate : List PathElement}
    {response : HttpResponse}
    (h : requireRegular fs candidate = .error response) :
    response ∈ [forbidden, notFound] := by
  unfold requireRegular at h
  split at h
  · cases h
    simp
  · cases h
    simp
  · split at h
    · cases h
      simp
    · cases h

/-- A refusal of the target itself, or of the path that it decodes to. -/
theorem candidateFor_error_cases
    {target : Bytes}
    {response : HttpResponse}
    (h : handler.candidateFor target = .error response) :
    (response = badRequest ∧ ∀ decoded, percentDecode (targetPath target) = some decoded →
      decoded.head? ≠ some 47) ∨ response = forbidden := by
  unfold candidateFor candidateAt at h
  cases hdecoded : percentDecode (targetPath target) with
  | none =>
      rw [hdecoded] at h
      cases h
      exact Or.inl ⟨rfl, by simp⟩
  | some decoded =>
      simp only [hdecoded] at h
      by_cases hslash : decoded.head? = some 47
      · rw [if_neg (by simpa using hslash)] at h
        refine Or.inr ?_
        split at h
        · cases h
          rfl
        · split_ifs at h
          cases h
          rfl
      · rw [if_pos hslash] at h
        cases h
        refine Or.inl ⟨rfl, ?_⟩
        rintro _ ⟨rfl⟩
        exact hslash

theorem locate_error_cases
    {target : Bytes}
    {response : HttpResponse}
    (h : handler.locate target = .error response) :
    (response = badRequest ∧ ∀ decoded, percentDecode (targetPath target) = some decoded →
      decoded.head? ≠ some 47) ∨ response ∈ [forbidden, notFound] := by
  unfold locate at h
  cases hcandidate : handler.candidateFor target with
  | error refused =>
      rw [hcandidate] at h
      cases h
      rcases handler.candidateFor_error_cases hcandidate with hbad | rfl
      · exact Or.inl hbad
      · exact Or.inr (by simp)
  | ok candidate =>
      rw [hcandidate] at h
      exact Or.inr (requireRegular_error_mem h)

/-- The refusals. -/
theorem locate_error_mem
    {target : Bytes}
    {response : HttpResponse}
    (h : handler.locate target = .error response) :
    response ∈ [badRequest, forbidden, notFound] := by
  rcases handler.locate_error_cases h with ⟨rfl, _⟩ | hmem
  · exact List.mem_cons_self
  · exact List.mem_cons_of_mem _ hmem

theorem handle_statusCode_mem
    (request : HttpRequest) :
    (handler.handle request).statusCode ∈ [200, 400, 403, 404] := by
  rw [handle_eq_locate]
  cases hlocate : handler.locate request.target with
  | error response =>
      have hmem := handler.locate_error_mem hlocate
      simp only [List.mem_cons, List.not_mem_nil, or_false] at hmem
      rcases hmem with rfl | rfl | rfl <;> simp [badRequest, forbidden, notFound, textResponse]
  | ok candidate =>
      have hmem := serveFile_statusCode_mem fs candidate (request.method == ascii "HEAD")
        handler.maxFileBytes
      simp only [List.mem_cons, List.not_mem_nil, or_false] at hmem ⊢
      rcases hmem with h | h
      · exact Or.inl h
      · exact Or.inr (Or.inr (Or.inl h))

/-- What a request answered with 200 was answered from. -/
theorem handle_ok_iff
    (request : HttpRequest) :
    (handler.handle request).statusCode = 200 ↔
      ∃ candidate real file, handler.candidateFor request.target = .ok candidate ∧
        Servable fs candidate (request.method == ascii "HEAD") handler.maxFileBytes real file := by
  rw [handle_eq_locate]
  cases hlocate : handler.locate request.target with
  | error response =>
      have hstatus : response.statusCode ≠ 200 := by
        have hmem := handler.locate_error_mem hlocate
        simp only [List.mem_cons, List.not_mem_nil, or_false] at hmem
        rcases hmem with rfl | rfl | rfl <;> decide
      simp only [hstatus, false_iff]
      rintro ⟨candidate, real, file, hcandidate, hserve⟩
      have hok := (handler.locate_eq_ok_iff request.target candidate).2
        ⟨hcandidate, real, file, hserve.opened, hserve.regular⟩
      simp [hok] at hlocate
  | ok candidate =>
      have hcandidate := ((handler.locate_eq_ok_iff request.target candidate).1 hlocate).1
      constructor
      · intro h
        obtain ⟨real, file, hserve⟩ := servable_of_serveFile handler.bounded h
        exact ⟨candidate, real, file, hcandidate, hserve⟩
      · rintro ⟨candidate', real, file, hcandidate', hserve⟩
        rw [hcandidate] at hcandidate'
        cases hcandidate'
        exact (serveFile_of_servable handler.bounded hserve).1

end Served

end StaticFileHandler

end HttpServer
