import HttpServer.ParserStream
import HttpServer.PercentEncoding
import HttpServer.Router

/-!
# From the request target to the file

Between the bytes of a request line and the file system stand the parser, which
cuts the target out of the line, and the handler, which cuts off the query and
decodes the escapes.

* `percentDecode_of_spells`: every spelling of a path, with any bytes escaped,
  decodes to the path;
* `percentDecode_targetPath`: the index page may be resolved in front of the decoder
  or behind it, and so the answer depends on what the target decodes to;
* `nul_mem_iff_of_percentDecode`: decoding neither makes nor removes a NUL byte,
  so that only the parser could keep one out, and it does not;
* `makeRelativePath_names`: the elements of the joined names are the names, so that the
  handler looks where the file is.
-/

namespace HttpServer

open Occurrence

namespace StaticFileHandler

section Decoding

/--
The spellings of a string in a target: each byte stands for itself, unless it has a
meaning there or ends a line, or is escaped, with digits of either case.
-/
inductive Spells : Bytes → Bytes → Prop
  | nil : Spells [] []
  | literal {byte : UInt8} {name spelled : Bytes}
      (hplain : byte ∉ ([37, 63, 32, 13, 10] : Bytes))
      (h : Spells name spelled) :
      Spells (byte :: name) (byte :: spelled)
  | escaped {byte : UInt8} {name spelled : Bytes} (upper upper' : Bool)
      (h : Spells name spelled) :
      Spells (byte :: name)
        (37 :: hexDigit upper (byte.toNat / 16) :: hexDigit upper' (byte.toNat % 16) :: spelled)

theorem hexDigit_not_mem
    (upper : Bool)
    {n : Nat}
    (h : n < 16) :
    hexDigit upper n ∉ ([37, 63, 32, 13, 10] : Bytes) := by
  interval_cases n <;> cases upper <;> decide

/-- Every spelling decodes to what it spells. -/
theorem percentDecode_spells_append
    {name spelled : Bytes}
    (h : Spells name spelled)
    (hnul : 0 ∉ name)
    (rest : Bytes) :
    percentDecode (spelled ++ rest) = (percentDecode rest).map (name ++ ·) := by
  induction h with
  | nil => simp
  | literal hplain _ ih =>
      rw [List.cons_append, percentDecode_cons_of_ne (by rintro rfl; exact hplain (by simp)),
        ih (fun hmem => hnul (List.mem_cons_of_mem _ hmem)), Option.map_map]
      rfl
  | escaped upper upper' _ ih =>
      rw [List.cons_append, List.cons_append, List.cons_append,
        percentDecode_escape (by rintro rfl; exact hnul List.mem_cons_self),
        ih (fun hmem => hnul (List.mem_cons_of_mem _ hmem)), Option.map_map]
      rfl

theorem percentDecode_of_spells
    {name spelled : Bytes}
    (h : Spells name spelled)
    (hnul : 0 ∉ name) :
    percentDecode spelled = some name := by
  have hdecode := percentDecode_spells_append h hnul []
  rw [List.append_nil] at hdecode
  rw [hdecode]
  simp [percentDecode]

/-- A spelling holds no byte that would end the target or its path. -/
theorem Spells.not_mem
    {name spelled : Bytes}
    (h : Spells name spelled)
    {byte : UInt8}
    (hbyte : byte ∈ ([63, 32, 13, 10] : Bytes)) :
    byte ∉ spelled := by
  have hspecial : byte ∈ ([37, 63, 32, 13, 10] : Bytes) := List.mem_cons_of_mem _ hbyte
  induction h with
  | nil => simp
  | literal hplain _ ih =>
      rw [List.mem_cons, not_or]
      exact ⟨by rintro rfl; exact hplain hspecial, ih⟩
  | @escaped byte' name spelled upper upper' _ ih =>
      have hlt : byte'.toNat < 256 := byte'.toNat_lt
      simp only [List.mem_cons, not_or]
      refine ⟨by rintro rfl; revert hbyte; decide, ?_, ?_, ih⟩
      · rintro rfl
        exact hexDigit_not_mem upper (by omega) hspecial
      · rintro rfl
        exact hexDigit_not_mem upper' (by omega) hspecial

theorem hexValue_ne_zero
    {digit : UInt8}
    {n : Nat}
    (h : hexValue digit = some n) :
    digit ≠ 0 := by
  rintro rfl
  have hnone : hexValue 0 = none := rfl
  simp [hnone] at h

/-- Decoding neither makes nor removes a NUL byte. -/
theorem nul_mem_iff_of_percentDecode
    {input decoded : Bytes}
    (h : percentDecode input = some decoded) :
    0 ∈ decoded ↔ 0 ∈ input := by
  fun_induction percentDecode input generalizing decoded with
  | case1 =>
      cases h
      rfl
  | case2 ch rest hch ih =>
      obtain ⟨output, houtput, rfl⟩ := Option.map_eq_some_iff.1 h
      rw [List.mem_cons, List.mem_cons, ih houtput]
  | case4 ch hch first second rest high low hlow hhigh byte hbyte =>
      rename_i ih
      obtain ⟨output, houtput, rfl⟩ := Option.map_eq_some_iff.1 h
      have hpercent : ch = 37 := not_not.1 hch
      simp [ih houtput, hpercent, Ne.symm hbyte, Ne.symm (hexValue_ne_zero hlow),
        Ne.symm (hexValue_ne_zero hhigh)]
  | case3 => cases h
  | case5 => cases h
  | case6 => cases h

end Decoding

section Nul

variable {fs : FileSystem} (handler : StaticFileHandler fs)

/-- The answer is 400, or the decoded path that is joined to the root holds no NUL byte. -/
def NulSafe (request : HttpRequest) : Prop :=
  (handler.handle request).statusCode = 400 ∨
    ∀ decoded, percentDecode (targetPath request.target) = some decoded → 0 ∉ decoded

/-- A target that decodes to an absolute path is not refused as a bad request. -/
theorem handle_ne_badRequest
    {request : HttpRequest}
    {decoded : Bytes}
    (hdecoded : percentDecode (targetPath request.target) = some decoded)
    (hslash : decoded.head? = some 47) :
    (handler.handle request).statusCode ≠ 400 := by
  rw [handle_eq_locate]
  cases hlocate : handler.locate request.target with
  | ok candidate =>
      have hmem := serveFile_statusCode_mem fs candidate (request.method == ascii "HEAD")
        handler.maxFileBytes
      intro hbad
      simp [hbad] at hmem
  | error response =>
      rcases handler.locate_error_cases hlocate with ⟨_, hrefused⟩ | hmem
      · exact absurd hslash (hrefused decoded hdecoded)
      · simp only [List.mem_cons, List.not_mem_nil, or_false] at hmem
        rcases hmem with rfl | rfl
        · exact show forbidden.statusCode ≠ 400 by decide
        · exact show notFound.statusCode ≠ 400 by decide

/-- The path part of a target that begins with a slash. -/
theorem extractPath_head
    {target : Bytes}
    (h : target.head? = some 47) :
    (extractPath target).head? = some 47 := by
  unfold extractPath
  cases hquery : find [63] target with
  | none => exact h
  | some query =>
      obtain ⟨front, back, rfl, _, rfl⟩ := (find_singleton_eq_some_iff 63 target query).1 hquery
      cases front with
      | nil => simp at h
      | cons ch front => simpa using h

/-- The rewriting of `/` changes nothing that matters to decoding. -/
theorem targetPath_cases
    (target : Bytes) :
    targetPath target = extractPath target ∨
      extractPath target = ascii "/" ∧ targetPath target = ascii "/index.html" := by
  unfold targetPath
  by_cases hindex : extractPath target = ascii "/"
  · exact Or.inr ⟨hindex, by simp [hindex]⟩
  · exact Or.inl (by simp [hindex])

theorem percentDecode_head
    {input decoded : Bytes}
    (h : percentDecode input = some decoded)
    (hslash : input.head? = some 47) :
    decoded.head? = some 47 := by
  cases input with
  | nil => cases hslash
  | cons ch rest =>
      cases hslash
      rw [percentDecode_cons_of_ne (by decide)] at h
      obtain ⟨output, _, rfl⟩ := Option.map_eq_some_iff.1 h
      rfl

/-- The targets that the parser lets through begin with a slash. -/
theorem target_of_emitted
    {parser : HttpParser}
    {request : HttpRequest}
    (h : parser.next.1.request = some request) :
    request.target.head? = some 47 := by
  obtain ⟨line, fields, body, rest, hcomplete, rfl, _⟩ := complete_of_next_some h
  obtain ⟨_, _, _, _, hhead⟩ := hcomplete.cut
  have htarget := (addFields_requestLine line.start fields).2.1
  rw [show ({ line.start.addFields fields with body := body } : HttpRequest).target =
    line.target from htarget]
  exact hhead.requestLine.target

/--
A request that the parser emits is answered with 400 or decoded to a path without
NUL bytes, if and only if the path part of its target holds no literal NUL byte or
does not decode.
-/
theorem nulSafe_iff
    {parser : HttpParser}
    {request : HttpRequest}
    (h : parser.next.1.request = some request) :
    handler.NulSafe request ↔
      0 ∉ extractPath request.target ∨ percentDecode (extractPath request.target) = none := by
  have hslash := extractPath_head (target_of_emitted h)
  rcases targetPath_cases request.target with hpath | ⟨hroot, hindex⟩
  · unfold NulSafe
    rw [hpath]
    cases hdecoded : percentDecode (extractPath request.target) with
    | none => simp
    | some decoded =>
        have hanswer := handler.handle_ne_badRequest (hpath ▸ hdecoded)
          (percentDecode_head hdecoded hslash)
        simp [hanswer, nul_mem_iff_of_percentDecode hdecoded]
  · refine iff_of_true (Or.inr ?_) (Or.inl ?_)
    · intro decoded hdecoded
      rw [hindex] at hdecoded
      rw [nul_mem_iff_of_percentDecode hdecoded]
      decide
    · rw [hroot]
      decide

/-- A request whose target is escaped as it should be. -/
theorem nulSafe_iff_escaped :
    ∃ request, (parserAt 100 0 (ascii "GET /a%20b?c HTTP/1.0\r\n\r\n")).next.1.request =
        some request ∧
      ∀ (fs : FileSystem) (handler : StaticFileHandler fs), handler.NulSafe request := by
  have hemitted : (parserAt 100 0 (ascii "GET /a%20b?c HTTP/1.0\r\n\r\n")).next.1.request =
      some _ := rfl
  refine ⟨_, hemitted, fun fs handler => (handler.nulSafe_iff hemitted).2 (Or.inl ?_)⟩
  decide +kernel

/-- A literal NUL byte passes the parser and the decoder. -/
theorem nul_target_not_nulSafe :
    ∃ request, (parserAt 100 0
        (ascii "GET /a" ++ [0] ++ ascii "b HTTP/1.0\r\n\r\n")).next.1.request = some request ∧
      ∀ (fs : FileSystem) (handler : StaticFileHandler fs), ¬ handler.NulSafe request := by
  refine ⟨_, rfl, fun fs handler => ?_⟩
  have hdecoded : percentDecode (targetPath (ascii "/a" ++ [0] ++ ascii "b")) =
      some (ascii "/a" ++ [0] ++ ascii "b") := by
    decide +kernel
  rintro (hbad | hnone)
  · exact handler.handle_ne_badRequest hdecoded rfl hbad
  · exact hnone _ hdecoded (by decide)

end Nul

section Escaping

variable {fs : FileSystem} (handler : StaticFileHandler fs)

/-- The root of the site stands for its index page. -/
def resolveIndex (path : Bytes) : Bytes :=
  if path = ascii "/" then ascii "/index.html" else path

/-- The validation sequence as it is listed: the index page is resolved behind the decoder. -/
def handleAsListed (request : HttpRequest) : HttpResponse :=
  handler.respondTo request.method
    ((percentDecode (extractPath request.target)).map resolveIndex)

/-- The handler reads the method, and of the target what it decodes to. -/
theorem handle_eq_respondTo
    (request : HttpRequest) :
    handler.handle request =
      handler.respondTo request.method (percentDecode (targetPath request.target)) :=
  rfl

/-- Each unit stands for a byte, so that only the empty input decodes to nothing. -/
theorem eq_nil_of_percentDecode
    {input : Bytes}
    (h : percentDecode input = some []) :
    input = [] := by
  obtain ⟨units, rfl, hmeant⟩ := (percentDecode_eq_some_iff _ _).1 h
  rw [List.map_eq_nil_iff.1 hmeant]
  rfl

/-- A slash that is not escaped, and then anything, decodes to `/` only if it is `/`. -/
theorem eq_root_of_percentDecode
    {path : Bytes}
    (hslash : path.head? = some 47)
    (h : percentDecode path = some (ascii "/")) :
    path = ascii "/" := by
  obtain ⟨rest, rfl⟩ := List.head?_eq_some_iff.1 hslash
  rw [percentDecode_cons_of_ne (by decide)] at h
  obtain ⟨output, houtput, hroot⟩ := Option.map_eq_some_iff.1 h
  obtain rfl : output = [] := (List.cons.inj hroot).2
  rw [eq_nil_of_percentDecode houtput]
  rfl

/-- Resolving the index page in front of the decoder or behind it is the same. -/
theorem percentDecode_targetPath
    {target : Bytes}
    (hslash : target.head? = some 47) :
    percentDecode (targetPath target) = (percentDecode (extractPath target)).map resolveIndex := by
  rcases targetPath_cases target with hpath | ⟨hroot, hindex⟩
  · rw [hpath]
    cases hdecoded : percentDecode (extractPath target) with
    | none => rfl
    | some decoded =>
        rw [Option.map_some, resolveIndex]
        split
        next hdecodedRoot =>
          -- the escapes hide no slash in front, and what is `/` has been rewritten already
          have hroot := eq_root_of_percentDecode (extractPath_head hslash)
            (hdecodedRoot ▸ hdecoded)
          rw [targetPath, hroot] at hpath
          exact absurd hpath (by decide)
        next => rfl
  · rw [hindex, hroot]
    decide +kernel

theorem handle_eq_handleAsListed
    {parser : HttpParser}
    {request : HttpRequest}
    (h : parser.next.1.request = some request) :
    handler.handle request = handler.handleAsListed request := by
  rw [handle_eq_respondTo, percentDecode_targetPath (target_of_emitted h)]
  rfl

/--
Two requests of one method that the parser emits get the same answer if the path parts
of their targets decode to the same bytes, or both do not decode; and the answer is that
of the sequence in which the index page is resolved behind the decoder.
-/
theorem handle_of_same_decoding
    {parser parser' : HttpParser}
    {request request' : HttpRequest}
    (h : parser.next.1.request = some request)
    (h' : parser'.next.1.request = some request')
    (hmethod : request.method = request'.method)
    (hdecoded : percentDecode (extractPath request.target) =
      percentDecode (extractPath request'.target)) :
    handler.handle request = handler.handle request' ∧
      handler.handle request = handler.handleAsListed request ∧
      handler.handle request' = handler.handleAsListed request' := by
  have hlisted := handler.handle_eq_handleAsListed h
  have hlisted' := handler.handle_eq_handleAsListed h'
  refine ⟨?_, hlisted, hlisted'⟩
  rw [hlisted, hlisted', handleAsListed, handleAsListed, hmethod, hdecoded]

/-- Two spellings of one path, one of them with a query. -/
theorem handle_of_same_decoding_spelled :
    ∃ request request',
      (parserAt 100 0 (ascii "GET /a%2Eb HTTP/1.0\r\n\r\n")).next.1.request = some request ∧
      (parserAt 100 0 (ascii "GET /%61.b?c HTTP/1.0\r\n\r\n")).next.1.request = some request' ∧
      ∀ (fs : FileSystem) (handler : StaticFileHandler fs),
        handler.handle request = handler.handle request' := by
  have hfirst : (parserAt 100 0 (ascii "GET /a%2Eb HTTP/1.0\r\n\r\n")).next.1.request =
      some _ := rfl
  have hsecond : (parserAt 100 0 (ascii "GET /%61.b?c HTTP/1.0\r\n\r\n")).next.1.request =
      some _ := rfl
  refine ⟨_, _, hfirst, hsecond, fun fs handler => ?_⟩
  exact (handler.handle_of_same_decoding hfirst hsecond rfl (by decide +kernel)).1

end Escaping

section PublicFiles

variable {fs : FileSystem}

/-- What the names of a directory hold. -/
theorem validName_iff
    (name : Bytes) :
    validName name = true ↔
      name ≠ [] ∧ name ≠ [46] ∧ name ≠ [46, 46] ∧ 47 ∉ name ∧ 0 ∉ name := by
  simp [validName, and_assoc]

theorem elementOf_of_validName
    {name : Bytes}
    (h : validName name = true) :
    elementOf name = .entry name := by
  obtain ⟨hnil, hdot, hdots, _⟩ := (validName_iff name).1 h
  simp [elementOf, hnil, hdot, hdots]

/-- The elements of pieces that are joined by slashes. -/
theorem pathElements_pieces
    {pieces : List Bytes}
    (hne : pieces ≠ [])
    (hpieces : ∀ piece ∈ pieces, piece ≠ [] ∧ 47 ∉ piece) :
    pathElements (List.intercalate [47] pieces) = pieces.map elementOf := by
  have hfilter : pieces.dropLast.filter (· ≠ []) = pieces.dropLast := by
    rw [List.filter_eq_self]
    intro piece hpiece
    simpa using (hpieces piece (List.dropLast_subset pieces hpiece)).1
  unfold pathElements
  rw [List.splitOn_intercalate 47 (fun piece hpiece => (hpieces piece hpiece).2) hne]
  dsimp only
  rw [hfilter, List.getLastD_eq_getLast?, List.getLast?_eq_some_getLast hne, Option.getD_some,
    ← List.map_singleton, ← List.map_append, List.dropLast_append_getLast]

theorem head_intercalate
    {pieces : List Bytes}
    (hne : pieces ≠ [])
    (hpieces : ∀ piece ∈ pieces, piece ≠ [] ∧ 47 ∉ piece) :
    ∃ ch rest, List.intercalate [47] pieces = ch :: rest ∧ ch ≠ 47 := by
  obtain ⟨first, pieces, rfl⟩ := List.exists_cons_of_ne_nil hne
  obtain ⟨hnil, hslash⟩ := hpieces first List.mem_cons_self
  obtain ⟨ch, piece, rfl⟩ := List.exists_cons_of_ne_nil hnil
  have hch : ch ≠ 47 := by
    rintro rfl
    exact hslash List.mem_cons_self
  cases pieces with
  | nil => exact ⟨ch, piece, by simp, hch⟩
  | cons next pieces => exact ⟨ch, _, by rw [List.intercalate_cons_cons]; rfl, hch⟩

theorem makeRelativePath_pieces
    {pieces : List Bytes}
    (hne : pieces ≠ [])
    (hpieces : ∀ piece ∈ pieces, piece ≠ [] ∧ 47 ∉ piece) :
    makeRelativePath (47 :: List.intercalate [47] pieces) = pieces.map elementOf := by
  rw [← pathElements_pieces hne hpieces]
  obtain ⟨ch, rest, hjoined, hch⟩ := head_intercalate hne hpieces
  simp [makeRelativePath, hjoined, hch]

theorem piece_of_validName
    {name : Bytes}
    (h : validName name = true) :
    name ≠ [] ∧ 47 ∉ name :=
  ⟨((validName_iff name).1 h).1, ((validName_iff name).1 h).2.2.2.1⟩

/-- The elements of names that are joined by slashes are the names. -/
theorem makeRelativePath_names
    {names : List Bytes}
    (hne : names ≠ [])
    (hvalid : ∀ name ∈ names, validName name = true) :
    makeRelativePath (47 :: List.intercalate [47] names) = names.map .entry := by
  rw [makeRelativePath_pieces hne (fun name hname => piece_of_validName (hvalid name hname))]
  exact List.map_congr_left (fun name hname => elementOf_of_validName (hvalid name hname))

theorem not_mem_intercalate
    {byte : UInt8}
    {names : List Bytes}
    (hslash : byte ≠ 47)
    (h : ∀ name ∈ names, byte ∉ name) :
    byte ∉ List.intercalate [47] names := by
  induction names with
  | nil => simp
  | cons first names ih =>
      have hfirst := h first List.mem_cons_self
      cases names with
      | nil => simpa using hfirst
      | cons next names =>
          rw [List.intercalate_cons_cons]
          simp only [List.mem_append, List.mem_singleton, not_or]
          exact ⟨⟨hfirst, hslash⟩, ih (fun name hname => h name (List.mem_cons_of_mem _ hname))⟩

/-- The path part of a target is what stands in front of its query. -/
theorem targetPath_of_spelled
    {spelled query : Bytes}
    (hne : spelled ≠ [])
    (hspelled : 63 ∉ spelled)
    (hquery : query = [] ∨ ∃ q, query = 63 :: q) :
    targetPath (47 :: (spelled ++ query)) = 47 :: spelled := by
  have hpath : extractPath (47 :: (spelled ++ query)) = 47 :: spelled := by
    unfold extractPath
    rcases hquery with rfl | ⟨q, rfl⟩
    · have hnone : find [63] (47 :: (spelled ++ [])) = none := by
        rw [find_singleton_eq_none_iff]
        simpa using hspelled
      rw [hnone]
      simp
    · have hsome : find [63] (47 :: (spelled ++ 63 :: q)) = some (spelled.length + 1) :=
        (find_singleton_eq_some_iff _ _ _).2 ⟨47 :: spelled, q, rfl, by simpa using hspelled, rfl⟩
      rw [hsome]
      simp
  have hindex : (47 :: spelled : Bytes) ≠ ascii "/" := by
    intro heq
    exact hne (List.cons.inj heq).2
  simp [targetPath, hpath, hindex]

/-- Every name has a spelling: all of its bytes can be escaped. -/
theorem exists_spells
    (name : Bytes) :
    ∃ spelled, Spells name spelled := by
  induction name with
  | nil => exact ⟨[], .nil⟩
  | cons byte name ih =>
      obtain ⟨spelled, h⟩ := ih
      exact ⟨_, .escaped true true h⟩

theorem Spells.ne_nil
    {name spelled : Bytes}
    (h : Spells name spelled)
    (hne : name ≠ []) :
    spelled ≠ [] := by
  cases h with
  | nil => exact absurd rfl hne
  | literal => simp
  | escaped => simp

variable (handler : StaticFileHandler fs)

/-- A spelling of the path of a real file below the root leads to it. -/
theorem candidateFor_of_spells
    {names : List Bytes}
    (hne : names ≠ [])
    (hreal : fs.tree.IsReal (handler.root ++ names))
    {spelled query : Bytes}
    (hspelled : Spells (List.intercalate [47] names) spelled)
    (hquery : query = [] ∨ ∃ q, query = 63 :: q) :
    handler.candidateFor (47 :: (spelled ++ query)) = .ok ((handler.root ++ names).map .entry) := by
  have hvalid : ∀ name ∈ names, validName name = true :=
    fun name hname => FileSystem.validName_of_isReal hreal (List.mem_append_right _ hname)
  have hnul : 0 ∉ List.intercalate [47] names := not_mem_intercalate (by decide)
    (fun name hname => ((validName_iff name).1 (hvalid name hname)).2.2.2.2)
  have hjoined : List.intercalate [47] names ≠ [] := by
    obtain ⟨ch, rest, hcons, _⟩ :=
      head_intercalate hne (fun name hname => piece_of_validName (hvalid name hname))
    simp [hcons]
  rw [candidateFor_eq_ok_iff]
  refine ⟨47 :: List.intercalate [47] names, ?_, rfl, ?_, ?_⟩
  · rw [targetPath_of_spelled (hspelled.ne_nil hjoined) (hspelled.not_mem (by simp)) hquery,
      percentDecode_cons_of_ne (by decide), percentDecode_of_spells hspelled hnul]
    rfl
  · rw [makeRelativePath_names hne hvalid, ← List.map_append]
    exact .existing (FileSystem.realpath_names hreal)
  · rw [List.map_append]
    exact List.prefix_append _ _

/-- A file below the root that can be read is served to its last byte. -/
theorem routeRequest_of_spells
    {names : List Bytes}
    (hne : names ≠ [])
    {file : RegularFile}
    (hfile : fs.regularFile (handler.root ++ names) = some file)
    (hreadable : readable file = true)
    (hfits : file.content.length ≤ handler.maxFileBytes)
    {spelled query : Bytes}
    (hspelled : Spells (List.intercalate [47] names) spelled)
    (hquery : query = [] ∨ ∃ q, query = 63 :: q)
    {request : HttpRequest}
    (hmethod : request.method = ascii "GET")
    (htarget : request.target = 47 :: (spelled ++ query)) :
    (routeRequest request handler).statusCode = 200 ∧
    (routeRequest request handler).sentBody = file.content ∧
    (routeRequest request handler).declaredLength = file.content.length := by
  have hreal : fs.tree.IsReal (handler.root ++ names) := by
    unfold FileSystem.regularFile at hfile
    cases hnode : fs.tree.node (handler.root ++ names) with
    | none => simp [hnode] at hfile
    | some node =>
        cases node with
        | regular found => exact Or.inr ⟨found, hnode⟩
        | directory => simp [hnode] at hfile
        | symlink => simp [hnode] at hfile
  have hopened := FileSystem.realpath_names hreal
  have hcandidate := handler.candidateFor_of_spells hne hreal hspelled hquery
  have hlocate := (handler.locate_eq_ok_iff _ _).2 ⟨hcandidate, _, file, hopened, hfile⟩
  have hservable : Servable fs ((handler.root ++ names).map .entry) false handler.maxFileBytes
      (handler.root ++ names) file := ⟨hopened, hfile, hfits, Or.inr hreadable⟩
  obtain ⟨hstatus, hbody, hlength, hsuppress⟩ := serveFile_of_servable handler.bounded hservable
  have hroute : routeRequest request handler =
      serveFile fs ((handler.root ++ names).map .entry) false handler.maxFileBytes := by
    simp only [routeRequest, handle_eq_locate, hmethod, htarget, hlocate]
    rfl
  rw [hroute]
  refine ⟨hstatus, ?_, ?_⟩
  · rw [HttpResponse.sentBody, hsuppress, hbody]
    rfl
  · rw [HttpResponse.declaredLength, hlength, hbody]
    rfl

end PublicFiles

end StaticFileHandler

section Requests

/-- Header lines that make a request together with a request line. -/
structure HeaderSection (maxBodyBytes : Nat) (version : Bytes) (fields : List (Bytes × Bytes))
    (length : Nat) : Prop where
  unbroken : ∀ f ∈ fields, ¬ crlf <:+: fieldLine f
  names : ∀ f ∈ fields, Token f.1
  distinct : fields.Pairwise (fun f g =>
    toLowerAscii f.1 = toLowerAscii g.1 → toLowerAscii f.1 = ascii "connection")
  host : HostLine version fields
  noTransferEncoding : ∀ f ∈ fields, toLowerAscii f.1 ≠ ascii "transfer-encoding"
  bodyLength : BodyLength maxBodyBytes fields length

/-- The header block of a request as it is written. -/
def headerBlock (line : RequestLine) (fields : List (Bytes × Bytes)) : Bytes :=
  List.intercalate crlf (line.bytes :: fields.map fieldLine)

/-- A request line and header lines within the limits make a complete request. -/
theorem HeaderSection.complete
    {maxHeaderBytes maxBodyBytes : Nat}
    {line : RequestLine}
    {fields : List (Bytes × Bytes)}
    {body : Bytes}
    (h : HeaderSection maxBodyBytes line.version fields body.length)
    (hline : line.WellFormed)
    (hbroken : ¬ crlf <:+: line.bytes)
    (hshort : (headerBlock line fields).length ≤ maxHeaderBytes)
    (rest : Bytes) :
    CompleteRequest maxHeaderBytes maxBodyBytes
      (headerBlock line fields ++ crlfcrlf ++ body ++ rest) line fields body rest := by
  have hunbroken : ∀ l ∈ line.bytes :: fields.map fieldLine, ¬ crlf <:+: l := by
    intro l hl
    rcases List.mem_cons.1 hl with rfl | hl
    · exact hbroken
    · obtain ⟨f, hf, rfl⟩ := List.mem_map.1 hl
      exact h.unbroken f hf
  refine ⟨headerBlock line fields, rfl, ?_, hshort, ⟨rfl, hunbroken, hline, h.names, h.distinct,
    h.host⟩, h.noTransferEncoding, h.bodyLength⟩
  rw [List.append_assoc]
  refine firstAt_double_of_pieces unbordered_crlf _ _ hunbroken ?_ _
  intro l hl
  obtain ⟨f, _, rfl⟩ := List.mem_map.1 hl
  simp [fieldLine]

namespace StaticFileHandler

/-- The request line for a spelling of a path, with or without a query. -/
def getLine (spelled query version : Bytes) : RequestLine where
  method := ascii "GET"
  target := 47 :: (spelled ++ query)
  version := version

/-- A query: nothing, or a question mark and bytes that end neither target nor line. -/
def IsQuery (query : Bytes) : Prop :=
  query = [] ∨ ∃ q, query = 63 :: q ∧ ∀ byte ∈ ([32, 13, 10] : Bytes), byte ∉ q

/-- No byte of the target would end it or its line. -/
theorem not_mem_target
    {name spelled query : Bytes}
    (hspelled : Spells name spelled)
    (hquery : IsQuery query)
    {byte : UInt8}
    (hbyte : byte ∈ ([32, 13, 10] : Bytes)) :
    byte ∉ 47 :: (spelled ++ query) := by
  have hslash : byte ≠ 47 ∧ byte ≠ 63 := by
    constructor <;> rintro rfl <;> revert hbyte <;> decide
  have hplain : byte ∉ spelled := hspelled.not_mem (List.mem_cons_of_mem _ hbyte)
  simp only [List.mem_cons, List.mem_append, not_or]
  refine ⟨hslash.1, hplain, ?_⟩
  rcases hquery with rfl | ⟨q, rfl, hq⟩
  · simp
  · rw [List.mem_cons, not_or]
    exact ⟨hslash.2, hq byte hbyte⟩

/-- A target that ends neither itself nor its line makes a request line. -/
theorem wellFormed_of_target
    {target version : Bytes}
    (hhead : target.head? = some 47)
    (hspace : 32 ∉ target)
    (hreturn : 13 ∉ target)
    (hversion : version = ascii "HTTP/1.1" ∨ version = ascii "HTTP/1.0") :
    (RequestLine.mk (ascii "GET") target version).WellFormed ∧
      ¬ crlf <:+: (RequestLine.mk (ascii "GET") target version).bytes := by
  have hmethod : Token (ascii "GET") := (isToken_eq_true_iff _).1 (by decide)
  refine ⟨⟨hmethod, hhead, hspace, hversion⟩, ?_⟩
  intro hinfix
  have hmem : 13 ∈ (RequestLine.mk (ascii "GET") target version).bytes :=
    hinfix.subset (by simp [crlf])
  simp only [RequestLine.bytes, List.mem_append] at hmem
  rcases hmem with (hmethod | hspace) | (hmem | hspace) | hmem
  · revert hmethod
    decide
  · simp at hspace
  · exact hreturn hmem
  · simp at hspace
  · rcases hversion with rfl | rfl <;> revert hmem <;> decide

theorem getLine_wellFormed
    {name spelled query version : Bytes}
    (hspelled : Spells name spelled)
    (hquery : IsQuery query)
    (hversion : version = ascii "HTTP/1.1" ∨ version = ascii "HTTP/1.0") :
    (getLine spelled query version).WellFormed ∧
      ¬ crlf <:+: (getLine spelled query version).bytes :=
  wellFormed_of_target rfl (not_mem_target hspelled hquery (by simp))
    (not_mem_target hspelled hquery (by simp)) hversion

variable {fs : FileSystem} (handler : StaticFileHandler fs)

/--
Every readable file below the root, of a size within the bound, is served to its
last byte under every spelling of its path, with or without a query: the parser
accepts the request line with any header section within the limits, and the request
that it emits is answered with 200 and the bytes of the file.
-/
theorem public_file_served
    {names : List Bytes}
    (hne : names ≠ [])
    {file : RegularFile}
    (hfile : fs.regularFile (handler.root ++ names) = some file)
    (hreadable : readable file = true)
    (hfits : file.content.length ≤ handler.maxFileBytes)
    {spelled query version : Bytes}
    (hspelled : Spells (List.intercalate [47] names) spelled)
    (hquery : IsQuery query)
    (hversion : version = ascii "HTTP/1.1" ∨ version = ascii "HTTP/1.0")
    {maxHeaderBytes maxBodyBytes : Nat}
    {fields : List (Bytes × Bytes)}
    {body : Bytes}
    (hsection : HeaderSection maxBodyBytes version fields body.length)
    (hshort : (headerBlock (getLine spelled query version) fields).length ≤ maxHeaderBytes)
    (rest : Bytes) :
    ∃ request,
      (parserAt maxHeaderBytes maxBodyBytes
        (headerBlock (getLine spelled query version) fields ++ crlfcrlf ++ body ++ rest)).next =
          (requestReady request, parserAt maxHeaderBytes maxBodyBytes rest) ∧
      (routeRequest request handler).statusCode = 200 ∧
      (routeRequest request handler).sentBody = file.content ∧
      (routeRequest request handler).declaredLength = file.content.length := by
  obtain ⟨hline, hbroken⟩ := getLine_wellFormed hspelled hquery hversion
  have hlines : HeaderSection maxBodyBytes (getLine spelled query version).version fields
      body.length := hsection
  have hcomplete := hlines.complete hline hbroken hshort rest
  obtain ⟨hmethod, htarget, _⟩ :=
    addFields_requestLine (getLine spelled query version).start fields
  refine ⟨_, HttpParser.next_of_complete _ hcomplete, ?_⟩
  exact handler.routeRequest_of_spells hne hfile hreadable hfits hspelled
    (hquery.imp_right (fun ⟨q, hq, _⟩ => ⟨q, hq⟩)) hmethod htarget

section Sample

/-- A document root with one file, whose name has a space. -/
def spacedSite : FileSystem :=
  FileSystem.ofTable 40
    [([ascii "www"], .directory),
      ([ascii "www", ascii "a b"], .regular { content := ascii "spaced\n" })]
    (by decide)
    (by decide)

def spacedHandler : StaticFileHandler spacedSite where
  root := [ascii "www"]
  canonical := Or.inl rfl
  bounded := default_maxFileBytes_lt

/-- The space is escaped, and a query follows. -/
theorem public_file_served_spaced :
    ∃ request,
      (parserAt 100 0 (ascii "GET /a%20b?c HTTP/1.0\r\n\r\n")).next =
        (requestReady request, parserAt 100 0 []) ∧
      (routeRequest request spacedHandler).statusCode = 200 ∧
      (routeRequest request spacedHandler).sentBody = ascii "spaced\n" := by
  have hspelled : Spells (List.intercalate [47] [ascii "a b"]) (ascii "a%20b") :=
    .literal (by decide) (.escaped true true (.literal (by decide) .nil))
  have hsection : HeaderSection 0 (ascii "HTTP/1.0") [] ([] : Bytes).length :=
    ⟨by simp, by simp, by simp, by simp [HostLine, ascii], by simp, Or.inr ⟨by simp, rfl⟩⟩
  have hfile : spacedSite.regularFile (spacedHandler.root ++ [ascii "a b"]) =
      some { content := ascii "spaced\n" } := by
    decide +kernel
  have hshort : (headerBlock (getLine (ascii "a%20b") (ascii "?c") (ascii "HTTP/1.0")) []).length ≤
      100 := by
    decide
  obtain ⟨request, hnext, hstatus, hbody, _⟩ := spacedHandler.public_file_served (by simp) hfile
    rfl (by decide +kernel) hspelled (Or.inr ⟨ascii "c", rfl, by simp [ascii]⟩) (Or.inr rfl)
    hsection hshort []
  exact ⟨request, hnext, hstatus, hbody⟩

end Sample

end StaticFileHandler

end Requests

end HttpServer
