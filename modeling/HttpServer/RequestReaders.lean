import HttpServer.Lib.LineReader
import HttpServer.ParserGrammar

/-!
# Two readers of one request

A neighbour of the server may read the same bytes.  It is modelled as a reader
that treats the lines of a header section as the parser does and may differ in
what ends a line: the server only knows CRLF, a lenient reader also lets a bare
LF end a line.

* `readRequest`: a reader, for any way of ending lines;
* `readRequest_strict`: with CRLF alone it is the parser;
* `one_reading_iff`: the two readers agree on an accepted request if and only if
  no target and no header value contains LF.
-/

namespace HttpServer

open Occurrence LineReader

section Readers

/-- What a reader makes of its input. -/
structure Reading where
  requestLine : Bytes
  headerLines : List Bytes
  request : HttpRequest
  /-- Where the next request starts. -/
  rest : Bytes
deriving DecidableEq

/-- Only CRLF ends a line. -/
def strictCut : Cut UInt8 :=
  cutAt crlf

/-- CRLF and bare LF end a line. -/
def lenientCut : Cut UInt8 :=
  cutAtLetter 13 10

/-- The request of some lines, without its body, and the length of the body. -/
def parseLines (maxBodyBytes : Nat) (requestLine : Bytes) (headerLines : List Bytes) :
    Except ParseFailure (HttpRequest × Nat) :=
  match parseRequestLine requestLine with
  | .error error => .error (badRequest error)
  | .ok line =>
      match acceptLines headerLines line.start with
      | .error failure => .error failure
      | .ok request =>
          match checkFraming maxBodyBytes request with
          | .error failure => .error failure
          | .ok contentLength => .ok (request, contentLength)

/-- Read one request, if the input holds one. -/
def readRequest (cut : Cut UInt8) (maxBodyBytes : Nat) (input : Bytes) : Option Reading :=
  match readSection cut (input.length + 1) input with
  | some (requestLine :: headerLines, tail) =>
      match parseLines maxBodyBytes requestLine headerLines with
      | .error _ => none
      | .ok (request, contentLength) =>
          if tail.length < contentLength then
            none
          else
            some
              { requestLine := requestLine
                headerLines := headerLines
                request := { request with body := tail.take contentLength }
                rest := tail.drop contentLength }
  | _ => none

end Readers

section Agreement

variable {maxHeaderBytes maxBodyBytes : Nat} {buffer : Bytes} {line : RequestLine}
  {fields : List (Bytes × Bytes)} {body rest : Bytes}

/-- The lines of a header section. -/
abbrev sectionLines (line : RequestLine) (fields : List (Bytes × Bytes)) : List Bytes :=
  line.bytes :: fields.map fieldLine

theorem sectionLines_ne_nil :
    ∀ l ∈ sectionLines line fields, l ≠ [] := by
  intro l hl
  rcases List.mem_cons.1 hl with rfl | hl
  · simp [RequestLine.bytes]
  · obtain ⟨field, _, rfl⟩ := List.mem_map.1 hl
    simp [fieldLine]

/-- The lines of a header block of the grammar are understood. -/
theorem parseLines_of_grammar
    {block : Bytes}
    {length : Nat}
    (h : HeadGrammar maxBodyBytes block line fields length) :
    parseLines maxBodyBytes line.bytes (fields.map fieldLine) =
      .ok (line.start.addFields fields, length) := by
  have hdup := (noDuplicates_start_iff line fields).2 h.distinct
  have hlines := (acceptLines_eq_ok_iff _ _ _).2 ⟨fields, rfl, h.names, hdup, rfl⟩
  have hframing := (checkFraming_eq_ok_iff _ _ _ hdup _).2
    ⟨h.host, h.noTransferEncoding, h.bodyLength⟩
  unfold parseLines
  rw [(parseRequestLine_eq_ok_iff _ _).2 ⟨rfl, h.requestLine⟩]
  dsimp only
  rw [hlines]
  dsimp only
  rw [hframing]

/-- The reading of a complete request by its lines. -/
def expectedReading (line : RequestLine) (fields : List (Bytes × Bytes)) (body rest : Bytes) :
    Reading where
  requestLine := line.bytes
  headerLines := fields.map fieldLine
  request := { line.start.addFields fields with body := body }
  rest := rest

/-- A reader that ends every line of a complete request where it was ended reads it. -/
theorem readRequest_of_complete
    {cut : Cut UInt8}
    (h : CompleteRequest maxHeaderBytes maxBodyBytes buffer line fields body rest)
    (hcut : ∀ l ∈ [] :: sectionLines line fields, ∀ tail,
      cut (l ++ crlf ++ tail) = some (l, tail)) :
    readRequest cut maxBodyBytes buffer = some (expectedReading line fields body rest) := by
  obtain ⟨block, hbuffer, _, _, hgrammar⟩ := h.cut
  have hlines : buffer = ((sectionLines line fields).map (fun l => l ++ crlf)).flatten ++
      (crlf ++ (body ++ rest)) := by
    have hsection := intercalate_append_sep crlf line.bytes (fields.map fieldLine)
    rw [← hgrammar.cut] at hsection
    have hcrlfs : crlfcrlf = crlf ++ crlf := rfl
    rw [hbuffer, hcrlfs, List.map_cons, List.flatten_cons, ← hsection]
    simp
  have hrounds : (sectionLines line fields).length < buffer.length + 1 := by
    have hle := length_le_length_intercalate (show crlf ≠ [] by decide) line.bytes
      (fields.map fieldLine)
    rw [← hgrammar.cut] at hle
    rw [hbuffer]
    simp only [List.length_append, List.length_cons, crlfcrlf]
    omega
  have hempty : cut (crlf ++ (body ++ rest)) = some ([], body ++ rest) :=
    hcut [] (by simp) (body ++ rest)
  have hsection := readSection_lines hempty (sectionLines line fields)
    (fun l hl => hcut l (List.mem_cons_of_mem _ hl)) sectionLines_ne_nil hrounds
  rw [← hlines] at hsection
  unfold readRequest
  rw [hsection]
  dsimp only
  rw [parseLines_of_grammar hgrammar]
  simp [expectedReading]

/-- With CRLF alone, a reader sees what the parser returns. -/
theorem readRequest_strict
    (h : CompleteRequest maxHeaderBytes maxBodyBytes buffer line fields body rest) :
    readRequest strictCut maxBodyBytes buffer = some (expectedReading line fields body rest) := by
  obtain ⟨_, _, _, _, hgrammar⟩ := h.cut
  refine readRequest_of_complete h (fun l hl tail => cutAt_append unbordered_crlf ?_ tail)
  rcases List.mem_cons.1 hl with rfl | hl
  · decide
  · exact hgrammar.unbroken l hl

/-- The lines that the lenient reader sees contain no LF. -/
theorem lf_not_mem_of_lenient
    {reading : Reading}
    (h : readRequest lenientCut maxBodyBytes buffer = some reading) :
    ∀ l ∈ reading.requestLine :: reading.headerLines, (10 : UInt8) ∉ l := by
  unfold readRequest at h
  split at h
  · rename_i requestLine headerLines tail hsection
    have hfree := forall_mem_of_readSection
      (fun _ _ _ hcut => not_mem_of_cutAtLetter hcut) hsection
    split at h
    · cases h
    · split_ifs at h
      cases h
      exact hfree
  · cases h

/-- Only targets and values can contain LF. -/
theorem lf_not_mem_sectionLines_iff
    (h : line.WellFormed)
    (hnames : ∀ f ∈ fields, Token f.1) :
    (∀ l ∈ sectionLines line fields, (10 : UInt8) ∉ l) ↔
      10 ∉ line.target ∧ ∀ f ∈ fields, 10 ∉ f.2 := by
  have hmethod : (10 : UInt8) ∉ line.method := h.method.not_mem (by decide)
  have hversion : (10 : UInt8) ∉ line.version := by
    rcases h.version with hv | hv <;> rw [hv] <;> decide
  have hline : (10 : UInt8) ∉ line.bytes ↔ 10 ∉ line.target := by
    simp [RequestLine.bytes, hmethod, hversion]
  have hfield : ∀ f ∈ fields, ((10 : UInt8) ∉ fieldLine f ↔ 10 ∉ f.2) := by
    intro f hf
    have hname : (10 : UInt8) ∉ f.1 := (hnames f hf).not_mem (by decide)
    simp [fieldLine, hname]
  rw [List.forall_mem_cons, hline, List.forall_mem_map]
  exact and_congr_right (fun _ => forall₂_congr hfield)

/-- Without LF inside its lines, a request has one reading; with one it has not. -/
theorem readRequest_lenient_iff
    (h : CompleteRequest maxHeaderBytes maxBodyBytes buffer line fields body rest) :
    readRequest lenientCut maxBodyBytes buffer = readRequest strictCut maxBodyBytes buffer ↔
      10 ∉ line.target ∧ ∀ f ∈ fields, 10 ∉ f.2 := by
  obtain ⟨_, _, _, _, hgrammar⟩ := h.cut
  rw [← lf_not_mem_sectionLines_iff hgrammar.requestLine hgrammar.names, readRequest_strict h]
  constructor
  · intro hsame
    exact lf_not_mem_of_lenient hsame
  · intro hfree
    refine readRequest_of_complete h (fun l hl tail => cutAtLetter_append (by decide) ?_ tail)
    rcases List.mem_cons.1 hl with rfl | hl
    · simp
    · exact hfree l hl

end Agreement

section Result

/--
An accepted request is read by the strict reader as the parser reads it; the
lenient reader agrees if and only if neither the target nor a header value
contains LF.
-/
theorem one_reading_iff
    (parser : HttpParser)
    (hready : parser.next.1.status = .requestReady) :
    ∃ line fields body rest,
      CompleteRequest parser.maxHeaderBytes parser.maxBodyBytes parser.buffer
        line fields body rest ∧
      (∃ request,
        parser.next = (requestReady request, { parser with buffer := rest }) ∧
        readRequest strictCut parser.maxBodyBytes parser.buffer =
          some ⟨line.bytes, fields.map fieldLine, request, rest⟩) ∧
      (readRequest lenientCut parser.maxBodyBytes parser.buffer =
          readRequest strictCut parser.maxBodyBytes parser.buffer ↔
        10 ∉ line.target ∧ ∀ f ∈ fields, 10 ∉ f.2) := by
  obtain ⟨line, fields, body, rest, h⟩ := parser.complete_of_requestReady hready
  exact ⟨line, fields, body, rest, h, ⟨_, parser.next_of_complete h, readRequest_strict h⟩,
    readRequest_lenient_iff h⟩

/-- A request with header lines and a body, and the beginning of the next one. -/
def plainBuffer : Bytes :=
  ascii "POST /a HTTP/1.1\r\nHost: a\r\nContent-Length: 5\r\n\r\nhelloGET"

/-- Both readers find the header lines and the body. -/
theorem one_reading_plain :
    ∃ reading,
      readRequest strictCut 100 plainBuffer = some reading ∧
      readRequest lenientCut 100 plainBuffer = some reading ∧
      reading.headerLines = [ascii "Host: a", ascii "Content-Length: 5"] ∧
      HttpParser.next ⟨plainBuffer, 100, 100⟩ =
        (requestReady reading.request, ⟨ascii "GET", 100, 100⟩) := by
  have hready : (HttpParser.next ⟨plainBuffer, 100, 100⟩).1.status = .requestReady := by
    decide +kernel
  have hlines : (readRequest strictCut 100 plainBuffer).map
      (fun r => (r.headerLines, r.rest)) =
        some ([ascii "Host: a", ascii "Content-Length: 5"], ascii "GET") := by
    decide +kernel
  have hagree : readRequest lenientCut 100 plainBuffer = readRequest strictCut 100 plainBuffer := by
    decide +kernel
  obtain ⟨_, _, _, _, _, ⟨request, hnext, hstrict⟩, _⟩ := one_reading_iff _ hready
  dsimp only at hstrict hnext
  rw [hstrict, Option.map_some, Option.some.injEq, Prod.mk.injEq] at hlines
  refine ⟨_, hstrict, hagree.trans hstrict, hlines.1, ?_⟩
  rw [hnext]
  dsimp only at hlines
  rw [hlines.2]

/-- A value in which a bare LF hides a length from the parser. -/
def hiddenLengthBuffer : Bytes :=
  ascii "GET / HTTP/1.1\r\nHost: a\r\nX: b\nContent-Length: 5\r\n\r\nhello"

/-- The parser returns a request without a body, the lenient reader one with five bytes. -/
theorem hiddenLength_two_readings :
    (HttpParser.next ⟨hiddenLengthBuffer, 100, 100⟩).1.status = .requestReady ∧
    (HttpParser.next ⟨hiddenLengthBuffer, 100, 100⟩).2.buffer = ascii "hello" ∧
    (readRequest strictCut 100 hiddenLengthBuffer).map Reading.rest = some (ascii "hello") ∧
    (readRequest lenientCut 100 hiddenLengthBuffer).map Reading.rest = some [] ∧
    (readRequest lenientCut 100 hiddenLengthBuffer).map (fun r => r.request.body) =
      some (ascii "hello") := by
  decide +kernel

end Result

end HttpServer
