import HttpServer.ParserGrammar

/-!
# Feeding a stream in fragments

A connection feeds the parser whatever `read` returns and, after each feed,
calls `next` until it answers something other than a request.  `outcome` is
what an observer of such a session sees.

A complete request is found no matter what follows it, so the requests of a
prefix stay (`next_append_of_some`).  A refusal stays too, with one exception: the
length test made before the end of the header section has arrived counts the
bytes of an unfinished terminator, the test made afterwards does not.  A block
of `max_header_bytes - 2` to `max_header_bytes` bytes passes the second test
and can fail the first (`InLimitWindow`).  This is the only way in which the
cutting of a stream can be observed.
-/

namespace HttpServer

open Occurrence

section Drain

/-- The answers of repeated calls of `next`: the requests and the last answer. -/
structure Drained where
  requests : List HttpRequest
  status : ParseStatus
  errorKind : ParseErrorKind
  parser : HttpParser
deriving DecidableEq

/-- Put earlier requests in front. -/
def Drained.prepend (requests : List HttpRequest) (d : Drained) : Drained :=
  { d with requests := requests ++ d.requests }

/-- Call `next` until it answers something other than a request. -/
def drainLoop : Nat → HttpParser → Drained
  | 0, parser => ⟨[], .needMoreData, .badRequest, parser⟩
  | calls + 1, parser =>
      match parser.next.1.request with
      | some request => (drainLoop calls parser.next.2).prepend [request]
      | none => ⟨[], parser.next.1.status, parser.next.1.errorKind, parser.next.2⟩

/-- Every request takes at least the terminator from the buffer. -/
def HttpParser.drain (parser : HttpParser) : Drained :=
  drainLoop (parser.buffer.length + 1) parser

theorem drainLoop_eq
    (m n : Nat)
    (parser : HttpParser)
    (hm : parser.buffer.length < m)
    (hn : parser.buffer.length < n) :
    drainLoop m parser = drainLoop n parser := by
  induction m generalizing n parser with
  | zero =>
      omega
  | succ m ih =>
      obtain ⟨n, rfl⟩ : ∃ k, n = k + 1 := ⟨n - 1, by omega⟩
      rw [drainLoop, drainLoop]
      cases hrequest : parser.next.1.request with
      | none =>
          rfl
      | some request =>
          have hlen := (parser.next_of_request_some hrequest).2
          dsimp only
          rw [ih n parser.next.2 (by omega) (by omega)]

namespace HttpParser

theorem drain_of_some
    {parser : HttpParser}
    {request : HttpRequest}
    (h : parser.next.1.request = some request) :
    parser.drain = parser.next.2.drain.prepend [request] := by
  have hlen := (parser.next_of_request_some h).2
  unfold drain
  rw [drainLoop, h]
  dsimp only
  rw [drainLoop_eq parser.buffer.length (parser.next.2.buffer.length + 1) parser.next.2
    (by omega) (by omega)]

theorem drain_of_none
    {parser : HttpParser}
    (h : parser.next.1.request = none) :
    parser.drain = ⟨[], parser.next.1.status, parser.next.1.errorKind, parser⟩ := by
  unfold drain
  rw [drainLoop, h, parser.next_snd_of_request_none h]

end HttpParser

end Drain

section Reaching

/-- The parser that holds `buffer`. -/
abbrev parserAt (maxHeaderBytes maxBodyBytes : Nat) (buffer : Bytes) : HttpParser :=
  ⟨buffer, maxHeaderBytes, maxBodyBytes⟩

/-- The rest of a stream behind any number of complete requests. -/
inductive Reaches (maxHeaderBytes maxBodyBytes : Nat) : Bytes → Bytes → Prop
  | here (s : Bytes) : Reaches maxHeaderBytes maxBodyBytes s s
  | request
      {s rest t : Bytes}
      {line : RequestLine}
      {fields : List (Bytes × Bytes)}
      {body : Bytes}
      (hrequest : CompleteRequest maxHeaderBytes maxBodyBytes s line fields body rest)
      (hrest : Reaches maxHeaderBytes maxBodyBytes rest t) :
      Reaches maxHeaderBytes maxBodyBytes s t

variable {maxHeaderBytes maxBodyBytes : Nat}

/-- A complete request stays complete when more bytes arrive. -/
theorem CompleteRequest.append
    {s rest body : Bytes}
    {line : RequestLine}
    {fields : List (Bytes × Bytes)}
    (h : CompleteRequest maxHeaderBytes maxBodyBytes s line fields body rest)
    (u : Bytes) :
    CompleteRequest maxHeaderBytes maxBodyBytes (s ++ u) line fields body (rest ++ u) := by
  obtain ⟨block, hcut, hfirst, hshort, hhead⟩ := h.cut
  exact ⟨block, by rw [hcut]; simp, hfirst.append u, hshort, hhead⟩

theorem Reaches.trans
    {s t v : Bytes}
    (h : Reaches maxHeaderBytes maxBodyBytes s t)
    (h' : Reaches maxHeaderBytes maxBodyBytes t v) :
    Reaches maxHeaderBytes maxBodyBytes s v := by
  induction h with
  | here s => exact h'
  | request hrequest _ ih => exact .request hrequest (ih h')

theorem Reaches.append
    {s t : Bytes}
    (h : Reaches maxHeaderBytes maxBodyBytes s t)
    (u : Bytes) :
    Reaches maxHeaderBytes maxBodyBytes (s ++ u) (t ++ u) := by
  induction h with
  | here s => exact .here _
  | request hrequest _ ih => exact .request (hrequest.append u) ih

theorem Reaches.length_le
    {s t : Bytes}
    (h : Reaches maxHeaderBytes maxBodyBytes s t) :
    t.length ≤ s.length := by
  induction h with
  | here s => exact le_refl _
  | request hrequest _ ih =>
      obtain ⟨block, hcut, _⟩ := hrequest.cut
      rw [hcut]
      simp only [List.length_append]
      omega

/-- An answer with a request names the complete request in front of the buffer. -/
theorem complete_of_next_some
    {s : Bytes}
    {request : HttpRequest}
    (h : (parserAt maxHeaderBytes maxBodyBytes s).next.1.request = some request) :
    ∃ line fields body rest,
      CompleteRequest maxHeaderBytes maxBodyBytes s line fields body rest ∧
      request = { line.start.addFields fields with body := body } ∧
      (parserAt maxHeaderBytes maxBodyBytes s).next.2 =
        parserAt maxHeaderBytes maxBodyBytes rest := by
  have hready : (parserAt maxHeaderBytes maxBodyBytes s).next.1.status = .requestReady := by
    rw [((parserAt maxHeaderBytes maxBodyBytes s).next_of_request_some h).1]
    rfl
  obtain ⟨line, fields, body, rest, hcomplete⟩ :=
    (parserAt maxHeaderBytes maxBodyBytes s).complete_of_requestReady hready
  have hnext := (parserAt maxHeaderBytes maxBodyBytes s).next_of_complete hcomplete
  rw [hnext] at h ⊢
  exact ⟨line, fields, body, rest, hcomplete, (Option.some.inj h).symm, rfl⟩

/-- Requests that the parser emits have one of the two versions. -/
theorem version_of_emitted
    {parser : HttpParser}
    {request : HttpRequest}
    (h : parser.next.1.request = some request) :
    request.version = ascii "HTTP/1.1" ∨ request.version = ascii "HTTP/1.0" := by
  obtain ⟨line, fields, body, rest, hcomplete, rfl, _⟩ := complete_of_next_some h
  obtain ⟨_, _, _, _, hhead⟩ := hcomplete.cut
  have hversion := (addFields_requestLine line.start fields).2.2
  rw [show ({ line.start.addFields fields with body := body } : HttpRequest).version =
    line.version from hversion]
  exact hhead.requestLine.version

/-- More input does not change a request that has been returned. -/
theorem next_append_of_some
    {s : Bytes}
    {request : HttpRequest}
    (h : (parserAt maxHeaderBytes maxBodyBytes s).next.1.request = some request)
    (u : Bytes) :
    (parserAt maxHeaderBytes maxBodyBytes (s ++ u)).next =
      (requestReady request,
        parserAt maxHeaderBytes maxBodyBytes
          ((parserAt maxHeaderBytes maxBodyBytes s).next.2.buffer ++ u)) := by
  obtain ⟨line, fields, body, rest, hcomplete, rfl, hrest⟩ := complete_of_next_some h
  rw [hrest]
  exact (parserAt maxHeaderBytes maxBodyBytes (s ++ u)).next_of_complete (hcomplete.append u)

/-- What a drain leaves in the buffer has been reached, and drains to itself. -/
theorem exists_drain_rest
    (maxHeaderBytes maxBodyBytes : Nat)
    (s : Bytes) :
    ∃ t, (parserAt maxHeaderBytes maxBodyBytes s).drain.parser =
        parserAt maxHeaderBytes maxBodyBytes t ∧
      Reaches maxHeaderBytes maxBodyBytes s t ∧
      (parserAt maxHeaderBytes maxBodyBytes t).drain =
        { (parserAt maxHeaderBytes maxBodyBytes s).drain with requests := [] } ∧
      ∀ u, (parserAt maxHeaderBytes maxBodyBytes (s ++ u)).drain =
        (parserAt maxHeaderBytes maxBodyBytes (t ++ u)).drain.prepend
          (parserAt maxHeaderBytes maxBodyBytes s).drain.requests := by
  induction hn : s.length using Nat.strong_induction_on generalizing s with
  | _ n ih =>
      cases hrequest : (parserAt maxHeaderBytes maxBodyBytes s).next.1.request with
      | none =>
          rw [HttpParser.drain_of_none hrequest]
          exact ⟨s, rfl, .here s, HttpParser.drain_of_none hrequest, fun u => rfl⟩
      | some request =>
          have hlen := ((parserAt maxHeaderBytes maxBodyBytes s).next_of_request_some hrequest).2
          obtain ⟨line, fields, body, rest, hcomplete, _, hnext⟩ :=
            complete_of_next_some hrequest
          rw [hnext] at hlen
          dsimp only at hlen
          obtain ⟨t, hparser, hreach, hself, hdrain⟩ := ih rest.length (by omega) rest rfl
          have hfirst := HttpParser.drain_of_some hrequest
          rw [hnext] at hfirst
          rw [hfirst]
          refine ⟨t, hparser, .request hcomplete hreach, hself, ?_⟩
          intro u
          have hmore := next_append_of_some hrequest u
          have hrest := HttpParser.drain_of_some (congrArg (fun a => a.1.request) hmore)
          rw [hrest, hmore, hnext, hdrain u]
          simp [Drained.prepend]

end Reaching

section Sessions

/-- Feed one fragment and drain; a session that has failed is over. -/
def feedChunk (session : Drained) (chunk : Bytes) : Drained :=
  if session.status = .error then session
  else (session.parser.feed chunk).drain.prepend session.requests

/-- A session on a fresh parser. -/
def feedChunks (maxHeaderBytes maxBodyBytes : Nat) (chunks : List Bytes) : Drained :=
  chunks.foldl feedChunk
    ⟨[], .needMoreData, .badRequest, HttpParser.fresh maxHeaderBytes maxBodyBytes⟩

/-- What can be seen of a session; the buffer is only looked at while it goes on. -/
structure Observation where
  requests : List HttpRequest
  status : ParseStatus
  errorKind : ParseErrorKind
  buffered : Option Nat
deriving DecidableEq

def Drained.observe (d : Drained) : Observation where
  requests := d.requests
  status := d.status
  errorKind := d.errorKind
  buffered := if d.status = .error then none else some d.parser.bufferedBytes

/-- The observation of a session that receives the given fragments. -/
def outcome (maxHeaderBytes maxBodyBytes : Nat) (chunks : List Bytes) : Observation :=
  (feedChunks maxHeaderBytes maxBodyBytes chunks).observe

/--
A header section that passes the length test only if its terminator arrives
together with it, and that is not refused as malformed anyway.
-/
structure InLimitWindow (maxHeaderBytes maxBodyBytes : Nat) (buffer : Bytes) : Prop where
  intro ::
  block : ∃ block tail,
    buffer = block ++ crlfcrlf ++ tail ∧
    FirstAt crlfcrlf buffer block.length ∧
    maxHeaderBytes - 2 ≤ block.length ∧ block.length ≤ maxHeaderBytes ∧
    ((∃ line fields n, HeadGrammar maxBodyBytes block line fields n) ∨
      ∃ line fields, TransferCodedHead block line fields)

/-- No request of the stream starts with such a header section. -/
def FragmentationSafe (maxHeaderBytes maxBodyBytes : Nat) (s : Bytes) : Prop :=
  ∀ t, Reaches maxHeaderBytes maxBodyBytes s t →
    ¬ InLimitWindow maxHeaderBytes maxBodyBytes t

variable {maxHeaderBytes maxBodyBytes : Nat}

theorem foldl_feedChunk_error
    (session : Drained)
    (h : session.status = .error)
    (chunks : List Bytes) :
    chunks.foldl feedChunk session = session := by
  induction chunks with
  | nil =>
      rfl
  | cons chunk chunks ih =>
      rw [List.foldl_cons, feedChunk, if_pos h]
      exact ih

/-- What the header part answers on a block that is not malformed. -/
theorem parseHead_badRequest_of_not_window
    {block : Bytes}
    {failure : ParseFailure}
    (hend : ¬ crlf <:+ block)
    (hhead : parseHead maxBodyBytes block = .error failure)
    (hcoded : ¬ ∃ line fields, TransferCodedHead block line fields) :
    failure.kind = .badRequest := by
  cases hkind : failure.kind with
  | badRequest =>
      rfl
  | unsupportedTransferEncoding =>
      exact absurd
        ((parseHead_unsupported_iff maxBodyBytes block hend).1 ⟨failure, hhead, hkind⟩) hcoded

/-- Outside the window, a refusal stays when more bytes arrive. -/
theorem next_error_append
    {t u : Bytes}
    (h : (parserAt maxHeaderBytes maxBodyBytes t).next.1.status = .error)
    (hsafe : ¬ InLimitWindow maxHeaderBytes maxBodyBytes (t ++ u)) :
    (parserAt maxHeaderBytes maxBodyBytes (t ++ u)).next.1.status = .error ∧
      (parserAt maxHeaderBytes maxBodyBytes (t ++ u)).next.1.errorKind =
        (parserAt maxHeaderBytes maxBodyBytes t).next.1.errorKind := by
  generalize hnext : (parserAt maxHeaderBytes maxBodyBytes t).next = answer at h ⊢
  have hview := hnext ▸ (parserAt maxHeaderBytes maxBodyBytes t).next_view
  cases hview with
  | waiting => cases h
  | bodyMissing => cases h
  | ready => cases h
  | tooLong hfind hlong =>
      have hfind' := find_append_of_some hfind u
      unfold HttpParser.next
      rw [hfind']
      dsimp only
      rw [if_pos hlong]
      exact ⟨rfl, rfl⟩
  | @refused headerEnd failure hfind hshort hhead =>
      have hfind' := find_append_of_some hfind u
      have hroom := HttpParser.headerEnd_add_four_le hfind
      have htake : (t ++ u).take headerEnd = t.take headerEnd :=
        List.take_append_of_le_length (by dsimp only at hroom; omega)
      unfold HttpParser.next
      rw [hfind']
      dsimp only at hshort hhead ⊢
      rw [if_neg (by omega), htake, hhead]
      exact ⟨rfl, rfl⟩
  | unterminated hfind hlong =>
      dsimp only at hfind hlong
      generalize hmore : (parserAt maxHeaderBytes maxBodyBytes (t ++ u)).next = answer'
      have hview' := hmore ▸ (parserAt maxHeaderBytes maxBodyBytes (t ++ u)).next_view
      have hwindow : ∀ headerEnd, find crlfcrlf (t ++ u) = some headerEnd →
          headerEnd ≤ maxHeaderBytes →
          ¬ (∃ line fields n,
              HeadGrammar maxBodyBytes ((t ++ u).take headerEnd) line fields n) ∧
            ¬ ∃ line fields, TransferCodedHead ((t ++ u).take headerEnd) line fields := by
        intro headerEnd hfind' hshort
        have hstraddle := length_lt_of_find_append hfind hfind'
        obtain ⟨hcut, hlen⟩ := cut_at_headerEnd hfind'
        have hfirst := (find_eq_some_iff _ _ _).1 hfind'
        have hsize : maxHeaderBytes - 2 ≤ headerEnd := by
          simp [crlfcrlf] at hstraddle
          omega
        rw [← not_or]
        intro hok
        exact hsafe ⟨_, _, hcut, hlen.symm ▸ hfirst, by omega, by omega, hok⟩
      cases hview' with
      | unterminated => exact ⟨rfl, rfl⟩
      | tooLong => exact ⟨rfl, rfl⟩
      | waiting hfind' hshort =>
          dsimp only at hshort
          rw [List.length_append] at hshort
          omega
      | @refused headerEnd failure hfind' hshort hhead =>
          have hend := not_crlf_suffix_take ((find_eq_some_iff _ _ _).1 hfind')
          exact ⟨rfl, parseHead_badRequest_of_not_window hend hhead
            (hwindow headerEnd hfind' hshort).2⟩
      | @bodyMissing headerEnd n request hfind' hshort hhead hbody =>
          have hend := not_crlf_suffix_take ((find_eq_some_iff _ _ _).1 hfind')
          obtain ⟨line, fields, hgrammar, _⟩ := (parseHead_eq_ok_iff _ _ hend _ _).1 hhead
          exact absurd ⟨line, fields, n, hgrammar⟩ (hwindow headerEnd hfind' hshort).1
      | @ready headerEnd n request hfind' hshort hhead hbody =>
          have hend := not_crlf_suffix_take ((find_eq_some_iff _ _ _).1 hfind')
          obtain ⟨line, fields, hgrammar, _⟩ := (parseHead_eq_ok_iff _ _ hend _ _).1 hhead
          exact absurd ⟨line, fields, n, hgrammar⟩ (hwindow headerEnd hfind' hshort).1

/-- A session that waits for more bytes sees what one drain of all bytes sees. -/
theorem foldl_feedChunk_observe
    (chunks : List Bytes)
    (d : Drained)
    (t : Bytes)
    (hparser : d.parser = parserAt maxHeaderBytes maxBodyBytes t)
    (hself : (parserAt maxHeaderBytes maxBodyBytes t).drain = { d with requests := [] })
    (hgoing : d.status ≠ .error)
    (hsafe : FragmentationSafe maxHeaderBytes maxBodyBytes (t ++ chunks.flatten)) :
    (chunks.foldl feedChunk d).observe =
      ((parserAt maxHeaderBytes maxBodyBytes (t ++ chunks.flatten)).drain.prepend
        d.requests).observe := by
  induction chunks generalizing d t with
  | nil =>
      rw [List.flatten_nil, List.append_nil, hself]
      simp [Drained.prepend]
  | cons chunk chunks ih =>
      obtain ⟨t', hparser', hreach, hself', hdrain⟩ :=
        exists_drain_rest maxHeaderBytes maxBodyBytes (t ++ chunk)
      have hfeed : feedChunk d chunk =
          (parserAt maxHeaderBytes maxBodyBytes (t ++ chunk)).drain.prepend d.requests := by
        rw [feedChunk, if_neg hgoing, hparser]
        rfl
      have hsafe' : FragmentationSafe maxHeaderBytes maxBodyBytes
          (t' ++ chunks.flatten) := by
        intro v hv
        apply hsafe
        rw [List.flatten_cons, ← List.append_assoc]
        exact (hreach.append chunks.flatten).trans hv
      rw [List.foldl_cons, List.flatten_cons, ← List.append_assoc, hdrain, hfeed]
      by_cases herror : (parserAt maxHeaderBytes maxBodyBytes (t ++ chunk)).drain.status =
          .error
      · have hnone : (parserAt maxHeaderBytes maxBodyBytes t').next.1.request = none := by
          cases hrequest : (parserAt maxHeaderBytes maxBodyBytes t').next.1.request with
          | none =>
              rfl
          | some request =>
              rw [HttpParser.drain_of_some hrequest] at hself'
              exact absurd (congrArg Drained.requests hself') (by simp [Drained.prepend])
        rw [HttpParser.drain_of_none hnone] at hself'
        have hstatus := congrArg Drained.status hself'
        have hkind := congrArg Drained.errorKind hself'
        dsimp only at hstatus hkind
        obtain ⟨hmore, hmoreKind⟩ :=
          next_error_append (u := chunks.flatten) (hstatus.trans herror) (hsafe' _ (.here _))
        have hmoreNone := ((parserAt maxHeaderBytes maxBodyBytes
          (t' ++ chunks.flatten)).next_request_eq_none_iff).2 (by rw [hmore]; simp)
        have hstop := foldl_feedChunk_error
          ((parserAt maxHeaderBytes maxBodyBytes (t ++ chunk)).drain.prepend d.requests)
          herror chunks
        rw [hstop, HttpParser.drain_of_none hmoreNone, hmore, hmoreKind, hkind]
        simp [Drained.observe, Drained.prepend, herror]
      · rw [ih ((parserAt maxHeaderBytes maxBodyBytes (t ++ chunk)).drain.prepend d.requests)
          t' hparser' hself' herror hsafe']
        simp [Drained.prepend]

theorem next_parserAt_nil :
    (parserAt maxHeaderBytes maxBodyBytes []).next =
      (needMoreData, parserAt maxHeaderBytes maxBodyBytes []) :=
  (parserAt maxHeaderBytes maxBodyBytes []).next_of_incomplete
    (.head (show ¬ crlfcrlf <:+: [] by decide) (Nat.zero_le _))

/-- Outside the window, the cutting of a stream cannot be observed. -/
theorem outcome_eq_of_safe
    {s : Bytes}
    (hsafe : FragmentationSafe maxHeaderBytes maxBodyBytes s)
    {chunks : List Bytes}
    (hchunks : chunks.flatten = s) :
    outcome maxHeaderBytes maxBodyBytes chunks =
      (parserAt maxHeaderBytes maxBodyBytes s).drain.observe := by
  subst hchunks
  have hnone : (parserAt maxHeaderBytes maxBodyBytes []).next.1.request = none := by
    rw [next_parserAt_nil]
    rfl
  have hself := HttpParser.drain_of_none hnone
  rw [next_parserAt_nil] at hself
  exact foldl_feedChunk_observe chunks
    ⟨[], .needMoreData, .badRequest, HttpParser.fresh maxHeaderBytes maxBodyBytes⟩ []
    rfl hself (by simp) hsafe

/-- The bytes behind a complete request can be exchanged. -/
theorem CompleteRequest.exchange
    {s rest body : Bytes}
    {line : RequestLine}
    {fields : List (Bytes × Bytes)}
    (h : CompleteRequest maxHeaderBytes maxBodyBytes s line fields body rest) :
    ∃ front, s = front ++ rest ∧
      ∀ u, CompleteRequest maxHeaderBytes maxBodyBytes (front ++ u) line fields body u := by
  obtain ⟨block, hcut, hfirst, hshort, hhead⟩ := h.cut
  refine ⟨block ++ crlfcrlf ++ body, hcut, ?_⟩
  intro u
  have hfront : FirstAt crlfcrlf (block ++ crlfcrlf ++ body) block.length := by
    rw [hcut] at hfirst
    exact hfirst.of_append (by simp)
  exact ⟨block, rfl, hfront.append u, hshort, hhead⟩

/-- The requests in front of a reached rest are drained whatever follows them. -/
theorem Reaches.drain
    {s t : Bytes}
    (h : Reaches maxHeaderBytes maxBodyBytes s t) :
    ∃ front requests, s = front ++ t ∧
      ∀ u, (parserAt maxHeaderBytes maxBodyBytes (front ++ u)).drain =
        (parserAt maxHeaderBytes maxBodyBytes u).drain.prepend requests := by
  induction h with
  | here s =>
      exact ⟨[], [], rfl, fun u => rfl⟩
  | @request s rest t line fields body hrequest _ ih =>
      obtain ⟨front, requests, rfl, hdrain⟩ := ih
      obtain ⟨first, rfl, hexchange⟩ := hrequest.exchange
      refine ⟨first ++ front,
        { line.start.addFields fields with body := body } :: requests, by simp, ?_⟩
      intro u
      have hnext := (parserAt maxHeaderBytes maxBodyBytes
        (first ++ (front ++ u))).next_of_complete (hexchange (front ++ u))
      have hfirst := HttpParser.drain_of_some (congrArg (fun a => a.1.request) hnext)
      rw [hnext] at hfirst
      rw [List.append_assoc, hfirst, hdrain u]
      simp [Drained.prepend]

/-- Without the last byte of its terminator, a section in the window is refused. -/
theorem next_of_window_cut
    (maxHeaderBytes maxBodyBytes : Nat)
    {t block tail : Bytes}
    (hcut : t = block ++ crlfcrlf ++ tail)
    (hfirst : FirstAt crlfcrlf t block.length)
    (hlong : maxHeaderBytes - 2 ≤ block.length) :
    (parserAt maxHeaderBytes maxBodyBytes (t.take (block.length + 3))).next =
      (parseError headersTooLong,
        parserAt maxHeaderBytes maxBodyBytes (t.take (block.length + 3))) := by
  have hlen : t.length = block.length + 4 + tail.length := by
    rw [hcut]
    simp [crlfcrlf]
    omega
  have hnone : find crlfcrlf (t.take (block.length + 3)) = none := by
    cases hfind : find crlfcrlf (t.take (block.length + 3)) with
    | none =>
        rfl
    | some i =>
        have hi := (find_eq_some_iff _ _ _).1 hfind
        have hmore := hi.append (t.drop (block.length + 3))
        rw [List.take_append_drop] at hmore
        have heq := hfirst.unique hmore
        have hle := hi.add_length_le
        rw [List.length_take] at hle
        simp only [crlfcrlf, List.length_cons, List.length_nil] at hle
        omega
  have htake : (t.take (block.length + 3)).length = block.length + 3 := by
    rw [List.length_take]
    omega
  unfold HttpParser.next
  dsimp only
  rw [hnone]
  dsimp only
  rw [if_pos (by omega)]

/-- Whole, a section in the window is not refused as malformed. -/
theorem drain_of_window
    {t : Bytes}
    (h : InLimitWindow maxHeaderBytes maxBodyBytes t) :
    (parserAt maxHeaderBytes maxBodyBytes t).drain.requests ≠ [] ∨
      (parserAt maxHeaderBytes maxBodyBytes t).drain.status ≠ .error ∨
      (parserAt maxHeaderBytes maxBodyBytes t).drain.errorKind ≠ .badRequest := by
  obtain ⟨block, tail, hcut, hfirst, _, hshort, hok⟩ := h.block
  obtain ⟨hfind, htake, _⟩ := find_of_cut hcut hfirst
  have hend := not_crlf_suffix_take hfirst
  rw [htake] at hend
  rcases hok with ⟨line, fields, n, hgrammar⟩ | ⟨line, fields, hcoded⟩
  · have hhead := parseHead_of_grammar hcut hfirst hgrammar
    cases hrequest : (parserAt maxHeaderBytes maxBodyBytes t).next.1.request with
    | some request =>
        left
        rw [HttpParser.drain_of_some hrequest]
        simp [Drained.prepend]
    | none =>
        right
        left
        rw [HttpParser.drain_of_none hrequest]
        unfold HttpParser.next
        dsimp only
        rw [hfind]
        dsimp only
        rw [if_neg (by omega), htake, hhead]
        dsimp only
        split_ifs <;> simp [needMoreData, requestReady]
  · obtain ⟨failure, hhead, hkind⟩ :=
      (parseHead_unsupported_iff maxBodyBytes block hend).2 ⟨line, fields, hcoded⟩
    have hnext : (parserAt maxHeaderBytes maxBodyBytes t).next =
        (parseError failure, parserAt maxHeaderBytes maxBodyBytes t) := by
      unfold HttpParser.next
      dsimp only
      rw [hfind]
      dsimp only
      rw [if_neg (by omega), htake, hhead]
    have hdrain := HttpParser.drain_of_none
      (show (parserAt maxHeaderBytes maxBodyBytes t).next.1.request = none by rw [hnext]; rfl)
    right
    right
    rw [hdrain, hnext]
    simp [parseError, hkind]

theorem outcome_singleton
    (s : Bytes) :
    outcome maxHeaderBytes maxBodyBytes [s] =
      (parserAt maxHeaderBytes maxBodyBytes s).drain.observe := by
  rfl

/--
The cutting of a stream into fragments cannot be observed if and only if no
request of the stream starts with a header section in the window between the
two length tests.
-/
theorem fragmentation_independent_iff
    (maxHeaderBytes maxBodyBytes : Nat)
    (s : Bytes) :
    (∀ chunks chunks' : List Bytes, chunks.flatten = s → chunks'.flatten = s →
      outcome maxHeaderBytes maxBodyBytes chunks =
        outcome maxHeaderBytes maxBodyBytes chunks')
      ↔
    FragmentationSafe maxHeaderBytes maxBodyBytes s := by
  constructor
  · intro hsame t hreach hwindow
    obtain ⟨front, requests, rfl, hdrain⟩ := hreach.drain
    obtain ⟨block, tail, hcut, hfirst, hlong, _, _⟩ := hwindow.block
    have hbroken := next_of_window_cut maxHeaderBytes maxBodyBytes hcut hfirst hlong
    have hnone := HttpParser.drain_of_none
      (show (parserAt maxHeaderBytes maxBodyBytes
        (t.take (block.length + 3))).next.1.request = none by rw [hbroken]; rfl)
    rw [hbroken] at hnone
    have hwhole := hsame [front ++ t]
      [front ++ t.take (block.length + 3), t.drop (block.length + 3)] (by simp)
      (by simp)
    have hcutOutcome : outcome maxHeaderBytes maxBodyBytes
        [front ++ t.take (block.length + 3), t.drop (block.length + 3)] =
          ⟨requests, .error, .badRequest, none⟩ := by
      have hstep : feedChunk
          ⟨[], .needMoreData, .badRequest, HttpParser.fresh maxHeaderBytes maxBodyBytes⟩
          (front ++ t.take (block.length + 3)) =
            (parserAt maxHeaderBytes maxBodyBytes
              (front ++ t.take (block.length + 3))).drain := by
        rfl
      unfold outcome feedChunks
      rw [List.foldl_cons, hstep, hdrain, hnone, foldl_feedChunk_error _ rfl]
      simp [Drained.observe, Drained.prepend, parseError, headersTooLong, badRequest]
    rw [outcome_singleton, hdrain, hcutOutcome] at hwhole
    simp only [Drained.observe, Drained.prepend, Observation.mk.injEq] at hwhole
    obtain ⟨hrequests, hstatus, hkind, _⟩ := hwhole
    have hnil : (parserAt maxHeaderBytes maxBodyBytes t).drain.requests = [] := by
      simpa using hrequests
    rcases drain_of_window hwindow with h | h | h
    · exact h hnil
    · exact h hstatus
    · exact h hkind
  · intro hsafe chunks chunks' hchunks hchunks'
    rw [outcome_eq_of_safe hsafe hchunks, outcome_eq_of_safe hsafe hchunks']

/-- A header block of exactly the permitted length is served whole and refused cut. -/
theorem fragmentation_observed_at_limit :
    [ascii "GET / HTTP/1.0\r\n\r\n"].flatten =
        [ascii "GET / HTTP/1.0\r\n\r", ascii "\n"].flatten ∧
      outcome 14 0 [ascii "GET / HTTP/1.0\r\n\r\n"] ≠
        outcome 14 0 [ascii "GET / HTTP/1.0\r\n\r", ascii "\n"] := by
  decide

end Sessions

end HttpServer
