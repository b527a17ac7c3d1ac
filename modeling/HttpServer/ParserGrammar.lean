import HttpServer.HeaderLines

/-!
# The grammar of accepted requests

The parser searches, cuts and tests in a fixed order.  This module states what
it accepts as a grammar written by concatenation, and proves that `next`
accepts exactly that grammar and cuts requests exactly there.

* `HeadGrammar`: a header block, split at CRLF, is a request line and header
  lines; the names are tokens, no name but `connection` is repeated, HTTP/1.1
  has a `host`, there is no `transfer-encoding`, and the body length is the
  value of `content-length`;
* `CompleteRequest`, `IncompleteRequest`: what the front of a buffer can hold;
* `parseHead_eq_ok_iff`: the header part of the equivalence;
* `next_of_complete`, `next_of_incomplete`, `complete_or_incomplete_of_ne_error`:
  the answers of `next` in terms of these.
-/

namespace HttpServer

open Occurrence

section Head

/-- A block, split at CRLF, is a request line and header lines. -/
structure HeadLines (block : Bytes) (line : RequestLine) (fields : List (Bytes × Bytes)) :
    Prop where
  cut : block = List.intercalate crlf (line.bytes :: fields.map fieldLine)
  unbroken : ∀ l ∈ line.bytes :: fields.map fieldLine, ¬ crlf <:+: l
  requestLine : line.WellFormed
  names : ∀ f ∈ fields, Token f.1
  distinct : fields.Pairwise (fun f g =>
    toLowerAscii f.1 = toLowerAscii g.1 → toLowerAscii f.1 = ascii "connection")
  host : HostLine line.version fields

/-- The header blocks that the server understands. -/
structure HeadGrammar (maxBodyBytes : Nat) (block : Bytes) (line : RequestLine)
    (fields : List (Bytes × Bytes)) (length : Nat) : Prop
    extends HeadLines block line fields where
  noTransferEncoding : ∀ f ∈ fields, toLowerAscii f.1 ≠ ascii "transfer-encoding"
  bodyLength : BodyLength maxBodyBytes fields length

/-- The header blocks that are refused only for their transfer coding. -/
structure TransferCodedHead (block : Bytes) (line : RequestLine)
    (fields : List (Bytes × Bytes)) : Prop
    extends HeadLines block line fields where
  coded : ∃ f ∈ fields, toLowerAscii f.1 = ascii "transfer-encoding"
  unframed : ∀ f ∈ fields, toLowerAscii f.1 ≠ ascii "content-length"

theorem requestLineOf_intercalate
    (first : Bytes)
    (lines : List Bytes)
    (hfree : ¬ crlf <:+: first) :
    requestLineOf (List.intercalate crlf (first :: lines)) = first := by
  unfold requestLineOf
  cases lines with
  | nil =>
      have hsingle : List.intercalate crlf [first] = first := by simp
      rw [hsingle, (find_eq_none_iff _ _).2 hfree]
  | cons next rest =>
      rw [List.intercalate_cons_cons, find_append_of_unbordered unbordered_crlf hfree]
      dsimp only
      rw [List.append_assoc, List.take_left]

theorem parseHeaderLines_intercalate
    (first : Bytes)
    (lines : List Bytes)
    (hfree : ∀ l ∈ first :: lines, ¬ crlf <:+: l)
    (hend : ¬ crlf <:+ List.intercalate crlf (first :: lines))
    (request : HttpRequest) :
    parseHeaderLines (List.intercalate crlf (first :: lines)) request =
      acceptLines lines request := by
  unfold parseHeaderLines
  cases lines with
  | nil =>
      have hsingle : List.intercalate crlf [first] = first := by simp
      rw [hsingle, (find_eq_none_iff _ _).2 (hfree first (by simp))]
      rfl
  | cons next rest =>
      have hlast : (next :: rest).getLast (by simp) ≠ [] := fun h =>
        hend (suffix_intercalate_of_getLast_eq_nil crlf first (next :: rest) (by simp) h)
      have hlen := length_le_length_intercalate (show crlf ≠ [] by decide) first
        (next :: rest)
      rw [List.length_cons] at hlen
      have hloop := headerLoop_intercalate
        (List.intercalate crlf (first :: next :: rest)).length next rest request
        (fun l hl => hfree l (List.mem_cons_of_mem _ hl)) hlast (by omega)
      have hsep : (first ++ crlf).length = first.length + 2 := by simp [crlf]
      have hdrop : (first ++ crlf ++ List.intercalate crlf (next :: rest)).drop
          (first.length + 2) = List.intercalate crlf (next :: rest) := by
        rw [← hsep, List.drop_left]
      rw [List.intercalate_cons_cons] at hloop ⊢
      rw [find_append_of_unbordered unbordered_crlf (hfree first (by simp))]
      dsimp only
      rw [hdrop, hloop]

/-- The header part succeeds exactly when its three stages do. -/
theorem parseHead_eq_ok_iff_stages
    (maxBodyBytes : Nat)
    (block : Bytes)
    (request : HttpRequest)
    (n : Nat) :
    parseHead maxBodyBytes block = .ok (request, n)
      ↔
    ∃ line, parseRequestLine (requestLineOf block) = .ok line ∧
      parseHeaderLines block line.start = .ok request ∧
      checkFraming maxBodyBytes request = .ok n := by
  unfold parseHead
  constructor
  · intro h
    cases hline : parseRequestLine (requestLineOf block) with
    | error error =>
        rw [hline] at h
        cases h
    | ok line =>
        rw [hline] at h
        dsimp only at h
        cases hlines : parseHeaderLines block line.start with
        | error failure =>
            rw [hlines] at h
            cases h
        | ok result =>
            rw [hlines] at h
            dsimp only at h
            cases hframe : checkFraming maxBodyBytes result with
            | error failure =>
                rw [hframe] at h
                cases h
            | ok length =>
                rw [hframe] at h
                simp only [Except.ok.injEq, Prod.mk.injEq] at h
                obtain ⟨rfl, rfl⟩ := h
                exact ⟨line, rfl, hlines, hframe⟩
  · rintro ⟨line, hline, hlines, hframe⟩
    rw [hline]
    dsimp only
    rw [hlines]
    dsimp only
    rw [hframe]

theorem noDuplicates_start_iff
    (line : RequestLine)
    (fields : List (Bytes × Bytes)) :
    NoDuplicates line.start fields
      ↔
    fields.Pairwise (fun f g =>
      toLowerAscii f.1 = toLowerAscii g.1 → toLowerAscii f.1 = ascii "connection") := by
  constructor
  · exact fun h => h.2
  · exact fun h => ⟨fun f _ => Or.inl rfl, h⟩

/-- The parser understands exactly the header blocks of the grammar. -/
theorem parseHead_eq_ok_iff
    (maxBodyBytes : Nat)
    (block : Bytes)
    (hend : ¬ crlf <:+ block)
    (request : HttpRequest)
    (n : Nat) :
    parseHead maxBodyBytes block = .ok (request, n)
      ↔
    ∃ line fields, HeadGrammar maxBodyBytes block line fields n ∧
      request = line.start.addFields fields := by
  rw [parseHead_eq_ok_iff_stages]
  constructor
  · rintro ⟨line, hline, hlines, hframe⟩
    obtain ⟨first, lines, rfl, hfree⟩ := exists_pieces (show crlf ≠ [] by decide) block
    rw [requestLineOf_intercalate _ _ (hfree first (by simp))] at hline
    rw [parseHeaderLines_intercalate _ _ hfree hend] at hlines
    obtain ⟨rfl, hwell⟩ := (parseRequestLine_eq_ok_iff _ _).1 hline
    obtain ⟨fields, rfl, htoks, hdup, rfl⟩ := (acceptLines_eq_ok_iff _ _ _).1 hlines
    obtain ⟨hhost, hte, hlen⟩ := (checkFraming_eq_ok_iff _ _ _ hdup _).1 hframe
    exact ⟨line, fields, ⟨⟨rfl, hfree, hwell, htoks, hdup.2, hhost⟩, hte, hlen⟩, rfl⟩
  · rintro ⟨line, fields, ⟨⟨rfl, hfree, hwell, htoks, hdistinct, hhost⟩, hte, hlen⟩, rfl⟩
    have hdup := (noDuplicates_start_iff line fields).2 hdistinct
    refine ⟨line, ?_, ?_, ?_⟩
    · rw [requestLineOf_intercalate _ _ (hfree _ (by simp))]
      exact (parseRequestLine_eq_ok_iff _ _).2 ⟨rfl, hwell⟩
    · rw [parseHeaderLines_intercalate _ _ hfree hend]
      exact (acceptLines_eq_ok_iff _ _ _).2 ⟨fields, rfl, htoks, hdup, rfl⟩
    · exact (checkFraming_eq_ok_iff _ _ _ hdup _).2 ⟨hhost, hte, hlen⟩

theorem acceptLine_error_kind
    {line : Bytes}
    {request : HttpRequest}
    {failure : ParseFailure}
    (h : acceptLine line request = .error failure) :
    failure.kind = .badRequest := by
  unfold acceptLine at h
  cases hparse : parseHeaderLine line with
  | error error =>
      rw [hparse] at h
      cases h
      rfl
  | ok field =>
      rw [hparse] at h
      dsimp only at h
      split_ifs at h
      cases h
      rfl

theorem acceptLines_error_kind
    {lines : List Bytes}
    {request : HttpRequest}
    {failure : ParseFailure}
    (h : acceptLines lines request = .error failure) :
    failure.kind = .badRequest := by
  induction lines generalizing request with
  | nil =>
      cases h
  | cons line lines ih =>
      rw [acceptLines] at h
      cases hline : acceptLine line request with
      | error failure' =>
          rw [hline] at h
          cases h
          exact acceptLine_error_kind hline
      | ok request' =>
          rw [hline] at h
          exact ih h

/-- The blocks refused with the second kind of error are exactly the transfer-coded ones. -/
theorem parseHead_unsupported_iff
    (maxBodyBytes : Nat)
    (block : Bytes)
    (hend : ¬ crlf <:+ block) :
    (∃ failure, parseHead maxBodyBytes block = .error failure ∧
        failure.kind = .unsupportedTransferEncoding)
      ↔
    ∃ line fields, TransferCodedHead block line fields := by
  obtain ⟨first, lines, rfl, hfree⟩ := exists_pieces (show crlf ≠ [] by decide) block
  constructor
  · rintro ⟨failure, hfail, hkind⟩
    unfold parseHead at hfail
    rw [requestLineOf_intercalate _ _ (hfree first (by simp))] at hfail
    cases hline : parseRequestLine first with
    | error error =>
        rw [hline] at hfail
        cases hfail
        cases hkind
    | ok line =>
        rw [hline] at hfail
        dsimp only at hfail
        rw [parseHeaderLines_intercalate _ _ hfree hend] at hfail
        cases hlines : acceptLines lines line.start with
        | error failure' =>
            rw [hlines] at hfail
            cases hfail
            rw [acceptLines_error_kind hlines] at hkind
            cases hkind
        | ok request =>
            rw [hlines] at hfail
            dsimp only at hfail
            obtain ⟨rfl, hwell⟩ := (parseRequestLine_eq_ok_iff _ _).1 hline
            obtain ⟨fields, rfl, htoks, hdup, rfl⟩ := (acceptLines_eq_ok_iff _ _ _).1 hlines
            cases hframe : checkFraming maxBodyBytes (line.start.addFields fields) with
            | ok n =>
                rw [hframe] at hfail
                cases hfail
            | error failure' =>
                rw [hframe] at hfail
                cases hfail
                obtain ⟨hhost, hcoded, hunframed⟩ :=
                  (checkFraming_unsupported_iff maxBodyBytes line fields hdup).1
                    ⟨_, hframe, hkind⟩
                exact ⟨line, fields,
                  ⟨⟨rfl, hfree, hwell, htoks, hdup.2, hhost⟩, hcoded, hunframed⟩⟩
  · rintro ⟨line, fields, ⟨⟨hcut, hunbroken, hwell, htoks, hdistinct, hhost⟩, hcoded,
      hunframed⟩⟩
    rw [hcut] at hend ⊢
    have hdup := (noDuplicates_start_iff line fields).2 hdistinct
    obtain ⟨failure, hframe, hkind⟩ :=
      (checkFraming_unsupported_iff maxBodyBytes line fields hdup).2 ⟨hhost, hcoded, hunframed⟩
    refine ⟨failure, ?_, hkind⟩
    unfold parseHead
    rw [requestLineOf_intercalate _ _ (hunbroken _ (by simp)),
      (parseRequestLine_eq_ok_iff _ _).2 ⟨rfl, hwell⟩]
    dsimp only
    rw [parseHeaderLines_intercalate _ _ hunbroken hend,
      (acceptLines_eq_ok_iff _ _ _).2 ⟨fields, rfl, htoks, hdup, rfl⟩]
    dsimp only
    rw [hframe]

end Head

section Requests

/-- A complete request at the front of a buffer, and the bytes behind it. -/
structure CompleteRequest (maxHeaderBytes maxBodyBytes : Nat) (buffer : Bytes)
    (line : RequestLine) (fields : List (Bytes × Bytes)) (body rest : Bytes) : Prop where
  intro ::
  cut : ∃ block,
    buffer = block ++ crlfcrlf ++ body ++ rest ∧
    FirstAt crlfcrlf buffer block.length ∧
    block.length ≤ maxHeaderBytes ∧
    HeadGrammar maxBodyBytes block line fields body.length

/-- The front of a buffer may still become a complete request. -/
inductive IncompleteRequest (maxHeaderBytes maxBodyBytes : Nat) (buffer : Bytes) : Prop
  | head
      (hopen : ¬ crlfcrlf <:+: buffer)
      (hshort : buffer.length ≤ maxHeaderBytes)
  | body
      {block tail : Bytes}
      {line : RequestLine}
      {fields : List (Bytes × Bytes)}
      {length : Nat}
      (hcut : buffer = block ++ crlfcrlf ++ tail)
      (hfirst : FirstAt crlfcrlf buffer block.length)
      (hshort : block.length ≤ maxHeaderBytes)
      (hhead : HeadGrammar maxBodyBytes block line fields length)
      (hmissing : tail.length < length)

/-- The block in front of the first blank line does not end in CRLF. -/
theorem not_crlf_suffix_take
    {buffer : Bytes}
    {headerEnd : Nat}
    (hfirst : FirstAt crlfcrlf buffer headerEnd) :
    ¬ crlf <:+ buffer.take headerEnd := by
  rintro ⟨front, hfront⟩
  have hle := hfirst.add_length_le
  have hlen : front.length + 2 = headerEnd := by
    have htake := congrArg List.length hfront
    rw [List.length_append, List.length_take] at htake
    simp only [crlf, crlfcrlf, List.length_cons, List.length_nil] at htake hle
    omega
  refine hfirst.first front.length (by omega) ?_
  have hcut := hfirst.eq_take_append
  rw [← hfront] at hcut
  rw [hcut]
  have hassoc : front ++ crlf ++ crlfcrlf ++ buffer.drop (headerEnd + crlfcrlf.length) =
      front ++ (crlfcrlf ++ (crlf ++ buffer.drop (headerEnd + crlfcrlf.length))) := by
    simp [crlf, crlfcrlf]
  rw [hassoc, List.drop_left]
  exact List.prefix_append _ _

/-- The bytes behind a cut, as the parser addresses them. -/
theorem cut_at_headerEnd
    {buffer : Bytes}
    {headerEnd : Nat}
    (hfind : find crlfcrlf buffer = some headerEnd) :
    buffer = buffer.take headerEnd ++ crlfcrlf ++ buffer.drop (headerEnd + 4) ∧
      (buffer.take headerEnd).length = headerEnd := by
  have hfirst := (find_eq_some_iff _ _ _).1 hfind
  have hroom := HttpParser.headerEnd_add_four_le hfind
  refine ⟨by simpa [crlfcrlf] using hfirst.eq_take_append, ?_⟩
  rw [List.length_take]
  omega

theorem find_of_cut
    {buffer block tail : Bytes}
    (hcut : buffer = block ++ crlfcrlf ++ tail)
    (hfirst : FirstAt crlfcrlf buffer block.length) :
    find crlfcrlf buffer = some block.length ∧
      buffer.take block.length = block ∧
      buffer.drop (block.length + 4) = tail := by
  refine ⟨(find_eq_some_iff _ _ _).2 hfirst, ?_, ?_⟩
  · rw [hcut, List.append_assoc, List.take_left]
  · have hlen : (block ++ crlfcrlf).length = block.length + 4 := by simp [crlfcrlf]
    rw [hcut, ← hlen, List.drop_left]

/-- A header block of the grammar in front of the first blank line is understood. -/
theorem parseHead_of_grammar
    {buffer block tail : Bytes}
    {line : RequestLine}
    {fields : List (Bytes × Bytes)}
    {maxBodyBytes n : Nat}
    (hcut : buffer = block ++ crlfcrlf ++ tail)
    (hfirst : FirstAt crlfcrlf buffer block.length)
    (hhead : HeadGrammar maxBodyBytes block line fields n) :
    parseHead maxBodyBytes block = .ok (line.start.addFields fields, n) := by
  have hend := not_crlf_suffix_take hfirst
  rw [(find_of_cut hcut hfirst).2.1] at hend
  exact (parseHead_eq_ok_iff _ _ hend _ _).2 ⟨line, fields, hhead, rfl⟩

namespace HttpParser

variable (parser : HttpParser)

/-- A complete request is returned as it was written and removed from the buffer. -/
theorem next_of_complete
    {line : RequestLine}
    {fields : List (Bytes × Bytes)}
    {body rest : Bytes}
    (h : CompleteRequest parser.maxHeaderBytes parser.maxBodyBytes parser.buffer
      line fields body rest) :
    parser.next =
      (requestReady { line.start.addFields fields with body := body },
        { parser with buffer := rest }) := by
  obtain ⟨block, hcut, hfirst, hshort, hhead⟩ := h.cut
  have hcut' : parser.buffer = block ++ crlfcrlf ++ (body ++ rest) := by
    rw [hcut]
    simp
  have hok := parseHead_of_grammar hcut' hfirst hhead
  obtain ⟨hfind, htake, hdrop⟩ := find_of_cut hcut' hfirst
  have hlen : parser.buffer.length = block.length + 4 + (body.length + rest.length) := by
    rw [hcut']
    simp [crlfcrlf]
    omega
  have hrest : parser.buffer.drop (block.length + 4 + body.length) = rest := by
    rw [← List.drop_drop, hdrop, List.drop_left]
  unfold next
  rw [hfind]
  dsimp only
  rw [if_neg (by omega), htake, hok]
  dsimp only
  rw [if_neg (by omega), hdrop, hrest, List.take_left]

theorem next_of_incomplete
    (h : IncompleteRequest parser.maxHeaderBytes parser.maxBodyBytes parser.buffer) :
    parser.next = (needMoreData, parser) := by
  unfold next
  cases h with
  | head hopen hshort =>
      rw [(find_eq_none_iff _ _).2 hopen]
      dsimp only
      rw [if_neg (by omega)]
  | @body block tail line fields length hcut hfirst hshort hhead hmissing =>
      have hok := parseHead_of_grammar hcut hfirst hhead
      obtain ⟨hfind, htake, _⟩ := find_of_cut hcut hfirst
      have hlen : parser.buffer.length = block.length + 4 + tail.length := by
        rw [hcut]
        simp [crlfcrlf]
        omega
      rw [hfind]
      dsimp only
      rw [if_neg (by omega), htake, hok]
      dsimp only
      rw [if_pos (by omega)]

/-- Every answer that is not an error is one of the two above. -/
theorem complete_or_incomplete_of_ne_error
    (h : parser.next.1.status ≠ .error) :
    (∃ line fields body rest,
        CompleteRequest parser.maxHeaderBytes parser.maxBodyBytes parser.buffer
          line fields body rest) ∨
      IncompleteRequest parser.maxHeaderBytes parser.maxBodyBytes parser.buffer := by
  generalize hnext : parser.next = answer at h
  have hview := hnext ▸ parser.next_view
  cases hview with
  | unterminated => exact absurd rfl h
  | tooLong => exact absurd rfl h
  | refused => exact absurd rfl h
  | waiting hfind hshort =>
      exact Or.inr (.head ((find_eq_none_iff _ _).1 hfind) hshort)
  | @bodyMissing headerEnd n request hfind hshort hhead hbody =>
      have hfirst := (find_eq_some_iff _ _ _).1 hfind
      obtain ⟨hcut, hlen⟩ := cut_at_headerEnd hfind
      obtain ⟨line, fields, hgrammar, _⟩ :=
        (parseHead_eq_ok_iff _ _ (not_crlf_suffix_take hfirst) _ _).1 hhead
      refine Or.inr (.body hcut (hlen.symm ▸ hfirst) (by omega) hgrammar ?_)
      rw [List.length_drop]
      have hroom := headerEnd_add_four_le hfind
      omega
  | @ready headerEnd n request hfind hshort hhead hbody =>
      have hfirst := (find_eq_some_iff _ _ _).1 hfind
      obtain ⟨hcut, hlen⟩ := cut_at_headerEnd hfind
      obtain ⟨line, fields, hgrammar, _⟩ :=
        (parseHead_eq_ok_iff _ _ (not_crlf_suffix_take hfirst) _ _).1 hhead
      have hbodyLen : ((parser.buffer.drop (headerEnd + 4)).take n).length = n := by
        rw [List.length_take, List.length_drop]
        omega
      refine Or.inl ⟨line, fields, (parser.buffer.drop (headerEnd + 4)).take n,
        (parser.buffer.drop (headerEnd + 4)).drop n, ⟨parser.buffer.take headerEnd, ?_, ?_, ?_, ?_⟩⟩
      · rw [List.append_assoc, List.take_append_drop]
        exact hcut
      · exact hlen.symm ▸ hfirst
      · omega
      · rw [hbodyLen]
        exact hgrammar

/-- An answer with a request comes from a complete request. -/
theorem complete_of_requestReady
    (h : parser.next.1.status = .requestReady) :
    ∃ line fields body rest,
      CompleteRequest parser.maxHeaderBytes parser.maxBodyBytes parser.buffer
        line fields body rest := by
  rcases parser.complete_or_incomplete_of_ne_error (by simp [h]) with hcomplete | hincomplete
  · exact hcomplete
  · rw [parser.next_of_incomplete hincomplete] at h
    cases h

/-- A parser that asks for more data holds less than a request at the limits. -/
theorem bufferedBytes_le_of_needMoreData
    (h : parser.next.1.status = .needMoreData) :
    parser.bufferedBytes ≤ parser.maxHeaderBytes + parser.maxBodyBytes + 3 := by
  rcases parser.complete_or_incomplete_of_ne_error (by simp [h]) with hcomplete | hincomplete
  · obtain ⟨line, fields, body, rest, hrequest⟩ := hcomplete
    rw [parser.next_of_complete hrequest] at h
    cases h
  · unfold bufferedBytes
    cases hincomplete with
    | head _ hshort => omega
    | body hcut _ hshort hhead hmissing =>
        have hlength := hhead.bodyLength.le
        rw [hcut]
        simp only [List.length_append, crlfcrlf, List.length_cons, List.length_nil]
        omega

/--
The parser accepts exactly its grammar and cuts requests exactly: it returns a
request if and only if the buffer starts with a complete one, which it then
returns as written and removes; it asks for more data if and only if the buffer
may still become one; and it refuses everything else.  Only the first answer
changes the buffer.
-/
theorem next_accepts_exactly_grammar :
    (parser.next.1.status = .requestReady
      ↔
    ∃ line fields body rest,
      CompleteRequest parser.maxHeaderBytes parser.maxBodyBytes parser.buffer
        line fields body rest) ∧
    (∀ line fields body rest,
      CompleteRequest parser.maxHeaderBytes parser.maxBodyBytes parser.buffer
        line fields body rest →
      ∃ request, parser.next = (requestReady request, { parser with buffer := rest }) ∧
        request.method = line.method ∧ request.target = line.target ∧
        request.version = line.version ∧ request.body = body) ∧
    (parser.next.1.status = .needMoreData
      ↔
    IncompleteRequest parser.maxHeaderBytes parser.maxBodyBytes parser.buffer) ∧
    (parser.next.1.status = .error
      ↔
    (¬ ∃ line fields body rest,
      CompleteRequest parser.maxHeaderBytes parser.maxBodyBytes parser.buffer
        line fields body rest) ∧
    ¬ IncompleteRequest parser.maxHeaderBytes parser.maxBodyBytes parser.buffer) ∧
    (parser.next.1.status ≠ .requestReady →
      parser.next.1.request = none ∧ parser.next.2 = parser) := by
  have hcomplete : (∃ line fields body rest,
      CompleteRequest parser.maxHeaderBytes parser.maxBodyBytes parser.buffer
        line fields body rest) → parser.next.1.status = .requestReady := by
    rintro ⟨line, fields, body, rest, h⟩
    rw [parser.next_of_complete h]
    rfl
  have hincomplete : IncompleteRequest parser.maxHeaderBytes parser.maxBodyBytes
      parser.buffer → parser.next.1.status = .needMoreData := by
    intro h
    rw [parser.next_of_incomplete h]
    rfl
  refine ⟨⟨parser.complete_of_requestReady, hcomplete⟩, ?_, ⟨?_, hincomplete⟩, ⟨?_, ?_⟩, ?_⟩
  · intro line fields body rest h
    have hline := addFields_requestLine line.start fields
    exact ⟨_, parser.next_of_complete h, hline.1, hline.2.1, hline.2.2, rfl⟩
  · intro hstatus
    rcases parser.complete_or_incomplete_of_ne_error (by simp [hstatus]) with h | h
    · rw [hcomplete h] at hstatus
      cases hstatus
    · exact h
  · intro hstatus
    refine ⟨fun h => ?_, fun h => ?_⟩
    · rw [hcomplete h] at hstatus
      cases hstatus
    · rw [hincomplete h] at hstatus
      cases hstatus
  · rintro ⟨hnc, hni⟩
    by_contra hstatus
    rcases parser.complete_or_incomplete_of_ne_error hstatus with h | h
    · exact hnc h
    · exact hni h
  · intro hstatus
    have hnone := parser.next_request_eq_none_iff.2 hstatus
    exact ⟨hnone, parser.next_snd_of_request_none hnone⟩

end HttpParser

end Requests

end HttpServer
