import HttpServer.TargetDecoding

/-!
# The normal form of a request

A request that the parser has returned can be written down again from its fields
alone: names in lower case, values without the white space around them, in the
order of `header_fields`.  This text is the normal form of the bytes it came from.

* `HttpRequest.bytes`: the text;
* `headerSection_map_normalField`: a header section stays one in normal form;
* `next_bytes_of_some`: the parser reads the text as the request it came from, and
  nothing behind it;
* `drain_normalForm`: so does a whole stream.  What stands behind the normal forms
  is read as if it stood alone, so that a second parser sees neither more nor fewer
  requests than the first.
-/

namespace HttpServer

open Occurrence

section Fields

theorem toNat_tolower_of_upper
    {ch : UInt8}
    (h : 65 ≤ ch ∧ ch ≤ 90) :
    (tolower ch).toNat = ch.toNat + 32 := by
  have hle : ch.toNat ≤ 90 := UInt8.le_iff_toNat_le.1 h.2
  rw [tolower, if_pos h, UInt8.toNat_add]
  change (ch.toNat + 32) % 256 = ch.toNat + 32
  omega

theorem tolower_of_not_upper
    {ch : UInt8}
    (h : ¬ (65 ≤ ch ∧ ch ≤ 90)) :
    tolower ch = ch := by
  rw [tolower, if_neg h]

@[simp] theorem tolower_tolower
    (ch : UInt8) :
    tolower (tolower ch) = tolower ch := by
  by_cases hupper : 65 ≤ ch ∧ ch ≤ 90
  · refine tolower_of_not_upper ?_
    rintro ⟨_, hle⟩
    have hle' := UInt8.le_iff_toNat_le.1 hle
    have hge := UInt8.le_iff_toNat_le.1 hupper.1
    rw [toNat_tolower_of_upper hupper] at hle'
    change ch.toNat + 32 ≤ 90 at hle'
    change 65 ≤ ch.toNat at hge
    omega
  · rw [tolower_of_not_upper hupper, tolower_of_not_upper hupper]

@[simp] theorem toLowerAscii_toLowerAscii
    (input : Bytes) :
    toLowerAscii (toLowerAscii input) = toLowerAscii input := by
  simp [toLowerAscii]

theorem isTchar_tolower
    {ch : UInt8}
    (h : isTchar ch = true) :
    isTchar (tolower ch) = true := by
  by_cases hupper : 65 ≤ ch ∧ ch ≤ 90
  · -- a capital becomes a small letter
    have hnat := toNat_tolower_of_upper hupper
    have hge : 65 ≤ ch.toNat := UInt8.le_iff_toNat_le.1 hupper.1
    have hle : ch.toNat ≤ 90 := UInt8.le_iff_toNat_le.1 hupper.2
    have hlower : 97 ≤ tolower ch ∧ tolower ch ≤ 122 := by
      rw [UInt8.le_iff_toNat_le, UInt8.le_iff_toNat_le, hnat]
      change 97 ≤ ch.toNat + 32 ∧ ch.toNat + 32 ≤ 122
      omega
    simp [isTchar, isalnum, hlower]
  · rwa [tolower_of_not_upper hupper]

theorem Token.toLowerAscii
    {name : Bytes}
    (h : Token name) :
    Token (toLowerAscii name) := by
  refine ⟨by simpa [HttpServer.toLowerAscii] using h.1, ?_⟩
  intro ch hch
  obtain ⟨original, hmem, rfl⟩ := List.mem_map.1 hch
  exact isTchar_tolower (h.2 original hmem)

theorem infix_trimOws
    (input : Bytes) :
    trimOws input <:+: input := by
  have hback := List.rdropWhile_prefix isOws (input.dropWhile isOws)
  exact hback.isInfix.trans (List.dropWhile_suffix isOws).isInfix

/-- A written field in normal form. -/
def normalField (field : Bytes × Bytes) : Bytes × Bytes :=
  (toLowerAscii field.1, trimOws field.2)

@[simp] theorem storedField_normalField
    (field : Bytes × Bytes) :
    storedField (normalField field) = storedField field := by
  simp [storedField, normalField]

/-- The parser stores the same for the normal form. -/
theorem addFields_map_normalField
    (request : HttpRequest)
    (fields : List (Bytes × Bytes)) :
    request.addFields (fields.map normalField) = request.addFields fields := by
  simp [HttpRequest.addFields, List.foldl_map]

theorem length_fieldLine_normalField_le
    (field : Bytes × Bytes) :
    (fieldLine (normalField field)).length ≤ (fieldLine field).length := by
  have hvalue := (infix_trimOws field.2).length_le
  simp only [fieldLine, normalField, toLowerAscii, List.length_append, List.length_map,
    List.length_cons]
  omega

/-- A line terminator of the normal form would have stood in the value. -/
theorem unbroken_normalField
    {field : Bytes × Bytes}
    (hname : Token field.1)
    (h : ¬ crlf <:+: fieldLine field) :
    ¬ crlf <:+: fieldLine (normalField field) := by
  intro hbroken
  have hfront : (13 : UInt8) ∉ toLowerAscii field.1 ++ [58] := by
    rw [List.mem_append, List.mem_singleton, not_or]
    exact ⟨hname.toLowerAscii.not_mem (by decide), by decide⟩
  have hcut : fieldLine (normalField field) =
      (toLowerAscii field.1 ++ [58]) ++ trimOws field.2 := by
    simp [fieldLine, normalField]
  rw [hcut] at hbroken
  have hvalue : crlf <:+: field.2 :=
    (infix_of_infix_append hfront hbroken).trans (infix_trimOws field.2)
  refine h (hvalue.trans ?_)
  exact (List.suffix_append (field.1 ++ [58]) field.2).isInfix.trans
    (by simp [fieldLine])

theorem hostLine_map_normalField
    {version : Bytes}
    {fields : List (Bytes × Bytes)}
    (h : HostLine version fields) :
    HostLine version (fields.map normalField) := by
  intro hversion
  obtain ⟨field, hfield, hname, ch, hch, hprinted⟩ := h hversion
  refine ⟨normalField field, List.mem_map_of_mem hfield, by simpa [normalField] using hname, ?_⟩
  -- a value of white space only would have been trimmed to nothing
  have hne : trimOws field.2 ≠ [] := by
    intro hnil
    rw [(trimOws_eq_nil_iff _).1 hnil ch hch] at hprinted
    cases hprinted
  have hnot : ¬ ∀ c ∈ trimOws field.2, isOws c = true := by
    rw [← trimOws_eq_nil_iff, trimOws_trimOws]
    exact hne
  push Not at hnot
  simpa [normalField] using hnot

theorem bodyLength_map_normalField
    {maxBodyBytes length : Nat}
    {fields : List (Bytes × Bytes)}
    (h : BodyLength maxBodyBytes fields length) :
    BodyLength maxBodyBytes (fields.map normalField) length := by
  rcases h with ⟨field, hfield, hname, hvalue⟩ | ⟨hfree, hzero⟩
  · refine Or.inl ⟨normalField field, List.mem_map_of_mem hfield, ?_, ?_⟩
    · simpa [normalField] using hname
    · exact (lengthValue_trimOws_iff _ _ _).2 hvalue
  · refine Or.inr ⟨?_, hzero⟩
    intro f hf
    obtain ⟨field, hfield, rfl⟩ := List.mem_map.1 hf
    simpa [normalField] using hfree field hfield

/-- The normal form of an accepted header section is an accepted header section. -/
theorem headerSection_map_normalField
    {maxBodyBytes length : Nat}
    {block : Bytes}
    {line : RequestLine}
    {fields : List (Bytes × Bytes)}
    (h : HeadGrammar maxBodyBytes block line fields length) :
    HeaderSection maxBodyBytes line.version (fields.map normalField) length where
  unbroken := by
    intro f hf
    obtain ⟨field, hfield, rfl⟩ := List.mem_map.1 hf
    refine unbroken_normalField (h.names field hfield) (h.unbroken _ ?_)
    exact List.mem_cons_of_mem _ (List.mem_map_of_mem hfield)
  names := by
    intro f hf
    obtain ⟨field, hfield, rfl⟩ := List.mem_map.1 hf
    exact (h.names field hfield).toLowerAscii
  distinct := by
    rw [List.pairwise_map]
    refine h.distinct.imp ?_
    intro f g hfg
    simpa [normalField] using hfg
  host := hostLine_map_normalField h.host
  noTransferEncoding := by
    intro f hf
    obtain ⟨field, hfield, rfl⟩ := List.mem_map.1 hf
    simpa [normalField] using h.noTransferEncoding field hfield
  bodyLength := bodyLength_map_normalField h.bodyLength

end Fields

section Requests

/-- The request line of a request. -/
def HttpRequest.line (request : HttpRequest) : RequestLine where
  method := request.method
  target := request.target
  version := request.version

/-- A request as it is written in normal form. -/
def HttpRequest.bytes (request : HttpRequest) : Bytes :=
  headerBlock request.line (request.headerFields.map (fun field => (field.name, field.value))) ++
    crlfcrlf ++ request.body

variable {maxHeaderBytes maxBodyBytes : Nat}

/-- The normal form of a parsed request, in terms of the lines it was parsed from. -/
theorem bytes_addFields
    (line : RequestLine)
    (fields : List (Bytes × Bytes))
    (body : Bytes) :
    ({ line.start.addFields fields with body := body } : HttpRequest).bytes =
      headerBlock line (fields.map normalField) ++ crlfcrlf ++ body := by
  obtain ⟨hmethod, htarget, hversion⟩ := addFields_requestLine line.start fields
  have hline : ({ line.start.addFields fields with body := body } : HttpRequest).line = line := by
    rw [HttpRequest.line, hmethod, htarget, hversion]
    rfl
  have hfields : (line.start.addFields fields).headerFields = fields.map storedField := by
    rw [headerFields_addFields]
    rfl
  rw [HttpRequest.bytes, hline, hfields, List.map_map]
  rfl

/-- The normal form of a complete request is complete, whatever stands behind it. -/
theorem CompleteRequest.normalForm
    {s rest : Bytes}
    {line : RequestLine}
    {fields : List (Bytes × Bytes)}
    {body : Bytes}
    (h : CompleteRequest maxHeaderBytes maxBodyBytes s line fields body rest)
    (behind : Bytes) :
    CompleteRequest maxHeaderBytes maxBodyBytes
      (headerBlock line (fields.map normalField) ++ crlfcrlf ++ body ++ behind)
      line (fields.map normalField) body behind := by
  obtain ⟨block, _, _, hshort, hhead⟩ := h.cut
  have hlength : (headerBlock line (fields.map normalField)).length ≤ block.length := by
    rw [hhead.cut, headerBlock, List.map_map]
    exact length_intercalate_map_le crlf
      (fun field _ => length_fieldLine_normalField_le field) le_rfl
  exact (headerSection_map_normalField hhead).complete hhead.requestLine
    (hhead.unbroken line.bytes List.mem_cons_self) (hlength.trans hshort) behind

/-- The parser reads the normal form of a request it returned as that request. -/
theorem next_bytes_of_some
    {s : Bytes}
    {request : HttpRequest}
    (h : (parserAt maxHeaderBytes maxBodyBytes s).next.1.request = some request)
    (behind : Bytes) :
    (parserAt maxHeaderBytes maxBodyBytes (request.bytes ++ behind)).next =
      (requestReady request, parserAt maxHeaderBytes maxBodyBytes behind) := by
  obtain ⟨line, fields, body, rest, hcomplete, rfl, _⟩ := complete_of_next_some h
  rw [bytes_addFields]
  have hnext := (parserAt maxHeaderBytes maxBodyBytes
    (headerBlock line (fields.map normalField) ++ crlfcrlf ++ body ++ behind)).next_of_complete
    (hcomplete.normalForm behind)
  rw [hnext, addFields_map_normalField]

/-- Requests that a drain returned, written in normal form in front of any bytes, are
returned again, and the bytes behind them are read as if they stood alone. -/
theorem drain_normalForm
    (s behind : Bytes) :
    (parserAt maxHeaderBytes maxBodyBytes
        ((parserAt maxHeaderBytes maxBodyBytes s).drain.requests.flatMap HttpRequest.bytes ++
          behind)).drain =
      (parserAt maxHeaderBytes maxBodyBytes behind).drain.prepend
        (parserAt maxHeaderBytes maxBodyBytes s).drain.requests := by
  -- on the length of the stream: every request takes bytes from it
  induction hn : s.length using Nat.strong_induction_on generalizing s with
  | _ n ih =>
      cases hrequest : (parserAt maxHeaderBytes maxBodyBytes s).next.1.request with
      | none =>
          rw [HttpParser.drain_of_none hrequest]
          simp [Drained.prepend]
      | some request =>
          obtain ⟨_, _, _, rest, _, _, hrest⟩ := complete_of_next_some hrequest
          have hshorter :=
            ((parserAt maxHeaderBytes maxBodyBytes s).next_of_request_some hrequest).2
          rw [hrest] at hshorter
          have htail := ih rest.length (by simp only at hshorter; omega) rest rfl
          rw [HttpParser.drain_of_some hrequest, hrest]
          simp only [Drained.prepend, List.singleton_append, List.flatMap_cons, List.append_assoc]
          have hfirst := next_bytes_of_some hrequest
            ((parserAt maxHeaderBytes maxBodyBytes rest).drain.requests.flatMap
              HttpRequest.bytes ++ behind)
          have hsome : (parserAt maxHeaderBytes maxBodyBytes (request.bytes ++
              ((parserAt maxHeaderBytes maxBodyBytes rest).drain.requests.flatMap
                HttpRequest.bytes ++ behind))).next.1.request = some request := by
            rw [hfirst]
            rfl
          rw [HttpParser.drain_of_some hsome, hfirst, htail]
          rfl

end Requests

end HttpServer
