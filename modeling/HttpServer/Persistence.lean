import HttpServer.Connection

/-!
# The persistence of a connection

The parser joins the values of repeated `Connection` lines into one string; the
connection cuts that string at its commas and decides whether to stay open.  The
lines as they were written decide the same:

* `listElements_join`: joining values and cutting them again gives the elements of
  the values, the empty ones included;
* `hasConnectionToken_iff`, `shouldKeepAlive_iff`: the two tests of the connection,
  on the lines.
-/

namespace HttpServer

open Occurrence

section Elements

/-- The elements of a comma-separated value, without the white space around them. -/
def listElements (value : Bytes) : List Bytes :=
  (value.splitOn 44).map trimOws

theorem listElements_append
    (front back : Bytes) :
    listElements (front ++ 44 :: back) = listElements front ++ listElements back := by
  unfold listElements List.splitOn
  rw [List.splitOnP_append_cons _ _ (by simp), List.map_append]

theorem listElements_of_not_mem
    {value : Bytes}
    (h : 44 ∉ value) :
    listElements value = [trimOws value] := by
  have hsingle : value.splitOn 44 = [value] := by
    refine List.splitOnP_eq_singleton (fun ch hch => ?_)
    simp only [beq_eq_false_iff_ne]
    rintro rfl
    exact h hch
  rw [listElements, hsingle, List.map_singleton]

theorem trimOws_cons
    {ch : UInt8}
    (h : isOws ch = true)
    (input : Bytes) :
    trimOws (ch :: input) = trimOws input := by
  rw [trimOws, List.dropWhile_cons_of_pos h, trimOws]

theorem trimOws_concat
    {ch : UInt8}
    (h : isOws ch = true)
    (input : Bytes) :
    trimOws (input ++ [ch]) = trimOws input := by
  unfold trimOws
  rw [List.dropWhile_append]
  split_ifs with hempty
  · rw [List.isEmpty_iff.1 hempty, List.dropWhile_cons_of_pos h]
    rfl
  · rw [List.rdropWhile_concat, if_pos h]

/-- White space in front of a value belongs to no element. -/
theorem listElements_cons
    {ch : UInt8}
    (h : isOws ch = true)
    (value : Bytes) :
    listElements (ch :: value) = listElements value := by
  have hch : (44 : UInt8) ≠ ch := by
    rintro rfl
    cases h
  by_cases hcomma : 44 ∈ value
  · obtain ⟨front, back, rfl, hfront⟩ := List.eq_append_cons_of_mem hcomma
    have hfront' : 44 ∉ ch :: front := by simp [hch, hfront]
    rw [← List.cons_append, listElements_append, listElements_append,
      listElements_of_not_mem hfront, listElements_of_not_mem hfront', trimOws_cons h]
  · rw [listElements_of_not_mem hcomma, listElements_of_not_mem (by simp [hch, hcomma]),
      trimOws_cons h]

/-- White space behind a value belongs to no element. -/
theorem listElements_concat
    {ch : UInt8}
    (h : isOws ch = true)
    (value : Bytes) :
    listElements (value ++ [ch]) = listElements value := by
  have hch : (44 : UInt8) ≠ ch := by
    rintro rfl
    cases h
  induction hlen : value.length using Nat.strong_induction_on generalizing value with
  | _ n ih =>
      by_cases hcomma : 44 ∈ value
      · obtain ⟨front, back, rfl, _⟩ := List.eq_append_cons_of_mem hcomma
        have hback : back.length < n := by
          rw [← hlen, List.length_append, List.length_cons]
          omega
        rw [List.append_assoc, List.cons_append, listElements_append, listElements_append,
          ih _ hback back rfl]
      · rw [listElements_of_not_mem hcomma, listElements_of_not_mem (by simp [hch, hcomma]),
          trimOws_concat h]

/-- Trimming a value changes none of its elements. -/
theorem listElements_trimOws
    (value : Bytes) :
    listElements (trimOws value) = listElements value := by
  have hback : ∀ v, listElements (v.rdropWhile isOws) = listElements v := by
    intro v
    induction v using List.reverseRecOn with
    | nil => rfl
    | append_singleton v ch ih =>
        rw [List.rdropWhile_concat]
        split_ifs with hch
        · rw [ih, listElements_concat hch]
        · rfl
  have hfront : ∀ v, listElements (v.dropWhile isOws) = listElements v := by
    intro v
    induction v with
    | nil => rfl
    | cons ch v ih =>
        rw [List.dropWhile_cons]
        split_ifs with hch
        · rw [ih, listElements_cons hch]
        · rfl
  rw [trimOws, hback, hfront]

/-- Joining values and cutting them again gives the elements of the values. -/
theorem listElements_join
    (value : Bytes)
    (values : List Bytes) :
    listElements (List.intercalate (ascii ", ") (value :: values)) =
      (value :: values).flatMap listElements := by
  have hsep : ascii ", " = [44, 32] := by decide
  rw [hsep]
  induction values generalizing value with
  | nil => simp
  | cons next values ih =>
      rw [List.intercalate_cons_cons, List.append_assoc, List.cons_append, listElements_append,
        List.singleton_append, listElements_cons (by decide), ih next]
      rfl

theorem asciiIequals_iff
    (left right : Bytes) :
    asciiIequals left right = true ↔ toLowerAscii left = toLowerAscii right := by
  induction left generalizing right with
  | nil => cases right <;> simp [asciiIequals, toLowerAscii]
  | cons ch left ih =>
      cases right with
      | nil => simp [asciiIequals, toLowerAscii]
      | cons ch' right =>
          have hrest := ih right
          simp only [asciiIequals, toLowerAscii, Bool.and_eq_true, beq_iff_eq] at hrest
          simp only [asciiIequals, toLowerAscii, List.length_cons, List.zip_cons_cons,
            List.all_cons, List.map_cons, Bool.and_eq_true, beq_iff_eq, List.cons.injEq,
            Nat.add_right_cancel_iff]
          rw [← hrest]
          exact and_left_comm

/-- The loop over the commas looks at every element. -/
theorem connectionTokenLoop_iff
    (token : Bytes)
    {rounds : Nat}
    {value : Bytes}
    (hrounds : value.length < rounds) :
    connectionTokenLoop token rounds value = true ↔
      ∃ element ∈ listElements value, toLowerAscii element = toLowerAscii token := by
  induction rounds generalizing value with
  | zero => cases hrounds
  | succ rounds ih =>
      rw [connectionTokenLoop]
      cases hfind : find [44] value with
      | none =>
          have hcomma := (find_singleton_eq_none_iff 44 value).1 hfind
          simp [listElements_of_not_mem hcomma, asciiIequals_iff]
      | some comma =>
          obtain ⟨front, back, rfl, hfront, rfl⟩ :=
            (find_singleton_eq_some_iff 44 value comma).1 hfind
          have hback : back.length < rounds := by
            rw [List.length_append, List.length_cons] at hrounds
            omega
          have hdrop : (front ++ 44 :: back).drop (front.length + 1) = back := by simp
          simp only [hdrop, List.take_left, Bool.or_eq_true, asciiIequals_iff, ih hback,
            listElements_append, listElements_of_not_mem hfront, List.mem_append,
            List.mem_singleton, or_and_right, exists_or, exists_eq_left]

end Elements

section Lines

/-- Some `Connection` line has the token among its elements, in any letter case. -/
def HasElement (fields : List (Bytes × Bytes)) (token : Bytes) : Prop :=
  ∃ f ∈ fields, toLowerAscii f.1 = ascii "connection" ∧
    ∃ element ∈ listElements f.2, toLowerAscii element = toLowerAscii token

/-- The test for a token is a test of the lines as they were written. -/
theorem hasConnectionToken_iff
    {request : HttpRequest}
    {fields : List (Bytes × Bytes)}
    (h : request.headers.find (ascii "connection") =
      joinValues (valuesOf (ascii "connection") fields))
    (token : Bytes) :
    hasConnectionToken request token = true ↔ HasElement fields token := by
  have hlines : HasElement fields token ↔
      ∃ value ∈ valuesOf (ascii "connection") fields, ∃ element ∈ listElements value,
        toLowerAscii element = toLowerAscii token := by
    simp [HasElement, valuesOf, listElements_trimOws, and_assoc]
  rw [hlines]
  unfold hasConnectionToken
  rw [h]
  cases valuesOf (ascii "connection") fields with
  | nil => simp [joinValues]
  | cons value values =>
      simp only [joinValues, connectionTokenLoop_iff token (Nat.lt_succ_self _),
        listElements_join, List.mem_flatMap]
      constructor
      · rintro ⟨element, ⟨v, hv, helement⟩, heq⟩
        exact ⟨v, hv, element, helement, heq⟩
      · rintro ⟨v, hv, element, helement, heq⟩
        exact ⟨element, ⟨v, hv, helement⟩, heq⟩

/-- The decision to keep a connection, on the lines as they were written. -/
theorem shouldKeepAlive_iff
    {request : HttpRequest}
    {fields : List (Bytes × Bytes)}
    (h : request.headers.find (ascii "connection") =
      joinValues (valuesOf (ascii "connection") fields))
    (hversion : request.version = ascii "HTTP/1.1" ∨ request.version = ascii "HTTP/1.0") :
    shouldKeepAlive request = true ↔
      ¬ HasElement fields (ascii "close") ∧
        (request.version = ascii "HTTP/1.1" ∨ HasElement fields (ascii "keep-alive")) := by
  rw [← hasConnectionToken_iff h, ← hasConnectionToken_iff h]
  unfold shouldKeepAlive
  have hne : ascii "HTTP/1.0" ≠ ascii "HTTP/1.1" := by decide
  cases hasConnectionToken request (ascii "close") with
  | true => simp
  | false => rcases hversion with hversion | hversion <;> simp [hversion, hne]

end Lines

section Emitted

/--
What the server makes of header lines: the list of fields, the table, the tests for
a token and the decision to keep the connection.
-/
structure FollowsLines (request : HttpRequest) (line : RequestLine)
    (fields : List (Bytes × Bytes)) : Prop where
  listed : request.headerFields = fields.map storedField
  absent : ∀ name, valuesOf name fields = [] → request.headers.find name = none
  single : ∀ name, name ≠ ascii "connection" → ∀ value ∈ valuesOf name fields,
    valuesOf name fields = [value] ∧ request.headers.find name = some value
  joined : valuesOf (ascii "connection") fields ≠ [] →
    request.headers.find (ascii "connection") =
      some (List.intercalate (ascii ", ") (valuesOf (ascii "connection") fields))
  token : ∀ token, hasConnectionToken request token = true ↔ HasElement fields token
  keepAlive : shouldKeepAlive request = true ↔
    ¬ HasElement fields (ascii "close") ∧
      (line.version = ascii "HTTP/1.1" ∨ HasElement fields (ascii "keep-alive"))

theorem followsLines_of_grammar
    {maxBodyBytes length : Nat}
    {block : Bytes}
    {line : RequestLine}
    {fields : List (Bytes × Bytes)}
    (h : HeadGrammar maxBodyBytes block line fields length)
    (body : Bytes) :
    FollowsLines { line.start.addFields fields with body := body } line fields := by
  have hfind := find_addFields line fields
  have hconnection : ({ line.start.addFields fields with body := body } : HttpRequest).headers.find
      (ascii "connection") = joinValues (valuesOf (ascii "connection") fields) := hfind _
  have hversion : (line.start.addFields fields).version = line.version :=
    (addFields_requestLine line.start fields).2.2
  refine ⟨?_, ?_, ?_, ?_, ?_, ?_⟩
  · exact headerFields_addFields line.start fields
  · intro name hnone
    exact (hfind name).trans (by rw [hnone, joinValues])
  · intro name hname value hvalue
    have hsingle := valuesOf_eq_singleton h.distinct hname hvalue
    exact ⟨hsingle, (hfind name).trans (by rw [hsingle, joinValues, List.intercalate_singleton])⟩
  · intro hne
    obtain ⟨value, values, hcons⟩ := List.exists_cons_of_ne_nil hne
    exact (hfind _).trans (by rw [hcons, joinValues])
  · exact hasConnectionToken_iff hconnection
  · have hkeep := shouldKeepAlive_iff hconnection
      (by simpa only [hversion] using h.requestLine.version)
    simpa only [hversion] using hkeep

/--
A request that the parser emits comes from a complete request in front of the
buffer, and however the buffer is read as one, its header lines decide the fields of
the request, its table, the tests for connection tokens and the persistence.
-/
theorem persistence_follows_lines
    {parser : HttpParser}
    {request : HttpRequest}
    (h : parser.next.1.request = some request) :
    (∃ line fields body rest, CompleteRequest parser.maxHeaderBytes parser.maxBodyBytes
        parser.buffer line fields body rest) ∧
      ∀ line fields body rest, CompleteRequest parser.maxHeaderBytes parser.maxBodyBytes
          parser.buffer line fields body rest →
        FollowsLines request line fields := by
  obtain ⟨line, fields, body, rest, hcomplete, _⟩ := complete_of_next_some h
  refine ⟨⟨line, fields, body, rest, hcomplete⟩, ?_⟩
  intro line fields body rest hcomplete
  have hnext := parser.next_of_complete hcomplete
  rw [hnext] at h
  obtain rfl := Option.some.inj h
  obtain ⟨_, _, _, _, hhead⟩ := hcomplete.cut
  exact followsLines_of_grammar hhead body

/-- Two lines in different letter case, with an empty element between their values. -/
theorem persistence_follows_lines_joined :
    ∃ request line fields,
      (parserAt 100 0 (ascii "GET / HTTP/1.0\r\nConnection: Foo,\r\n" ++
        ascii "CONNECTION:\tKeep-Alive \r\n\r\n")).next.1.request = some request ∧
      FollowsLines request line fields ∧
      shouldKeepAlive request = true := by
  have hemitted : (parserAt 100 0 (ascii "GET / HTTP/1.0\r\nConnection: Foo,\r\n" ++
      ascii "CONNECTION:\tKeep-Alive \r\n\r\n")).next.1.request = some _ := rfl
  obtain ⟨⟨line, fields, body, rest, hcomplete⟩, hlines⟩ := persistence_follows_lines hemitted
  exact ⟨_, line, fields, hemitted, hlines line fields body rest hcomplete, by decide +kernel⟩

end Emitted

end HttpServer
