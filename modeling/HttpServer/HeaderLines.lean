import HttpServer.Parser

/-!
# Request lines, header lines and framing

The lines of a header section, one by one and as a whole: which lines the parser
accepts, what it stores for them, and which of the stored fields it then tests.

* `parseRequestLine_eq_ok_iff`, `parseHeaderLine_eq_ok_iff`: the lines that are
  accepted, written by concatenation;
* `acceptLines_eq_ok_iff`: the loop accepts lists of fields without duplicates;
* `find_addFields`: under a name stand the values of its lines, joined;
* `checkFraming_eq_ok_iff`, `checkFraming_unsupported_iff`: the tests behind the
  loop, on the lines as they were written.
-/

namespace HttpServer

open Occurrence

section Lines

/-- A nonempty string of token characters. -/
def Token (input : Bytes) : Prop :=
  input ≠ [] ∧ ∀ ch ∈ input, isTchar ch = true

theorem isToken_eq_true_iff
    (input : Bytes) :
    isToken input = true ↔ Token input := by
  simp [isToken, Token]

theorem Token.not_mem
    {input : Bytes}
    (h : Token input)
    {ch : UInt8}
    (hch : isTchar ch = false) :
    ch ∉ input := by
  intro hmem
  rw [h.2 ch hmem] at hch
  cases hch

/-- A request line as it is written. -/
def RequestLine.bytes (line : RequestLine) : Bytes :=
  line.method ++ [32] ++ (line.target ++ [32] ++ line.version)

/-- The request lines of the grammar. -/
structure RequestLine.WellFormed (line : RequestLine) : Prop where
  method : Token line.method
  target : line.target.head? = some 47
  targetSpace : 32 ∉ line.target
  version : line.version = ascii "HTTP/1.1" ∨ line.version = ascii "HTTP/1.0"

theorem findFrom_append
    (pat front back : Bytes) :
    findFrom pat (front ++ back) front.length =
      (find pat back).map (· + front.length) := by
  unfold findFrom
  rw [if_pos (by simp), List.drop_left]

namespace RequestLine

theorem bytes_take_method
    (line : RequestLine) :
    line.bytes.take line.method.length = line.method := by
  rw [bytes, List.append_assoc, List.take_left]

theorem bytes_take_target
    (line : RequestLine) :
    (line.bytes.drop (line.method.length + 1)).take
        (line.target.length + (line.method.length + 1) - line.method.length - 1) =
      line.target := by
  have hlen : (line.method ++ [32]).length = line.method.length + 1 := by simp
  have hcut : line.target.length + (line.method.length + 1) - line.method.length - 1 =
      line.target.length := by omega
  rw [bytes, ← hlen, List.drop_left, hlen, hcut, List.append_assoc, List.take_left]

theorem bytes_eq_append_version
    (line : RequestLine) :
    ∃ front : Bytes,
      line.bytes = front ++ line.version ∧
      front.length = line.target.length + (line.method.length + 1) + 1 := by
  refine ⟨line.method ++ [32] ++ (line.target ++ [32]), by simp [bytes], ?_⟩
  simp
  omega

theorem bytes_drop_version
    (line : RequestLine) :
    line.bytes.drop (line.target.length + (line.method.length + 1) + 1) =
      line.version := by
  obtain ⟨front, hbytes, hlen⟩ := line.bytes_eq_append_version
  rw [hbytes, ← hlen, List.drop_left]

/-- Where the parser finds the second space. -/
theorem findFrom_target
    (line : RequestLine) :
    findFrom [32] line.bytes (line.method.length + 1) =
      (find [32] (line.target ++ [32] ++ line.version)).map
        (· + (line.method.length + 1)) := by
  have hlen : (line.method ++ [32]).length = line.method.length + 1 := by simp
  rw [bytes, ← hlen, findFrom_append]

theorem findFrom_version
    (line : RequestLine) :
    findFrom [32] line.bytes (line.target.length + (line.method.length + 1) + 1) =
      (find [32] line.version).map
        (· + (line.target.length + (line.method.length + 1) + 1)) := by
  obtain ⟨front, hbytes, hlen⟩ := line.bytes_eq_append_version
  rw [hbytes, ← hlen, findFrom_append]

theorem WellFormed.version_no_space
    {line : RequestLine}
    (h : line.WellFormed) :
    32 ∉ line.version := by
  rcases h.version with hv | hv <;> rw [hv] <;> decide

theorem WellFormed.parse
    {line : RequestLine}
    (h : line.WellFormed) :
    parseRequestLine line.bytes = .ok line := by
  have hfirst : find [32] line.bytes = some line.method.length :=
    (find_singleton_eq_some_iff _ _ _).2
      ⟨line.method, line.target ++ [32] ++ line.version, by simp [bytes],
        h.method.not_mem (by decide), rfl⟩
  have hsecond : findFrom [32] line.bytes (line.method.length + 1) =
      some (line.target.length + (line.method.length + 1)) := by
    rw [findFrom_target, (find_singleton_eq_some_iff _ _ line.target.length).2
      ⟨line.target, line.version, by simp, h.targetSpace, rfl⟩]
    rfl
  have hthird : findFrom [32] line.bytes
      (line.target.length + (line.method.length + 1) + 1) = none := by
    rw [findFrom_version, (find_singleton_eq_none_iff _ _).2 h.version_no_space]
    rfl
  have hmethod : line.method.length ≠ 0 := by
    simpa using h.method.1
  have htarget : line.target.length ≠ 0 := by
    intro hzero
    have hslash := h.target
    rw [List.eq_nil_of_length_eq_zero hzero] at hslash
    cases hslash
  have hgap : line.target.length + (line.method.length + 1) ≠ line.method.length + 1 := by
    omega
  have htok : isToken line.method = true := (isToken_eq_true_iff _).2 h.method
  unfold parseRequestLine
  simp only [hfirst, hsecond, hthird, bytes_take_method, bytes_take_target,
    bytes_drop_version, hmethod, hgap, if_false, htok, h.target]
  have hversion : ¬ (line.version ≠ ascii "HTTP/1.1" ∧ line.version ≠ ascii "HTTP/1.0") := by
    rintro ⟨h11, h10⟩
    exact h.version.elim h11 h10
  simp [hversion]

theorem wellFormed_of_parse
    {input : Bytes}
    {line : RequestLine}
    (h : parseRequestLine input = .ok line) :
    input = line.bytes ∧ line.WellFormed := by
  unfold parseRequestLine at h
  split at h
  · cases h
  · rename_i firstSpace hfirst
    split_ifs at h with hpos
    split at h
    · cases h
    · rename_i secondSpace hsecond
      split_ifs at h with hgap
      split at h
      · cases h
      · rename_i hthird
        dsimp only at h
        split_ifs at h with htok htarget hversion
        simp only [Except.ok.injEq] at h
        obtain ⟨method, rest, rfl, _, rfl⟩ := (find_singleton_eq_some_iff _ _ _).1 hfirst
        have hassoc : method ++ 32 :: rest = (method ++ [32]) ++ rest := by simp
        have hlen : (method ++ [32]).length = method.length + 1 := by simp
        rw [hassoc, ← hlen, findFrom_append] at hsecond
        obtain ⟨k, hk, hkeq⟩ := Option.map_eq_some_iff.mp hsecond
        obtain ⟨target, version, rfl, hspace, rfl⟩ := (find_singleton_eq_some_iff _ _ _).1 hk
        rw [hlen] at hkeq
        subst hkeq
        have hbytes : method ++ 32 :: (target ++ 32 :: version) =
            (RequestLine.mk method target version).bytes := by simp [bytes]
        have hm := (RequestLine.mk method target version).bytes_take_method
        have ht := (RequestLine.mk method target version).bytes_take_target
        have hv := (RequestLine.mk method target version).bytes_drop_version
        rw [hbytes] at h htok htarget hversion
        rw [hm] at h htok
        rw [ht] at h htarget
        rw [hv] at h hversion
        subst h
        refine ⟨hbytes, ?_, ?_, hspace, ?_⟩
        · rw [← isToken_eq_true_iff]
          simpa using htok
        · simpa using htarget
        · by_contra hcon
          exact hversion (not_or.mp hcon)

end RequestLine

/-- The request line parser accepts exactly the well-formed request lines. -/
theorem parseRequestLine_eq_ok_iff
    (input : Bytes)
    (line : RequestLine) :
    parseRequestLine input = .ok line
      ↔
    input = line.bytes ∧ line.WellFormed := by
  constructor
  · exact RequestLine.wellFormed_of_parse
  · rintro ⟨rfl, h⟩
    exact h.parse

/-- A header line as it is written. -/
def fieldLine (field : Bytes × Bytes) : Bytes :=
  field.1 ++ 58 :: field.2

/-- The field that the parser stores for a written name and value. -/
def storedField (field : Bytes × Bytes) : HeaderField where
  name := toLowerAscii field.1
  value := trimOws field.2

/-- The header line parser accepts exactly the lines `name ':' value`. -/
theorem parseHeaderLine_eq_ok_iff
    (line : Bytes)
    (stored : HeaderField) :
    parseHeaderLine line = .ok stored
      ↔
    ∃ field, line = fieldLine field ∧ Token field.1 ∧ stored = storedField field := by
  constructor
  · intro h
    unfold parseHeaderLine at h
    split at h
    · cases h
    · rename_i colon hcolon
      split_ifs at h with hpos hblank htok
      simp only [Except.ok.injEq] at h
      subst h
      obtain ⟨name, value, rfl, hfree, rfl⟩ := (find_singleton_eq_some_iff _ _ _).1 hcolon
      have hname : (name ++ 58 :: value).take name.length = name := by
        rw [List.take_left]
      have hvalue : (name ++ 58 :: value).drop (name.length + 1) = value := by
        rw [← List.drop_drop, List.drop_left]
        rfl
      rw [hname] at htok
      refine ⟨(name, value), rfl, ?_, ?_⟩
      · rw [← isToken_eq_true_iff]
        simpa using htok
      · rw [hname, hvalue]
        rfl
  · rintro ⟨⟨name, value⟩, rfl, htok, rfl⟩
    dsimp only at htok
    have hfind : find [58] (fieldLine (name, value)) = some name.length :=
      (find_singleton_eq_some_iff _ _ _).2
        ⟨name, value, rfl, htok.not_mem (by decide), rfl⟩
    have hpos : name.length ≠ 0 := by
      simpa using htok.1
    have hlast : (fieldLine (name, value)).getD (name.length - 1) 0 ∈ name := by
      have hlt : name.length - 1 < name.length := by omega
      rw [fieldLine, List.getD_eq_getElem?_getD, List.getElem?_append_left hlt,
        List.getElem?_eq_getElem hlt]
      exact List.getElem_mem _
    have hblank : ¬ ((fieldLine (name, value)).getD (name.length - 1) 0 = 32 ∨
        (fieldLine (name, value)).getD (name.length - 1) 0 = 9) := by
      rintro (hsp | htab)
      · exact htok.not_mem (by decide) (hsp ▸ hlast)
      · exact htok.not_mem (by decide) (htab ▸ hlast)
    have hname : (fieldLine (name, value)).take name.length = name := by
      unfold fieldLine
      rw [List.take_left]
    have hvalue : (fieldLine (name, value)).drop (name.length + 1) = value := by
      unfold fieldLine
      rw [← List.drop_drop, List.drop_left]
      rfl
    have htok' : isToken name = true := (isToken_eq_true_iff _).2 htok
    unfold parseHeaderLine
    simp only [hfind, hpos, hblank, hname, htok', hvalue, storedField, if_false,
      Bool.true_eq_false]

end Lines

section Loop

/-- The line loop on a list of lines. -/
def acceptLines : List Bytes → HttpRequest → Except ParseFailure HttpRequest
  | [], request => .ok request
  | line :: lines, request =>
      match acceptLine line request with
      | .error failure => .error failure
      | .ok request => acceptLines lines request

theorem unbordered_crlf : Unbordered crlf := by
  intro k hpos hlt
  have hk : k = 1 := by
    simp [crlf] at hlt
    omega
  subst hk
  decide

/-- On CRLF-free lines of which the last is not empty, the loop visits the lines. -/
theorem headerLoop_intercalate
    (rounds : Nat)
    (line : Bytes)
    (lines : List Bytes)
    (request : HttpRequest)
    (hfree : ∀ l ∈ line :: lines, ¬ crlf <:+: l)
    (hlast : (line :: lines).getLast (by simp) ≠ [])
    (hrounds : lines.length < rounds) :
    headerLoop rounds (List.intercalate crlf (line :: lines)) request =
      acceptLines (line :: lines) request := by
  induction lines generalizing rounds line request with
  | nil =>
      obtain ⟨n, rfl⟩ : ∃ n, rounds = n + 1 := ⟨rounds - 1, by omega⟩
      have hne : line ≠ [] := by simpa using hlast
      have hnone : find crlf line = none :=
        (find_eq_none_iff _ _).2 (hfree line (by simp))
      have hsingle : List.intercalate crlf [line] = line := by simp
      rw [hsingle, headerLoop, if_neg hne, hnone]
      simp only [acceptLines]
      cases acceptLine line request <;> rfl
  | cons next lines ih =>
      obtain ⟨n, rfl⟩ : ∃ n, rounds = n + 1 := ⟨rounds - 1, by omega⟩
      have hsome := find_append_of_unbordered unbordered_crlf (hfree line (by simp))
        (List.intercalate crlf (next :: lines))
      have hne : line ++ crlf ++ List.intercalate crlf (next :: lines) ≠ [] := by
        simp [crlf]
      have htake : (line ++ crlf ++ List.intercalate crlf (next :: lines)).take line.length =
          line := by
        rw [List.append_assoc, List.take_left]
      have hdrop : (line ++ crlf ++ List.intercalate crlf (next :: lines)).drop
          (line.length + 2) = List.intercalate crlf (next :: lines) := by
        have hlen : (line ++ crlf).length = line.length + 2 := by simp [crlf]
        rw [← hlen, List.drop_left]
      rw [List.intercalate_cons_cons, headerLoop, if_neg hne, hsome]
      simp only [htake, hdrop]
      rw [acceptLines]
      cases hline : acceptLine line request with
      | error failure =>
          rfl
      | ok request' =>
          refine ih n next request' (fun l hl => hfree l (by simp [hl])) ?_ ?_
          · simpa using hlast
          · simp only [List.length_cons] at hrounds
            omega

/-- The request after a list of written fields. -/
def HttpRequest.addFields (request : HttpRequest) (fields : List (Bytes × Bytes)) :
    HttpRequest :=
  fields.foldl (fun r field => r.addField (storedField field)) request

theorem find_addField
    (request : HttpRequest)
    (field : HeaderField)
    (key : Bytes) :
    (request.addField field).headers.find key =
      if key = field.name then
        some (((request.headers.find key).map (· ++ ascii ", ")).getD [] ++ field.value)
      else
        request.headers.find key := by
  unfold HttpRequest.addField
  dsimp only
  by_cases hnone : request.headers.find field.name = none
  · rw [if_pos hnone, HeaderMap.find_emplace _ _ hnone]
    by_cases hk : key = field.name
    · simp [hk, hnone]
    · simp [hk]
  · rw [if_neg hnone, HeaderMap.find_modify]
    by_cases hk : key = field.name
    · obtain ⟨old, hold⟩ := Option.ne_none_iff_exists'.mp hnone
      simp [hk, hold]
    · simp [hk]

/-- No line repeats a stored or an earlier name, `connection` apart. -/
def NoDuplicates (request : HttpRequest) (fields : List (Bytes × Bytes)) : Prop :=
  (∀ f ∈ fields,
      request.headers.find (toLowerAscii f.1) = none ∨
        toLowerAscii f.1 = ascii "connection") ∧
    fields.Pairwise (fun f g =>
      toLowerAscii f.1 = toLowerAscii g.1 → toLowerAscii f.1 = ascii "connection")

theorem noDuplicates_cons_iff
    (request : HttpRequest)
    (field : Bytes × Bytes)
    (fields : List (Bytes × Bytes)) :
    NoDuplicates request (field :: fields)
      ↔
    (request.headers.find (toLowerAscii field.1) = none ∨
        toLowerAscii field.1 = ascii "connection") ∧
      NoDuplicates (request.addField (storedField field)) fields := by
  have hfind : ∀ key, (request.addField (storedField field)).headers.find key = none ↔
      key ≠ toLowerAscii field.1 ∧ request.headers.find key = none := by
    intro key
    rw [find_addField]
    by_cases hk : key = toLowerAscii field.1
    · simp [hk, storedField]
    · simp [hk, storedField]
  unfold NoDuplicates
  rw [List.forall_mem_cons, List.pairwise_cons]
  constructor
  · rintro ⟨⟨hhead, hrest⟩, hpair, htail⟩
    refine ⟨hhead, ?_, htail⟩
    intro g hg
    rcases hrest g hg with hnone | hconn
    · by_cases heq : toLowerAscii field.1 = toLowerAscii g.1
      · exact Or.inr (heq ▸ hpair g hg heq)
      · exact Or.inl ((hfind _).2 ⟨fun h => heq h.symm, hnone⟩)
    · exact Or.inr hconn
  · rintro ⟨hhead, hrest, htail⟩
    refine ⟨⟨hhead, ?_⟩, ?_, htail⟩
    · intro g hg
      rcases hrest g hg with hnone | hconn
      · exact Or.inl ((hfind _).1 hnone).2
      · exact Or.inr hconn
    · intro g hg heq
      rcases hrest g hg with hnone | hconn
      · exact absurd heq.symm ((hfind _).1 hnone).1
      · exact heq.trans hconn

theorem acceptLine_eq_ok_iff
    (line : Bytes)
    (request result : HttpRequest) :
    acceptLine line request = .ok result
      ↔
    ∃ field, line = fieldLine field ∧ Token field.1 ∧
      (request.headers.find (toLowerAscii field.1) = none ∨
        toLowerAscii field.1 = ascii "connection") ∧
      result = request.addField (storedField field) := by
  unfold acceptLine
  constructor
  · intro h
    cases hparse : parseHeaderLine line with
    | error error =>
        rw [hparse] at h
        cases h
    | ok stored =>
        rw [hparse] at h
        obtain ⟨field, hline, htok, rfl⟩ := (parseHeaderLine_eq_ok_iff _ _).1 hparse
        dsimp only at h
        split_ifs at h with hdup
        simp only [Except.ok.injEq] at h
        refine ⟨field, hline, htok, ?_, h.symm⟩
        by_contra hcon
        exact hdup (not_or.mp hcon)
  · rintro ⟨field, hline, htok, hdup, rfl⟩
    rw [(parseHeaderLine_eq_ok_iff _ _).2 ⟨field, hline, htok, rfl⟩]
    dsimp only
    rw [if_neg]
    rintro ⟨hsome, hconn⟩
    exact hdup.elim hsome hconn

/-- The loop accepts exactly lists of distinct fields and stores them in order. -/
theorem acceptLines_eq_ok_iff
    (lines : List Bytes)
    (request result : HttpRequest) :
    acceptLines lines request = .ok result
      ↔
    ∃ fields, lines = fields.map fieldLine ∧ (∀ f ∈ fields, Token f.1) ∧
      NoDuplicates request fields ∧ result = request.addFields fields := by
  induction lines generalizing request with
  | nil =>
      constructor
      · intro h
        simp only [acceptLines, Except.ok.injEq] at h
        exact ⟨[], rfl, by simp, by simp [NoDuplicates], h.symm⟩
      · rintro ⟨fields, hmap, _, _, rfl⟩
        have hnil : fields = [] := List.map_eq_nil_iff.mp hmap.symm
        rw [hnil]
        rfl
  | cons line lines ih =>
      rw [acceptLines]
      constructor
      · intro h
        cases hline : acceptLine line request with
        | error failure =>
            rw [hline] at h
            cases h
        | ok request' =>
            rw [hline] at h
            obtain ⟨field, rfl, htok, hdup, rfl⟩ := (acceptLine_eq_ok_iff _ _ _).1 hline
            obtain ⟨fields, rfl, htoks, hdups, rfl⟩ := (ih _).1 h
            refine ⟨field :: fields, rfl, ?_, ?_, rfl⟩
            · exact List.forall_mem_cons.mpr ⟨htok, htoks⟩
            · exact (noDuplicates_cons_iff _ _ _).2 ⟨hdup, hdups⟩
      · rintro ⟨fields, hmap, htoks, hdups, rfl⟩
        cases fields with
        | nil =>
            cases hmap
        | cons field fields =>
            rw [List.map_cons, List.cons.injEq] at hmap
            obtain ⟨rfl, rfl⟩ := hmap
            obtain ⟨hdup, hdups⟩ := (noDuplicates_cons_iff _ _ _).1 hdups
            rw [(acceptLine_eq_ok_iff _ _ _).2
              ⟨field, rfl, htoks field (by simp), hdup, rfl⟩]
            exact (ih _).2 ⟨fields, rfl, fun f hf => htoks f (by simp [hf]), hdups, rfl⟩

end Loop

section Table

/-- Header lines leave the request line of a request alone. -/
theorem addFields_requestLine
    (request : HttpRequest)
    (fields : List (Bytes × Bytes)) :
    (request.addFields fields).method = request.method ∧
      (request.addFields fields).target = request.target ∧
      (request.addFields fields).version = request.version := by
  induction fields generalizing request with
  | nil =>
      exact ⟨rfl, rfl, rfl⟩
  | cons field fields ih =>
      exact ih (request.addField (storedField field))

/-- The values of the lines with a name, trimmed, in their order. -/
def valuesOf (name : Bytes) (fields : List (Bytes × Bytes)) : List Bytes :=
  (fields.filter (fun f => toLowerAscii f.1 = name)).map (fun f => trimOws f.2)

/-- Values as the parser joins them; a name without a line is not stored. -/
def joinValues : List Bytes → Option Bytes
  | [] => none
  | value :: values => some (List.intercalate (ascii ", ") (value :: values))

theorem joinValues_concat
    (values : List Bytes)
    (value : Bytes) :
    joinValues (values ++ [value]) =
      some (((joinValues values).map (· ++ ascii ", ")).getD [] ++ value) := by
  cases values with
  | nil => simp [joinValues]
  | cons first values => simp [joinValues, intercalate_concat]

theorem find_addFields_of_join
    {request : HttpRequest}
    {name : Bytes}
    {before : List Bytes}
    (h : request.headers.find name = joinValues before)
    (fields : List (Bytes × Bytes)) :
    (request.addFields fields).headers.find name =
      joinValues (before ++ valuesOf name fields) := by
  induction fields generalizing request before with
  | nil => simpa [valuesOf, HttpRequest.addFields] using h
  | cons field fields ih =>
      change ((request.addField (storedField field)).addFields fields).headers.find name = _
      by_cases hname : toLowerAscii field.1 = name
      · -- the line adds its value to those that were there
        have hstep : (request.addField (storedField field)).headers.find name =
            joinValues (before ++ [trimOws field.2]) := by
          rw [find_addField, if_pos (show name = (storedField field).name from hname.symm), h,
            joinValues_concat]
          rfl
        rw [ih hstep]
        simp [valuesOf, hname]
      · have hstep : (request.addField (storedField field)).headers.find name =
            joinValues before := by
          rw [find_addField, if_neg (show name ≠ (storedField field).name from Ne.symm hname), h]
        rw [ih hstep]
        simp [valuesOf, hname]

/-- Under a name stand the values of its lines, joined. -/
theorem find_addFields
    (line : RequestLine)
    (fields : List (Bytes × Bytes))
    (name : Bytes) :
    (line.start.addFields fields).headers.find name = joinValues (valuesOf name fields) := by
  have hstart : line.start.headers.find name = joinValues [] := rfl
  exact find_addFields_of_join hstart fields

theorem headerFields_addFields
    (request : HttpRequest)
    (fields : List (Bytes × Bytes)) :
    (request.addFields fields).headerFields = request.headerFields ++ fields.map storedField := by
  induction fields generalizing request with
  | nil => simp [HttpRequest.addFields]
  | cons field fields ih =>
      change ((request.addField (storedField field)).addFields fields).headerFields = _
      rw [ih]
      simp [HttpRequest.addField]

/-- A name other than `connection` has at most one line. -/
theorem valuesOf_eq_singleton
    {name value : Bytes}
    {fields : List (Bytes × Bytes)}
    (hdistinct : fields.Pairwise (fun f g =>
      toLowerAscii f.1 = toLowerAscii g.1 → toLowerAscii f.1 = ascii "connection"))
    (hname : name ≠ ascii "connection")
    (hvalue : value ∈ valuesOf name fields) :
    valuesOf name fields = [value] := by
  have hpair : (fields.filter (fun f => toLowerAscii f.1 = name)).Pairwise (fun _ _ => False) := by
    refine (hdistinct.sublist List.filter_sublist).imp_of_mem ?_
    intro f g hf hg hfg
    have hf' : toLowerAscii f.1 = name := by simpa using (List.mem_filter.1 hf).2
    have hg' : toLowerAscii g.1 = name := by simpa using (List.mem_filter.1 hg).2
    exact hname (hf' ▸ hfg (hf'.trans hg'.symm))
  unfold valuesOf at hvalue ⊢
  cases hlines : fields.filter (fun f => toLowerAscii f.1 = name) with
  | nil => simp [hlines] at hvalue
  | cons f lines =>
      rw [hlines] at hpair hvalue
      cases lines with
      | nil =>
          rw [List.map_singleton, List.mem_singleton] at hvalue
          rw [List.map_singleton, hvalue]
      | cons g lines => exact ((List.pairwise_cons.1 hpair).1 g List.mem_cons_self).elim

/-- A name is stored exactly when some line carries it. -/
theorem find_addFields_eq_none_iff
    (line : RequestLine)
    (fields : List (Bytes × Bytes))
    (key : Bytes) :
    (line.start.addFields fields).headers.find key = none
      ↔
    ∀ f ∈ fields, toLowerAscii f.1 ≠ key := by
  have hnone : valuesOf key fields = [] ↔ ∀ f ∈ fields, toLowerAscii f.1 ≠ key := by
    simp [valuesOf]
  rw [find_addFields, ← hnone]
  cases valuesOf key fields <;> simp [joinValues]

/-- What is stored under a name that is not repeated is the value of its line, trimmed. -/
theorem find_addFields_eq_some_iff
    (line : RequestLine)
    {fields : List (Bytes × Bytes)}
    (hdistinct : fields.Pairwise (fun f g =>
      toLowerAscii f.1 = toLowerAscii g.1 → toLowerAscii f.1 = ascii "connection"))
    {key value : Bytes}
    (hconn : key ≠ ascii "connection") :
    (line.start.addFields fields).headers.find key = some value
      ↔
    ∃ f ∈ fields, toLowerAscii f.1 = key ∧ trimOws f.2 = value := by
  have hmem : value ∈ valuesOf key fields ↔
      ∃ f ∈ fields, toLowerAscii f.1 = key ∧ trimOws f.2 = value := by
    simp [valuesOf, and_assoc]
  rw [find_addFields, ← hmem]
  constructor
  · intro h
    cases hvalues : valuesOf key fields with
    | nil => simp [hvalues, joinValues] at h
    | cons first values =>
        have hsingle := valuesOf_eq_singleton hdistinct hconn (hvalues ▸ List.mem_cons_self)
        rw [hsingle, joinValues, List.intercalate_singleton, Option.some.injEq] at h
        rw [← hvalues, hsingle, h]
        exact List.mem_singleton_self value
  · intro hvalue
    rw [valuesOf_eq_singleton hdistinct hconn hvalue, joinValues, List.intercalate_singleton]

end Table

section Framing

/-- HTTP/1.1 has a host line whose value is not only white space. -/
def HostLine (version : Bytes) (fields : List (Bytes × Bytes)) : Prop :=
  version = ascii "HTTP/1.1" →
    ∃ f ∈ fields, toLowerAscii f.1 = ascii "host" ∧ ∃ ch ∈ f.2, isOws ch = false

/-- The value of a length field: decimal digits within `std::size_t` and the limit. -/
structure LengthValue (maxBodyBytes : Nat) (value : Bytes) (length : Nat) : Prop where
  nonempty : trimOws value ≠ []
  digits : ∀ d ∈ trimOws value, isdigit d = true
  denotes : decimalValue (trimOws value) = length
  fits : length < 2 ^ 64
  limit : length ≤ maxBodyBytes

/-- The body length is the `content-length` value, or zero without such a line. -/
def BodyLength (maxBodyBytes : Nat) (fields : List (Bytes × Bytes)) (length : Nat) : Prop :=
  (∃ f ∈ fields, toLowerAscii f.1 = ascii "content-length" ∧
      LengthValue maxBodyBytes f.2 length) ∨
    ((∀ f ∈ fields, toLowerAscii f.1 ≠ ascii "content-length") ∧ length = 0)

theorem BodyLength.le
    {maxBodyBytes length : Nat}
    {fields : List (Bytes × Bytes)}
    (h : BodyLength maxBodyBytes fields length) :
    length ≤ maxBodyBytes := by
  rcases h with ⟨f, _, _, hvalue⟩ | ⟨_, rfl⟩
  · exact hvalue.limit
  · exact Nat.zero_le _

theorem parseContentLength_eq_ok_iff
    (value : Bytes)
    (n : Nat) :
    parseContentLength value = .ok n
      ↔
    trimOws value ≠ [] ∧ (∀ d ∈ trimOws value, isdigit d = true) ∧
      decimalValue (trimOws value) = n ∧ n < 2 ^ 64 := by
  have hfull := fromCharsBelow_full_iff sizeBound (trimOws value) n
  change _ ↔ _ ∧ _ ∧ _ ∧ n < sizeBound
  rw [← hfull]
  unfold parseContentLength fromChars
  dsimp only
  constructor
  · intro h
    split_ifs at h with hempty hbad
    rw [not_or, not_not, not_not] at hbad
    simp only [Except.ok.injEq] at h
    exact ⟨hbad.1, hbad.2, h⟩
  · rintro ⟨hec, hptr, hval⟩
    have hne := (hfull.1 ⟨hec, hptr, hval⟩).1
    rw [if_neg hne, if_neg (by simp [hec, hptr]), hval]

theorem declaredLength_eq_ok_iff
    (maxBodyBytes : Nat)
    (value : Bytes)
    (n : Nat) :
    declaredLength maxBodyBytes value = .ok n ↔ LengthValue maxBodyBytes value n := by
  have hparse := parseContentLength_eq_ok_iff value n
  unfold declaredLength
  constructor
  · intro h
    cases hm : parseContentLength value with
    | error error =>
        rw [hm] at h
        cases h
    | ok m =>
        rw [hm] at h
        dsimp only at h
        split_ifs at h with hlimit
        simp only [Except.ok.injEq] at h
        subst h
        obtain ⟨hne, hdig, hval, hfit⟩ := hparse.1 hm
        exact ⟨hne, hdig, hval, hfit, by omega⟩
  · rintro ⟨hne, hdig, hval, hfit, hlimit⟩
    rw [hparse.2 ⟨hne, hdig, hval, hfit⟩]
    dsimp only
    rw [if_neg (by omega)]

theorem lengthValue_trimOws_iff
    (maxBodyBytes : Nat)
    (value : Bytes)
    (n : Nat) :
    LengthValue maxBodyBytes (trimOws value) n ↔ LengthValue maxBodyBytes value n := by
  constructor
  · rintro ⟨hne, hdig, hval, hfit, hlimit⟩
    rw [trimOws_trimOws] at hne hdig hval
    exact ⟨hne, hdig, hval, hfit, hlimit⟩
  · rintro ⟨hne, hdig, hval, hfit, hlimit⟩
    rw [← trimOws_trimOws] at hne hdig hval
    exact ⟨hne, hdig, hval, hfit, hlimit⟩

/-- The stored length field decides the length of the body. -/
theorem bodyLength_iff
    (maxBodyBytes : Nat)
    (line : RequestLine)
    (fields : List (Bytes × Bytes))
    (hdup : NoDuplicates line.start fields)
    (n : Nat) :
    BodyLength maxBodyBytes fields n
      ↔
    match (line.start.addFields fields).headers.find (ascii "content-length") with
    | none => n = 0
    | some value => declaredLength maxBodyBytes value = .ok n := by
  have hconn : ascii "content-length" ≠ ascii "connection" := by decide
  cases hfind : (line.start.addFields fields).headers.find (ascii "content-length") with
  | none =>
      have hfree := (find_addFields_eq_none_iff line fields _).1 hfind
      constructor
      · rintro (⟨f, hf, hname, _⟩ | ⟨_, hzero⟩)
        · exact absurd hname (hfree f hf)
        · exact hzero
      · intro hzero
        exact Or.inr ⟨hfree, hzero⟩
  | some value =>
      have hlength : ∀ f ∈ fields, toLowerAscii f.1 = ascii "content-length" →
          (declaredLength maxBodyBytes value = .ok n ↔ LengthValue maxBodyBytes f.2 n) := by
        intro f hf hname
        have hstored := (find_addFields_eq_some_iff line hdup.2 hconn).2
          ⟨f, hf, hname, rfl⟩
        rw [hfind] at hstored
        rw [Option.some.inj hstored, declaredLength_eq_ok_iff, lengthValue_trimOws_iff]
      obtain ⟨f, hf, hname, _⟩ :=
        (find_addFields_eq_some_iff line hdup.2 hconn).1 hfind
      constructor
      · rintro (⟨g, hg, hgname, hvalue⟩ | ⟨hfree, _⟩)
        · exact (hlength g hg hgname).2 hvalue
        · exact absurd hname (hfree f hf)
      · intro hdeclared
        exact Or.inl ⟨f, hf, hname, (hlength f hf hname).1 hdeclared⟩

/-- The host test of `checkFraming`. -/
theorem host_missing_iff
    (line : RequestLine)
    (fields : List (Bytes × Bytes))
    (hdup : NoDuplicates line.start fields) :
    (((line.start.addFields fields).headers.find (ascii "host")).map trimOws).getD [] = []
      ↔
    ∀ f ∈ fields, toLowerAscii f.1 = ascii "host" → ∀ ch ∈ f.2, isOws ch = true := by
  have hconn : ascii "host" ≠ ascii "connection" := by decide
  cases hfind : (line.start.addFields fields).headers.find (ascii "host") with
  | none =>
      have hfree := (find_addFields_eq_none_iff line fields _).1 hfind
      refine iff_of_true rfl ?_
      intro f hf hname
      exact absurd hname (hfree f hf)
  | some value =>
      obtain ⟨f, hf, hname, rfl⟩ :=
        (find_addFields_eq_some_iff line hdup.2 hconn).1 hfind
      simp only [Option.map_some, trimOws_trimOws, Option.getD_some]
      constructor
      · intro hblank g hg hgname
        have hstored := (find_addFields_eq_some_iff line hdup.2 hconn).2
          ⟨g, hg, hgname, rfl⟩
        rw [hfind, hblank] at hstored
        exact (trimOws_eq_nil_iff _).1 (Option.some.inj hstored).symm
      · intro hblank
        exact (trimOws_eq_nil_iff _).2 (hblank f hf hname)

theorem hostTest_iff
    (line : RequestLine)
    (fields : List (Bytes × Bytes))
    (hdup : NoDuplicates line.start fields) :
    ((line.start.addFields fields).version = ascii "HTTP/1.1" ∧
      (((line.start.addFields fields).headers.find (ascii "host")).map trimOws).getD [] = [])
      ↔
    ¬ HostLine line.version fields := by
  rw [host_missing_iff line fields hdup, (addFields_requestLine _ _).2.2]
  unfold HostLine
  push Not
  simp only [RequestLine.start, ne_eq, Bool.not_eq_false]

/-- The framing tests accept exactly the framing rules of the grammar. -/
theorem checkFraming_eq_ok_iff
    (maxBodyBytes : Nat)
    (line : RequestLine)
    (fields : List (Bytes × Bytes))
    (hdup : NoDuplicates line.start fields)
    (n : Nat) :
    checkFraming maxBodyBytes (line.start.addFields fields) = .ok n
      ↔
    HostLine line.version fields ∧
      (∀ f ∈ fields, toLowerAscii f.1 ≠ ascii "transfer-encoding") ∧
      BodyLength maxBodyBytes fields n := by
  rw [← find_addFields_eq_none_iff line fields, bodyLength_iff maxBodyBytes line fields hdup]
  have hhost := hostTest_iff line fields hdup
  unfold checkFraming
  by_cases hh : HostLine line.version fields
  · rw [if_neg (fun h => hhost.1 h hh)]
    cases (line.start.addFields fields).headers.find (ascii "transfer-encoding") with
    | some coding =>
        cases (line.start.addFields fields).headers.find (ascii "content-length") <;> simp
    | none =>
        cases (line.start.addFields fields).headers.find (ascii "content-length") with
        | none => simp [hh, eq_comm]
        | some value => simp [hh]
  · rw [if_pos (hhost.2 hh)]
    simp [hh]

theorem declaredLength_error_kind
    {maxBodyBytes : Nat}
    {value : Bytes}
    {failure : ParseFailure}
    (h : declaredLength maxBodyBytes value = .error failure) :
    failure.kind = .badRequest := by
  unfold declaredLength at h
  cases hparse : parseContentLength value with
  | error error =>
      rw [hparse] at h
      cases h
      rfl
  | ok n =>
      rw [hparse] at h
      dsimp only at h
      split_ifs at h
      cases h
      rfl

/-- The other kind of refusal: a transfer coding without a length. -/
theorem checkFraming_unsupported_iff
    (maxBodyBytes : Nat)
    (line : RequestLine)
    (fields : List (Bytes × Bytes))
    (hdup : NoDuplicates line.start fields) :
    (∃ failure, checkFraming maxBodyBytes (line.start.addFields fields) = .error failure ∧
        failure.kind = .unsupportedTransferEncoding)
      ↔
    HostLine line.version fields ∧
      (∃ f ∈ fields, toLowerAscii f.1 = ascii "transfer-encoding") ∧
      ∀ f ∈ fields, toLowerAscii f.1 ≠ ascii "content-length" := by
  have hcoded : (∃ f ∈ fields, toLowerAscii f.1 = ascii "transfer-encoding") ↔
      (line.start.addFields fields).headers.find (ascii "transfer-encoding") ≠ none := by
    rw [Ne, find_addFields_eq_none_iff]
    push Not
    rfl
  rw [hcoded, ← find_addFields_eq_none_iff line fields]
  have hhost := hostTest_iff line fields hdup
  unfold checkFraming
  by_cases hh : HostLine line.version fields
  · rw [if_neg (fun h => hhost.1 h hh)]
    cases (line.start.addFields fields).headers.find (ascii "transfer-encoding") with
    | some coding =>
        cases (line.start.addFields fields).headers.find (ascii "content-length") with
        | none => simp [hh]
        | some value => simp [badRequest]
    | none =>
        cases (line.start.addFields fields).headers.find (ascii "content-length") with
        | none => simp
        | some value =>
            -- a bad length is refused with the other kind
            have hkind : ∀ failure, declaredLength maxBodyBytes value = .error failure →
                failure.kind ≠ .unsupportedTransferEncoding := by
              intro failure hfailure
              simp [declaredLength_error_kind hfailure]
            simpa using hkind
  · rw [if_pos (hhost.2 hh)]
    simp [hh, badRequest]

end Framing

end HttpServer
