import HttpServer.Lib.PrefixCode
import HttpServer.StaticFileHandler

/-!
# Percent encoding

The path part of a target is written in units: a byte that stands for itself, or a
`%` and two hexadecimal digits.  The units are a prefix code, so that a path is cut
into them in one way, and the decoder follows the cut.

* `percentDecode_eq_some_iff`: what the decoder accepts and what it returns;
* `percentDecodeIndexed_eq`: the loop with its index reads inside its input, returns,
  and returns what the recursion does, whether or not `char` is signed;
* `percentDecode_inverts_units`: both together.
-/

namespace HttpServer

namespace StaticFileHandler

section Digits

/-- A hexadecimal digit, in upper or lower case. -/
def hexDigit (upper : Bool) (n : Nat) : UInt8 :=
  if n < 10 then UInt8.ofNat (48 + n)
  else UInt8.ofNat ((if upper then 65 else 97) + (n - 10))

theorem hexValue_hexDigit
    (upper : Bool)
    {n : Nat}
    (h : n < 16) :
    hexValue (hexDigit upper n) = some n := by
  interval_cases n <;> cases upper <;> rfl

/-- Only the digits have a value. -/
theorem eq_hexDigit_of_hexValue
    {ch : UInt8}
    {n : Nat}
    (h : hexValue ch = some n) :
    n < 16 ∧ ∃ upper, ch = hexDigit upper n := by
  unfold hexValue at h
  simp only [UInt8.le_iff_toNat_le, UInt8.reduceToNat] at h
  split_ifs at h with hdecimal hlower hupper
  · cases h
    refine ⟨by omega, true, ?_⟩
    rw [hexDigit, if_pos (by omega), show 48 + (ch.toNat - 48) = ch.toNat by omega,
      UInt8.ofNat_toNat]
  · cases h
    refine ⟨by omega, false, ?_⟩
    rw [hexDigit, if_neg (by omega), if_neg (by decide),
      show 97 + (ch.toNat - 97 + 10 - 10) = ch.toNat by omega, UInt8.ofNat_toNat]
  · cases h
    refine ⟨by omega, true, ?_⟩
    rw [hexDigit, if_neg (by omega), if_pos rfl,
      show 65 + (ch.toNat - 65 + 10 - 10) = ch.toNat by omega, UInt8.ofNat_toNat]

/-- The two digits of a byte give the byte. -/
theorem ofNat_digits
    (byte : UInt8) :
    UInt8.ofNat ((byte.toNat / 16) <<< 4 ||| byte.toNat % 16) = byte := by
  have hlow : byte.toNat % 16 < 2 ^ 4 := Nat.mod_lt _ (by decide)
  rw [← Nat.shiftLeft_add_eq_or_of_lt hlow, Nat.shiftLeft_eq, Nat.div_add_mod']
  exact UInt8.ofNat_toNat

/-- Two digits are the digits of the byte that they give. -/
theorem digits_ofNat
    {high low : Nat}
    (hhigh : high < 16)
    (hlow : low < 16) :
    (UInt8.ofNat (high <<< 4 ||| low)).toNat / 16 = high ∧
      (UInt8.ofNat (high <<< 4 ||| low)).toNat % 16 = low := by
  rw [← Nat.shiftLeft_add_eq_or_of_lt (show low < 2 ^ 4 by omega), Nat.shiftLeft_eq,
    UInt8.toNat_ofNat_of_lt' (show high * 2 ^ 4 + low < 256 by omega)]
  omega

theorem percentDecode_cons_of_ne
    {byte : UInt8}
    (h : byte ≠ 37)
    (rest : Bytes) :
    percentDecode (byte :: rest) = (percentDecode rest).map (fun output => byte :: output) := by
  rw [percentDecode.eq_def]
  simp [h]

theorem percentDecode_escape
    {byte : UInt8}
    (h : byte ≠ 0)
    (upper upper' : Bool)
    (rest : Bytes) :
    percentDecode
        (37 :: hexDigit upper (byte.toNat / 16) :: hexDigit upper' (byte.toNat % 16) :: rest) =
      (percentDecode rest).map (fun output => byte :: output) := by
  have hbyte : byte.toNat < 256 := byte.toNat_lt
  rw [percentDecode.eq_def]
  simp only [ne_eq, not_true_eq_false, if_false,
    hexValue_hexDigit upper (show byte.toNat / 16 < 16 by omega),
    hexValue_hexDigit upper' (show byte.toNat % 16 < 16 by omega), ofNat_digits, h]

end Digits

section Units

/-- The byte that a unit stands for; NUL is not written by an escape. -/
inductive StandsFor : Bytes → UInt8 → Prop
  | plain {byte : UInt8} (h : byte ≠ 37) : StandsFor [byte] byte
  | escape {byte : UInt8} (upper upper' : Bool) (h : byte ≠ 0) :
      StandsFor [37, hexDigit upper (byte.toNat / 16), hexDigit upper' (byte.toNat % 16)] byte

/-- A unit of a percent-encoded string, with the byte that it stands for. -/
@[ext]
structure EncodedUnit where
  bytes : Bytes
  value : UInt8
  standsFor : StandsFor bytes value

/-- The units of an encoding, one behind the other. -/
def written (units : List EncodedUnit) : Bytes :=
  (units.map EncodedUnit.bytes).flatten

/-- What the units of an encoding stand for. -/
def meant (units : List EncodedUnit) : Bytes :=
  units.map EncodedUnit.value

/-- A unit in front of an input is decoded to what it stands for. -/
theorem percentDecode_unit_append
    {bytes : Bytes}
    {value : UInt8}
    (h : StandsFor bytes value)
    (rest : Bytes) :
    percentDecode (bytes ++ rest) = (percentDecode rest).map (fun output => value :: output) := by
  cases h with
  | plain hplain => exact percentDecode_cons_of_ne hplain rest
  | escape upper upper' hnul => exact percentDecode_escape hnul upper upper' rest

theorem percentDecode_written
    (units : List EncodedUnit) :
    percentDecode (written units) = some (meant units) := by
  induction units with
  | nil => rfl
  | cons unit units ih =>
      rw [show written (unit :: units) = unit.bytes ++ written units from rfl,
        percentDecode_unit_append unit.standsFor, ih]
      rfl

/-- The decoder accepts the encodings, and nothing else. -/
theorem percentDecode_eq_some_iff
    (input output : Bytes) :
    percentDecode input = some output ↔
      ∃ units, written units = input ∧ meant units = output := by
  constructor
  · intro h
    fun_induction percentDecode input generalizing output with
    | case1 =>
        cases h
        exact ⟨[], rfl, rfl⟩
    | case2 ch rest hch ih =>
        obtain ⟨tail, htail, rfl⟩ := Option.map_eq_some_iff.1 h
        obtain ⟨units, rfl, rfl⟩ := ih tail htail
        exact ⟨⟨[ch], ch, .plain hch⟩ :: units, rfl, rfl⟩
    | case4 ch hch first second rest high low hlow hhigh decoded hdecoded =>
        rename_i ih
        obtain ⟨tail, htail, rfl⟩ := Option.map_eq_some_iff.1 h
        obtain ⟨units, rfl, rfl⟩ := ih tail htail
        obtain rfl : ch = 37 := not_not.1 hch
        obtain ⟨hhighLt, upper, rfl⟩ := eq_hexDigit_of_hexValue hhigh
        obtain ⟨hlowLt, upper', rfl⟩ := eq_hexDigit_of_hexValue hlow
        obtain ⟨hdiv, hmod⟩ := digits_ofNat hhighLt hlowLt
        have hescape := StandsFor.escape upper upper' hdecoded
        rw [hdiv, hmod] at hescape
        exact ⟨⟨_, _, hescape⟩ :: units, rfl, rfl⟩
    | case3 => cases h
    | case5 => cases h
    | case6 => cases h
  · rintro ⟨units, rfl, rfl⟩
    exact percentDecode_written units

/-- A unit that begins another is the other. -/
theorem StandsFor.eq_of_begins
    {bytes bytes' : Bytes}
    {value value' : UInt8}
    (h : StandsFor bytes value)
    (h' : StandsFor bytes' value')
    (hbegins : bytes <+: bytes') :
    bytes = bytes' := by
  cases h with
  | plain hplain =>
      cases h' with
      | plain => exact hbegins.eq_of_length rfl
      | escape => exact absurd (List.cons_prefix_cons.1 hbegins).1 hplain
  | escape =>
      cases h' with
      | plain => exact absurd hbegins.length_le (by simp)
      | escape => exact hbegins.eq_of_length rfl

/-- The units are a prefix code. -/
theorem prefixFree_units :
    PrefixCode.PrefixFree {bytes : Bytes | ∃ value, StandsFor bytes value} where
  nonempty := fun ⟨_, h⟩ => nomatch h
  eq_of_begins := by
    rintro bytes ⟨value, h⟩ bytes' ⟨value', h'⟩ hbegins
    exact h.eq_of_begins h' hbegins

/-- What a unit stands for is read off its bytes, since the decoder does so. -/
theorem EncodedUnit.bytes_injective :
    Function.Injective EncodedUnit.bytes := by
  intro unit unit' hbytes
  refine EncodedUnit.ext hbytes ?_
  have h := percentDecode_unit_append unit.standsFor []
  have h' := percentDecode_unit_append unit'.standsFor []
  rw [hbytes, h', percentDecode] at h
  exact (List.cons.inj (Option.some.inj h)).1.symm

theorem written_injective :
    Function.Injective written := by
  intro units units' heq
  have hunit : ∀ units : List EncodedUnit, ∀ bytes ∈ units.map EncodedUnit.bytes,
      ∃ value, StandsFor bytes value := by
    intro units bytes hbytes
    obtain ⟨unit, _, rfl⟩ := List.mem_map.1 hbytes
    exact ⟨unit.value, unit.standsFor⟩
  have hwords := prefixFree_units.uniquelyDecodable _ _ (hunit units) (hunit units') heq
  exact List.map_injective_iff.2 EncodedUnit.bytes_injective hwords

end Units

section Indexed

/-- How a loop over a buffer could go wrong. -/
inductive LoopFault
  | outOfRange
  | unfinished

/-- A `std::string_view`: an object in memory is smaller than half the address space. -/
structure StringView where
  bytes : Bytes
  addressable : bytes.length < sizeBound / 2

/-- A `char` in an expression, on a platform where it is signed or not. -/
def promote (signedChar : Bool) (ch : UInt8) : Int :=
  if signedChar ∧ 128 ≤ ch.toNat then (ch.toNat : Int) - 256 else ch.toNat

/-- `hex_value` on the promoted character, with `-1` for what is no digit. -/
def hexValueInt (ch : Int) : Int :=
  if 48 ≤ ch ∧ ch ≤ 57 then
    ch - 48
  else if 97 ≤ ch ∧ ch ≤ 102 then
    ch - 97 + 10
  else if 65 ≤ ch ∧ ch ≤ 70 then
    ch - 65 + 10
  else
    -1

/--
The loop of `percent_decode`.  Each access is checked against the end of the input,
and the index is a `std::size_t`, advanced modulo its range.
-/
def percentDecodeLoop (signedChar : Bool) (input : Bytes) :
    Nat → Nat → Bytes → Except LoopFault (Option Bytes)
  | 0, _, _ => .error .unfinished
  | rounds + 1, i, output =>
      if i < input.length then
        match input[i]? with
        | none => .error .outOfRange
        | some ch =>
            if promote signedChar ch ≠ 37 then
              percentDecodeLoop signedChar input rounds ((i + 1) % sizeBound) (output ++ [ch])
            else if input.length ≤ (i + 2) % sizeBound then
              .ok none
            else
              match input[(i + 1) % sizeBound]?, input[(i + 2) % sizeBound]? with
              | some first, some second =>
                  let high := hexValueInt (promote signedChar first)
                  let low := hexValueInt (promote signedChar second)
                  if high < 0 ∨ low < 0 then
                    .ok none
                  else
                    let decoded := UInt8.ofNat (high.toNat <<< 4 ||| low.toNat)
                    if decoded = 0 then
                      .ok none
                    else
                      -- the body adds two and the header of the loop one more
                      percentDecodeLoop signedChar input rounds
                        (((i + 2) % sizeBound + 1) % sizeBound) (output ++ [decoded])
              | _, _ => .error .outOfRange
      else
        .ok (some output)

/-- Each round consumes a byte, so that one round more than there are bytes is enough. -/
def percentDecodeIndexed (signedChar : Bool) (input : StringView) :
    Except LoopFault (Option Bytes) :=
  percentDecodeLoop signedChar input.bytes (input.bytes.length + 1) 0 []

theorem promote_eq_percent_iff
    (signedChar : Bool)
    (ch : UInt8) :
    promote signedChar ch = 37 ↔ ch = 37 := by
  have hlt := ch.toNat_lt
  simp only [← UInt8.toNat_inj, UInt8.reduceToNat]
  unfold promote
  split_ifs <;> omega

/-- The digits are below 128, so that the sign of `char` does not show. -/
theorem hexValueInt_promote
    (signedChar : Bool)
    (ch : UInt8) :
    hexValueInt (promote signedChar ch) = ((hexValue ch).map Int.ofNat).getD (-1) := by
  have hlt := ch.toNat_lt
  unfold hexValueInt hexValue promote
  simp only [UInt8.le_iff_toNat_le, UInt8.reduceToNat]
  split_ifs <;> simp <;> omega

theorem hexValueInt_neg_iff
    (signedChar : Bool)
    (ch : UInt8) :
    hexValueInt (promote signedChar ch) < 0 ↔ hexValue ch = none := by
  rw [hexValueInt_promote]
  cases hexValue ch with
  | none => simp
  | some n => simp

/-- A `%` with fewer than two bytes behind it is refused. -/
theorem percentDecode_truncated
    {rest : Bytes}
    (h : rest.length < 2) :
    percentDecode (37 :: rest) = none := by
  rw [percentDecode.eq_def]
  match rest, h with
  | [], _ => rfl
  | [_], _ => rfl

/-- A `%` and two bytes: the digits are looked up, and NUL is refused. -/
theorem percentDecode_percent
    (first second : UInt8)
    (rest : Bytes) :
    percentDecode (37 :: first :: second :: rest) =
      match hexValue first, hexValue second with
      | some high, some low =>
          if UInt8.ofNat (high <<< 4 ||| low) = 0 then none
          else (percentDecode rest).map (fun output => UInt8.ofNat (high <<< 4 ||| low) :: output)
      | _, _ => none := by
  rw [percentDecode.eq_def]
  rfl

/--
Every round is entered at an index within the input, reads no byte behind its end, and
continues as the recursion does on the bytes that are left.
-/
theorem percentDecodeLoop_eq
    (signedChar : Bool)
    {input : Bytes}
    (hsize : input.length < sizeBound / 2)
    (rounds i : Nat)
    (output : Bytes)
    (hi : i ≤ input.length)
    (hrounds : input.length - i < rounds) :
    percentDecodeLoop signedChar input rounds i output =
      .ok ((percentDecode (input.drop i)).map (output ++ ·)) := by
  induction rounds generalizing i output with
  | zero => omega
  | succ rounds ih =>
      have hwrap : ∀ k ≤ 3, (i + k) % sizeBound = i + k := by
        intro k hk
        exact Nat.mod_eq_of_lt (by unfold sizeBound at *; omega)
      rw [percentDecodeLoop]
      by_cases hlt : i < input.length
      · rw [if_pos hlt, List.getElem?_eq_getElem hlt, List.drop_eq_getElem_cons hlt]
        dsimp only
        by_cases hpercent : input[i] = 37
        · rw [if_neg (not_not.2 ((promote_eq_percent_iff _ _).2 hpercent)), hpercent,
            hwrap 1 (by omega), hwrap 2 (by omega), hwrap 3 (by omega)]
          by_cases hend : input.length ≤ i + 2
          · rw [if_pos hend, percentDecode_truncated (by rw [List.length_drop]; omega)]
            rfl
          · have hfirst : i + 1 < input.length := by omega
            have hsecond : i + 2 < input.length := by omega
            rw [if_neg hend, List.getElem?_eq_getElem hfirst, List.getElem?_eq_getElem hsecond,
              List.drop_eq_getElem_cons hfirst, List.drop_eq_getElem_cons hsecond,
              percentDecode_percent]
            dsimp only
            cases hhigh : hexValue input[i + 1] with
            | none => rw [if_pos (Or.inl ((hexValueInt_neg_iff _ _).2 hhigh))]; rfl
            | some high =>
                cases hlow : hexValue input[i + 2] with
                | none => rw [if_pos (Or.inr ((hexValueInt_neg_iff _ _).2 hlow))]; rfl
                | some low =>
                    simp only [hexValueInt_promote, hhigh, hlow, Option.map_some,
                      Option.getD_some, Int.ofNat_eq_natCast, Int.toNat_natCast]
                    rw [if_neg (by omega)]
                    by_cases hnul : UInt8.ofNat (high <<< 4 ||| low) = 0
                    · rw [if_pos hnul, if_pos hnul]
                      rfl
                    · rw [if_neg hnul, if_neg hnul, ih _ _ (by omega) (by omega), Option.map_map]
                      simp only [Function.comp_def, List.append_assoc, List.singleton_append]
        · rw [if_pos (fun h => hpercent ((promote_eq_percent_iff _ _).1 h)), hwrap 1 (by omega),
            ih _ _ hlt (by omega), percentDecode_cons_of_ne hpercent, Option.map_map]
          simp [Function.comp_def]
      · rw [if_neg hlt, List.drop_eq_nil_of_le (Nat.le_of_not_lt hlt)]
        simp [percentDecode]

/-- The loop returns, without reading behind its input, what the recursion does. -/
theorem percentDecodeIndexed_eq
    (signedChar : Bool)
    (input : StringView) :
    percentDecodeIndexed signedChar input = .ok (percentDecode input.bytes) := by
  unfold percentDecodeIndexed
  rw [percentDecodeLoop_eq signedChar input.addressable _ _ _ (Nat.zero_le _) (by omega)]
  simp

end Indexed

/--
The decoder accepts exactly the concatenations of units and returns what they stand
for; the units of an input are determined; every other input is refused; and the loop
that decodes reads no byte behind the end of its input.
-/
theorem percentDecode_inverts_units :
    (∀ input output : Bytes,
      percentDecode input = some output ↔
        ∃ units, written units = input ∧ meant units = output) ∧
    (∀ input : Bytes, percentDecode input = none ↔ ¬ ∃ units, written units = input) ∧
    Function.Injective written ∧
    ∀ (signedChar : Bool) (input : StringView),
      percentDecodeIndexed signedChar input = .ok (percentDecode input.bytes) := by
  refine ⟨percentDecode_eq_some_iff, fun input => ?_, written_injective, percentDecodeIndexed_eq⟩
  rw [Option.eq_none_iff_forall_ne_some]
  constructor
  · rintro hnone ⟨units, hunits⟩
    exact hnone _ ((percentDecode_eq_some_iff _ _).2 ⟨units, hunits, rfl⟩)
  · intro hnone output houtput
    obtain ⟨units, hunits, _⟩ := (percentDecode_eq_some_iff _ _).1 houtput
    exact hnone ⟨units, hunits⟩

end StaticFileHandler

end HttpServer
