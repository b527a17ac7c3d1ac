import HttpServer.Lib.Occurrence
import Mathlib.Data.List.DropRight
import Mathlib.Tactic

/-!
# Byte strings and the character classes of the server

`std::string` and `std::string_view` are lists of bytes.  The server never
calls `setlocale`, so `std::tolower` and `std::isalnum` are those of the C
locale.  The helpers that several translation units repeat (`to_lower_ascii`,
`trim_ows`) are defined here once.

Decimal numerals are written with `decimal` (an integer inserted into a
stream) and read with `fromChars` (`std::from_chars` at `std::size_t`, which
accepts no sign and no leading blank).
-/

namespace HttpServer

open Occurrence

/-- The contents of a `std::string`. -/
abbrev Bytes := List UInt8

/-- The bytes of an ASCII literal. -/
def ascii (s : String) : Bytes :=
  s.toList.map (fun c => UInt8.ofNat c.toNat)

/-- The line terminator. -/
def crlf : Bytes := [13, 10]

/-- The end of a header section. -/
def crlfcrlf : Bytes := [13, 10, 13, 10]

/-- `std::tolower` in the C locale. -/
def tolower (ch : UInt8) : UInt8 :=
  if 65 ≤ ch ∧ ch ≤ 90 then ch + 32 else ch

/-- `std::isdigit` in the C locale. -/
def isdigit (ch : UInt8) : Bool :=
  decide (48 ≤ ch ∧ ch ≤ 57)

/-- `std::isalnum` in the C locale. -/
def isalnum (ch : UInt8) : Bool :=
  isdigit ch || decide (65 ≤ ch ∧ ch ≤ 90) || decide (97 ≤ ch ∧ ch ≤ 122)

def toLowerAscii (input : Bytes) : Bytes :=
  input.map tolower

/-- Optional white space: a space or a horizontal tab. -/
def isOws (ch : UInt8) : Bool :=
  ch == 32 || ch == 9

/-- Remove the optional white space at both ends. -/
def trimOws (input : Bytes) : Bytes :=
  (input.dropWhile isOws).rdropWhile isOws

theorem trimOws_eq_nil_iff
    (input : Bytes) :
    trimOws input = [] ↔ ∀ ch ∈ input, isOws ch = true := by
  unfold trimOws
  rw [List.rdropWhile_eq_nil_iff]
  constructor
  · intro h ch hch
    rw [← List.takeWhile_append_dropWhile (p := isOws) (l := input)] at hch
    rcases List.mem_append.mp hch with hch | hch
    · exact List.mem_takeWhile_imp hch
    · exact h ch hch
  · intro h ch hch
    exact h ch ((List.dropWhile_sublist _).subset hch)

/-- Trimming twice is trimming once. -/
@[simp] theorem trimOws_trimOws
    (input : Bytes) :
    trimOws (trimOws input) = trimOws input := by
  unfold trimOws
  have hfront : ((input.dropWhile isOws).rdropWhile isOws).dropWhile isOws =
      (input.dropWhile isOws).rdropWhile isOws := by
    rw [List.dropWhile_eq_self_iff]
    intro hpos
    have hpre := List.rdropWhile_prefix isOws (l := input.dropWhile isOws)
    obtain ⟨tail, htail⟩ := hpre
    have hlen : 0 < (input.dropWhile isOws).length := by
      rw [← htail, List.length_append]
      omega
    have hhead := List.dropWhile_get_zero_not isOws input hlen
    have hget : ((input.dropWhile isOws).rdropWhile isOws).get ⟨0, hpos⟩ =
        (input.dropWhile isOws).get ⟨0, hlen⟩ := by
      simp only [List.get_eq_getElem]
      rw [List.getElem_of_eq htail.symm, List.getElem_append_left hpos]
    change ¬ isOws (((input.dropWhile isOws).rdropWhile isOws).get ⟨0, hpos⟩) = true
    rw [hget]
    exact hhead
  rw [hfront, List.rdropWhile_idempotent]

theorem trimOws_of_forall
    {input : Bytes}
    (h : ∀ ch ∈ input, isOws ch = false) :
    trimOws input = input := by
  unfold trimOws
  have hdrop : input.dropWhile isOws = input := by
    rw [List.dropWhile_eq_self_iff]
    intro hpos
    simp [h _ (List.getElem_mem hpos)]
  rw [hdrop, List.rdropWhile_eq_self_iff]
  intro hne
  simp [h _ (List.getLast_mem hne)]

section Numerals

/-- The number that a string of decimal digits denotes. -/
def decimalValue (digits : Bytes) : Nat :=
  digits.foldl (fun acc d => acc * 10 + (d.toNat - 48)) 0

/-- An unsigned integer as a stream writes it. -/
def decimal (n : Nat) : Bytes :=
  (Nat.toDigits 10 n).map (fun c => UInt8.ofNat c.toNat)

/-- The error codes of `std::from_chars`. -/
inductive Errc
  | none
  | invalidArgument
  | resultOutOfRange
deriving DecidableEq, Repr

/-- The value parsed, the number of characters consumed and the error code. -/
structure FromCharsResult where
  value : Nat
  ptr : Nat
  ec : Errc
deriving DecidableEq, Repr

/-- The number of values of `std::size_t`. -/
def sizeBound : Nat := 2 ^ 64

/-- `std::from_chars` at an unsigned type with `bound` values, base ten. -/
def fromCharsBelow (bound : Nat) (input : Bytes) : FromCharsResult :=
  let digits := input.takeWhile isdigit
  if digits.isEmpty then
    ⟨0, 0, .invalidArgument⟩
  else if decimalValue digits < bound then
    ⟨decimalValue digits, digits.length, .none⟩
  else
    ⟨0, digits.length, .resultOutOfRange⟩

/-- `std::from_chars` at `std::size_t`. -/
def fromChars (input : Bytes) : FromCharsResult :=
  fromCharsBelow sizeBound input

/-- A full match is a nonempty digit string whose value fits the type. -/
theorem fromCharsBelow_full_iff
    (bound : Nat)
    (input : Bytes)
    (n : Nat) :
    ((fromCharsBelow bound input).ec = .none ∧
        (fromCharsBelow bound input).ptr = input.length ∧
        (fromCharsBelow bound input).value = n)
      ↔
    input ≠ [] ∧ (∀ d ∈ input, isdigit d = true) ∧
      decimalValue input = n ∧ n < bound := by
  constructor
  · rintro ⟨hec, hptr, hval⟩
    unfold fromCharsBelow at hec hptr hval
    by_cases hempty : (input.takeWhile isdigit).isEmpty = true
    · simp [hempty] at hec
    · by_cases hfit : decimalValue (input.takeWhile isdigit) < bound
      · simp only [hempty, hfit, if_true, Bool.false_eq_true, if_false] at hptr hval
        have hall : input.takeWhile isdigit = input :=
          (List.takeWhile_prefix isdigit).eq_of_length hptr
        rw [hall] at hval hfit hempty
        refine ⟨by simpa using hempty, List.takeWhile_eq_self_iff.mp hall, hval, ?_⟩
        omega
      · simp [hempty, hfit] at hec
  · rintro ⟨hne, hdig, hval, hfit⟩
    have hall : input.takeWhile isdigit = input :=
      List.takeWhile_eq_self_iff.mpr hdig
    have hempty : input.isEmpty = false := by
      simpa using hne
    subst hval
    simp [fromCharsBelow, hall, hempty, hfit]

theorem toNat_of_isDigit
    {c : Char}
    (hc : c.isDigit = true) :
    48 ≤ c.toNat ∧ c.toNat ≤ 57 :=
  Char.isDigit_iff_toNat.mp hc

theorem decimalValue_map_toDigits
    (cs : List Char)
    (hcs : ∀ c ∈ cs, c.isDigit = true)
    (init : Nat) :
    (cs.map (fun c => UInt8.ofNat c.toNat)).foldl
        (fun acc d => acc * 10 + (d.toNat - 48)) init =
      Nat.ofDigitChars 10 cs init := by
  induction cs generalizing init with
  | nil =>
      simp
  | cons c cs ih =>
      have hc := hcs c (by simp)
      have hlt : c.toNat < 256 := (toNat_of_isDigit hc).2.trans_lt (by decide)
      rw [List.map_cons, List.foldl_cons, ih (fun d hd => hcs d (by simp [hd]))]
      rw [Nat.ofDigitChars_cons, UInt8.toNat_ofNat_of_lt' hlt]
      congr 1
      have h0 : ('0' : Char).toNat = 48 := rfl
      rw [h0]
      ring

/-- Reading back a written number gives the number. -/
@[simp] theorem decimalValue_decimal
    (n : Nat) :
    decimalValue (decimal n) = n := by
  unfold decimalValue decimal
  rw [decimalValue_map_toDigits _ (fun c hc => Nat.isDigit_of_mem_toDigits (by omega)
    (by omega) hc)]
  exact Nat.ofDigitChars_ten_toDigits

theorem isdigit_of_mem_decimal
    {n : Nat}
    {d : UInt8}
    (hd : d ∈ decimal n) :
    isdigit d = true := by
  unfold decimal at hd
  obtain ⟨c, hc, rfl⟩ := List.mem_map.mp hd
  have hdig := toNat_of_isDigit (Nat.isDigit_of_mem_toDigits (by omega) (by omega) hc)
  unfold isdigit
  rw [decide_eq_true_iff, UInt8.le_iff_toNat_le, UInt8.le_iff_toNat_le,
    UInt8.toNat_ofNat_of_lt' (by change c.toNat < 256; omega)]
  exact hdig

theorem decimal_ne_nil (n : Nat) : decimal n ≠ [] := by
  unfold decimal
  simp [Nat.toDigits_ne_nil]

end Numerals

end HttpServer
