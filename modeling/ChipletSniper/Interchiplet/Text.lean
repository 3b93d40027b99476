import Mathlib.Data.List.Basic
import Mathlib.Data.Nat.Digits.Defs

/-!
# Text on the interchiplet sockets

The hub and the relays exchange lines of text.  This module gives the few
operations of the C++ library that they read such a line with: a C string cut
at its first zero byte, formatted extraction of a word, `getline` and `stol`.
-/

namespace ChipletSniper.Interchiplet

/-- The bytes of a message. -/
abbrev Text := List Char

/-- `isspace` in the default locale. -/
def isSpace (c : Char) : Bool :=
  c == ' ' || c == '\t' || c == '\n' || c == '\x0b' || c == '\x0c' || c == '\r'

/-- `str = t` for a zero-terminated buffer `t`. -/
def cString (buffer : Text) : Text :=
  buffer.takeWhile (· != '\x00')

/-- `stream >> word`: the word and what is left of the stream.  Nothing is
extracted from a stream that holds only blanks. -/
def extractWord (stream : Text) : Option (Text × Text) :=
  match stream.dropWhile isSpace with
  | [] => none
  | first :: rest =>
      some ((first :: rest).takeWhile (!isSpace ·),
        (first :: rest).dropWhile (!isSpace ·))

/-- `getline(stream, line)`. -/
def getline (stream : Text) : Text :=
  stream.takeWhile (· != '\n')

/-- The value of the leading digits; `none` when there is no digit. -/
def leadingNumber (text : Text) : Option Nat :=
  match text.takeWhile Char.isDigit with
  | [] => none
  | digits => some (Nat.ofDigitChars 10 digits 0)

/-- A value is representable as a 64-bit `long`. -/
def longRange (value : Int) : Option Int :=
  if -9223372036854775808 ≤ value ∧ value ≤ 9223372036854775807 then
    some value
  else
    none

/-- `std::stol`: blanks, an optional sign, digits; anything after them is
ignored.  `none` stands for the exceptions it throws. -/
def stol (text : Text) : Option Int :=
  match text.dropWhile isSpace with
  | [] => none
  | sign :: rest =>
      if sign = '-' then
        (leadingNumber rest).bind fun value => longRange (-value)
      else if sign = '+' then
        (leadingNumber rest).bind fun value => longRange value
      else
        (leadingNumber (sign :: rest)).bind fun value => longRange value

theorem isSpace_of_isDigit {c : Char} (digit : c.isDigit = true) :
    isSpace c = false := by
  simp only [isSpace, Bool.or_eq_false_iff, beq_eq_false_iff_ne]
  refine ⟨⟨⟨⟨⟨?_, ?_⟩, ?_⟩, ?_⟩, ?_⟩, ?_⟩ <;>
    · rintro rfl
      revert digit
      decide

theorem takeWhile_isDigit_toDigits
    (number : Nat) {rest : Text}
    (stop : ∀ c ∈ rest.head?, c.isDigit = false) :
    (Nat.toDigits 10 number ++ rest).takeWhile Char.isDigit =
      Nat.toDigits 10 number := by
  have allDigits : ∀ c ∈ Nat.toDigits 10 number, c.isDigit = true :=
    fun c member => Nat.isDigit_of_mem_toDigits (by omega) (by omega) member
  rw [List.takeWhile_append_of_pos allDigits]
  cases rest with
  | nil => simp
  | cons head tail =>
      have headStop : head.isDigit = false := stop head (by simp)
      simp [headStop]

theorem leadingNumber_toDigits
    (number : Nat) {rest : Text}
    (stop : ∀ c ∈ rest.head?, c.isDigit = false) :
    leadingNumber (Nat.toDigits 10 number ++ rest) = some number := by
  unfold leadingNumber
  rw [takeWhile_isDigit_toDigits number stop]
  have value : Nat.ofDigitChars 10 (Nat.toDigits 10 number) 0 = number :=
    Nat.ofDigitChars_toDigits (by omega) (by omega)
  cases shape : Nat.toDigits 10 number with
  | nil => exact absurd shape Nat.toDigits_ne_nil
  | cons head tail =>
      rw [shape] at value
      simp [value]

/-- Blanks and the decimal digits of a `long` are read back as its value. -/
theorem stol_spaces_toDigits
    (pad number : Nat) {rest : Text}
    (small : number ≤ 9223372036854775807)
    (stop : ∀ c ∈ rest.head?, c.isDigit = false) :
    stol (List.replicate pad ' ' ++ (Nat.toDigits 10 number ++ rest)) =
      some (number : Int) := by
  have blanks : ∀ c ∈ List.replicate pad ' ', isSpace c = true := by
    intro c member
    rw [List.eq_of_mem_replicate member]
    decide
  have range : longRange (number : Int) = some (number : Int) := by
    unfold longRange
    rw [if_pos]
    constructor <;> omega
  unfold stol
  rw [List.dropWhile_append_of_pos blanks]
  cases shape : Nat.toDigits 10 number with
  | nil => exact absurd shape Nat.toDigits_ne_nil
  | cons head tail =>
      have headDigit : head.isDigit = true :=
        Nat.isDigit_of_mem_toDigits (b := 10) (n := number)
          (by omega) (by omega) (by simp [shape])
      have unblank :
          (head :: tail ++ rest).dropWhile isSpace = head :: tail ++ rest := by
        simp [isSpace_of_isDigit headDigit]
      have notMinus : head ≠ '-' := by
        rintro rfl
        exact absurd headDigit (by decide)
      have notPlus : head ≠ '+' := by
        rintro rfl
        exact absurd headDigit (by decide)
      have numberRead := leadingNumber_toDigits number stop
      rw [shape, List.cons_append] at numberRead
      rw [unblank, List.cons_append]
      simp only [if_neg notMinus, if_neg notPlus, numberRead,
        Option.bind_some, range]

end ChipletSniper.Interchiplet
