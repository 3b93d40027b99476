import Mathlib.Data.List.DropRight
import ChipletSniper.Library.Rounding

/-!
# Decimal text of a number

A number is written with a precision as the general format of a C stream does
it: the digits that rounding leaves, without zeros at the end, in positional
notation or with an exponent, whichever suits its size.  Reading the text gives
the rounded number.
-/

namespace ChipletSniper.Library

/-! ## Writing -/

/-- Zeros at the end of a fraction are left out, and with them the point. -/
def withFraction (whole fraction : List Char) : List Char :=
  match fraction.rdropWhile (· == '0') with
  | [] => whole
  | kept => whole ++ '.' :: kept

/-- An exponent has a sign and at least two digits. -/
def exponentText (exponent : ℤ) : List Char :=
  let digits := Nat.toDigits 10 exponent.natAbs
  'e' :: (if exponent < 0 then '-' else '+') ::
    (if digits.length < 2 then '0' :: digits else digits)

/-- `%g` of a number that is not negative. -/
def generalFormat (precision : ℕ) (q : ℚ) : List Char :=
  if q = 0 then ['0']
  else
    let rounded := roundSig 10 precision q
    let digits := Nat.toDigits 10 (significand 10 precision rounded).toNat
    let exponent := Int.log 10 rounded
    if exponent < -4 ∨ precision ≤ exponent then
      withFraction (digits.take 1) (digits.drop 1) ++ exponentText exponent
    else if 0 ≤ exponent then
      withFraction (digits.take (exponent.toNat + 1))
        (digits.drop (exponent.toNat + 1))
    else
      withFraction ['0']
        (List.replicate (-exponent - 1).toNat '0' ++ digits)

/-! ## Reading -/

/-- The exponent at the head of a text, `0` if there is none. -/
def readExponent : List Char → ℤ
  | c :: sign :: rest =>
      let number (text : List Char) : ℕ :=
        Nat.ofDigitChars 10 (text.takeWhile Char.isDigit) 0
      if c = 'e' ∨ c = 'E' then
        if sign = '-' then -number rest
        else if sign = '+' then number rest
        else number (sign :: rest)
      else 0
  | _ => 0

/-- The digits behind the point, if there is one, and the rest. -/
def splitFraction (behind : List Char) : List Char × List Char :=
  match behind with
  | '.' :: rest => (rest.takeWhile Char.isDigit, rest.dropWhile Char.isDigit)
  | rest => ([], rest)

/-- The unsigned number at the head of a text. -/
def readDecimal (text : List Char) : Option ℚ :=
  let whole := text.takeWhile Char.isDigit
  let behind := splitFraction (text.dropWhile Char.isDigit)
  if whole ++ behind.1 = [] then none
  else
    some (Nat.ofDigitChars 10 (whole ++ behind.1) 0 *
      (10 : ℚ) ^ (readExponent behind.2 - behind.1.length))

/-! ## Digits -/

/-- A list of decimal digits. -/
def Digits (text : List Char) : Prop :=
  ∀ c ∈ text, c.isDigit = true

/-- The text does not go on with a digit or a point. -/
def NumberEnds (text : List Char) : Prop :=
  ∀ c ∈ text.head?, c.isDigit = false ∧ c ≠ '.'

section Digits

variable {text rest whole fraction tail : List Char}

theorem takeWhile_digits (digits : Digits text)
    (ends : ∀ c ∈ rest.head?, c.isDigit = false) :
    (text ++ rest).takeWhile Char.isDigit = text := by
  rw [List.takeWhile_append_of_pos digits]
  cases rest with
  | nil => simp
  | cons head _ => simp [ends head rfl]

theorem dropWhile_digits (digits : Digits text)
    (ends : ∀ c ∈ rest.head?, c.isDigit = false) :
    (text ++ rest).dropWhile Char.isDigit = rest := by
  rw [List.dropWhile_append_of_pos digits]
  cases rest with
  | nil => simp
  | cons head _ => simp [ends head rfl]

/-- What the digits of a whole number and a fraction stand for. -/
def digitsValue (whole fraction : List Char) : ℚ :=
  Nat.ofDigitChars 10 (whole ++ fraction) 0 * (10 : ℚ) ^ (-fraction.length : ℤ)

/-- Zeros at the end of the fraction do not count. -/
theorem digitsValue_append_zeros (whole fraction : List Char) (count : ℕ) :
    digitsValue whole (fraction ++ List.replicate count '0') =
      digitsValue whole fraction := by
  have length : (-((fraction ++ List.replicate count '0').length : ℤ)) =
      -fraction.length + -count := by
    simp only [List.length_append, List.length_replicate]
    push_cast
    ring
  unfold digitsValue
  rw [← List.append_assoc, Nat.ofDigitChars_append,
    Nat.ofDigitChars_replicate_zero, length, zpow_add₀ (by norm_num),
    zpow_neg (10 : ℚ) (count : ℤ), zpow_natCast]
  push_cast
  field_simp

theorem exists_zeros (fraction : List Char) :
    ∃ count, fraction =
      fraction.rdropWhile (· == '0') ++ List.replicate count '0' := by
  refine ⟨(fraction.rtakeWhile (· == '0')).length, ?_⟩
  have zeros : fraction.rtakeWhile (· == '0') =
      List.replicate (fraction.rtakeWhile (· == '0')).length '0' := by
    refine List.eq_replicate_of_mem fun c member => ?_
    simpa using List.mem_rtakeWhile_imp member
  rw [← zeros]
  exact List.rdropWhile_append_rtakeWhile.symm

theorem splitFraction_of_ends (ends : NumberEnds tail) :
    splitFraction tail = ([], tail) := by
  unfold splitFraction
  split
  · next rest => exact absurd rfl (ends '.' rfl).2
  · rfl

theorem splitFraction_point (digits : Digits fraction)
    (ends : NumberEnds tail) :
    splitFraction ('.' :: (fraction ++ tail)) = (fraction, tail) := by
  have stops : ∀ c ∈ tail.head?, c.isDigit = false :=
    fun c head => (ends c head).1
  simp only [splitFraction, takeWhile_digits digits stops,
    dropWhile_digits digits stops]

theorem readDecimal_eq (wholeDigits : Digits whole) (nonempty : whole ≠ [])
    {behind : List Char} (stops : ∀ c ∈ behind.head?, c.isDigit = false) :
    readDecimal (whole ++ behind) =
      some (digitsValue whole (splitFraction behind).1 *
        (10 : ℚ) ^ readExponent (splitFraction behind).2) := by
  unfold readDecimal
  rw [takeWhile_digits wholeDigits stops, dropWhile_digits wholeDigits stops]
  dsimp only
  rw [if_neg (by simp [nonempty]), digitsValue, sub_eq_add_neg,
    zpow_add₀ (by norm_num)]
  congr 1
  ring

/-- A number without an exponent is read as it is written. -/
theorem readDecimal_withFraction (wholeDigits : Digits whole)
    (nonempty : whole ≠ []) (fractionDigits : Digits fraction)
    (ends : NumberEnds tail) :
    readDecimal (withFraction whole fraction ++ tail) =
      some (digitsValue whole fraction * (10 : ℚ) ^ readExponent tail) := by
  obtain ⟨count, zeros⟩ := exists_zeros fraction
  have keptDigits : Digits (fraction.rdropWhile (· == '0')) :=
    fun c member => fractionDigits c
      ((List.rdropWhile_prefix _ _).subset member)
  have value : digitsValue whole fraction =
      digitsValue whole (fraction.rdropWhile (· == '0')) := by
    conv_lhs => rw [zeros]
    exact digitsValue_append_zeros _ _ _
  rw [value]
  unfold withFraction
  split
  · next none =>
      rw [readDecimal_eq wholeDigits nonempty fun c head => (ends c head).1,
        splitFraction_of_ends ends, none]
  · next kept _ =>
      rw [List.append_assoc, List.cons_append, readDecimal_eq wholeDigits
        nonempty (by simp), splitFraction_point keptDigits ends]

end Digits

/-! ## Exponents -/

theorem digits_toDigits (n : ℕ) : Digits (Nat.toDigits 10 n) :=
  fun _ member => Nat.isDigit_of_mem_toDigits (by omega) (by omega) member

theorem digits_zero : Digits ['0'] := by
  intro c member
  rw [List.mem_singleton.mp member]
  rfl

/-- The text does not go on with a part of a number. -/
def Separated (text : List Char) : Prop :=
  ∀ c ∈ text.head?, c.isDigit = false ∧ c ≠ '.' ∧ c ≠ 'e' ∧ c ≠ 'E'

section Exponent

variable {rest : List Char}

theorem Separated.numberEnds (separated : Separated rest) : NumberEnds rest :=
  fun c head => ⟨(separated c head).1, (separated c head).2.1⟩

theorem readExponent_separated (separated : Separated rest) :
    readExponent rest = 0 := by
  unfold readExponent
  split
  · next c sign others =>
      obtain ⟨_, _, lower, upper⟩ := separated c rfl
      simp [lower, upper]
  · rfl

theorem readExponent_exponentText (exponent : ℤ)
    (separated : Separated rest) :
    readExponent (exponentText exponent ++ rest) = exponent := by
  have stops : ∀ c ∈ rest.head?, c.isDigit = false :=
    fun c head => (separated c head).1
  set digits := Nat.toDigits 10 exponent.natAbs with isDigits
  have padded : Nat.ofDigitChars 10
      (((if digits.length < 2 then '0' :: digits else digits) ++
        rest).takeWhile Char.isDigit) 0 = exponent.natAbs := by
    have value : Nat.ofDigitChars 10 digits 0 = exponent.natAbs :=
      Nat.ofDigitChars_ten_toDigits
    split_ifs
    · rw [takeWhile_digits _ stops]
      · simpa [Nat.ofDigitChars_cons] using value
      · intro c member
        rcases List.mem_cons.mp member with rfl | inside
        · decide
        · exact digits_toDigits _ c inside
    · rw [takeWhile_digits (digits_toDigits _) stops]
      exact value
  unfold exponentText readExponent
  rw [← isDigits]
  by_cases negative : exponent < 0
  · simp only [if_pos negative, List.cons_append, if_true, true_or, padded]
    omega
  · simp only [if_neg negative, List.cons_append, true_or, if_true, padded,
      show ('+' : Char) ≠ '-' by decide, if_false]
    omega

theorem numberEnds_exponentText (exponent : ℤ) (rest : List Char) :
    NumberEnds (exponentText exponent ++ rest) := by
  intro c head
  obtain rfl : 'e' = c := by simpa [exponentText] using head
  exact ⟨by decide, by decide⟩

end Exponent

/-! ## Reading what was written -/

section RoundTrip

variable {precision : ℕ} {q : ℚ} {rest : List Char}

/-- Digits with a point somewhere among them. -/
theorem digitsValue_take_drop {digits : List Char} {place : ℕ}
    (inside : place ≤ digits.length) :
    digitsValue (digits.take place) (digits.drop place) =
      Nat.ofDigitChars 10 digits 0 *
        (10 : ℚ) ^ (place - digits.length : ℤ) := by
  have length : (-((digits.drop place).length : ℤ)) =
      place - digits.length := by
    rw [List.length_drop]
    omega
  rw [digitsValue, List.take_append_drop, length]

/-- Digits with zeros between them and the point. -/
theorem digitsValue_zeros (digits : List Char) (count : ℕ) :
    digitsValue ['0'] (List.replicate count '0' ++ digits) =
      Nat.ofDigitChars 10 digits 0 *
        (10 : ℚ) ^ (-count - digits.length : ℤ) := by
  have value : Nat.ofDigitChars 10
      ('0' :: (List.replicate count '0' ++ digits)) 0 =
        Nat.ofDigitChars 10 digits 0 := by
    simp [Nat.ofDigitChars_cons, Nat.ofDigitChars_append]
  have length :
      (-((List.replicate count '0' ++ digits).length : ℤ)) =
        -count - digits.length := by
    simp only [List.length_append, List.length_replicate]
    push_cast
    ring
  rw [digitsValue, List.singleton_append, value, length]

/-- The digits of a rounded number. -/
theorem rounded_digits (positive : 0 < q) (some : 1 ≤ precision)
    (exact : Representable 10 precision q) :
    (Nat.toDigits 10 (significand 10 precision q).toNat).length = precision ∧
      q = (Nat.ofDigitChars 10
          (Nat.toDigits 10 (significand 10 precision q).toNat) 0 : ℚ) *
        (10 : ℚ) ^ (Int.log 10 q - precision + 1 : ℤ) := by
  have big : 1 < 10 := by omega
  have lower := (significand_bounds big positive some).1
  have upper := significand_lt big positive exact
  have nonneg := significand_pos big positive some
  obtain ⟨m, significandIs⟩ := Int.eq_ofNat_of_zero_le (le_of_lt nonneg)
  rw [significandIs] at lower upper
  have above : 10 ^ (precision - 1) ≤ m := by exact_mod_cast lower
  have below : m < 10 ^ precision := by exact_mod_cast upper
  rw [significandIs, Int.toNat_natCast]
  constructor
  · apply le_antisymm
    · exact (Nat.length_toDigits_le_iff big (by omega)).mpr below
    · by_contra shorter
      have positiveDigits : 0 < precision - 1 := by
        have one : 0 < (Nat.toDigits 10 m).length := Nat.length_toDigits_pos
        omega
      have short := (Nat.length_toDigits_le_iff (n := m) big
        positiveDigits).mp (by omega)
      omega
  · have value := significand_of_representable big positive exact
    rw [significandIs] at value
    have place : (Int.log 10 q - precision + 1 : ℤ) =
        lastPlace 10 precision q := by
      unfold lastPlace
      ring
    rw [Nat.ofDigitChars_ten_toDigits, place]
    push_cast at value ⊢
    rw [value, div_mul_cancel₀ _ (ne_of_gt (zpow_pos (by norm_num) _))]

theorem roundSig_zero (base digits : ℕ) : roundSig base digits 0 = 0 := by
  have none : significand base digits 0 = 0 := by
    unfold significand
    rw [zero_div]
    exact_mod_cast roundHalfEven_intCast 0
  unfold roundSig
  rw [none, Int.cast_zero, zero_mul]

theorem withFraction_head {c : Char} (others fraction : List Char) :
    ∃ more, withFraction (c :: others) fraction = c :: more := by
  unfold withFraction
  split
  · exact ⟨others, rfl⟩
  · exact ⟨_, List.cons_append⟩

/-- The text of a number begins with a digit. -/
theorem generalFormat_head (precision : ℕ) (q : ℚ) :
    ∃ c more, generalFormat precision q = c :: more ∧ c.isDigit = true := by
  obtain ⟨first, others, shape⟩ := List.exists_cons_of_ne_nil
    (Nat.toDigits_ne_nil (b := 10)
      (n := (significand 10 precision (roundSig 10 precision q)).toNat))
  have digit : first.isDigit = true :=
    digits_toDigits _ first (by rw [shape]; exact List.mem_cons_self)
  unfold generalFormat
  dsimp only
  rw [shape]
  split_ifs
  · exact ⟨'0', [], rfl, by decide⟩
  · obtain ⟨more, starts⟩ := withFraction_head (c := first) [] others
    exact ⟨first, more ++ exponentText _,
      congrArg (· ++ exponentText _) starts, digit⟩
  · obtain ⟨more, starts⟩ := withFraction_head (c := first)
      (others.take (Int.log 10 (roundSig 10 precision q)).toNat)
      (others.drop (Int.log 10 (roundSig 10 precision q)).toNat)
    exact ⟨first, more, starts, digit⟩
  · obtain ⟨more, starts⟩ := withFraction_head (c := '0') [] (List.replicate
      (-Int.log 10 (roundSig 10 precision q) - 1).toNat '0' ++ first :: others)
    exact ⟨'0', more, starts, by decide⟩

/-- Reading the text of a number gives the number rounded to the precision of
the text. -/
theorem readDecimal_generalFormat (nonneg : 0 ≤ q) (precise : 1 ≤ precision)
    (separated : Separated rest) :
    readDecimal (generalFormat precision q ++ rest) =
      some (roundSig 10 precision q) := by
  have ends := separated.numberEnds
  rcases eq_or_lt_of_le nonneg with rfl | positive
  · rw [roundSig_zero]
    unfold generalFormat
    rw [if_pos rfl, readDecimal_eq digits_zero (by decide) fun c head =>
      (ends c head).1, splitFraction_of_ends ends]
    simp [digitsValue, Nat.ofDigitChars_cons]
  · have big : 1 < 10 := by omega
    obtain ⟨length, value⟩ := rounded_digits (roundSig_pos big positive precise)
      precise (roundSig_representable big positive precise)
    unfold generalFormat
    rw [if_neg (ne_of_gt positive)]
    set rounded := roundSig 10 precision q
    set digits := Nat.toDigits 10 (significand 10 precision rounded).toNat
    set exponent := Int.log 10 rounded
    have allDigits : Digits digits := digits_toDigits _
    have takeDigits : ∀ place, Digits (digits.take place) :=
      fun _ c member => allDigits c (List.mem_of_mem_take member)
    have dropDigits : ∀ place, Digits (digits.drop place) :=
      fun _ c member => allDigits c (List.mem_of_mem_drop member)
    have takeNonempty : ∀ place, digits.take (place + 1) ≠ [] := by
      intro place none
      have short := congrArg List.length none
      rw [List.length_take, List.length_nil] at short
      omega
    dsimp only
    split_ifs with scientific positional
    · rw [List.append_assoc, readDecimal_withFraction (takeDigits 1)
        (takeNonempty 0) (dropDigits 1) (numberEnds_exponentText _ _),
        digitsValue_take_drop (by omega), readExponent_exponentText _ separated,
        mul_assoc, ← zpow_add₀ (by norm_num), length]
      conv_rhs => rw [value]
      congr 3
      push_cast
      ring
    · rw [readDecimal_withFraction (takeDigits _) (takeNonempty _)
        (dropDigits _) ends, digitsValue_take_drop (by omega),
        readExponent_separated separated, zpow_zero, mul_one, length]
      conv_rhs => rw [value]
      congr 3
      push_cast
      omega
    · have zeros : Digits (List.replicate (-exponent - 1).toNat '0' ++ digits) := by
        intro c member
        rcases List.mem_append.mp member with zero | digit
        · rw [List.eq_of_mem_replicate zero]
          decide
        · exact allDigits c digit
      rw [readDecimal_withFraction digits_zero (by decide) zeros ends,
        digitsValue_zeros, readExponent_separated separated, zpow_zero,
        mul_one, length]
      conv_rhs => rw [value]
      congr 3
      omega

end RoundTrip

end ChipletSniper.Library
