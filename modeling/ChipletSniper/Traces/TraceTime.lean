import ChipletSniper.Interchiplet.Text
import ChipletSniper.Library.Decimal
import ChipletSniper.Traces.Delay

/-!
# Times in the trace files

`popnet_trace_transfer` writes the sent time of a message as a `double` with
the default precision of six digits, and popnet reads it as a `double` again.
A time in nanoseconds has more than six digits after a millisecond.
-/

namespace ChipletSniper.Traces

open Library
open Interchiplet (Text isSpace)

/-- Rounding to a `double`, inside its range of exponents. -/
def toDouble (q : ℚ) : ℚ :=
  roundSig 2 53 q

/-- `r.timeSent*TIME_UNIT_FACTOR*freq`. -/
def timeSent (time : ℕ) (freq : ℚ) : ℚ :=
  toDouble (toDouble (toDouble time * 1) * freq)

/-- `ofs<<r.timeSent`. -/
def timeField (timeSent : ℚ) : Text :=
  generalFormat 6 timeSent

/-- `inFile_ >> event_time_t`. -/
def readTime (stream : Text) : Option ℚ :=
  (readDecimal (stream.dropWhile isSpace)).map toDouble

/-- Wherever the field stands in the trace, popnet reads the sent time of the
record. -/
def SurvivesText (time : ℕ) : Prop :=
  ∀ blanks rest : Text, (∀ c ∈ blanks, isSpace c = true) →
    readTime (blanks ++ (timeField (timeSent time 1) ++ ' ' :: rest)) =
      some (time : ℚ)

/-- Six digits, and zeros behind them. -/
def SixDigits (time : ℕ) : Prop :=
  ∃ m k : ℕ, m < 10 ^ 6 ∧ time = m * 10 ^ k

section Times

variable {time : ℕ}

theorem toDouble_zero : toDouble 0 = 0 :=
  roundSig_zero 2 53

/-- A `double` holds an integer times a power of two. -/
theorem toDouble_of_mul_pow {m k : ℕ} (small : m < 2 ^ 53) :
    toDouble ((m * 2 ^ k : ℕ) : ℚ) = (m * 2 ^ k : ℕ) := by
  rcases Nat.eq_zero_or_pos (m * 2 ^ k) with none | positive
  · rw [none, Nat.cast_zero]
    exact toDouble_zero
  · exact (roundSig_eq_self_iff (by omega) (by exact_mod_cast positive)
      (by omega)).mpr
        ((representable_natCast_iff (by omega)).mpr ⟨m, k, small, rfl⟩)

theorem toDouble_natCast (small : time < 2 ^ 53) :
    toDouble (time : ℚ) = time := by
  have exact := toDouble_of_mul_pow (k := 0) small
  rwa [pow_zero, mul_one] at exact

/-- The sent time itself is kept in the record of the trace. -/
theorem timeSent_eq (small : time < 2 ^ 53) : timeSent time 1 = time := by
  simp only [timeSent, mul_one, toDouble_natCast small]

/-- What popnet reads is the time rounded twice. -/
theorem readTime_timeField (small : time < 2 ^ 53) {blanks : Text}
    (blank : ∀ c ∈ blanks, isSpace c = true) (rest : Text) :
    readTime (blanks ++ (timeField (timeSent time 1) ++ ' ' :: rest)) =
      some (toDouble (roundSig 10 6 time)) := by
  obtain ⟨first, more, starts, digit⟩ := generalFormat_head 6 (time : ℚ)
  have separated : Separated (' ' :: rest) := by
    rintro c head
    obtain rfl : ' ' = c := by simpa using head
    decide
  have text : (blanks ++ (timeField (timeSent time 1) ++ ' ' :: rest)).dropWhile
      isSpace = generalFormat 6 (time : ℚ) ++ ' ' :: rest := by
    rw [List.dropWhile_append_of_pos blank, timeField, timeSent_eq small,
      starts, List.cons_append, List.dropWhile_cons_of_neg]
    rw [Interchiplet.isSpace_of_isDigit digit]
    decide
  unfold readTime
  rw [text, readDecimal_generalFormat (by positivity) (by omega) separated,
    Option.map_some]

theorem roundSig_of_sixDigits (six : SixDigits time) :
    roundSig 10 6 (time : ℚ) = time := by
  rcases Nat.eq_zero_or_pos time with rfl | positive
  · rw [Nat.cast_zero, roundSig_zero]
  · exact (roundSig_eq_self_iff (by omega) (by exact_mod_cast positive)
      (by omega)).mpr ((representable_natCast_iff (by omega)).mpr six)

theorem sixDigits_of_lt (few : time < 10 ^ 6) : SixDigits time :=
  ⟨time, 0, few, by omega⟩

/-- Six digits of a time below `2 ^ 53` fit a `double`. -/
theorem toDouble_roundSig (small : time < 2 ^ 53) :
    toDouble (roundSig 10 6 time) = roundSig 10 6 time := by
  by_cases few : time < 10 ^ 6
  · rw [roundSig_of_sixDigits (sixDigits_of_lt few), toDouble_natCast small]
  · -- at most ten zeros behind the six digits
    have positive : (0 : ℚ) < time := by
      exact_mod_cast (by omega : 0 < time)
    have lower : 6 ≤ Nat.log 10 time :=
      Nat.le_log_of_pow_le (by omega) (by omega)
    have upper : Nat.log 10 time < 16 :=
      Nat.log_lt_of_lt_pow (by omega) (by omega)
    obtain ⟨zeros, place⟩ : ∃ zeros : ℕ, lastPlace 10 6 (time : ℚ) = zeros := by
      refine ⟨Nat.log 10 time - 5, ?_⟩
      rw [lastPlace, Int.log_natCast]
      omega
    have few : zeros ≤ 10 := by
      rw [lastPlace, Int.log_natCast] at place
      omega
    have above : 0 < significand 10 6 (time : ℚ) :=
      significand_pos (by omega) positive (by omega)
    have bound : significand 10 6 (time : ℚ) ≤ ((10 : ℕ) : ℤ) ^ 6 :=
      (significand_bounds (by omega) positive (by omega)).2
    obtain ⟨digits, significandIs⟩ :=
      Int.eq_ofNat_of_zero_le (le_of_lt above)
    rw [significandIs] at bound
    have within : digits ≤ 10 ^ 6 := by exact_mod_cast bound
    have value : roundSig 10 6 (time : ℚ) =
        ((digits * 5 ^ zeros * 2 ^ zeros : ℕ) : ℚ) := by
      rw [roundSig, significandIs, place, zpow_natCast, mul_assoc, ← mul_pow]
      push_cast
      norm_num
    rw [value]
    apply toDouble_of_mul_pow
    calc digits * 5 ^ zeros ≤ 10 ^ 6 * 5 ^ 10 :=
          Nat.mul_le_mul within (Nat.pow_le_pow_right (by omega) few)
      _ < 2 ^ 53 := by norm_num

/-- A time survives exactly if it has no more than six digits, zeros at the
end apart. -/
theorem survivesText_iff (small : time < 2 ^ 53) :
    SurvivesText time ↔ SixDigits time := by
  constructor
  · intro survives
    rcases Nat.eq_zero_or_pos time with rfl | positive
    · exact sixDigits_of_lt (by norm_num)
    · have read := survives [] [] (by simp)
      rw [readTime_timeField small (by simp), toDouble_roundSig small,
        Option.some.injEq, roundSig_eq_self_iff (by omega)
          (by exact_mod_cast positive) (by omega),
        representable_natCast_iff (by omega)] at read
      exact read
  · intro six blanks rest blank
    rw [readTime_timeField small blank, toDouble_roundSig small,
      roundSig_of_sixDigits six]

end Times

/-- A time below `2 ^ 53` comes through the trace exactly if it has no more
than six digits, zeros at the end apart; and it is not equal in the trace to
another one of these. -/
theorem trace_times_survive_iff (time : ℕ) (small : time < 2 ^ 53) :
    (SurvivesText time ↔ SixDigits time) ∧
      ∀ other : ℕ, other < 2 ^ 53 → SixDigits time → SixDigits other →
        timeField (timeSent time 1) = timeField (timeSent other 1) →
        time = other := by
  refine ⟨survivesText_iff small, ?_⟩
  intro other smallOther six sixOther same
  have one := (survivesText_iff small).mpr six [] [] (by simp)
  have two := (survivesText_iff smallOther).mpr sixOther [] [] (by simp)
  rw [same] at one
  exact_mod_cast Option.some.inj (one.symm.trans two)

theorem second_survives :
    SurvivesText 1000000000 ↔ SixDigits 1000000000 :=
  (trace_times_survive_iff 1000000000 (by norm_num)).1

/-- A millisecond, and one nanosecond more. -/
theorem millisecond_is_rounded :
    ¬ SurvivesText 1000001 ∧
      timeField (timeSent 1000001 1) = timeField (timeSent 1000000 1) := by
  have one : timeSent 1000001 1 = ((1000001 : ℕ) : ℚ) :=
    timeSent_eq (by norm_num)
  have two : timeSent 1000000 1 = ((1000000 : ℕ) : ℚ) :=
    timeSent_eq (by norm_num)
  rw [one, two]
  refine ⟨?_, by decide +kernel⟩
  intro survives
  have read := survives [] [] (by simp)
  rw [readTime_timeField (by norm_num) (by simp),
    toDouble_roundSig (by norm_num)] at read
  have rounded : roundSig 10 6 ((1000001 : ℕ) : ℚ) = 1000000 := by
    decide +kernel
  rw [rounded] at read
  revert read
  decide +kernel

end ChipletSniper.Traces
