import Mathlib.Algebra.Order.Ring.Nat
import Mathlib.Data.List.Range

/-!
# Positional notation of a fixed length

A number is written with so many digits, the most significant one first.  The
base may be one.
-/

namespace ChipletSniper.Library

/-- The last `count` digits of a number. -/
def numeral (base count number : ℕ) : List ℕ :=
  (List.range count).map fun place =>
    number / base ^ (count - 1 - place) % base

/-- The number that some digits stand for, by Horner's rule. -/
def horner (base : ℕ) (places : List ℕ) : ℕ :=
  places.foldl (fun number digit => number * base + digit) 0

variable {base count number digit : ℕ} {places : List ℕ}

/-- The last digit is the remainder, and the others are those of the
quotient. -/
theorem numeral_succ (base count number : ℕ) :
    numeral base (count + 1) number =
      numeral base count (number / base) ++ [number % base] := by
  unfold numeral
  rw [List.range_succ, List.map_append]
  congr 1
  · apply List.map_congr_left
    intro place inside
    have left : count + 1 - 1 - place = (count - 1 - place) + 1 := by
      have := List.mem_range.mp inside
      omega
    rw [left, pow_succ', Nat.div_div_eq_div_mul]
  · simp

/-- A digit put behind the others. -/
theorem numeral_mul_add (last : digit < base) :
    numeral base (count + 1) (number * base + digit) =
      numeral base count number ++ [digit] := by
  have quotient : (number * base + digit) / base = number := by
    rw [Nat.add_comm, Nat.add_mul_div_right _ _ (Nat.zero_lt_of_lt last),
      Nat.div_eq_of_lt last, Nat.zero_add]
  have remainder : (number * base + digit) % base = digit := by
    rw [Nat.add_comm, Nat.add_mul_mod_self_right, Nat.mod_eq_of_lt last]
  rw [numeral_succ, quotient, remainder]

@[simp]
theorem length_numeral (base count number : ℕ) :
    (numeral base count number).length = count := by
  simp [numeral]

theorem numeral_lt (positive : 0 < base) :
    ∀ digit ∈ numeral base count number, digit < base := by
  intro digit member
  obtain ⟨place, _, rfl⟩ := List.mem_map.mp member
  exact Nat.mod_lt _ positive

/-- The number zero. -/
theorem numeral_of_zero (base count : ℕ) :
    numeral base count 0 = List.replicate count 0 := by
  induction count with
  | zero => rfl
  | succ count ih =>
      rw [numeral_succ, Nat.zero_div, Nat.zero_mod, ih,
        List.replicate_succ']

@[simp]
theorem horner_concat (base : ℕ) (places : List ℕ) (digit : ℕ) :
    horner base (places ++ [digit]) = horner base places * base + digit := by
  simp [horner]

theorem horner_lt (bounded : ∀ digit ∈ places, digit < base) :
    horner base places < base ^ places.length := by
  induction places using List.reverseRecOn with
  | nil => exact Nat.one_pos
  | append_singleton places digit ih =>
      have front : horner base places + 1 ≤ base ^ places.length :=
        ih fun other member =>
          bounded other (List.mem_append_left _ member)
      have last : digit < base :=
        bounded digit (List.mem_append_right _ (List.mem_singleton_self _))
      rw [horner_concat, List.length_append, List.length_singleton, pow_succ]
      calc horner base places * base + digit
          < (horner base places + 1) * base := by
            rw [Nat.add_mul, Nat.one_mul]
            exact Nat.add_lt_add_left last _
        _ ≤ base ^ places.length * base := Nat.mul_le_mul_right base front

theorem numeral_horner (bounded : ∀ digit ∈ places, digit < base) :
    numeral base places.length (horner base places) = places := by
  induction places using List.reverseRecOn with
  | nil => rfl
  | append_singleton places digit ih =>
      have last : digit < base :=
        bounded digit (List.mem_append_right _ (List.mem_singleton_self _))
      rw [List.length_append, List.length_singleton, horner_concat,
        numeral_mul_add last, ih fun other member =>
          bounded other (List.mem_append_left _ member)]

/-- Digits of one length stand for one number only. -/
theorem horner_injective {others : List ℕ}
    (bounded : ∀ digit ∈ places, digit < base)
    (bounded' : ∀ digit ∈ others, digit < base)
    (length : places.length = others.length)
    (same : horner base places = horner base others) : places = others := by
  rw [← numeral_horner bounded, ← numeral_horner bounded', length, same]

/-! ## Counting on -/

/-- A last digit that is not the highest one goes up. -/
theorem numeral_next_of_lt (below : number % base + 1 < base) :
    numeral base (count + 1) (number + 1) =
      numeral base count (number / base) ++ [number % base + 1] := by
  have split : number + 1 = number / base * base + (number % base + 1) := by
    rw [← Nat.add_assoc, Nat.mul_comm, Nat.div_add_mod]
  rw [split, numeral_mul_add below]

/-- The highest last digit becomes zero, and the others count on. -/
theorem numeral_next_of_eq (highest : number % base + 1 = base) :
    numeral base (count + 1) (number + 1) =
      numeral base count (number / base + 1) ++ [0] := by
  have positive : 0 < base := by
    rw [← highest]
    exact Nat.succ_pos _
  have split : number + 1 = (number / base + 1) * base + 0 := by
    rw [Nat.add_mul, Nat.one_mul, Nat.add_zero]
    calc number + 1 = number / base * base + number % base + 1 := by
          rw [Nat.mul_comm, Nat.div_add_mod]
      _ = number / base * base + base := by rw [Nat.add_assoc, highest]
  rw [split, numeral_mul_add positive]

end ChipletSniper.Library
