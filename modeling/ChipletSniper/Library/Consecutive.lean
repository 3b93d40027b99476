import Mathlib.Data.List.Range
import Mathlib.Data.Nat.Notation

/-!
# Consecutive pieces of an interval

Pieces that follow each other without a gap cover every place of an interval
once, in increasing order.
-/

namespace ChipletSniper.Library

variable {Piece : Type*}

/-- The pieces fill the interval from the first place up to the second one. -/
inductive Consecutive (start length : Piece → ℕ) (first : ℕ) :
    List Piece → ℕ → Prop
  | nil : Consecutive start length first [] first
  | concat {pieces : List Piece} {piece : Piece} {reached : ℕ} :
      Consecutive start length first pieces reached →
      start piece = reached →
      Consecutive start length first (pieces ++ [piece])
        (reached + length piece)

variable {start length : Piece → ℕ} {first last : ℕ} {pieces : List Piece}

theorem Consecutive.le (filled : Consecutive start length first pieces last) :
    first ≤ last := by
  induction filled with
  | nil => exact Nat.le_refl _
  | concat _ _ ih =>
      exact Nat.le_add_right_of_le ih

/-- The places of the pieces are those of the interval. -/
theorem Consecutive.places
    (filled : Consecutive start length first pieces last) :
    pieces.flatMap (fun piece => List.range' (start piece) (length piece)) =
      List.range' first (last - first) := by
  induction filled with
  | nil => rw [Nat.sub_self]; rfl
  | @concat pieces piece reached before follows ih =>
      have bound := before.le
      have split : reached + length piece - first =
          (reached - first) + length piece := by omega
      have next : first + (reached - first) = reached := by omega
      rw [List.flatMap_append, ih, List.flatMap_singleton,
        split, ← List.range'_append_1, next, follows]

/-- The places counted from the first one. -/
theorem Consecutive.shift
    (filled : Consecutive start length first pieces last) :
    Consecutive (fun piece => start piece - first) length 0 pieces
      (last - first) := by
  induction filled with
  | nil =>
      rw [Nat.sub_self]
      exact .nil
  | @concat pieces piece reached before follows ih =>
      have split : reached + length piece - first =
          (reached - first) + length piece := by
        have := before.le
        omega
      rw [split]
      exact .concat ih (congrArg (· - first) follows)

end ChipletSniper.Library
