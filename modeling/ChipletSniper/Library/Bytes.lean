import Mathlib.Algebra.Group.Nat.Defs
import Mathlib.Data.Nat.Basic

/-!
# Numbers as bytes

Little-endian encodings of fixed width.
-/

namespace ChipletSniper.Library

abbrev Byte := BitVec 8

/-- The lowest bytes of a number, the least significant one first. -/
def toBytes : Nat → Nat → List Byte
  | 0, _ => []
  | count + 1, value => BitVec.ofNat 8 value :: toBytes count (value / 256)

def ofBytes : List Byte → Nat
  | [] => 0
  | byte :: rest => byte.toNat + 256 * ofBytes rest

@[simp] theorem length_toBytes (count value : Nat) :
    (toBytes count value).length = count := by
  induction count generalizing value with
  | zero => rfl
  | succ count ih =>
      simp [toBytes, ih]

theorem ofBytes_toBytes (count value : Nat) :
    ofBytes (toBytes count value) = value % 256 ^ count := by
  induction count generalizing value with
  | zero => rw [Nat.pow_zero, Nat.mod_one]; rfl
  | succ count ih =>
      rw [toBytes, ofBytes, ih, BitVec.toNat_ofNat]
      have power : (256 : Nat) ^ (count + 1) = 256 * 256 ^ count :=
        Nat.pow_succ'
      rw [power]
      exact Nat.mod_mul.symm

/-- A word in `count` bytes. -/
def encode {width : Nat} (count : Nat) (value : BitVec width) : List Byte :=
  toBytes count value.toNat

def decode {width : Nat} (bytes : List Byte) : BitVec width :=
  BitVec.ofNat width (ofBytes bytes)

@[simp] theorem length_encode {width : Nat} (count : Nat)
    (value : BitVec width) : (encode count value).length = count :=
  length_toBytes count _

@[simp] theorem decode_encode {width count : Nat} (fits : width ≤ 8 * count)
    (value : BitVec width) : decode (encode count value) = value := by
  have power : (256 : Nat) ^ count = 2 ^ (8 * count) := by
    rw [Nat.pow_mul]
  have small : value.toNat < 256 ^ count := by
    rw [power]
    exact Nat.lt_of_lt_of_le value.isLt (Nat.pow_le_pow_right (by decide) fits)
  rw [decode, encode, ofBytes_toBytes, Nat.mod_eq_of_lt small]
  rw [BitVec.ofNat_toNat, BitVec.setWidth_eq]

end ChipletSniper.Library
