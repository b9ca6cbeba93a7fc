import Mathlib.Algebra.Group.Nat.Defs
import Mathlib.Data.List.Basic
import Mathlib.Tactic.Common

/-!
# Bytes and big-endian fields

What a C program sees of memory, without addresses: a pointer is the list of bytes that can be read
from it on. The shifts and masks that put a field together or take it apart are done on `Nat`, as C
does them on promoted values, and the result is cut to the width of what it is stored into.
-/

namespace CLib

/-- The bytes that can be read from a pointer on. -/
abbrev Bytes := List UInt8

def ascii (s : String) : Bytes := s.toList.map fun c => UInt8.ofNat c.toNat

def be16 (hi lo : UInt8) : UInt16 := UInt16.ofNat (hi.toNat <<< 8 ||| lo.toNat)

def be32 (a b c d : UInt8) : UInt32 :=
  UInt32.ofNat (a.toNat <<< 24 ||| b.toNat <<< 16 ||| c.toNat <<< 8 ||| d.toNat)

/-- `(n & 0xff00) >> 8`, as stored into a byte. -/
def hi8 (n : Nat) : UInt8 := UInt8.ofNat ((n &&& 0xff00) >>> 8)

/-- `n & 0x00ff`, as stored into a byte. -/
def lo8 (n : Nat) : UInt8 := UInt8.ofNat (n &&& 0x00ff)

def be16Bytes (n : Nat) : Bytes := [hi8 n, lo8 n]

def be32Bytes (n : Nat) : Bytes := be16Bytes (n / 2 ^ 16) ++ be16Bytes n

@[simp]
theorem be16Bytes_length (n : Nat) : (be16Bytes n).length = 2 := rfl

@[simp]
theorem be32Bytes_length (n : Nat) : (be32Bytes n).length = 4 := rfl

theorem toNat_hi8 (n : Nat) : (hi8 n).toNat = n / 256 % 256 := by
  rw [hi8, Nat.shiftRight_and_distrib, show (0xff00 : Nat) >>> 8 = 2 ^ 8 - 1 from rfl,
    Nat.and_two_pow_sub_one_eq_mod, Nat.shiftRight_eq_div_pow]
  simp

theorem toNat_lo8 (n : Nat) : (lo8 n).toNat = n % 256 := by
  rw [lo8, show (0x00ff : Nat) = 2 ^ 8 - 1 from rfl, Nat.and_two_pow_sub_one_eq_mod]
  simp

theorem shiftLeft_or {a b k : Nat} (hb : b < 2 ^ k) : a <<< k ||| b = 2 ^ k * a + b := by
  rw [← Nat.shiftLeft_add_eq_or_of_lt hb, Nat.shiftLeft_eq, Nat.mul_comm]

theorem toNat_be16 (hi lo : UInt8) : (be16 hi lo).toNat = 256 * hi.toNat + lo.toNat := by
  have hhi := hi.toNat_lt
  have hlo := lo.toNat_lt
  rw [be16, shiftLeft_or hlo, UInt16.toNat_ofNat']
  omega

theorem toNat_be32 (a b c d : UInt8) :
    (be32 a b c d).toNat = 2 ^ 24 * a.toNat + 2 ^ 16 * b.toNat + 2 ^ 8 * c.toNat + d.toNat := by
  have ha := a.toNat_lt
  have hb := b.toNat_lt
  have hc := c.toNat_lt
  have hd := d.toNat_lt
  have hcd : c.toNat <<< 8 ||| d.toNat = 2 ^ 8 * c.toNat + d.toNat := shiftLeft_or hd
  have hbcd : b.toNat <<< 16 ||| (2 ^ 8 * c.toNat + d.toNat)
      = 2 ^ 16 * b.toNat + (2 ^ 8 * c.toNat + d.toNat) := shiftLeft_or (by omega)
  rw [be32, Nat.or_assoc, Nat.or_assoc, hcd, hbcd, shiftLeft_or (by omega), UInt32.toNat_ofNat']
  omega

theorem be16_hi8_lo8 (n : Nat) : be16 (hi8 n) (lo8 n) = UInt16.ofNat n := by
  apply UInt16.toNat_inj.mp
  rw [toNat_be16, toNat_hi8, toNat_lo8, UInt16.toNat_ofNat']
  omega

@[simp]
theorem be16_be16Bytes (x : UInt16) : be16 (hi8 x.toNat) (lo8 x.toNat) = x := by
  rw [be16_hi8_lo8, UInt16.ofNat_toNat]

theorem be32_be32Bytes (x : UInt32) :
    be32 (hi8 (x.toNat / 2 ^ 16)) (lo8 (x.toNat / 2 ^ 16)) (hi8 x.toNat) (lo8 x.toNat) = x := by
  have hx := x.toNat_lt
  apply UInt32.toNat_inj.mp
  rw [toNat_be32, toNat_hi8, toNat_lo8, toNat_hi8, toNat_lo8]
  omega

theorem be32Bytes_be32 (a b c d : UInt8) : be32Bytes (be32 a b c d).toNat = [a, b, c, d] := by
  have hb := b.toNat_lt
  have hc := c.toNat_lt
  have hd := d.toNat_lt
  have ha := a.toNat_lt
  have h0 : hi8 ((be32 a b c d).toNat / 2 ^ 16) = a := by
    rw [← UInt8.toNat_inj, toNat_hi8, toNat_be32]
    omega
  have h1 : lo8 ((be32 a b c d).toNat / 2 ^ 16) = b := by
    rw [← UInt8.toNat_inj, toNat_lo8, toNat_be32]
    omega
  have h2 : hi8 (be32 a b c d).toNat = c := by
    rw [← UInt8.toNat_inj, toNat_hi8, toNat_be32]
    omega
  have h3 : lo8 (be32 a b c d).toNat = d := by
    rw [← UInt8.toNat_inj, toNat_lo8, toNat_be32]
    omega
  rw [be32Bytes, be16Bytes, be16Bytes, h0, h1, h2, h3]
  rfl

theorem be16_inj {a b c d : UInt8} (h : be16 a b = be16 c d) : a = c ∧ b = d := by
  have hnat := congrArg UInt16.toNat h
  rw [toNat_be16, toNat_be16] at hnat
  have hb := b.toNat_lt
  have hd := d.toNat_lt
  exact ⟨UInt8.toNat_inj.mp (by omega), UInt8.toNat_inj.mp (by omega)⟩

@[simp]
theorem hi8_be16 (hi lo : UInt8) : hi8 (be16 hi lo).toNat = hi :=
  (be16_inj (be16_be16Bytes (be16 hi lo))).1

@[simp]
theorem lo8_be16 (hi lo : UInt8) : lo8 (be16 hi lo).toNat = lo :=
  (be16_inj (be16_be16Bytes (be16 hi lo))).2

end CLib
