import InstructionParser.ShiftRegister
import Mathlib.Algebra.Polynomial.Div
import Mathlib.Tactic.LinearCombination

/-!
# The register holds the remainder of a polynomial

Over the field of two elements a register is a polynomial of a lower degree than its width, and a step
multiplies it by `X` and subtracts the generator when the result has its degree. What a message leaves
in the register is the remainder of the message times `X ^ w`.
-/

namespace ShiftRegister

open Polynomial

variable {w : Nat}

/-- The polynomial with the bits of the register for coefficients. -/
noncomputable def toPoly (r : BitVec w) : (ZMod 2)[X] :=
  ∑ i : Fin w, C (boolBit (r.getLsbD i)) * X ^ (i : Nat)

/-- The generator, of which the register keeps what is below the highest term. -/
noncomputable def generator (poly : BitVec w) : (ZMod 2)[X] := X ^ w + toPoly poly

/-- The polynomial of a message, whose first bit is the highest coefficient. -/
noncomputable def messagePoly : List Bool → (ZMod 2)[X]
  | [] => 0
  | b :: message => C (boolBit b) * X ^ message.length + messagePoly message

theorem coeff_toPoly (r : BitVec w) (n : Nat) : (toPoly r).coeff n = boolBit (r.getLsbD n) := by
  simp only [toPoly, finsetSum_coeff, coeff_C_mul_X_pow]
  by_cases hn : n < w
  · rw [Finset.sum_eq_single (⟨n, hn⟩ : Fin w)]
    · exact if_pos rfl
    · intro i _ hi
      exact if_neg fun heq => hi (Fin.ext heq.symm)
    · exact fun h => absurd (Finset.mem_univ _) h
  · rw [BitVec.getLsbD_of_ge r n (Nat.le_of_not_lt hn)]
    refine Finset.sum_eq_zero fun i _ => if_neg fun heq => hn ?_
    rw [heq]
    exact i.isLt

theorem toPoly_zero : toPoly 0#w = 0 := by
  ext n
  rw [coeff_toPoly, BitVec.getLsbD_zero]
  rfl

theorem toPoly_xor (r r' : BitVec w) : toPoly (r ^^^ r') = toPoly r + toPoly r' := by
  ext n
  rw [coeff_add, coeff_toPoly, coeff_toPoly, coeff_toPoly, BitVec.getLsbD_xor, boolBit_xor]

theorem degree_toPoly_lt (r : BitVec w) : (toPoly r).degree < w := by
  rw [degree_lt_iff_coeff_zero]
  intro n hn
  rw [coeff_toPoly, BitVec.getLsbD_of_ge r n hn]
  rfl

theorem generator_monic (poly : BitVec w) : (generator poly).Monic :=
  monic_X_pow_add (degree_toPoly_lt poly)

theorem degree_generator (poly : BitVec w) : (generator poly).degree = w := by
  rw [generator, degree_add_eq_left_of_degree_lt, degree_X_pow]
  rw [degree_X_pow]
  exact degree_toPoly_lt poly

theorem toPoly_ite (b : Bool) (r : BitVec w) :
    toPoly (if b then r else 0#w) = C (boolBit b) * toPoly r := by
  cases b with
  | false => simp [toPoly_zero, boolBit]
  | true => simp [boolBit]

section Step

variable (hw : 0 < w)

include hw

/-- What is shifted out is the coefficient of `X ^ w`. -/
theorem toPoly_shiftLeft (r : BitVec w) :
    toPoly (r <<< 1) + C (boolBit r.msb) * X ^ w = X * toPoly r := by
  ext n
  rw [coeff_add, coeff_C_mul_X_pow, coeff_toPoly, BitVec.getLsbD_shiftLeft]
  cases n with
  | zero =>
      rw [mul_coeff_zero, coeff_X_zero, zero_mul, if_neg hw.ne]
      simp [boolBit]
  | succ n =>
      rw [coeff_X_mul, coeff_toPoly, BitVec.msb_eq_getLsbD_last]
      by_cases hlow : n + 1 < w
      · simp [hlow, hlow.ne]
      · by_cases hlast : n + 1 = w
        · subst hlast
          simp [boolBit]
        · have hbehind : r.getLsbD n = false := BitVec.getLsbD_of_ge r n (by omega)
          simp [hlow, hlast, hbehind, boolBit]

theorem toPoly_bit (b : Bool) : X * toPoly (bit b : BitVec w) = C (boolBit b) * X ^ w := by
  rw [← toPoly_shiftLeft hw]
  have hmsb : (bit b : BitVec w).msb = b := by
    cases b with
    | false => simp [bit]
    | true => rw [bit, if_pos rfl, BitVec.msb_intMin, decide_eq_true hw]
  have hshift : (bit b : BitVec w) <<< 1 = 0#w := by
    apply BitVec.eq_of_getMsbD_eq
    intro i hi
    rw [BitVec.getMsbD_shiftLeft, bit]
    cases b with
    | false => simp
    | true => simp [BitVec.getMsbD_intMin]
  rw [hmsb, hshift, toPoly_zero, zero_add]

theorem toPoly_step (poly r : BitVec w) :
    toPoly (step poly r) = X * toPoly r + generator poly * C (boolBit r.msb) := by
  have hdouble : C (boolBit r.msb) * X ^ w + C (boolBit r.msb) * X ^ w = (0 : (ZMod 2)[X]) :=
    CharTwo.add_self_eq_zero _
  calc toPoly (step poly r)
      = toPoly (r <<< 1) + C (boolBit r.msb) * toPoly poly := by rw [step, toPoly_xor, toPoly_ite]
    _ = (toPoly (r <<< 1) + C (boolBit r.msb) * X ^ w)
          + (X ^ w + toPoly poly) * C (boolBit r.msb) := by linear_combination -hdouble
    _ = X * toPoly r + generator poly * C (boolBit r.msb) := by rw [toPoly_shiftLeft hw, generator]

/-- A bit fed in is added at `X ^ w`, and the generator is taken away when there is need. -/
theorem toPoly_feed (poly r : BitVec w) (b : Bool) :
    ∃ q, toPoly (feed poly r b) = X * toPoly r + C (boolBit b) * X ^ w + generator poly * q := by
  refine ⟨C (boolBit (r ^^^ bit b).msb), ?_⟩
  rw [feed, toPoly_step hw, toPoly_xor, mul_add, toPoly_bit hw]

theorem toPoly_foldl_feed (poly : BitVec w) (message : List Bool) (r : BitVec w) :
    ∃ q, toPoly (message.foldl (feed poly) r)
      = toPoly r * X ^ message.length + messagePoly message * X ^ w + generator poly * q := by
  induction message generalizing r with
  | nil => exact ⟨0, by simp [messagePoly]⟩
  | cons b message ih =>
      obtain ⟨q, hfeed⟩ := toPoly_feed hw poly r b
      obtain ⟨q', hrest⟩ := ih (feed poly r b)
      refine ⟨q * X ^ message.length + q', ?_⟩
      rw [List.foldl_cons, hrest, hfeed, messagePoly, List.length_cons]
      ring

/-- **The remainder.** The register holds the remainder of the message times `X ^ w` by the
generator. -/
theorem toPoly_remainder (poly : BitVec w) (message : List Bool) :
    toPoly (remainder poly message) = (messagePoly message * X ^ w) %ₘ generator poly := by
  obtain ⟨q, hq⟩ := toPoly_foldl_feed hw poly message 0#w
  rw [toPoly_zero, zero_mul, zero_add] at hq
  symm
  refine (div_modByMonic_unique (-q) _ (generator_monic poly) ⟨?_, ?_⟩).2
  · rw [remainder, hq]
    ring
  · rw [degree_generator]
    exact degree_toPoly_lt _

end Step

end ShiftRegister
