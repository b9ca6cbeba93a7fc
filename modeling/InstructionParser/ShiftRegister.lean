import Mathlib.Algebra.BigOperators.Fin
import Mathlib.Algebra.Field.ZMod
import Mathlib.Data.List.GetD
import Mathlib.Data.ZMod.Basic
import Mathlib.Logic.Function.Iterate

/-!
# Shift registers with linear feedback

A register of `w` bits is shifted towards its most significant bit, and what is shifted out decides
whether the feedback polynomial is added. A message is fed in bit by bit at that end. All of this is
linear, so the remainder of a sum is the sum of the remainders, and three classes of messages never
leave the remainder zero: bursts, messages with an odd number of ones, and pairs of ones that stand
closer together than the period of the register.
-/

namespace ShiftRegister

variable {w : Nat}

def step (poly r : BitVec w) : BitVec w := (r <<< 1) ^^^ (if r.msb then poly else 0#w)

def bit (b : Bool) : BitVec w := if b then BitVec.intMin w else 0#w

def feed (poly r : BitVec w) (b : Bool) : BitVec w := step poly (r ^^^ bit b)

def remainder (poly : BitVec w) (message : List Bool) : BitVec w := message.foldl (feed poly) 0#w

/-- The register whose bits, from the most significant on, are those of the message. -/
def load : List Bool → BitVec w
  | [] => 0#w
  | b :: message => bit b ^^^ (load message >>> 1)

variable {poly : BitVec w}

/-! ### Linearity -/

theorem ite_xor (v : BitVec w) (b b' : Bool) :
    (if (b ^^ b') then v else 0#w) = (if b then v else 0#w) ^^^ (if b' then v else 0#w) := by
  cases b <;> cases b' <;> simp

theorem step_xor (r r' : BitVec w) : step poly (r ^^^ r') = step poly r ^^^ step poly r' := by
  rw [step, step, step, BitVec.shiftLeft_xor_distrib, BitVec.msb_xor, ite_xor]
  ac_rfl

@[simp]
theorem step_zero : step poly 0#w = 0#w := by simp [step]

theorem iterate_step_xor (n : Nat) (r r' : BitVec w) :
    (step poly)^[n] (r ^^^ r') = (step poly)^[n] r ^^^ (step poly)^[n] r' := by
  induction n generalizing r r' with
  | zero => rfl
  | succ n ih => rw [Function.iterate_succ_apply, step_xor, ih]; rfl

theorem iterate_step_zero (n : Nat) : (step poly)^[n] 0#w = 0#w :=
  Function.iterate_fixed step_zero n

theorem bit_xor (b b' : Bool) : (bit (b ^^ b') : BitVec w) = bit b ^^^ bit b' := ite_xor _ b b'

theorem feed_xor (r r' : BitVec w) (b b' : Bool) :
    feed poly (r ^^^ r') (b ^^ b') = feed poly r b ^^^ feed poly r' b' := by
  rw [feed, feed, feed, ← step_xor, bit_xor]
  ac_rfl

theorem foldl_feed_xor {xs ys : List Bool} (h : xs.length = ys.length) (r r' : BitVec w) :
    (xs.zipWith Bool.xor ys).foldl (feed poly) (r ^^^ r')
      = xs.foldl (feed poly) r ^^^ ys.foldl (feed poly) r' := by
  induction xs generalizing ys r r' with
  | nil =>
      obtain rfl := List.eq_nil_of_length_eq_zero h.symm
      rfl
  | cons x xs ih =>
      cases ys with
      | nil => cases h
      | cons y ys =>
          rw [List.zipWith_cons_cons, List.foldl_cons, List.foldl_cons, List.foldl_cons, feed_xor,
            ih (Nat.succ.inj h)]

theorem remainder_xor {xs ys : List Bool} (h : xs.length = ys.length) :
    remainder poly (xs.zipWith Bool.xor ys) = remainder poly xs ^^^ remainder poly ys := by
  have hfold : (xs.zipWith Bool.xor ys).foldl (feed poly) (0#w ^^^ 0#w)
      = remainder poly xs ^^^ remainder poly ys := foldl_feed_xor h 0#w 0#w
  rwa [BitVec.xor_zero] at hfold

/-! ### Zeros -/

theorem foldl_feed_zeros (n : Nat) (r : BitVec w) :
    (List.replicate n false).foldl (feed poly) r = (step poly)^[n] r := by
  induction n generalizing r with
  | zero => rfl
  | succ n ih =>
      rw [List.replicate_succ, List.foldl_cons, ih, Function.iterate_succ_apply, feed]
      simp [bit]

theorem remainder_append_zeros (message : List Bool) (n : Nat) :
    remainder poly (message ++ List.replicate n false)
      = (step poly)^[n] (remainder poly message) := by
  rw [remainder, List.foldl_append, foldl_feed_zeros]
  rfl

theorem remainder_zeros_append (n : Nat) (message : List Bool) :
    remainder poly (List.replicate n false ++ message) = remainder poly message := by
  rw [remainder, List.foldl_append, foldl_feed_zeros, iterate_step_zero]
  rfl

/-- With a constant term in the polynomial no step loses anything. -/
theorem step_eq_zero_iff (hpoly : poly.getLsbD 0 = true) {r : BitVec w} :
    step poly r = 0#w ↔ r = 0#w := by
  constructor
  · intro h
    have hw : 0 < w := BitVec.lt_of_getLsbD hpoly
    have hbit : ∀ i, (step poly r).getLsbD i = false := fun i => by rw [h, BitVec.getLsbD_zero]
    have hmsb : r.msb = false := by
      have hlow := hbit 0
      cases hr : r.msb with
      | false => rfl
      | true => simp [step, hr, hpoly] at hlow
    apply BitVec.eq_of_getLsbD_eq
    intro i hi
    rw [BitVec.getLsbD_zero]
    by_cases hlast : i + 1 < w
    · have hnext := hbit (i + 1)
      rw [step, hmsb, BitVec.getLsbD_xor, BitVec.getLsbD_shiftLeft] at hnext
      simpa [hlast, hi] using hnext
    · rw [BitVec.msb_eq_getLsbD_last] at hmsb
      rwa [show i = w - 1 by omega]
  · rintro rfl
    exact step_zero

theorem iterate_step_eq_zero_iff (hpoly : poly.getLsbD 0 = true) (n : Nat) {r : BitVec w} :
    (step poly)^[n] r = 0#w ↔ r = 0#w := by
  induction n generalizing r with
  | zero => rfl
  | succ n ih => rw [Function.iterate_succ_apply, ih, step_eq_zero_iff hpoly]

/-! ### Short messages -/

theorem getMsbD_load (message : List Bool) {i : Nat} (hi : i < w) :
    (load message : BitVec w).getMsbD i = message.getD i false := by
  induction message generalizing i with
  | nil => simp [load]
  | cons b message ih =>
      have hbit : (bit b : BitVec w).getMsbD i = (b && decide (i = 0)) := by
        cases b with
        | false => simp [bit]
        | true =>
            rw [bit, if_pos rfl, BitVec.getMsbD_intMin]
            simp [Nat.zero_lt_of_lt hi]
      rw [load, BitVec.getMsbD_xor, hbit, BitVec.getMsbD_ushiftRight]
      cases i with
      | zero => simp
      | succ i =>
          have hlt : i < w := Nat.lt_of_succ_lt hi
          simpa [hi] using ih hlt

theorem step_load {message : List Bool} (h : message.length < w) :
    step poly (load message >>> 1) = load message := by
  have hmsb : (load message >>> 1 : BitVec w).msb = false := by
    rw [BitVec.msb_ushiftRight]
    simp
  rw [step, hmsb]
  apply BitVec.eq_of_getMsbD_eq
  intro i hi
  by_cases hlast : i + 1 < w
  · simp [BitVec.getMsbD_shiftLeft, BitVec.getMsbD_ushiftRight, hlast]
  · have hend : message.getD i false = false := by
      rw [List.getD_eq_default]
      omega
    rw [getMsbD_load message hi, hend]
    simp [BitVec.getMsbD_shiftLeft, hlast]

/-- Feeding in a message that fits the register is adding it and then shifting. -/
theorem foldl_feed_eq {message : List Bool} (h : message.length ≤ w) (r : BitVec w) :
    message.foldl (feed poly) r = (step poly)^[message.length] (r ^^^ load message) := by
  induction message generalizing r with
  | nil => simp [load]
  | cons b message ih =>
      have hshort : message.length < w := h
      rw [List.foldl_cons, ih (Nat.le_of_lt hshort), List.length_cons, Function.iterate_succ_apply,
        load, ← BitVec.xor_assoc, step_xor _ (load message >>> 1), step_load hshort]
      rfl

theorem load_ne_zero {message : List Bool} (h : message.length ≤ w) (hone : true ∈ message) :
    (load message : BitVec w) ≠ 0#w := by
  intro hzero
  obtain ⟨i, hi, hbit⟩ := List.getElem_of_mem hone
  have hget := getMsbD_load (w := w) message (Nat.lt_of_lt_of_le hi h)
  rw [hzero, List.getD_eq_getElem _ _ hi, hbit] at hget
  simp at hget

/-! ### What is never divisible -/

theorem remainder_burst_ne_zero (hpoly : poly.getLsbD 0 = true) {burst : List Bool}
    (hshort : burst.length ≤ w) (hone : true ∈ burst) (before behind : Nat) :
    remainder poly (List.replicate before false ++ burst ++ List.replicate behind false) ≠ 0#w := by
  rw [remainder_append_zeros, remainder_zeros_append, Ne, iterate_step_eq_zero_iff hpoly, remainder,
    foldl_feed_eq hshort, iterate_step_eq_zero_iff hpoly, BitVec.zero_xor]
  exact load_ne_zero hshort hone

theorem remainder_pair_ne_zero (hpoly : poly.getLsbD 0 = true) {distance : Nat}
    (hperiod : (step poly)^[distance + 1] poly ≠ poly) (before behind : Nat) :
    remainder poly (List.replicate before false ++ (true :: List.replicate distance false ++ [true])
      ++ List.replicate behind false) ≠ 0#w := by
  have hw : 0 < w := BitVec.lt_of_getLsbD hpoly
  have hbit : step poly (bit true) = poly := by
    rw [step, bit, if_pos rfl, BitVec.msb_intMin, decide_eq_true hw, if_pos rfl]
    have hshift : (BitVec.intMin w) <<< 1 = 0#w := by
      apply BitVec.eq_of_getMsbD_eq
      intro i hi
      rw [BitVec.getMsbD_shiftLeft, BitVec.getMsbD_intMin]
      simp
    rw [hshift, BitVec.zero_xor]
  have hfirst : feed poly 0#w true = poly := by rw [feed, BitVec.zero_xor, hbit]
  have hlast : feed poly ((step poly)^[distance] poly) true
      = (step poly)^[distance + 1] poly ^^^ poly := by
    rw [feed, step_xor, hbit, Function.iterate_succ_apply']
  rw [remainder_append_zeros, remainder_zeros_append, Ne, iterate_step_eq_zero_iff hpoly, remainder,
    List.foldl_append, List.foldl_cons, List.foldl_nil, List.foldl_cons, hfirst, foldl_feed_zeros,
    hlast, BitVec.xor_eq_zero_iff]
  exact hperiod

/-- The register does not come to `target` within `n` steps. -/
def neverAt (poly target : BitVec w) : Nat → BitVec w → Bool
  | 0, _ => true
  | n + 1, r => step poly r ≠ target && neverAt poly target n (step poly r)

theorem iterate_step_ne {target : BitVec w} {n : Nat} {r : BitVec w}
    (h : neverAt poly target n r = true) {k : Nat} (hk : k < n) :
    (step poly)^[k + 1] r ≠ target := by
  induction n generalizing r k with
  | zero => cases hk
  | succ n ih =>
      rw [neverAt, Bool.and_eq_true, decide_eq_true_eq] at h
      cases k with
      | zero => exact h.1
      | succ k => exact ih h.2 (Nat.lt_of_succ_lt_succ hk)

/-! ### The same, by the places of the ones -/

theorem eq_zeros {message : List Bool} (h : true ∉ message) :
    message = List.replicate message.length false := by
  refine List.eq_replicate_of_mem fun b hb => ?_
  cases b with
  | false => rfl
  | true => exact absurd hb h

theorem exists_first_one {message : List Bool} (h : true ∈ message) :
    ∃ n rest, message = List.replicate n false ++ true :: rest := by
  obtain ⟨zeros, rest, hsplit, hzeros⟩ := List.eq_append_cons_of_mem h
  exact ⟨zeros.length, rest, by rw [← eq_zeros hzeros, hsplit]⟩

/-- All ones of the message stand within `w` places. -/
def InBurst (w : Nat) (message : List Bool) : Prop :=
  ∃ start, ∀ i, message[i]? = some true → start ≤ i ∧ i < start + w

theorem remainder_inBurst_ne_zero (hpoly : poly.getLsbD 0 = true) {message : List Bool}
    (hburst : InBurst w message) (hone : true ∈ message) : remainder poly message ≠ 0#w := by
  obtain ⟨start, hstart⟩ := hburst
  have hbefore : true ∉ message.take start := by
    intro hmem
    obtain ⟨i, hi, hget⟩ := List.getElem_of_mem hmem
    rw [List.length_take] at hi
    rw [List.getElem_take] at hget
    have hplace := hstart i (List.getElem?_eq_some_iff.mpr ⟨by omega, hget⟩)
    omega
  have hbehind : true ∉ (message.drop start).drop w := by
    intro hmem
    obtain ⟨i, hi, hget⟩ := List.getElem_of_mem hmem
    rw [List.drop_drop, List.length_drop] at hi
    simp only [List.drop_drop, List.getElem_drop] at hget
    have hplace := hstart (start + w + i) (List.getElem?_eq_some_iff.mpr ⟨by omega, hget⟩)
    omega
  have hsplit : message = message.take start ++ (message.drop start).take w
      ++ (message.drop start).drop w := by
    rw [List.append_assoc, List.take_append_drop, List.take_append_drop]
  have hmiddle : true ∈ (message.drop start).take w := by
    rw [hsplit, List.mem_append, List.mem_append] at hone
    exact (hone.resolve_right hbehind).resolve_left hbefore
  rw [hsplit, eq_zeros hbefore, eq_zeros hbehind]
  exact remainder_burst_ne_zero hpoly (List.length_take_le _ _) hmiddle _ _

theorem remainder_two_ne_zero (hpoly : poly.getLsbD 0 = true) {n : Nat}
    (hperiod : neverAt poly poly n poly = true) {message : List Bool} (hlength : message.length ≤ n)
    (htwo : message.count true = 2) : remainder poly message ≠ 0#w := by
  obtain ⟨before, rest, rfl⟩ := exists_first_one
    (List.count_pos_iff.mp (show 0 < message.count true by omega))
  have hone : rest.count true = 1 := by
    rw [List.count_append, List.count_cons_self, List.count_replicate] at htwo
    simpa using htwo
  obtain ⟨distance, behind, rfl⟩ := exists_first_one
    (List.count_pos_iff.mp (show 0 < rest.count true by omega))
  have hbehind : true ∉ behind := by
    rw [← List.count_eq_zero]
    rw [List.count_append, List.count_cons_self, List.count_replicate] at hone
    simpa using hone
  have hclose : distance < n := by
    simp only [List.length_append, List.length_replicate, List.length_cons] at hlength
    omega
  have hsplit : List.replicate before false
        ++ true :: (List.replicate distance false ++ true :: behind)
      = List.replicate before false ++ (true :: List.replicate distance false ++ [true])
        ++ List.replicate behind.length false := by
    rw [← eq_zeros hbehind]
    simp
  rw [hsplit]
  exact remainder_pair_ne_zero hpoly (iterate_step_ne hperiod hclose) before behind.length

/-! ### Parity -/

section Parity

variable {n : Nat}

def boolBit (b : Bool) : ZMod 2 := if b then 1 else 0

theorem boolBit_xor (b b' : Bool) : boolBit (b ^^ b') = boolBit b + boolBit b' := by
  cases b <;> cases b' <;> decide

def parity (r : BitVec w) : ZMod 2 := ∑ i : Fin w, boolBit (r.getLsbD i)

theorem parity_xor (r r' : BitVec w) : parity (r ^^^ r') = parity r + parity r' := by
  simp only [parity, BitVec.getLsbD_xor, boolBit_xor, Finset.sum_add_distrib]

theorem parity_zero : parity 0#w = 0 := by simp [parity, boolBit]

/-- A polynomial divisible by `x + 1` has an odd number of terms below the highest, and then a step
keeps the parity: what is shifted out is made up for. -/
theorem parity_step {poly : BitVec (n + 1)} (hodd : parity poly = 1) (r : BitVec (n + 1)) :
    parity (step poly r) = parity r := by
  have hshift : parity (r <<< 1) = ∑ i : Fin n, boolBit (r.getLsbD i) := by
    rw [parity, Fin.sum_univ_succ]
    simp [boolBit]
  have hsplit : parity r = (∑ i : Fin n, boolBit (r.getLsbD i)) + boolBit r.msb := by
    rw [parity, Fin.sum_univ_castSucc, BitVec.msb_eq_getLsbD_last]
    simp
  rw [step, parity_xor, hshift, hsplit]
  cases r.msb with
  | false => simp [parity_zero, boolBit]
  | true => simp [hodd, boolBit]

theorem parity_remainder {poly : BitVec (n + 1)} (hodd : parity poly = 1) (message : List Bool) :
    parity (remainder poly message) = message.count true := by
  have hfold : ∀ r : BitVec (n + 1),
      parity (message.foldl (feed poly) r) = parity r + message.count true := by
    induction message with
    | nil => simp
    | cons b message ih =>
        intro r
        have hbit : parity (bit b : BitVec (n + 1)) = boolBit b := by
          rw [parity, Fin.sum_univ_castSucc]
          cases b with
          | false => simp [bit, boolBit]
          | true =>
              have hlow : ∀ i : Fin n,
                  boolBit ((bit true : BitVec (n + 1)).getLsbD i.castSucc) = 0 := by
                intro i
                rw [bit, if_pos rfl, BitVec.getLsbD_intMin, Fin.val_castSucc,
                  decide_eq_false (by omega)]
                rfl
              rw [Finset.sum_eq_zero fun i _ => hlow i, bit, if_pos rfl, BitVec.getLsbD_intMin,
                Fin.val_last, decide_eq_true rfl, zero_add]
        rw [List.foldl_cons, ih, feed, parity_step hodd, parity_xor, hbit, List.count_cons]
        cases b <;> simp [boolBit, add_assoc, add_comm]
  rw [remainder, hfold, parity_zero, zero_add]

theorem remainder_odd_ne_zero {poly : BitVec (n + 1)} (hodd : parity poly = 1) {message : List Bool}
    (hcount : message.count true % 2 = 1) : remainder poly message ≠ 0#(n + 1) := by
  intro hzero
  have hparity := parity_remainder hodd message
  rw [hzero, parity_zero, ← ZMod.natCast_mod, hcount] at hparity
  exact absurd hparity (by decide)

end Parity

end ShiftRegister
