import Mathlib.Data.List.Basic
import Mathlib.Data.Nat.ModEq
import Mathlib.Logic.Function.Basic
import Mathlib.Tactic.Common

/-!
# Rings of slots

An array of `size` slots used in a circle. `held` lists the `count` elements from slot `head` on, the
oldest first. An index runs up to the last slot and then starts again at 0.
-/

namespace RingBuffer

variable {α : Type} {slots : Nat → α} {size head count : Nat}

/-- The slot behind slot `i`. -/
def next (size i : Nat) : Nat := if i + 1 = size then 0 else i + 1

def held (slots : Nat → α) (size head count : Nat) : List α :=
  (List.range count).map fun k => slots ((head + k) % size)

theorem next_eq_mod {i : Nat} (h : i < size) : next size i = (i + 1) % size := by
  unfold next
  split_ifs with hlast
  · rw [hlast, Nat.mod_self]
  · rw [Nat.mod_eq_of_lt (by omega)]

theorem next_lt {i : Nat} (h : i < size) : next size i < size := by
  rw [next_eq_mod h]
  exact Nat.mod_lt _ (Nat.zero_lt_of_lt h)

@[simp]
theorem held_length : (held slots size head count).length = count := by simp [held]

@[simp]
theorem held_zero : held slots size head 0 = [] := rfl

/-- Slots that are not as many steps apart as the ring has slots are different. -/
theorem slot_ne {k : Nat} (hk : k < count) (hcount : count < size) :
    (head + k) % size ≠ (head + count) % size := by
  intro heq
  have hcancel : k ≡ count [MOD size] := Nat.ModEq.add_left_cancel' head heq
  rw [Nat.ModEq, Nat.mod_eq_of_lt (by omega), Nat.mod_eq_of_lt hcount] at hcancel
  omega

theorem held_push (hcount : count < size) (value : α) :
    held (Function.update slots ((head + count) % size) value) size head (count + 1)
      = held slots size head count ++ [value] := by
  rw [held, List.range_succ, List.map_append, List.map_singleton, Function.update_self]
  refine congrArg (· ++ [value]) (List.map_congr_left fun k hk => ?_)
  exact Function.update_of_ne (slot_ne (List.mem_range.mp hk) hcount) _ _

theorem held_pop (hhead : head < size) :
    held slots size head (count + 1) = slots head :: held slots size (next size head) count := by
  rw [held, List.range_succ_eq_map, List.map_cons, List.map_map, Nat.add_zero,
    Nat.mod_eq_of_lt hhead]
  refine congrArg _ (List.map_congr_left fun k _ => congrArg slots ?_)
  rw [next_eq_mod hhead, Nat.mod_add_mod, Nat.succ_eq_add_one]
  congr 1
  omega

end RingBuffer
