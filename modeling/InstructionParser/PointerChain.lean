import Mathlib.Data.List.Infix
import Mathlib.Logic.Function.Basic

/-!
# Chains of pointers

A heap of nodes with one pointer each. `PointerChain next p ns` says that the pointers lead from `p`
through `ns`, in this order, to the null pointer.
-/

variable {ι : Type}

def PointerChain (next : ι → Option ι) : Option ι → List ι → Prop
  | p, [] => p = none
  | p, n :: ns => p = some n ∧ PointerChain next (next n) ns

namespace PointerChain

variable {next : ι → Option ι} {p : Option ι} {n : ι} {ns before after : List ι}

theorem head_eq (h : PointerChain next p ns) : p = ns.head? := by
  cases ns with
  | nil => exact h
  | cons n ns => exact h.1

theorem unique {ms : List ι} (h : PointerChain next p ns) (h' : PointerChain next p ms) : ns = ms := by
  induction ns generalizing p ms with
  | nil =>
      cases ms with
      | nil => rfl
      | cons m ms => exact absurd (h.symm.trans h'.1) (by simp)
  | cons n ns ih =>
      cases ms with
      | nil => exact absurd (h'.symm.trans h.1) (by simp)
      | cons m ms =>
          obtain rfl := Option.some.inj (h.1.symm.trans h'.1)
          rw [ih h.2 h'.2]

theorem next_eq (h : PointerChain next p (before ++ n :: after)) : next n = after.head? := by
  induction before generalizing p with
  | nil => exact h.2.head_eq
  | cons b before ih => exact ih h.2

section Link

variable [DecidableEq ι] {new : ι} {q : Option ι}

theorem frame (h : PointerChain next p ns) (hn : n ∉ ns) :
    PointerChain (Function.update next n q) p ns := by
  induction ns generalizing p with
  | nil => exact h
  | cons m ns ih =>
      refine ⟨h.1, ?_⟩
      have hmn : m ≠ n := fun heq => hn (heq ▸ List.mem_cons_self)
      rw [Function.update_of_ne hmn]
      exact ih h.2 fun hmem => hn (List.mem_cons_of_mem m hmem)

theorem link (h : PointerChain next p (before ++ [n])) (hn : n ∉ before) (hne : new ≠ n)
    (hnew : next new = none) :
    PointerChain (Function.update next n (some new)) p (before ++ [n] ++ [new]) := by
  induction before generalizing p with
  | nil =>
      refine ⟨h.1, Function.update_self .., ?_⟩
      rw [Function.update_of_ne hne]
      exact hnew
  | cons b before ih =>
      refine ⟨h.1, ?_⟩
      have hbn : b ≠ n := fun heq => hn (heq ▸ List.mem_cons_self)
      rw [Function.update_of_ne hbn]
      exact ih h.2 fun hmem => hn (List.mem_cons_of_mem b hmem)

end Link

end PointerChain
