import Mathlib.Data.List.Basic
import Mathlib.Tactic.Common

/-!
# Weights of threads

A list of threads, each standing somewhere in its program, and a weight for each place. One thread
moves at a time: the total changes by what this thread has moved.
-/

namespace Census

variable {σ : Type} {l : List σ} {i : Nat} {old new : σ}

def total (weight : σ → Nat) : List σ → Nat
  | [] => 0
  | x :: l => weight x + total weight l

/-- How many threads stand at a place of a kind. -/
def count (kind : σ → Bool) (l : List σ) : Nat := total (fun x => (kind x).toNat) l

theorem total_append (weight : σ → Nat) (l l' : List σ) :
    total weight (l ++ l') = total weight l + total weight l' := by
  induction l with
  | nil => simp [total]
  | cons x l ih => rw [List.cons_append, total, ih, total, Nat.add_assoc]

theorem total_set (weight : σ → Nat) (h : l[i]? = some old) (new : σ) :
    total weight (l.set i new) + weight old = total weight l + weight new := by
  induction l generalizing i with
  | nil => cases h
  | cons x l ih =>
      cases i with
      | zero =>
          obtain rfl := Option.some.inj h
          rw [List.set_cons_zero, total, total]
          omega
      | succ i =>
          have hrest := ih h
          rw [List.set_cons_succ, total, total]
          omega

theorem total_map (weight : σ → Nat) (f : σ → σ) (l : List σ) :
    total weight (l.map f) = total (fun x => weight (f x)) l := by
  induction l with
  | nil => rfl
  | cons x l ih => rw [List.map_cons, total, total, ih]

theorem getElem?_set_cases {j : Nat} {x : σ} (h : (l.set i new)[j]? = some x) :
    j = i ∧ x = new ∨ j ≠ i ∧ l[j]? = some x := by
  rw [List.getElem?_set] at h
  split_ifs at h with heq hlt
  · exact Or.inl ⟨heq.symm, (Option.some.inj h).symm⟩
  · exact Or.inr ⟨Ne.symm heq, h⟩

theorem mem_set_cases {x : σ} (h : x ∈ l.set i new) : x = new ∨ x ∈ l := by
  obtain ⟨j, hj⟩ := List.mem_iff_getElem?.mp h
  rcases getElem?_set_cases hj with ⟨_, hx⟩ | ⟨_, hx⟩
  · exact Or.inl hx
  · exact Or.inr (List.mem_of_getElem? hx)

theorem filterMap_cons_eq {β : Type} (f : σ → Option β) (x : σ) (l : List σ) :
    (x :: l).filterMap f = (f x).toList ++ l.filterMap f := by
  rw [List.filterMap_cons]
  cases f x <;> rfl

/-- What the threads hold, when one of them moves. -/
theorem filterMap_set_perm {β : Type} (f : σ → Option β) (h : l[i]? = some old) (new : σ) :
    ((l.set i new).filterMap f ++ (f old).toList).Perm (l.filterMap f ++ (f new).toList) := by
  induction l generalizing i with
  | nil => cases h
  | cons x l ih =>
      cases i with
      | zero =>
          obtain rfl := Option.some.inj h
          rw [List.set_cons_zero, filterMap_cons_eq, filterMap_cons_eq]
          have hswap : ((f new).toList ++ l.filterMap f).Perm (l.filterMap f ++ (f new).toList) :=
            List.perm_append_comm
          rw [List.append_assoc (f x).toList]
          exact List.perm_append_comm.trans (hswap.append_left _)
      | succ i =>
          have hrest := ih h
          rw [List.set_cons_succ, List.filterMap_cons, List.filterMap_cons]
          cases f x with
          | none => exact hrest
          | some y => exact hrest.cons y

theorem count_concat (kind : σ → Bool) (l : List σ) (x : σ) :
    count kind (l ++ [x]) = count kind l + (kind x).toNat := total_append _ l [x]

theorem count_set (kind : σ → Bool) (h : l[i]? = some old) (new : σ) :
    count kind (l.set i new) + (kind old).toNat = count kind l + (kind new).toNat :=
  total_set _ h new

theorem count_eq_zero_iff {kind : σ → Bool} : count kind l = 0 ↔ ∀ x ∈ l, kind x = false := by
  induction l with
  | nil => simp [count, total]
  | cons x l ih =>
      rw [count] at ih ⊢
      rw [total, Nat.add_eq_zero_iff, ih]
      simp

theorem count_pos_iff {kind : σ → Bool} : 0 < count kind l ↔ ∃ x ∈ l, kind x = true := by
  rw [Nat.pos_iff_ne_zero, Ne, count_eq_zero_iff]
  push Not
  simp

theorem count_add_count_not (kind : σ → Bool) (l : List σ) :
    count kind l + count (fun x => !kind x) l = l.length := by
  induction l with
  | nil => rfl
  | cons x l ih =>
      simp only [count] at ih
      simp only [count, total, List.length_cons]
      cases kind x <;> simp <;> omega

end Census
