import Mathlib.InformationTheory.Coding.UniquelyDecodable
import Mathlib.Tactic.Common

/-!
# Messages that carry their own length

A code in which every word says how long it is has no word that is a proper prefix of another, and a
sequence of nonempty words of such a code can be taken apart in one way only.
-/

namespace PrefixCode

open InformationTheory

variable {α : Type} {code : Set (List α)}

def PrefixFree (code : Set (List α)) : Prop :=
  ∀ word ∈ code, ∀ other ∈ code, word <+: other → word = other

/-- `announced` reads the length of a word off its beginning, whatever stands behind the word. -/
theorem prefixFree_of_announced (announced : List α → Option Nat)
    (hlength : ∀ word ∈ code, ∀ rest, announced (word ++ rest) = some word.length) :
    PrefixFree code := by
  rintro word hword _ hother ⟨rest, rfl⟩
  have hshort := hlength word hword rest
  have hlong := hlength _ hother []
  rw [List.append_nil, hshort, Option.some.injEq, List.length_append, Nat.left_eq_add] at hlong
  rw [List.eq_nil_of_length_eq_zero hlong, List.append_nil]

theorem PrefixFree.uniquelyDecodable (h : PrefixFree code) (hnil : [] ∉ code) :
    UniquelyDecodable code := by
  intro words
  induction words with
  | nil =>
      intro others _ hothers hflat
      cases others with
      | nil => rfl
      | cons other others =>
          have hempty : other = [] := (List.append_eq_nil_iff.mp hflat.symm).1
          exact absurd (hempty ▸ hothers other List.mem_cons_self) hnil
  | cons word words ih =>
      intro others hwords hothers hflat
      have hword := hwords word List.mem_cons_self
      cases others with
      | nil =>
          have hempty : word = [] := (List.append_eq_nil_iff.mp hflat).1
          exact absurd (hempty ▸ hword) hnil
      | cons other others =>
          have hother := hothers other List.mem_cons_self
          rw [List.flatten_cons, List.flatten_cons] at hflat
          -- Of two words at the start of one list, one is a prefix of the other.
          have hsame : word = other := by
            rcases List.append_eq_append_iff.mp hflat with ⟨rest, hrest, _⟩ | ⟨rest, hrest, _⟩
            · exact h word hword other hother ⟨rest, hrest.symm⟩
            · exact (h other hother word hword ⟨rest, hrest.symm⟩).symm
          rw [hsame, List.append_cancel_left_eq] at hflat
          rw [hsame, ih others (fun w hw => hwords w (List.mem_cons_of_mem word hw))
            (fun w hw => hothers w (List.mem_cons_of_mem other hw)) hflat]

end PrefixCode
