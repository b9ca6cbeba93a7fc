import Mathlib.Data.List.Basic
import Mathlib.Tactic.Common

/-!
# A stream written piece by piece

Each write offers a piece and some of its first elements are taken. What was taken is the beginning of
what was offered if and only if nothing is taken any more once a write has fallen short, when elements
are told apart by their places.
-/

namespace PartialStream

variable {α : Type}

structure Write (α : Type) where
  offered : List α
  count : Nat

namespace Write

def taken (w : Write α) : List α := w.offered.take w.count

/-- Not all that was offered was taken. -/
def Short (w : Write α) : Prop := w.count < w.offered.length

instance (w : Write α) : Decidable w.Short := inferInstanceAs (Decidable (_ < _))

end Write

def offered (log : List (Write α)) : List α := log.flatMap Write.offered

def accepted (log : List (Write α)) : List α := log.flatMap Write.taken

/-- What was taken, each element with its place in what was offered. -/
def placed : Nat → List (Write α) → List (α × Nat)
  | _, [] => []
  | start, w :: log => w.taken.zipIdx start ++ placed (start + w.offered.length) log

/-- Nothing is taken after a write that fell short. -/
def StopsShort (log : List (Write α)) : Prop := log.Pairwise fun w w' => w.Short → w'.taken = []

instance [DecidableEq α] (log : List (Write α)) : Decidable (StopsShort log) :=
  inferInstanceAs (Decidable (log.Pairwise _))

theorem map_fst_placed (start : Nat) (log : List (Write α)) :
    (placed start log).map Prod.fst = accepted log := by
  induction log generalizing start with
  | nil => rfl
  | cons w log ih =>
      rw [placed, List.map_append, ih, List.zipIdx_map_fst]
      rfl

theorem accepted_prefix_of_placed {start : Nat} {log : List (Write α)} {stream : List α}
    (h : placed start log <+: stream.zipIdx start) : accepted log <+: stream := by
  have hmap := h.map Prod.fst
  rwa [map_fst_placed, List.zipIdx_map_fst] at hmap

theorem le_of_mem_placed {start : Nat} {log : List (Write α)} {p : α × Nat}
    (h : p ∈ placed start log) : start ≤ p.2 := by
  induction log generalizing start with
  | nil => cases h
  | cons w log ih =>
      rcases List.mem_append.mp h with hfirst | hrest
      · exact List.le_snd_of_mem_zipIdx hfirst
      · exact Nat.le_of_add_right_le (ih hrest)

theorem placed_eq_nil_iff {start : Nat} {log : List (Write α)} :
    placed start log = [] ↔ ∀ w ∈ log, w.taken = [] := by
  induction log generalizing start with
  | nil => simp [placed]
  | cons w log ih => simp [placed, ih]

/-- The elements taken are the first ones of the stream, at their own places, if and only if nothing
is taken after a write that fell short. -/
theorem placed_prefix_iff (start : Nat) (log : List (Write α)) (rest : List α) :
    placed start log <+: (offered log ++ rest).zipIdx start ↔ StopsShort log := by
  induction log generalizing start with
  | nil => simp [placed, StopsShort]
  | cons w log ih =>
      have hstream : (offered (w :: log) ++ rest).zipIdx start
          = w.offered.zipIdx start ++ (offered log ++ rest).zipIdx (start + w.offered.length) := by
        rw [offered, List.flatMap_cons, List.append_assoc, List.zipIdx_append]
        rfl
      rw [placed, hstream, StopsShort, List.pairwise_cons]
      by_cases hshort : w.Short
      · -- The first element left over has a place before all that later writes take.
        obtain ⟨b, left, hleft⟩ := List.exists_cons_of_ne_nil
          (List.ne_nil_of_length_pos (by rw [List.length_drop]; exact Nat.sub_pos_of_lt hshort) :
            w.offered.drop w.count ≠ [])
        have hsplit : w.offered.zipIdx start
            = w.taken.zipIdx start ++ (b :: left).zipIdx (start + w.count) := by
          have hlen : w.taken.length = w.count := List.length_take_of_le (Nat.le_of_lt hshort)
          rw [← hleft, ← hlen, ← List.zipIdx_append, hlen, Write.taken, List.take_append_drop]
        have hnil : placed (start + w.offered.length) log <+: (b :: left).zipIdx (start + w.count)
              ++ (offered log ++ rest).zipIdx (start + w.offered.length)
            ↔ placed (start + w.offered.length) log = [] := by
          constructor
          · intro hprefix
            cases hlog : placed (start + w.offered.length) log with
            | nil => rfl
            | cons p ps =>
                have hle := le_of_mem_placed (p := p) (hlog ▸ List.mem_cons_self)
                rw [hlog, List.zipIdx_cons, List.cons_append, List.cons_prefix_cons] at hprefix
                have hplace : p.2 = start + w.count := congrArg Prod.snd hprefix.1
                have hlt : w.count < w.offered.length := hshort
                omega
          · intro hempty
            rw [hempty]
            exact List.nil_prefix
        rw [hsplit, List.append_assoc, List.prefix_append_right_inj, hnil, placed_eq_nil_iff]
        constructor
        · intro hall
          refine ⟨fun w' hw' _ => hall w' hw', ?_⟩
          exact List.pairwise_of_forall_mem_list fun _ _ w' hw' _ => hall w' hw'
        · intro hpair w' hw'
          exact hpair.1 w' hw' hshort
      · have htaken : w.taken = w.offered := List.take_of_length_le (Nat.le_of_not_lt hshort)
        rw [htaken, List.prefix_append_right_inj, ih]
        constructor
        · exact fun hrest => ⟨fun w' _ h => absurd h hshort, hrest⟩
        · exact fun hpair => hpair.2

end PartialStream
