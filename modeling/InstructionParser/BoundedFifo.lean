import InstructionParser.Runs
import Mathlib.Data.List.Basic

/-!
# A bounded queue

What a queue of a given capacity answers, as a list with the oldest element first. A call that
returns an element stores it behind a pointer, and leaves what is there when it fails.
-/

namespace BoundedFifo

variable {α : Type}

/-- A call, `out` being what the pointer points at before. -/
inductive Call (α : Type) where
  | push (value : α)
  | pop (out : α)
  | head (out : α)

/-- The return value, and the argument after the call. -/
structure Answer (α : Type) where
  code : Int
  out : α
deriving DecidableEq

def push (capacity : Nat) (held : List α) (value : α) : Answer α × List α :=
  if held.length = capacity then (⟨-1, value⟩, held) else (⟨0, value⟩, held ++ [value])

def pop (held : List α) (out : α) : Answer α × List α :=
  match held with
  | [] => (⟨-1, out⟩, [])
  | value :: rest => (⟨0, value⟩, rest)

def head (held : List α) (out : α) : Answer α × List α := ((pop held out).1, held)

def call (capacity : Nat) (held : List α) : Call α → Answer α × List α
  | .push value => push capacity held value
  | .pop out => pop held out
  | .head out => head held out

theorem exists_replay_push (capacity : Nat) (values held : List α) :
    ∃ more, (Runs.replay (call capacity) held (values.map .push)).2 = held ++ more := by
  induction values generalizing held with
  | nil => exact ⟨[], (List.append_nil held).symm⟩
  | cons value values ih =>
      obtain ⟨more, hmore⟩ := ih (push capacity held value).2
      rw [push] at hmore
      split_ifs at hmore with hfull
      · exact ⟨more, by rw [← hmore, List.map_cons, Runs.replay, call, push, if_pos hfull]⟩
      · refine ⟨value :: more, ?_⟩
        rw [List.map_cons, Runs.replay, call, push, if_neg hfull, hmore, List.append_assoc]
        rfl

theorem pop_after_pushes (capacity : Nat) {held : List α} (hne : held ≠ []) (values : List α)
    (out : α) :
    (pop (Runs.replay (call capacity) held (values.map .push)).2 out).1 = (head held out).1 := by
  obtain ⟨more, hmore⟩ := exists_replay_push capacity values held
  obtain ⟨value, rest, rfl⟩ := List.exists_cons_of_ne_nil hne
  rw [hmore]
  rfl

end BoundedFifo
