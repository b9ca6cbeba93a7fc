import InstructionParser.BoundedFifo
import InstructionParser.Proof.Queue
import InstructionParser.Runs

/-!
# The command queue refines a bounded queue

One thread at a time may call the queue in any order and as often as it likes: what it is told is what
a list of at most 99 commands would tell it.
-/

namespace InstructionParser

open Runs BoundedFifo

namespace CircleQueue

variable {α : Type} {q : CircleQueue α} {held : List α}

/-- The slot at `front` is never used. -/
def capacity : Nat := queueSize - 1

/-- A call of one of the three functions on the queue. -/
def call (q : CircleQueue α) : Call α → BoundedFifo.Answer α × CircleQueue α
  | .push cmd => (⟨(q.pushCmdQueue cmd).1, cmd⟩, (q.pushCmdQueue cmd).2)
  | .pop cmd => (⟨(q.popCmdQueue cmd).1, (q.popCmdQueue cmd).2.1⟩, (q.popCmdQueue cmd).2.2)
  | .head cmd => (⟨(q.getCmdHead cmd).1, (q.getCmdHead cmd).2⟩, q)

/-- The ring holds the list. -/
structure Holds (q : CircleQueue α) (held : List α) : Prop extends q.WellFormed where
  contents_eq : q.contents = held

theorem holds_zeroed (zero : α) : (zeroed zero).Holds [] :=
  ⟨wellFormed_zeroed zero, contents_zeroed zero⟩

theorem Holds.length_eq (h : q.Holds held) : held.length = q.size := by
  rw [← h.contents_eq, contents_length]

theorem Holds.isQueueFull_iff (h : q.Holds held) :
    q.isQueueFull = true ↔ held.length = capacity := by
  rw [h.length_eq]
  exact h.toWellFormed.isQueueFull_iff

theorem Holds.isQueueEmpty_iff (h : q.Holds held) : q.isQueueEmpty = true ↔ held = [] := by
  rw [h.toWellFormed.isQueueEmpty_iff, ← h.length_eq, List.length_eq_zero_iff]

/-! ### The three calls -/

theorem Holds.push (h : q.Holds held) (cmd : α) :
    (q.call (.push cmd)).1 = (BoundedFifo.push capacity held cmd).1
      ∧ (q.call (.push cmd)).2.Holds (BoundedFifo.push capacity held cmd).2 := by
  have hiff := h.isQueueFull_iff
  simp only [call, pushCmdQueue, BoundedFifo.push]
  cases hfull : q.isQueueFull with
  | true =>
      rw [pushElement_full hfull, if_pos (hiff.mp hfull)]
      exact ⟨rfl, h⟩
  | false =>
      have hnot : ¬ held.length = capacity := by
        rw [← hiff, hfull]
        exact Bool.false_ne_true
      rw [pushElement_notFull hfull, if_neg hnot]
      refine ⟨rfl, h.toWellFormed.push cmd, ?_⟩
      rw [contents_push h.toWellFormed hfull, h.contents_eq]

theorem Holds.pop (h : q.Holds held) (cmd : α) :
    (q.call (.pop cmd)).1 = (BoundedFifo.pop held cmd).1
      ∧ (q.call (.pop cmd)).2.Holds (BoundedFifo.pop held cmd).2 := by
  have hiff := h.isQueueEmpty_iff
  simp only [call, popCmdQueue]
  cases hempty : q.isQueueEmpty with
  | true =>
      obtain rfl := hiff.mp hempty
      rw [popElement_empty hempty]
      exact ⟨rfl, h⟩
  | false =>
      have hcons := contents_pop h.toWellFormed hempty
      rw [h.contents_eq] at hcons
      rw [popElement_notEmpty hempty, hcons]
      exact ⟨rfl, h.toWellFormed.pop, rfl⟩

theorem getCmdHead_eq (q : CircleQueue α) (cmd : α) :
    q.getCmdHead cmd = ((q.popCmdQueue cmd).1, (q.popCmdQueue cmd).2.1) := by
  rw [getCmdHead, popCmdQueue, getHeadElement_eq]
  cases hempty : q.isQueueEmpty with
  | true => rw [popElement_empty hempty]
  | false => rw [popElement_notEmpty hempty]

theorem call_head (q : CircleQueue α) (cmd : α) :
    q.call (.head cmd) = ((q.call (.pop cmd)).1, q) := by
  simp only [call, getCmdHead_eq]

theorem Holds.call (h : q.Holds held) (c : Call α) :
    (q.call c).1 = (BoundedFifo.call capacity held c).1
      ∧ (q.call c).2.Holds (BoundedFifo.call capacity held c).2 := by
  cases c with
  | push cmd => exact h.push cmd
  | pop cmd => exact h.pop cmd
  | head cmd =>
      rw [call_head]
      exact ⟨(h.pop cmd).1, h⟩

/-- What the calls answer in every state that a run reaches: when each fails, that it then changes
neither the queue nor its argument, and that `get_cmd_head` foretells the next pop. -/
structure AnswersAs (q : CircleQueue α) (held : List α) : Prop where
  front_lt : q.front < queueSize
  tail_lt : q.tail < queueSize
  contents_eq : q.contents = held
  length_le : held.length ≤ capacity
  push_fails_iff : ∀ cmd, (q.pushCmdQueue cmd).1 = -1 ↔ held.length = capacity
  push_failed : ∀ cmd, (q.pushCmdQueue cmd).1 = -1 → (q.pushCmdQueue cmd).2 = q
  pop_fails_iff : ∀ cmd, (q.popCmdQueue cmd).1 = -1 ↔ held = []
  pop_failed : ∀ cmd, (q.popCmdQueue cmd).1 = -1 → (q.popCmdQueue cmd).2 = (cmd, q)
  head_fails_iff : ∀ cmd, (q.getCmdHead cmd).1 = -1 ↔ held = []
  head_failed : ∀ cmd, (q.getCmdHead cmd).1 = -1 → (q.getCmdHead cmd).2 = cmd
  head_eq_next_pop : ∀ cmd (pushed : List α), held ≠ [] →
    ((replay call q (pushed.map .push)).2.call (.pop cmd)).1 = (q.call (.head cmd)).1

theorem Holds.push_fails_iff (h : q.Holds held) (cmd : α) :
    (q.pushCmdQueue cmd).1 = -1 ↔ held.length = capacity := by
  rw [← h.isQueueFull_iff, pushCmdQueue]
  cases hfull : q.isQueueFull with
  | true => simp [pushElement_full hfull]
  | false => simp [pushElement_notFull hfull]

theorem Holds.pop_fails_iff (h : q.Holds held) (cmd : α) :
    (q.popCmdQueue cmd).1 = -1 ↔ held = [] := by
  rw [← h.isQueueEmpty_iff, popCmdQueue]
  cases hempty : q.isQueueEmpty with
  | true => simp [popElement_empty hempty]
  | false => simp [popElement_notEmpty hempty]

theorem push_failed {cmd : α} (hfail : (q.pushCmdQueue cmd).1 = -1) :
    (q.pushCmdQueue cmd).2 = q := by
  rw [pushCmdQueue] at *
  cases hfull : q.isQueueFull with
  | true => rw [pushElement_full hfull]
  | false => simp [pushElement_notFull hfull] at hfail

theorem pop_failed {cmd : α} (hfail : (q.popCmdQueue cmd).1 = -1) :
    (q.popCmdQueue cmd).2 = (cmd, q) := by
  rw [popCmdQueue] at *
  cases hempty : q.isQueueEmpty with
  | true => rw [popElement_empty hempty]
  | false => simp [popElement_notEmpty hempty] at hfail

theorem Holds.head_eq_next_pop (h : q.Holds held) (hne : held ≠ []) (cmd : α) (pushed : List α) :
    ((replay CircleQueue.call q (pushed.map .push)).2.call (.pop cmd)).1
      = (q.call (.head cmd)).1 := by
  have hpushed := (replay_of_simulation (fun _ _ c hholds => Holds.call hholds c) h
    (pushed.map .push)).2
  calc ((replay CircleQueue.call q (pushed.map .push)).2.call (.pop cmd)).1
      = (BoundedFifo.pop (replay (BoundedFifo.call capacity) held (pushed.map .push)).2 cmd).1 :=
        (hpushed.pop cmd).1
    _ = (BoundedFifo.head held cmd).1 := pop_after_pushes capacity hne pushed cmd
    _ = (q.call (.head cmd)).1 := (h.call (.head cmd)).1.symm

theorem Holds.answersAs (h : q.Holds held) : q.AnswersAs held where
  front_lt := h.front_lt
  tail_lt := h.tail_lt
  contents_eq := h.contents_eq
  length_le := by
    have hlt := h.toWellFormed.size_lt
    rw [h.length_eq, capacity]
    omega
  push_fails_iff := h.push_fails_iff
  push_failed _ := push_failed
  pop_fails_iff := h.pop_fails_iff
  pop_failed _ := pop_failed
  head_fails_iff cmd := by
    rw [getCmdHead_eq]
    exact h.pop_fails_iff cmd
  head_failed cmd hfail := by
    rw [getCmdHead_eq] at *
    exact congrArg Prod.fst (pop_failed hfail)
  head_eq_next_pop cmd pushed hne := h.head_eq_next_pop hne cmd pushed

/-- **Ring as queue.** From the zeroed ring, any calls in any order answer as on a list of at most 99
elements, and the ring holds that list. -/
theorem refines_boundedFifo (zero : α) (calls : List (Call α)) :
    (replay call (zeroed zero) calls).1 = (replay (BoundedFifo.call capacity) [] calls).1
      ∧ (replay call (zeroed zero) calls).2.AnswersAs
        (replay (BoundedFifo.call capacity) [] calls).2 := by
  obtain ⟨hanswers, hholds⟩ := replay_of_simulation
    (fun _ _ c hholds => Holds.call hholds c) (holds_zeroed zero) calls
  exact ⟨hanswers, hholds.answersAs⟩

end CircleQueue

end InstructionParser
