import InstructionParser.Queue
import Mathlib.Data.List.Basic
import Mathlib.Tactic.Common

/-!
# The command queue as a list

With one thread at a time the ring is a bounded queue: a push appends unless 99 elements are held, and
pops return the elements in the order they were pushed.
-/

namespace InstructionParser

namespace CircleQueue

variable {α : Type} {q : CircleQueue α}

structure WellFormed (q : CircleQueue α) : Prop where
  front_lt : q.front < queueSize
  tail_lt : q.tail < queueSize

def size (q : CircleQueue α) : Nat := (q.tail + queueSize - q.front) % queueSize

/-- The elements held, the oldest first. -/
def contents (q : CircleQueue α) : List α :=
  (List.range q.size).map fun i => q.data ((q.front + 1 + i) % queueSize)

/-- What successive pops return, until one finds the queue empty. -/
def drain : Nat → CircleQueue α → List α
  | 0, _ => []
  | fuel + 1, q =>
      match q.popElement with
      | (none, _) => []
      | (some value, q) => value :: drain fuel q

theorem wellFormed_zeroed (zero : α) : (zeroed zero).WellFormed :=
  ⟨Nat.zero_lt_succ 99, Nat.zero_lt_succ 99⟩

@[simp]
theorem contents_length (q : CircleQueue α) : q.contents.length = q.size := by simp [contents]

@[simp]
theorem contents_zeroed (zero : α) : (zeroed zero).contents = [] := by
  rw [← List.length_eq_zero_iff, contents_length]
  simp [size, zeroed]

theorem WellFormed.size_lt (_h : q.WellFormed) : q.size < queueSize := Nat.mod_lt _ (by decide)

theorem WellFormed.isQueueEmpty_iff (h : q.WellFormed) : q.isQueueEmpty = true ↔ q.size = 0 := by
  obtain ⟨hfront, htail⟩ := h
  simp only [isQueueEmpty, size, queueSize, decide_eq_true_eq] at *
  omega

theorem WellFormed.isQueueFull_iff (h : q.WellFormed) :
    q.isQueueFull = true ↔ q.size = queueSize - 1 := by
  obtain ⟨hfront, htail⟩ := h
  rw [isQueueFull, decide_eq_true_eq]
  simp only [size, queueSize] at *
  omega

theorem pushElement_full (hfull : q.isQueueFull = true) (value : α) :
    q.pushElement value = (-1, q) := by
  simp [pushElement, hfull]

theorem pushElement_notFull (hfull : q.isQueueFull = false) (value : α) :
    q.pushElement value = (0, q.advanceTail.writeSlot value) := by
  simp [pushElement, hfull]

theorem WellFormed.push (h : q.WellFormed) (value : α) :
    (q.advanceTail.writeSlot value).WellFormed :=
  ⟨h.front_lt, Nat.mod_lt _ (by decide)⟩

theorem contents_push (h : q.WellFormed) (hfull : q.isQueueFull = false) (value : α) :
    (q.advanceTail.writeSlot value).contents = q.contents ++ [value] := by
  have hnot : ¬ q.size = queueSize - 1 := by
    rw [← h.isQueueFull_iff, hfull]
    exact Bool.false_ne_true
  have hlt := h.size_lt
  obtain ⟨hfront, htail⟩ := h
  have hsize : (q.advanceTail.writeSlot value).size = q.size + 1 := by
    simp only [size, advanceTail, writeSlot, queueSize] at *
    omega
  simp only [contents, hsize, List.range_succ, List.map_append, List.map_cons, List.map_nil]
  congr 1
  · refine List.map_congr_left fun i hi => Function.update_of_ne ?_ _ _
    rw [List.mem_range] at hi
    simp only [size, advanceTail, writeSlot, queueSize] at *
    omega
  · have hslot : ((q.advanceTail.writeSlot value).front + 1 + q.size) % queueSize
        = (q.advanceTail).tail := by
      simp only [size, advanceTail, writeSlot, queueSize] at *
      omega
    rw [hslot]
    simp [writeSlot]

theorem popElement_empty (hempty : q.isQueueEmpty = true) : q.popElement = (none, q) := by
  simp [popElement, hempty]

theorem popElement_notEmpty (hempty : q.isQueueEmpty = false) :
    q.popElement = (some q.advanceFront.readSlot, q.advanceFront) := by
  simp [popElement, hempty]

theorem WellFormed.pop (h : q.WellFormed) : q.advanceFront.WellFormed :=
  ⟨Nat.mod_lt _ (by decide), h.tail_lt⟩

theorem contents_pop (h : q.WellFormed) (hempty : q.isQueueEmpty = false) :
    q.contents = q.advanceFront.readSlot :: q.advanceFront.contents := by
  have hnot : ¬ q.size = 0 := by
    rw [← h.isQueueEmpty_iff, hempty]
    exact Bool.false_ne_true
  obtain ⟨hfront, htail⟩ := h
  have hsize : q.size = q.advanceFront.size + 1 := by
    simp only [size, advanceFront, queueSize] at *
    omega
  simp only [contents, hsize, List.range_succ_eq_map, List.map_cons, List.map_map]
  congr 1
  refine List.map_congr_left fun i _ => congrArg q.data ?_
  simp only [advanceFront, queueSize, Nat.succ_eq_add_one]
  omega

theorem getHeadElement_eq (q : CircleQueue α) : q.getHeadElement = q.popElement.1 := by
  cases hempty : q.isQueueEmpty with
  | true => rw [popElement_empty hempty, getHeadElement, if_pos hempty]
  | false =>
      rw [popElement_notEmpty hempty, getHeadElement, hempty, if_neg Bool.false_ne_true]
      rfl

theorem drain_eq_contents : ∀ (fuel : Nat) (q : CircleQueue α), q.WellFormed → q.size < fuel →
    drain fuel q = q.contents := by
  intro fuel
  induction fuel with
  | zero => intro q _ hfuel; omega
  | succ fuel ih =>
      intro q h hfuel
      cases hempty : q.isQueueEmpty with
      | true =>
          have hsize := h.isQueueEmpty_iff.mp hempty
          simp [drain, popElement_empty hempty, contents, hsize]
      | false =>
          have hcons := contents_pop h hempty
          have hlen := congrArg List.length hcons
          rw [contents_length, List.length_cons, contents_length] at hlen
          have hrest := ih q.advanceFront h.pop (by omega)
          simp [drain, popElement_notEmpty hempty, hcons, hrest]

end CircleQueue

end InstructionParser
