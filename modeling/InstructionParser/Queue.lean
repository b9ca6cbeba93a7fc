import Mathlib.Logic.Function.Basic

/-!
# The command queue

`handle/queue.c`: a ring of 100 slots whose slot at `front` is kept unused. The queue is generic in
what it holds, as `DataType` is. `init_circle_queue` sets the two indices of a block that it has just
allocated itself and then drops, so the queue starts as static storage does, all zero.
-/

namespace InstructionParser

def queueSize : Nat := 100

structure CircleQueue (α : Type) where
  data : Nat → α
  front : Nat
  tail : Nat

namespace CircleQueue

variable {α : Type}

def zeroed (zero : α) : CircleQueue α := { data := fun _ => zero, front := 0, tail := 0 }

def isQueueEmpty (q : CircleQueue α) : Bool := q.front = q.tail

def isQueueFull (q : CircleQueue α) : Bool := (q.tail + 1) % queueSize = q.front

/-- `pCQ->tail = (pCQ->tail + 1) % QUEUESIZE`. -/
def advanceTail (q : CircleQueue α) : CircleQueue α :=
  { q with tail := (q.tail + 1) % queueSize }

/-- `pCQ->data[pCQ->tail] = dData`. -/
def writeSlot (q : CircleQueue α) (value : α) : CircleQueue α :=
  { q with data := Function.update q.data q.tail value }

/-- `pCQ->front = (pCQ->front + 1) % QUEUESIZE`. -/
def advanceFront (q : CircleQueue α) : CircleQueue α :=
  { q with front := (q.front + 1) % queueSize }

/-- `pCQ->data[pCQ->front]`. -/
def readSlot (q : CircleQueue α) : α := q.data q.front

/-- `push_element`: the return value and the queue. -/
def pushElement (q : CircleQueue α) (value : α) : Int × CircleQueue α :=
  if q.isQueueFull then (-1, q) else (0, q.advanceTail.writeSlot value)

/-- `pop_element`: the element when it returns 0, and the queue. -/
def popElement (q : CircleQueue α) : Option α × CircleQueue α :=
  if q.isQueueEmpty then (none, q) else (some q.advanceFront.readSlot, q.advanceFront)

/-- `get_head_element`: the element when it returns 0. -/
def getHeadElement (q : CircleQueue α) : Option α :=
  if q.isQueueEmpty then none else some (q.data ((q.front + 1) % queueSize))

def pushCmdQueue (q : CircleQueue α) (cmd : α) : Int × CircleQueue α := q.pushElement cmd

/-- `pop_cmd_queue(cmd)`: the return value, `*cmd` afterwards and the queue. -/
def popCmdQueue (q : CircleQueue α) (cmd : α) : Int × α × CircleQueue α :=
  match q.popElement with
  | (some value, q) => (0, value, q)
  | (none, q) => (-1, cmd, q)

/-- `get_cmd_head(cmd)`: the return value and `*cmd` afterwards. -/
def getCmdHead (q : CircleQueue α) (cmd : α) : Int × α :=
  match q.getHeadElement with
  | some value => (0, value)
  | none => (-1, cmd)

end CircleQueue

end InstructionParser
