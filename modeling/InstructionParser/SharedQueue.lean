import InstructionParser.Queue

/-!
# The command queue between its threads

The workers push and `get_cmd` pops, and nothing is locked. Each statement of `push_element` and of
`pop_element` is one step.
-/

namespace InstructionParser

/-- A call of `push_element` whose full test has passed. Calls are told apart by a number that the
program does not know. -/
structure Push (α : Type) where
  id : Nat
  value : α
deriving DecidableEq

/-- Where a worker stands in `push_element`. -/
inductive Producer (α : Type) where
  | outside
  | tested (push : Push α)
  | advanced (push : Push α)

/-- Where `get_cmd` stands in `pop_element`. -/
inductive Consumer where
  | outside
  | tested
  | advanced
deriving DecidableEq

/-- What has happened, for the statements only: the calls past their full test, the calls in the order
in which they advanced the tail, those that returned 0, and the values popped. -/
structure QueueLog (α : Type) where
  accepted : List (Push α)
  taken : List (Push α)
  returned : List (Push α)
  popped : List α

structure SharedQueue (ι α : Type) where
  queue : CircleQueue α
  producers : ι → Producer α
  consumer : Consumer
  log : QueueLog α

inductive QueueAction (ι α : Type) where
  | fullTest (p : ι) (value : α)
  | advanceTail (p : ι)
  | writeSlot (p : ι)
  | emptyTest
  | advanceFront
  | readSlot

namespace SharedQueue

variable {ι α : Type} [DecidableEq ι]

omit [DecidableEq ι] in
def start (zero : α) : SharedQueue ι α where
  queue := CircleQueue.zeroed zero
  producers _ := .outside
  consumer := .outside
  log := { accepted := [], taken := [], returned := [], popped := [] }

def setProducer (s : SharedQueue ι α) (p : ι) (producer : Producer α) : SharedQueue ι α :=
  { s with producers := Function.update s.producers p producer }

def accept (s : SharedQueue ι α) (p : ι) (push : Push α) : SharedQueue ι α :=
  { s with log := { s.log with accepted := s.log.accepted ++ [push] } }.setProducer p (.tested push)

def take (s : SharedQueue ι α) (p : ι) (push : Push α) : SharedQueue ι α :=
  { s with
    queue := s.queue.advanceTail
    log := { s.log with taken := s.log.taken ++ [push] } }.setProducer p (.advanced push)

def finish (s : SharedQueue ι α) (p : ι) (push : Push α) : SharedQueue ι α :=
  { s with
    queue := s.queue.writeSlot push.value
    log := { s.log with returned := s.log.returned ++ [push] } }.setProducer p .outside

omit [DecidableEq ι] in
def popped (s : SharedQueue ι α) : SharedQueue ι α :=
  { s with
    consumer := .outside
    log := { s.log with popped := s.log.popped ++ [s.queue.readSlot] } }

/-- `if (is_queue_full(pCQ)) return -1;` -/
def fullTest (s : SharedQueue ι α) (p : ι) (value : α) : Option (SharedQueue ι α) :=
  match s.producers p with
  | .outside =>
      if s.queue.isQueueFull then some s
      else some (s.accept p { id := s.log.accepted.length, value })
  | _ => none

def advanceTail (s : SharedQueue ι α) (p : ι) : Option (SharedQueue ι α) :=
  match s.producers p with
  | .tested push => some (s.take p push)
  | _ => none

def writeSlot (s : SharedQueue ι α) (p : ι) : Option (SharedQueue ι α) :=
  match s.producers p with
  | .advanced push => some (s.finish p push)
  | _ => none

omit [DecidableEq ι] in
/-- `if (is_queue_empty(pCQ)) return -1;` -/
def emptyTest (s : SharedQueue ι α) : Option (SharedQueue ι α) :=
  match s.consumer with
  | .outside => if s.queue.isQueueEmpty then some s else some { s with consumer := .tested }
  | _ => none

omit [DecidableEq ι] in
def advanceFront (s : SharedQueue ι α) : Option (SharedQueue ι α) :=
  match s.consumer with
  | .tested => some { s with queue := s.queue.advanceFront, consumer := .advanced }
  | _ => none

omit [DecidableEq ι] in
def readSlot (s : SharedQueue ι α) : Option (SharedQueue ι α) :=
  match s.consumer with
  | .advanced => some s.popped
  | _ => none

def step (s : SharedQueue ι α) : QueueAction ι α → Option (SharedQueue ι α)
  | .fullTest p value => s.fullTest p value
  | .advanceTail p => s.advanceTail p
  | .writeSlot p => s.writeSlot p
  | .emptyTest => s.emptyTest
  | .advanceFront => s.advanceFront
  | .readSlot => s.readSlot

end SharedQueue

end InstructionParser
