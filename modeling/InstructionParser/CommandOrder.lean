import InstructionParser.EdgeTriggered
import InstructionParser.Queue

/-!
# The order of a client's commands

`EdgeServer` with the queue that the workers push into. A worker serves a task in two steps, the read
of a frame and the push of the command that the parser makes of it. Nothing ties the two together: the
descriptor stays armed, so another worker may read the next frame before the push.
-/

namespace InstructionParser

open CLib

/-- A command with the number of the read that its frame came from. The program does not know the
number. -/
structure NumberedCmd where
  number : Nat
  cmd : StCmdFrame
deriving DecidableEq

structure CommandOrder where
  net : EdgeServer
  queue : CircleQueue NumberedCmd
  /-- The descriptors that frames were read from, in the order of the reads. -/
  reads : List Int
  /-- For each worker the number of its last read. -/
  current : Nat → Nat
  pushed : List NumberedCmd
  popped : List NumberedCmd

inductive OrderAction where
  | net (a : EdgeAction)
  | pop

namespace CommandOrder

def start (listenfd : Int) (events : Nat → EpollEvent) : CommandOrder where
  net := EdgeServer.start listenfd events
  queue := CircleQueue.zeroed ⟨0, StCmdFrame.zeroed⟩
  reads := []
  current _ := 0
  pushed := []
  popped := []

def recordRead (s : CommandOrder) (w : Nat) (fd : Int) : CommandOrder :=
  { s with reads := s.reads ++ [fd], current := Function.update s.current w s.reads.length }

/-- `push_cmd_queue`. A command that does not fit is dropped. -/
def push (s : CommandOrder) (entry : NumberedCmd) : CommandOrder :=
  let (ret, queue) := s.queue.pushCmdQueue entry
  if ret = 0 then { s with queue, pushed := s.pushed ++ [entry] } else s

def pop (s : CommandOrder) : CommandOrder :=
  let (value, queue) := s.queue.popElement
  { s with queue, popped := s.popped ++ value.toList }

/-- A read that gives a frame is numbered. -/
def read (s : CommandOrder) (w : Nat) : Option CommandOrder :=
  match s.net.server.workers w with
  | .reading task =>
      (s.net.step (.read w)).map fun net =>
        match net.server.workers w with
        | .parsing _ _ => { s with net }.recordRead w (s.net.server.deref task)
        | _ => { s with net }
  | _ => none

/-- The check, the parser and its push. -/
def parse (s : CommandOrder) (w : Nat) (tmpStr : Block 128) (residue : StCmdFrame) :
    Option CommandOrder :=
  match s.net.server.workers w with
  | .parsing task chunk =>
      (handle tmpStr residue (s.net.server.deref task) chunk).bind fun command =>
        (s.net.step (.parse w tmpStr residue)).map fun net =>
          match command with
          | some cmd => { s with net }.push ⟨s.current w, cmd⟩
          | none => { s with net }
  | _ => none

def step (s : CommandOrder) : OrderAction → Option CommandOrder
  | .net (.read w) => s.read w
  | .net (.parse w tmpStr residue) => s.parse w tmpStr residue
  | .net a => (s.net.step a).map fun net => { s with net }
  | .pop => some s.pop

end CommandOrder

end InstructionParser
