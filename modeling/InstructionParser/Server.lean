import InstructionParser.Handle
import Mathlib.Logic.Function.Basic

/-!
# The server and its workers

The loop of `start_server` and the workers of its thread pool, with `op_read` and `handle` of
`op_epoll.c` and `handle.c`. A task of the pool is the address of a slot of `events`, and the slots
are what the next `epoll_wait` writes into. A worker's step dereferences its task at most once.
-/

namespace InstructionParser

open CLib

def maxConnect : Nat := 256

/-- `QUEUE`, the capacity of the pool. -/
def poolCapacity : Nat := 256

structure EpollEvent where
  fd : Int
  epollIn : Bool
deriving DecidableEq

/-- The argument `&events[slot].data.fd`. What the slot held when the task was added is kept as `fd`,
for the statements only. -/
structure Task where
  slot : Nat
  fd : Int
deriving DecidableEq

inductive ServerLoop where
  | waiting
  | processing (nfds i : Nat)
  | returned

/-- Where a worker stands in `handle`. -/
inductive Worker where
  | idle
  | reading (task : Task)
  | deleting (task : Task)
  | unlisting (task : Task)
  | parsing (task : Task) (chunk : Bytes)

def Worker.task : Worker → Option Task
  | idle => none
  | reading task => some task
  | deleting task => some task
  | unlisting task => some task
  | parsing task _ => some task

/-- What `read` gives: at least one byte, `EAGAIN`, or an end or error of the connection. -/
inductive ReadResult where
  | data (chunk : Bytes)
  | again
  | closed

/-- What the workers did, for the statements only: each entry pairs the file descriptor of the task
with what was used for it. -/
structure Served where
  reads : List (Int × Int)
  closes : List (Int × Int)
  pushed : List (Int × StCmdFrame)

def Served.nothing : Served := { reads := [], closes := [], pushed := [] }

structure Server where
  listenfd : Int
  events : Nat → EpollEvent
  loop : ServerLoop
  queue : List Task
  workers : Nat → Worker
  served : Served

inductive ServerAction where
  /-- The call of `epoll_wait`, with the events it reports. -/
  | epollWait (ready : List EpollEvent)
  /-- One turn of the inner loop; `accept` succeeds or not. -/
  | nextEvent (accepted : Bool)
  /-- Something else uses the memory of `events` after `start_server` has returned. -/
  | reuse (memory : Nat → EpollEvent)
  | dequeue (w : Nat)
  | read (w : Nat) (result : ReadResult)
  | opDeleteEvent (w : Nat)
  | delClilist (w : Nat)
  /-- The check and the parser, with what their locals hold. -/
  | parse (w : Nat) (tmpStr : Block 128) (residue : StCmdFrame)

namespace Server

/-- `events` is not initialised. -/
def start (listenfd : Int) (events : Nat → EpollEvent) : Server where
  listenfd := listenfd
  events := events
  loop := .waiting
  queue := []
  workers _ := .idle
  served := Served.nothing

def loopAt (nfds i : Nat) : ServerLoop := if i < nfds then .processing nfds i else .waiting

def deref (s : Server) (task : Task) : Int := (s.events task.slot).fd

def setWorker (s : Server) (w : Nat) (worker : Worker) : Server :=
  { s with workers := Function.update s.workers w worker }

def recordRead (s : Server) (fd used : Int) : Server :=
  { s with served := { s.served with reads := s.served.reads ++ [(fd, used)] } }

def recordClose (s : Server) (fd used : Int) : Server :=
  { s with served := { s.served with closes := s.served.closes ++ [(fd, used)] } }

def recordPushed (s : Server) (fd : Int) (command : Option StCmdFrame) : Server :=
  { s with
    served := { s.served with pushed := s.served.pushed ++ command.toList.map (fd, ·) } }

/-- `threadpool_add`, whose error nobody looks at. -/
def threadpoolAdd (queue : List Task) (task : Task) : List Task :=
  if queue.length = poolCapacity then queue else queue ++ [task]

/-- `events` after `epoll_wait` has filled its first slots. -/
def filled (s : Server) (ready : List EpollEvent) (slot : Nat) : EpollEvent :=
  ready.getD slot (s.events slot)

def epollWait (s : Server) (ready : List EpollEvent) : Option Server :=
  match s.loop with
  | .waiting =>
      if ready.length ≤ maxConnect then
        some { s with
          events := s.filled ready
          loop := loopAt ready.length 0 }
      else none
  | _ => none

def nextEvent (s : Server) (accepted : Bool) : Option Server :=
  match s.loop with
  | .processing nfds i =>
      if (s.events i).fd = s.listenfd then
        some { s with loop := if accepted then loopAt nfds (i + 1) else .returned }
      else if (s.events i).epollIn then
        some { s with
          queue := threadpoolAdd s.queue { slot := i, fd := (s.events i).fd }
          loop := loopAt nfds (i + 1) }
      else some { s with loop := loopAt nfds (i + 1) }
  | _ => none

def reuse (s : Server) (memory : Nat → EpollEvent) : Option Server :=
  match s.loop with
  | .returned => some { s with events := memory }
  | _ => none

def dequeue (s : Server) (w : Nat) : Option Server :=
  match s.workers w, s.queue with
  | .idle, task :: rest => some ({ s with queue := rest }.setWorker w (.reading task))
  | _, _ => none

def afterRead (task : Task) : ReadResult → Worker
  | .data chunk => .parsing task chunk
  | .again => .idle
  | .closed => .deleting task

def read (s : Server) (w : Nat) (result : ReadResult) : Option Server :=
  match s.workers w with
  | .reading task =>
      some ((s.recordRead task.fd (s.deref task)).setWorker w
        (afterRead task result))
  | _ => none

def opDeleteEvent (s : Server) (w : Nat) : Option Server :=
  match s.workers w with
  | .deleting task =>
      some ((s.recordClose task.fd (s.deref task)).setWorker w
        (.unlisting task))
  | _ => none

def delClilist (s : Server) (w : Nat) : Option Server :=
  match s.workers w with
  | .unlisting task =>
      some ((s.recordClose task.fd (s.deref task)).setWorker w .idle)
  | _ => none

def parse (s : Server) (w : Nat) (tmpStr : Block 128) (residue : StCmdFrame) : Option Server :=
  match s.workers w with
  | .parsing task chunk =>
      (handle tmpStr residue (s.deref task) chunk).map fun command =>
        (s.recordPushed task.fd command).setWorker w .idle
  | _ => none

def step (s : Server) : ServerAction → Option Server
  | .epollWait ready => s.epollWait ready
  | .nextEvent accepted => s.nextEvent accepted
  | .reuse memory => s.reuse memory
  | .dequeue w => s.dequeue w
  | .read w result => s.read w result
  | .opDeleteEvent w => s.opDeleteEvent w
  | .delClilist w => s.delClilist w
  | .parse w tmpStr residue => s.parse w tmpStr residue

end Server

end InstructionParser
