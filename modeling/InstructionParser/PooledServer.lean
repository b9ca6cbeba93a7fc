import InstructionParser.Server
import InstructionParser.ThreadPool

/-!
# The server over its thread pool

`start_server` with the pool of `threadpool.c` in place of a list of tasks. The thread of `start_server`
is the only caller of the pool: it creates it, and it adds a task for each event of a client. A worker of
the pool is in `handle` while it runs its task.
-/

namespace InstructionParser

/-- `threadpool_create(THREAD, QUEUE, 0)`. -/
def serverPool : PoolArgs where
  threadCount := 32
  queueSize := poolCapacity
  threadCount_pos := by decide
  threadCount_le := by decide
  queueSize_pos := by decide
  queueSize_le := by decide

structure PooledServer where
  listenfd : Int
  events : Nat → EpollEvent
  loop : ServerLoop
  system : PoolSystem Task
  handling : Nat → Worker
  served : Served

inductive PooledAction where
  | server (a : ServerAction)
  | pool (a : PoolAction Task)

namespace PooledServer

def start (listenfd : Int) (events : Nat → EpollEvent) (queue : Nat → Task) : PooledServer where
  listenfd := listenfd
  events := events
  loop := .waiting
  system := PoolSystem.start serverPool queue 0
  handling _ := .idle
  served := Served.nothing

/-- The server without its pool. -/
def front (s : PooledServer) : Server where
  listenfd := s.listenfd
  events := s.events
  loop := s.loop
  queue := []
  workers := s.handling
  served := s.served

def withFront (s : PooledServer) (t : Server) : PooledServer :=
  { s with events := t.events, loop := t.loop, handling := t.workers, served := t.served }

def isRunning (s : PooledServer) (w : Nat) : Bool :=
  s.system.threads[w]?.any fun t => t.task?.isSome

/-- A step of a worker in `handle`. -/
def inHandle (s : PooledServer) (w : Nat) (moved : Option Server) : Option PooledServer :=
  if s.isRunning w then moved.map s.withFront else none

/-- The inner loop of `start_server`: for an event of a client it calls `threadpool_add`. -/
def nextEvent (s : PooledServer) (accepted : Bool) : Option PooledServer :=
  match s.loop with
  | .processing _ i =>
      if (s.events i).fd ≠ s.listenfd ∧ (s.events i).epollIn then
        (s.system.step (.callAdd 0 { slot := i, fd := (s.events i).fd })).map fun system =>
          { s with system }
      else (s.front.nextEvent accepted).map s.withFront
  | _ => none

def serverStep (s : PooledServer) : ServerAction → Option PooledServer
  | .epollWait ready => if s.system.published then (s.front.epollWait ready).map s.withFront else none
  | .nextEvent accepted => s.nextEvent accepted
  | .reuse memory => (s.front.reuse memory).map s.withFront
  | .dequeue _ => none
  | .read w result => s.inHandle w (s.front.read w result)
  | .opDeleteEvent w => s.inHandle w (s.front.opDeleteEvent w)
  | .delClilist w => s.inHandle w (s.front.delClilist w)
  | .parse w tmpStr residue => s.inHandle w (s.front.parse w tmpStr residue)

/-- Behind `threadpool_add` the loop goes on with the next event. -/
def afterAdd : ServerLoop → ServerLoop
  | .processing nfds i => Server.loopAt nfds (i + 1)
  | loop => loop

/-- A worker that has got a task is at the beginning of `handle`. -/
def entered (s : PooledServer) (w : Nat) (system : PoolSystem Task) : Nat → Worker :=
  match system.threads[w]? with
  | some (.running task) => Function.update s.handling w (.reading task)
  | _ => s.handling

/-- A step of the pool; only `start_server` calls it, and a task returns when `handle` does. -/
def poolStep (s : PooledServer) : PoolAction Task → Option PooledServer
  | .callAdd _ _ => none
  | .callDestroy _ _ => none
  | .add c woken =>
      (s.system.step (.add c woken)).map fun system => { s with system, loop := afterAdd s.loop }
  | .test w =>
      (s.system.step (.test w)).map fun system => { s with system, handling := s.entered w system }
  | .finish w =>
      match s.handling w with
      | .idle => (s.system.step (.finish w)).map fun system => { s with system }
      | _ => none
  | a => (s.system.step a).map fun system => { s with system }

def step (s : PooledServer) : PooledAction → Option PooledServer
  | .server a => s.serverStep a
  | .pool a => s.poolStep a

end PooledServer

end InstructionParser
