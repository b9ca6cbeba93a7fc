import InstructionParser.RingBuffer

/-!
# The thread pool

`tcp_server/threadpool.c`. A task, that is a function and its argument, is an element of any type. The
fields of `threadpool_t` are shared by the worker threads and by the threads that call the pool. What a
thread does between taking the mutex and giving it back is one step; between such steps the threads are
interleaved in any way. The operations on the mutex and on the condition variable succeed, as does
`pthread_join`; `pthread_create` may fail.
-/

namespace InstructionParser

/-- `MAX_THREADS`. -/
def maxThreads : Nat := 64

/-- `MAX_QUEUE`. -/
def maxQueue : Nat := 65536

def threadpoolQueueFull : Int := -3
def threadpoolShutdown : Int := -4

/-- Arguments that `threadpool_create` goes on with. -/
structure PoolArgs where
  threadCount : Nat
  queueSize : Nat
  threadCount_pos : 0 < threadCount
  threadCount_le : threadCount ≤ maxThreads
  queueSize_pos : 0 < queueSize
  queueSize_le : queueSize ≤ maxQueue

/-- The first test of `threadpool_create`; `none` where it returns the null pointer. -/
def PoolArgs.check (threadCount queueSize : Int) : Option PoolArgs :=
  if h : threadCount ≤ 0 ∨ (maxThreads : Int) < threadCount ∨ queueSize ≤ 0
      ∨ (maxQueue : Int) < queueSize then none
  else some {
    threadCount := threadCount.toNat
    queueSize := queueSize.toNat
    threadCount_pos := by omega
    threadCount_le := by omega
    queueSize_pos := by omega
    queueSize_le := by omega }

/-- The field `shutdown`: 0 or one of `threadpool_shutdown_t`. -/
inductive Shutdown where
  | none
  | immediate
  | graceful
deriving DecidableEq

structure Threadpool (α : Type) where
  queue : Nat → α
  threadCount : Nat
  queueSize : Nat
  head : Nat
  tail : Nat
  count : Nat
  shutdown : Shutdown
  started : Nat

/-- What a worker finds when it tests the pool: nothing to do, the end of the pool, or a task. -/
inductive Turn (α : Type) where
  | wait
  | exit (pool : Threadpool α)
  | take (task : α) (pool : Threadpool α)

namespace Threadpool

variable {α : Type}

/-- `threadpool_add` between lock and unlock: the return value and the pool. -/
def add (p : Threadpool α) (task : α) : Int × Threadpool α :=
  if p.count = p.queueSize then (threadpoolQueueFull, p)
  else if p.shutdown ≠ .none then (threadpoolShutdown, p)
  else
    (0, { p with
      queue := Function.update p.queue p.tail task
      tail := RingBuffer.next p.queueSize p.tail
      count := p.count + 1 })

/-- `threadpool_thread` from the test of its inner loop on, as far as it has the mutex. -/
def turn (p : Threadpool α) : Turn α :=
  if p.count = 0 ∧ p.shutdown = .none then .wait
  else if p.shutdown = .immediate ∨ p.shutdown = .graceful ∧ p.count = 0 then
    .exit { p with started := p.started - 1 }
  else
    .take (p.queue p.head)
      { p with head := RingBuffer.next p.queueSize p.head, count := p.count - 1 }

/-- The tasks in the queue, the oldest first. -/
def tasks (p : Threadpool α) : List α := RingBuffer.held p.queue p.queueSize p.head p.count

end Threadpool

/-- Where a worker thread stands. -/
inductive PoolThread (α : Type) where
  /-- Before `pthread_mutex_lock` at the head of its loop. -/
  | locking
  /-- It has the mutex, before the test of the inner loop. -/
  | testing
  /-- In `pthread_cond_wait`. -/
  | waiting
  /-- Woken there, without the mutex as yet. -/
  | woken
  | running (task : α)
  | exited

namespace PoolThread

variable {α : Type}

def isWaiting : PoolThread α → Bool
  | waiting => true
  | _ => false

def isExited : PoolThread α → Bool
  | exited => true
  | _ => false

def task? : PoolThread α → Option α
  | running task => some task
  | _ => none

/-- `pthread_cond_broadcast`. -/
def wake : PoolThread α → PoolThread α
  | waiting => woken
  | t => t

/-- Where the thread goes on when it gets the mutex; `none` when it does not ask for it. -/
def locked : PoolThread α → Option (PoolThread α)
  | locking => some testing
  | woken => some testing
  | _ => none

end PoolThread

/-- Where a thread stands that has called the pool. -/
inductive PoolCaller (α : Type) where
  | outside
  /-- In the loop of `threadpool_create` for this many threads. -/
  | creating (threadCount : Nat)
  /-- Behind a `pthread_create`, before the thread is counted. -/
  | counting (threadCount : Nat)
  | addLocking (task : α)
  | adding (task : α)
  | destroyLocking (graceful : Bool)
  | destroying (graceful : Bool)
  /-- Before it joins thread number `i`. -/
  | joining (i : Nat)
  /-- Before `threadpool_free`. -/
  | freeing
  /-- In `threadpool_free`, before `pthread_mutex_lock`. -/
  | relocking

namespace PoolCaller

variable {α : Type}

def locked : PoolCaller α → Option (PoolCaller α)
  | addLocking task => some (adding task)
  | destroyLocking graceful => some (destroying graceful)
  | _ => none

end PoolCaller

inductive PoolAgent where
  | thread (i : Nat)
  | caller (c : Nat)
deriving DecidableEq

/-- What has happened, for the statements only: the tasks whose `threadpool_add` returned 0, those that
a worker has taken, and those that it has run to the end. -/
structure PoolLog (α : Type) where
  accepted : List α
  taken : List α
  finished : List α

structure PoolSystem (α : Type) where
  pool : Threadpool α
  lock : Option PoolAgent
  threads : List (PoolThread α)
  callers : List (PoolCaller α)
  /-- `threadpool_create` has returned the pool. -/
  published : Bool
  /-- The arrays `threads` and `queue` are allocated. -/
  arrays : Bool
  freed : Bool
  log : PoolLog α

inductive PoolAction (α : Type) where
  | pthreadCreate (c : Nat) (succeeds : Bool)
  | countThread (c : Nat)
  | callAdd (c : Nat) (task : α)
  | callDestroy (c : Nat) (graceful : Bool)
  | lockMutex (agent : PoolAgent)
  /-- `woken` is the thread that `pthread_cond_signal` wakes. -/
  | add (c : Nat) (woken : Option Nat)
  | destroy (c : Nat)
  | join (c : Nat)
  | free (c : Nat)
  | freePool (c : Nat)
  | test (i : Nat)
  /-- A wake-up that nobody has asked for. -/
  | wake (i : Nat)
  | finish (i : Nat)

namespace PoolSystem

variable {α : Type}

/-- The pool when its first thread is to be created by the first of the callers. -/
def start (args : PoolArgs) (queue : Nat → α) (others : Nat) : PoolSystem α where
  pool := {
    queue
    threadCount := 0
    queueSize := args.queueSize
    head := 0
    tail := 0
    count := 0
    shutdown := .none
    started := 0 }
  lock := none
  threads := []
  callers := .creating args.threadCount :: List.replicate others .outside
  published := false
  arrays := true
  freed := false
  log := { accepted := [], taken := [], finished := [] }

def setThread (s : PoolSystem α) (i : Nat) (t : PoolThread α) : PoolSystem α :=
  { s with threads := s.threads.set i t }

def setCaller (s : PoolSystem α) (c : Nat) (k : PoolCaller α) : PoolSystem α :=
  { s with callers := s.callers.set c k }

def unlock (s : PoolSystem α) : PoolSystem α := { s with lock := none }

/-- Behind a failure `threadpool_create` calls `threadpool_destroy(pool, 0)`. -/
def pthreadCreate (s : PoolSystem α) (c : Nat) (succeeds : Bool) : Option (PoolSystem α) :=
  match s.callers[c]? with
  | some (.creating n) =>
      if succeeds then
        some ({ s with threads := s.threads ++ [PoolThread.locking] }.setCaller c (.counting n))
      else some (s.setCaller c (.destroyLocking false))
  | _ => none

/-- `pool->thread_count++` and `pool->started++`, without the mutex. -/
def countThread (s : PoolSystem α) (c : Nat) : Option (PoolSystem α) :=
  match s.callers[c]? with
  | some (.counting n) =>
      let pool := { s.pool with
        threadCount := s.pool.threadCount + 1
        started := s.pool.started + 1 }
      if s.pool.threadCount + 1 < n then some ({ s with pool }.setCaller c (.creating n))
      else some ({ s with pool, published := true }.setCaller c .outside)
  | _ => none

/-- The pool is called while it is there. -/
def call (s : PoolSystem α) (c : Nat) (k : PoolCaller α) : Option (PoolSystem α) :=
  match s.callers[c]? with
  | some .outside => if s.published ∧ ¬ s.freed then some (s.setCaller c k) else none
  | _ => none

/-- `pthread_mutex_lock`, which gets the mutex only while nobody has it. -/
def lockMutex (s : PoolSystem α) (agent : PoolAgent) : Option (PoolSystem α) :=
  if s.lock = none ∧ ¬ s.freed then
    match agent with
    | .thread i =>
        (s.threads[i]?.bind PoolThread.locked).map fun t =>
          { s with lock := some agent }.setThread i t
    | .caller c =>
        (s.callers[c]?.bind PoolCaller.locked).map fun k =>
          { s with lock := some agent }.setCaller c k
  else none

/-- `pthread_cond_signal` wakes one of the threads that wait, if any does. -/
def signal (s : PoolSystem α) : Option Nat → Option (PoolSystem α)
  | some i =>
      if s.threads[i]?.any PoolThread.isWaiting then some (s.setThread i .woken) else none
  | none => if s.threads.any PoolThread.isWaiting then none else some s

/-- The task is in the queue. -/
def accept (s : PoolSystem α) (task : α) : PoolSystem α :=
  { s with
    pool := (s.pool.add task).2
    log := { s.log with accepted := s.log.accepted ++ [task] } }

def add (s : PoolSystem α) (c : Nat) (woken : Option Nat) : Option (PoolSystem α) :=
  match s.callers[c]? with
  | some (.adding task) =>
      if (s.pool.add task).1 = 0 then
        ((s.accept task).signal woken).map fun s => (s.setCaller c .outside).unlock
      else some (s.setCaller c .outside).unlock
  | _ => none

/-- `threadpool_destroy` from the lock to the first join. Where the pool is shutting down already, it
returns without giving the mutex back. -/
def destroy (s : PoolSystem α) (c : Nat) : Option (PoolSystem α) :=
  match s.callers[c]? with
  | some (.destroying graceful) =>
      if s.pool.shutdown ≠ .none then some (s.setCaller c .outside)
      else
        some ({ s with
          pool := { s.pool with shutdown := if graceful then .graceful else .immediate }
          threads := s.threads.map PoolThread.wake }.setCaller c (.joining 0)).unlock
  | _ => none

/-- `pthread_join(pool->threads[i], NULL)`, or the end of the loop. -/
def join (s : PoolSystem α) (c : Nat) : Option (PoolSystem α) :=
  match s.callers[c]? with
  | some (.joining i) =>
      if i < s.pool.threadCount then
        if s.threads[i]?.any PoolThread.isExited then some (s.setCaller c (.joining (i + 1))) else none
      else some (s.setCaller c .freeing)
  | _ => none

/-- The beginning of `threadpool_free`, which does nothing while a thread is left. -/
def free (s : PoolSystem α) (c : Nat) : Option (PoolSystem α) :=
  match s.callers[c]? with
  | some .freeing =>
      if 0 < s.pool.started then some (s.setCaller c .outside)
      else some ({ s with arrays := false }.setCaller c .relocking)
  | _ => none

/-- The rest of `threadpool_free`: it gets the mutex once more and frees the pool with it. -/
def freePool (s : PoolSystem α) (c : Nat) : Option (PoolSystem α) :=
  match s.callers[c]? with
  | some .relocking =>
      if s.lock = none then some ({ s with freed := true }.setCaller c .outside) else none
  | _ => none

def test (s : PoolSystem α) (i : Nat) : Option (PoolSystem α) :=
  match s.threads[i]? with
  | some .testing =>
      match s.pool.turn with
      | .wait => some (s.setThread i .waiting).unlock
      | .exit pool => some ({ s with pool }.setThread i .exited).unlock
      | .take task pool =>
          some ({ s with
            pool
            log := { s.log with taken := s.log.taken ++ [task] } }.setThread i (.running task)).unlock
  | _ => none

def wake (s : PoolSystem α) (i : Nat) : Option (PoolSystem α) :=
  match s.threads[i]? with
  | some .waiting => some (s.setThread i .woken)
  | _ => none

/-- The task returns. -/
def finish (s : PoolSystem α) (i : Nat) : Option (PoolSystem α) :=
  match s.threads[i]? with
  | some (.running task) =>
      some ({ s with
        log := { s.log with finished := s.log.finished ++ [task] } }.setThread i .locking)
  | _ => none

def step (s : PoolSystem α) : PoolAction α → Option (PoolSystem α)
  | .pthreadCreate c succeeds => s.pthreadCreate c succeeds
  | .countThread c => s.countThread c
  | .callAdd c task => s.call c (.addLocking task)
  | .callDestroy c graceful => s.call c (.destroyLocking graceful)
  | .lockMutex agent => s.lockMutex agent
  | .add c woken => s.add c woken
  | .destroy c => s.destroy c
  | .join c => s.join c
  | .free c => s.free c
  | .freePool c => s.freePool c
  | .test i => s.test i
  | .wake i => s.wake i
  | .finish i => s.finish i

end PoolSystem

end InstructionParser
