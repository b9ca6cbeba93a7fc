import InstructionParser.Pipeline
import InstructionParser.PooledServer

/-!
# The command server

The threads of the program together: the loop of `start_server`, the workers of its pool, and the thread
of `get_cmd`. What a worker parses it pushes into the queue from which that thread pops.

The steps are larger than the program's where nothing is locked. The check of what was read, its
`strtok`, its parsing and its push are one step, and so are a pop, the execution and the answer: a run
here is one in which these do not overlap. `SharedQueue` has the statements of `queue.c` one by one, and
`TextWorkers` the calls of `strtok`.
-/

namespace InstructionParser

open CLib

structure CommandServer where
  server : PooledServer
  pipeline : Pipeline
  /-- What `op_read` took from which socket, for the statements only. -/
  received : List (Int × Bytes)

inductive CommandAction where
  | server (a : PooledAction)
  | getCmd (env : Env)

namespace CommandServer

def start (listenfd : Int) (events : Nat → EpollEvent) (queue : Nat → Task) (reply : Reply) :
    CommandServer where
  server := PooledServer.start listenfd events queue
  pipeline := Pipeline.start reply
  received := []

/-- The bytes that `op_read` takes in a step. -/
def taken (s : PooledServer) : PooledAction → List (Int × Bytes)
  | .server (.read w (.data chunk)) =>
      match s.handling w with
      | .reading task => [(s.front.deref task, chunk)]
      | _ => []
  | _ => []

/-- The queue behind a step: the parser of `handle` pushes what it recognises. -/
def parsed (s : CommandServer) : PooledAction → Option Pipeline
  | .server (.parse w tmpStr residue) =>
      match s.server.handling w with
      | .parsing task chunk =>
          s.pipeline.step (.handle tmpStr residue (s.server.front.deref task) chunk)
      | _ => none
  | _ => some s.pipeline

/-- A step of the loop, of the pool or of a worker, or a whole turn of `get_cmd`. The parser of a worker
runs, and pushes, in one step. -/
def step (s : CommandServer) : CommandAction → Option CommandServer
  | .server a => do
      let server ← s.server.step a
      let pipeline ← s.parsed a
      pure { server, pipeline, received := s.received ++ taken s.server a }
  | .getCmd env => (s.pipeline.step (.getCmd env)).map fun pipeline => { s with pipeline }

end CommandServer

/-- What there is of one client among bytes that belong to several. -/
def bytesFrom (fd : Int) (reads : List (Int × Bytes)) : List Bytes :=
  reads.filterMap fun r => if r.1 = fd then some r.2 else none

/-- The parser takes these bytes of the client for this command. -/
def ParsedFrom (fd : Int) (chunk : Bytes) (cmd : StCmdFrame) : Prop :=
  ∃ tmpStr residue, handle tmpStr residue fd chunk = some (some cmd)

end InstructionParser
