import InstructionParser.Handle
import InstructionParser.Queue

/-!
# From a read to the answer

`handle` pushes commands, the thread of `get_cmd` pops them, executes each and answers it. A call of
`handle` for what was read, with the push, is one step, and so is a turn of the loop of `get_cmd`, from
the pop to the answer; the two take turns in any way. The program locks neither the queue nor `strtok`.
Its finer interleavings are in `SharedQueue` and `TextWorkers`: a push or a pop that nobody interrupts,
and a line whose saved position nobody takes, come out there as they do here.
-/

namespace InstructionParser

open CLib

structure Pipeline where
  queue : CircleQueue StCmdFrame
  thread : CmdThread
  /-- What was read from each client, in order. -/
  reads : List (Int × Bytes)
  /-- The commands whose push succeeded. -/
  accepted : List StCmdFrame
  /-- The commands that the thread has executed, each with the system it ran on. -/
  executed : List (Env × StCmdFrame)
  events : List Event

inductive PipelineAction where
  | handle (tmpStr : Block 128) (residue : StCmdFrame) (fd : Int) (chunk : Bytes)
  | getCmd (env : Env)

namespace Pipeline

def start (reply : Reply) : Pipeline where
  queue := CircleQueue.zeroed StCmdFrame.zeroed
  thread := CmdThread.initial reply
  reads := []
  accepted := []
  executed := []
  events := []

/-- `push_cmd_queue`, whose error the parsers only return. -/
def push (s : Pipeline) (cmd : StCmdFrame) : Pipeline :=
  let (ret, queue) := s.queue.pushCmdQueue cmd
  if ret = 0 then { s with queue, accepted := s.accepted ++ [cmd] } else s

def receive (s : Pipeline) (tmpStr : Block 128) (residue : StCmdFrame) (fd : Int) (chunk : Bytes) :
    Option Pipeline :=
  (handle tmpStr residue fd chunk).map fun command =>
    let s := { s with reads := s.reads ++ [(fd, chunk)] }
    match command with
    | some cmd => s.push cmd
    | none => s

/-- A turn of the loop of `get_cmd`, which does nothing while the queue is empty. -/
def serve (s : Pipeline) (env : Env) : Option Pipeline :=
  match s.queue.popElement with
  | (none, _) => some s
  | (some cmd, queue) =>
      (getCmd env s.thread cmd).map fun (thread, events) =>
        { s with
          queue
          thread
          executed := s.executed ++ [(env, cmd)]
          events := s.events ++ events }

def step (s : Pipeline) : PipelineAction → Option Pipeline
  | .handle tmpStr residue fd chunk => s.receive tmpStr residue fd chunk
  | .getCmd env => s.serve env

end Pipeline

/-- The commands executed one after the other, without a queue. -/
def runCommands (s : CmdThread) : List (Env × StCmdFrame) → Option (CmdThread × List Event)
  | [] => some (s, [])
  | (env, cmd) :: rest => do
      let (s, events) ← getCmd env s cmd
      let (s, more) ← runCommands s rest
      pure (s, events ++ more)

/-- What is written to a client. -/
def writesTo (fd : Int) (events : List Event) : List Bytes :=
  events.filterMap fun
    | .opWrite fd' buf => if fd' = fd then some buf else none
    | _ => none

end InstructionParser
