import InstructionParser.ClientTable
import InstructionParser.Handle
import InstructionParser.PartialStream

/-!
# The responses that one client gets

The four functions that write to a client: `do_response`, `do_text_response`,
`do_text_response_error` and `text_do_help`. The first three call `op_write` once and look at its value
only to return it; `text_do_help` calls it once for each command and stops when the value is less than
-1. None of them writes again what a call has left over.
-/

namespace InstructionParser

open CLib PartialStream

/-- How many bytes the socket is ready to take. -/
def IoOutcome.room : IoOutcome → Nat
  | count n _ => n
  | again => 0
  | zero => 0
  | error => 0

/-- What the socket of a client has got: the number of calls of `write` so far, whether one has
failed, and the calls before the first failure. -/
structure Wire where
  calls : Nat
  failed : Bool
  log : List (Write UInt8)

namespace Wire

def start : Wire := { calls := 0, failed := false, log := [] }

/-- A call of `op_write`, when `kernel k` is the outcome of the `k`-th call of `write`. -/
def opWrite (kernel : Nat → IoOutcome) (s : Wire) (buf : Bytes) : Wire :=
  if s.failed || (kernel s.calls).fails then { s with calls := s.calls + 1, failed := true }
  else
    { calls := s.calls + 1
      failed := false
      log := s.log ++ [⟨buf, (kernel s.calls).room⟩] }

end Wire

/-- A call of one of the functions that write to the client. `malloc` gives `do_response` its
memory. -/
inductive Response where
  | response (cmd : StCmdFrame) (reply : Bytes) (len : Nat)
  | textResponse (cmd : StCmdFrame) (reply : Bytes) (len : Int)
  | textResponseError (cmd : StCmdFrame) (code : Int)
  | help (cmd : StCmdFrame) (cmds : List CmdList)

def writtenBy : Event → Option Bytes
  | .opWrite _ buf => some buf
  | _ => none

/-- The buffers that a function hands to `op_write`, when `ret k` is what the `k`-th of its calls
returns. -/
def Response.buffers (ret : Nat → Int) : Response → Option (List Bytes)
  | .response cmd reply len => (doResponse cmd reply len).map fun buf => [buf]
  | .textResponse cmd reply len => (doTextResponse cmd reply len).map fun buf => [buf]
  | .textResponseError cmd code => (doTextResponseError cmd code).map fun buf => [buf]
  | .help cmd cmds =>
      (textDoHelp { Env.succeeding with opWrite := ret } cmds Statics.initial cmd).map fun r =>
        r.events.filterMap writtenBy

/-- The complete response: what is handed over when no call fails. -/
def Response.complete (r : Response) : Option (List Bytes) := r.buffers fun _ => 0

/-- The calls of `op_write` that one function makes. -/
def send (kernel : Nat → IoOutcome) (s : Wire) (r : Response) : Option Wire :=
  (r.buffers fun k => (kernel (s.calls + k)).ret).map fun bufs => bufs.foldl (Wire.opWrite kernel) s

/-- The responses in order. The command thread goes on after a failure. -/
def sendAll (kernel : Nat → IoOutcome) (s : Wire) : List Response → Option Wire
  | [] => some s
  | r :: rs => (send kernel s r).bind fun s => sendAll kernel s rs

end InstructionParser
