import InstructionParser.CLib.Strtok
import InstructionParser.CmdFrame

/-!
# Commands

`T_CmdList` of `include/function_manager.h`, the static variables that the handlers of `functions/`
keep between commands, and what a handler sees of the system it runs on. The `cmd_id` of an entry is
left out: no function reads it.
-/

namespace InstructionParser

open CLib

/-- `gettimeofday` and `localtime_r`, as far as `set_date_reply` reads them. -/
structure TimeOfDay where
  tvUsec : Fin 1000000
  tmYear : Int
  tmMon : Int
  tmMday : Int
  tmHour : Int
  tmMin : Int
  tmSec : Int
deriving DecidableEq

inductive SetAddrOutcome where
  | noSocket
  | addrRefused
  | flagsRefused
  | done
deriving DecidableEq

/-- How the system answers while one command runs. -/
structure Env where
  system : Nat → Int
  rebootFails : Bool
  now : TimeOfDay
  /-- The address of an interface; `none` when the socket or the `ioctl` fails. -/
  ifAddr : Bytes → Option (UInt8 × UInt8 × UInt8 × UInt8)
  setAddr : SetAddrOutcome
  mallocFails : Bool
  /-- What stands behind the block that `set_device_ip` allocates. -/
  heap : Bytes
  opWrite : Nat → Int

/-- A system on which every call succeeds, with no interface that has an address. -/
def Env.succeeding : Env where
  system _ := 0
  rebootFails := false
  now := { tvUsec := 0, tmYear := 0, tmMon := 0, tmMday := 0, tmHour := 0, tmMin := 0, tmSec := 0 }
  ifAddr _ := none
  setAddr := .done
  mallocFails := false
  heap := [0]
  opWrite _ := 1

inductive Event where
  | system (cmd : Bytes)
  | setAddr (device ip : Bytes)
  | reboot
  | opWrite (fd : Int) (buf : Bytes)
deriving DecidableEq

/-- The static variables of `network.c` and `system.c`. -/
structure Statics where
  /-- `ip_info`: `name[6]`, `ipaddr[4]`. -/
  ipInfo : Block 10
  /-- `ip_info_text`: `name[6]`, `ipaddr[16]`. -/
  ipInfoText : Block 22
  flag : Int
  now : TimeOfDay
  mode : Int
  result : Int
deriving DecidableEq

def Statics.initial : Statics where
  ipInfo := Block.zeroed 10
  ipInfoText := Block.zeroed 22
  flag := 0
  now := { tvUsec := 0, tmYear := 0, tmMon := 0, tmMday := 0, tmHour := 0, tmMin := 0, tmSec := 0 }
  mode := 0
  result := 0

structure HandlerResult where
  status : Int
  statics : Statics
  events : List Event

/-- A handler, on the memory behind its pointer argument. `none`: it leaves one of its objects, or the
C library leaves open what it does, or it does not return. -/
abbrev Handler := Env → Statics → Bytes → UInt16 → Option HandlerResult

/-- What `get_reply` returns, and the bytes it writes from the start of the reply buffer on. -/
structure ReplyResult where
  ret : Int
  wrote : Bytes
  statics : Statics

abbrev GetReply := Statics → Option ReplyResult

structure CmdList where
  name : Bytes
  usage : Bytes
  helpInfo : Bytes
  doCmd : Option Handler
  doTextCmd : Option Handler
  getReply : Option GetReply

def succeed : Handler := fun _ st _ _ => some { status := 0, statics := st, events := [] }

/-- Two calls of `system`, the status of the second returned. -/
def systemTwice (first second : Bytes) : Handler := fun env st _ _ =>
  some { status := env.system 1, statics := st, events := [.system first, .system second] }

end InstructionParser
