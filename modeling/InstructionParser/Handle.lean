import InstructionParser.Functions.Manager
import InstructionParser.Protocol.Registry

/-!
# Reading and answering commands

`handle/handle.c`: `handle` turns one read into a pushed command, `get_cmd` executes the commands it
pops and answers them. A response is what is handed to `op_write`.
-/

namespace InstructionParser

open CLib

/-- The zeroed line of `handle` after a read of `chunk`. -/
def readLine (chunk : Bytes) : Bytes := chunk ++ List.replicate (255 - chunk.length) 0

/-- `handle` after a read of `chunk`: the command that is pushed, if one is. `tmpStr` and `cmd` are
what the locals of the check and of the parser hold before. -/
def handle (tmpStr : Block 128) (cmd : StCmdFrame) (fd : Int) (chunk : Bytes) :
    Option (Option StCmdFrame) := do
  let protocol ← doProtocolHandle tmpStr protocolSupported (readLine chunk)
  match protocol with
  | none => pure none
  | some protocol => (protocol.parse fd cmd (readLine chunk)).map some

/-- The frame that `do_response` builds from the `len` first bytes of the reply. -/
def doResponse (cmd : StCmdFrame) (reply : Bytes) (len : Nat) : Option Bytes := do
  let bufLen := 13 + len
  let content ← readBytes reply 0 len
  let buf : Bytes := [
    0x22, 0x53,
    hi8 (bufLen - 2), lo8 (bufLen - 2),
    hi8 cmd.frameId.toNat, lo8 cmd.frameId.toNat,
    hi8 cmd.cmdId.toNat, lo8 cmd.cmdId.toNat,
    0xff,
    hi8 cmd.deviceId.toNat, lo8 cmd.deviceId.toNat] ++ content
  let crc := uhfCrc16CcittTab buf
  pure (buf ++ [hi8 crc.toNat, lo8 crc.toNat])

def textResponseHead (cmd : StCmdFrame) (name : Bytes) : Bytes :=
  ascii "[" ++ decNat cmd.frameId.toNat ++ ascii "] " ++ name ++ ascii " "

def textResponseTail : Bytes := ascii "  ...done.\n"

/-- `do_text_response`, whose `len` is not used: the reply is printed as a string. -/
def doTextResponse (cmd : StCmdFrame) (reply : Bytes) (_len : Int) : Option Bytes := do
  let name ← cstr cmd.cmdName
  let text ← cstr reply
  let respone := textResponseHead cmd name ++ text ++ textResponseTail
  let _ ← (Block.zeroed 512).write 0 (respone ++ [0])
  pure respone

def doTextResponseError (cmd : StCmdFrame) (code : Int) : Option Bytes := do
  let respone := ascii "[" ++ decNat cmd.frameId.toNat ++ ascii "] ERROR [" ++ decInt code
    ++ ascii "]\n"
  let _ ← (Block.zeroed 128).write 0 (respone ++ [0])
  pure respone

/-- Which response `get_cmd` chooses for a command, from the value that its dispatcher returned. -/
inductive Answer where
  | silent
  | response (len : Nat)
  | textResponse (len : Int)
  | textError (code : Int)
deriving DecidableEq

/-- An ordinary protocol must have `cmd_id != 0`; the rest is taken for the text protocol. -/
def StCmdFrame.isBinary (cmd : StCmdFrame) : Bool := cmd.cmdId ≠ 0

def chooseAnswer (cmd : StCmdFrame) (ret : Int) : Answer :=
  if cmd.isBinary then
    if ret < 0 then .silent
    else if 0 < ret then .response ret.toNat
    else .silent
  else if ret < 0 then .textError ret
  else .textResponse ret

/-- The bytes of a response; `some none` when none is sent. `do_response` sends nothing when it gets
no memory. -/
def answerBytes (env : Env) (cmd : StCmdFrame) (reply : Reply) : Answer → Option (Option Bytes)
  | .silent => some none
  | .response len =>
      if env.mallocFails then some none else (doResponse cmd reply.bytes len).map some
  | .textResponse len => (doTextResponse cmd reply.bytes len).map some
  | .textError code => (doTextResponseError cmd code).map some

structure CmdThread where
  statics : Statics
  reply : Reply

/-- `get_cmd` does not initialise its reply buffer. -/
def CmdThread.initial (reply : Reply) : CmdThread where
  statics := Statics.initial
  reply := reply

/-- A buffer that happens to hold zeros. -/
def CmdThread.zeroed : CmdThread := CmdThread.initial (Block.zeroed 512)

def dispatch (env : Env) (s : CmdThread) (cmd : StCmdFrame) : Option CmdResult :=
  if cmd.isBinary then doCmdList env s.statics cmd s.reply cmdRegisterEnter
  else doTextCmd env s.statics cmd s.reply cmdRegisterEnter

/-- The body of the loop of `get_cmd` for one popped command: the events of the handler, then the
response. -/
def getCmd (env : Env) (s : CmdThread) (cmd : StCmdFrame) : Option (CmdThread × List Event) := do
  let r ← dispatch env s cmd
  let sent ← answerBytes env cmd r.reply (chooseAnswer cmd r.ret)
  let written := match sent with
    | none => []
    | some buf => [Event.opWrite cmd.fd buf]
  pure ({ statics := r.statics, reply := r.reply }, r.events ++ written)

end InstructionParser
