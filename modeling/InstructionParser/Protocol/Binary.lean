import InstructionParser.CmdFrame
import InstructionParser.Crc

/-!
# What the two binary protocols share

`ht_check_data` and `sl_check_data` differ in the two magic bytes only, and `ht_parse` and `sl_parse`
begin alike. A parser fills a local `st_cmd_frame` that nothing initialises, so the frame it starts
from is an argument, and it returns the frame that it passes to `push_cmd_queue`.
-/

namespace InstructionParser

open CLib

/-- `get_cmd_name`: the first entry of the table with this id. -/
def getCmdName (cmdList : List (UInt16 × Bytes)) (cmdId : UInt16) : Option Bytes :=
  (cmdList.find? fun entry => entry.1 = cmdId).map (·.2)

/-- `check_data` of a binary protocol: the magic, then the CRC behind the announced length. -/
def checkFrame (headH headL : UInt8) (pucBufHead : Bytes) : Option Int := do
  let b0 ← pucBufHead[0]?
  if b0 ≠ headH then pure (-1)
  else
    let b1 ← pucBufHead[1]?
    if b1 ≠ headL then pure (-1)
    else
      let dataLen ← readBe16 pucBufHead 2
      let dataCrc ← readBe16 pucBufHead dataLen.toNat
      let crc := uhfCrc16CcittTab (pucBufHead.take dataLen.toNat)
      if crc ≠ dataCrc then pure (-1) else pure 0

/-- The `strcpy` of the name that the table has for a command, if it has one. -/
def storeCmdName (cmd : StCmdFrame) : Option Bytes → Option StCmdFrame
  | some name => cmd.store 0 (name ++ [0])
  | none => some cmd

/-- The statements that `ht_parse` and `sl_parse` begin with: up to and with the `strcpy` of the
command name. -/
def parseHeader (cmdList : List (UInt16 × Bytes)) (fd : Int) (cmd : StCmdFrame)
    (pucBufHead : Bytes) : Option StCmdFrame := do
  let len ← readBe16 pucBufHead 2
  let frameId ← readBe16 pucBufHead 4
  let cmdId ← readBe16 pucBufHead 6
  storeCmdName { cmd with fd, len, frameId, cmdId } (getCmdName cmdList cmdId)

/-- `cmd.cmd_len = cmd.len - headerLen; memcpy(cmd.data, pucBufHead + headerLen, cmd.cmd_len)`. The
subtraction is cut to 16 bits. -/
def copyPayload (headerLen : UInt16) (cmd : StCmdFrame) (pucBufHead : Bytes) :
    Option StCmdFrame := do
  let cmd := { cmd with cmdLen := cmd.len - headerLen }
  let src ← readBytes pucBufHead headerLen.toNat cmd.cmdLen.toNat
  cmd.store dataOff src

end InstructionParser
