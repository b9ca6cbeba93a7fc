import InstructionParser.CLib.Strtok
import InstructionParser.CmdFrame
import Mathlib.Computability.RegularExpressions

/-!
# The text protocol

`protocol/text_protocol.c`. A line is `[id] cmd $1 $2 ...`, with a blank between its words.
-/

namespace InstructionParser

open CLib

/-- `StringToInteger`: the digits of a string, whatever stands between them. The `int` wraps. -/
def stringToInteger (p : Bytes) : UInt32 :=
  p.foldl (fun value b => if isDigit b then value * 10 + b.toUInt32 - 0x30 else value) 0

def bracketExpression (chars : Bytes) : RegularExpression UInt8 :=
  chars.foldr (fun c r => RegularExpression.char c + r) 0

/-- The expression that `"^\[\[1-9]+]$"` denotes. C reads `\[` in a string as a plain `[`, so the
bracket expression holds `[` and the digits from 1 to 9; the anchors make it match whole words. -/
def textPattern : RegularExpression UInt8 :=
  bracketExpression (ascii "[123456789") * (bracketExpression (ascii "[123456789")).star
    * RegularExpression.char 0x5d

/-- `text_check_data`. Its local `tmp_str` is not initialised, and `strncpy` with the string's own
length does not terminate it, so what it held before is an argument. -/
def textCheckData (tmpStr : Block 128) (pucBufHead : Bytes) : Option Int := do
  let line ← cstr pucBufHead
  let tmpStr ← tmpStr.write 0 line
  let (pStr, _, _) ← strtok 0x20 tmpStr.bytes 0
  match pStr with
  | none => pure (-1)
  | some pStr => if textPattern.rmatch pStr then pure 0 else pure (-1)

/-- Where the loop of `text_parse` copies its word number `i`: the second to `cmd_name`, any other
to row `i - 2` of `cmd_data`. For the first this is 128 bytes before `cmd_data`, inside `data`. -/
def tokenOff (i : Nat) : Nat :=
  if i = 1 then 0 else cmdDataOff + cmdDataRowSize * i - 2 * cmdDataRowSize

def storeToken (cmd : StCmdFrame) (i : Nat) (pStr : Bytes) : Option StCmdFrame :=
  let cmd := if i = 0 then { cmd with frameId := (stringToInteger pStr).toUInt16 } else cmd
  cmd.store (tokenOff i) (pStr ++ [0])

def storeTokens : StCmdFrame → Nat → List Bytes → Option StCmdFrame
  | cmd, _, [] => some cmd
  | cmd, i, pStr :: rest => (storeToken cmd i pStr).bind fun cmd => storeTokens cmd (i + 1) rest

/-- The statements of `text_parse` behind its loop, `i` words having been found. -/
def finishText (fd : Int) (cmd : StCmdFrame) (i : Nat) : StCmdFrame :=
  { cmd with fd, cmdLen := UInt16.ofNat i }

/-- `text_parse`, from the local frame `cmd` to the frame it pushes. -/
def textParse (fd : Int) (cmd : StCmdFrame) (pucBufHead : Bytes) : Option StCmdFrame := do
  let tokens ← strtokAll 0x20 (pucBufHead.length + 1) pucBufHead 0
  let cmd ← storeTokens cmd 0 tokens
  pure (finishText fd cmd tokens.length)

end InstructionParser
