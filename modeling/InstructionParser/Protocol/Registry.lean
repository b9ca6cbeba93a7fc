import InstructionParser.Protocol.Ht
import InstructionParser.Protocol.Sl
import InstructionParser.Protocol.Text

/-!
# The protocol registry

`protocol/protocol.c`, with the list that `ptNext` links as a `List`. `check_data` takes the content
that `text_check_data` finds in its uninitialised buffer; the binary protocols have none.
-/

namespace InstructionParser

open CLib

structure ProtocolSet where
  name : Bytes
  checkData : Block 128 → Bytes → Option Int
  parse : Int → StCmdFrame → Bytes → Option StCmdFrame

def htProtocol : ProtocolSet where
  name := ascii "HT"
  checkData _ pucBufHead := htCheckData pucBufHead
  parse := htParse

def slProtocol : ProtocolSet where
  name := ascii "SL"
  checkData _ pucBufHead := slCheckData pucBufHead
  parse := slParse

def textProtocol : ProtocolSet where
  name := ascii "TEXT"
  checkData := textCheckData
  parse := textParse

def registerProtocol (supported : List ProtocolSet) (protocol : ProtocolSet) : List ProtocolSet :=
  supported ++ [protocol]

/-- The list after the three registrations of `main`. -/
def protocolSupported : List ProtocolSet :=
  registerProtocol (registerProtocol (registerProtocol [] htProtocol) slProtocol) textProtocol

/-- `do_protocol_handle`: the first protocol that accepts the buffer, `some none` when none does. -/
def doProtocolHandle (tmpStr : Block 128) : List ProtocolSet → Bytes → Option (Option ProtocolSet)
  | [], _ => some none
  | protocol :: rest, pucBufHead =>
      (protocol.checkData tmpStr pucBufHead).bind fun ret =>
        if ret = 0 then some (some protocol) else doProtocolHandle tmpStr rest pucBufHead

end InstructionParser
