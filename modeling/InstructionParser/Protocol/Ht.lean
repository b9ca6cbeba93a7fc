import InstructionParser.Protocol.Binary

/-!
# The HT protocol

`protocol/ht_protocol.c`. A frame is `48 54`, the length, the frame number, the command id, the
payload and the CRC; the length counts everything before the CRC.
-/

namespace InstructionParser

open CLib

def htCmdList : List (UInt16 × Bytes) := [
  (0x0100, ascii "sys_info"),
  (0x0101, ascii "set_date"),
  (0x0102, ascii "set_wifi"),
  (0x0103, ascii "set_ftp_account"),
  (0x0104, ascii "set_video_info"),
  (0x0105, ascii "set_brightness"),
  (0x0106, ascii "get_electricity"),
  (0x0107, ascii "power_off"),
  (0x0108, ascii "reboot"),
  (0x0109, ascii "get_ip"),
  (0x010a, ascii "set_ip"),
  (0x0200, ascii "start_record"),
  (0x0201, ascii "stop_record"),
  (0x0202, ascii "preview_on"),
  (0x0203, ascii "preview_off")]

def htCheckData (pucBufHead : Bytes) : Option Int := checkFrame 0x48 0x54 pucBufHead

/-- `ht_parse`, from the local frame `cmd` to the frame it pushes. -/
def htParse (fd : Int) (cmd : StCmdFrame) (pucBufHead : Bytes) : Option StCmdFrame := do
  let cmd ← parseHeader htCmdList fd cmd pucBufHead
  copyPayload 8 cmd pucBufHead

end InstructionParser
