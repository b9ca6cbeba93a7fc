import InstructionParser.Protocol.Binary

/-!
# The SL protocol

`protocol/sl_vins100.c`. A frame is `22 53`, the length, the frame number, the command id, the
direction, the device id, the payload and the CRC.
-/

namespace InstructionParser

open CLib

def slCmdList : List (UInt16 × Bytes) := [
  (0x0100, ascii "sys_info"),
  (0x0101, ascii "set_date"),
  (0x0102, ascii "set_wifi"),
  (0x0103, ascii "add_user"),
  (0x0104, ascii "set_video_info"),
  (0x0105, ascii "set_brightness"),
  (0x0106, ascii "get_electricity"),
  (0x0107, ascii "power_off"),
  (0x0108, ascii "reboot"),
  (0x0109, ascii "get_ip"),
  (0x010a, ascii "set_ip"),
  (0x0200, ascii "start_record"),
  (0x0201, ascii "stop_record"),
  (0x0202, ascii "preview_on"),
  (0x0203, ascii "preview_off")]

def slCheckData (pucBufHead : Bytes) : Option Int := checkFrame 0x22 0x53 pucBufHead

/-- `sl_parse`, from the local frame `cmd` to the frame it pushes. -/
def slParse (fd : Int) (cmd : StCmdFrame) (pucBufHead : Bytes) : Option StCmdFrame := do
  let cmd ← parseHeader slCmdList fd cmd pucBufHead
  let b9 ← pucBufHead[9]?
  let b10 ← pucBufHead[10]?
  let b11 ← pucBufHead[11]?
  let b12 ← pucBufHead[12]?
  copyPayload 13 { cmd with deviceId := be32 b9 b10 b11 b12 } pucBufHead

end InstructionParser
