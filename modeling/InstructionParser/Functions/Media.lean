import InstructionParser.Functions.CmdList

/-!
# Preview and reboot

`functions/media.c` and `functions/reboot.c`. The text handlers have the bodies of the binary ones.
-/

namespace InstructionParser

open CLib

def doPreviewOn : Handler :=
  systemTwice (ascii "/etc/init.d/S75camera stop") (ascii "/etc/init.d/rtsp_server start")

def textDoPreviewOn : Handler :=
  systemTwice (ascii "/etc/init.d/S75camera stop") (ascii "/etc/init.d/rtsp_server start")

def doPreviewOff : Handler :=
  systemTwice (ascii "/etc/init.d/rtsp_server stop") (ascii "/etc/init.d/S75camera start")

def textDoPreviewOff : Handler :=
  systemTwice (ascii "/etc/init.d/rtsp_server stop") (ascii "/etc/init.d/S75camera start")

/-- `reboot(RB_AUTOBOOT)` gives -1 when it fails, and does not return when it succeeds. -/
def rebootSystem : Handler := fun env st _ _ =>
  if env.rebootFails then some { status := -1, statics := st, events := [.reboot] } else none

def textRebootSystem : Handler := rebootSystem

def previewOnCmd : CmdList where
  name := ascii "preview_on"
  usage := ascii "[id] preview_on"
  helpInfo := ascii "\tPreview the video via RTSP Server and Stop record video."
  doCmd := some doPreviewOn
  doTextCmd := some textDoPreviewOn
  getReply := none

def previewOffCmd : CmdList where
  name := ascii "preview_off"
  usage := ascii "[id] preview_off"
  helpInfo := ascii "Stop to preview the video and Start to record video."
  doCmd := some doPreviewOff
  doTextCmd := some textDoPreviewOff
  getReply := none

def rebootCmd : CmdList where
  name := ascii "reboot"
  usage := ascii "[id] reboot"
  helpInfo := ascii "\tWill reboot the system with no response."
  doCmd := some rebootSystem
  doTextCmd := some textRebootSystem
  getReply := none

end InstructionParser
