import InstructionParser.Functions.CmdList

/-!
# Date, users and system information

`functions/system.c`.
-/

namespace InstructionParser

open CLib

def hwclockCmd (year : UInt16) (mon day hour min sec : UInt8) : Bytes :=
  List.flatten [ascii "hisi_hwclock -s time ", decNat year.toNat, ascii "/", decNat mon.toNat,
    ascii "/", decNat day.toNat, ascii "/", decNat hour.toNat, ascii "/", decNat min.toNat,
    ascii "/", decNat sec.toNat]

def dateCmd (year : UInt16) (mon day hour min sec : UInt8) : Bytes :=
  List.flatten [ascii "date -s \"", decNat year.toNat, ascii "-", decNat mon.toNat, ascii "-",
    decNat day.toNat, ascii " ", decNat hour.toNat, ascii ":", decNat min.toNat, ascii ":",
    decNat sec.toNat, ascii "\""]

/-- `set_system_date`. Its command lines always fit their 64 bytes. -/
def setSystemDate : Handler := fun env st pucBufHead _ => do
  let b0 ← pucBufHead[0]?
  if b0 ≠ 1 then
    pure { status := 0, statics := { st with mode := 0, now := env.now }, events := [] }
  else
    let year ← readBe16 pucBufHead 1
    let mon ← pucBufHead[3]?
    let day ← pucBufHead[4]?
    let hour ← pucBufHead[5]?
    let min ← pucBufHead[6]?
    let sec ← pucBufHead[7]?
    let hwclock := Event.system (hwclockCmd year mon day hour min sec)
    let date := Event.system (dateCmd year mon day hour min sec)
    let statics := { st with mode := 1 }
    if env.system 0 = 0 then pure { status := env.system 1, statics, events := [hwclock, date] }
    else pure { status := 0, statics, events := [hwclock] }

def textSetSystemDate : Handler := succeed

def setDateReply (st : Statics) : Option ReplyResult :=
  if st.mode = 0 then
    some {
      ret := 11
      wrote := [
        UInt8.ofInt ((st.now.tmYear + 1900) >>> (8 : Nat)),
        UInt8.ofInt (st.now.tmYear + 1900),
        UInt8.ofInt (st.now.tmMon + 1),
        UInt8.ofInt st.now.tmMday,
        UInt8.ofInt st.now.tmHour,
        UInt8.ofInt st.now.tmMin,
        UInt8.ofInt st.now.tmSec,
        UInt8.ofNat (st.now.tvUsec.val >>> 24),
        UInt8.ofNat (st.now.tvUsec.val >>> 16),
        UInt8.ofNat (st.now.tvUsec.val >>> 8),
        UInt8.ofNat st.now.tvUsec.val]
      statics := st }
  else some { ret := 1, wrote := [0], statics := st }

def addSystemUser : Handler := fun env st pucBufHead _ => do
  let b0 ← pucBufHead[0]?
  if b0 ≠ 1 then pure { status := 0, statics := st, events := [] }
  else
    let userNameLen ← pucBufHead[1]?
    let userPasswdLen ← pucBufHead[2 + userNameLen.toNat]?
    let name ← strncpyBytes (pucBufHead.drop 2) userNameLen.toNat
    let userName ← (Block.zeroed 64).write 0 name
    let passwd ← strncpyBytes (pucBufHead.drop (userNameLen.toNat + 3)) userPasswdLen.toNat
    let userPasswd ← (Block.zeroed 64).write 0 passwd
    let name ← cstr userName.bytes
    let passwd ← cstr userPasswd.bytes
    let cmd := ascii "/usr/sbin/add_user " ++ name ++ ascii " " ++ passwd
    let _ ← (Block.zeroed 128).write 0 (cmd ++ [0])
    pure {
      status := 0
      statics := if env.system 0 ≠ 0 then { st with result := 1 } else st
      events := [.system cmd] }

def textAddSystemUser : Handler := succeed

def addSystemUserReply (st : Statics) : Option ReplyResult :=
  if st.result = 1 then some { ret := 1, wrote := [1], statics := { st with result := 0 } }
  else some { ret := 1, wrote := [0], statics := st }

def getSystemInfo : Handler := succeed

def textGetSystemInfo : Handler := succeed

def getSystemInfoReply (st : Statics) : Option ReplyResult :=
  some {
    ret := 32
    wrote := [
      0x01, 0x02, 0x03, 0x04,
      0x01, 0x01,
      0x07, 0xe2, 0x08, 0x03, 0x03, 0x17, 0x10, 0x00, 0x09, 0x9a, 0x43,
      0x36,
      0x03,
      0x17, 0x10,
      0x10, 0x08,
      0x00,
      0x07, 0x63, 0x61, 0x70, 0x73, 0x75, 0x6c, 0x65]
    statics := st }

def setDateCmd : CmdList where
  name := ascii "set_date"
  usage := ascii "[id] set_date 2019-12-12 09:08:07"
  helpInfo := ascii "\tUpdate time info to system."
  doCmd := some setSystemDate
  doTextCmd := some textSetSystemDate
  getReply := some setDateReply

def addUserCmd : CmdList where
  name := ascii "add_user"
  usage := ascii "[id] add_user name passwd "
  helpInfo := ascii "\tAdd System User."
  doCmd := some addSystemUser
  doTextCmd := some textAddSystemUser
  getReply := some addSystemUserReply

def sysInfoCmd : CmdList where
  name := ascii "sys_info"
  usage := ascii "[id] sys_info"
  helpInfo := ascii "\trequest system informations."
  doCmd := some getSystemInfo
  doTextCmd := some textGetSystemInfo
  getReply := some getSystemInfoReply

end InstructionParser
