import InstructionParser.Functions.CmdList

/-!
# Interface addresses

`functions/network.c`.
-/

namespace InstructionParser

open CLib

def noDev : Int := 22
def errParams : Int := 23
def noMem : Int := 24

def ipaddrOff : Nat := 6

def inetNtoa : UInt8 × UInt8 × UInt8 × UInt8 → Bytes
  | (a, b, c, d) =>
      List.flatten [decNat a.toNat, ascii ".", decNat b.toNat, ascii ".", decNat c.toNat, ascii ".",
        decNat d.toNat]

/-- The loop of `ip_to_hex_str`: token number `i` goes to `new_ip[i]`. -/
def storeOctets : Block 10 → Nat → List Bytes → Option (Block 10)
  | info, _, [] => some info
  | info, i, tok :: rest =>
      (atoi tok).bind fun octet => (info.write (ipaddrOff + i) [UInt8.ofInt octet]).bind fun info =>
        storeOctets info (i + 1) rest

/-- `ip_to_hex_str(ip, ip_info.ipaddr)`. -/
def ipToHexStr (ip : Bytes) (info : Block 10) : Option (Block 10) := do
  let tokens ← strtokAll 0x2e (ip.length + 1) ip 0
  storeOctets info 0 tokens

/-- The loop of `check_right_ip`, which tests the start of the string once for each token. It ends
with the return value and the string as `strtok` left it. -/
def checkRightIpLoop : Nat → Bytes → Nat → Int → Option (Int × Bytes)
  | 0, _, _, _ => none
  | fuel + 1, ip, pos, i =>
      match strtok 0x2e ip pos with
      | none => none
      | some (none, ip, _) => some (if i = 0 then 0 else -1, ip)
      | some (some _, ip, pos) =>
          (atoi (strBytes ip)).bind fun value =>
            if 255 < value ∨ value < 0 then some (if i = 0 then 0 else -1, ip)
            else checkRightIpLoop fuel ip pos (i - 1)

def checkRightIp (ip : Bytes) : Option (Int × Bytes) := checkRightIpLoop (ip.length + 1) ip 0 4

/-- `get_ip`: the dotted address of a device, the null pointer when there is none. -/
def getIp (env : Env) (device : Bytes) : Option (Option Bytes) := do
  let ifrName ← strncpyBytes device 15
  pure ((env.ifAddr (strBytes ifrName)).map inetNtoa)

/-- `set_hand_ip`: the status and what was set. -/
def setHandIp (env : Env) (device ipaddr : Bytes) : Option (Int × List Event) :=
  if env.setAddr = .noSocket then some (-1, [])
  else do
    let ifrName ← strncpyBytes device 15
    let ip ← cstr ipaddr
    let set := Event.setAddr (strBytes ifrName) ip
    pure (match env.setAddr with
      | .noSocket => (-1, [])
      | .addrRefused => (-errParams, [])
      | .flagsRefused => (-1, [set])
      | .done => (0, [set]))

/-- `set_device_ip` on the two fields of the struct `info`, whose bytes are returned as
`check_right_ip` left them. The copy of the address is not terminated: what stands behind it in the
heap is read on. -/
def setDeviceIp (env : Env) (info : Bytes) : Option (Int × Bytes × List Event) := do
  let ipAddr ← cstr (info.drop ipaddrOff)
  if env.mallocFails then pure (-noMem, info, [])
  else
    let (ret, checked) ← checkRightIp (info.drop ipaddrOff)
    let info := info.take ipaddrOff ++ checked
    if ret ≠ 0 then pure (-errParams, info, [])
    else
      let (status, events) ← setHandIp env info (ipAddr ++ env.heap)
      pure (status, info, events)

/-- The length of the device name in front of a binary payload. -/
def nameLen (len : UInt16) : Nat := if 6 < len.toNat then 6 else len.toNat

theorem nameLen_le (len : UInt16) : nameLen len ≤ 6 := by
  unfold nameLen
  split_ifs <;> omega

def doGetDeviceIp : Handler := fun env st pucBufHead len => do
  let name ← strncpyBytes pucBufHead (nameLen len)
  let ipInfo ← (Block.zeroed 10).write 0 name
  let ip ← getIp env ipInfo.bytes
  match ip with
  | none => pure { status := -noDev, statics := { st with ipInfo }, events := [] }
  | some ip =>
      let ipInfo ← ipToHexStr (ip ++ [0]) ipInfo
      pure { status := 0, statics := { st with ipInfo, flag := 0 }, events := [] }

def doTextGetDeviceIp : Handler := fun env st pucBufHead _ => do
  let p0 ← cstr pucBufHead
  let ipInfoText ← (Block.zeroed 22).write 0 p0
  let ip ← getIp env ipInfoText.bytes
  match ip with
  | none => pure { status := -noDev, statics := { st with ipInfoText }, events := [] }
  | some ip =>
      let ipInfoText ← ipInfoText.write ipaddrOff (ip ++ [0])
      pure { status := 0, statics := { st with ipInfoText, flag := 1 }, events := [] }

def getIpReply (st : Statics) : Option ReplyResult :=
  if st.flag ≠ 0 then do
    let name ← cstr st.ipInfoText.bytes
    let ipaddr ← cstr (st.ipInfoText.bytes.drop ipaddrOff)
    let text := name ++ ascii ":" ++ ipaddr
    pure { ret := text.length, wrote := text ++ [0], statics := st }
  else some { ret := 10, wrote := st.ipInfo.bytes, statics := st }

def doSetDeviceIp : Handler := fun env st pucBufHead len => do
  let name ← strncpyBytes pucBufHead (nameLen len)
  let ipInfo ← (Block.zeroed 10).write 0 name
  let ipaddr ← strncpyBytes (pucBufHead.drop (nameLen len)) (len.toNat - nameLen len)
  let ipInfo ← ipInfo.write ipaddrOff ipaddr
  let (status, info, events) ← setDeviceIp env ipInfo.bytes
  let ipInfo ← ipInfo.write 0 info
  pure { status, statics := { st with ipInfo }, events }

/-- Its `ip_info_text` is a local variable. -/
def doTextSetDeviceIp : Handler := fun env st pucBufHead _ => do
  let p0 ← cstr pucBufHead
  let ipInfoText ← (Block.zeroed 22).write 0 p0
  let p1 ← cstr (pucBufHead.drop cmdDataRowSize)
  let ipInfoText ← ipInfoText.write ipaddrOff p1
  let (status, _, events) ← setDeviceIp env ipInfoText.bytes
  pure { status, statics := st, events }

def getIpCmd : CmdList where
  name := ascii "get_ip"
  usage := ascii "[id] get_ip dev"
  helpInfo := ascii "\tTo get dev ip addr. Which dev is eth0/ra0."
  doCmd := some doGetDeviceIp
  doTextCmd := some doTextGetDeviceIp
  getReply := some getIpReply

def setIpCmd : CmdList where
  name := ascii "set_ip"
  usage := ascii "[id] set_ip dev ipaddr"
  helpInfo := ascii "To set dev ip addr. Which dev is eth0/ra0."
  doCmd := some doSetDeviceIp
  doTextCmd := some doTextSetDeviceIp
  getReply := none

end InstructionParser
