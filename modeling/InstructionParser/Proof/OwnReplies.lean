import InstructionParser.Proof.AddUser
import InstructionParser.Runs

/-!
# Replies that describe their own request

The handlers of `get_ip`, `set_date` and `add_user` leave what they found in static variables, and
`get_reply` prints them. Each handler that succeeds writes all that its reply reads, but for `result`,
which a reply clears again: between two commands it is 0.
-/

namespace InstructionParser

open CLib Runs

/-- The bytes of a time, most significant first. -/
def timeTaken (now : TimeOfDay) : Bytes :=
  [UInt8.ofInt ((now.tmYear + 1900) / 256), UInt8.ofInt (now.tmYear + 1900),
    UInt8.ofInt (now.tmMon + 1), UInt8.ofInt now.tmMday, UInt8.ofInt now.tmHour,
    UInt8.ofInt now.tmMin, UInt8.ofInt now.tmSec] ++ be32Bytes now.tvUsec.val

def CmdResult.Replies (out : CmdResult) (bs : Bytes) : Prop :=
  out.ret = bs.length ∧ out.reply.bytes.take bs.length = bs

inductive Path where
  | binary
  | text
deriving DecidableEq

/-- A command on its way through one of the two dispatchers, what the system answers meanwhile, and
the content of the reply buffer. -/
structure Request where
  path : Path
  env : Env
  cmd : StCmdFrame
  reply : Reply

namespace Request

variable {a : Request} {st st' : Statics} {out : CmdResult} {entry : CmdList}

def execute (a : Request) (st : Statics) : Option CmdResult :=
  match a.path with
  | .binary => doCmdList a.env st a.cmd a.reply cmdRegisterEnter
  | .text => doTextCmd a.env st a.cmd a.reply cmdRegisterEnter

def Names (a : Request) (entry : CmdList) : Prop := cstr a.cmd.cmdName = some entry.name

/-- The device name in front of a binary payload. -/
def deviceName (a : Request) : Bytes := strBytes (a.cmd.data.take (nameLen a.cmd.cmdLen))

def addsUser (a : Request) : Prop := a.cmd.data[0]? = some 1

/-- The fields of `add_user` fit `user_name` and `user_passwd`, and the command line fits `cmd`. -/
structure UserFits (a : Request) : Prop where
  fields : ∃ userNameLen userPasswdLen, a.cmd.data[1]? = some userNameLen
    ∧ a.cmd.data[2 + userNameLen.toNat]? = some userPasswdLen
    ∧ FieldFits (a.cmd.data.drop 2) userNameLen.toNat
    ∧ FieldFits (a.cmd.data.drop (userNameLen.toNat + 3)) userPasswdLen.toNat
    ∧ (strBytes ((a.cmd.data.drop 2).take userNameLen.toNat)).length
      + (strBytes ((a.cmd.data.drop (userNameLen.toNat + 3)).take userPasswdLen.toNat)).length ≤ 107

def Stateful (a : Request) : Prop :=
  a.Names getIpCmd ∧ (match a.path with
    | .binary => a.deviceName.length ≤ 5
    | .text => ∃ name, cstr a.cmd.cmdData = some name ∧ name.length ≤ 5)
  ∨ a.Names setDateCmd
  ∨ a.Names addUserCmd

/-- What the request carries fits the buffers that it is copied to. -/
def Fits (a : Request) : Prop :=
  a.Names addUserCmd → a.path = .binary → a.addsUser → a.UserFits

/-- What the requester may take from the answer. -/
structure Describes (a : Request) (st : Statics) (out : CmdResult) : Prop where
  binaryGetIp : a.path = .binary → a.Names getIpCmd →
    ∀ x y z w, a.env.ifAddr a.deviceName = some (x, y, z, w) →
      out.Replies (a.deviceName ++ List.replicate (6 - a.deviceName.length) 0 ++ [x, y, z, w])
  textGetIp : a.path = .text → a.Names getIpCmd →
    ∀ name addr, cstr a.cmd.cmdData = some name → a.env.ifAddr name = some addr →
      out.Replies (name ++ ascii ":" ++ inetNtoa addr)
  addUser : a.path = .binary → a.Names addUserCmd →
    ∃ b, out.Replies [b] ∧ (b = 1 ↔
      (∃ line, Event.system line ∈ out.events) ∧ a.env.system 0 ≠ 0)
  dateQuery : a.path = .binary → a.Names setDateCmd → a.cmd.data[0]? ≠ some 1 →
    out.Replies (timeTaken a.env.now)
  dateSet : a.path = .binary → a.Names setDateCmd → a.cmd.data[0]? = some 1 →
    ∀ r, setSystemDate a.env st a.cmd.data a.cmd.cmdLen = some r → r.status = 0 → out.Replies [0]

/-! ### The handler and its reply -/

def handler (a : Request) (entry : CmdList) (st : Statics) : Option HandlerResult :=
  match a.path with
  | .binary => callHandler entry.doCmd a.env st a.cmd.data a.cmd.cmdLen
  | .text => callHandler entry.doTextCmd a.env st a.cmd.cmdData a.cmd.cmdLen

theorem execute_eq_some_iff (hmem : entry ∈ cmdRegisterEnter) (hname : a.Names entry)
    (hhelp : entry.name ≠ ascii "help") :
    a.execute st = some out ↔
      ∃ r, a.handler entry st = some r ∧ finishCmd entry r a.reply = some out := by
  have hselect : selectCmd cmdRegisterEnter a.cmd = some entry :=
    selectCmd_registered.mpr ⟨hmem, hname⟩
  rw [← Option.bind_eq_some_iff]
  unfold execute handler
  cases a.path with
  | binary => simp only [doCmdList_eq, hselect]
  | text => simp only [doTextCmd_eq, hselect, textHandler_eq hname hhelp]

theorem handler_binary (hpath : a.path = .binary) :
    a.handler entry st = callHandler entry.doCmd a.env st a.cmd.data a.cmd.cmdLen := by
  rw [handler, hpath]

theorem handler_text (hpath : a.path = .text) :
    a.handler entry st = callHandler entry.doTextCmd a.env st a.cmd.cmdData a.cmd.cmdLen := by
  rw [handler, hpath]

theorem exists_reply (a : Request) (entry : CmdList) (bs rest : Bytes) {r : HandlerResult}
    {getReply : GetReply} {w : ReplyResult} (hstatus : r.status = 0)
    (hget : entry.getReply = some getReply)
    (hw : getReply r.statics = some w) (hret : w.ret = bs.length) (hwrote : w.wrote = bs ++ rest)
    (hroom : w.wrote.length ≤ 512) :
    ∃ out, finishCmd entry r a.reply = some out ∧ out.Replies bs ∧ out.statics = w.statics
      ∧ out.events = r.events := by
  have hstart : 0 + w.wrote.length ≤ 512 := by omega
  obtain ⟨reply, hwrite, hbytes⟩ := Block.exists_write (b := a.reply) hstart
  refine ⟨_, (finishCmd_reply hstatus hget).mpr ⟨w, reply, hw, hwrite, rfl⟩, ⟨hret, ?_⟩, rfl, rfl⟩
  change reply.bytes.take bs.length = bs
  rw [hbytes, hwrote, patch, List.take_zero, List.nil_append, List.append_assoc, List.take_left]

/-! ### What each handler leaves behind -/

theorem deviceName_length_le (a : Request) : a.deviceName.length ≤ 6 := by
  calc a.deviceName.length ≤ (a.cmd.data.take (nameLen a.cmd.cmdLen)).length :=
        (List.takeWhile_prefix _).length_le
    _ ≤ 6 := (List.length_take_le _ _).trans (nameLen_le _)

theorem zero_notMem_deviceName (a : Request) : 0 ∉ a.deviceName := zero_notMem_strBytes _

theorem exists_ipInfo (a : Request) :
    ∃ name info, strncpyBytes a.cmd.data (nameLen a.cmd.cmdLen) = some name
      ∧ (Block.zeroed 10).write 0 name = some info
      ∧ info.bytes = a.deviceName ++ List.replicate (10 - a.deviceName.length) 0 := by
  have hname := nameLen_le a.cmd.cmdLen
  refine exists_copied (hname.trans (by decide)) ?_
  rw [a.cmd.data_length]
  exact hname.trans (by decide)

theorem doGetDeviceIp_missing (st : Statics) (haddr : a.env.ifAddr a.deviceName = none) :
    ∃ r, doGetDeviceIp a.env st a.cmd.data a.cmd.cmdLen = some r ∧ r.status = -noDev
      ∧ r.statics.result = st.result := by
  obtain ⟨name, info, hcopy, hwrite, hbytes⟩ := a.exists_ipInfo
  have hlength := a.deviceName_length_le
  have hip : getIp a.env info.bytes = some none := by
    rw [hbytes, getIp_padded _ a.zero_notMem_deviceName (by omega) (by omega), haddr]
    rfl
  refine ⟨{ status := -noDev, statics := { st with ipInfo := info }, events := [] }, ?_, rfl, rfl⟩
  simp only [doGetDeviceIp, hcopy, hwrite, hip, Option.bind_eq_bind, Option.bind_some, Option.pure_def]

theorem doGetDeviceIp_found (st : Statics) {x y z w : UInt8}
    (haddr : a.env.ifAddr a.deviceName = some (x, y, z, w)) :
    ∃ r, doGetDeviceIp a.env st a.cmd.data a.cmd.cmdLen = some r ∧ r.status = 0
      ∧ r.statics.result = st.result ∧ r.statics.flag = 0 ∧ r.statics.ipInfo.bytes
        = a.deviceName ++ List.replicate (6 - a.deviceName.length) 0 ++ [x, y, z, w] := by
  obtain ⟨name, info, hcopy, hwrite, hbytes⟩ := a.exists_ipInfo
  have hlength := a.deviceName_length_le
  have hip : getIp a.env info.bytes = some (some (inetNtoa (x, y, z, w))) := by
    rw [hbytes, getIp_padded _ a.zero_notMem_deviceName (by omega) (by omega), haddr]
    rfl
  obtain ⟨info', hstored, hoctets⟩ := ipToHexStr_inetNtoa info x y z w
  refine ⟨{ status := 0, statics := { st with ipInfo := info', flag := 0 }, events := [] }, ?_, rfl,
    rfl, rfl, ?_⟩
  · simp only [doGetDeviceIp, hcopy, hwrite, hip, hstored, Option.bind_eq_bind, Option.bind_some,
      Option.pure_def]
  · change info'.bytes = _
    rw [hoctets, hbytes, ipaddrOff, List.take_append, List.take_of_length_le hlength,
      List.take_replicate, Nat.min_eq_left (by omega)]

theorem exists_ipInfoText {name : Bytes} (hlength : name.length ≤ 5) :
    ∃ info, (Block.zeroed 22).write 0 name = some info
      ∧ info.bytes = name ++ List.replicate (22 - name.length) 0 := by
  have hroom : 0 + name.length ≤ 22 := by omega
  obtain ⟨info, hwrite, hbytes⟩ := Block.exists_write (b := Block.zeroed 22) hroom
  refine ⟨info, hwrite, ?_⟩
  rw [hbytes, patch]
  change [] ++ name ++ (List.replicate 22 0).drop _ = _
  rw [List.nil_append, List.drop_replicate, Nat.zero_add]

theorem doTextGetDeviceIp_missing (st : Statics) (len : UInt16) {name : Bytes}
    (hname : cstr a.cmd.cmdData = some name) (hlength : name.length ≤ 5)
    (haddr : a.env.ifAddr name = none) :
    ∃ r, doTextGetDeviceIp a.env st a.cmd.cmdData len = some r ∧ r.status = -noDev
      ∧ r.statics.result = st.result := by
  obtain ⟨info, hwrite, hbytes⟩ := exists_ipInfoText hlength
  have hip : getIp a.env info.bytes = some none := by
    rw [hbytes, getIp_padded _ (zero_notMem_of_cstr hname) (by omega) (by omega), haddr]
    rfl
  refine ⟨{ status := -noDev, statics := { st with ipInfoText := info }, events := [] }, ?_, rfl,
    rfl⟩
  simp only [doTextGetDeviceIp, hname, hwrite, hip, Option.bind_eq_bind, Option.bind_some,
    Option.pure_def]

theorem doTextGetDeviceIp_found (st : Statics) (len : UInt16) {name : Bytes}
    {addr : UInt8 × UInt8 × UInt8 × UInt8}
    (hname : cstr a.cmd.cmdData = some name) (hlength : name.length ≤ 5)
    (haddr : a.env.ifAddr name = some addr) :
    ∃ r, doTextGetDeviceIp a.env st a.cmd.cmdData len = some r ∧ r.status = 0
      ∧ r.statics.result = st.result ∧ r.statics.flag = 1 ∧ cstr r.statics.ipInfoText.bytes = some name
      ∧ cstr (r.statics.ipInfoText.bytes.drop ipaddrOff) = some (inetNtoa addr) := by
  obtain ⟨info, hwrite, hbytes⟩ := exists_ipInfoText hlength
  have hip : getIp a.env info.bytes = some (some (inetNtoa addr)) := by
    rw [hbytes, getIp_padded _ (zero_notMem_of_cstr hname) (by omega) (by omega), haddr]
    rfl
  have haddrLength := inetNtoa_length_le addr
  have hroom : ipaddrOff + (inetNtoa addr ++ [0]).length ≤ 22 := by
    rw [ipaddrOff, List.length_append, List.length_singleton]
    omega
  obtain ⟨info', hstored, hafter⟩ := Block.exists_write (b := info) hroom
  have hoff : ipaddrOff ≤ info.bytes.length := by rw [info.size_eq]; decide
  refine ⟨{ status := 0, statics := { st with ipInfoText := info', flag := 1 }, events := [] }, ?_,
    rfl, rfl, rfl, ?_, ?_⟩
  · simp only [doTextGetDeviceIp, hname, hwrite, hip, hstored, Option.bind_eq_bind, Option.bind_some,
      Option.pure_def]
  · change cstr info'.bytes = some name
    have hterminated : cstr info.bytes = some name := by
      rw [hbytes]
      exact cstr_padded (zero_notMem_of_cstr hname) (by omega)
    refine cstr_of_take_eq (k := ipaddrOff) ?_ hterminated (by rw [ipaddrOff]; omega)
    rw [hafter, take_patch (le_refl _) hoff]
  · change cstr (info'.bytes.drop ipaddrOff) = _
    have hwithin : (patch info.bytes ipaddrOff (inetNtoa addr ++ [0])).drop (ipaddrOff + 0)
        = inetNtoa addr ++ ([0] ++ info.bytes.drop (ipaddrOff + (inetNtoa addr ++ [0]).length)) := by
      rw [drop_patch_within _ (Nat.zero_le _) hoff, List.drop_zero, List.append_assoc]
    rw [Nat.add_zero] at hwithin
    rw [hafter, hwithin]
    exact cstr_append_zero (zero_notMem_inetNtoa addr) _

theorem setSystemDate_query {b0 : UInt8} (hb0 : a.cmd.data[0]? = some b0) (hquery : b0 ≠ 1) :
    setSystemDate a.env st a.cmd.data a.cmd.cmdLen
      = some { status := 0, statics := { st with mode := 0, now := a.env.now }, events := [] } := by
  rw [setSystemDate, hb0, Option.bind_eq_bind, Option.bind_some, if_pos hquery]
  rfl

theorem setSystemDate_set (hset : a.cmd.data[0]? = some 1) {r : HandlerResult}
    (h : setSystemDate a.env st a.cmd.data a.cmd.cmdLen = some r) :
    r.statics = { st with mode := 1 } := by
  rw [setSystemDate, hset, Option.bind_eq_bind, Option.bind_some, if_neg (by decide)] at h
  simp only [Option.bind_eq_bind, Option.bind_eq_some_iff] at h
  obtain ⟨year, _, mon, _, day, _, hour, _, min, _, sec, _, h⟩ := h
  split_ifs at h
  all_goals
    obtain rfl := Option.some.inj h
    rfl

theorem setDateReply_query (hmode : st.mode = 0) :
    ∃ w, setDateReply st = some w ∧ w.ret = 11 ∧ w.statics = st ∧ w.wrote = timeTaken st.now := by
  refine ⟨_, if_pos hmode, rfl, rfl, ?_⟩
  have hyear : (st.now.tmYear + 1900) >>> (8 : Nat) = (st.now.tmYear + 1900) / 256 :=
    Int.shiftRight_eq_div_pow _ _
  have husec : be32Bytes st.now.tvUsec.val = [UInt8.ofNat (st.now.tvUsec.val >>> 24),
      UInt8.ofNat (st.now.tvUsec.val >>> 16), UInt8.ofNat (st.now.tvUsec.val >>> 8),
      UInt8.ofNat st.now.tvUsec.val] := by
    simp only [be32Bytes, be16Bytes, List.cons_append, List.nil_append, List.cons.injEq, and_true,
      ← UInt8.toNat_inj, toNat_hi8, toNat_lo8, UInt8.toNat_ofNat', Nat.shiftRight_eq_div_pow]
    omega
  rw [timeTaken, husec, ← hyear]
  rfl

theorem setDateReply_set (hmode : st.mode = 1) :
    setDateReply st = some { ret := 1, wrote := [0], statics := st } := by
  rw [setDateReply, if_neg (by rw [hmode]; decide)]

theorem addSystemUser_cases {r : HandlerResult}
    (h : addSystemUser a.env st a.cmd.data a.cmd.cmdLen = some r) :
    (a.cmd.data[0]? ≠ some 1 ∧ r.events = [] ∧ r.statics = st)
      ∨ ∃ line, r.events = [.system line]
        ∧ r.statics = if a.env.system 0 ≠ 0 then { st with result := 1 } else st := by
  by_cases hadd : a.cmd.data[0]? = some 1
  · obtain ⟨_, _, name, passwd, _, _, _, _, rfl⟩ := (addSystemUser_eq_some_iff hadd).mp h
    exact Or.inr ⟨addUserLine name passwd, rfl, rfl⟩
  · obtain rfl := Option.some.inj ((addSystemUser_query a.cmd.data_ne_nil hadd).symm.trans h)
    exact Or.inl ⟨hadd, rfl, rfl⟩

theorem exists_addSystemUser (st : Statics) (hfits : a.addsUser → a.UserFits) :
    ∃ r, addSystemUser a.env st a.cmd.data a.cmd.cmdLen = some r := by
  by_cases hadd : a.addsUser
  · obtain ⟨n, m, hn, hm, hname, hpasswd, hroom⟩ := (hfits hadd).fields
    have hlength : a.cmd.data.length = 1344 := a.cmd.data_length
    have hnameLen := n.toNat_lt
    have hpasswdLen := m.toNat_lt
    obtain ⟨userName, userPasswd, hbuffers, hnameStr, hpasswdStr⟩ :=
      exists_userBuffers hn hm (by omega) hname hpasswd
    exact ⟨_, (addSystemUser_eq_some_iff hadd).mpr ⟨userName, userPasswd, _, _, hbuffers, hnameStr,
      hpasswdStr, by rw [addUserLine_length]; omega, rfl⟩⟩
  · exact ⟨_, addSystemUser_query a.cmd.data_ne_nil hadd⟩

/-! ### One command -/

theorem Names.unique {other : CmdList} (h : a.Names entry) (h' : a.Names other) :
    entry.name = other.name :=
  Option.some.inj (h.symm.trans h')

theorem describes_getIp (hname : a.Names getIpCmd)
    (hbinary : a.path = .binary → ∀ x y z w, a.env.ifAddr a.deviceName = some (x, y, z, w) →
      out.Replies (a.deviceName ++ List.replicate (6 - a.deviceName.length) 0 ++ [x, y, z, w]))
    (htext : a.path = .text → ∀ name addr, cstr a.cmd.cmdData = some name →
      a.env.ifAddr name = some addr → out.Replies (name ++ ascii ":" ++ inetNtoa addr)) :
    Describes a st out where
  binaryGetIp hpath _ := hbinary hpath
  textGetIp hpath _ := htext hpath
  addUser _ hother := absurd (hname.unique hother) (by decide)
  dateQuery _ hother := absurd (hname.unique hother) (by decide)
  dateSet _ hother := absurd (hname.unique hother) (by decide)

theorem describes_addUser (hname : a.Names addUserCmd)
    (hbinary : a.path = .binary → ∃ b, out.Replies [b] ∧ (b = 1 ↔
      (∃ line, Event.system line ∈ out.events) ∧ a.env.system 0 ≠ 0)) :
    Describes a st out where
  binaryGetIp _ hother := absurd (hname.unique hother) (by decide)
  textGetIp _ hother := absurd (hname.unique hother) (by decide)
  addUser hpath _ := hbinary hpath
  dateQuery _ hother := absurd (hname.unique hother) (by decide)
  dateSet _ hother := absurd (hname.unique hother) (by decide)

theorem describes_setDate (hname : a.Names setDateCmd)
    (hquery : a.path = .binary → a.cmd.data[0]? ≠ some 1 → out.Replies (timeTaken a.env.now))
    (hset : a.path = .binary → a.cmd.data[0]? = some 1 → ∀ r,
      setSystemDate a.env st a.cmd.data a.cmd.cmdLen = some r → r.status = 0 → out.Replies [0]) :
    Describes a st out where
  binaryGetIp _ hother := absurd (hname.unique hother) (by decide)
  textGetIp _ hother := absurd (hname.unique hother) (by decide)
  addUser _ hother := absurd (hname.unique hother) (by decide)
  dateQuery hpath _ := hquery hpath
  dateSet hpath _ := hset hpath

theorem exists_described_binaryGetIp (hpath : a.path = .binary) (hname : a.Names getIpCmd) :
    ∃ out, a.execute st = some out ∧ Describes a st out ∧ out.statics.result = st.result := by
  have hrun : ∀ r, doGetDeviceIp a.env st a.cmd.data a.cmd.cmdLen = some r →
      a.handler getIpCmd st = some r := fun r hr => (handler_binary hpath).trans hr
  cases haddr : a.env.ifAddr a.deviceName with
  | none =>
      obtain ⟨r, hr, hstatus, hresult⟩ := doGetDeviceIp_missing st haddr
      have hfailed : r.status ≠ 0 := by rw [hstatus]; decide
      refine ⟨_, (execute_eq_some_iff getIpCmd_mem hname (by decide)).mpr
        ⟨r, hrun r hr, finishCmd_failed hfailed⟩, describes_getIp hname ?_ ?_, hresult⟩
      · intro _ x y z w hfound
        exact absurd (haddr.symm.trans hfound) (by simp)
      · exact fun htext => absurd (hpath.symm.trans htext) (by decide)
  | some addr =>
      obtain ⟨x, y, z, w⟩ := addr
      obtain ⟨r, hr, hstatus, hresult, hflag, hinfo⟩ := doGetDeviceIp_found st haddr
      have hlength := a.deviceName_length_le
      have hreply : getIpReply r.statics
          = some { ret := 10, wrote := r.statics.ipInfo.bytes, statics := r.statics } :=
        if_neg (not_not.mpr hflag)
      have hten : (a.deviceName ++ List.replicate (6 - a.deviceName.length) 0
          ++ [x, y, z, w]).length = 10 := by
        rw [← hinfo, r.statics.ipInfo.size_eq]
      obtain ⟨out, hfinish, hreplies, hstatics, _⟩ := exists_reply a getIpCmd
        (a.deviceName ++ List.replicate (6 - a.deviceName.length) 0 ++ [x, y, z, w]) [] hstatus rfl
        hreply (by rw [hten]; rfl) (by rw [hinfo, List.append_nil])
        (by rw [r.statics.ipInfo.size_eq]; decide)
      refine ⟨out, (execute_eq_some_iff getIpCmd_mem hname (by decide)).mpr ⟨r, hrun r hr, hfinish⟩,
        describes_getIp hname ?_ ?_, (congrArg Statics.result hstatics).trans hresult⟩
      · intro _ x' y' z' w' hfound
        obtain ⟨rfl, rfl, rfl, rfl⟩ := by
          simpa only [Option.some.injEq, Prod.mk.injEq] using haddr.symm.trans hfound
        exact hreplies
      · exact fun htext => absurd (hpath.symm.trans htext) (by decide)

theorem exists_described_textGetIp (hpath : a.path = .text) (hname : a.Names getIpCmd)
    {device : Bytes} (hdevice : cstr a.cmd.cmdData = some device) (hlength : device.length ≤ 5) :
    ∃ out, a.execute st = some out ∧ Describes a st out ∧ out.statics.result = st.result := by
  have hrun : ∀ r, doTextGetDeviceIp a.env st a.cmd.cmdData a.cmd.cmdLen = some r →
      a.handler getIpCmd st = some r := fun r hr => (handler_text hpath).trans hr
  have hbinary : ¬ a.path = .binary := by rw [hpath]; decide
  cases haddr : a.env.ifAddr device with
  | none =>
      obtain ⟨r, hr, hstatus, hresult⟩ := doTextGetDeviceIp_missing st a.cmd.cmdLen
        hdevice hlength haddr
      have hfailed : r.status ≠ 0 := by rw [hstatus]; decide
      refine ⟨_, (execute_eq_some_iff getIpCmd_mem hname (by decide)).mpr
        ⟨r, hrun r hr, finishCmd_failed hfailed⟩, describes_getIp hname (absurd · hbinary) ?_, hresult⟩
      intro _ name addr hstr hfound
      obtain rfl := Option.some.inj (hdevice.symm.trans hstr)
      exact absurd (haddr.symm.trans hfound) (by simp)
  | some addr =>
      obtain ⟨r, hr, hstatus, hresult, hflag, hinfo, haddrText⟩ := doTextGetDeviceIp_found st
        a.cmd.cmdLen hdevice hlength haddr
      have hreply : getIpReply r.statics = some {
          ret := (device ++ ascii ":" ++ inetNtoa addr).length
          wrote := device ++ ascii ":" ++ inetNtoa addr ++ [0]
          statics := r.statics } := by
        simp only [getIpReply, hflag, hinfo, haddrText, Option.bind_eq_bind, Option.bind_some]
        rfl
      have hcolon : (ascii ":").length = 1 := by decide
      have haddrLength := inetNtoa_length_le addr
      obtain ⟨out, hfinish, hreplies, hstatics, _⟩ := exists_reply a getIpCmd
        (device ++ ascii ":" ++ inetNtoa addr) [0] hstatus rfl hreply rfl rfl (by
          simp only [List.length_append, List.length_singleton, hcolon]
          omega)
      refine ⟨out, (execute_eq_some_iff getIpCmd_mem hname (by decide)).mpr ⟨r, hrun r hr, hfinish⟩,
        describes_getIp hname (absurd · hbinary) ?_, (congrArg Statics.result hstatics).trans hresult⟩
      intro _ name addr' hstr hfound
      obtain rfl := Option.some.inj (hdevice.symm.trans hstr)
      obtain rfl := Option.some.inj (haddr.symm.trans hfound)
      exact hreplies

theorem exists_setDateReply (st : Statics) :
    ∃ w, setDateReply st = some w ∧ w.statics = st := by
  unfold setDateReply
  split_ifs
  all_goals exact ⟨_, rfl, rfl⟩

theorem exists_described_textSetDate (hpath : a.path = .text) (hname : a.Names setDateCmd) :
    ∃ out, a.execute st = some out ∧ Describes a st out ∧ out.statics.result = st.result := by
  have hbinary : ¬ a.path = .binary := by rw [hpath]; decide
  have hrun : a.handler setDateCmd st = some { status := 0, statics := st, events := [] } :=
    handler_text hpath
  obtain ⟨w, hw, hstatics⟩ := exists_setDateReply st
  obtain ⟨hret, hroom⟩ := setDateReply_counted hw
  have hstatus : HandlerResult.status { status := 0, statics := st, events := [] } = 0 := rfl
  obtain ⟨out, hfinish, _, hkept, _⟩ := exists_reply a setDateCmd w.wrote [] hstatus rfl hw hret
    (List.append_nil _).symm hroom
  refine ⟨out, (execute_eq_some_iff setDateCmd_mem hname (by decide)).mpr ⟨_, hrun, hfinish⟩,
    describes_setDate hname (absurd · hbinary) (absurd · hbinary), ?_⟩
  rw [hkept, hstatics]

theorem exists_described_binarySetDate (hpath : a.path = .binary) (hname : a.Names setDateCmd) :
    ∃ out, a.execute st = some out ∧ Describes a st out ∧ out.statics.result = st.result := by
  obtain ⟨r, hr⟩ := exists_setSystemDate a.env st a.cmd
  have hrun : a.handler setDateCmd st = some r := (handler_binary hpath).trans hr
  have hfound : ∀ out, finishCmd setDateCmd r a.reply = some out → a.execute st = some out :=
    fun out hfinish => (execute_eq_some_iff setDateCmd_mem hname (by decide)).mpr ⟨r, hrun, hfinish⟩
  obtain ⟨b0, hb0⟩ : ∃ b0, a.cmd.data[0]? = some b0 := by
    refine ⟨_, List.getElem?_eq_getElem ?_⟩
    rw [a.cmd.data_length]
    decide
  by_cases hset : b0 = 1
  · obtain rfl := hset
    have hstatics := setSystemDate_set hb0 hr
    have hresult : r.statics.result = st.result := by rw [hstatics]
    by_cases hstatus : r.status = 0
    · have hmode : r.statics.mode = 1 := by rw [hstatics]
      obtain ⟨out, hfinish, hreplies, hkept, _⟩ := exists_reply a setDateCmd [0] [] hstatus rfl
        (setDateReply_set hmode) rfl rfl (Nat.le_of_ble_eq_true rfl)
      refine ⟨out, hfound out hfinish, describes_setDate hname (fun _ hquery => absurd hb0 hquery)
        (fun _ _ _ _ _ => hreplies), (congrArg Statics.result hkept).trans hresult⟩
    · refine ⟨_, hfound _ (finishCmd_failed hstatus), describes_setDate hname
        (fun _ hquery => absurd hb0 hquery) (fun _ _ r' hr' hzero => ?_), hresult⟩
      obtain rfl := Option.some.inj (hr.symm.trans hr')
      exact absurd hzero hstatus
  · rw [setSystemDate_query hb0 hset] at hr
    obtain rfl := Option.some.inj hr
    have hmode : Statics.mode { st with mode := 0, now := a.env.now } = 0 := rfl
    obtain ⟨w, hw, hret, hstatics, hwrote⟩ := setDateReply_query hmode
    have hroom := (setDateReply_counted hw).2
    have hstatus : HandlerResult.status
      { status := 0, statics := { st with mode := 0, now := a.env.now }, events := [] } = 0 := rfl
    obtain ⟨out, hfinish, hreplies, hkept, _⟩ := exists_reply a setDateCmd (timeTaken a.env.now) []
      hstatus rfl hw hret (by rw [hwrote, List.append_nil]) hroom
    refine ⟨out, hfound out hfinish, describes_setDate hname (fun _ _ => hreplies)
      (fun _ honly => absurd (Option.some.inj (hb0.symm.trans honly)) hset), ?_⟩
    rw [hkept, hstatics]

theorem addSystemUserReply_zero (hresult : st.result = 0) :
    addSystemUserReply st = some { ret := 1, wrote := [0], statics := st } := by
  rw [addSystemUserReply, if_neg (by rw [hresult]; decide)]

theorem exists_described_textAddUser (hpath : a.path = .text) (hname : a.Names addUserCmd)
    (hresult : st.result = 0) :
    ∃ out, a.execute st = some out ∧ Describes a st out ∧ out.statics.result = 0 := by
  have hbinary : ¬ a.path = .binary := by rw [hpath]; decide
  have hrun : a.handler addUserCmd st = some { status := 0, statics := st, events := [] } :=
    handler_text hpath
  have hstatus : HandlerResult.status { status := 0, statics := st, events := [] } = 0 := rfl
  obtain ⟨out, hfinish, _, hkept, _⟩ := exists_reply a addUserCmd [0] [] hstatus rfl
    (addSystemUserReply_zero hresult) rfl rfl (Nat.le_of_ble_eq_true rfl)
  refine ⟨out, (execute_eq_some_iff addUserCmd_mem hname (by decide)).mpr ⟨_, hrun, hfinish⟩,
    describes_addUser hname (absurd · hbinary), ?_⟩
  rw [hkept]
  exact hresult

theorem exists_described_binaryAddUser (hpath : a.path = .binary) (hname : a.Names addUserCmd)
    {r : HandlerResult} (hr : addSystemUser a.env st a.cmd.data a.cmd.cmdLen = some r)
    (hresult : st.result = 0) :
    ∃ out, a.execute st = some out ∧ Describes a st out ∧ out.statics.result = 0 := by
  have hstatus := addSystemUser_status hr
  have hrun : a.handler addUserCmd st = some r := (handler_binary hpath).trans hr
  have hfound : ∀ out, finishCmd addUserCmd r a.reply = some out → a.execute st = some out :=
    fun out hfinish => (execute_eq_some_iff addUserCmd_mem hname (by decide)).mpr ⟨r, hrun, hfinish⟩
  have hclean : r.statics = st → ((∃ line, Event.system line ∈ r.events) → a.env.system 0 = 0) →
      ∃ out, a.execute st = some out ∧ Describes a st out ∧ out.statics.result = 0 := by
    intro hstatics hnone
    have hzero : r.statics.result = 0 := hstatics ▸ hresult
    obtain ⟨out, hfinish, hreplies, hkept, hevents⟩ := exists_reply a addUserCmd [0] []
      hstatus rfl (addSystemUserReply_zero hzero) rfl rfl (Nat.le_of_ble_eq_true rfl)
    refine ⟨out, hfound out hfinish, describes_addUser hname fun _ => ⟨0, hreplies, ?_⟩, ?_⟩
    · rw [hevents]
      exact iff_of_false (by decide) fun h => h.2 (hnone h.1)
    · rw [hkept]
      exact hzero
  rcases addSystemUser_cases hr with ⟨_, hevents, hstatics⟩ | ⟨line, hevents, hstatics⟩
  · refine hclean hstatics ?_
    rw [hevents]
    exact fun ⟨_, hmem⟩ => absurd hmem List.not_mem_nil
  · by_cases hsystem : a.env.system 0 = 0
    · rw [if_neg (not_not.mpr hsystem)] at hstatics
      exact hclean hstatics fun _ => hsystem
    · rw [if_pos hsystem] at hstatics
      have hreply : addSystemUserReply r.statics
          = some { ret := 1, wrote := [1], statics := { r.statics with result := 0 } } := by
        rw [addSystemUserReply, if_pos (by rw [hstatics])]
      obtain ⟨out, hfinish, hreplies, hkept, hran⟩ := exists_reply a addUserCmd [1] []
        hstatus rfl hreply rfl rfl (Nat.le_of_ble_eq_true rfl)
      refine ⟨out, hfound out hfinish, describes_addUser hname fun _ => ⟨1, hreplies, ?_⟩, ?_⟩
      · rw [hran, hevents]
        exact iff_of_true rfl ⟨⟨line, List.mem_singleton_self _⟩, hsystem⟩
      · rw [hkept]

/-- The handler of `add_user` stays within its buffers. -/
def Returns (a : Request) (st : Statics) : Prop :=
  a.Names addUserCmd → a.path = .binary →
    ∃ r, addSystemUser a.env st a.cmd.data a.cmd.cmdLen = some r

theorem returns_of_execute (h : a.execute st = some out) : a.Returns st := by
  intro hname hpath
  obtain ⟨r, hr, _⟩ := (execute_eq_some_iff addUserCmd_mem hname (by decide)).mp h
  exact ⟨r, (handler_binary hpath).symm.trans hr⟩

theorem Fits.returns (h : a.Fits) (st : Statics) : a.Returns st :=
  fun hname hpath => exists_addSystemUser st (h hname hpath)

theorem exists_described (hstateful : a.Stateful) (hreturns : a.Returns st) (hresult : st.result = 0) :
    ∃ out, a.execute st = some out ∧ Describes a st out ∧ out.statics.result = 0 := by
  rcases hstateful with ⟨hname, hdevice⟩ | hname | hname
  · cases hpath : a.path with
    | binary => exact hresult ▸ exists_described_binaryGetIp hpath hname
    | text =>
        rw [hpath] at hdevice
        obtain ⟨device, hstr, hlength⟩ := hdevice
        exact hresult ▸ exists_described_textGetIp hpath hname hstr hlength
  · cases hpath : a.path with
    | binary => exact hresult ▸ exists_described_binarySetDate hpath hname
    | text => exact hresult ▸ exists_described_textSetDate hpath hname
  · cases hpath : a.path with
    | binary =>
        obtain ⟨r, hr⟩ := hreturns hname hpath
        exact exists_described_binaryAddUser hpath hname hr hresult
    | text => exact exists_described_textAddUser hpath hname hresult

theorem described_of_execute (hstateful : a.Stateful) (hresult : st.result = 0)
    (h : a.execute st = some out) : Describes a st out ∧ out.statics.result = 0 := by
  obtain ⟨out', hout', hdescribed⟩ := exists_described hstateful (returns_of_execute h) hresult
  obtain rfl := Option.some.inj (h.symm.trans hout')
  exact hdescribed

def executed (st : Statics) (a : Request) : Option Statics :=
  (a.execute st).map CmdResult.statics

end Request

open Request

/-- **Replies about their own request.** After any history of these commands, whatever their outcomes,
an answer to the next of them describes it, and there is one where the fields of the request fit. -/
theorem replies_describe {st : Statics}
    (hhistory : Reaches executed (fun _ a => Stateful a) Statics.initial st) {a : Request}
    (hstateful : a.Stateful) :
    (∀ out, a.execute st = some out → Describes a st out)
    ∧ (a.Fits → ∃ out, a.execute st = some out) := by
  have hresult : st.result = 0 := by
    refine hhistory.invariant (I := fun st => st.result = 0) ?_ rfl
    intro st a st' hzero hok hstep
    obtain ⟨out, hout, rfl⟩ := Option.map_eq_some_iff.mp hstep
    exact (described_of_execute hok hzero hout).2
  constructor
  · intro out hout
    exact (described_of_execute hstateful hresult hout).1
  · intro hfits
    obtain ⟨out, hout, _⟩ := exists_described hstateful (hfits.returns st) hresult
    exact ⟨out, hout⟩

theorem replies_describe_setDate_getIp :
    ∃ st out, Reaches executed (fun _ a => Stateful a) Statics.initial st
      ∧ Request.execute ⟨.binary, Env.succeeding, StCmdFrame.ofName (ascii "get_ip") (by decide),
        Block.zeroed 512⟩ st = some out
      ∧ Describes ⟨.binary, Env.succeeding, StCmdFrame.ofName (ascii "get_ip") (by decide),
        Block.zeroed 512⟩ st out := by
  obtain ⟨st, hst⟩ := Option.isSome_iff_exists.mp (show (executed Statics.initial
    ⟨.binary, Env.succeeding, StCmdFrame.ofName (ascii "set_date") (by decide),
      Block.zeroed 512⟩).isSome = true by decide +kernel)
  have hdate : Stateful ⟨.binary, Env.succeeding, StCmdFrame.ofName (ascii "set_date") (by decide),
      Block.zeroed 512⟩ := by
    refine Or.inr (Or.inl ?_)
    unfold Names
    decide +kernel
  have hip : Stateful ⟨.binary, Env.succeeding, StCmdFrame.ofName (ascii "get_ip") (by decide),
      Block.zeroed 512⟩ := by
    refine Or.inl ⟨?_, ?_⟩
    · unfold Names
      decide +kernel
    · change List.length _ ≤ 5
      decide +kernel
  have hhistory : Reaches executed (fun _ a => Stateful a) Statics.initial st :=
    Reaches.tail (Reaches.refl _) hdate hst
  obtain ⟨hdescribes, hanswered⟩ := replies_describe hhistory hip
  obtain ⟨out, hout⟩ := hanswered fun hname => absurd hname (by
    unfold Names
    decide +kernel)
  exact ⟨st, out, hhistory, hout, hdescribes out hout⟩

end InstructionParser
