import InstructionParser.Proof.CommandBounds
import InstructionParser.Proof.OwnReplies
import InstructionParser.Proof.Pipeline

/-!
# Commands that are answered alike

The command thread keeps its static variables and its reply buffer from one command to the next. Most
commands overwrite all that their answer is made of, so that they are answered alike whatever was left
there.
-/

namespace InstructionParser

open CLib Runs

/-- The text commands whose reply is a string of their own. -/
def selfPrinting : List Bytes := [getIpCmd.name, addUserCmd.name, sysInfoCmd.name]

/-- A command whose answer has nothing of what earlier commands left. -/
structure SelfContained (env : Env) (cmd : StCmdFrame) : Prop where
  binary : cmd.isBinary = true → PassesPositive env cmd → env.mallocFails = true
  text : cmd.isBinary = false → ∀ entry, selectCmd cmdRegisterEnter cmd = some entry →
    entry.name ∈ selfPrinting
      ∨ ∃ r, entryHandler env Statics.initial cmd entry = some r ∧ r.status < 0

/-- What every command leaves behind: `result` is 0 again. -/
def CmdThread.Settled (s : CmdThread) : Prop := s.statics.result = 0

/-- Two results of one handler that give the same answer. -/
structure AnswerAlike (entry : CmdList) (r r' : HandlerResult) : Prop where
  status : r'.status = r.status
  events : r'.events = r.events
  reply : r.status = 0 → ∀ getReply, entry.getReply = some getReply →
    (getReply r'.statics).map (fun w => (w.ret, w.wrote))
      = (getReply r.statics).map fun w => (w.ret, w.wrote)

variable {env : Env} {st st' : Statics} {s s' t : CmdThread} {cmd : StCmdFrame} {entry : CmdList}
  {r : HandlerResult} {out : CmdResult} {events : List Event} {fd : Int}

/-! ### Handlers read no static variable -/

theorem alike_silent (hnone : entry.getReply = none) {status : Int} {events : List Event}
    (st st' : Statics) : AnswerAlike entry ⟨status, st, events⟩ ⟨status, st', events⟩ :=
  ⟨rfl, rfl, fun _ getReply hget => by rw [hnone] at hget; cases hget⟩

theorem alike_doGetDeviceIp {buf : Bytes} (len : UInt16)
    (h : doGetDeviceIp env st buf len = some r) (st' : Statics) :
    ∃ r', doGetDeviceIp env st' buf len = some r' ∧ AnswerAlike getIpCmd r r' := by
  simp only [doGetDeviceIp, Option.bind_eq_bind, Option.bind_eq_some_iff] at h
  obtain ⟨name, hname, info, hwrite, ip, hip, h⟩ := h
  cases ip with
  | none =>
      obtain rfl := Option.some.inj h
      refine ⟨{ status := -noDev, statics := { st' with ipInfo := info }, events := [] }, ?_,
        rfl, rfl, fun hzero => absurd hzero (by simp [noDev])⟩
      simp only [doGetDeviceIp, hname, hwrite, hip, Option.bind_eq_bind, Option.bind_some,
        Option.pure_def]
  | some ip =>
      obtain ⟨stored, hstored, hpure⟩ := Option.bind_eq_some_iff.mp h
      obtain rfl := Option.some.inj hpure
      refine ⟨{ status := 0, statics := { st' with ipInfo := stored, flag := 0 }, events := [] }, ?_,
        rfl, rfl, fun _ getReply hget => ?_⟩
      · simp only [doGetDeviceIp, hname, hwrite, hip, hstored, Option.bind_eq_bind, Option.bind_some,
          Option.pure_def]
      · obtain rfl := Option.some.inj hget
        rfl

theorem alike_doTextGetDeviceIp {buf : Bytes} (len : UInt16)
    (h : doTextGetDeviceIp env st buf len = some r) (st' : Statics) :
    ∃ r', doTextGetDeviceIp env st' buf len = some r' ∧ AnswerAlike getIpCmd r r' := by
  simp only [doTextGetDeviceIp, Option.bind_eq_bind, Option.bind_eq_some_iff] at h
  obtain ⟨name, hname, info, hwrite, ip, hip, h⟩ := h
  cases ip with
  | none =>
      obtain rfl := Option.some.inj h
      refine ⟨{ status := -noDev, statics := { st' with ipInfoText := info }, events := [] }, ?_,
        rfl, rfl, fun hzero => absurd hzero (by simp [noDev])⟩
      simp only [doTextGetDeviceIp, hname, hwrite, hip, Option.bind_eq_bind, Option.bind_some,
        Option.pure_def]
  | some ip =>
      obtain ⟨stored, hstored, hpure⟩ := Option.bind_eq_some_iff.mp h
      obtain rfl := Option.some.inj hpure
      refine ⟨{ status := 0, statics := { st' with ipInfoText := stored, flag := 1 }, events := [] },
        ?_, rfl, rfl, fun _ getReply hget => ?_⟩
      · simp only [doTextGetDeviceIp, hname, hwrite, hip, hstored, Option.bind_eq_bind,
          Option.bind_some, Option.pure_def]
      · obtain rfl := Option.some.inj hget
        simp only [getIpReply, ne_eq, one_ne_zero, not_false_eq_true, if_true, Option.bind_eq_bind]
        cases cstr stored.bytes with
        | none => rfl
        | some name => cases cstr (stored.bytes.drop ipaddrOff) <;> rfl

theorem alike_doSetDeviceIp {buf : Bytes} (len : UInt16)
    (h : doSetDeviceIp env st buf len = some r) (st' : Statics) :
    ∃ r', doSetDeviceIp env st' buf len = some r' ∧ AnswerAlike setIpCmd r r' := by
  simp only [doSetDeviceIp_eq, Option.bind_eq_some_iff] at h ⊢
  obtain ⟨info, hinfo, set, hset, stored, hstored, hpure⟩ := h
  obtain rfl := Option.some.inj hpure
  exact ⟨_, ⟨info, hinfo, set, hset, stored, hstored, rfl⟩, alike_silent rfl _ _⟩

theorem alike_doTextSetDeviceIp {buf : Bytes} (len : UInt16)
    (h : doTextSetDeviceIp env st buf len = some r) (st' : Statics) :
    ∃ r', doTextSetDeviceIp env st' buf len = some r' ∧ AnswerAlike setIpCmd r r' := by
  simp only [doTextSetDeviceIp_eq, Option.bind_eq_some_iff] at h ⊢
  obtain ⟨info, hinfo, set, hset, hpure⟩ := h
  obtain rfl := Option.some.inj hpure
  exact ⟨_, ⟨info, hinfo, set, hset, rfl⟩, alike_silent rfl _ _⟩

theorem alike_setSystemDate {buf : Bytes} (len : UInt16)
    (h : setSystemDate env st buf len = some r) (st' : Statics) :
    ∃ r', setSystemDate env st' buf len = some r' ∧ AnswerAlike setDateCmd r r' := by
  obtain ⟨b0, h0, h⟩ := Option.bind_eq_some_iff.mp h
  by_cases hquery : b0 ≠ 1
  · rw [if_pos hquery] at h
    obtain rfl := Option.some.inj h
    refine ⟨{ status := 0, statics := { st' with mode := 0, now := env.now }, events := [] }, ?_,
      rfl, rfl, fun _ getReply hget => ?_⟩
    · rw [setSystemDate, h0, Option.bind_eq_bind, Option.bind_some, if_pos hquery]
      rfl
    · obtain rfl := Option.some.inj hget
      rfl
  · rw [if_neg hquery] at h
    simp only [Option.bind_eq_bind, Option.bind_eq_some_iff] at h
    obtain ⟨year, hyear, mon, hmon, day, hday, hour, hhour, min, hmin, sec, hsec, h⟩ := h
    have hrun : ∀ st : Statics, setSystemDate env st buf len
        = if env.system 0 = 0 then some ⟨env.system 1, { st with mode := 1 },
            [.system (hwclockCmd year mon day hour min sec),
              .system (dateCmd year mon day hour min sec)]⟩
          else some ⟨0, { st with mode := 1 }, [.system (hwclockCmd year mon day hour min sec)]⟩ := by
      intro st
      simp only [setSystemDate, h0, hquery, hyear, hmon, hday, hhour, hmin, hsec, Option.bind_eq_bind,
        Option.bind_some, if_false, Option.pure_def]
    rw [hrun]
    split_ifs at h ⊢
    all_goals
      obtain rfl := Option.some.inj h
      refine ⟨_, rfl, rfl, rfl, fun _ getReply hget => ?_⟩
      obtain rfl := Option.some.inj hget
      rfl

theorem addUser_reply_alike (hst : st.result = 0) (hst' : st'.result = 0) (getReply : GetReply)
    (hget : addUserCmd.getReply = some getReply) :
    (getReply st').map (fun w => (w.ret, w.wrote)) = (getReply st).map fun w => (w.ret, w.wrote) := by
  obtain rfl := Option.some.inj hget
  rw [Request.addSystemUserReply_zero hst, Request.addSystemUserReply_zero hst']
  rfl

theorem alike_addSystemUser {buf : Bytes} (len : UInt16) (hst : st.result = 0)
    (hst' : st'.result = 0) (h : addSystemUser env st buf len = some r) :
    ∃ r', addSystemUser env st' buf len = some r' ∧ AnswerAlike addUserCmd r r' := by
  have hne : buf ≠ [] := by
    rintro rfl
    cases h
  by_cases hadd : buf[0]? = some 1
  · obtain ⟨userName, userPasswd, name, passwd, hbuffers, hname, hpasswd, hroom, rfl⟩ :=
      (addSystemUser_eq_some_iff hadd).mp h
    refine ⟨_, (addSystemUser_eq_some_iff hadd).mpr
      ⟨userName, userPasswd, name, passwd, hbuffers, hname, hpasswd, hroom, rfl⟩, rfl, rfl,
      fun _ getReply hget => ?_⟩
    by_cases hfails : env.system 0 ≠ 0
    · obtain rfl := Option.some.inj hget
      simp only [if_pos hfails]
      rfl
    · simp only [if_neg hfails]
      exact addUser_reply_alike hst hst' getReply hget
  · rw [addSystemUser_query hne hadd] at h
    obtain rfl := Option.some.inj h
    exact ⟨_, addSystemUser_query hne hadd, rfl, rfl, fun _ => addUser_reply_alike hst hst'⟩

theorem alike_constant {status : Int} (hget : ∀ getReply, entry.getReply = some getReply →
      (getReply st').map (fun w => (w.ret, w.wrote)) = (getReply st).map fun w => (w.ret, w.wrote))
    (events : List Event) : AnswerAlike entry ⟨status, st, events⟩ ⟨status, st', events⟩ :=
  ⟨rfl, rfl, fun _ => hget⟩

theorem sysInfo_reply_alike (st st' : Statics) (getReply : GetReply)
    (hget : sysInfoCmd.getReply = some getReply) :
    (getReply st').map (fun w => (w.ret, w.wrote)) = (getReply st).map fun w => (w.ret, w.wrote) := by
  obtain rfl := Option.some.inj hget
  rfl

theorem alike_rebootSystem (buf : Bytes) (len : UInt16) (h : rebootSystem env st buf len = some r)
    (st' : Statics) : ∃ r', rebootSystem env st' buf len = some r' ∧ AnswerAlike rebootCmd r r' := by
  obtain ⟨hfails, rfl⟩ := rebootSystem_eq_some_iff.mp h
  exact ⟨_, rebootSystem_eq_some_iff.mpr ⟨hfails, rfl⟩, alike_silent rfl _ _⟩

theorem alike_doCmd (hst : st.result = 0) (hst' : st'.result = 0) : ∀ entry ∈ cmdRegisterEnter,
    callHandler entry.doCmd env st cmd.data cmd.cmdLen = some r →
    ∃ r', callHandler entry.doCmd env st' cmd.data cmd.cmdLen = some r' ∧ AnswerAlike entry r r' := by
  apply forall_registered
  case help =>
      intro h
      obtain rfl := Option.some.inj h
      exact ⟨_, rfl, alike_silent rfl _ _⟩
  case reboot => exact fun h => alike_rebootSystem cmd.data cmd.cmdLen h st'
  case getIp => exact fun h => alike_doGetDeviceIp cmd.cmdLen h st'
  case setIp => exact fun h => alike_doSetDeviceIp cmd.cmdLen h st'
  case previewOn =>
      intro h
      obtain rfl := Option.some.inj h
      exact ⟨_, rfl, alike_silent rfl _ _⟩
  case previewOff =>
      intro h
      obtain rfl := Option.some.inj h
      exact ⟨_, rfl, alike_silent rfl _ _⟩
  case setDate => exact fun h => alike_setSystemDate cmd.cmdLen h st'
  case addUser => exact fun h => alike_addSystemUser cmd.cmdLen hst hst' h
  case sysInfo =>
      intro h
      obtain rfl := Option.some.inj h
      exact ⟨_, rfl, alike_constant (sysInfo_reply_alike _ _) _⟩

/-- Of the text commands `set_date` prints what an earlier one found. -/
theorem alike_doTextCmd (hst : st.result = 0) (hst' : st'.result = 0) : ∀ entry ∈ cmdRegisterEnter,
    entry.name ≠ setDateCmd.name →
    callHandler entry.doTextCmd env st cmd.cmdData cmd.cmdLen = some r →
    ∃ r', callHandler entry.doTextCmd env st' cmd.cmdData cmd.cmdLen = some r'
      ∧ AnswerAlike entry r r' := by
  apply forall_registered
  case help =>
      intro _ h
      obtain rfl := Option.some.inj h
      exact ⟨_, rfl, alike_silent rfl _ _⟩
  case reboot => exact fun _ h => alike_rebootSystem cmd.cmdData cmd.cmdLen h st'
  case getIp => exact fun _ h => alike_doTextGetDeviceIp cmd.cmdLen h st'
  case setIp => exact fun _ h => alike_doTextSetDeviceIp cmd.cmdLen h st'
  case previewOn =>
      intro _ h
      obtain rfl := Option.some.inj h
      exact ⟨_, rfl, alike_silent rfl _ _⟩
  case previewOff =>
      intro _ h
      obtain rfl := Option.some.inj h
      exact ⟨_, rfl, alike_silent rfl _ _⟩
  case setDate => exact fun hne => absurd rfl hne
  case addUser =>
      intro _ h
      obtain rfl := Option.some.inj h
      exact ⟨_, rfl, alike_constant (addUser_reply_alike hst hst') _⟩
  case sysInfo =>
      intro _ h
      obtain rfl := Option.some.inj h
      exact ⟨_, rfl, alike_constant (sysInfo_reply_alike _ _) _⟩

theorem alike_entryHandler (hst : st.result = 0) (hst' : st'.result = 0)
    (hmem : entry ∈ cmdRegisterEnter) (hname : cstr cmd.cmdName = some entry.name)
    (hdate : cmd.isBinary = false → entry.name ≠ setDateCmd.name)
    (h : entryHandler env st cmd entry = some r) :
    ∃ r', entryHandler env st' cmd entry = some r' ∧ AnswerAlike entry r r' := by
  cases hbin : cmd.isBinary with
  | true =>
      rw [entryHandler, if_pos hbin] at h ⊢
      exact alike_doCmd hst hst' entry hmem h
  | false =>
      have htext : ¬ cmd.isBinary = true := by rw [hbin]; decide
      rw [entryHandler, if_neg htext, textHandler] at h ⊢
      by_cases hhelp : strcmpEq (ascii "help") cmd.cmdName = true
      · rw [if_pos hhelp] at h ⊢
        have hhelpName := hname.symm.trans ((strcmpEq_iff (by decide)).mp hhelp)
        obtain rfl := entry_eq_of_name hmem helpCmd_mem (Option.some.inj hhelpName)
        obtain ⟨events, hevents, hpure⟩ := Option.bind_eq_some_iff.mp h
        obtain rfl := Option.some.inj hpure
        exact ⟨_, by rw [textDoHelp, hevents]; rfl, alike_silent rfl _ _⟩
      · rw [if_neg hhelp] at h ⊢
        exact alike_doTextCmd hst hst' entry hmem (hdate hbin) h

/-! ### What the answer takes from the reply buffer -/

/-- Two results of the dispatcher that give the same answer. -/
structure SentAlike (env : Env) (cmd : StCmdFrame) (out out' : CmdResult) : Prop where
  ret : out'.ret = out.ret
  events : out'.events = out.events
  response : cmd.isBinary = true → 0 < out.ret → env.mallocFails = true
    ∨ out'.reply.bytes.take out.ret.toNat = out.reply.bytes.take out.ret.toNat
  text : cmd.isBinary = false → 0 ≤ out.ret → cstr out'.reply.bytes = cstr out.reply.bytes

theorem SentAlike.answer {out' : CmdResult} (h : SentAlike env cmd out out') :
    answerBytes env cmd out'.reply (chooseAnswer cmd out'.ret)
      = answerBytes env cmd out.reply (chooseAnswer cmd out.ret) := by
  rw [h.ret]
  cases hbin : cmd.isBinary with
  | true =>
      rw [chooseAnswer, if_pos hbin]
      split_ifs with hneg hpos
      · rfl
      · rcases h.response hbin hpos with hmalloc | htake
        · rw [answerBytes, answerBytes, if_pos hmalloc, if_pos hmalloc]
        · have hread : readBytes out'.reply.bytes 0 out.ret.toNat
              = readBytes out.reply.bytes 0 out.ret.toNat := by
            rw [readBytes, readBytes, out'.reply.size_eq, out.reply.size_eq, List.drop_zero,
              List.drop_zero, htake]
          rw [answerBytes, answerBytes, doResponse, doResponse, hread]
      · rfl
  | false =>
      rw [chooseAnswer, if_neg (by rw [hbin]; decide)]
      split_ifs with hneg
      · rfl
      · rw [answerBytes, answerBytes, doTextResponse, doTextResponse, h.text hbin (not_lt.mp hneg)]

theorem sentAlike_failed {r' : HandlerResult} (halike : AnswerAlike entry r r') (hstatus : r.status ≠ 0)
    (hbinary : cmd.isBinary = true → 0 < r.status → env.mallocFails = true)
    (htext : cmd.isBinary = false → r.status < 0) (reply reply' : Reply)
    (hfinish : finishCmd entry r reply = some out) :
    ∃ out', finishCmd entry r' reply' = some out' ∧ SentAlike env cmd out out' := by
  rw [finishCmd_failed hstatus] at hfinish
  obtain rfl := Option.some.inj hfinish
  have hstatus' : r'.status ≠ 0 := by rwa [halike.status]
  refine ⟨_, finishCmd_failed hstatus', halike.status, halike.events, ?_, ?_⟩
  · exact fun hbin hpos => Or.inl (hbinary hbin hpos)
  · exact fun hbin hnonneg => absurd (htext hbin) (by simpa using hnonneg)

/-- A `get_reply` that has a zero among its bytes, or is sent as many bytes as it wrote. -/
theorem sentAlike_reply {r' : HandlerResult} {getReply : GetReply} (halike : AnswerAlike entry r r')
    (hstatus : r.status = 0) (hget : entry.getReply = some getReply)
    (hcounted : ∀ w, getReply r.statics = some w → cmd.isBinary = true → w.Counted)
    (hzero : ∀ w, getReply r.statics = some w → cmd.isBinary = false → 0 ∈ w.wrote)
    (reply reply' : Reply) (hfinish : finishCmd entry r reply = some out) :
    ∃ out', finishCmd entry r' reply' = some out' ∧ SentAlike env cmd out out' := by
  obtain ⟨w, written, hw, hwrite, rfl⟩ := (finishCmd_reply hstatus hget).mp hfinish
  have hsame := halike.reply hstatus getReply hget
  rw [hw, Option.map_some] at hsame
  obtain ⟨w', hw', hpair⟩ := Option.map_eq_some_iff.mp hsame
  obtain ⟨hret, hwrote⟩ := Prod.mk.inj hpair
  obtain ⟨hroom, hbytes⟩ := Block.write_eq_some_iff.mp hwrite
  obtain ⟨written', hwrite', hbytes'⟩ := Block.exists_write (b := reply')
    (show 0 + w'.wrote.length ≤ 512 by rw [hwrote]; exact hroom)
  refine ⟨_, (finishCmd_reply (halike.status.trans hstatus) hget).mpr ⟨w', written', hw', hwrite', rfl⟩,
    hret, halike.events, fun hbin _ => Or.inr ?_, fun hbin _ => ?_⟩
  · obtain ⟨hcount, _⟩ := hcounted w hw hbin
    change written'.bytes.take w.ret.toNat = written.bytes.take w.ret.toNat
    rw [hbytes, hbytes', patch, patch, List.take_zero, List.take_zero, List.nil_append, List.nil_append,
      hwrote, hcount, Int.toNat_natCast, List.take_left, List.take_left]
  · change cstr written'.bytes = cstr written.bytes
    obtain ⟨rest, hsplit⟩ := strBytes_split (hzero w hw hbin)
    rw [hbytes, hbytes', patch, patch, List.take_zero, List.take_zero, List.nil_append, List.nil_append,
      hwrote, hsplit, List.append_assoc, List.append_assoc, List.cons_append, List.cons_append,
      cstr_append_zero (zero_notMem_strBytes _), cstr_append_zero (zero_notMem_strBytes _)]

/-! ### One command -/

theorem settled_initial (reply : Reply) : (CmdThread.initial reply).Settled := rfl

/-- What the three text commands print ends with a zero of their own. -/
theorem zero_mem_selfPrinting (hst : st.result = 0) : ∀ entry ∈ cmdRegisterEnter,
    entry.name ∈ selfPrinting →
    callHandler entry.doTextCmd env st cmd.cmdData cmd.cmdLen = some r → r.status = 0 →
    ∀ getReply w, entry.getReply = some getReply → getReply r.statics = some w → 0 ∈ w.wrote := by
  apply forall_registered
  case help => exact fun hself => absurd hself (by decide)
  case reboot => exact fun hself => absurd hself (by decide)
  case getIp =>
      intro _ hrun hstatus getReply w hget hw
      obtain rfl := Option.some.inj hget
      have hhandler : doTextGetDeviceIp env st cmd.cmdData cmd.cmdLen = some r := hrun
      rcases doTextGetDeviceIp_status hhandler with hfailed | ⟨_, hflag⟩
      · rw [hfailed] at hstatus
        exact absurd hstatus (by decide)
      · obtain ⟨text, hwrote, _⟩ := getIpReply_text hflag hw
        rw [hwrote]
        simp
  case setIp => exact fun hself => absurd hself (by decide)
  case previewOn => exact fun hself => absurd hself (by decide)
  case previewOff => exact fun hself => absurd hself (by decide)
  case setDate => exact fun hself => absurd hself (by decide)
  case addUser =>
      intro _ hrun _ getReply w hget hw
      obtain rfl := Option.some.inj hget
      obtain rfl := Option.some.inj hrun
      rw [Request.addSystemUserReply_zero hst] at hw
      obtain rfl := Option.some.inj hw
      exact List.mem_singleton.mpr rfl
  case sysInfo =>
      intro _ _ _ getReply w hget hw
      obtain rfl := Option.some.inj hget
      obtain rfl := Option.some.inj hw
      simp

theorem selfPrinting_registered : ∀ entry ∈ cmdRegisterEnter, entry.name ∈ selfPrinting →
    entry.getReply ≠ none ∧ entry.name ≠ ascii "help" ∧ entry.name ≠ setDateCmd.name
      ∧ NeverPositive entry.doTextCmd := by
  apply forall_registered
  case help => exact fun hself => absurd hself (by decide)
  case reboot => exact fun hself => absurd hself (by decide)
  case getIp => exact fun _ => ⟨nofun, by decide, by decide, neverPositive_doTextGetDeviceIp⟩
  case setIp => exact fun hself => absurd hself (by decide)
  case previewOn => exact fun hself => absurd hself (by decide)
  case previewOff => exact fun hself => absurd hself (by decide)
  case setDate => exact fun hself => absurd hself (by decide)
  case addUser => exact fun _ => ⟨nofun, by decide, by decide, neverPositive_succeed⟩
  case sysInfo => exact fun _ => ⟨nofun, by decide, by decide, neverPositive_succeed⟩

/-- A text `set_date` never fails. -/
theorem textSetDate_status (hbin : cmd.isBinary = false)
    (hname : cstr cmd.cmdName = some setDateCmd.name)
    (hrun : entryHandler env st cmd setDateCmd = some r) : r.status = 0 ∧ r.statics = st := by
  rw [entryHandler, if_neg (by rw [hbin]; decide), textHandler_eq hname (by decide)] at hrun
  obtain rfl := Option.some.inj hrun
  exact ⟨rfl, rfl⟩

theorem SelfContained.not_textSetDate (h : SelfContained env cmd) (hbin : cmd.isBinary = false)
    (hselect : selectCmd cmdRegisterEnter cmd = some entry) : entry.name ≠ setDateCmd.name := by
  intro hdate
  obtain ⟨hmem, hname⟩ := selectCmd_registered.mp hselect
  obtain rfl := entry_eq_of_name hmem setDateCmd_mem hdate
  rcases h.text hbin setDateCmd hselect with hself | ⟨r, hrun, hneg⟩
  · exact absurd hself (by decide)
  · rw [(textSetDate_status hbin hname hrun).1] at hneg
    exact absurd hneg (by decide)

/-- A text command that does not fail prints a string of its own. -/
theorem SelfContained.prints (h : SelfContained env cmd) (hst : st.result = 0)
    (hbin : cmd.isBinary = false) (hselect : selectCmd cmdRegisterEnter cmd = some entry)
    (hrun : entryHandler env st cmd entry = some r) (hnonneg : 0 ≤ r.status) :
    entry.name ∈ selfPrinting := by
  obtain ⟨hmem, hname⟩ := selectCmd_registered.mp hselect
  refine (h.text hbin entry hselect).resolve_right ?_
  rintro ⟨r₀, hrun₀, hneg⟩
  have hinitial : Statics.initial.result = 0 := rfl
  obtain ⟨r₁, hrun₁, halike⟩ := alike_entryHandler hinitial hst hmem hname
    (fun _ => h.not_textSetDate hbin hselect) hrun₀
  obtain rfl := Option.some.inj (hrun.symm.trans hrun₁)
  rw [halike.status] at hnonneg
  omega

theorem handler_of_selfPrinting (hbin : cmd.isBinary = false) (hmem : entry ∈ cmdRegisterEnter)
    (hname : cstr cmd.cmdName = some entry.name) (hself : entry.name ∈ selfPrinting)
    (hrun : entryHandler env st cmd entry = some r) :
    callHandler entry.doTextCmd env st cmd.cmdData cmd.cmdLen = some r := by
  rw [entryHandler, if_neg (by rw [hbin]; decide),
    textHandler_eq hname (selfPrinting_registered entry hmem hself).2.1] at hrun
  exact hrun

theorem SelfContained.finishCmd (h : SelfContained env cmd) (hs : s.Settled)
    (hselect : selectCmd cmdRegisterEnter cmd = some entry)
    (hrun : entryHandler env s.statics cmd entry = some r) {r' : HandlerResult}
    (halike : AnswerAlike entry r r') (reply' : Reply) (hfinish : finishCmd entry r s.reply = some out) :
    ∃ out', InstructionParser.finishCmd entry r' reply' = some out' ∧ SentAlike env cmd out out' := by
  obtain ⟨hmem, hname⟩ := selectCmd_registered.mp hselect
  have hprints : cmd.isBinary = false → 0 ≤ r.status → entry.name ∈ selfPrinting :=
    fun hbin => h.prints hs hbin hselect hrun
  by_cases hstatus : r.status = 0
  · cases hget : entry.getReply with
    | none =>
        rw [finishCmd_noReply hstatus hget] at hfinish
        obtain rfl := Option.some.inj hfinish
        refine ⟨_, finishCmd_noReply (halike.status.trans hstatus) hget, rfl, halike.events,
          fun _ hpos => absurd hpos (by simp), fun hbin _ => ?_⟩
        exact absurd hget (selfPrinting_registered entry hmem (hprints hbin hstatus.ge)).1
    | some getReply =>
        refine sentAlike_reply halike hstatus hget (fun w hw hbin => ?_) (fun w hw hbin => ?_) _ _
          hfinish
        · rw [entryHandler, if_pos hbin] at hrun
          exact binaryReply_counted entry hmem hrun hstatus hget hw
        · have hself := hprints hbin hstatus.ge
          exact zero_mem_selfPrinting hs entry hmem hself
            (handler_of_selfPrinting hbin hmem hname hself hrun) hstatus getReply w hget hw
  · refine sentAlike_failed halike hstatus (fun hbin hpos => ?_) (fun hbin => ?_) _ _ hfinish
    · exact h.binary hbin (passesPositive_of_status hmem hname hrun hpos)
    · by_contra hnonneg
      have hself := hprints hbin (not_lt.mp hnonneg)
      have hnever := (selfPrinting_registered entry hmem hself).2.2.2 env s.statics _ _ r
        (handler_of_selfPrinting hbin hmem hname hself hrun)
      omega

theorem SelfContained.dispatch (h : SelfContained env cmd) (hs : s.Settled) (ht : t.Settled)
    (hout : dispatch env s cmd = some out) :
    ∃ out', dispatch env t cmd = some out' ∧ SentAlike env cmd out out' := by
  cases hselect : selectCmd cmdRegisterEnter cmd with
  | none =>
      rw [dispatch_unselected hselect] at hout
      obtain rfl := Option.some.inj hout
      exact ⟨_, dispatch_unselected hselect, rfl, rfl, fun _ hpos => absurd hpos (by simp),
        fun _ hnonneg => absurd hnonneg (by simp)⟩
  | some entry =>
      obtain ⟨hmem, hname⟩ := selectCmd_registered.mp hselect
      obtain ⟨r, hrun, hfinish⟩ := (dispatch_selected hselect).mp hout
      obtain ⟨r', hrun', halike⟩ := alike_entryHandler hs ht hmem hname
        (fun hbin => h.not_textSetDate hbin hselect) hrun
      obtain ⟨out', hfinish', hsent⟩ := h.finishCmd hs hselect hrun halike t.reply hfinish
      exact ⟨out', (dispatch_selected hselect).mpr ⟨r', hrun', hfinish'⟩, hsent⟩

/-- What a command does does not depend on the state that it finds. -/
theorem SelfContained.getCmd (h : SelfContained env cmd) (hs : s.Settled) (ht : t.Settled)
    (hget : getCmd env s cmd = some (s', events)) : ∃ t', getCmd env t cmd = some (t', events) := by
  simp only [InstructionParser.getCmd, Option.bind_eq_bind, Option.bind_eq_some_iff] at hget
  obtain ⟨out, hout, sent, hsent, hpure⟩ := hget
  obtain ⟨_, rfl⟩ := Prod.mk.inj (Option.some.inj hpure)
  obtain ⟨out', hout', halike⟩ := h.dispatch hs ht hout
  refine ⟨{ statics := out'.statics, reply := out'.reply }, ?_⟩
  simp only [InstructionParser.getCmd, hout', halike.answer, hsent, halike.events, Option.bind_eq_bind,
    Option.bind_some]
  rfl

/-! ### What a command leaves behind -/

/-- A handler that leaves `result` as it was. -/
def KeepsResult (handler : Option Handler) : Prop :=
  ∀ env st arg len r, callHandler handler env st arg len = some r → r.statics.result = st.result

theorem keepsResult_none : KeepsResult none := by
  intro env st arg len r h
  obtain rfl := Option.some.inj h
  rfl

theorem keepsResult_succeed : KeepsResult (some succeed) := by
  intro env st arg len r h
  obtain rfl := Option.some.inj h
  rfl

theorem keepsResult_systemTwice (first second : Bytes) :
    KeepsResult (some (systemTwice first second)) := by
  intro env st arg len r h
  obtain rfl := Option.some.inj h
  rfl

theorem keepsResult_rebootSystem : KeepsResult (some rebootSystem) := by
  intro env st arg len r h
  have hrun : rebootSystem env st arg len = some r := h
  obtain ⟨_, rfl⟩ := rebootSystem_eq_some_iff.mp hrun
  rfl

theorem keepsResult_doGetDeviceIp : KeepsResult (some doGetDeviceIp) := by
  intro env st arg len r h
  have hrun : doGetDeviceIp env st arg len = some r := h
  simp only [doGetDeviceIp, Option.bind_eq_bind, Option.bind_eq_some_iff] at hrun
  obtain ⟨name, _, info, _, ip, _, hrun⟩ := hrun
  cases ip with
  | none =>
      obtain rfl := Option.some.inj hrun
      rfl
  | some ip =>
      obtain ⟨_, _, hpure⟩ := Option.bind_eq_some_iff.mp hrun
      obtain rfl := Option.some.inj hpure
      rfl

theorem keepsResult_doTextGetDeviceIp : KeepsResult (some doTextGetDeviceIp) := by
  intro env st arg len r h
  have hrun : doTextGetDeviceIp env st arg len = some r := h
  simp only [doTextGetDeviceIp, Option.bind_eq_bind, Option.bind_eq_some_iff] at hrun
  obtain ⟨name, _, info, _, ip, _, hrun⟩ := hrun
  cases ip with
  | none =>
      obtain rfl := Option.some.inj hrun
      rfl
  | some ip =>
      obtain ⟨_, _, hpure⟩ := Option.bind_eq_some_iff.mp hrun
      obtain rfl := Option.some.inj hpure
      rfl

theorem keepsResult_doSetDeviceIp : KeepsResult (some doSetDeviceIp) := by
  intro env st arg len r h
  have hrun : doSetDeviceIp env st arg len = some r := h
  simp only [doSetDeviceIp_eq, Option.bind_eq_some_iff] at hrun
  obtain ⟨_, _, _, _, _, _, hpure⟩ := hrun
  obtain rfl := Option.some.inj hpure
  rfl

theorem keepsResult_doTextSetDeviceIp : KeepsResult (some doTextSetDeviceIp) := by
  intro env st arg len r h
  have hrun : doTextSetDeviceIp env st arg len = some r := h
  simp only [doTextSetDeviceIp_eq, Option.bind_eq_some_iff] at hrun
  obtain ⟨_, _, _, _, hpure⟩ := hrun
  obtain rfl := Option.some.inj hpure
  rfl

theorem keepsResult_setSystemDate : KeepsResult (some setSystemDate) := by
  intro env st arg len r h
  obtain ⟨b0, _, hrun⟩ := Option.bind_eq_some_iff.mp (show setSystemDate env st arg len = some r from h)
  by_cases hquery : b0 ≠ 1
  · rw [if_pos hquery] at hrun
    obtain rfl := Option.some.inj hrun
    rfl
  · rw [if_neg hquery] at hrun
    simp only [Option.bind_eq_bind, Option.bind_eq_some_iff] at hrun
    obtain ⟨year, _, mon, _, day, _, hour, _, min, _, sec, _, hrun⟩ := hrun
    split_ifs at hrun
    all_goals
      obtain rfl := Option.some.inj hrun
      rfl

theorem keepsResult_doCmd : ∀ entry ∈ cmdRegisterEnter, entry ≠ addUserCmd →
    KeepsResult entry.doCmd := by
  apply forall_registered
  case help => exact fun _ => keepsResult_none
  case reboot => exact fun _ => keepsResult_rebootSystem
  case getIp => exact fun _ => keepsResult_doGetDeviceIp
  case setIp => exact fun _ => keepsResult_doSetDeviceIp
  case previewOn => exact fun _ => keepsResult_systemTwice _ _
  case previewOff => exact fun _ => keepsResult_systemTwice _ _
  case setDate => exact fun _ => keepsResult_setSystemDate
  case addUser => exact fun hother => absurd rfl hother
  case sysInfo => exact fun _ => keepsResult_succeed

theorem keepsResult_doTextCmd : ∀ entry ∈ cmdRegisterEnter, KeepsResult entry.doTextCmd := by
  apply forall_registered
  case help => exact keepsResult_none
  case reboot => exact keepsResult_rebootSystem
  case getIp => exact keepsResult_doTextGetDeviceIp
  case setIp => exact keepsResult_doTextSetDeviceIp
  case previewOn => exact keepsResult_systemTwice _ _
  case previewOff => exact keepsResult_systemTwice _ _
  case setDate => exact keepsResult_succeed
  case addUser => exact keepsResult_succeed
  case sysInfo => exact keepsResult_succeed

/-- Only the binary `add_user` raises `result`, and it is answered. -/
def ResultKept (entry : CmdList) (st : Statics) (r : HandlerResult) : Prop :=
  r.statics.result = st.result ∨ entry = addUserCmd ∧ r.status = 0 ∧ r.statics.result = 1

theorem resultKept_addSystemUser {buf : Bytes} (len : UInt16)
    (h : addSystemUser env st buf len = some r) : ResultKept addUserCmd st r := by
  have hne : buf ≠ [] := by
    rintro rfl
    cases h
  by_cases hadd : buf[0]? = some 1
  · obtain ⟨_, _, _, _, _, _, _, _, rfl⟩ := (addSystemUser_eq_some_iff hadd).mp h
    by_cases hfails : env.system 0 ≠ 0
    · exact Or.inr ⟨rfl, rfl, by simp only [if_pos hfails]⟩
    · exact Or.inl (by simp only [if_neg hfails])
  · rw [addSystemUser_query hne hadd] at h
    obtain rfl := Option.some.inj h
    exact Or.inl rfl

theorem resultKept_entryHandler (hmem : entry ∈ cmdRegisterEnter)
    (h : entryHandler env st cmd entry = some r) : ResultKept entry st r := by
  rw [entryHandler] at h
  split_ifs at h with hbin
  · by_cases hadd : entry.name = addUserCmd.name
    · obtain rfl := entry_eq_of_name hmem addUserCmd_mem hadd
      exact resultKept_addSystemUser cmd.cmdLen h
    · exact Or.inl (keepsResult_doCmd entry hmem (fun heq => hadd (heq ▸ rfl)) env st _ _ r h)
  · rw [textHandler] at h
    split_ifs at h with hhelp
    · obtain ⟨events, _, hpure⟩ := Option.bind_eq_some_iff.mp h
      obtain rfl := Option.some.inj hpure
      exact Or.inl rfl
    · exact Or.inl (keepsResult_doTextCmd entry hmem env st _ _ r h)

/-- Only the reply of `add_user` changes a static variable. -/
theorem getReply_statics : ∀ entry ∈ cmdRegisterEnter, entry ≠ addUserCmd →
    ∀ getReply w, entry.getReply = some getReply → getReply st = some w → w.statics = st := by
  apply forall_registered
  case help => exact fun _ _ _ hget => nomatch hget
  case reboot => exact fun _ _ _ hget => nomatch hget
  case getIp =>
      intro _ getReply w hget hw
      obtain rfl := Option.some.inj hget
      unfold getIpReply at hw
      split_ifs at hw
      · simp only [Option.bind_eq_bind, Option.bind_eq_some_iff] at hw
        obtain ⟨_, _, _, _, hpure⟩ := hw
        obtain rfl := Option.some.inj hpure
        rfl
      · obtain rfl := Option.some.inj hw
        rfl
  case setIp => exact fun _ _ _ hget => nomatch hget
  case previewOn => exact fun _ _ _ hget => nomatch hget
  case previewOff => exact fun _ _ _ hget => nomatch hget
  case setDate =>
      intro _ getReply w hget hw
      obtain rfl := Option.some.inj hget
      unfold setDateReply at hw
      split_ifs at hw
      all_goals
        obtain rfl := Option.some.inj hw
        rfl
  case addUser => exact fun hother => absurd rfl hother
  case sysInfo =>
      intro _ getReply w hget hw
      obtain rfl := Option.some.inj hget
      obtain rfl := Option.some.inj hw
      rfl

theorem result_addSystemUserReply {w : ReplyResult} (h : addSystemUserReply st = some w)
    (hresult : st.result = 0 ∨ st.result = 1) : w.statics.result = 0 := by
  unfold addSystemUserReply at h
  split_ifs at h with hone
  · obtain rfl := Option.some.inj h
    rfl
  · obtain rfl := Option.some.inj h
    exact hresult.resolve_right hone

theorem result_finishCmd (hst : st.result = 0) (hmem : entry ∈ cmdRegisterEnter)
    (hkept : ResultKept entry st r) {reply : Reply} (h : finishCmd entry r reply = some out) :
    out.statics.result = 0 := by
  have hunraised : entry ≠ addUserCmd ∨ r.status ≠ 0 → r.statics.result = 0 := by
    rcases hkept with hsame | ⟨hentry, hstatus, _⟩
    · exact fun _ => hsame.trans hst
    · exact fun hother => absurd (hother.resolve_left fun hne => hne hentry) (not_not.mpr hstatus)
  by_cases hstatus : r.status = 0
  · cases hget : entry.getReply with
    | none =>
        rw [finishCmd_noReply hstatus hget] at h
        obtain rfl := Option.some.inj h
        refine hunraised (Or.inl ?_)
        rintro rfl
        cases hget
    | some getReply =>
        obtain ⟨w, reply', hw, _, rfl⟩ := (finishCmd_reply hstatus hget).mp h
        by_cases hadd : entry = addUserCmd
        · subst hadd
          obtain rfl := Option.some.inj hget
          have hresult := hkept.imp (fun hsame => hsame.trans hst) fun hraised => hraised.2.2
          exact result_addSystemUserReply hw hresult
        · exact (congrArg Statics.result (getReply_statics entry hmem hadd getReply w hget hw)).trans
            (hunraised (Or.inl hadd))
  · rw [finishCmd_failed hstatus] at h
    obtain rfl := Option.some.inj h
    exact hunraised (Or.inr hstatus)

theorem CmdThread.Settled.getCmd (h : s.Settled) (hget : getCmd env s cmd = some (s', events)) :
    s'.Settled := by
  obtain ⟨out, hout, hget⟩ := Option.bind_eq_some_iff.mp hget
  obtain ⟨sent, _, hpure⟩ := Option.bind_eq_some_iff.mp hget
  obtain ⟨rfl, _⟩ := Prod.mk.inj (Option.some.inj hpure)
  cases hselect : selectCmd cmdRegisterEnter cmd with
  | none =>
      rw [dispatch_unselected hselect] at hout
      obtain rfl := Option.some.inj hout
      exact h
  | some entry =>
      have hmem := (selectCmd_registered.mp hselect).1
      obtain ⟨r, hrun, hfinish⟩ := (dispatch_selected hselect).mp hout
      exact result_finishCmd h hmem (resultKept_entryHandler hmem hrun) hfinish

end InstructionParser
