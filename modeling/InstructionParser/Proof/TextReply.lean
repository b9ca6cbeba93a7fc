import InstructionParser.CLib.Decimal
import InstructionParser.Proof.Handlers
import InstructionParser.Runs

/-!
# The reply buffer between commands

`get_cmd` never clears its reply buffer, and `do_text_response` prints it as a string instead of the
length it is given. A text command therefore answers with its own reply only when that reply is a
string with its terminating zero, or when it has none and the buffer begins with a zero.
-/

namespace InstructionParser

open CLib

/-- The bytes that the command's own `get_reply` wrote, as many as it counts. -/
def ownBytes (entry : CmdList) (r : HandlerResult) : Bytes :=
  if r.status ≠ 0 then []
  else
    match entry.getReply with
    | none => []
    | some getReply =>
        match getReply r.statics with
        | none => []
        | some w => w.wrote.take w.ret.toNat

def replyless : List Bytes :=
  [ascii "help", ascii "set_ip", ascii "preview_on", ascii "preview_off"]

/-- The state before a text command is one in which the command `name` can print its own reply. -/
def PrintsOwn (name : Bytes) (s : CmdThread) : Prop :=
  name = ascii "get_ip"
    ∨ name ∈ replyless ∧ s.reply.bytes[0]? = some 0
    ∨ name = ascii "add_user" ∧ s.statics.result = 1 ∧ s.reply.bytes[1]? = some 0

/-- The condition on a text command: unless its handler fails, it prints its own reply. -/
def RepliesOwn (env : Env) (s : CmdThread) (cmd : StCmdFrame) : Prop :=
  ∀ entry r, selectCmd cmdRegisterEnter cmd = some entry →
    entryHandler env s.statics cmd entry = some r → 0 ≤ r.status → PrintsOwn entry.name s

/-- Where `get_cmd` answers a text command with `do_text_response`, what is sent is the head, the own
bytes of the command, and the tail. -/
def SendsOwn (env : Env) (s : CmdThread) (cmd : StCmdFrame) : Prop :=
  ∀ entry r out, selectCmd cmdRegisterEnter cmd = some entry →
    entryHandler env s.statics cmd entry = some r → finishCmd entry r s.reply = some out →
    0 ≤ out.ret →
    doTextResponse cmd out.reply.bytes out.ret
      = some (textResponseHead cmd entry.name ++ ownBytes entry r ++ textResponseTail)

variable {env : Env} {s : CmdThread} {cmd : StCmdFrame} {entry : CmdList} {r : HandlerResult}
  {out : CmdResult}

/-! ### What is printed -/

theorem textResponseHead_length (cmd : StCmdFrame) {name : Bytes} (hname : name.length ≤ 16) :
    (textResponseHead cmd name).length ≤ 25 := by
  have hdigits : (decNat cmd.frameId.toNat).length ≤ 5 :=
    decNat_length_le (by decide) (lt_trans cmd.frameId.toNat_lt (by decide))
  have hopen : (ascii "[").length = 1 := by decide
  have hclose : (ascii "] ").length = 2 := by decide
  have hblank : (ascii " ").length = 1 := by decide
  simp only [textResponseHead, List.length_append, hopen, hclose, hblank]
  omega

theorem doTextResponse_eq_iff {name own : Bytes} {reply : Bytes} {len : Int}
    (hname : cstr cmd.cmdName = some name) (hshort : name.length ≤ 16) (hown : own.length ≤ 64) :
    doTextResponse cmd reply len = some (textResponseHead cmd name ++ own ++ textResponseTail)
      ↔ cstr reply = some own := by
  have htail : textResponseTail.length = 11 := by decide
  have hhead := textResponseHead_length cmd hshort
  constructor
  · intro h
    simp only [doTextResponse, hname, Option.bind_eq_bind, Option.bind_some,
      Option.bind_eq_some_iff] at h
    obtain ⟨text, htext, _, _, hpure⟩ := h
    have hsame := Option.some.inj hpure
    simp only [List.append_assoc, List.append_cancel_left_eq] at hsame
    rw [htext, List.append_cancel_right hsame]
  · intro h
    have hroom : 0 + (textResponseHead cmd name ++ own ++ textResponseTail ++ [0]).length ≤ 512 := by
      simp only [List.length_append, List.length_singleton, htail]
      omega
    obtain ⟨respone, hwrite, _⟩ := Block.exists_write (b := Block.zeroed 512) hroom
    simp only [doTextResponse, hname, h, Option.bind_eq_bind, Option.bind_some, hwrite]
    rfl

/-! ### What is in the buffer -/

theorem finishCmd_reply_bytes {getReply : GetReply} (hstatus : r.status = 0)
    (hget : entry.getReply = some getReply) (hfinish : finishCmd entry r s.reply = some out) :
    ∃ w, getReply r.statics = some w ∧ out.ret = w.ret ∧ ownBytes entry r = w.wrote.take w.ret.toNat
      ∧ out.reply.bytes = w.wrote ++ s.reply.bytes.drop w.wrote.length := by
  obtain ⟨w, reply, hw, hwrite, rfl⟩ := (finishCmd_reply hstatus hget).mp hfinish
  obtain ⟨_, hbytes⟩ := Block.write_eq_some_iff.mp hwrite
  refine ⟨w, hw, rfl, by simp [ownBytes, hstatus, hget, hw], ?_⟩
  simpa [patch] using hbytes

theorem prints_replyless (hmem : entry.name ∈ replyless) (hnone : entry.getReply = none)
    (hfinish : finishCmd entry r s.reply = some out) :
    cstr out.reply.bytes = some (ownBytes entry r) ↔ PrintsOwn entry.name s := by
  have hown : ownBytes entry r = [] := by simp [ownBytes, hnone]
  have hreply : out.reply = s.reply := by
    by_cases hstatus : r.status = 0
    · rw [finishCmd_noReply hstatus hnone] at hfinish
      exact (congrArg CmdResult.reply (Option.some.inj hfinish)).symm
    · rw [finishCmd_failed hstatus] at hfinish
      exact (congrArg CmdResult.reply (Option.some.inj hfinish)).symm
  rw [hown, hreply, cstr_eq_nil_iff]
  constructor
  · exact fun hzero => Or.inr (Or.inl ⟨hmem, hzero⟩)
  · rintro (hip | ⟨_, hzero⟩ | ⟨huser, _⟩)
    · rw [hip] at hmem
      exact absurd hmem (by decide)
    · exact hzero
    · rw [huser] at hmem
      exact absurd hmem (by decide)

/-- A reply with a zero among its bytes is never printed whole. -/
theorem prints_binary {getReply : GetReply} (hstatus : r.status = 0)
    (hget : entry.getReply = some getReply) (hfinish : finishCmd entry r s.reply = some out)
    (hzero : ∀ w, getReply r.statics = some w → 0 ∈ w.wrote ∧ w.Counted)
    (hnot : ¬ PrintsOwn entry.name s) :
    cstr out.reply.bytes = some (ownBytes entry r) ↔ PrintsOwn entry.name s := by
  obtain ⟨w, hw, _, hown, _⟩ := finishCmd_reply_bytes hstatus hget hfinish
  obtain ⟨hmem, hret, _⟩ := hzero w hw
  refine ⟨fun hcstr => ?_, fun hprints => absurd hprints hnot⟩
  rw [hown, hret, Int.toNat_natCast, List.take_length] at hcstr
  exact absurd hmem (zero_notMem_of_cstr hcstr)

theorem prints_getIp (hrun : doTextGetDeviceIp env s.statics cmd.cmdData cmd.cmdLen = some r)
    (hfinish : finishCmd getIpCmd r s.reply = some out) (hret : 0 ≤ out.ret) :
    cstr out.reply.bytes = some (ownBytes getIpCmd r) ↔ PrintsOwn getIpCmd.name s := by
  refine iff_of_true ?_ (Or.inl rfl)
  rcases doTextGetDeviceIp_status hrun with hfailed | ⟨hstatus, hflag⟩
  · have hne : r.status ≠ 0 := by
      rw [hfailed]
      decide
    rw [finishCmd_failed hne] at hfinish
    obtain rfl := Option.some.inj hfinish
    simp only [hfailed] at hret
    exact absurd hret (by decide)
  · obtain ⟨w, hw, _, hown, hbytes⟩ := finishCmd_reply_bytes hstatus rfl hfinish
    obtain ⟨text, hwrote, hcount, hzero, _⟩ := getIpReply_text hflag hw
    rw [hown, hbytes, hcount, hwrote, Int.toNat_natCast, List.take_left, List.append_assoc,
      List.singleton_append]
    exact cstr_append_zero hzero _

/-- A reboot that comes back has failed. -/
theorem not_answered_reboot (hrun : rebootSystem env s.statics cmd.cmdData cmd.cmdLen = some r)
    (hfinish : finishCmd rebootCmd r s.reply = some out) : ¬ 0 ≤ out.ret := by
  obtain ⟨_, rfl⟩ := rebootSystem_eq_some_iff.mp hrun
  rw [finishCmd_failed (show (-1 : Int) ≠ 0 by decide)] at hfinish
  obtain rfl := Option.some.inj hfinish
  exact show ¬ (0 : Int) ≤ -1 by decide

theorem prints_addUser (hstatus : r.status = 0) (hstatics : r.statics = s.statics)
    (hfinish : finishCmd addUserCmd r s.reply = some out) :
    cstr out.reply.bytes = some (ownBytes addUserCmd r) ↔ PrintsOwn addUserCmd.name s := by
  obtain ⟨w, hw, _, hown, hbytes⟩ := finishCmd_reply_bytes hstatus rfl hfinish
  have hname : addUserCmd.name ∉ replyless := by decide
  have hip : addUserCmd.name ≠ ascii "get_ip" := by decide
  have hreply : addSystemUserReply s.statics = some w := hstatics ▸ hw
  by_cases hresult : s.statics.result = 1
  · rw [addSystemUserReply, if_pos hresult] at hreply
    obtain rfl := Option.some.inj hreply
    have hprints : PrintsOwn addUserCmd.name s ↔ s.reply.bytes[1]? = some 0 := by
      simp only [PrintsOwn, hname, hip, hresult, false_and, false_or, true_and]
      exact and_iff_right rfl
    rw [hprints, hbytes, hown]
    simp only [List.singleton_append, Int.toNat_one, List.take_succ_cons, List.take_zero,
      List.length_singleton]
    rw [cstr_cons_eq_iff (by decide), cstr_eq_nil_iff, List.getElem?_drop]
  · rw [addSystemUserReply, if_neg hresult] at hreply
    obtain rfl := Option.some.inj hreply
    refine prints_binary hstatus rfl hfinish ?_ ?_
    · intro w' hw'
      obtain rfl := Option.some.inj (hw.symm.trans hw')
      exact ⟨List.mem_singleton.mpr rfl, by simp [ReplyResult.Counted]⟩
    · rintro (hself | ⟨hmem, _⟩ | ⟨_, hone, _⟩)
      · exact hip hself
      · exact hname hmem
      · exact hresult hone

/-- The microseconds of a query fit three bytes, so the reply of `set_date` has a zero. -/
theorem zero_mem_setDateReply {st : Statics} {w : ReplyResult} (h : setDateReply st = some w) :
    0 ∈ w.wrote := by
  have husec : st.now.tvUsec.val >>> 24 = 0 := by
    rw [Nat.shiftRight_eq_div_pow, Nat.div_eq_of_lt]
    exact lt_trans st.now.tvUsec.isLt (by decide)
  unfold setDateReply at h
  split_ifs at h with hmode
  · obtain rfl := Option.some.inj h
    simp [husec]
  · obtain rfl := Option.some.inj h
    simp

theorem succeed_run (hname : cstr cmd.cmdName = some entry.name) (hhelp : entry.name ≠ ascii "help")
    (hdo : entry.doTextCmd = some succeed)
    (hrun : textHandler env cmdRegisterEnter s.statics cmd entry = some r) :
    r.status = 0 ∧ r.statics = s.statics := by
  rw [textHandler_eq hname hhelp, hdo] at hrun
  obtain rfl := Option.some.inj hrun
  exact ⟨rfl, rfl⟩

theorem not_printsOwn {name : Bytes} (hip : name ≠ ascii "get_ip") (hmem : name ∉ replyless)
    (huser : name ≠ ascii "add_user") : ¬ PrintsOwn name s := by
  rintro (hname | ⟨hname, _⟩ | ⟨hname, _⟩)
  · exact hip hname
  · exact hmem hname
  · exact huser hname

theorem prints_iff : ∀ entry ∈ cmdRegisterEnter, cstr cmd.cmdName = some entry.name →
    textHandler env cmdRegisterEnter s.statics cmd entry = some r →
    finishCmd entry r s.reply = some out → 0 ≤ out.ret →
    (cstr out.reply.bytes = some (ownBytes entry r) ↔ PrintsOwn entry.name s) := by
  apply forall_registered
  case help => exact fun _ _ hfinish _ => prints_replyless (by decide) rfl hfinish
  case reboot =>
      intro hname hrun hfinish hret
      rw [textHandler_eq hname (by decide)] at hrun
      have hhandler : rebootSystem env s.statics cmd.cmdData cmd.cmdLen = some r := hrun
      exact absurd hret (not_answered_reboot hhandler hfinish)
  case getIp =>
      intro hname hrun hfinish hret
      rw [textHandler_eq hname (by decide)] at hrun
      exact prints_getIp hrun hfinish hret
  case setIp => exact fun _ _ hfinish _ => prints_replyless (by decide) rfl hfinish
  case previewOn => exact fun _ _ hfinish _ => prints_replyless (by decide) rfl hfinish
  case previewOff => exact fun _ _ hfinish _ => prints_replyless (by decide) rfl hfinish
  case setDate =>
      intro hname hrun hfinish _
      obtain ⟨hstatus, _⟩ := succeed_run hname (by decide) rfl hrun
      exact prints_binary hstatus rfl hfinish
        (fun w hw => ⟨zero_mem_setDateReply hw, setDateReply_counted hw⟩)
        (not_printsOwn (by decide) (by decide) (by decide))
  case addUser =>
      intro hname hrun hfinish _
      obtain ⟨hstatus, hstatics⟩ := succeed_run hname (by decide) rfl hrun
      exact prints_addUser hstatus hstatics hfinish
  case sysInfo =>
      intro hname hrun hfinish _
      obtain ⟨hstatus, _⟩ := succeed_run hname (by decide) rfl hrun
      refine prints_binary hstatus rfl hfinish (fun w hw => ⟨?_, getSystemInfoReply_counted hw⟩)
        (not_printsOwn (by decide) (by decide) (by decide))
      obtain rfl := Option.some.inj hw
      simp

/-! ### How long it is -/

theorem ownBytes_length_le {getReply : GetReply} (hget : entry.getReply = some getReply)
    (hshort : ∀ w, getReply r.statics = some w → w.wrote.length ≤ 64) :
    (ownBytes entry r).length ≤ 64 := by
  unfold ownBytes
  split_ifs with hstatus
  · simp
  · cases hw : getReply r.statics with
    | none => simp [hget, hw]
    | some w =>
        simp only [hget, hw]
        exact (List.length_take_le' _ _).trans (hshort w hw)

theorem ownBytes_replyless (hnone : entry.getReply = none) : (ownBytes entry r).length ≤ 64 := by
  simp [ownBytes, hnone]

theorem ownBytes_short : ∀ entry ∈ cmdRegisterEnter, cstr cmd.cmdName = some entry.name →
    textHandler env cmdRegisterEnter s.statics cmd entry = some r →
    (ownBytes entry r).length ≤ 64 := by
  apply forall_registered
  case help => exact fun _ _ => ownBytes_replyless rfl
  case reboot => exact fun _ _ => ownBytes_replyless rfl
  case getIp =>
      intro hname hrun
      rw [textHandler_eq hname (by decide)] at hrun
      have hhandler : doTextGetDeviceIp env s.statics cmd.cmdData cmd.cmdLen = some r := hrun
      rcases doTextGetDeviceIp_status hhandler with hfailed | ⟨_, hflag⟩
      · simp [ownBytes, hfailed, noDev]
      · refine ownBytes_length_le rfl fun w hw => ?_
        obtain ⟨text, hwrote, _, _, hle⟩ := getIpReply_text hflag hw
        rw [hwrote, List.length_append, List.length_singleton]
        omega
  case setIp => exact fun _ _ => ownBytes_replyless rfl
  case previewOn => exact fun _ _ => ownBytes_replyless rfl
  case previewOff => exact fun _ _ => ownBytes_replyless rfl
  case setDate =>
      refine fun _ _ => ownBytes_length_le rfl fun w hw => ?_
      unfold setDateReply at hw
      split_ifs at hw <;> obtain rfl := Option.some.inj hw <;> simp
  case addUser =>
      refine fun _ _ => ownBytes_length_le rfl fun w hw => ?_
      unfold addSystemUserReply at hw
      split_ifs at hw <;> obtain rfl := Option.some.inj hw <;> simp
  case sysInfo =>
      refine fun _ _ => ownBytes_length_le rfl fun w hw => ?_
      obtain rfl := Option.some.inj hw
      simp

theorem name_short : ∀ entry ∈ cmdRegisterEnter, entry.name.length ≤ 16 := by decide

/-! ### One command -/

theorem entryHandler_text (htext : cmd.isBinary = false) :
    entryHandler env s.statics cmd entry = textHandler env cmdRegisterEnter s.statics cmd entry := by
  rw [entryHandler, if_neg (by simp [htext])]

theorem prints_own_iff (htext : cmd.isBinary = false)
    (hselect : selectCmd cmdRegisterEnter cmd = some entry)
    (hrun : entryHandler env s.statics cmd entry = some r)
    (hfinish : finishCmd entry r s.reply = some out) (hret : 0 ≤ out.ret) :
    doTextResponse cmd out.reply.bytes out.ret
        = some (textResponseHead cmd entry.name ++ ownBytes entry r ++ textResponseTail)
      ↔ PrintsOwn entry.name s := by
  obtain ⟨hmem, hname⟩ := selectCmd_registered.mp hselect
  rw [entryHandler_text htext] at hrun
  rw [doTextResponse_eq_iff hname (name_short entry hmem) (ownBytes_short entry hmem hname hrun),
    prints_iff entry hmem hname hrun hfinish hret]

theorem sendsOwn_iff (htext : cmd.isBinary = false) :
    SendsOwn env s cmd ↔ RepliesOwn env s cmd := by
  constructor
  · intro h entry r hselect hrun hstatus
    by_cases hip : entry.name = ascii "get_ip"
    · exact Or.inl hip
    have hmem := (selectCmd_registered.mp hselect).1
    obtain ⟨out, hfinish⟩ := exists_finishCmd entry hmem hip r s.reply
    have hret := finishCmd_ret_nonneg hmem hstatus hfinish
    have hsent := h entry r out hselect hrun hfinish hret
    exact (prints_own_iff htext hselect hrun hfinish hret).mp hsent
  · intro h entry r out hselect hrun hfinish hret
    refine (prints_own_iff htext hselect hrun hfinish hret).mpr (h entry r hselect hrun ?_)
    by_contra hneg
    rw [finishCmd_failed (by omega)] at hfinish
    obtain rfl := Option.some.inj hfinish
    exact hneg hret

/-! ### Histories -/

/-- A text command that `do_text_response` answered. -/
structure TextAnswer where
  cmd : StCmdFrame
  name : Bytes
  own : Bytes
  sent : Bytes

/-- The head, the own bytes of the command and the tail were sent, and nothing else. -/
def TextAnswer.Clean (answer : TextAnswer) : Prop :=
  answer.sent = textResponseHead answer.cmd answer.name ++ answer.own ++ textResponseTail

/-- The answer of `do_text_response` to a command, if `get_cmd` calls it. -/
def recordText (env : Env) (s : CmdThread) (cmd : StCmdFrame) : List TextAnswer :=
  Option.toList do
    let entry ← selectCmd cmdRegisterEnter cmd
    let r ← entryHandler env s.statics cmd entry
    let out ← finishCmd entry r s.reply
    if cmd.isBinary = true ∨ out.ret < 0 then none
    else
      let sent ← doTextResponse cmd out.reply.bytes out.ret
      pure { cmd, name := entry.name, own := ownBytes entry r, sent }

/-- One command of a history, with a record of the text answers so far. -/
def historyStep (s : CmdThread × List TextAnswer) (a : Env × StCmdFrame) :
    Option (CmdThread × List TextAnswer) :=
  (getCmd a.1 s.1 a.2).map fun next => (next.1, s.2 ++ recordText a.1 s.1 a.2)

/-- The condition on one command of a history. -/
def repliesOwnStep (s : CmdThread × List TextAnswer) (a : Env × StCmdFrame) : Prop :=
  a.2.isBinary = false → RepliesOwn a.1 s.1 a.2

theorem mem_recordText {answer : TextAnswer} :
    answer ∈ recordText env s cmd ↔
      ∃ entry r out, selectCmd cmdRegisterEnter cmd = some entry
        ∧ entryHandler env s.statics cmd entry = some r ∧ finishCmd entry r s.reply = some out
        ∧ cmd.isBinary = false ∧ 0 ≤ out.ret
        ∧ ∃ sent, doTextResponse cmd out.reply.bytes out.ret = some sent
          ∧ answer = { cmd, name := entry.name, own := ownBytes entry r, sent } := by
  simp only [recordText, Option.mem_toList, Option.bind_eq_bind, Option.bind_eq_some_iff]
  constructor
  · rintro ⟨entry, hselect, r, hrun, out, hfinish, h⟩
    split_ifs at h with hskip
    obtain ⟨sent, hsent, hpure⟩ := Option.bind_eq_some_iff.mp h
    rw [not_or, not_lt, Bool.not_eq_true] at hskip
    exact ⟨entry, r, out, hselect, hrun, hfinish, hskip.1, hskip.2, sent, hsent,
      (Option.some.inj hpure).symm⟩
  · rintro ⟨entry, r, out, hselect, hrun, hfinish, htext, hret, sent, hsent, rfl⟩
    refine ⟨entry, hselect, r, hrun, out, hfinish, ?_⟩
    rw [if_neg (by simp [htext, hret]), hsent]
    rfl

/-- What is recorded as sent is what `get_cmd` writes to the client. -/
theorem recordText_written {answer : TextAnswer} {s' : CmdThread} {events : List Event}
    (hget : getCmd env s cmd = some (s', events)) (hmem : answer ∈ recordText env s cmd) :
    Event.opWrite cmd.fd answer.sent ∈ events := by
  obtain ⟨entry, r, out, hselect, hrun, hfinish, htext, hret, sent, hsent, rfl⟩ :=
    mem_recordText.mp hmem
  have hdispatch := (dispatch_selected hselect).mpr ⟨r, hrun, hfinish⟩
  have hanswer : chooseAnswer cmd out.ret = .textResponse out.ret := by
    simp [chooseAnswer, htext, not_lt.mpr hret]
  simp only [getCmd, hdispatch, hanswer, answerBytes, hsent, Option.bind_eq_bind, Option.bind_some,
    Option.map_some, Option.pure_def, Option.some.injEq, Prod.mk.injEq] at hget
  rw [← hget.2]
  simp

theorem clean_of_repliesOwn {answer : TextAnswer} (hown : cmd.isBinary = false → RepliesOwn env s cmd)
    (hmem : answer ∈ recordText env s cmd) : answer.Clean := by
  obtain ⟨entry, r, out, hselect, hrun, hfinish, htext, hret, sent, hsent, rfl⟩ :=
    mem_recordText.mp hmem
  have hsends := (sendsOwn_iff htext).mpr (hown htext) entry r out hselect hrun hfinish hret
  exact Option.some.inj (hsent.symm.trans hsends)

/-- Two histories that have led to these states answer the command alike: where its own handler and
`get_reply` give it the same bytes, the same response is sent. -/
def AnswersAlike (env₁ env₂ : Env) (s₁ s₂ : CmdThread) (cmd : StCmdFrame) : Prop :=
  ∀ entry r₁ r₂ out₁ out₂, selectCmd cmdRegisterEnter cmd = some entry →
    entryHandler env₁ s₁.statics cmd entry = some r₁ →
    entryHandler env₂ s₂.statics cmd entry = some r₂ →
    finishCmd entry r₁ s₁.reply = some out₁ → finishCmd entry r₂ s₂.reply = some out₂ →
    0 ≤ out₁.ret → 0 ≤ out₂.ret → ownBytes entry r₁ = ownBytes entry r₂ →
    doTextResponse cmd out₁.reply.bytes out₁.ret = doTextResponse cmd out₂.reply.bytes out₂.ret

theorem answersAlike_of_repliesOwn {env₁ env₂ : Env} {s₁ s₂ : CmdThread}
    (htext : cmd.isBinary = false) (hown₁ : RepliesOwn env₁ s₁ cmd)
    (hown₂ : RepliesOwn env₂ s₂ cmd) : AnswersAlike env₁ env₂ s₁ s₂ cmd := by
  intro entry r₁ r₂ out₁ out₂ hselect hrun₁ hrun₂ hfinish₁ hfinish₂ hret₁ hret₂ hsame
  rw [(sendsOwn_iff htext).mpr hown₁ entry r₁ out₁ hselect hrun₁ hfinish₁ hret₁,
    (sendsOwn_iff htext).mpr hown₂ entry r₂ out₂ hselect hrun₂ hfinish₂ hret₂, hsame]

/-- **Text replies over histories.** In a history whose text commands all meet the condition every
answer is clean. In any state a text command is answered cleanly only under the condition, and two
states that meet it answer alike. -/
theorem text_replies_clean (env : Env) (s₀ : CmdThread) (cmd : StCmdFrame) :
    (∀ s, Runs.Reaches historyStep repliesOwnStep (s₀, []) s → ∀ answer ∈ s.2, answer.Clean)
    ∧ (cmd.isBinary = false → (SendsOwn env s₀ cmd ↔ RepliesOwn env s₀ cmd)
      ∧ ∀ env' s', RepliesOwn env s₀ cmd → RepliesOwn env' s' cmd →
        AnswersAlike env env' s₀ s' cmd) := by
  refine ⟨fun s hreach => ?_, fun htext =>
    ⟨sendsOwn_iff htext, fun env' s' => answersAlike_of_repliesOwn htext⟩⟩
  refine hreach.invariant (I := fun s => ∀ answer ∈ s.2, answer.Clean) ?_ (by simp)
  rintro s ⟨env, cmd⟩ s' hclean hok hstep answer hmem
  obtain ⟨next, _, rfl⟩ := Option.map_eq_some_iff.mp hstep
  rcases List.mem_append.mp hmem with hold | hnew
  · exact hclean answer hold
  · exact clean_of_repliesOwn hok hnew

def helpLine : StCmdFrame := StCmdFrame.ofName (ascii "help") (by decide)

theorem repliesOwn_help (env : Env) : RepliesOwn env CmdThread.zeroed helpLine := by
  intro entry r hselect _ _
  have hname : cstr helpLine.cmdName = some (ascii "help") := by decide
  have hentry := Option.some.inj (hname.symm.trans (selectCmd_registered.mp hselect).2)
  exact Or.inr (Or.inl ⟨hentry ▸ by decide, rfl⟩)

/-- A history of one `help`, over a buffer that happens to be zero. -/
theorem text_replies_clean_help :
    (∃ s, Runs.Reaches historyStep repliesOwnStep (CmdThread.zeroed, []) s ∧ s.2.length = 1
      ∧ ∀ answer ∈ s.2, answer.Clean)
    ∧ SendsOwn Env.succeeding CmdThread.zeroed helpLine
    ∧ AnswersAlike Env.succeeding Env.succeeding CmdThread.zeroed CmdThread.zeroed helpLine := by
  have hstep : (historyStep (CmdThread.zeroed, []) (Env.succeeding, helpLine)).map
      (fun s => s.2.length) = some 1 := by
    decide +kernel
  obtain ⟨s, hs, hlen⟩ := Option.map_eq_some_iff.mp hstep
  have hreach : Runs.Reaches historyStep repliesOwnStep (CmdThread.zeroed, []) s :=
    (Runs.Reaches.refl _).tail (fun _ => repliesOwn_help Env.succeeding) hs
  have hclean := text_replies_clean Env.succeeding CmdThread.zeroed helpLine
  have hanswers := hclean.2 rfl
  exact ⟨⟨s, hreach, hlen, hclean.1 s hreach⟩,
    hanswers.1.mpr (repliesOwn_help _), hanswers.2 _ _ (repliesOwn_help _) (repliesOwn_help _)⟩

/-- A binary `sys_info`, then the line `[1] help`: the answer to the second begins with what the first
left in the buffer. -/
theorem text_reply_leaks :
    ¬ ∀ s₀ s, Runs.Reaches historyStep Runs.anyAction (s₀, []) s → ∀ answer ∈ s.2, answer.Clean := by
  intro h
  let sysInfo : StCmdFrame :=
    { StCmdFrame.ofName (ascii "sys_info") (by decide) with cmdId := 0x0100 }
  have hleak : (Runs.exec historyStep (CmdThread.zeroed, [])
      [(Env.succeeding, sysInfo), (Env.succeeding, helpLine)]).map (fun s => s.2.any fun answer =>
        answer.sent ≠ textResponseHead answer.cmd answer.name ++ answer.own ++ textResponseTail)
      = some true := by
    decide +kernel
  obtain ⟨s, hexec, hany⟩ := Option.map_eq_some_iff.mp hleak
  obtain ⟨answer, hmem, hne⟩ := List.any_eq_true.mp hany
  exact of_decide_eq_true hne (h _ s (Runs.reaches_of_exec hexec) answer hmem)

end InstructionParser
