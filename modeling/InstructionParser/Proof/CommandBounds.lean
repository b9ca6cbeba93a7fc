import InstructionParser.Proof.HandlerBounds
import InstructionParser.Proof.Status
import InstructionParser.Proof.TextReply

/-!
# Commands that stay inside their objects

`get_cmd` answers from a reply buffer that it never clears, and takes a positive status for a length of
it. What a command leaves behind never decides whether a later one stays inside: each brings along all
that it depends on.
-/

namespace InstructionParser

open CLib

variable {env : Env} {st : Statics} {s : CmdThread} {cmd : StCmdFrame} {entry : CmdList}
  {r : HandlerResult}

/-- The strings that `get_cmd` prints of a text command before it executes it. -/
def printedStrings (cmd : StCmdFrame) : Option (List Bytes) :=
  if cmd.isBinary then some []
  else do
    let name ← cstr cmd.cmdName
    let row ← cstr cmd.cmdData
    pure [name, row]

/-- A turn of the loop of `get_cmd` for a command that it has popped, with nothing to read behind a block
of the heap: `none` where it leaves one of its objects, or does not return. -/
def getCmdTurn (s : CmdThread) (a : Env × StCmdFrame) : Option CmdThread := do
  let _ ← printedStrings a.2
  let (s, _) ← getCmd a.1.tight s a.2
  pure s

/-- `system` returns an `int`. -/
def IntStatus (env : Env) : Prop := ∀ k, -2 ^ 31 ≤ env.system k ∧ env.system k < 2 ^ 31

/-- Behind all that a `get_reply` writes there is a zero, near enough for a response to end there. -/
def Terminated (reply : Reply) : Prop := ∃ i : Nat, 46 ≤ i ∧ i ≤ 475 ∧ reply.bytes[i]? = some 0

/-- A status that `get_cmd` takes for a length of the reply buffer is not longer than the buffer. -/
def StatusFits (env : Env) (cmd : StCmdFrame) : Prop :=
  cmd.isBinary = true → PassesPositive env cmd → env.mallocFails = true ∨ env.system 1 ≤ 512

/-- A command that stays inside every object that it reads or writes, and comes to its end. -/
structure CommandFits (env : Env) (cmd : StCmdFrame) : Prop extends HandlerFits env cmd where
  status : StatusFits env cmd
  printed : cmd.isBinary = false → 0 ∈ cmd.cmdName ∧ 0 ∈ cmd.cmdData

/-! ### The reply buffer -/

theorem getReply_wrote_short : ∀ entry ∈ cmdRegisterEnter, ∀ {st : Statics} {getReply : GetReply}
    {w : ReplyResult}, entry.getReply = some getReply → getReply st = some w → w.wrote.length ≤ 46 := by
  apply forall_registered
  case help => intros; contradiction
  case reboot => intros; contradiction
  case getIp =>
      intro st getReply w hget hw
      obtain rfl := Option.some.inj hget
      unfold getIpReply at hw
      split_ifs at hw
      · simp only [Option.bind_eq_bind, Option.bind_eq_some_iff] at hw
        obtain ⟨name, hname, ipaddr, hip, hpure⟩ := hw
        obtain rfl := Option.some.inj hpure
        have hnameLength := cstr_length_le hname
        have hipLength := cstr_length_le hip
        have hcolon : (ascii ":").length = 1 := by decide
        rw [st.ipInfoText.size_eq] at hnameLength
        rw [List.length_drop, st.ipInfoText.size_eq] at hipLength
        simp only [List.length_append, hcolon, List.length_singleton]
        omega
      · obtain rfl := Option.some.inj hw
        rw [st.ipInfo.size_eq]
        decide
  case setIp => intros; contradiction
  case previewOn => intros; contradiction
  case previewOff => intros; contradiction
  case setDate =>
      intro st getReply w hget hw
      obtain rfl := Option.some.inj hget
      unfold setDateReply at hw
      split_ifs at hw
      all_goals
        obtain rfl := Option.some.inj hw
        simp
  case addUser =>
      intro st getReply w hget hw
      obtain rfl := Option.some.inj hget
      unfold addSystemUserReply at hw
      split_ifs at hw
      all_goals
        obtain rfl := Option.some.inj hw
        simp
  case sysInfo =>
      intro st getReply w hget hw
      obtain rfl := Option.some.inj hget
      obtain rfl := Option.some.inj hw
      simp

theorem Terminated.finishCmd {reply : Reply} {out : CmdResult} (h : Terminated reply)
    (hmem : entry ∈ cmdRegisterEnter) (hfinish : finishCmd entry r reply = some out) :
    Terminated out.reply := by
  by_cases hstatus : r.status = 0
  · cases hget : entry.getReply with
    | none =>
        rw [finishCmd_noReply hstatus hget] at hfinish
        obtain rfl := Option.some.inj hfinish
        exact h
    | some getReply =>
        obtain ⟨w, reply', hw, hwrite, rfl⟩ := (finishCmd_reply hstatus hget).mp hfinish
        obtain ⟨_, hbytes⟩ := Block.write_eq_some_iff.mp hwrite
        have hshort := getReply_wrote_short entry hmem hget hw
        obtain ⟨i, hlow, hhigh, hzero⟩ := h
        refine ⟨i, hlow, hhigh, ?_⟩
        change reply'.bytes[i]? = some 0
        rw [hbytes, patch, List.take_zero, List.nil_append, Nat.zero_add,
          List.getElem?_append_right (by omega), List.getElem?_drop, Nat.add_sub_cancel' (by omega)]
        exact hzero
  · rw [finishCmd_failed hstatus] at hfinish
    obtain rfl := Option.some.inj hfinish
    exact h

/-! ### The dispatch of a command -/

/-- A handler that has returned is finished, `get_ip` included. -/
theorem exists_finishCmd_any (hmem : entry ∈ cmdRegisterEnter)
    (hname : cstr cmd.cmdName = some entry.name)
    (hrun : entryHandler env st cmd entry = some r) (reply : Reply) :
    ∃ out, finishCmd entry r reply = some out := by
  by_cases hip : entry.name = getIpCmd.name
  · obtain rfl := entry_eq_of_name hmem getIpCmd_mem hip
    by_cases hstatus : r.status = 0
    · have hreply : ∃ w, getIpReply r.statics = some w := by
        cases hbin : cmd.isBinary with
        | true =>
            rw [entryHandler, if_pos hbin] at hrun
            have hhandler : doGetDeviceIp env st cmd.data cmd.cmdLen = some r := hrun
            rcases doGetDeviceIp_status hhandler with hfailed | ⟨_, hflag⟩
            · rw [hfailed] at hstatus
              exact absurd hstatus (by decide)
            · exact ⟨_, if_neg (not_not.mpr hflag)⟩
        | false =>
            rw [entryHandler, if_neg (by rw [hbin]; decide), textHandler_eq hname (by decide)] at hrun
            have hhandler : doTextGetDeviceIp env st cmd.cmdData cmd.cmdLen = some r := hrun
            exact exists_getIpReply_text hhandler hstatus
      obtain ⟨w, hw⟩ := hreply
      have hshort := getReply_wrote_short getIpCmd hmem rfl hw
      obtain ⟨reply', hwrite, _⟩ := Block.exists_write (b := reply)
        (show 0 + w.wrote.length ≤ 512 by omega)
      exact ⟨_, (finishCmd_reply hstatus rfl).mpr ⟨w, reply', hw, hwrite, rfl⟩⟩
    · exact ⟨_, finishCmd_failed hstatus⟩
  · exact exists_finishCmd entry hmem hip r reply

theorem exists_dispatch_iff : (∃ out, dispatch env.tight s cmd = some out) ↔ HandlerFits env cmd := by
  cases hselect : selectCmd cmdRegisterEnter cmd with
  | none =>
      refine iff_of_true ⟨_, dispatch_unselected hselect⟩ ?_
      have hunnamed : ∀ entry ∈ cmdRegisterEnter, cstr cmd.cmdName ≠ some entry.name := by
        intro entry hmem hname
        rw [selectCmd_registered.mpr ⟨hmem, hname⟩] at hselect
        cases hselect
      exact {
        reboot := fun h => absurd h (hunnamed _ rebootCmd_mem)
        addUser := fun _ h => absurd h (hunnamed _ addUserCmd_mem)
        setIp := fun _ h => absurd h (hunnamed _ setIpCmd_mem)
        textGetIp := fun _ h => absurd h (hunnamed _ getIpCmd_mem)
        textSetIp := fun _ h => absurd h (hunnamed _ setIpCmd_mem) }
  | some entry =>
      obtain ⟨hmem, hname⟩ := selectCmd_registered.mp hselect
      have hhandler : (∃ r, entryHandler env.tight s.statics cmd entry = some r)
          ↔ HandlerFits env cmd := exists_entryHandler_iff entry hmem hname
      rw [← hhandler]
      constructor
      · rintro ⟨out, hout⟩
        obtain ⟨r, hrun, _⟩ := (dispatch_selected hselect).mp hout
        exact ⟨r, hrun⟩
      · rintro ⟨r, hrun⟩
        obtain ⟨out, hfinish⟩ := exists_finishCmd_any hmem hname hrun s.reply
        exact ⟨out, (dispatch_selected hselect).mpr ⟨r, hrun, hfinish⟩⟩

theorem dispatch_of_tight {out : CmdResult} (h : dispatch env.tight s cmd = some out) :
    dispatch env s cmd = some out := by
  cases hselect : selectCmd cmdRegisterEnter cmd with
  | none =>
      rw [dispatch_unselected hselect] at h ⊢
      exact h
  | some entry =>
      obtain ⟨hmem, hname⟩ := selectCmd_registered.mp hselect
      obtain ⟨r, hrun, hfinish⟩ := (dispatch_selected hselect).mp h
      exact (dispatch_selected hselect).mpr ⟨r, entryHandler_of_tight entry hmem hname hrun, hfinish⟩

theorem exists_dispatch (h : HandlerFits env cmd) : ∃ out, dispatch env s cmd = some out := by
  obtain ⟨out, hout⟩ := (exists_dispatch_iff (s := s)).mpr h
  exact ⟨out, dispatch_of_tight hout⟩

theorem Terminated.dispatch {out : CmdResult} (h : Terminated s.reply)
    (hout : dispatch env s cmd = some out) : Terminated out.reply := by
  cases hselect : selectCmd cmdRegisterEnter cmd with
  | none =>
      rw [dispatch_unselected hselect] at hout
      obtain rfl := Option.some.inj hout
      exact h
  | some entry =>
      obtain ⟨r, _, hfinish⟩ := (dispatch_selected hselect).mp hout
      exact h.finishCmd (selectCmd_registered.mp hselect).1 hfinish

/-! ### The answer to a command -/

/-- No error code is longer than an `int`. -/
theorem exists_doTextResponseError_int (cmd : StCmdFrame) {code : Int} (hlow : -2 ^ 31 ≤ code)
    (hneg : code < 0) : ∃ response, doTextResponseError cmd code = some response := by
  have hdigits : (decNat cmd.frameId.toNat).length ≤ 5 :=
    decNat_length_le (by decide) (Nat.lt_trans cmd.frameId.toNat_lt (by decide))
  have hcode : (decNat code.natAbs).length ≤ 10 := decNat_length_le (by decide) (by omega)
  have hopen : (ascii "[").length = 1 := by decide
  have herror : (ascii "] ERROR [").length = 9 := by decide
  have hminus : (ascii "-").length = 1 := by decide
  have hclose : (ascii "]\n").length = 2 := by decide
  have hfits : 0 + (ascii "[" ++ decNat cmd.frameId.toNat ++ ascii "] ERROR [" ++ decInt code
      ++ ascii "]\n" ++ [0]).length ≤ 128 := by
    simp only [decInt, if_pos hneg, List.length_append, hopen, herror, hminus, hclose,
      List.length_singleton]
    omega
  obtain ⟨block, hblock, _⟩ := Block.exists_write (b := Block.zeroed 128) hfits
  exact ⟨_, by rw [doTextResponseError, hblock]; rfl⟩

theorem exists_doTextResponse {reply : Reply} {name : Bytes} (hterm : Terminated reply)
    (hname : cstr cmd.cmdName = some name) (hshort : name.length ≤ 16) (len : Int) :
    ∃ response, doTextResponse cmd reply.bytes len = some response := by
  obtain ⟨i, _, hhigh, hzero⟩ := hterm
  have hmem : 0 ∈ reply.bytes := List.mem_of_getElem? hzero
  have htext : cstr reply.bytes = some (strBytes reply.bytes) := if_pos hmem
  have hlength : (strBytes reply.bytes).length ≤ 475 := by
    by_contra hlong
    obtain ⟨rest, hsplit⟩ := strBytes_split hmem
    rw [hsplit, List.getElem?_append_left (by omega)] at hzero
    exact zero_notMem_strBytes _ (List.mem_of_getElem? hzero)
  have hhead := textResponseHead_length cmd hshort
  have htail : textResponseTail.length = 11 := by decide
  have hroom : 0 + (textResponseHead cmd name ++ strBytes reply.bytes ++ textResponseTail
      ++ [0]).length ≤ 512 := by
    simp only [List.length_append, List.length_singleton, htail]
    omega
  obtain ⟨respone, hwrite, _⟩ := Block.exists_write (b := Block.zeroed 512) hroom
  simp only [doTextResponse, hname, htext, Option.bind_eq_bind, Option.bind_some, hwrite]
  exact ⟨_, rfl⟩

theorem setDeviceIp_status_ge {info info' : Bytes} {status : Int} {events : List Event}
    (h : setDeviceIp env info = some (status, info', events)) : -24 ≤ status := by
  have hset : ∀ {device ipaddr : Bytes} {status : Int} {events : List Event},
      setHandIp env device ipaddr = some (status, events) → -24 ≤ status := by
    intro device ipaddr status events h
    unfold setHandIp at h
    split_ifs at h
    · obtain ⟨rfl, _⟩ := Prod.mk.inj (Option.some.inj h)
      decide
    · obtain ⟨_, _, h⟩ := Option.bind_eq_some_iff.mp h
      obtain ⟨_, _, h⟩ := Option.bind_eq_some_iff.mp h
      cases houtcome : env.setAddr
      all_goals
        rw [houtcome] at h
        obtain ⟨rfl, _⟩ := Prod.mk.inj (Option.some.inj h)
        decide
  simp only [setDeviceIp, Option.bind_eq_bind, Option.bind_eq_some_iff] at h
  obtain ⟨ipAddr, _, h⟩ := h
  split_ifs at h
  · obtain ⟨rfl, _⟩ := Prod.mk.inj (Option.some.inj h)
    decide
  obtain ⟨⟨ret, checked⟩, _, h⟩ := Option.bind_eq_some_iff.mp h
  split_ifs at h
  · obtain ⟨rfl, _⟩ := Prod.mk.inj (Option.some.inj h)
    decide
  · obtain ⟨⟨status', events'⟩, hcalled, h⟩ := Option.bind_eq_some_iff.mp h
    obtain ⟨rfl, _⟩ := Prod.mk.inj (Option.some.inj h)
    exact hset hcalled

/-- A handler of a text command returns an `int`. -/
theorem textHandler_status_ge (hint : IntStatus env) : ∀ entry ∈ cmdRegisterEnter,
    textHandler env cmdRegisterEnter st cmd entry = some r → -2 ^ 31 ≤ r.status := by
  have hcall : ∀ {entry : CmdList}, textHandler env cmdRegisterEnter st cmd entry = some r →
      (callHandler entry.doTextCmd env st cmd.cmdData cmd.cmdLen = some r → -2 ^ 31 ≤ r.status) →
      -2 ^ 31 ≤ r.status := by
    intro entry hrun hstatus
    rcases textHandler_status hrun with hzero | hcalled
    · rw [hzero]
      decide
    · exact hstatus hcalled
  have hsucceed : succeed env st cmd.cmdData cmd.cmdLen = some r → -2 ^ 31 ≤ r.status := by
    intro h
    obtain rfl := Option.some.inj h
    simp
  have hpreview : ∀ {first second : Bytes},
      systemTwice first second env st cmd.cmdData cmd.cmdLen = some r → -2 ^ 31 ≤ r.status := by
    intro first second h
    obtain rfl := Option.some.inj h
    exact (hint 1).1
  apply forall_registered
  case help => exact fun hrun => hcall hrun hsucceed
  case reboot =>
      refine fun hrun => hcall hrun fun h => ?_
      obtain ⟨_, rfl⟩ := rebootSystem_eq_some_iff.mp
        (show rebootSystem env st cmd.cmdData cmd.cmdLen = some r from h)
      exact show (-2 : Int) ^ 31 ≤ -1 by decide
  case getIp =>
      refine fun hrun => hcall hrun fun h => ?_
      have hhandler : doTextGetDeviceIp env st cmd.cmdData cmd.cmdLen = some r := h
      rcases doTextGetDeviceIp_status hhandler with hstatus | ⟨hstatus, _⟩
      · rw [hstatus]
        decide
      · rw [hstatus]
        decide
  case setIp =>
      refine fun hrun => hcall hrun fun h => ?_
      have hhandler : doTextSetDeviceIp env st cmd.cmdData cmd.cmdLen = some r := h
      rw [doTextSetDeviceIp_eq] at hhandler
      obtain ⟨info, _, hhandler⟩ := Option.bind_eq_some_iff.mp hhandler
      obtain ⟨set, hset, hpure⟩ := Option.bind_eq_some_iff.mp hhandler
      obtain rfl := Option.some.inj hpure
      have hstatus := setDeviceIp_status_ge hset
      simp only
      omega
  case previewOn => exact fun hrun => hcall hrun hpreview
  case previewOff => exact fun hrun => hcall hrun hpreview
  case setDate => exact fun hrun => hcall hrun hsucceed
  case addUser => exact fun hrun => hcall hrun hsucceed
  case sysInfo => exact fun hrun => hcall hrun hsucceed

theorem exists_textAnswer {out : CmdResult} (hint : IntStatus env) (hterm : Terminated out.reply)
    (hbin : cmd.isBinary = false) (hout : dispatch env s cmd = some out) :
    ∃ sent, answerBytes env cmd out.reply (chooseAnswer cmd out.ret) = some sent := by
  have hchoose : chooseAnswer cmd out.ret
      = if out.ret < 0 then .textError out.ret else .textResponse out.ret :=
    if_neg (by rw [hbin]; decide)
  rw [hchoose]
  cases hselect : selectCmd cmdRegisterEnter cmd with
  | none =>
      rw [dispatch_unselected hselect] at hout
      obtain rfl := Option.some.inj hout
      have hlow : -2 ^ 31 ≤ (-1 : Int) := by decide
      obtain ⟨response, hresponse⟩ := exists_doTextResponseError_int cmd hlow (by decide)
      have hneg : (-1 : Int) < 0 := by decide
      exact ⟨some response, by rw [if_pos hneg, answerBytes, hresponse]; rfl⟩
  | some entry =>
      obtain ⟨hmem, hname⟩ := selectCmd_registered.mp hselect
      obtain ⟨r, hrun, hfinish⟩ := (dispatch_selected hselect).mp hout
      split_ifs with hneg
      · have hstatus : out.ret = r.status := by
          by_cases hzero : r.status = 0
          · have hnonneg := finishCmd_ret_nonneg hmem hzero.ge hfinish
            omega
          · rw [finishCmd_failed hzero] at hfinish
            obtain rfl := Option.some.inj hfinish
            rfl
        rw [entryHandler_text hbin] at hrun
        have hlow := textHandler_status_ge hint entry hmem hrun
        obtain ⟨response, hresponse⟩ := exists_doTextResponseError_int cmd (hstatus ▸ hlow) hneg
        exact ⟨some response, by rw [answerBytes, hresponse]; rfl⟩
      · obtain ⟨response, hresponse⟩ := exists_doTextResponse hterm hname (name_short entry hmem) out.ret
        exact ⟨some response, by rw [answerBytes, hresponse]; rfl⟩

theorem exists_binaryAnswer_iff {out : CmdResult} (hbin : cmd.isBinary = true)
    (hout : dispatch env s cmd = some out) :
    (∃ sent, answerBytes env cmd out.reply (chooseAnswer cmd out.ret) = some sent)
      ↔ StatusFits env cmd := by
  have hchoose : chooseAnswer cmd out.ret
      = if 0 < out.ret then .response out.ret.toNat else .silent := by
    unfold chooseAnswer
    rw [if_pos hbin]
    split_ifs
    all_goals first
      | rfl
      | omega
  rw [hchoose]
  by_cases hpasses : PassesPositive env cmd
  · obtain ⟨entry, r, hselect, hrun, hstatus⟩ := status_of_passesPositive s.statics hpasses
    have hpos : 0 < r.status := hstatus ▸ hpasses.1
    have hpassed := (dispatch_selected hselect).mpr ⟨r, hrun, finishCmd_failed hpos.ne'⟩
    obtain rfl := Option.some.inj (hout.symm.trans hpassed)
    have hfits : StatusFits env cmd ↔ env.mallocFails = true ∨ env.system 1 ≤ 512 :=
      ⟨fun h => h hbin hpasses, fun h _ _ => h⟩
    rw [hfits]
    simp only [hpos, if_true, answerBytes]
    by_cases hmalloc : env.mallocFails = true
    · exact iff_of_true ⟨none, if_pos hmalloc⟩ (Or.inl hmalloc)
    · rw [if_neg hmalloc, or_iff_right hmalloc, ← hstatus]
      have hread : (∃ content, readBytes s.reply.bytes 0 r.status.toNat = some content)
          ↔ r.status ≤ 512 := by
        simp only [readBytes_eq_some_iff, s.reply.size_eq, exists_and_left, exists_eq, and_true]
        omega
      rw [← hread]
      constructor
      · rintro ⟨sent, hsent⟩
        obtain ⟨response, hresponse, _⟩ := Option.map_eq_some_iff.mp hsent
        obtain ⟨content, hcontent, _⟩ := Option.bind_eq_some_iff.mp hresponse
        exact ⟨content, hcontent⟩
      · rintro ⟨content, hcontent⟩
        exact ⟨_, by rw [doResponse, hcontent]; rfl⟩
  · refine iff_of_true ?_ fun _ h => absurd h hpasses
    by_cases hpos : 0 < out.ret
    · obtain ⟨entry, r, getReply, w, _, _, _, _, _, hcounted, hret, _⟩ :=
        ownReply_of_pos hpasses hout hbin hpos
      have hroom := hcounted.2
      have hread : 0 + out.ret.toNat ≤ out.reply.bytes.length := by
        rw [out.reply.size_eq]
        omega
      obtain ⟨content, hcontent⟩ : ∃ content, readBytes out.reply.bytes 0 out.ret.toNat = some content :=
        ⟨_, if_pos hread⟩
      rw [if_pos hpos, answerBytes]
      split_ifs
      · exact ⟨none, rfl⟩
      · exact ⟨_, by rw [doResponse, hcontent]; rfl⟩
    · exact ⟨none, by rw [if_neg hpos]; rfl⟩

/-! ### One command -/

theorem answerBytes_tight (env : Env) (cmd : StCmdFrame) (reply : Reply) (answer : Answer) :
    answerBytes env.tight cmd reply answer = answerBytes env cmd reply answer := by
  cases answer <;> rfl

theorem exists_answer_iff {out : CmdResult} (hint : IntStatus env) (hterm : Terminated s.reply)
    (hout : dispatch env s cmd = some out) :
    (∃ sent, answerBytes env cmd out.reply (chooseAnswer cmd out.ret) = some sent)
      ↔ StatusFits env cmd := by
  cases hbin : cmd.isBinary with
  | true => exact exists_binaryAnswer_iff hbin hout
  | false =>
      refine iff_of_true (exists_textAnswer hint (hterm.dispatch hout) hbin hout) fun h => ?_
      exact absurd (hbin.symm.trans h) (by decide)

theorem exists_getCmd_iff (hint : IntStatus env) (hterm : Terminated s.reply) :
    (∃ out, getCmd env.tight s cmd = some out) ↔ HandlerFits env cmd ∧ StatusFits env cmd := by
  constructor
  · rintro ⟨out, h⟩
    obtain ⟨r, hout, h⟩ := Option.bind_eq_some_iff.mp h
    obtain ⟨sent, hsent, _⟩ := Option.bind_eq_some_iff.mp h
    rw [answerBytes_tight] at hsent
    exact ⟨exists_dispatch_iff.mp ⟨r, hout⟩,
      (exists_answer_iff hint hterm (dispatch_of_tight hout)).mp ⟨sent, hsent⟩⟩
  · rintro ⟨hhandler, hstatus⟩
    obtain ⟨out, hout⟩ := (exists_dispatch_iff (s := s)).mpr hhandler
    obtain ⟨sent, hsent⟩ := (exists_answer_iff hint hterm (dispatch_of_tight hout)).mpr hstatus
    rw [← answerBytes_tight] at hsent
    exact ⟨_, by simp only [getCmd, hout, hsent, Option.bind_eq_bind, Option.bind_some]; rfl⟩

/-- A command that fits is executed, whatever lies behind the heap. -/
theorem exists_getCmd (hint : IntStatus env) (hterm : Terminated s.reply) (hhandler : HandlerFits env cmd)
    (hstatus : StatusFits env cmd) : ∃ out, getCmd env s cmd = some out := by
  obtain ⟨out, hout⟩ := exists_dispatch (s := s) hhandler
  obtain ⟨sent, hsent⟩ := (exists_answer_iff hint hterm hout).mpr hstatus
  exact ⟨_, by simp only [getCmd, hout, hsent, Option.bind_eq_bind, Option.bind_some]; rfl⟩

theorem Terminated.getCmd {s' : CmdThread} {events : List Event} (h : Terminated s.reply)
    (hget : getCmd env s cmd = some (s', events)) : Terminated s'.reply := by
  obtain ⟨out, hout, hget⟩ := Option.bind_eq_some_iff.mp hget
  obtain ⟨sent, _, hpure⟩ := Option.bind_eq_some_iff.mp hget
  obtain ⟨rfl, _⟩ := Prod.mk.inj (Option.some.inj hpure)
  exact h.dispatch hout

theorem exists_printedStrings_iff : (∃ printed, printedStrings cmd = some printed)
    ↔ (cmd.isBinary = false → 0 ∈ cmd.cmdName ∧ 0 ∈ cmd.cmdData) := by
  cases hbin : cmd.isBinary with
  | true => exact iff_of_true ⟨[], if_pos hbin⟩ (by simp)
  | false =>
      rw [printedStrings, if_neg (by rw [hbin]; decide)]
      by_cases hname : 0 ∈ cmd.cmdName
      · by_cases hrow : 0 ∈ cmd.cmdData
        · have hsome : cstr cmd.cmdName = some (strBytes cmd.cmdName) := if_pos hname
          have hsomeRow : cstr cmd.cmdData = some (strBytes cmd.cmdData) := if_pos hrow
          exact iff_of_true ⟨_, by rw [hsome, hsomeRow]; rfl⟩ fun _ => ⟨hname, hrow⟩
        · have hnone : cstr cmd.cmdData = none := if_neg hrow
          refine iff_of_false ?_ fun h => hrow (h rfl).2
          rintro ⟨printed, h⟩
          simp [hnone] at h
      · have hnone : cstr cmd.cmdName = none := if_neg hname
        refine iff_of_false ?_ fun h => hname (h rfl).1
        rintro ⟨printed, h⟩
        simp [hnone] at h

theorem exists_getCmdTurn_iff (hint : IntStatus env) (hterm : Terminated s.reply) :
    (∃ s', getCmdTurn s (env, cmd) = some s') ↔ CommandFits env cmd := by
  have hget : (∃ out, getCmd env.tight s cmd = some out) ↔ HandlerFits env cmd ∧ StatusFits env cmd :=
    exists_getCmd_iff hint hterm
  constructor
  · rintro ⟨s', h⟩
    obtain ⟨printed, hprinted, h⟩ := Option.bind_eq_some_iff.mp h
    obtain ⟨out, hout, _⟩ := Option.bind_eq_some_iff.mp h
    obtain ⟨hhandler, hstatus⟩ := hget.mp ⟨out, hout⟩
    exact { hhandler with status := hstatus, printed := exists_printedStrings_iff.mp ⟨printed, hprinted⟩ }
  · intro h
    obtain ⟨printed, hprinted⟩ := exists_printedStrings_iff.mpr h.printed
    obtain ⟨out, hout⟩ := hget.mpr ⟨h.toHandlerFits, h.status⟩
    exact ⟨out.1, by simp only [getCmdTurn, hprinted, hout, Option.bind_eq_bind, Option.bind_some]; rfl⟩

theorem Terminated.getCmdTurn {s' : CmdThread} {a : Env × StCmdFrame} (h : Terminated s.reply)
    (hturn : getCmdTurn s a = some s') : Terminated s'.reply := by
  obtain ⟨_, _, hturn⟩ := Option.bind_eq_some_iff.mp hturn
  obtain ⟨out, hget, hpure⟩ := Option.bind_eq_some_iff.mp hturn
  obtain rfl := Option.some.inj hpure
  exact h.getCmd hget

/-! ### A run -/

/-- **Commands in their objects.** However many commands the thread has executed, and whatever they left
in its static variables and in its reply buffer: a run stays inside all of its objects and comes to its end
if and only if each of its commands fits them by itself. -/
theorem turns_inside_iff {cmds : List (Env × StCmdFrame)} (hint : ∀ a ∈ cmds, IntStatus a.1)
    (hterm : Terminated s.reply) :
    (∃ s', cmds.foldlM getCmdTurn s = some s') ↔ ∀ a ∈ cmds, CommandFits a.1 a.2 := by
  induction cmds generalizing s with
  | nil => exact iff_of_true ⟨_, rfl⟩ (by simp)
  | cons a rest ih =>
      have hfirst : (∃ s', getCmdTurn s a = some s') ↔ CommandFits a.1 a.2 :=
        exists_getCmdTurn_iff (hint _ List.mem_cons_self) hterm
      have hrest : ∀ {s' : CmdThread}, getCmdTurn s a = some s' →
          ((∃ last, rest.foldlM getCmdTurn s' = some last) ↔ ∀ b ∈ rest, CommandFits b.1 b.2) :=
        fun hturn => ih (fun b hb => hint b (List.mem_cons_of_mem _ hb)) (hterm.getCmdTurn hturn)
      rw [List.forall_mem_cons, List.foldlM_cons]
      constructor
      · rintro ⟨last, h⟩
        obtain ⟨s', hturn, hrun⟩ := Option.bind_eq_some_iff.mp h
        exact ⟨hfirst.mp ⟨s', hturn⟩, (hrest hturn).mp ⟨last, hrun⟩⟩
      · rintro ⟨hcmd, hcmds⟩
        obtain ⟨s', hturn⟩ := hfirst.mpr hcmd
        obtain ⟨last, hrun⟩ := (hrest hturn).mpr hcmds
        exact ⟨last, by rw [hturn]; exact hrun⟩

def previewFrame : StCmdFrame :=
  { StCmdFrame.ofName (ascii "preview_on") (by decide) with cmdId := 0x0202 }

/-- A system on which every script ends with status 127. -/
def scriptsMissing : Env := { Env.succeeding with system := fun _ => 32512 }

theorem turns_inside_iff_preview :
    (∃ s', [(Env.succeeding, previewFrame)].foldlM getCmdTurn CmdThread.zeroed = some s')
      ∧ ¬ ∃ s', [(Env.succeeding, previewFrame), (scriptsMissing, previewFrame)].foldlM getCmdTurn
        CmdThread.zeroed = some s' := by
  have hterm : Terminated CmdThread.zeroed.reply := ⟨46, by decide, by decide, by decide⟩
  have hint : ∀ a ∈ [(Env.succeeding, previewFrame), (scriptsMissing, previewFrame)],
      IntStatus a.1 := by
    simp only [List.mem_cons, List.not_mem_nil, or_false, forall_eq_or_imp, forall_eq]
    exact ⟨fun _ => by simp [Env.succeeding], fun _ => by simp [scriptsMissing]⟩
  have hname : cstr previewFrame.cmdName = some (ascii "preview_on") := by decide
  have hfits : CommandFits Env.succeeding previewFrame :=
    { handlerFits_of_other hname (by decide) with
      status := fun _ h => absurd h.1 (by decide)
      printed := fun h => absurd h (by decide) }
  have hleaves : ¬ CommandFits scriptsMissing previewFrame := by
    intro h
    have hpasses : PassesPositive scriptsMissing previewFrame := ⟨by decide, Or.inl hname⟩
    rcases h.status (by decide) hpasses with hmalloc | hshort
    · cases hmalloc
    · exact absurd hshort (by decide)
  refine ⟨(turns_inside_iff (fun a ha => hint a ?_) hterm).mpr ?_, fun hrun => ?_⟩
  · exact List.mem_cons.mpr (Or.inl (List.mem_singleton.mp ha))
  · exact fun a ha => List.mem_singleton.mp ha ▸ hfits
  · exact hleaves ((turns_inside_iff hint hterm).mp hrun (scriptsMissing, previewFrame) (by simp))

end InstructionParser
