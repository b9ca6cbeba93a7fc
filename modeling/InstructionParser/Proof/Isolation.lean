import InstructionParser.Proof.AnswerAlike

/-!
# What a client gets depends on its own commands

A client whose commands are self-contained is answered as by a command thread that has just started.
For every other command there is a run after which it is answered differently: its answer shows what the
commands of other clients have left.
-/

namespace InstructionParser

open CLib Runs

variable {env : Env} {st : Statics} {s s' t t' : CmdThread} {cmd : StCmdFrame} {entry : CmdList}
  {r : HandlerResult} {out : CmdResult} {events events' : List Event} {fd : Int}

/-! ### A client among others -/

/-- What a client is sent for a command by a command thread that has just started on this buffer. -/
def writesAlone (reply : Reply) (env : Env) (cmd : StCmdFrame) : Option (List Bytes) :=
  (InstructionParser.getCmd env (CmdThread.initial reply) cmd).map fun (_, events) =>
    writesTo cmd.fd events

theorem SelfContained.writesAlone (h : SelfContained env cmd) (hs : s.Settled)
    (hget : InstructionParser.getCmd env s cmd = some (s', events)) (reply : Reply) :
    InstructionParser.writesAlone reply env cmd = some (writesTo cmd.fd events) := by
  obtain ⟨t, halone⟩ := h.getCmd hs (settled_initial reply) hget
  rw [InstructionParser.writesAlone, halone, Option.map_some]

theorem runCommands_isolated {cmds : List (Env × StCmdFrame)} (hs : s.Settled)
    (hself : ∀ a ∈ cmds, a.2.fd = fd → SelfContained a.1 a.2)
    (h : runCommands s cmds = some (s', events)) (reply : Reply) :
    ((cmds.filter fun a => a.2.fd = fd).mapM fun a => writesAlone reply a.1 a.2).map List.flatten
      = some (writesTo fd events) := by
  induction cmds generalizing s events with
  | nil =>
      obtain ⟨rfl, rfl⟩ := Prod.mk.inj (Option.some.inj h)
      rfl
  | cons first rest ih =>
      obtain ⟨env, cmd⟩ := first
      simp only [runCommands, Option.bind_eq_bind, Option.bind_eq_some_iff] at h
      obtain ⟨⟨middle, written⟩, hfirst, ⟨last, rewritten⟩, hrest, hpure⟩ := h
      obtain ⟨rfl, rfl⟩ := Prod.mk.inj (Option.some.inj hpure)
      have hbehind := ih (hs.getCmd hfirst) (fun a ha => hself a (List.mem_cons_of_mem _ ha)) hrest
      obtain ⟨groups, hgroups, hflat⟩ := Option.map_eq_some_iff.mp hbehind
      obtain ⟨bufs, _, honly⟩ := answers_of_getCmd hfirst
      rw [writesTo_append]
      by_cases hfd : cmd.fd = fd
      · have halone := (hself _ List.mem_cons_self hfd).writesAlone hs hfirst reply
        rw [List.filter_cons_of_pos (by simpa using hfd), List.mapM_cons, halone, hgroups, ← hflat, hfd]
        rfl
      · rw [List.filter_cons_of_neg (by simpa using hfd), hgroups, honly fd,
          if_neg fun heq => hfd heq.symm, List.nil_append, ← hflat]
        rfl

namespace Pipeline

variable {p : Pipeline} {reply : Reply}

/-- **A client among others.** Whatever the threads do in turn and whatever the other clients send: what
has been written to a client whose executed commands are all self-contained is, command by command, what
a command thread that has just started writes for that command, whatever its reply buffer holds. -/
theorem client_isolated (h : Reaches step anyAction (start reply) p)
    (hself : ∀ a ∈ p.executed, a.2.fd = fd → SelfContained a.1 a.2) (alone : Reply) :
    ((p.executed.filter fun a => a.2.fd = fd).mapM fun a => writesAlone alone a.1 a.2).map List.flatten
      = some (writesTo fd p.events) := by
  obtain ⟨held, hinOrder⟩ := inOrder_of_reaches h
  exact runCommands_isolated (settled_initial reply) hself hinOrder.executed_eq alone

/-- Client 5 sets the clock in a frame. -/
def clockFrame : Bytes := slFrame 7 0x0101 0 0 [1, 0x07, 0xe2, 8, 3, 23, 16, 0]

/-- Client 6 asks for the system information in a line behind it. -/
def setAndAsk : List PipelineAction :=
  [.handle (Block.zeroed 128) StCmdFrame.zeroed 5 clockFrame,
    .handle (Block.zeroed 128) StCmdFrame.zeroed 6 (ascii "[1] sys_info"),
    .getCmd Env.succeeding, .getCmd Env.succeeding]

theorem client_isolated_setAndAsk :
    ∃ p, exec step (start (Block.zeroed 512)) setAndAsk = some p ∧ (writesTo 6 p.events).length = 1
      ∧ ((p.executed.filter fun a => a.2.fd = 6).mapM fun a =>
        writesAlone (Block.zeroed 512) a.1 a.2).map List.flatten = some (writesTo 6 p.events) := by
  have hrun : (exec step (start (Block.zeroed 512)) setAndAsk).map (fun p =>
      ((writesTo 6 p.events).length, p.executed.all fun a => a.2.fd ≠ 6
        ∨ cstr a.2.cmdName = some sysInfoCmd.name ∧ a.1.system 1 = 0)) = some (1, true) := by
    decide +kernel
  obtain ⟨p, hexec, hp⟩ := Option.map_eq_some_iff.mp hrun
  obtain ⟨hlength, hall⟩ := Prod.mk.inj hp
  refine ⟨p, hexec, hlength, client_isolated (reaches_of_exec hexec) (fun a ha hfd => ?_) _⟩
  have hask : cstr a.2.cmdName = some sysInfoCmd.name ∧ a.1.system 1 = 0 := by
    have hcmd := List.all_eq_true.mp hall a ha
    simp only [hfd, ne_eq, not_true_eq_false, false_or, decide_eq_true_eq] at hcmd
    exact hcmd
  refine ⟨fun _ hpasses => ?_, fun _ entry hselect => Or.inl ?_⟩
  · exact absurd (hask.2 ▸ hpasses.1) (lt_irrefl 0)
  · rw [Option.some.inj ((selectCmd_registered.mp hselect).2.symm.trans hask.1)]
    decide

end Pipeline

/-! ### Commands whose answer shows what was left -/

theorem cstr_nil_iff {bytes : Bytes} : cstr bytes = some [] ↔ bytes.head? = some 0 := by
  cases bytes with
  | nil => simp [cstr]
  | cons b rest =>
      rw [List.head?_cons, Option.some.injEq, cstr, strBytes]
      constructor
      · intro h
        by_contra hne
        rw [List.takeWhile_cons_of_pos (by simpa using hne)] at h
        split_ifs at h
        cases h
      · rintro rfl
        rw [if_pos List.mem_cons_self, List.takeWhile_cons_of_neg (by simp)]

theorem text_sent (hbin : cmd.isBinary = false) (hout : dispatch env s cmd = some out)
    (hret : 0 ≤ out.ret) (hget : getCmd env s cmd = some (s', events)) :
    ∃ name text, cstr cmd.cmdName = some name ∧ cstr out.reply.bytes = some text ∧ events
      = out.events ++ [.opWrite cmd.fd (textResponseHead cmd name ++ text ++ textResponseTail)] := by
  have hchoose : chooseAnswer cmd out.ret = .textResponse out.ret := by
    rw [chooseAnswer, if_neg (by rw [hbin]; decide), if_neg (not_lt.mpr hret)]
  simp only [getCmd, hout, hchoose, answerBytes, Option.bind_eq_bind, Option.bind_some,
    Option.bind_eq_some_iff, Option.map_eq_some_iff] at hget
  obtain ⟨_, ⟨line, hline, rfl⟩, hpure⟩ := hget
  simp only [doTextResponse, Option.bind_eq_bind, Option.bind_eq_some_iff] at hline
  obtain ⟨name, hname, text, htext, _, _, hsent⟩ := hline
  obtain rfl := Option.some.inj hsent
  exact ⟨name, text, hname, htext, (Prod.mk.inj (Option.some.inj hpure)).2.symm⟩

theorem response_sent (hbin : cmd.isBinary = true) (hmalloc : ¬ env.mallocFails = true)
    (hout : dispatch env s cmd = some out) (hpos : 0 < out.ret)
    (hget : getCmd env s cmd = some (s', events)) :
    ∃ response, doResponse cmd out.reply.bytes out.ret.toNat = some response
      ∧ events = out.events ++ [.opWrite cmd.fd response] := by
  have hchoose : chooseAnswer cmd out.ret = .response out.ret.toNat := by
    rw [chooseAnswer, if_pos hbin, if_neg (by omega), if_pos hpos]
  simp only [getCmd, hout, hchoose, answerBytes, if_neg hmalloc, Option.bind_eq_bind, Option.bind_some,
    Option.bind_eq_some_iff, Option.map_eq_some_iff] at hget
  obtain ⟨_, ⟨response, hresponse, rfl⟩, hpure⟩ := hget
  exact ⟨response, hresponse, (Prod.mk.inj (Option.some.inj hpure)).2.symm⟩

theorem opWrite_inj {before before' : List Event} {buf buf' : Bytes}
    (h : before ++ [.opWrite fd buf] = before' ++ [.opWrite fd buf']) : buf = buf' := by
  obtain ⟨_, hlast⟩ := List.append_inj' h rfl
  exact (Event.opWrite.inj (List.cons.inj hlast).1).2

/-- Two runs of a text command that send the same have printed the same. -/
theorem shown_of_text {out' : CmdResult} (hbin : cmd.isBinary = false)
    (hout : dispatch env s cmd = some out) (hret : 0 ≤ out.ret)
    (hget : getCmd env s cmd = some (s', events)) (hout' : dispatch env t cmd = some out')
    (hret' : 0 ≤ out'.ret) (hget' : getCmd env t cmd = some (t', events)) :
    out.reply.bytes.head? = some 0 ↔ out'.reply.bytes.head? = some 0 := by
  obtain ⟨name, text, hname, htext, hevents⟩ := text_sent hbin hout hret hget
  obtain ⟨name', text', hname', htext', hevents'⟩ := text_sent hbin hout' hret' hget'
  obtain rfl := Option.some.inj (hname.symm.trans hname')
  have hsame := opWrite_inj (hevents.symm.trans hevents')
  simp only [List.append_assoc, List.append_cancel_left_eq] at hsame
  obtain rfl := List.append_cancel_right hsame
  rw [← cstr_nil_iff, ← cstr_nil_iff, htext, htext']

/-- Two runs of a binary command that send the same have sent the same of the reply buffer. -/
theorem shown_of_response {out' : CmdResult} (hbin : cmd.isBinary = true)
    (hmalloc : ¬ env.mallocFails = true) (hout : dispatch env s cmd = some out) (hpos : 0 < out.ret)
    (hget : getCmd env s cmd = some (s', events)) (hout' : dispatch env t cmd = some out')
    (hret : out'.ret = out.ret) (hget' : getCmd env t cmd = some (t', events)) :
    out.reply.bytes.head? = out'.reply.bytes.head? := by
  obtain ⟨response, hresponse, hevents⟩ := response_sent hbin hmalloc hout hpos hget
  obtain ⟨response', hresponse', hevents'⟩ := response_sent hbin hmalloc hout' (hret ▸ hpos) hget'
  obtain rfl := opWrite_inj (hevents.symm.trans hevents')
  have hlen := (doResponse_eq_some_iff.mp hresponse).1
  rw [out.reply.size_eq] at hlen
  rw [hret] at hresponse'
  have hread := (readResponse_response hresponse hlen).symm.trans (readResponse_response hresponse' hlen)
  have htake := congrArg ReadResponse.reply (Option.some.inj hread)
  have hcount : out.ret.toNat ≠ 0 := by omega
  have hhead := congrArg List.head? htake
  simpa [List.head?_take, hcount] using hhead

theorem getReply_of_unprinted : ∀ entry ∈ cmdRegisterEnter, entry.name ∉ selfPrinting →
    entry.name ≠ setDateCmd.name → entry.getReply = none := by
  apply forall_registered
  case help => exact fun _ _ => rfl
  case reboot => exact fun _ _ => rfl
  case getIp => exact fun hother => absurd (by decide) hother
  case setIp => exact fun _ _ => rfl
  case previewOn => exact fun _ _ => rfl
  case previewOff => exact fun _ _ => rfl
  case setDate => exact fun _ hdate => absurd rfl hdate
  case addUser => exact fun hother => absurd (by decide) hother
  case sysInfo => exact fun hother => absurd (by decide) hother

/-- A command without a string of its own is answered from the buffer as it was. -/
theorem shows_left (hs : s.Settled) (hselect : selectCmd cmdRegisterEnter cmd = some entry)
    (hother : entry.name ∉ selfPrinting)
    (hdate : entry.name ≠ setDateCmd.name)
    (hsucceeds : ∀ r, entryHandler env Statics.initial cmd entry = some r → 0 ≤ r.status)
    (hout : dispatch env s cmd = some out) : 0 ≤ out.ret ∧ out.reply = s.reply := by
  obtain ⟨hmem, hname⟩ := selectCmd_registered.mp hselect
  obtain ⟨r, hrun, hfinish⟩ := (dispatch_selected hselect).mp hout
  obtain ⟨r', hrun', halike⟩ :=
    alike_entryHandler hs (rfl : Statics.initial.result = 0) hmem hname (fun _ => hdate) hrun
  have hnonneg : 0 ≤ r.status := halike.status ▸ hsucceeds r' hrun'
  by_cases hstatus : r.status = 0
  · rw [finishCmd_noReply hstatus (getReply_of_unprinted entry hmem hother hdate)] at hfinish
    obtain rfl := Option.some.inj hfinish
    exact ⟨le_refl 0, rfl⟩
  · rw [finishCmd_failed hstatus] at hfinish
    obtain rfl := Option.some.inj hfinish
    exact ⟨hnonneg, rfl⟩

/-- The text `set_date` prints what the last binary one found. -/
theorem shows_date (hbin : cmd.isBinary = false) (hname : cstr cmd.cmdName = some setDateCmd.name)
    (hout : dispatch env s cmd = some out) : 0 ≤ out.ret ∧ out.reply.bytes.head?
      = some (if s.statics.mode = 0 then UInt8.ofInt ((s.statics.now.tmYear + 1900) >>> (8 : Nat))
        else 0) := by
  have hselect : selectCmd cmdRegisterEnter cmd = some setDateCmd :=
    selectCmd_registered.mpr ⟨setDateCmd_mem, hname⟩
  obtain ⟨r, hrun, hfinish⟩ := (dispatch_selected hselect).mp hout
  obtain ⟨hstatus, hstatics⟩ := textSetDate_status hbin hname hrun
  obtain ⟨w, hw, hret, _, hbytes⟩ := finishCmd_reply_bytes hstatus rfl hfinish
  rw [hstatics] at hw
  unfold setDateReply at hw
  rw [hret, hbytes]
  split_ifs at hw ⊢
  all_goals
    obtain rfl := Option.some.inj hw
    exact ⟨Int.natCast_nonneg _, rfl⟩

/-- A binary command that sends the same from two buffers that begin differently sends nothing of them. -/
theorem mallocFails_of_same {out' : CmdResult} (hbin : cmd.isBinary = true)
    (hpasses : PassesPositive env cmd) (hdiffer : s.reply.bytes.head? ≠ t.reply.bytes.head?)
    (hout : dispatch env s cmd = some out) (hget : getCmd env s cmd = some (s', events))
    (hout' : dispatch env t cmd = some out') (hget' : getCmd env t cmd = some (t', events)) :
    env.mallocFails = true := by
  have hpassed : ∀ {s : CmdThread} {out : CmdResult}, dispatch env s cmd = some out →
      out.ret = env.system 1 ∧ out.reply = s.reply := by
    intro s out hout
    obtain ⟨entry, r, hselect, hrun, hstatus⟩ := status_of_passesPositive s.statics hpasses
    have hpos : 0 < r.status := hstatus ▸ hpasses.1
    have hfailed := (dispatch_selected hselect).mpr ⟨r, hrun, finishCmd_failed hpos.ne'⟩
    obtain rfl := Option.some.inj (hout.symm.trans hfailed)
    exact ⟨hstatus, rfl⟩
  by_contra hmalloc
  obtain ⟨hret, hreply⟩ := hpassed hout
  obtain ⟨hret', hreply'⟩ := hpassed hout'
  have hhead := shown_of_response hbin hmalloc hout (hret ▸ hpasses.1) hget hout'
    (hret'.trans hret.symm) hget'
  rw [hreply, hreply'] at hhead
  exact hdiffer hhead

/-- A text `set_date` sends differently before and after the clock has been set. -/
theorem not_same_setDate {out' : CmdResult} (hbin : cmd.isBinary = false)
    (hname : cstr cmd.cmdName = some setDateCmd.name) (hs : s.statics = Statics.initial)
    (hmode : t.statics.mode = 1) (hout : dispatch env s cmd = some out)
    (hget : getCmd env s cmd = some (s', events)) (hout' : dispatch env t cmd = some out')
    (hget' : getCmd env t cmd = some (t', events)) : False := by
  obtain ⟨hret, hhead⟩ := shows_date hbin hname hout
  obtain ⟨hret', hhead'⟩ := shows_date hbin hname hout'
  have hprinted := shown_of_text hbin hout hret hget hout' hret' hget'
  rw [hhead, hhead', hmode, hs] at hprinted
  exact absurd (hprinted.mpr rfl) (by decide)

/-- A text command without a string of its own sends differently from an empty buffer and another. -/
theorem not_same_left {out' : CmdResult} (hs : s.Settled) (ht : t.Settled) (hbin : cmd.isBinary = false)
    (hselect : selectCmd cmdRegisterEnter cmd = some entry) (hother : entry.name ∉ selfPrinting)
    (hdate : entry.name ≠ setDateCmd.name)
    (hsucceeds : ∀ r, entryHandler env Statics.initial cmd entry = some r → 0 ≤ r.status)
    (hempty : s.reply.bytes.head? = some 0) (hleft : t.reply.bytes.head? = some 1)
    (hout : dispatch env s cmd = some out) (hget : getCmd env s cmd = some (s', events))
    (hout' : dispatch env t cmd = some out') (hget' : getCmd env t cmd = some (t', events)) :
    False := by
  obtain ⟨hret, hreply⟩ := shows_left hs hselect hother hdate hsucceeds hout
  obtain ⟨hret', hreply'⟩ := shows_left ht hselect hother hdate hsucceeds hout'
  have hprinted := shown_of_text hbin hout hret hget hout' hret' hget'
  rw [hreply, hreply', hempty, hleft] at hprinted
  exact absurd (hprinted.mp rfl) (by decide)

/-! ### Three states that tell commands apart -/

/-- What a binary `set_date` with a date leaves. -/
theorem left_of_clockSet (hbin : cmd.isBinary = true) (hname : cstr cmd.cmdName = some setDateCmd.name)
    (hset : cmd.data[0]? = some 1) (hget : getCmd Env.succeeding s cmd = some (s', events)) :
    s'.statics.mode = 1 ∧ s'.reply.bytes.head? = some 0 := by
  obtain ⟨out, hout, hget⟩ := Option.bind_eq_some_iff.mp hget
  obtain ⟨sent, _, hpure⟩ := Option.bind_eq_some_iff.mp hget
  obtain ⟨rfl, _⟩ := Prod.mk.inj (Option.some.inj hpure)
  obtain ⟨r, hrun, hfinish⟩ :=
    (dispatch_selected (selectCmd_registered.mpr ⟨setDateCmd_mem, hname⟩)).mp hout
  rw [entryHandler_binary hbin] at hrun
  have hhandler : setSystemDate Env.succeeding s.statics cmd.data cmd.cmdLen = some r := hrun
  have hstatus : r.status = 0 := by simp [setSystemDate_status hhandler, Env.succeeding]
  have hstatics : r.statics = { s.statics with mode := 1 } :=
    Request.setSystemDate_set (a := ⟨.binary, Env.succeeding, cmd, s.reply⟩) hset hhandler
  obtain ⟨w, reply, hw, hwrite, rfl⟩ := (finishCmd_reply hstatus rfl).mp hfinish
  obtain rfl := Option.some.inj ((Request.setDateReply_set (by rw [hstatics])).symm.trans hw)
  refine ⟨by rw [hstatics], ?_⟩
  rw [(Block.write_eq_some_iff.mp hwrite).2]
  rfl

/-- What a text `sys_info` leaves. -/
theorem left_of_sysInfo (hbin : cmd.isBinary = false) (hname : cstr cmd.cmdName = some sysInfoCmd.name)
    (hget : getCmd Env.succeeding s cmd = some (s', events)) :
    s'.statics = s.statics ∧ s'.reply.bytes.head? = some 1 := by
  obtain ⟨out, hout, hget⟩ := Option.bind_eq_some_iff.mp hget
  obtain ⟨sent, _, hpure⟩ := Option.bind_eq_some_iff.mp hget
  obtain ⟨rfl, _⟩ := Prod.mk.inj (Option.some.inj hpure)
  have hselect : selectCmd cmdRegisterEnter cmd = some sysInfoCmd :=
    selectCmd_registered.mpr ⟨sysInfoCmd_mem, hname⟩
  obtain ⟨r, hrun, hfinish⟩ := (dispatch_selected hselect).mp hout
  rw [entryHandler_named hbin hname (by decide)] at hrun
  obtain rfl := Option.some.inj hrun
  obtain ⟨w, reply, hw, hwrite, rfl⟩ := (finishCmd_reply rfl rfl).mp hfinish
  obtain rfl := Option.some.inj hw
  refine ⟨rfl, ?_⟩
  rw [(Block.write_eq_some_iff.mp hwrite).2]
  rfl

namespace Pipeline

variable {p : Pipeline} {reply : Reply}

theorem thread_of_reaches {I : CmdThread → Prop} (hinit : I (CmdThread.initial reply))
    (hkeep : ∀ {env s cmd s' events}, I s → InstructionParser.getCmd env s cmd = some (s', events) → I s')
    (h : Reaches step anyAction (start reply) p) : I p.thread := by
  have hrun : ∀ {cmds : List (Env × StCmdFrame)} {s s' : CmdThread} {events : List Event}, I s →
      runCommands s cmds = some (s', events) → I s' := by
    intro cmds
    induction cmds with
    | nil =>
        intro s s' events hs h
        obtain ⟨rfl, _⟩ := Prod.mk.inj (Option.some.inj h)
        exact hs
    | cons first rest ih =>
        intro s s' events hs h
        simp only [runCommands, Option.bind_eq_bind, Option.bind_eq_some_iff] at h
        obtain ⟨⟨middle, written⟩, hfirst, ⟨last, rewritten⟩, hrest, hpure⟩ := h
        obtain ⟨rfl, _⟩ := Prod.mk.inj (Option.some.inj hpure)
        exact ih (hkeep hs hfirst) hrest
  obtain ⟨held, hinOrder⟩ := inOrder_of_reaches h
  exact hrun hinit hinOrder.executed_eq

theorem settled_of_reaches (h : Reaches step anyAction (start reply) p) : p.thread.Settled :=
  thread_of_reaches (settled_initial reply) CmdThread.Settled.getCmd h

theorem terminated_of_reaches (hterm : Terminated reply) (h : Reaches step anyAction (start reply) p) :
    Terminated p.thread.reply :=
  thread_of_reaches (I := fun s => Terminated s.reply) hterm Terminated.getCmd h

/-- A client sets the clock and another one asks for the system information. -/
theorem exists_setAndAsk (hterm : Terminated reply) : ∃ p p', Reaches step anyAction (start reply) p
    ∧ Reaches step anyAction (start reply) p' ∧ p.thread.reply.bytes.head? = some 0
    ∧ p'.thread.statics.mode = 1 ∧ p'.thread.reply.bytes.head? = some 1 := by
  have hint : IntStatus Env.succeeding := fun _ => by simp [Env.succeeding]
  have hset : ((handle (Block.zeroed 128) StCmdFrame.zeroed 5 clockFrame).bind id).map
      (fun cmd => (cmd.isBinary, cstr cmd.cmdName, cmd.data[0]?))
        = some (true, some setDateCmd.name, some 1) := by decide +kernel
  have hask : ((handle (Block.zeroed 128) StCmdFrame.zeroed 6 (ascii "[1] sys_info")).bind id).map
      (fun cmd => (cmd.isBinary, cstr cmd.cmdName)) = some (false, some sysInfoCmd.name) := by
    decide +kernel
  obtain ⟨cmd, hparsed, hcmd⟩ := Option.map_eq_some_iff.mp hset
  obtain ⟨ask, hparsed', hask'⟩ := Option.map_eq_some_iff.mp hask
  simp only [Prod.mk.injEq] at hcmd hask'
  obtain ⟨hbin, hname, hdata⟩ := hcmd
  obtain ⟨hbin', hname'⟩ := hask'
  obtain ⟨_, hhandle, rfl⟩ := Option.bind_eq_some_iff.mp hparsed
  obtain ⟨_, hhandle', rfl⟩ := Option.bind_eq_some_iff.mp hparsed'
  obtain ⟨⟨thread, events⟩, hget⟩ := exists_getCmd (s := (start reply).thread) hint hterm
    (handlerFits_of_other hname (by decide)) fun _ _ => Or.inr (by simp [Env.succeeding])
  obtain ⟨hmode, hempty⟩ := left_of_clockSet hbin hname hdata hget
  obtain ⟨p, hreach, hholds, rfl⟩ := exists_served (CircleQueue.holds_zeroed _) hhandle hget
  obtain ⟨⟨thread', events'⟩, hget'⟩ := exists_getCmd (s := p.thread) hint
    (terminated_of_reaches hterm hreach) (handlerFits_of_other hname' (by decide))
    fun hbinary => absurd (hbin'.symm.trans hbinary) (by decide)
  obtain ⟨hstatics, hleft⟩ := left_of_sysInfo hbin' hname' hget'
  obtain ⟨p', hreach', _, rfl⟩ := exists_served hholds hhandle' hget'
  exact ⟨p, p', hreach, Relation.ReflTransGen.trans hreach hreach', hempty, hstatics ▸ hmode, hleft⟩

/-- **Answers that show what was left.** A command that fits its objects does the same in all reachable
states if and only if it is self-contained. -/
theorem independent_iff (hterm : Terminated reply) (hint : IntStatus env) (hfits : CommandFits env cmd) :
    (∀ p p', Reaches step anyAction (start reply) p → Reaches step anyAction (start reply) p' →
      (getCmd env p.thread cmd).map Prod.snd = (getCmd env p'.thread cmd).map Prod.snd)
      ↔ SelfContained env cmd := by
  have hruns : ∀ {p : Pipeline}, Reaches step anyAction (start reply) p → ∃ out s' events,
      dispatch env p.thread cmd = some out ∧ getCmd env p.thread cmd = some (s', events) := by
    intro p hp
    obtain ⟨⟨s', events⟩, hget⟩ :=
      exists_getCmd hint (terminated_of_reaches hterm hp) hfits.toHandlerFits hfits.status
    obtain ⟨out, hout, _⟩ := Option.bind_eq_some_iff.mp hget
    exact ⟨out, s', events, hout, hget⟩
  constructor
  · intro hsame
    obtain ⟨p, p', hreaches, hreaches', hempty, hmode, hleft⟩ := exists_setAndAsk hterm
    obtain ⟨out, s', events, hout, hget⟩ := hruns hreaches
    obtain ⟨out', t', events', hout', hget'⟩ := hruns hreaches'
    obtain ⟨first, u', events₀, hfirst, hget₀⟩ := hruns (Reaches.refl (start reply))
    have hevents := hsame p p' hreaches hreaches'
    have hevents₀ := hsame (start reply) p' (Reaches.refl _) hreaches'
    rw [hget, hget'] at hevents
    rw [hget₀, hget'] at hevents₀
    obtain rfl : events = events' := Option.some.inj hevents
    obtain rfl : events₀ = events := Option.some.inj hevents₀
    refine ⟨fun hbin hpasses => ?_, fun hbin entry hselect => ?_⟩
    · have hdiffer : p.thread.reply.bytes.head? ≠ p'.thread.reply.bytes.head? := by
        rw [hempty, hleft]
        decide
      exact mallocFails_of_same hbin hpasses hdiffer hout hget hout' hget'
    · by_contra hshown
      simp only [not_or, not_exists, not_and, not_lt] at hshown
      obtain ⟨hother, hsucceeds⟩ := hshown
      by_cases hdate : entry.name = setDateCmd.name
      · have hname := hdate ▸ (selectCmd_registered.mp hselect).2
        exact not_same_setDate hbin hname rfl hmode hfirst hget₀ hout' hget'
      · exact not_same_left (settled_of_reaches hreaches) (settled_of_reaches hreaches') hbin hselect
          hother hdate hsucceeds hempty hleft hout hget hout' hget'
  · intro hself p p' h h'
    obtain ⟨out, s', events, _, hget⟩ := hruns h
    obtain ⟨t', hget'⟩ := hself.getCmd (settled_of_reaches h) (settled_of_reaches h') hget
    rw [hget, hget']
    rfl

theorem independent_iff_help :
    ¬ ∀ p p', Reaches step anyAction (start (Block.zeroed 512)) p →
      Reaches step anyAction (start (Block.zeroed 512)) p' →
        (getCmd Env.succeeding p.thread helpLine).map Prod.snd
          = (getCmd Env.succeeding p'.thread helpLine).map Prod.snd := by
  have hterm : Terminated (Block.zeroed 512) := ⟨46, by decide, by decide, by decide⟩
  have hname : cstr helpLine.cmdName = some helpCmd.name := by decide
  have hint : IntStatus Env.succeeding := fun _ => by simp [Env.succeeding]
  have hfits : CommandFits Env.succeeding helpLine :=
    { handlerFits_of_other hname (by decide) with
      status := fun hbin => absurd hbin (by decide)
      printed := fun _ => by decide +kernel }
  refine fun hsame => ?_
  have hself := (independent_iff hterm hint hfits).mp hsame
  have hselect : selectCmd cmdRegisterEnter helpLine = some helpCmd :=
    selectCmd_registered.mpr ⟨helpCmd_mem, hname⟩
  rcases hself.text rfl helpCmd hselect with hprints | ⟨r, hrun, hneg⟩
  · exact absurd hprints (by decide)
  · rw [entryHandler, if_neg (by decide), textHandler, if_pos (by decide), textDoHelp] at hrun
    obtain ⟨_, _, hpure⟩ := Option.bind_eq_some_iff.mp hrun
    obtain rfl := Option.some.inj hpure
    exact absurd hneg (lt_irrefl 0)

end Pipeline

end InstructionParser
