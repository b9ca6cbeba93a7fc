import InstructionParser.Proof.Dispatch
import InstructionParser.Proof.Handlers

/-!
# One integer, three meanings

What a dispatcher returns is a negative error, a reply length, or the status of the handler passed on
as it is. The last two are told apart by nothing but their sign: a script that ends with a nonzero
status gives a positive one, which `get_cmd` takes for the length of a reply. The dispatch is right
about every other command.
-/

namespace InstructionParser

open CLib

/-- The status of the handler that a command selects; `none` when no handler returns one. -/
def handlerStatus (env : Env) (st : Statics) (cmd : StCmdFrame) : Option Int :=
  (selectCmd cmdRegisterEnter cmd).bind fun entry =>
    (entryHandler env st cmd entry).map HandlerResult.status

/-- The value returned is the number of bytes that the command's own `get_reply` wrote, and these
are the first bytes of the reply buffer. -/
def OwnReply (env : Env) (st : Statics) (cmd : StCmdFrame) (out : CmdResult) : Prop :=
  ∃ entry r getReply w, selectCmd cmdRegisterEnter cmd = some entry
    ∧ entryHandler env st cmd entry = some r ∧ r.status = 0
    ∧ entry.getReply = some getReply ∧ getReply r.statics = some w
    ∧ w.Counted ∧ out.ret = w.wrote.length ∧ out.reply.bytes.take w.wrote.length = w.wrote

/-- A handler status other than 0 is a failure, and what is sent as a reply was written as one. -/
structure StatusHonoured (env : Env) (s : CmdThread) (cmd : StCmdFrame) : Prop where
  failure : ∀ out status, dispatch env s cmd = some out →
    handlerStatus env s.statics cmd = some status → status ≠ 0 →
    chooseAnswer cmd out.ret = if cmd.isBinary then .silent else .textError out.ret
  own_reply : ∀ out, dispatch env s cmd = some out → cmd.isBinary = true → 0 < out.ret →
    OwnReply env s.statics cmd out
  text_answer : ∀ out, dispatch env s cmd = some out → cmd.isBinary = false →
    chooseAnswer cmd out.ret =
      if handlerStatus env s.statics cmd = some 0 then .textResponse out.ret
      else .textError out.ret

/-- The command runs two scripts and passes the status of the second on, which is positive. -/
def PassesPositive (env : Env) (cmd : StCmdFrame) : Prop :=
  0 < env.system 1 ∧
    (cstr cmd.cmdName = some (ascii "preview_on")
      ∨ cstr cmd.cmdName = some (ascii "preview_off")
      ∨ cstr cmd.cmdName = some (ascii "set_date") ∧ cmd.isBinary = true
        ∧ cmd.data[0]? = some 1 ∧ env.system 0 = 0)

variable {env : Env} {st : Statics} {cmd : StCmdFrame} {entry : CmdList}

/-! ### The status of the selected handler -/

theorem textHandler_nonpos {cmds : List CmdList} (hnever : NeverPositive entry.doTextCmd)
    {r : HandlerResult} (h : textHandler env cmds st cmd entry = some r) : r.status ≤ 0 := by
  rcases textHandler_status h with hzero | hrun
  · exact hzero.le
  · exact hnever env st _ _ r hrun

theorem preview_status {first second : Bytes} (hdo : entry.doCmd = some (systemTwice first second))
    (htext : entry.doTextCmd = some (systemTwice first second)) {r : HandlerResult}
    (hrun : entryHandler env st cmd entry = some r) : r.status = 0 ∨ r.status = env.system 1 := by
  unfold entryHandler at hrun
  split_ifs at hrun with hbin
  · rw [hdo] at hrun
    obtain rfl := Option.some.inj hrun
    exact Or.inr rfl
  · refine (textHandler_status hrun).imp_right fun hcall => ?_
    rw [htext] at hcall
    obtain rfl := Option.some.inj hcall
    rfl

theorem passesPositive_of_status (hmem : entry ∈ cmdRegisterEnter)
    (hname : cstr cmd.cmdName = some entry.name) {r : HandlerResult}
    (hrun : entryHandler env st cmd entry = some r) (hpos : 0 < r.status) :
    PassesPositive env cmd := by
  by_cases hon : entry.name = previewOnCmd.name
  · obtain rfl := entry_eq_of_name hmem previewOnCmd_mem hon
    have hstatus := (preview_status rfl rfl hrun).resolve_left hpos.ne'
    exact ⟨hstatus ▸ hpos, Or.inl hname⟩
  by_cases hoff : entry.name = previewOffCmd.name
  · obtain rfl := entry_eq_of_name hmem previewOffCmd_mem hoff
    have hstatus := (preview_status rfl rfl hrun).resolve_left hpos.ne'
    exact ⟨hstatus ▸ hpos, Or.inr (Or.inl hname)⟩
  unfold entryHandler at hrun
  by_cases hbin : cmd.isBinary = true
  · rw [if_pos hbin] at hrun
    by_cases hdate : entry.name = setDateCmd.name
    · obtain rfl := entry_eq_of_name hmem setDateCmd_mem hdate
      have hset : setSystemDate env st cmd.data cmd.cmdLen = some r := hrun
      rw [setSystemDate_status hset] at hpos
      by_cases hcond : cmd.data[0]? = some 1 ∧ env.system 0 = 0
      · rw [if_pos hcond] at hpos
        exact ⟨hpos, Or.inr (Or.inr ⟨hname, hbin, hcond⟩)⟩
      · rw [if_neg hcond] at hpos
        exact absurd hpos (lt_irrefl 0)
    · exact absurd (doCmd_neverPositive entry hmem hon hoff hdate env st _ _ r hrun) (by omega)
  · rw [if_neg hbin] at hrun
    exact absurd (textHandler_nonpos (doTextCmd_neverPositive entry hmem hon hoff) hrun) (by omega)

theorem status_of_passesPositive (st : Statics) (h : PassesPositive env cmd) :
    ∃ entry r, selectCmd cmdRegisterEnter cmd = some entry
      ∧ entryHandler env st cmd entry = some r ∧ r.status = env.system 1 := by
  have htwice : ∀ (entry : CmdList) {first second : Bytes}, entry ∈ cmdRegisterEnter →
      cstr cmd.cmdName = some entry.name → entry.name ≠ ascii "help" →
      entry.doCmd = some (systemTwice first second) →
      entry.doTextCmd = some (systemTwice first second) →
      ∃ entry r, selectCmd cmdRegisterEnter cmd = some entry
        ∧ entryHandler env st cmd entry = some r ∧ r.status = env.system 1 := by
    intro entry first second hmem hname hhelp hdo htext
    refine ⟨entry, ⟨env.system 1, st, [.system first, .system second]⟩,
      selectCmd_registered.mpr ⟨hmem, hname⟩, ?_, rfl⟩
    rw [entryHandler, textHandler_eq hname hhelp, hdo, htext]
    exact ite_self _
  obtain ⟨_, hon | hoff | ⟨hdate, hbin, hset, hclock⟩⟩ := h
  · exact htwice previewOnCmd previewOnCmd_mem hon (by decide) rfl rfl
  · exact htwice previewOffCmd previewOffCmd_mem hoff (by decide) rfl rfl
  · obtain ⟨r, hrun⟩ := exists_setSystemDate env st cmd
    refine ⟨setDateCmd, r, selectCmd_registered.mpr ⟨setDateCmd_mem, hdate⟩, ?_, ?_⟩
    · rw [entryHandler, if_pos hbin]
      exact hrun
    · rw [setSystemDate_status hrun, if_pos ⟨hset, hclock⟩]

theorem ret_of_selected {s : CmdThread} {out : CmdResult} (hok : ¬ PassesPositive env cmd)
    (hselect : selectCmd cmdRegisterEnter cmd = some entry) {r : HandlerResult}
    (hrun : entryHandler env s.statics cmd entry = some r)
    (hfinish : finishCmd entry r s.reply = some out) :
    r.status ≠ 0 ∧ out.ret < 0 ∨ r.status = 0 ∧ 0 ≤ out.ret := by
  obtain ⟨hmem, hname⟩ := selectCmd_registered.mp hselect
  by_cases hstatus : r.status = 0
  · exact Or.inr ⟨hstatus, finishCmd_ret_nonneg hmem hstatus.ge hfinish⟩
  · refine Or.inl ⟨hstatus, ?_⟩
    rw [finishCmd_failed hstatus] at hfinish
    obtain rfl := Option.some.inj hfinish
    have hnonpos : ¬ 0 < r.status := fun hpos => hok (passesPositive_of_status hmem hname hrun hpos)
    simp only
    omega

theorem ownReply_of_pos {s : CmdThread} {out : CmdResult} (hok : ¬ PassesPositive env cmd)
    (hout : dispatch env s cmd = some out) (hbin : cmd.isBinary = true) (hpos : 0 < out.ret) :
    OwnReply env s.statics cmd out := by
  cases hselect : selectCmd cmdRegisterEnter cmd with
  | none =>
      rw [dispatch_unselected hselect] at hout
      obtain rfl := Option.some.inj hout
      simp at hpos
  | some entry =>
      obtain ⟨r, hrun, hfinish⟩ := (dispatch_selected hselect).mp hout
      have hstatus : r.status = 0 := by
        rcases ret_of_selected hok hselect hrun hfinish with ⟨_, hneg⟩ | ⟨hzero, _⟩
        · omega
        · exact hzero
      cases hget : entry.getReply with
      | none =>
          rw [finishCmd_noReply hstatus hget] at hfinish
          obtain rfl := Option.some.inj hfinish
          exact absurd hpos (lt_irrefl 0)
      | some getReply =>
          obtain ⟨w, reply', hreply, hwrite, rfl⟩ := (finishCmd_reply hstatus hget).mp hfinish
          have hcall : callHandler entry.doCmd env s.statics cmd.data cmd.cmdLen = some r := by
            rwa [entryHandler, if_pos hbin] at hrun
          have hcounted := binaryReply_counted entry (selectCmd_registered.mp hselect).1 hcall
            hstatus hget hreply
          refine ⟨entry, r, getReply, w, hselect, hrun, hstatus, hget, hreply, hcounted, hcounted.1,
            ?_⟩
          obtain ⟨_, hbytes⟩ := Block.write_eq_some_iff.mp hwrite
          simp [hbytes, patch]

/-- A positive status that is passed on is answered like a reply of that length. -/
theorem failure_of_passesPositive {s : CmdThread} (hpasses : PassesPositive env cmd) :
    ¬ StatusHonoured env s cmd := by
  intro h
  obtain ⟨entry, r, hselect, hrun, hstatus⟩ := status_of_passesPositive s.statics hpasses
  have hpos : 0 < r.status := hstatus ▸ hpasses.1
  have hdispatch := (dispatch_selected hselect).mpr ⟨r, hrun, finishCmd_failed hpos.ne'⟩
  have hanswer := h.failure _ r.status hdispatch (by simp [handlerStatus, hselect, hrun]) hpos.ne'
  simp only [chooseAnswer, hpos, not_lt.mpr hpos.le, if_true, if_false] at hanswer
  split_ifs at hanswer

/-- The dispatch tells failures from replies exactly when no positive status is passed on. -/
theorem statusHonoured_iff (env : Env) (s : CmdThread) (cmd : StCmdFrame) :
    StatusHonoured env s cmd ↔ ¬ PassesPositive env cmd := by
  constructor
  · exact fun h hpasses => failure_of_passesPositive hpasses h
  · intro hok
    refine ⟨?_, fun out hout hbin hpos => ownReply_of_pos hok hout hbin hpos, ?_⟩
    · intro out status hout hstatus hne
      obtain ⟨entry, hselect, hmap⟩ := Option.bind_eq_some_iff.mp hstatus
      obtain ⟨r, hrun, rfl⟩ := Option.map_eq_some_iff.mp hmap
      obtain ⟨r', hrun', hfinish⟩ := (dispatch_selected hselect).mp hout
      obtain rfl := Option.some.inj (hrun.symm.trans hrun')
      rcases ret_of_selected hok hselect hrun hfinish with ⟨_, hneg⟩ | ⟨hzero, _⟩
      · simp [chooseAnswer, hneg]
      · exact absurd hzero hne
    · intro out hout htext
      cases hselect : selectCmd cmdRegisterEnter cmd with
      | none =>
          rw [dispatch_unselected hselect] at hout
          obtain rfl := Option.some.inj hout
          simp [chooseAnswer, htext, handlerStatus, hselect]
      | some entry =>
          obtain ⟨r, hrun, hfinish⟩ := (dispatch_selected hselect).mp hout
          have hstatus : handlerStatus env s.statics cmd = some r.status := by
            simp [handlerStatus, hselect, hrun]
          rcases ret_of_selected hok hselect hrun hfinish with ⟨hne, hneg⟩ | ⟨hzero, hnonneg⟩
          · simp [chooseAnswer, htext, hstatus, hne, hneg]
          · simp [chooseAnswer, htext, hstatus, hzero, not_lt.mpr hnonneg]

/-- A binary `preview_on` whose second script ends with status 127: the 32512 that `system` returns
is taken for the length of a reply. -/
theorem not_statusHonoured :
    ¬ ∀ (env : Env) (s : CmdThread) (cmd : StCmdFrame), StatusHonoured env s cmd := by
  intro h
  let env : Env := { Env.succeeding with system := fun _ => 32512 }
  let cmd : StCmdFrame := { StCmdFrame.ofName (ascii "preview_on") (by decide) with cmdId := 0x0202 }
  have hpasses : PassesPositive env cmd := ⟨by decide, Or.inl (by decide)⟩
  exact failure_of_passesPositive hpasses (h env CmdThread.zeroed cmd)

end InstructionParser
