import InstructionParser.Handle
import Mathlib.Data.List.Nodup

/-!
# What the dispatch does

The names of the registered commands are distinct strings, so a command selects the entry of its name
wherever that stands in the list, and a statement about every command is one about the nine entries.
Both dispatchers then run the handler of the entry and finish alike.
-/

namespace InstructionParser

open CLib

/-! ### Which entry a name selects -/

theorem cmdRegisterEnter_names_nodup : (cmdRegisterEnter.map CmdList.name).Nodup := by decide

theorem zero_notMem_name : ∀ entry ∈ cmdRegisterEnter, 0 ∉ entry.name := by decide

theorem selectCmd_eq_some_iff {cmds : List CmdList} (hnodup : (cmds.map CmdList.name).Nodup)
    (hzero : ∀ entry ∈ cmds, 0 ∉ entry.name) {cmd : StCmdFrame} {entry : CmdList} :
    selectCmd cmds cmd = some entry ↔ entry ∈ cmds ∧ cstr cmd.cmdName = some entry.name := by
  constructor
  · intro h
    have hmem := List.mem_of_find?_eq_some h
    have hname : strcmpEq entry.name cmd.cmdName = true := by simpa using List.find?_some h
    exact ⟨hmem, (strcmpEq_iff (hzero entry hmem)).mp hname⟩
  · rintro ⟨hmem, hname⟩
    induction cmds with
    | nil => cases hmem
    | cons first rest ih =>
        simp only [List.map_cons, List.nodup_cons] at hnodup
        by_cases hfirst : strcmpEq first.name cmd.cmdName = true
        · have hsame : first.name = entry.name := by
            have hcstr := (strcmpEq_iff (hzero first (by simp))).mp hfirst
            exact Option.some.inj (hcstr.symm.trans hname)
          simp only [selectCmd, List.find?_cons, hfirst]
          rcases List.mem_cons.mp hmem with heq | htail
          · rw [heq]
          · exact absurd (hsame ▸ List.mem_map_of_mem htail) hnodup.1
        · have htail : entry ∈ rest := by
            refine (List.mem_cons.mp hmem).resolve_left fun heq => hfirst ?_
            exact (strcmpEq_iff (hzero first (by simp))).mpr (heq ▸ hname)
          simp only [selectCmd, List.find?_cons, hfirst]
          exact ih hnodup.2 (fun other hother => hzero other (by simp [hother])) htail

theorem selectCmd_registered {cmd : StCmdFrame} {entry : CmdList} :
    selectCmd cmdRegisterEnter cmd = some entry ↔
      entry ∈ cmdRegisterEnter ∧ cstr cmd.cmdName = some entry.name :=
  selectCmd_eq_some_iff cmdRegisterEnter_names_nodup zero_notMem_name

theorem forall_registered {motive : CmdList → Prop} (help : motive helpCmd)
    (reboot : motive rebootCmd) (getIp : motive getIpCmd) (setIp : motive setIpCmd)
    (previewOn : motive previewOnCmd) (previewOff : motive previewOffCmd)
    (setDate : motive setDateCmd) (addUser : motive addUserCmd) (sysInfo : motive sysInfoCmd) :
    ∀ entry ∈ cmdRegisterEnter, motive entry := by
  intro entry hmem
  simp only [cmdRegisterEnter, registerCmd, List.foldl_cons, List.foldl_nil, List.nil_append,
    List.cons_append, List.mem_cons, List.not_mem_nil, or_false] at hmem
  rcases hmem with rfl | rfl | rfl | rfl | rfl | rfl | rfl | rfl | rfl
  exacts [help, reboot, getIp, setIp, previewOn, previewOff, setDate, addUser, sysInfo]

theorem helpCmd_mem : helpCmd ∈ cmdRegisterEnter := by simp [cmdRegisterEnter, registerCmd]

theorem rebootCmd_mem : rebootCmd ∈ cmdRegisterEnter := by simp [cmdRegisterEnter, registerCmd]

theorem previewOnCmd_mem : previewOnCmd ∈ cmdRegisterEnter := by simp [cmdRegisterEnter, registerCmd]

theorem previewOffCmd_mem : previewOffCmd ∈ cmdRegisterEnter := by
  simp [cmdRegisterEnter, registerCmd]

theorem setDateCmd_mem : setDateCmd ∈ cmdRegisterEnter := by simp [cmdRegisterEnter, registerCmd]

theorem getIpCmd_mem : getIpCmd ∈ cmdRegisterEnter := by simp [cmdRegisterEnter, registerCmd]

theorem setIpCmd_mem : setIpCmd ∈ cmdRegisterEnter := by simp [cmdRegisterEnter, registerCmd]

theorem addUserCmd_mem : addUserCmd ∈ cmdRegisterEnter := by simp [cmdRegisterEnter, registerCmd]

theorem sysInfoCmd_mem : sysInfoCmd ∈ cmdRegisterEnter := by simp [cmdRegisterEnter, registerCmd]

theorem entry_eq_of_name {entry other : CmdList} (hmem : entry ∈ cmdRegisterEnter)
    (hother : other ∈ cmdRegisterEnter) (hname : entry.name = other.name) : entry = other :=
  List.inj_on_of_nodup_map cmdRegisterEnter_names_nodup hmem hother hname

/-! ### The handler and its reply -/

/-- The handler that the dispatcher of a command runs for an entry. -/
def entryHandler (env : Env) (st : Statics) (cmd : StCmdFrame) (entry : CmdList) :
    Option HandlerResult :=
  if cmd.isBinary then callHandler entry.doCmd env st cmd.data cmd.cmdLen
  else textHandler env cmdRegisterEnter st cmd entry

theorem dispatch_eq (env : Env) (s : CmdThread) (cmd : StCmdFrame) :
    dispatch env s cmd =
      match selectCmd cmdRegisterEnter cmd with
      | none => some { ret := -1, statics := s.statics, reply := s.reply, events := [] }
      | some entry =>
          (entryHandler env s.statics cmd entry).bind fun r => finishCmd entry r s.reply := by
  rw [dispatch, doCmdList_eq, doTextCmd_eq]
  unfold entryHandler
  cases cmd.isBinary <;> rfl

theorem dispatch_selected {env : Env} {s : CmdThread} {cmd : StCmdFrame} {entry : CmdList}
    {out : CmdResult} (hselect : selectCmd cmdRegisterEnter cmd = some entry) :
    dispatch env s cmd = some out ↔
      ∃ r, entryHandler env s.statics cmd entry = some r
        ∧ finishCmd entry r s.reply = some out := by
  rw [dispatch_eq, hselect]
  exact Option.bind_eq_some_iff

theorem dispatch_unselected {env : Env} {s : CmdThread} {cmd : StCmdFrame}
    (hselect : selectCmd cmdRegisterEnter cmd = none) :
    dispatch env s cmd =
      some { ret := -1, statics := s.statics, reply := s.reply, events := [] } := by
  rw [dispatch_eq, hselect]

theorem textHandler_status {env : Env} {cmds : List CmdList} {st : Statics} {cmd : StCmdFrame}
    {entry : CmdList} {r : HandlerResult}
    (h : textHandler env cmds st cmd entry = some r) :
    r.status = 0 ∨ callHandler entry.doTextCmd env st cmd.cmdData cmd.cmdLen = some r := by
  unfold textHandler at h
  split_ifs at h with hhelp
  · obtain ⟨events, _, hpure⟩ := Option.bind_eq_some_iff.mp h
    obtain rfl := Option.some.inj hpure
    exact Or.inl rfl
  · exact Or.inr h

theorem textHandler_eq {env : Env} {cmds : List CmdList} {st : Statics} {cmd : StCmdFrame}
    {entry : CmdList} {name : Bytes} (hname : cstr cmd.cmdName = some name)
    (hne : name ≠ ascii "help") :
    textHandler env cmds st cmd entry =
      callHandler entry.doTextCmd env st cmd.cmdData cmd.cmdLen := by
  refine if_neg fun hhelp => hne ?_
  have hcstr := (strcmpEq_iff (by decide)).mp hhelp
  exact Option.some.inj (hname.symm.trans hcstr)

theorem finishCmd_failed {entry : CmdList} {r : HandlerResult} {reply : Reply}
    (hstatus : r.status ≠ 0) :
    finishCmd entry r reply =
      some { ret := r.status, statics := r.statics, reply, events := r.events } := if_pos hstatus

theorem finishCmd_noReply {entry : CmdList} {r : HandlerResult} {reply : Reply}
    (hstatus : r.status = 0) (hnone : entry.getReply = none) :
    finishCmd entry r reply =
      some { ret := 0, statics := r.statics, reply, events := r.events } := by
  simp [finishCmd, hstatus, hnone]

theorem finishCmd_reply {entry : CmdList} {r : HandlerResult} {reply : Reply} {out : CmdResult}
    {getReply : GetReply} (hstatus : r.status = 0) (hsome : entry.getReply = some getReply) :
    finishCmd entry r reply = some out ↔
      ∃ w reply', getReply r.statics = some w ∧ reply.write 0 w.wrote = some reply'
        ∧ out = { ret := w.ret, statics := w.statics, reply := reply', events := r.events } := by
  simp only [finishCmd, hstatus, hsome, ne_eq, not_true_eq_false, if_false, Option.bind_eq_bind,
    Option.bind_eq_some_iff, Option.pure_def, Option.some.injEq]
  constructor
  · rintro ⟨w, hw, reply', hwrite, rfl⟩
    exact ⟨w, reply', hw, hwrite, rfl⟩
  · rintro ⟨w, reply', hw, hwrite, rfl⟩
    exact ⟨w, hw, reply', hwrite, rfl⟩

end InstructionParser
