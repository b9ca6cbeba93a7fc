import InstructionParser.Functions.Media
import InstructionParser.Functions.Network
import InstructionParser.Functions.System

/-!
# The command registry

`functions/function_manager.c`, with the list that `ptNext` links as a `List`.
-/

namespace InstructionParser

open CLib

def helpCmd : CmdList where
  name := ascii "help"
  usage := ascii "[id] help"
  helpInfo := ascii "\tShow help info about cmd system."
  doCmd := none
  doTextCmd := none
  getReply := none

def registerCmd (cmds : List CmdList) (cmd : CmdList) : List CmdList := cmds ++ [cmd]

/-- The list after `cmd_register_enter`: help, reboot, network, media, system. -/
def cmdRegisterEnter : List CmdList :=
  [helpCmd, rebootCmd, getIpCmd, setIpCmd, previewOnCmd, previewOffCmd, setDateCmd, addUserCmd,
    sysInfoCmd].foldl registerCmd []

abbrev Reply := Block 512

/-- What `do_cmd_list` or `do_text_cmd` returns and leaves behind. -/
structure CmdResult where
  ret : Int
  statics : Statics
  reply : Reply
  events : List Event

def callHandler (handler : Option Handler) (env : Env) (st : Statics) (arg : Bytes)
    (len : UInt16) : Option HandlerResult :=
  match handler with
  | some handler => handler env st arg len
  | none => some { status := 0, statics := st, events := [] }

/-- The common end of `do_cmd_list` and `do_text_cmd`: a status other than 0 is returned as it is,
otherwise `get_reply` fills the reply and its return value is returned. -/
def finishCmd (entry : CmdList) (r : HandlerResult) (reply : Reply) : Option CmdResult :=
  if r.status ≠ 0 then
    some { ret := r.status, statics := r.statics, reply, events := r.events }
  else
    match entry.getReply with
    | none => some { ret := 0, statics := r.statics, reply, events := r.events }
    | some getReply => do
        let w ← getReply r.statics
        let reply ← reply.write 0 w.wrote
        pure { ret := w.ret, statics := w.statics, reply, events := r.events }

def doCmdList (env : Env) (st : Statics) (cmd : StCmdFrame) (reply : Reply) :
    List CmdList → Option CmdResult
  | [] => some { ret := -1, statics := st, reply, events := [] }
  | entry :: rest =>
      if strcmpEq entry.name cmd.cmdName then
        (callHandler entry.doCmd env st cmd.data cmd.cmdLen).bind fun r => finishCmd entry r reply
      else doCmdList env st cmd reply rest

/-- The loop of `text_do_help`, its `k`-th line next. It stops when a write fails. -/
def textDoHelpLoop (env : Env) (fd : Int) : Nat → List CmdList → Option (List Event)
  | _, [] => some []
  | k, entry :: rest => do
      let help := entry.usage ++ ascii "\t\t" ++ entry.helpInfo ++ ascii "\n"
      let _ ← (Block.zeroed 256).write 0 (help ++ [0])
      let line := Event.opWrite fd help
      if env.opWrite k < -1 then pure [line]
      else
        let events ← textDoHelpLoop env fd (k + 1) rest
        pure (line :: events)

/-- `text_do_help`. Its return value is not used. -/
def textDoHelp (env : Env) (cmds : List CmdList) (st : Statics) (cmd : StCmdFrame) :
    Option HandlerResult := do
  let events ← textDoHelpLoop env cmd.fd 0 cmds
  pure { status := 0, statics := st, events }

/-- The loop of `do_text_cmd`; `cmds` is the whole list, for `text_do_help`. -/
def doTextCmdLoop (env : Env) (cmds : List CmdList) (st : Statics) (cmd : StCmdFrame)
    (reply : Reply) : List CmdList → Option CmdResult
  | [] => some { ret := -1, statics := st, reply, events := [] }
  | entry :: rest =>
      if strcmpEq entry.name cmd.cmdName then
        (if strcmpEq (ascii "help") cmd.cmdName then textDoHelp env cmds st cmd
          else callHandler entry.doTextCmd env st cmd.cmdData cmd.cmdLen).bind fun r =>
            finishCmd entry r reply
      else doTextCmdLoop env cmds st cmd reply rest

def doTextCmd (env : Env) (st : Statics) (cmd : StCmdFrame) (reply : Reply)
    (cmds : List CmdList) : Option CmdResult :=
  doTextCmdLoop env cmds st cmd reply cmds

/-- The entry that a command name selects. -/
def selectCmd (cmds : List CmdList) (cmd : StCmdFrame) : Option CmdList :=
  cmds.find? fun entry => strcmpEq entry.name cmd.cmdName

theorem doCmdList_eq (env : Env) (st : Statics) (cmd : StCmdFrame) (reply : Reply)
    (cmds : List CmdList) :
    doCmdList env st cmd reply cmds =
      match selectCmd cmds cmd with
      | none => some { ret := -1, statics := st, reply, events := [] }
      | some entry =>
          (callHandler entry.doCmd env st cmd.data cmd.cmdLen).bind fun r =>
            finishCmd entry r reply := by
  induction cmds with
  | nil => rfl
  | cons entry rest ih =>
      by_cases hname : strcmpEq entry.name cmd.cmdName = true
      · simp [doCmdList, selectCmd, hname]
      · simp only [doCmdList, selectCmd, hname, Bool.false_eq_true, if_false, List.find?_cons] at ih ⊢
        exact ih

/-- The handler that `do_text_cmd` runs for an entry. -/
def textHandler (env : Env) (cmds : List CmdList) (st : Statics) (cmd : StCmdFrame)
    (entry : CmdList) : Option HandlerResult :=
  if strcmpEq (ascii "help") cmd.cmdName then textDoHelp env cmds st cmd
  else callHandler entry.doTextCmd env st cmd.cmdData cmd.cmdLen

theorem doTextCmd_eq (env : Env) (st : Statics) (cmd : StCmdFrame) (reply : Reply)
    (cmds : List CmdList) :
    doTextCmd env st cmd reply cmds =
      match selectCmd cmds cmd with
      | none => some { ret := -1, statics := st, reply, events := [] }
      | some entry =>
          (textHandler env cmds st cmd entry).bind fun r => finishCmd entry r reply := by
  suffices hloop : ∀ rest, doTextCmdLoop env cmds st cmd reply rest =
      match selectCmd rest cmd with
      | none => some { ret := -1, statics := st, reply, events := [] }
      | some entry =>
          (textHandler env cmds st cmd entry).bind fun r => finishCmd entry r reply from
    hloop cmds
  intro rest
  induction rest with
  | nil => rfl
  | cons entry rest ih =>
      by_cases hname : strcmpEq entry.name cmd.cmdName = true
      · simp [doTextCmdLoop, selectCmd, textHandler, hname]
      · simp only [doTextCmdLoop, selectCmd, hname, Bool.false_eq_true, if_false,
          List.find?_cons] at ih ⊢
        exact ih

end InstructionParser
