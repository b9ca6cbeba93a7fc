import InstructionParser.Pipeline
import InstructionParser.Proof.EventSlots
import InstructionParser.Proof.Fifo
import InstructionParser.Proof.Handlers
import InstructionParser.Proof.Recognition
import InstructionParser.Proof.ResponseCode
import InstructionParser.ResponseStream

/-!
# What a client gets for what it sends

The command thread executes the accepted commands in order, whatever the turns of the threads are. Only
`text_do_help` and the answer of `get_cmd` write to a client, so the bytes of a client are the answers to
its own commands in the order of its reads.
-/

namespace InstructionParser

open CLib Runs

variable {env : Env} {s s' : CmdThread} {cmd : StCmdFrame} {out : CmdResult}
  {events more : List Event} {fd : Int}

/-! ### Which events write -/

/-- The events write these buffers to this client, and nothing to others. -/
def OnlyTo (fd : Int) (events : List Event) (bufs : List Bytes) : Prop :=
  ∀ fd', writesTo fd' events = if fd' = fd then bufs else []

theorem writesTo_append (fd : Int) (events more : List Event) :
    writesTo fd (events ++ more) = writesTo fd events ++ writesTo fd more := List.filterMap_append

theorem onlyTo_quiet (h : ∀ e ∈ events, writtenBy e = none) : OnlyTo fd events [] := by
  intro fd'
  rw [ite_self, writesTo, List.filterMap_eq_nil_iff]
  intro e he
  have hquiet := h e he
  cases e with
  | opWrite fd buf => cases hquiet
  | _ => rfl

theorem onlyTo_map (fd : Int) (bufs : List Bytes) : OnlyTo fd (bufs.map (.opWrite fd)) bufs := by
  intro fd'
  rw [writesTo, List.filterMap_map]
  split_ifs with heq
  · subst heq
    have hsome : bufs.filterMap some = bufs := List.filterMap_some
    refine (List.filterMap_congr fun buf _ => ?_).trans hsome
    exact if_pos rfl
  · exact List.filterMap_eq_nil_iff.mpr fun buf _ => if_neg fun hsame => heq hsame.symm

theorem OnlyTo.append {bufs others : List Bytes} (h : OnlyTo fd events bufs)
    (hmore : OnlyTo fd more others) : OnlyTo fd (events ++ more) (bufs ++ others) := by
  intro fd'
  rw [writesTo_append, h fd', hmore fd']
  split_ifs <;> rfl

/-- Every event of the handler is of this kind. -/
def Emits (kind : Event → Prop) (handler : Option Handler) : Prop :=
  ∀ env st arg len r, callHandler handler env st arg len = some r → ∀ e ∈ r.events, kind e

def Event.IsSystem (e : Event) : Prop := ∃ line, e = .system line

def Event.IsSetAddr (e : Event) : Prop := ∃ device ip, e = .setAddr device ip

theorem emits_none : Emits (fun _ => False) none := by
  intro env st arg len r h
  obtain rfl := Option.some.inj h
  exact fun _ he => absurd he List.not_mem_nil

theorem emits_succeed : Emits (fun _ => False) (some succeed) := by
  intro env st arg len r h
  obtain rfl := Option.some.inj h
  exact fun _ he => absurd he List.not_mem_nil

theorem emits_systemTwice (first second : Bytes) :
    Emits Event.IsSystem (some (systemTwice first second)) := by
  intro env st arg len r h
  obtain rfl := Option.some.inj h
  simp [Event.IsSystem]

theorem emits_rebootSystem : Emits (· = .reboot) (some rebootSystem) := by
  intro env st arg len r h
  have hrun : rebootSystem env st arg len = some r := h
  obtain ⟨_, rfl⟩ := rebootSystem_eq_some_iff.mp hrun
  exact fun _ => List.eq_of_mem_singleton

theorem emits_doGetDeviceIp : Emits (fun _ => False) (some doGetDeviceIp) := by
  intro env st arg len r h
  have hrun : doGetDeviceIp env st arg len = some r := h
  simp only [doGetDeviceIp, Option.bind_eq_bind, Option.bind_eq_some_iff] at hrun
  obtain ⟨name, _, info, _, ip, _, hip⟩ := hrun
  cases ip with
  | none =>
      obtain rfl := Option.some.inj hip
      exact fun _ he => absurd he List.not_mem_nil
  | some ip =>
      obtain ⟨filled, _, hpure⟩ := Option.bind_eq_some_iff.mp hip
      obtain rfl := Option.some.inj hpure
      exact fun _ he => absurd he List.not_mem_nil

theorem emits_doTextGetDeviceIp : Emits (fun _ => False) (some doTextGetDeviceIp) := by
  intro env st arg len r h
  have hrun : doTextGetDeviceIp env st arg len = some r := h
  simp only [doTextGetDeviceIp, Option.bind_eq_bind, Option.bind_eq_some_iff] at hrun
  obtain ⟨name, _, info, _, ip, _, hip⟩ := hrun
  cases ip with
  | none =>
      obtain rfl := Option.some.inj hip
      exact fun _ he => absurd he List.not_mem_nil
  | some ip =>
      obtain ⟨filled, _, hpure⟩ := Option.bind_eq_some_iff.mp hip
      obtain rfl := Option.some.inj hpure
      exact fun _ he => absurd he List.not_mem_nil

theorem isSetAddr_of_setHandIp {device ipaddr : Bytes} {status : Int}
    (h : setHandIp env device ipaddr = some (status, events)) : ∀ e ∈ events, e.IsSetAddr := by
  unfold setHandIp at h
  split_ifs at h with hsocket
  · cases h
    exact fun _ he => absurd he List.not_mem_nil
  · simp only [Option.bind_eq_bind, Option.bind_eq_some_iff] at h
    obtain ⟨name, _, ip, _, hpure⟩ := h
    obtain ⟨_, rfl⟩ := Prod.mk.inj (Option.some.inj hpure)
    cases env.setAddr <;> simp [Event.IsSetAddr]

theorem isSetAddr_of_setDeviceIp {info info' : Bytes} {status : Int}
    (h : setDeviceIp env info = some (status, info', events)) : ∀ e ∈ events, e.IsSetAddr := by
  simp only [setDeviceIp, Option.bind_eq_bind, Option.bind_eq_some_iff] at h
  obtain ⟨ipAddr, _, h⟩ := h
  split_ifs at h with hmalloc
  · cases h
    exact fun _ he => absurd he List.not_mem_nil
  · obtain ⟨⟨ret, checked⟩, _, h⟩ := Option.bind_eq_some_iff.mp h
    simp only at h
    split_ifs at h with hret
    · cases h
      exact fun _ he => absurd he List.not_mem_nil
    · obtain ⟨⟨status', events'⟩, hset, hpure⟩ := Option.bind_eq_some_iff.mp h
      cases hpure
      exact isSetAddr_of_setHandIp hset

theorem emits_doSetDeviceIp : Emits Event.IsSetAddr (some doSetDeviceIp) := by
  intro env st arg len r h
  have hrun : doSetDeviceIp env st arg len = some r := h
  simp only [doSetDeviceIp, Option.bind_eq_bind, Option.bind_eq_some_iff] at hrun
  obtain ⟨name, _, info, _, addr, _, filled, _, ⟨status, info', events⟩, hset, final, _, hpure⟩ := hrun
  obtain rfl := Option.some.inj hpure
  exact isSetAddr_of_setDeviceIp hset

theorem emits_doTextSetDeviceIp : Emits Event.IsSetAddr (some doTextSetDeviceIp) := by
  intro env st arg len r h
  have hrun : doTextSetDeviceIp env st arg len = some r := h
  simp only [doTextSetDeviceIp, Option.bind_eq_bind, Option.bind_eq_some_iff] at hrun
  obtain ⟨p0, _, info, _, p1, _, filled, _, ⟨status, info', events⟩, hset, hpure⟩ := hrun
  obtain rfl := Option.some.inj hpure
  exact isSetAddr_of_setDeviceIp hset

theorem emits_setSystemDate : Emits Event.IsSystem (some setSystemDate) := by
  intro env st arg len r h
  have hrun : setSystemDate env st arg len = some r := h
  simp only [setSystemDate, Option.bind_eq_bind, Option.bind_eq_some_iff] at hrun
  obtain ⟨b0, _, hrun⟩ := hrun
  by_cases hquery : b0 = 1
  · rw [if_neg (by simpa using hquery)] at hrun
    simp only [Option.bind_eq_some_iff] at hrun
    obtain ⟨year, _, mon, _, day, _, hour, _, min, _, sec, _, hrun⟩ := hrun
    split_ifs at hrun with hclock <;> obtain rfl := Option.some.inj hrun <;> simp [Event.IsSystem]
  · rw [if_pos hquery] at hrun
    obtain rfl := Option.some.inj hrun
    exact fun _ he => absurd he List.not_mem_nil

theorem emits_addSystemUser : Emits Event.IsSystem (some addSystemUser) := by
  intro env st arg len r h
  have hrun : addSystemUser env st arg len = some r := h
  simp only [addSystemUser, Option.bind_eq_bind, Option.bind_eq_some_iff] at hrun
  obtain ⟨b0, _, hrun⟩ := hrun
  by_cases hquery : b0 = 1
  · rw [if_neg (by simpa using hquery)] at hrun
    simp only [Option.bind_eq_some_iff] at hrun
    obtain ⟨n, _, p, _, name, _, userName, _, passwd, _, userPasswd, _, u, _, w, _, line, _, hrun⟩ := hrun
    obtain rfl := Option.some.inj hrun
    simp [Event.IsSystem]
  · rw [if_pos hquery] at hrun
    obtain rfl := Option.some.inj hrun
    exact fun _ he => absurd he List.not_mem_nil

/-- A handler that writes to no client. -/
def Quiet (handler : Option Handler) : Prop :=
  ∀ env st arg len r, callHandler handler env st arg len = some r → ∀ e ∈ r.events, writtenBy e = none

theorem Emits.quiet {kind : Event → Prop} {handler : Option Handler} (h : Emits kind handler)
    (hkind : ∀ e, kind e → writtenBy e = none) : Quiet handler :=
  fun env st arg len r hrun e he => hkind e (h env st arg len r hrun e he)

theorem writtenBy_of_isSystem : ∀ e : Event, e.IsSystem → writtenBy e = none := by
  rintro _ ⟨line, rfl⟩
  rfl

theorem writtenBy_of_isSetAddr : ∀ e : Event, e.IsSetAddr → writtenBy e = none := by
  rintro _ ⟨device, ip, rfl⟩
  rfl

theorem quiet_doCmd : ∀ entry ∈ cmdRegisterEnter, Quiet entry.doCmd := by
  apply forall_registered
  case help => exact emits_none.quiet fun _ => False.elim
  case reboot => exact emits_rebootSystem.quiet (by rintro _ rfl; rfl)
  case getIp => exact emits_doGetDeviceIp.quiet fun _ => False.elim
  case setIp => exact emits_doSetDeviceIp.quiet writtenBy_of_isSetAddr
  case previewOn => exact (emits_systemTwice _ _).quiet writtenBy_of_isSystem
  case previewOff => exact (emits_systemTwice _ _).quiet writtenBy_of_isSystem
  case setDate => exact emits_setSystemDate.quiet writtenBy_of_isSystem
  case addUser => exact emits_addSystemUser.quiet writtenBy_of_isSystem
  case sysInfo => exact emits_succeed.quiet fun _ => False.elim

theorem quiet_doTextCmd : ∀ entry ∈ cmdRegisterEnter, Quiet entry.doTextCmd := by
  apply forall_registered
  case help => exact emits_none.quiet fun _ => False.elim
  case reboot => exact emits_rebootSystem.quiet (by rintro _ rfl; rfl)
  case getIp => exact emits_doTextGetDeviceIp.quiet fun _ => False.elim
  case setIp => exact emits_doTextSetDeviceIp.quiet writtenBy_of_isSetAddr
  case previewOn => exact (emits_systemTwice _ _).quiet writtenBy_of_isSystem
  case previewOff => exact (emits_systemTwice _ _).quiet writtenBy_of_isSystem
  case setDate => exact emits_succeed.quiet fun _ => False.elim
  case addUser => exact emits_succeed.quiet fun _ => False.elim
  case sysInfo => exact emits_succeed.quiet fun _ => False.elim

/-! ### The answer to one command -/

/-- A line of `text_do_help`. -/
def usageLine (entry : CmdList) : Bytes :=
  entry.usage ++ ascii "\t\t" ++ entry.helpInfo ++ ascii "\n"

/-- A text answer: the number and the name of the request with a text behind them, or the number and an
error code. The text is what the reply buffer holds up to a zero, line feeds included. -/
inductive TextSent (cmd : StCmdFrame) : Bytes → Prop
  | done {name text : Bytes} (hname : cstr cmd.cmdName = some name) (htext : 0 ∉ text) :
      TextSent cmd (ascii "[" ++ decNat cmd.frameId.toNat ++ ascii "] " ++ name ++ ascii " " ++ text
        ++ ascii "  ...done.\n")
  | error {code : Int} (hneg : code < 0) :
      TextSent cmd (ascii "[" ++ decNat cmd.frameId.toNat ++ ascii "] ERROR [" ++ decInt code
        ++ ascii "]\n")

/-- What a client gets for a command: a binary one is answered by one response or not at all, a text one
by one text, in front of which `help` writes lines of the registry. -/
inductive Answers (cmd : StCmdFrame) : List Bytes → Prop
  | silent (hbinary : cmd.isBinary = true) : Answers cmd []
  | response (hbinary : cmd.isBinary = true) {response reply : Bytes} (hmem : response ∈ responses)
      (hread : readResponse response = some ⟨cmd.frameId, cmd.cmdId, cmd.deviceId.toUInt16, reply⟩) :
      Answers cmd [response]
  | text (htext : cmd.isBinary = false) {help : List Bytes} {sent : Bytes}
      (hhelp : help <+: cmdRegisterEnter.map usageLine)
      (hname : help ≠ [] → cstr cmd.cmdName = some (ascii "help")) (hsent : TextSent cmd sent) :
      Answers cmd (help ++ [sent])

theorem textDoHelpLoop_lines (env : Env) (fd : Int) : ∀ (cmds : List CmdList) (k : Nat)
    {events : List Event}, textDoHelpLoop env fd k cmds = some events →
      ∃ lines, lines <+: cmds.map usageLine ∧ events = lines.map (.opWrite fd) := by
  intro cmds
  induction cmds with
  | nil =>
      intro k events h
      obtain rfl := Option.some.inj h
      exact ⟨[], List.nil_prefix, rfl⟩
  | cons entry rest ih =>
      intro k events h
      simp only [textDoHelpLoop, Option.bind_eq_bind, Option.bind_eq_some_iff] at h
      obtain ⟨_, _, h⟩ := h
      split_ifs at h with hfails
      · obtain rfl := Option.some.inj h
        exact ⟨[usageLine entry], ⟨rest.map usageLine, rfl⟩, rfl⟩
      · obtain ⟨events', hrest, hpure⟩ := Option.bind_eq_some_iff.mp h
        obtain rfl := Option.some.inj hpure
        obtain ⟨lines, hprefix, rfl⟩ := ih (k + 1) hrest
        exact ⟨usageLine entry :: lines, List.cons_prefix_cons.mpr ⟨rfl, hprefix⟩, rfl⟩

theorem finishCmd_events {entry : CmdList} {r : HandlerResult} {reply : Reply} {out : CmdResult}
    (h : finishCmd entry r reply = some out) : out.events = r.events := by
  unfold finishCmd at h
  split_ifs at h with hstatus
  · obtain rfl := Option.some.inj h
    rfl
  · split at h
    · obtain rfl := Option.some.inj h
      rfl
    · simp only [Option.bind_eq_bind, Option.bind_eq_some_iff] at h
      obtain ⟨w, _, reply', _, hpure⟩ := h
      obtain rfl := Option.some.inj hpure
      rfl

/-- What the handler of a command writes. -/
theorem exists_dispatched (h : dispatch env s cmd = some out) :
    ∃ help, OnlyTo cmd.fd out.events help ∧ help <+: cmdRegisterEnter.map usageLine
      ∧ (help ≠ [] → cmd.isBinary = false ∧ cstr cmd.cmdName = some (ascii "help")) := by
  have hquiet : (∀ e ∈ out.events, writtenBy e = none) → ∃ help, OnlyTo cmd.fd out.events help
      ∧ help <+: cmdRegisterEnter.map usageLine
      ∧ (help ≠ [] → cmd.isBinary = false ∧ cstr cmd.cmdName = some (ascii "help")) :=
    fun hevents => ⟨[], onlyTo_quiet hevents, List.nil_prefix, absurd rfl⟩
  cases hselect : selectCmd cmdRegisterEnter cmd with
  | none =>
      rw [dispatch_unselected hselect] at h
      obtain rfl := Option.some.inj h
      exact hquiet fun _ he => absurd he List.not_mem_nil
  | some entry =>
      have hmem := (selectCmd_registered.mp hselect).1
      obtain ⟨r, hrun, hfinish⟩ := (dispatch_selected hselect).mp h
      rw [finishCmd_events hfinish] at hquiet ⊢
      by_cases hbinary : cmd.isBinary = true
      · rw [entryHandler, if_pos hbinary] at hrun
        exact hquiet (quiet_doCmd entry hmem env _ _ _ r hrun)
      · rw [entryHandler, if_neg hbinary, textHandler] at hrun
        split_ifs at hrun with hhelp
        · obtain ⟨lines, hloop, hpure⟩ := Option.bind_eq_some_iff.mp hrun
          obtain rfl := Option.some.inj hpure
          obtain ⟨help, hprefix, rfl⟩ := textDoHelpLoop_lines env cmd.fd _ 0 hloop
          exact ⟨help, onlyTo_map cmd.fd help, hprefix, fun _ =>
            ⟨Bool.eq_false_of_not_eq_true hbinary, (strcmpEq_iff (by decide)).mp hhelp⟩⟩
        · exact hquiet (quiet_doTextCmd entry hmem env _ _ _ r hrun)

theorem textSent_doTextResponse {reply sent : Bytes} {len : Int}
    (h : doTextResponse cmd reply len = some sent) : TextSent cmd sent := by
  simp only [doTextResponse, Option.bind_eq_bind, Option.bind_eq_some_iff] at h
  obtain ⟨name, hname, text, htext, _, _, hpure⟩ := h
  obtain rfl := Option.some.inj hpure
  exact .done hname (zero_notMem_of_cstr htext)

theorem textSent_doTextResponseError {sent : Bytes} {code : Int} (hneg : code < 0)
    (h : doTextResponseError cmd code = some sent) : TextSent cmd sent := by
  simp only [doTextResponseError, Option.bind_eq_bind, Option.bind_eq_some_iff] at h
  obtain ⟨_, _, hpure⟩ := h
  obtain rfl := Option.some.inj hpure
  exact .error hneg

theorem answers_of_answerBytes {reply : Reply} {ret : Int} {sent : Option Bytes}
    (h : answerBytes env cmd reply (chooseAnswer cmd ret) = some sent) {help : List Bytes}
    (hhelp : help <+: cmdRegisterEnter.map usageLine)
    (hname : help ≠ [] → cmd.isBinary = false ∧ cstr cmd.cmdName = some (ascii "help")) :
    Answers cmd (help ++ sent.toList) := by
  cases hbinary : cmd.isBinary with
  | true =>
      obtain rfl : help = [] := by
        by_contra hne
        exact absurd (hname hne).1 (by simp [hbinary])
      rw [chooseAnswer, if_pos hbinary] at h
      split_ifs at h with hneg hpos
      · obtain rfl := Option.some.inj h
        exact .silent hbinary
      · simp only [answerBytes] at h
        split_ifs at h with hmalloc
        · obtain rfl := Option.some.inj h
          exact .silent hbinary
        · obtain ⟨response, hresponse, rfl⟩ := Option.map_eq_some_iff.mp h
          have hlen := (doResponse_eq_some_iff.mp hresponse).1
          rw [reply.size_eq] at hlen
          exact .response hbinary ⟨cmd, reply.bytes, ret.toNat, hlen, hresponse⟩
            (readResponse_response hresponse hlen)
      · obtain rfl := Option.some.inj h
        exact .silent hbinary
  | false =>
      rw [chooseAnswer, if_neg (by simp [hbinary])] at h
      split_ifs at h with hneg
      · obtain ⟨line, hline, rfl⟩ := Option.map_eq_some_iff.mp h
        exact .text hbinary hhelp (fun hne => (hname hne).2) (textSent_doTextResponseError hneg hline)
      · obtain ⟨line, hline, rfl⟩ := Option.map_eq_some_iff.mp h
        exact .text hbinary hhelp (fun hne => (hname hne).2) (textSent_doTextResponse hline)

/-- The thread answers the client that the command came from, and writes to nobody else. -/
theorem answers_of_getCmd (h : getCmd env s cmd = some (s', events)) :
    ∃ bufs, Answers cmd bufs ∧ OnlyTo cmd.fd events bufs := by
  simp only [getCmd, Option.bind_eq_bind, Option.bind_eq_some_iff] at h
  obtain ⟨out, hdispatch, sent, hsent, hpure⟩ := h
  obtain ⟨help, hevents, hprefix, hname⟩ := exists_dispatched hdispatch
  obtain ⟨_, rfl⟩ := Prod.mk.inj (Option.some.inj hpure)
  refine ⟨help ++ sent.toList, answers_of_answerBytes hsent hprefix hname, hevents.append ?_⟩
  cases sent with
  | none => exact onlyTo_quiet fun _ he => absurd he List.not_mem_nil
  | some buf => exact onlyTo_map cmd.fd [buf]

/-! ### A list of commands -/

theorem runCommands_concat {cmds : List (Env × StCmdFrame)} {t : CmdThread}
    (h : runCommands s cmds = some (t, events)) (hnext : getCmd env t cmd = some (s', more)) :
    runCommands s (cmds ++ [(env, cmd)]) = some (s', events ++ more) := by
  induction cmds generalizing s events with
  | nil =>
      obtain ⟨rfl, rfl⟩ := Prod.mk.inj (Option.some.inj h)
      simp [runCommands, hnext]
  | cons first rest ih =>
      simp only [runCommands, Option.bind_eq_bind, Option.bind_eq_some_iff] at h
      obtain ⟨⟨middle, written⟩, hfirst, ⟨last, rewritten⟩, hrest, hpure⟩ := h
      obtain ⟨rfl, rfl⟩ := Prod.mk.inj (Option.some.inj hpure)
      have hbehind := ih hrest
      simp only [List.cons_append, runCommands, hfirst, hbehind, Option.bind_eq_bind, Option.bind_some,
        Option.pure_def, List.append_assoc]

/-- The commands of one client. -/
def ofClient (fd : Int) (cmds : List StCmdFrame) : List StCmdFrame := cmds.filter fun cmd => cmd.fd = fd

theorem ofClient_cons (fd : Int) (cmd : StCmdFrame) (cmds : List StCmdFrame) :
    ofClient fd (cmd :: cmds) = if cmd.fd = fd then cmd :: ofClient fd cmds else ofClient fd cmds := by
  simp only [ofClient, List.filter_cons, decide_eq_true_eq]

theorem ofClient_append (fd : Int) (cmds others : List StCmdFrame) :
    ofClient fd (cmds ++ others) = ofClient fd cmds ++ ofClient fd others := List.filter_append ..

theorem runCommands_answers {cmds : List (Env × StCmdFrame)}
    (h : runCommands s cmds = some (s', events)) (fd : Int) :
    ∃ groups, List.Forall₂ Answers (ofClient fd (cmds.map Prod.snd)) groups
      ∧ writesTo fd events = groups.flatten := by
  induction cmds generalizing s events with
  | nil =>
      obtain ⟨rfl, rfl⟩ := Prod.mk.inj (Option.some.inj h)
      exact ⟨[], List.Forall₂.nil, rfl⟩
  | cons first rest ih =>
      obtain ⟨env, cmd⟩ := first
      simp only [runCommands, Option.bind_eq_bind, Option.bind_eq_some_iff] at h
      obtain ⟨⟨middle, written⟩, hfirst, ⟨last, rewritten⟩, hrest, hpure⟩ := h
      obtain ⟨rfl, rfl⟩ := Prod.mk.inj (Option.some.inj hpure)
      obtain ⟨bufs, hanswers, honly⟩ := answers_of_getCmd hfirst
      obtain ⟨groups, hall, hflat⟩ := ih hrest
      by_cases hfd : cmd.fd = fd
      · refine ⟨bufs :: groups, ?_, ?_⟩
        · rw [List.map_cons, ofClient_cons, if_pos hfd]
          exact List.Forall₂.cons hanswers hall
        · rw [writesTo_append, honly fd, if_pos hfd.symm, hflat, List.flatten_cons]
      · refine ⟨groups, ?_, ?_⟩
        · rw [List.map_cons, ofClient_cons, if_neg hfd]
          exact hall
        · rw [writesTo_append, honly fd, if_neg fun heq => hfd heq.symm, hflat, List.nil_append]

/-! ### Runs -/

namespace Pipeline

variable {p p' : Pipeline} {reply : Reply}

/-- The queue holds what was accepted and is not executed yet; the reply buffer began as `reply`. -/
structure InOrder (reply : Reply) (p : Pipeline) (held : List StCmdFrame) : Prop where
  holds : p.queue.Holds held
  accepted_eq : p.accepted = p.executed.map Prod.snd ++ held
  executed_eq : runCommands (CmdThread.initial reply) p.executed = some (p.thread, p.events)

theorem inOrder_start (reply : Reply) : (start reply).InOrder reply [] :=
  ⟨CircleQueue.holds_zeroed _, rfl, rfl⟩

/-- What a push does: the command goes behind the others, or it is dropped when 99 are held. -/
theorem push_cases {held : List StCmdFrame} (h : p.queue.Holds held) (cmd : StCmdFrame) :
    (held.length = CircleQueue.capacity ∧ p.push cmd = p)
      ∨ (held.length ≠ CircleQueue.capacity ∧ ∃ queue : CircleQueue StCmdFrame,
        queue.Holds (held ++ [cmd])
          ∧ p.push cmd = { p with queue, accepted := p.accepted ++ [cmd] }) := by
  obtain ⟨hcode, hholds⟩ := h.push cmd
  simp only [CircleQueue.call, BoundedFifo.push] at hcode hholds
  split_ifs at hcode hholds with hfull
  · have hret : (p.queue.pushCmdQueue cmd).1 = -1 := congrArg BoundedFifo.Answer.code hcode
    exact Or.inl ⟨hfull, by simp [push, hret]⟩
  · have hret : (p.queue.pushCmdQueue cmd).1 = 0 := congrArg BoundedFifo.Answer.code hcode
    exact Or.inr ⟨hfull, _, hholds, by simp [push, hret]⟩

/-- What a turn of the thread does. -/
theorem serve_cases {held : List StCmdFrame} (h : p.queue.Holds held) (hstep : p.serve env = some p') :
    (held = [] ∧ p' = p)
      ∨ ∃ cmd rest queue thread events, held = cmd :: rest ∧ CircleQueue.Holds queue rest
        ∧ getCmd env p.thread cmd = some (thread, events)
        ∧ p' = { p with
            queue
            thread
            executed := p.executed ++ [(env, cmd)]
            events := p.events ++ events } := by
  unfold serve at hstep
  cases hempty : p.queue.isQueueEmpty with
  | true =>
      rw [CircleQueue.popElement_empty hempty] at hstep
      exact Or.inl ⟨h.isQueueEmpty_iff.mp hempty, (Option.some.inj hstep).symm⟩
  | false =>
      have hcons := CircleQueue.contents_pop h.toWellFormed hempty
      rw [h.contents_eq] at hcons
      rw [CircleQueue.popElement_notEmpty hempty] at hstep
      obtain ⟨⟨thread, events⟩, hget, rfl⟩ := Option.map_eq_some_iff.mp hstep
      exact Or.inr ⟨_, _, _, thread, events, hcons, ⟨h.toWellFormed.pop, rfl⟩, hget, rfl⟩

theorem getCmd_isSome {cmd : StCmdFrame} {rest : List StCmdFrame} (h : p.queue.Holds (cmd :: rest))
    (hsome : (getCmd env p.thread cmd).isSome = true) : (p.step (.getCmd env)).isSome = true := by
  have hempty : p.queue.isQueueEmpty = false := by
    rw [Bool.eq_false_iff, Ne, h.isQueueEmpty_iff]
    exact List.cons_ne_nil cmd rest
  have hcons := CircleQueue.contents_pop h.toWellFormed hempty
  rw [h.contents_eq] at hcons
  obtain ⟨hhead, _⟩ := List.cons.inj hcons
  rw [step, serve, CircleQueue.popElement_notEmpty hempty]
  simpa [← hhead] using hsome

/-- On an empty queue a command that is parsed can be the next one to be executed. -/
theorem exists_served (h : p.queue.Holds []) {tmpStr : Block 128} {residue : StCmdFrame} {chunk : Bytes}
    (hhandle : handle tmpStr residue fd chunk = some (some cmd)) {thread : CmdThread}
    (hget : getCmd env p.thread cmd = some (thread, events)) :
    ∃ p', Reaches step anyAction p p' ∧ p'.queue.Holds [] ∧ p'.thread = thread := by
  let read : Pipeline := { p with reads := p.reads ++ [(fd, chunk)] }
  have hread : p.step (.handle tmpStr residue fd chunk) = some (read.push cmd) := by
    rw [step, receive, hhandle]
    rfl
  obtain ⟨hfull, _⟩ | ⟨_, queue, hholds, hpushed⟩ := push_cases (p := read) h cmd
  · exact absurd hfull (by decide)
  rw [List.nil_append] at hholds
  have hqueued : (read.push cmd).queue.Holds [cmd] := by
    rw [hpushed]
    exact hholds
  have hthread : (read.push cmd).thread = p.thread := by rw [hpushed]
  rw [← hthread] at hget
  have hsome : (getCmd env (read.push cmd).thread cmd).isSome = true := by
    rw [hget]
    rfl
  obtain ⟨p', hserve⟩ := Option.isSome_iff_exists.mp (getCmd_isSome hqueued hsome)
  have hreach : Reaches step anyAction p p' := ((Reaches.refl p).tail trivial hread).tail trivial hserve
  obtain ⟨hnil, _⟩ | ⟨cmd', rest, queue', thread', events', hcons, hholds', hget', rfl⟩ :=
    serve_cases hqueued hserve
  · cases hnil
  · obtain ⟨rfl, rfl⟩ := List.cons.inj hcons
    obtain ⟨rfl, _⟩ := Prod.mk.inj (Option.some.inj (hget'.symm.trans hget))
    exact ⟨_, hreach, hholds', rfl⟩

theorem InOrder.push {held : List StCmdFrame} (h : p.InOrder reply held) (cmd : StCmdFrame) :
    ∃ held, (p.push cmd).InOrder reply held := by
  rcases push_cases h.holds cmd with ⟨_, hsame⟩ | ⟨_, queue, hholds, hpushed⟩
  · refine ⟨held, ?_⟩
    rw [hsame]
    exact h
  · refine ⟨held ++ [cmd], ?_⟩
    rw [hpushed]
    refine ⟨hholds, ?_, h.executed_eq⟩
    rw [h.accepted_eq, List.append_assoc]

theorem InOrder.step {held : List StCmdFrame} (h : p.InOrder reply held) {a : PipelineAction}
    (hstep : p.step a = some p') : ∃ held, p'.InOrder reply held := by
  cases a with
  | handle tmpStr residue fd chunk =>
      obtain ⟨command, _, rfl⟩ := Option.map_eq_some_iff.mp hstep
      have hread : InOrder reply { p with reads := p.reads ++ [(fd, chunk)] } held :=
        ⟨h.holds, h.accepted_eq, h.executed_eq⟩
      cases command with
      | none => exact ⟨held, hread⟩
      | some cmd => exact hread.push cmd
  | getCmd env =>
      rcases serve_cases h.holds hstep with ⟨_, rfl⟩ | ⟨cmd, rest, queue, thread, events, rfl, hholds,
        hget, rfl⟩
      · exact ⟨held, h⟩
      · refine ⟨rest, hholds, ?_, runCommands_concat h.executed_eq hget⟩
        simp [h.accepted_eq]

theorem inOrder_of_reaches (h : Reaches step anyAction (start reply) p) :
    ∃ held, p.InOrder reply held :=
  h.invariant (I := fun p => ∃ held, p.InOrder reply held)
    (fun _ _ _ ⟨_, hI⟩ _ hstep => hI.step hstep) ⟨[], inOrder_start reply⟩

/-- **Commands in order.** Whatever the turns of the threads are, the state of the command thread and
all it has done come from executing the oldest accepted commands one after the other; the others wait in
the queue, at most 99 of them. -/
theorem executes_inOrder (h : Reaches step anyAction (start reply) p) :
    runCommands (CmdThread.initial reply) p.executed = some (p.thread, p.events)
      ∧ ∃ held, p.accepted = p.executed.map Prod.snd ++ held ∧ p.queue.contents = held
        ∧ held.length ≤ 99 := by
  obtain ⟨held, hinOrder⟩ := inOrder_of_reaches h
  exact ⟨hinOrder.executed_eq, held, hinOrder.accepted_eq, hinOrder.holds.contents_eq,
    hinOrder.holds.answersAs.length_le⟩

/-- Client 5 asks for the date in a frame, client 6 for the system information in a line. -/
def askTwo : List PipelineAction :=
  [.handle (Block.zeroed 128) StCmdFrame.zeroed 5 (slFrame 7 0x0101 0 0 []),
    .handle (Block.zeroed 128) StCmdFrame.zeroed 6 (ascii "[1] sys_info"),
    .getCmd Env.succeeding, .getCmd Env.succeeding]

theorem executes_inOrder_askTwo :
    ∃ p, exec step (start (Block.zeroed 512)) askTwo = some p ∧ p.executed.length = 2
      ∧ runCommands CmdThread.zeroed p.executed = some (p.thread, p.events) := by
  have hask : (exec step (start (Block.zeroed 512)) askTwo).map (·.executed.length) = some 2 := by
    decide +kernel
  obtain ⟨p, hexec, hp⟩ := Option.map_eq_some_iff.mp hask
  exact ⟨p, hexec, hp, (executes_inOrder (reaches_of_exec hexec)).1⟩

/-- **Answers in order.** What has been written to a client is one answer after the other to its accepted
commands, the oldest first, each to that command and each once. -/
theorem answers_inOrder (h : Reaches step anyAction (start reply) p) (fd : Int) :
    ∃ answered waiting groups, ofClient fd p.accepted = answered ++ waiting
      ∧ List.Forall₂ Answers answered groups ∧ writesTo fd p.events = groups.flatten := by
  obtain ⟨held, hinOrder⟩ := inOrder_of_reaches h
  obtain ⟨groups, hall, hflat⟩ := runCommands_answers hinOrder.executed_eq fd
  exact ⟨_, ofClient fd held, groups, by rw [hinOrder.accepted_eq, ofClient_append], hall, hflat⟩

theorem answers_inOrder_askTwo :
    ∃ p, exec step (start (Block.zeroed 512)) askTwo = some p ∧ (writesTo 6 p.events).length = 1
      ∧ ∃ answered waiting groups, ofClient 6 p.accepted = answered ++ waiting
        ∧ List.Forall₂ Answers answered groups ∧ writesTo 6 p.events = groups.flatten := by
  have hask : (exec step (start (Block.zeroed 512)) askTwo).map
      (fun p => (writesTo 6 p.events).length) = some 1 := by
    decide +kernel
  obtain ⟨p, hexec, hp⟩ := Option.map_eq_some_iff.mp hask
  exact ⟨p, hexec, hp, answers_inOrder (reaches_of_exec hexec) 6⟩

end Pipeline

/-! ### A client of the binary protocols -/

/-- A read that begins as the frames of HT and SL do, with a command id that is not 0 where they have
it. The frame itself may be broken. -/
def BinaryRead (chunk : Bytes) : Prop :=
  ((readLine chunk)[0]? = some 0x48 ∨ (readLine chunk)[0]? = some 0x22)
    ∧ readBe16 (readLine chunk) 6 ≠ some 0

instance (chunk : Bytes) : Decidable (BinaryRead chunk) :=
  inferInstanceAs (Decidable (((readLine chunk)[0]? = some 0x48 ∨ (readLine chunk)[0]? = some 0x22)
    ∧ readBe16 (readLine chunk) 6 ≠ some 0))

/-- The frame number and the command id of a request. -/
def requestIds (chunk : Bytes) : Option (UInt16 × UInt16) := do
  let frameId ← readBe16 (readLine chunk) 4
  let cmdId ← readBe16 (readLine chunk) 6
  pure (frameId, cmdId)

def sentIds (fd : Int) (reads : List (Int × Bytes)) : List (UInt16 × UInt16) :=
  reads.filterMap fun r => if r.1 = fd then requestIds r.2 else none

def StCmdFrame.ids (cmd : StCmdFrame) : UInt16 × UInt16 := (cmd.frameId, cmd.cmdId)

def ReadResponse.ids (r : ReadResponse) : UInt16 × UInt16 := (r.frameId, r.cmdId)

theorem doProtocolHandle_accepts {tmpStr : Block 128} {buf : Bytes} {protocol : ProtocolSet} :
    ∀ {supported : List ProtocolSet}, doProtocolHandle tmpStr supported buf = some (some protocol) →
      protocol.checkData tmpStr buf = some 0 := by
  intro supported
  induction supported with
  | nil => intro h; simp [doProtocolHandle] at h
  | cons first rest ih =>
      intro h
      obtain ⟨ret, hcheck, hret⟩ := Option.bind_eq_some_iff.mp h
      split_ifs at hret with hzero
      · obtain rfl : first = protocol := by simpa using hret
        rw [hcheck, hzero]
      · exact ih hret

/-- What is pushed for such a read has its numbers. -/
theorem handle_ids {tmpStr : Block 128} {residue c : StCmdFrame} {chunk : Bytes}
    (hbinary : BinaryRead chunk) (h : handle tmpStr residue fd chunk = some (some c)) :
    requestIds chunk = some c.ids ∧ c.isBinary = true := by
  obtain ⟨hmagic, hid⟩ := hbinary
  have hread : readBe16 (readLine chunk) 4 = some c.frameId
      ∧ readBe16 (readLine chunk) 6 = some c.cmdId := by
    obtain ⟨selected, hselected, hparse⟩ := Option.bind_eq_some_iff.mp h
    cases selected with
    | none => simp at hparse
    | some protocol =>
        obtain ⟨pushed, hpushed, heq⟩ := Option.map_eq_some_iff.mp hparse
        obtain rfl : pushed = c := by simpa using heq
        have hmem := doProtocolHandle_mem hselected
        have haccepts := doProtocolHandle_accepts hselected
        simp only [protocolSupported, registerProtocol, List.nil_append, List.cons_append,
          List.mem_cons, List.not_mem_nil, or_false] at hmem
        rcases hmem with rfl | rfl | rfl
        · have hparsed := htParse_eq_some_iff.mp hpushed
          exact ⟨hparsed.frameId_read, hparsed.cmdId_read⟩
        · obtain ⟨_, _, _, _, _, _, _, _, hparsed⟩ := slParse_eq_some_iff.mp hpushed
          exact ⟨hparsed.frameId_read, hparsed.cmdId_read⟩
        · refine absurd haccepts ?_
          rcases hmagic with hhead | hhead
          · exact not_textCheckData hhead (by decide) (by decide) (by decide)
          · exact not_textCheckData hhead (by decide) (by decide) (by decide)
  obtain ⟨hframe, hcmd⟩ := hread
  refine ⟨by simp [requestIds, hframe, hcmd, StCmdFrame.ids], ?_⟩
  have hne : c.cmdId ≠ 0 := fun hzero => hid (hcmd.trans (congrArg some hzero))
  simpa [StCmdFrame.isBinary] using hne

theorem sentIds_concat (fd fd' : Int) (reads : List (Int × Bytes)) (chunk : Bytes) :
    sentIds fd (reads ++ [(fd', chunk)])
      = sentIds fd reads ++ if fd' = fd then (requestIds chunk).toList else [] := by
  rw [sentIds, List.filterMap_append, ← sentIds]
  congr 1
  by_cases hfd : fd' = fd
  · cases hids : requestIds chunk <;> simp [hfd, hids]
  · simp [hfd]

/-- The responses in answers to binary commands. -/
theorem exists_responses {cmds : List StCmdFrame} {groups : List (List Bytes)}
    (h : List.Forall₂ Answers cmds groups) (hbinary : ∀ cmd ∈ cmds, cmd.isBinary = true) :
    (∀ buf ∈ groups.flatten, buf ∈ responses)
      ∧ ∃ rs, groups.flatten.mapM readResponse = some rs
        ∧ (rs.map ReadResponse.ids).Sublist (cmds.map StCmdFrame.ids) := by
  induction h with
  | nil => exact ⟨fun _ hbuf => absurd hbuf List.not_mem_nil, [], rfl, List.Sublist.refl _⟩
  | @cons cmd bufs cmds groups hfirst _ ih =>
      obtain ⟨hmem, rs, hrs, hsub⟩ := ih fun c hc => hbinary c (List.mem_cons_of_mem cmd hc)
      have hbin := hbinary cmd List.mem_cons_self
      cases hfirst with
      | silent => exact ⟨hmem, rs, hrs, hsub.cons _⟩
      | @response _ response reply hresponse hread =>
          refine ⟨fun buf hbuf => ?_, ⟨cmd.frameId, cmd.cmdId, cmd.deviceId.toUInt16, reply⟩ :: rs,
            by simp [hread, hrs], hsub.cons_cons cmd.ids⟩
          rcases List.mem_cons.mp hbuf with rfl | htail
          · exact hresponse
          · exact hmem buf htail
      | text htext =>
          rw [hbin] at htext
          cases htext

namespace Pipeline

/-- The client `fd` sends nothing but such reads. -/
def SendsBinary (fd : Int) (_ : Pipeline) : PipelineAction → Prop
  | .handle _ _ fd' chunk => fd' = fd → BinaryRead chunk
  | .getCmd _ => True

instance (fd : Int) : ∀ (p : Pipeline) (a : PipelineAction), Decidable (SendsBinary fd p a)
  | _, .handle _ _ fd' chunk => inferInstanceAs (Decidable (fd' = fd → BinaryRead chunk))
  | _, .getCmd _ => isTrue trivial

/-- The accepted commands of the client are among those it has sent. -/
structure Requested (fd : Int) (p : Pipeline) : Prop where
  binary : ∀ cmd ∈ ofClient fd p.accepted, cmd.isBinary = true
  ids : ((ofClient fd p.accepted).map StCmdFrame.ids).Sublist (sentIds fd p.reads)

theorem requested_iff : Requested fd p ↔ (∀ cmd ∈ ofClient fd p.accepted, cmd.isBinary = true)
    ∧ ((ofClient fd p.accepted).map StCmdFrame.ids).Sublist (sentIds fd p.reads) :=
  ⟨fun h => ⟨h.binary, h.ids⟩, fun h => ⟨h.1, h.2⟩⟩

theorem requested_start (fd : Int) (reply : Reply) : Requested fd (start reply) :=
  ⟨fun _ hmem => absurd hmem List.not_mem_nil, List.Sublist.refl _⟩

theorem push_accepted (p : Pipeline) (cmd : StCmdFrame) :
    (p.push cmd).reads = p.reads
      ∧ ((p.push cmd).accepted = p.accepted ∨ (p.push cmd).accepted = p.accepted ++ [cmd]) := by
  simp only [push]
  split_ifs
  · exact ⟨rfl, Or.inr rfl⟩
  · exact ⟨rfl, Or.inl rfl⟩

theorem Requested.congr (h : Requested fd p) (haccepted : p'.accepted = p.accepted)
    (hreads : (sentIds fd p.reads).Sublist (sentIds fd p'.reads)) : Requested fd p' := by
  refine ⟨?_, ?_⟩
  · rw [haccepted]
    exact h.binary
  · rw [haccepted]
    exact h.ids.trans hreads

theorem Requested.receive (h : Requested fd p) {tmpStr : Block 128} {residue c : StCmdFrame} {fd' : Int}
    {chunk : Bytes} (hok : fd' = fd → BinaryRead chunk)
    (hhandle : handle tmpStr residue fd' chunk = some (some c))
    (haccepted : p'.accepted = p.accepted ++ [c]) (hreads : p'.reads = p.reads ++ [(fd', chunk)]) :
    Requested fd p' := by
  have hfd : c.fd = fd' := handle_fd hhandle
  rw [requested_iff, haccepted, hreads, sentIds_concat, ofClient_append, ofClient_cons, hfd]
  by_cases hsame : fd' = fd
  · obtain ⟨hids, hbinary⟩ := handle_ids (hok hsame) hhandle
    rw [if_pos hsame, if_pos hsame, hids, List.map_append]
    refine ⟨fun cmd hcmd => ?_, h.ids.append (List.Sublist.refl _)⟩
    rcases List.mem_append.mp hcmd with hold | hnew
    · exact h.binary cmd hold
    · obtain rfl := List.eq_of_mem_singleton hnew
      exact hbinary
  · rw [if_neg hsame, if_neg hsame, List.append_nil]
    exact ⟨fun cmd hcmd => h.binary cmd (by simpa [ofClient] using hcmd), by simpa [ofClient] using h.ids⟩

theorem Requested.step (h : Requested fd p) {a : PipelineAction} (hok : SendsBinary fd p a)
    (hstep : p.step a = some p') : Requested fd p' := by
  cases a with
  | getCmd env =>
      simp only [Pipeline.step, serve] at hstep
      split at hstep
      · obtain rfl := Option.some.inj hstep
        exact h
      · obtain ⟨_, _, rfl⟩ := Option.map_eq_some_iff.mp hstep
        exact h.congr rfl (List.Sublist.refl _)
  | handle tmpStr residue fd' chunk =>
      obtain ⟨command, hhandle, rfl⟩ := Option.map_eq_some_iff.mp hstep
      have hmore : (sentIds fd p.reads).Sublist (sentIds fd (p.reads ++ [(fd', chunk)])) := by
        rw [sentIds_concat]
        exact List.sublist_append_left _ _
      cases command with
      | none => exact h.congr rfl hmore
      | some cmd =>
          obtain ⟨hreads, hsame | hpushed⟩ :=
            push_accepted { p with reads := p.reads ++ [(fd', chunk)] } cmd
          · exact h.congr hsame (hreads ▸ hmore)
          · exact h.receive hok hhandle hpushed hreads

/-- **No response without its request.** In every run in which a client sends only reads that begin as
binary frames do, whole or broken, everything it gets is a sequence of response frames, which has one
reading; the numbers read in them are those of its own requests, in the order of the requests and none
twice. -/
theorem responses_requested {fd : Int} (h : Reaches step (SendsBinary fd) (start reply) p) :
    (∀ buf ∈ writesTo fd p.events, buf ∈ responses)
      ∧ ∃ rs, (writesTo fd p.events).mapM readResponse = some rs
        ∧ (rs.map ReadResponse.ids).Sublist (sentIds fd p.reads) := by
  have hrequested : Requested fd p :=
    h.invariant (fun _ _ _ hI hok hstep => hI.step hok hstep) (requested_start fd reply)
  obtain ⟨held, hinOrder⟩ := inOrder_of_reaches h.any
  obtain ⟨groups, hall, hflat⟩ := runCommands_answers hinOrder.executed_eq fd
  have haccepted : ofClient fd p.accepted
      = ofClient fd (p.executed.map Prod.snd) ++ ofClient fd held := by
    rw [hinOrder.accepted_eq, ofClient_append]
  obtain ⟨hmem, rs, hrs, hsub⟩ := exists_responses hall fun cmd hcmd =>
    hrequested.binary cmd (haccepted ▸ List.mem_append_left _ hcmd)
  rw [hflat]
  refine ⟨hmem, rs, hrs, (hsub.trans ?_).trans hrequested.ids⟩
  rw [haccepted, List.map_append]
  exact List.sublist_append_left _ _

theorem responses_requested_askTwo :
    ∃ p, exec step (start (Block.zeroed 512)) askTwo = some p ∧ sentIds 5 p.reads = [(7, 0x0101)]
      ∧ ∃ rs, (writesTo 5 p.events).mapM readResponse = some rs ∧ rs.length = 1
        ∧ (rs.map ReadResponse.ids).Sublist [(7, 0x0101)] := by
  have hask : (exec step (start (Block.zeroed 512)) askTwo).map (fun p =>
      (sentIds 5 p.reads, ((writesTo 5 p.events).mapM readResponse).map List.length))
        = some ([(7, 0x0101)], some 1) := by decide +kernel
  obtain ⟨p, hexec, hp⟩ := Option.map_eq_some_iff.mp hask
  simp only [Prod.mk.injEq] at hp
  obtain ⟨hsent, hlength⟩ := hp
  have hallowed : Allowed step (SendsBinary 5) (start (Block.zeroed 512)) askTwo := by decide +kernel
  obtain ⟨_, rs, hrs, hsub⟩ := responses_requested (reaches_of_allowed hallowed hexec)
  rw [hrs] at hlength
  exact ⟨p, hexec, hsent, rs, hrs, Option.some.inj hlength, hsent ▸ hsub⟩

end Pipeline

end InstructionParser
