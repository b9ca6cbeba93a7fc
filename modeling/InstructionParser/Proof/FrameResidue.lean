import InstructionParser.Proof.Codec
import InstructionParser.Proof.Handlers
import InstructionParser.Proof.Response

/-!
# What a binary parser leaves of its local frame

`ht_parse` and `sl_parse` fill a local frame that nothing initialises. The name is written only when
the table knows the id, and HT never writes the device id that every response carries. Where both are
written, or the second is not needed, the frame decides what is executed and what is sent; everywhere
else two leftovers tell themselves apart.
-/

namespace InstructionParser

open CLib

/-- Two frames execute alike: the same handler or none, on the same payload, and the same bytes are
sent when the dispatch returns the same value and leaves the same reply. -/
structure SameRun (c₁ c₂ : StCmdFrame) : Prop where
  entry_eq : selectCmd cmdRegisterEnter c₁ = selectCmd cmdRegisterEnter c₂
  payload_eq : c₁.payload = c₂.payload
  sent_eq : ∀ env s₁ s₂ out₁ out₂, dispatch env s₁ c₁ = some out₁ → dispatch env s₂ c₂ = some out₂ →
    out₁.ret = out₂.ret → out₁.reply = out₂.reply →
    answerBytes env c₁ out₁.reply (chooseAnswer c₁ out₁.ret)
      = answerBytes env c₂ out₂.reply (chooseAnswer c₂ out₂.ret)

/-- What the parser of a protocol pushes for `buf` executes alike whatever its local frame held, and
runs no handler when the table does not know the id. -/
structure DependsOnFrameOnly (protocol : ProtocolSet) (cmdList : List (UInt16 × Bytes))
    (buf : Bytes) : Prop where
  same_run : ∀ fd residue₁ residue₂, ∃ c₁ c₂, protocol.parse fd residue₁ buf = some c₁
    ∧ protocol.parse fd residue₂ buf = some c₂ ∧ SameRun c₁ c₂
  unknown : ∀ fd residue c, protocol.parse fd residue buf = some c →
    getCmdName cmdList c.cmdId = none → selectCmd cmdRegisterEnter c = none

/-- The commands of the HT table that may be answered. -/
def answeringNames : List Bytes :=
  [ascii "sys_info", ascii "set_date", ascii "get_ip", ascii "preview_on", ascii "preview_off"]

variable {cmdList : List (UInt16 × Bytes)} {headerLen : UInt16} {deviceId : UInt32} {fd : Int}
  {cmd c c₁ c₂ : StCmdFrame} {buf : Bytes}

/-! ### What two frames parsed from one buffer share -/

variable {device₁ device₂ : UInt32} {cmd₁ cmd₂ : StCmdFrame}

namespace Parsed

theorem same_cmdId (h₁ : Parsed cmdList headerLen device₁ fd cmd₁ buf c₁)
    (h₂ : Parsed cmdList headerLen device₂ fd cmd₂ buf c₂) : c₁.cmdId = c₂.cmdId :=
  Option.some.inj (h₁.cmdId_read.symm.trans h₂.cmdId_read)

theorem same_frameId (h₁ : Parsed cmdList headerLen device₁ fd cmd₁ buf c₁)
    (h₂ : Parsed cmdList headerLen device₂ fd cmd₂ buf c₂) : c₁.frameId = c₂.frameId :=
  Option.some.inj (h₁.frameId_read.symm.trans h₂.frameId_read)

theorem same_cmdLen (h₁ : Parsed cmdList headerLen device₁ fd cmd₁ buf c₁)
    (h₂ : Parsed cmdList headerLen device₂ fd cmd₂ buf c₂) : c₁.cmdLen = c₂.cmdLen := by
  rw [h₁.cmdLen_eq, h₂.cmdLen_eq, Option.some.inj (h₁.len_read.symm.trans h₂.len_read)]

theorem same_arrays (h₁ : Parsed cmdList headerLen device₁ fd cmd₁ buf c₁)
    (h₂ : Parsed cmdList headerLen device₂ fd cmd₂ buf c₂) (harrays : cmd₁.arrays = cmd₂.arrays) :
    c₁.arrays = c₂.arrays := by
  obtain ⟨src₁, hsrc₁, _, hbytes₁⟩ := h₁.payload_read
  obtain ⟨src₂, hsrc₂, _, hbytes₂⟩ := h₂.payload_read
  rw [h₁.same_cmdLen h₂, hsrc₂] at hsrc₁
  obtain rfl := Option.some.inj hsrc₁
  ext1
  rw [hbytes₁, hbytes₂, h₁.same_cmdId h₂, harrays]

theorem same_payload (htable : ProperTable cmdList)
    (h₁ : Parsed cmdList headerLen device₁ fd cmd₁ buf c₁)
    (h₂ : Parsed cmdList headerLen device₂ fd cmd₂ buf c₂) : c₁.payload = c₂.payload := by
  have hread := h₁.payload_eq htable
  rw [h₁.same_cmdLen h₂] at hread
  exact Option.some.inj (hread.symm.trans (h₂.payload_eq htable))

theorem same_entry (htable : ProperTable cmdList) {name : Bytes}
    (hname : getCmdName cmdList c₁.cmdId = some name)
    (h₁ : Parsed cmdList headerLen device₁ fd cmd₁ buf c₁)
    (h₂ : Parsed cmdList headerLen device₂ fd cmd₂ buf c₂) :
    selectCmd cmdRegisterEnter c₁ = selectCmd cmdRegisterEnter c₂ := by
  ext entry
  rw [selectCmd_registered, selectCmd_registered, h₁.cmdName_eq htable hname,
    h₂.cmdName_eq htable (h₁.same_cmdId h₂ ▸ hname)]

end Parsed

theorem doResponse_congr (hframe : c₁.frameId = c₂.frameId) (hcmd : c₁.cmdId = c₂.cmdId)
    (hdevice : c₁.deviceId = c₂.deviceId) (reply : Bytes) (len : Nat) :
    doResponse c₁ reply len = doResponse c₂ reply len := by
  rw [doResponse, doResponse, hframe, hcmd, hdevice]

theorem answerBytes_congr (env : Env) (hbin : c₁.isBinary = true) (hframe : c₁.frameId = c₂.frameId)
    (hcmd : c₁.cmdId = c₂.cmdId) (hdevice : c₁.deviceId = c₂.deviceId) (reply : Reply) (ret : Int) :
    answerBytes env c₁ reply (chooseAnswer c₁ ret)
      = answerBytes env c₂ reply (chooseAnswer c₂ ret) := by
  have hbin₂ : c₂.isBinary = true := by rwa [StCmdFrame.isBinary, ← hcmd]
  simp only [chooseAnswer, hbin, hbin₂, if_true]
  split_ifs
  · rfl
  · simp only [answerBytes, doResponse_congr hframe hcmd hdevice]
  · rfl

/-! ### Commands that are never answered -/

/-- The entries that HT can name, but for the answering ones, give no reply. -/
theorem silent_entry : ∀ entry ∈ cmdRegisterEnter, entry.name ∈ htCmdList.map Prod.snd →
    entry.name ∉ answeringNames → entry.getReply = none ∧ NeverPositive entry.doCmd := by
  apply forall_registered
  case help => exact fun _ _ => ⟨rfl, neverPositive_none⟩
  case reboot => exact fun _ _ => ⟨rfl, neverPositive_rebootSystem⟩
  case getIp => exact fun _ hnot => absurd (by decide) hnot
  case setIp => exact fun _ _ => ⟨rfl, neverPositive_doSetDeviceIp⟩
  case previewOn => exact fun _ hnot => absurd (by decide) hnot
  case previewOff => exact fun _ hnot => absurd (by decide) hnot
  case setDate => exact fun _ hnot => absurd (by decide) hnot
  case addUser => exact fun hmem _ => absurd hmem (by decide)
  case sysInfo => exact fun _ hnot => absurd (by decide) hnot

theorem mem_names_of_getCmdName {cmdId : UInt16} {name : Bytes}
    (h : getCmdName cmdList cmdId = some name) : name ∈ cmdList.map Prod.snd := by
  obtain ⟨entry, hfind, rfl⟩ := Option.map_eq_some_iff.mp h
  exact List.mem_map_of_mem (List.mem_of_find?_eq_some hfind)

theorem dispatch_silent {env : Env} {s : CmdThread} {out : CmdResult} {name : Bytes}
    (hbin : c.isBinary = true) (hname : cstr c.cmdName = some name)
    (hmem : name ∈ htCmdList.map Prod.snd) (hnot : name ∉ answeringNames)
    (hout : dispatch env s c = some out) : out.ret ≤ 0 := by
  cases hselect : selectCmd cmdRegisterEnter c with
  | none =>
      rw [dispatch_unselected hselect] at hout
      obtain rfl := Option.some.inj hout
      simp
  | some entry =>
      obtain ⟨hentry, hentryName⟩ := selectCmd_registered.mp hselect
      obtain rfl := Option.some.inj (hname.symm.trans hentryName)
      obtain ⟨hnone, hnever⟩ := silent_entry entry hentry hmem hnot
      obtain ⟨r, hrun, hfinish⟩ := (dispatch_selected hselect).mp hout
      rw [entryHandler, if_pos hbin] at hrun
      have hle := hnever env s.statics _ _ r hrun
      by_cases hstatus : r.status = 0
      · rw [finishCmd_noReply hstatus hnone] at hfinish
        obtain rfl := Option.some.inj hfinish
        exact le_refl 0
      · rw [finishCmd_failed hstatus] at hfinish
        obtain rfl := Option.some.inj hfinish
        exact hle

theorem answerBytes_silent {env : Env} {ret : Int} (hbin : c.isBinary = true) (hret : ret ≤ 0)
    (reply : Reply) : answerBytes env c reply (chooseAnswer c ret) = some none := by
  have hanswer : chooseAnswer c ret = .silent := by
    simp [chooseAnswer, hbin, not_lt.mpr hret]
  rw [hanswer]
  rfl

/-! ### Commands that may be answered -/

/-- A system on which every command of `answeringNames` gets a short answer. -/
def answeringEnv : Env :=
  { Env.succeeding with system := fun _ => 1, ifAddr := fun _ => some (0, 0, 0, 0) }

/-- The command is dispatched with a positive return value that the reply buffer covers. -/
def Answered (c : StCmdFrame) : Prop :=
  ∃ out, dispatch answeringEnv CmdThread.zeroed c = some out ∧ 0 < out.ret ∧ out.ret ≤ 512

theorem answered_of_reply {entry : CmdList} {r : HandlerResult} {getReply : GetReply}
    {w : ReplyResult} (hselect : selectCmd cmdRegisterEnter c = some entry)
    (hrun : entryHandler answeringEnv Statics.initial c entry = some r) (hstatus : r.status = 0)
    (hget : entry.getReply = some getReply) (hreply : getReply r.statics = some w)
    (hcounted : w.Counted) (hpos : 0 < w.ret) : Answered c := by
  obtain ⟨hret, hle⟩ := hcounted
  have hroom : 0 + w.wrote.length ≤ 512 := by omega
  obtain ⟨reply, hwrite, _⟩ := Block.exists_write (b := CmdThread.zeroed.reply) hroom
  exact ⟨_, (dispatch_selected hselect).mpr
    ⟨r, hrun, (finishCmd_reply hstatus hget).mpr ⟨w, reply, hreply, hwrite, rfl⟩⟩, hpos, by
      simp only
      omega⟩

theorem answered_sysInfo (hbin : c.isBinary = true)
    (hname : cstr c.cmdName = some (ascii "sys_info")) : Answered c := by
  refine answered_of_reply (selectCmd_registered.mpr ⟨sysInfoCmd_mem, hname⟩)
    (r := ⟨0, Statics.initial, []⟩) ?_ rfl rfl rfl ⟨rfl, by decide⟩ (by decide)
  rw [entryHandler, if_pos hbin]
  rfl

theorem answered_setDate (hbin : c.isBinary = true)
    (hname : cstr c.cmdName = some (ascii "set_date")) : Answered c := by
  obtain ⟨r, hrun⟩ := exists_setSystemDate answeringEnv Statics.initial c
  have hstatus : r.status = 0 := by
    rw [setSystemDate_status hrun, if_neg]
    rintro ⟨_, hclock⟩
    exact absurd hclock (by decide)
  have hhandler : entryHandler answeringEnv Statics.initial c setDateCmd = some r := by
    rw [entryHandler, if_pos hbin]
    exact hrun
  have hreply : ∃ w, setDateReply r.statics = some w ∧ 0 < w.ret := by
    unfold setDateReply
    split_ifs <;> exact ⟨_, rfl, by simp⟩
  obtain ⟨w, hw, hpos⟩ := hreply
  exact answered_of_reply (selectCmd_registered.mpr ⟨setDateCmd_mem, hname⟩) hhandler hstatus rfl hw
    (setDateReply_counted hw) hpos

theorem answered_getIp (hbin : c.isBinary = true)
    (hname : cstr c.cmdName = some (ascii "get_ip")) : Answered c := by
  obtain ⟨r, hrun, hstatus, hflag⟩ := exists_doGetDeviceIp answeringEnv Statics.initial c
    fun _ => rfl
  have hhandler : entryHandler answeringEnv Statics.initial c getIpCmd = some r := by
    rw [entryHandler, if_pos hbin]
    exact hrun
  have hreply : getIpReply r.statics
      = some { ret := 10, wrote := r.statics.ipInfo.bytes, statics := r.statics } := by
    simp [getIpReply, hflag]
  exact answered_of_reply (selectCmd_registered.mpr ⟨getIpCmd_mem, hname⟩) hhandler hstatus rfl hreply
    (getIpReply_counted hflag hreply) (by simp)

/-- A preview command passes the status 1 of its second script on. -/
theorem answered_preview {entry : CmdList} {first second : Bytes} (hbin : c.isBinary = true)
    (hmem : entry ∈ cmdRegisterEnter) (hname : cstr c.cmdName = some entry.name)
    (hdo : entry.doCmd = some (systemTwice first second)) : Answered c := by
  have hrun : entryHandler answeringEnv Statics.initial c entry
      = some ⟨1, Statics.initial, [.system first, .system second]⟩ := by
    rw [entryHandler, if_pos hbin, hdo]
    rfl
  exact ⟨_, (dispatch_selected (selectCmd_registered.mpr ⟨hmem, hname⟩)).mpr
    ⟨_, hrun, finishCmd_failed one_ne_zero⟩, by simp, by simp⟩

theorem answered_of_name {name : Bytes} (hbin : c.isBinary = true)
    (hname : cstr c.cmdName = some name) (hmem : name ∈ answeringNames) : Answered c := by
  simp only [answeringNames, List.mem_cons, List.not_mem_nil, or_false] at hmem
  rcases hmem with rfl | rfl | rfl | rfl | rfl
  · exact answered_sysInfo hbin hname
  · exact answered_setDate hbin hname
  · exact answered_getIp hbin hname
  · exact answered_preview hbin previewOnCmd_mem hname rfl
  · exact answered_preview hbin previewOffCmd_mem hname rfl

/-! ### Two leftovers that show -/

theorem dispatch_congr (env : Env) (s : CmdThread) (hcmd : c₁.cmdId = c₂.cmdId)
    (hlen : c₁.cmdLen = c₂.cmdLen) (harrays : c₁.arrays = c₂.arrays) (hbin : c₁.isBinary = true) :
    dispatch env s c₁ = dispatch env s c₂ := by
  have hbin₂ : c₂.isBinary = true := by rwa [StCmdFrame.isBinary, ← hcmd]
  simp only [dispatch, hbin, hbin₂, if_true, doCmdList_eq, selectCmd, StCmdFrame.cmdName,
    StCmdFrame.data, hlen, harrays]

theorem doResponse_deviceId {reply : Bytes} {len : Nat} (hlong : len ≤ reply.length)
    (h : doResponse c₁ reply len = doResponse c₂ reply len) :
    lo8 c₁.deviceId.toNat = lo8 c₂.deviceId.toNat := by
  have h₁ : doResponse c₁ reply len = some (withCrc (responseBody c₁ (reply.take len))) :=
    doResponse_eq_some_iff.mpr ⟨hlong, rfl⟩
  obtain ⟨_, hbytes⟩ := doResponse_eq_some_iff.mp (h.symm.trans h₁)
  have hsame := congrArg (fun bytes => bytes[10]?) hbytes
  simpa [withCrc, responseBody, be16Bytes] using hsame

theorem not_sameRun_of_deviceId (hbin : c₁.isBinary = true) (hanswered : Answered c₁)
    (hcmd : c₁.cmdId = c₂.cmdId) (hlen : c₁.cmdLen = c₂.cmdLen) (harrays : c₁.arrays = c₂.arrays)
    (hdevice : lo8 c₁.deviceId.toNat ≠ lo8 c₂.deviceId.toNat) : ¬ SameRun c₁ c₂ := by
  intro hsame
  obtain ⟨out, hout, hpos, hle⟩ := hanswered
  have hout₂ := hout
  rw [dispatch_congr _ _ hcmd hlen harrays hbin] at hout₂
  have hsent := hsame.sent_eq answeringEnv CmdThread.zeroed CmdThread.zeroed out out hout hout₂ rfl
    rfl
  have hbin₂ : c₂.isBinary = true := by rwa [StCmdFrame.isBinary, ← hcmd]
  have hlong : out.ret.toNat ≤ out.reply.bytes.length := by
    rw [out.reply.size_eq]
    omega
  simp only [chooseAnswer, hbin, hbin₂, hpos, not_lt.mpr hpos.le, if_true, if_false, answerBytes,
    answeringEnv, Env.succeeding, Bool.false_eq_true] at hsent
  exact hdevice (doResponse_deviceId hlong (Option.map_injective (Option.some_injective _) hsent))

/-! ### When the frame decides -/

/-- The condition for HT: the id is in the table, of a command that is never answered. -/
def HtDecides (buf : Bytes) (cmdId : UInt16) : Prop :=
  (∃ len, readBe16 buf 2 = some len ∧ PayloadFits 8 len)
    ∧ ∃ name, getCmdName htCmdList cmdId = some name ∧ name ∉ answeringNames

/-- The condition for SL: the id is in the table. -/
def SlDecides (buf : Bytes) (cmdId : UInt16) : Prop :=
  (∃ len, readBe16 buf 2 = some len ∧ PayloadFits 13 len)
    ∧ ∃ name, getCmdName slCmdList cmdId = some name

def rebootResidue : StCmdFrame := StCmdFrame.ofName (ascii "reboot") (by decide)

/-- An id that the table does not know runs the command whose name was left over. -/
theorem Parsed.reboots (h : Parsed cmdList headerLen deviceId fd rebootResidue buf c)
    (htable : ProperTable cmdList) (hunknown : getCmdName cmdList c.cmdId = none) :
    selectCmd cmdRegisterEnter c = some rebootCmd :=
  selectCmd_registered.mpr ⟨rebootCmd_mem, h.cmdName_leftover htable hunknown (by decide) (by decide)⟩

theorem isBinary_of_read {cmdId : UInt16} (h : Parsed cmdList headerLen deviceId fd cmd buf c)
    (hcmd : readBe16 buf 6 = some cmdId) (hne : cmdId ≠ 0) : c.cmdId = cmdId ∧ c.isBinary = true := by
  have hid : c.cmdId = cmdId := Option.some.inj (h.cmdId_read.symm.trans hcmd)
  exact ⟨hid, by simp [StCmdFrame.isBinary, hid, hne]⟩

theorem htDecides_of_dependsOnFrameOnly {cmdId : UInt16} (hcmd : readBe16 buf 6 = some cmdId)
    (hne : cmdId ≠ 0) (h : DependsOnFrameOnly htProtocol htCmdList buf) : HtDecides buf cmdId := by
  obtain ⟨c, _, hparse, _, _⟩ := h.same_run 0 rebootResidue rebootResidue
  have hparsed := htParse_eq_some_iff.mp hparse
  obtain ⟨hid, _⟩ := isBinary_of_read hparsed hcmd hne
  refine ⟨⟨c.len, hparsed.len_read, hparsed.fits (by decide)⟩, ?_⟩
  cases hname : getCmdName htCmdList cmdId with
  | none =>
      have hnone : getCmdName htCmdList c.cmdId = none := by rw [hid, hname]
      have hselect := h.unknown 0 rebootResidue c hparse hnone
      rw [hparsed.reboots properTable_ht hnone] at hselect
      cases hselect
  | some name =>
      refine ⟨name, rfl, fun hanswering => ?_⟩
      obtain ⟨c₁, c₂, hparse₁, hparse₂, hsame⟩ :=
        h.same_run 0 StCmdFrame.zeroed { StCmdFrame.zeroed with deviceId := 1 }
      have hparsed₁ := htParse_eq_some_iff.mp hparse₁
      have hparsed₂ := htParse_eq_some_iff.mp hparse₂
      obtain ⟨hid₁, hbin₁⟩ := isBinary_of_read hparsed₁ hcmd hne
      have hanswered : Answered c₁ := answered_of_name hbin₁
        (hparsed₁.cmdName_eq properTable_ht (hid₁ ▸ hname)) hanswering
      refine not_sameRun_of_deviceId hbin₁ hanswered (hparsed₁.same_cmdId hparsed₂)
        (hparsed₁.same_cmdLen hparsed₂) ?_ ?_ hsame
      · exact hparsed₁.same_arrays hparsed₂ rfl
      · rw [hparsed₁.deviceId_eq, hparsed₂.deviceId_eq]
        decide

theorem dependsOnFrameOnly_of_htDecides {cmdId : UInt16} (hcheck : htCheckData buf = some 0)
    (hcmd : readBe16 buf 6 = some cmdId) (hne : cmdId ≠ 0) (h : HtDecides buf cmdId) :
    DependsOnFrameOnly htProtocol htCmdList buf := by
  obtain ⟨⟨len, hlen, hfits⟩, name, hname, hsilent⟩ := h
  constructor
  · intro fd residue₁ residue₂
    obtain ⟨c₁, hparsed₁⟩ := exists_parsed_of_fits properTable_ht hcheck hlen hcmd hfits
      residue₁.deviceId fd residue₁
    obtain ⟨c₂, hparsed₂⟩ := exists_parsed_of_fits properTable_ht hcheck hlen hcmd hfits
      residue₂.deviceId fd residue₂
    obtain ⟨hid₁, hbin₁⟩ := isBinary_of_read hparsed₁ hcmd hne
    obtain ⟨hid₂, hbin₂⟩ := isBinary_of_read hparsed₂ hcmd hne
    have hname₁ : getCmdName htCmdList c₁.cmdId = some name := hid₁ ▸ hname
    have hname₂ : getCmdName htCmdList c₂.cmdId = some name := hid₂ ▸ hname
    refine ⟨c₁, c₂, htParse_eq_some_iff.mpr hparsed₁, htParse_eq_some_iff.mpr hparsed₂,
      hparsed₁.same_entry properTable_ht hname₁ hparsed₂,
      hparsed₁.same_payload properTable_ht hparsed₂, ?_⟩
    intro env s₁ s₂ out₁ out₂ hout₁ hout₂ _ _
    have hmem := mem_names_of_getCmdName hname
    have hret₁ := dispatch_silent hbin₁ (hparsed₁.cmdName_eq properTable_ht hname₁) hmem hsilent hout₁
    have hret₂ := dispatch_silent hbin₂ (hparsed₂.cmdName_eq properTable_ht hname₂) hmem hsilent hout₂
    rw [answerBytes_silent hbin₁ hret₁, answerBytes_silent hbin₂ hret₂]
  · intro fd residue c hparse hunknown
    obtain ⟨hid, _⟩ := isBinary_of_read (htParse_eq_some_iff.mp hparse) hcmd hne
    rw [hid, hname] at hunknown
    cases hunknown

theorem slDecides_of_dependsOnFrameOnly {cmdId : UInt16} (hcmd : readBe16 buf 6 = some cmdId)
    (hne : cmdId ≠ 0) (h : DependsOnFrameOnly slProtocol slCmdList buf) : SlDecides buf cmdId := by
  obtain ⟨c, _, hparse, _, _⟩ := h.same_run 0 rebootResidue rebootResidue
  obtain ⟨_, _, _, _, _, _, _, _, hparsed⟩ := slParse_eq_some_iff.mp hparse
  obtain ⟨hid, _⟩ := isBinary_of_read hparsed hcmd hne
  refine ⟨⟨c.len, hparsed.len_read, hparsed.fits (by decide)⟩, ?_⟩
  cases hname : getCmdName slCmdList cmdId with
  | none =>
      have hnone : getCmdName slCmdList c.cmdId = none := by rw [hid, hname]
      have hselect := h.unknown 0 rebootResidue c hparse hnone
      rw [hparsed.reboots properTable_sl hnone] at hselect
      cases hselect
  | some name => exact ⟨name, rfl⟩

theorem dependsOnFrameOnly_of_slDecides {cmdId : UInt16} (hcheck : slCheckData buf = some 0)
    (hcmd : readBe16 buf 6 = some cmdId) (hne : cmdId ≠ 0) (h : SlDecides buf cmdId) :
    DependsOnFrameOnly slProtocol slCmdList buf := by
  obtain ⟨⟨len, hlen, hfits⟩, name, hname⟩ := h
  constructor
  · intro fd residue₁ residue₂
    obtain ⟨b9, b10, b11, b12, h9, h10, h11, h12⟩ := exists_deviceId hcheck hlen hfits
    obtain ⟨c₁, hparsed₁⟩ := exists_parsed_of_fits properTable_sl hcheck hlen hcmd hfits
      (be32 b9 b10 b11 b12) fd residue₁
    obtain ⟨c₂, hparsed₂⟩ := exists_parsed_of_fits properTable_sl hcheck hlen hcmd hfits
      (be32 b9 b10 b11 b12) fd residue₂
    obtain ⟨hid₁, hbin₁⟩ := isBinary_of_read hparsed₁ hcmd hne
    refine ⟨c₁, c₂, slParse_eq_some_iff.mpr ⟨b9, b10, b11, b12, h9, h10, h11, h12, hparsed₁⟩,
      slParse_eq_some_iff.mpr ⟨b9, b10, b11, b12, h9, h10, h11, h12, hparsed₂⟩,
      hparsed₁.same_entry properTable_sl (hid₁ ▸ hname) hparsed₂,
      hparsed₁.same_payload properTable_sl hparsed₂, ?_⟩
    intro env s₁ s₂ out₁ out₂ _ _ hret hreply
    rw [hret, hreply]
    exact answerBytes_congr env hbin₁ (hparsed₁.same_frameId hparsed₂) (hparsed₁.same_cmdId hparsed₂)
      (hparsed₁.deviceId_eq.trans hparsed₂.deviceId_eq.symm) out₂.reply out₂.ret
  · intro fd residue c hparse hunknown
    obtain ⟨_, _, _, _, _, _, _, _, hparsed⟩ := slParse_eq_some_iff.mp hparse
    obtain ⟨hid, _⟩ := isBinary_of_read hparsed hcmd hne
    rw [hid, hname] at hunknown
    cases hunknown

/-- **What the frame decides.** For an accepted frame with a command id, execution depends on the
frame alone exactly when its payload fits and its id is in the table, for HT moreover of a command
that is never answered. -/
theorem dependsOnFrameOnly_iff {cmdId : UInt16} (hcmd : readBe16 buf 6 = some cmdId)
    (hne : cmdId ≠ 0) :
    (htCheckData buf = some 0 →
      (DependsOnFrameOnly htProtocol htCmdList buf ↔ HtDecides buf cmdId))
    ∧ (slCheckData buf = some 0 →
      (DependsOnFrameOnly slProtocol slCmdList buf ↔ SlDecides buf cmdId)) :=
  ⟨fun hcheck => ⟨htDecides_of_dependsOnFrameOnly hcmd hne,
      dependsOnFrameOnly_of_htDecides hcheck hcmd hne⟩,
    fun hcheck => ⟨slDecides_of_dependsOnFrameOnly hcmd hne,
      dependsOnFrameOnly_of_slDecides hcheck hcmd hne⟩⟩

/-- The HT request `set_ip` and the SL request `get_ip`, each without a payload. -/
theorem dependsOnFrameOnly_iff_setIp_getIp :
    (DependsOnFrameOnly htProtocol htCmdList (readLine (htFrame 1 0x010a []))
      ↔ HtDecides (readLine (htFrame 1 0x010a [])) 0x010a)
    ∧ (DependsOnFrameOnly slProtocol slCmdList (readLine (slFrame 1 0x0109 0 0x01020304 []))
      ↔ SlDecides (readLine (slFrame 1 0x0109 0 0x01020304 [])) 0x0109) :=
  ⟨(dependsOnFrameOnly_iff rfl (by decide)).1 (htFrame_checked 1 0x010a (by decide) _),
    (dependsOnFrameOnly_iff rfl (by decide)).2 (slFrame_checked 1 0x0109 0 0x01020304 (by decide) _)⟩

/-- The HT id 0x0300 is in no table: the frame reboots the device when the name `reboot` was left
over. -/
theorem unknown_id_runs_leftover :
    ¬ ∀ entry ∈ [(htProtocol, htCmdList), (slProtocol, slCmdList)], ∀ tmpStr buf cmdId,
      entry.1.checkData tmpStr buf = some 0 → readBe16 buf 6 = some cmdId → cmdId ≠ 0 →
      DependsOnFrameOnly entry.1 entry.2 buf := by
  intro h
  have hdepends : DependsOnFrameOnly htProtocol htCmdList (readLine (htFrame 1 0x0300 [])) :=
    h (htProtocol, htCmdList) (by simp) (Block.zeroed 128) _ 0x0300
      (htFrame_checked 1 0x0300 (by decide) _) rfl (by decide)
  have hdecides : HtDecides (readLine (htFrame 1 0x0300 [])) 0x0300 :=
    htDecides_of_dependsOnFrameOnly rfl (by decide) hdepends
  obtain ⟨_, name, hname, _⟩ := hdecides
  have hunknown : getCmdName htCmdList 0x0300 = none := by decide
  cases hunknown.symm.trans hname

end InstructionParser
