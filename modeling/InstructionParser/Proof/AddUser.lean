import InstructionParser.Proof.OctetText
import InstructionParser.Shell

/-!
# Adding a user

`add_system_user` takes two fields out of its payload and makes a command line of them. It compares
their lengths with nothing and passes on what is in them.
-/

namespace InstructionParser

open CLib

/-- `user_name` and `user_passwd` after the copies. -/
def userBuffers (pucBufHead : Bytes) : Option (Block 64 × Block 64) := do
  let userNameLen ← pucBufHead[1]?
  let userPasswdLen ← pucBufHead[2 + userNameLen.toNat]?
  let name ← strncpyBytes (pucBufHead.drop 2) userNameLen.toNat
  let userName ← (Block.zeroed 64).write 0 name
  let passwd ← strncpyBytes (pucBufHead.drop (userNameLen.toNat + 3)) userPasswdLen.toNat
  let userPasswd ← (Block.zeroed 64).write 0 passwd
  pure (userName, userPasswd)

/-- `"/usr/sbin/add_user %s %s"`. -/
def addUserLine (name passwd : Bytes) : Bytes :=
  ascii "/usr/sbin/add_user " ++ name ++ ascii " " ++ passwd

/-- A field of `n` bytes leaves room for the end of the string in 64 bytes. -/
def FieldFits (field : Bytes) (n : Nat) : Prop := n ≤ 64 ∧ (strBytes (field.take n)).length < 64

/-- The two length-prefixed fields behind the first byte of a payload, both within it. -/
def UserFields (payload name passwd : Bytes) : Prop :=
  ∃ userNameLen userPasswdLen, payload[1]? = some userNameLen
    ∧ payload[2 + userNameLen.toNat]? = some userPasswdLen
    ∧ readBytes payload 2 userNameLen.toNat = some name
    ∧ readBytes payload (3 + userNameLen.toNat) userPasswdLen.toNat = some passwd

/-- No command is run, or `add_user` with the fields of the payload, copied and terminated in their
buffers, on a command line that fits its own. -/
def DecodesUser (env : Env) (st : Statics) (pucBufHead : Bytes) (len : UInt16) : Prop :=
  ∃ r, addSystemUser env st pucBufHead len = some r
    ∧ ((∀ line, Event.system line ∉ r.events)
      ∨ ∃ userName userPasswd name passwd, userBuffers pucBufHead = some (userName, userPasswd)
        ∧ UserFields (pucBufHead.take len.toNat) name passwd
        ∧ cstr userName.bytes = some name ∧ cstr userPasswd.bytes = some passwd
        ∧ r.events = [.system (addUserLine name passwd)]
        ∧ (addUserLine name passwd).length < 128)

/-- The lengths found in the payload stay within it and within the three buffers, and no zero ends a
field early. -/
structure UserLengthsFit (payload : Bytes) (userNameLen userPasswdLen : UInt8) : Prop where
  nameLen : payload[1]? = some userNameLen
  passwdLen : payload[2 + userNameLen.toNat]? = some userPasswdLen
  within : 3 + userNameLen.toNat + userPasswdLen.toNat ≤ payload.length
  nameFits : userNameLen.toNat < 64
  passwdFits : userPasswdLen.toNat < 64
  lineFits : userNameLen.toNat + userPasswdLen.toNat ≤ 107
  nameWhole : 0 ∉ (payload.drop 2).take userNameLen.toNat
  passwdWhole : 0 ∉ (payload.drop (3 + userNameLen.toNat)).take userPasswdLen.toNat

variable {env : Env} {st : Statics} {p name passwd : Bytes} {len : UInt16} {r : HandlerResult}

theorem addUserLine_length (name passwd : Bytes) :
    (addUserLine name passwd).length = 20 + name.length + passwd.length := by
  have hhead : (ascii "/usr/sbin/add_user ").length = 19 := by decide
  have hblank : (ascii " ").length = 1 := by decide
  simp only [addUserLine, List.length_append, hhead, hblank]
  omega

theorem userBuffers_eq_some_iff {buffers : Block 64 × Block 64} :
    userBuffers p = some buffers ↔
      ∃ userNameLen userPasswdLen name passwd, p[1]? = some userNameLen
        ∧ p[2 + userNameLen.toNat]? = some userPasswdLen
        ∧ strncpyBytes (p.drop 2) userNameLen.toNat = some name
        ∧ (Block.zeroed 64).write 0 name = some buffers.1
        ∧ strncpyBytes (p.drop (userNameLen.toNat + 3)) userPasswdLen.toNat = some passwd
        ∧ (Block.zeroed 64).write 0 passwd = some buffers.2 := by
  simp only [userBuffers, Option.bind_eq_bind, Option.bind_eq_some_iff, Option.pure_def,
    Option.some.injEq]
  constructor
  · rintro ⟨n, hn, m, hm, name, hname, userName, huserName, passwd, hpasswd, userPasswd, huserPasswd,
      rfl⟩
    exact ⟨n, m, name, passwd, hn, hm, hname, huserName, hpasswd, huserPasswd⟩
  · rintro ⟨n, m, name, passwd, hn, hm, hname, huserName, hpasswd, huserPasswd⟩
    exact ⟨n, hn, m, hm, name, hname, _, huserName, passwd, hpasswd, _, huserPasswd, rfl⟩

theorem addSystemUser_query (hne : p ≠ []) (hquery : p[0]? ≠ some 1) :
    addSystemUser env st p len = some { status := 0, statics := st, events := [] } := by
  cases p with
  | nil => exact absurd rfl hne
  | cons b0 rest =>
      have hother : b0 ≠ 1 := fun heq => hquery (congrArg some heq)
      exact if_pos hother

/-- Behind a first byte 1: the copies, the strings in their buffers and the command line. -/
theorem addSystemUser_eq_some_iff (hadd : p[0]? = some 1) :
    addSystemUser env st p len = some r ↔
      ∃ userName userPasswd name passwd, userBuffers p = some (userName, userPasswd)
        ∧ cstr userName.bytes = some name ∧ cstr userPasswd.bytes = some passwd
        ∧ (addUserLine name passwd).length < 128
        ∧ r = {
            status := 0
            statics := if env.system 0 ≠ 0 then { st with result := 1 } else st
            events := [.system (addUserLine name passwd)] } := by
  have hline : ∀ name passwd : Bytes, (∃ cmd, (Block.zeroed 128).write 0
      (ascii "/usr/sbin/add_user " ++ name ++ ascii " " ++ passwd ++ [0]) = some cmd)
      ↔ (addUserLine name passwd).length < 128 := by
    intro name passwd
    simp only [Block.write_eq_some_iff, addUserLine, List.length_append, List.length_singleton]
    constructor
    · rintro ⟨_, hroom, _⟩
      omega
    · intro hroom
      have hstart : 0 + (ascii "/usr/sbin/add_user " ++ name ++ ascii " " ++ passwd ++ [0]).length
          ≤ 128 := by
        simp only [List.length_append, List.length_singleton]
        omega
      obtain ⟨cmd, _, hbytes⟩ := Block.exists_write (b := Block.zeroed 128) hstart
      exact ⟨cmd, by omega, hbytes⟩
  simp only [addSystemUser, hadd, Option.bind_eq_bind, Option.bind_some, ne_eq, not_true_eq_false,
    if_false, Option.bind_eq_some_iff, Option.pure_def, Option.some.injEq, userBuffers_eq_some_iff]
  constructor
  · rintro ⟨n, hn, m, hm, nameSrc, hnameSrc, userName, huserName, passwdSrc, hpasswdSrc, userPasswd,
      huserPasswd, name, hname, passwd, hpasswd, cmd, hcmd, rfl⟩
    exact ⟨userName, userPasswd, name, passwd,
      ⟨n, m, nameSrc, passwdSrc, hn, hm, hnameSrc, huserName, hpasswdSrc, huserPasswd⟩, hname, hpasswd,
      (hline name passwd).mp ⟨cmd, hcmd⟩, rfl⟩
  · rintro ⟨userName, userPasswd, name, passwd,
      ⟨n, m, nameSrc, passwdSrc, hn, hm, hnameSrc, huserName, hpasswdSrc, huserPasswd⟩, hname, hpasswd,
      hroom, rfl⟩
    obtain ⟨cmd, hcmd⟩ := (hline name passwd).mpr hroom
    exact ⟨n, hn, m, hm, nameSrc, hnameSrc, userName, huserName, passwdSrc, hpasswdSrc, userPasswd,
      huserPasswd, name, hname, passwd, hpasswd, cmd, hcmd, rfl⟩

theorem exists_userBuffers {n m : UInt8} (hn : p[1]? = some n) (hm : p[2 + n.toNat]? = some m)
    (hread : 3 + n.toNat + m.toNat ≤ p.length) (hname : FieldFits (p.drop 2) n.toNat)
    (hpasswd : FieldFits (p.drop (n.toNat + 3)) m.toNat) :
    ∃ userName userPasswd, userBuffers p = some (userName, userPasswd)
      ∧ cstr userName.bytes = some (strBytes ((p.drop 2).take n.toNat))
      ∧ cstr userPasswd.bytes = some (strBytes ((p.drop (n.toNat + 3)).take m.toNat)) := by
  obtain ⟨hnameLen, hnameEnd⟩ := hname
  obtain ⟨hpasswdLen, hpasswdEnd⟩ := hpasswd
  obtain ⟨nameSrc, userName, hnameCopy, hnameWrite, hnameBytes⟩ := exists_copied hnameLen
    (show n.toNat ≤ (p.drop 2).length by rw [List.length_drop]; omega)
  obtain ⟨passwdSrc, userPasswd, hpasswdCopy, hpasswdWrite, hpasswdBytes⟩ := exists_copied hpasswdLen
    (show m.toNat ≤ (p.drop (n.toNat + 3)).length by rw [List.length_drop]; omega)
  refine ⟨userName, userPasswd, userBuffers_eq_some_iff.mpr
    ⟨n, m, nameSrc, passwdSrc, hn, hm, hnameCopy, hnameWrite, hpasswdCopy, hpasswdWrite⟩, ?_, ?_⟩
  · rw [hnameBytes]
    exact cstr_padded (zero_notMem_strBytes _) (Nat.sub_pos_of_lt hnameEnd)
  · rw [hpasswdBytes]
    exact cstr_padded (zero_notMem_strBytes _) (Nat.sub_pos_of_lt hpasswdEnd)

/-! ### Where the fields come from -/

theorem getElem?_of_take {k i : Nat} {b : UInt8} (h : (p.take k)[i]? = some b) : p[i]? = some b := by
  rw [List.getElem?_take] at h
  split_ifs at h
  exact h

/-- A field that ends within the payload and holds no zero is the string that is copied. -/
theorem wholeField {k off n : Nat} (hread : k ≤ p.length) (hwithin : off + n ≤ k)
    (hzero : 0 ∉ ((p.take k).drop off).take n) (hroom : n < 64) :
    FieldFits (p.drop off) n
      ∧ readBytes (p.take k) off n = some (strBytes ((p.drop off).take n))
      ∧ (strBytes ((p.drop off).take n)).length = n := by
  have hfield : ((p.take k).drop off).take n = (p.drop off).take n := by
    rw [List.drop_take, List.take_take, Nat.min_eq_left (by omega)]
  have hstr : strBytes ((p.drop off).take n) = (p.drop off).take n :=
    strBytes_of_notMem (hfield ▸ hzero)
  have hlength : (strBytes ((p.drop off).take n)).length = n := by
    rw [hstr, List.length_take, List.length_drop]
    omega
  refine ⟨⟨Nat.le_of_lt hroom, by rwa [hlength]⟩, ?_, hlength⟩
  rw [readBytes_eq_some_iff, List.length_take_of_le hread, hfield]
  exact ⟨hwithin, hstr⟩

theorem UserLengthsFit.decodes {n m : UInt8} (h : UserLengthsFit (p.take len.toNat) n m)
    (hread : len.toNat ≤ p.length) (hadd : p[0]? = some 1) : DecodesUser env st p len := by
  have hwithin := h.within
  rw [List.length_take_of_le hread] at hwithin
  obtain ⟨hnameFits, hnameRead, hnameLength⟩ :=
    wholeField hread (by omega) h.nameWhole h.nameFits
  obtain ⟨hpasswdFits, hpasswdRead, hpasswdLength⟩ :=
    wholeField hread hwithin h.passwdWhole h.passwdFits
  rw [Nat.add_comm 3] at hpasswdFits hpasswdRead hpasswdLength
  obtain ⟨userName, userPasswd, hbuffers, hname, hpasswd⟩ := exists_userBuffers
    (getElem?_of_take h.nameLen) (getElem?_of_take h.passwdLen) (by omega) hnameFits hpasswdFits
  have hline : (addUserLine (strBytes ((p.drop 2).take n.toNat))
      (strBytes ((p.drop (n.toNat + 3)).take m.toNat))).length < 128 := by
    have hfits := h.lineFits
    rw [addUserLine_length, hnameLength, hpasswdLength]
    omega
  refine ⟨_, (addSystemUser_eq_some_iff hadd).mpr
    ⟨userName, userPasswd, _, _, hbuffers, hname, hpasswd, hline, rfl⟩, Or.inr
    ⟨userName, userPasswd, _, _, hbuffers, ⟨n, m, h.nameLen, h.passwdLen, hnameRead, ?_⟩, hname, hpasswd,
      rfl, hline⟩⟩
  rwa [Nat.add_comm 3]

theorem DecodesUser.lengthsFit (h : DecodesUser env st p len) (hadd : p[0]? = some 1) :
    ∃ n m, UserLengthsFit (p.take len.toNat) n m := by
  obtain ⟨r, hr, hdecoded⟩ := h
  rcases hdecoded with hnone | ⟨userName, userPasswd, name, passwd, _, hfields, hname, hpasswd, _, hline⟩
  · obtain ⟨_, _, name, passwd, _, _, _, _, rfl⟩ := (addSystemUser_eq_some_iff hadd).mp hr
    exact absurd (List.mem_singleton_self _) (hnone (addUserLine name passwd))
  · obtain ⟨n, m, hn, hm, hnameRead, hpasswdRead⟩ := hfields
    obtain ⟨hnameWithin, hnameEq⟩ := readBytes_eq_some_iff.mp hnameRead
    obtain ⟨hpasswdWithin, hpasswdEq⟩ := readBytes_eq_some_iff.mp hpasswdRead
    have hnameLength : name.length = n.toNat := by
      rw [hnameEq, List.length_take, List.length_drop]
      omega
    have hpasswdLength : passwd.length = m.toNat := by
      rw [hpasswdEq, List.length_take, List.length_drop]
      omega
    have hnameRoom := cstr_length_le hname
    have hpasswdRoom := cstr_length_le hpasswd
    rw [userName.size_eq, hnameLength] at hnameRoom
    rw [userPasswd.size_eq, hpasswdLength] at hpasswdRoom
    rw [addUserLine_length, hnameLength, hpasswdLength] at hline
    exact ⟨n, m, hn, hm, by omega, hnameRoom, hpasswdRoom, by omega,
      hnameEq ▸ zero_notMem_of_cstr hname, hpasswdEq ▸ zero_notMem_of_cstr hpasswd⟩

/-- **Decoding a user.** A payload that adds a user is decoded soundly if and only if both fields end
within it, hold no zero, and leave room for their ends in their buffers and in the command line. -/
theorem decodesUser_iff (env : Env) (st : Statics) (hread : len.toNat ≤ p.length)
    (hadd : p[0]? = some 1) :
    DecodesUser env st p len ↔
      ∃ userNameLen userPasswdLen, UserLengthsFit (p.take len.toNat) userNameLen userPasswdLen :=
  ⟨fun h => h.lengthsFit hadd, fun ⟨_, _, h⟩ => h.decodes hread hadd⟩

def bobPayload : Bytes := [1, 3] ++ ascii "bob" ++ [6] ++ ascii "secret"

theorem decodesUser_iff_bob : DecodesUser Env.succeeding Statics.initial bobPayload 12 := by
  refine (decodesUser_iff _ _ (by decide) rfl).mpr ⟨3, 6, ?_⟩
  exact ⟨by decide, by decide, by decide, by decide, by decide, by decide, by decide, by decide⟩

/-- Two fields of 60 bytes fit their buffers, and the line of 140 bytes leaves `cmd`. -/
theorem line_leaves_cmd :
    ¬ ∀ (env : Env) (st : Statics) (p : Bytes) (len : UInt16), 1 ≤ len.toNat → len.toNat ≤ 1024 →
      len.toNat ≤ p.length → p[0]? = some 1 → DecodesUser env st p len := by
  intro h
  let payload : Bytes := [1, 60] ++ List.replicate 60 0x61 ++ [60] ++ List.replicate 60 0x62
  have hadd : payload[0]? = some 1 := rfl
  have hdecodes := h Env.succeeding Statics.initial payload 123 (by decide) (by decide)
    (by decide +kernel) hadd
  obtain ⟨n, m, hfit⟩ := hdecodes.lengthsFit hadd
  have hn : payload[1]? = some 60 := rfl
  obtain rfl := Option.some.inj (hn.symm.trans (getElem?_of_take hfit.nameLen))
  have hm : payload[62]? = some 60 := by decide +kernel
  obtain rfl := Option.some.inj (hm.symm.trans (getElem?_of_take hfit.passwdLen))
  exact absurd hfit.lineFits (by decide)

/-! ### What the shell makes of the line -/

section Fields

variable {cmd : StCmdFrame} {userNameLen userPasswdLen : UInt8}
  (hnameLen : cmd.data[1]? = some userNameLen)
  (hpasswdLen : cmd.data[2 + userNameLen.toNat]? = some userPasswdLen)
  (hname : FieldFits (cmd.data.drop 2) userNameLen.toNat)
  (hpasswd : FieldFits (cmd.data.drop (userNameLen.toNat + 3)) userPasswdLen.toNat)

include hnameLen hpasswdLen hname hpasswd

end Fields

end InstructionParser
