import InstructionParser.Proof.Grammar
import InstructionParser.Proof.TextParse

/-!
# Where the words of a line go

The loop of `text_parse` copies its first word to the row -2 of `cmd_data`, so no line that the check
takes is parsed inside the fields. The lines that do no harm are the ones that are refused.
-/

namespace InstructionParser

open CLib

variable {tmpStr : Block 128} {buf rest w ds : Bytes}

/-- The command has the id of the line, and its name and its rows are the words behind it. -/
structure Placed (ws : List Bytes) (c : StCmdFrame) : Prop where
  id : ∀ w, ws[0]? = some w → c.frameId = (stringToInteger w).toUInt16
  name : ∀ w, ws[1]? = some w → cstr c.cmdName = some w
  rows : ∀ j w, ws[j + 2]? = some w → cstr (c.cmdData.drop (cmdDataRowSize * j)) = some w

/-- The copy of word number `i` goes to `cmd_name` or to one of the rows, and ends there. -/
def CopyInside (i : Nat) (w : Bytes) : Prop :=
  if i = 1 then w.length < cmdNameSize
  else (0 ≤ (i : Int) - 2 ∧ (i : Int) - 2 < cmdDataRows) ∧ w.length < cmdDataRowSize

/-- The line is refused, or a command is pushed that holds its words, each copied inside its field. -/
def RefusedOrPlaced (tmpStr : Block 128) (fd : Int) (cmd : StCmdFrame) (buf : Bytes)
    (ws : List Bytes) : Prop :=
  doProtocolHandle tmpStr protocolSupported buf = some none
    ∨ ∃ protocol c, doProtocolHandle tmpStr protocolSupported buf = some (some protocol)
      ∧ protocol.parse fd cmd buf = some c ∧ Placed ws c ∧ ∀ i w, ws[i]? = some w → CopyInside i w

theorem doProtocolHandle_refused {protocol : ProtocolSet} {more : List ProtocolSet}
    (h : protocol.checkData tmpStr buf = some (-1)) :
    doProtocolHandle tmpStr (protocol :: more) buf = doProtocolHandle tmpStr more buf := by
  rw [doProtocolHandle, h, Option.bind_some, if_neg (by decide)]

theorem doProtocolHandle_bracket (hhead : buf[0]? = some 0x5b) :
    doProtocolHandle tmpStr protocolSupported buf =
      (textCheckData tmpStr buf).map fun ret => if ret = 0 then some textProtocol else none := by
  have hht : htProtocol.checkData tmpStr buf = some (-1) := checkFrame_head hhead (by decide)
  have hsl : slProtocol.checkData tmpStr buf = some (-1) := checkFrame_head hhead (by decide)
  rw [show protocolSupported = [htProtocol, slProtocol, textProtocol] from rfl,
    doProtocolHandle_refused hht, doProtocolHandle_refused hsl, doProtocolHandle,
    show textProtocol.checkData tmpStr buf = textCheckData tmpStr buf from rfl]
  cases textCheckData tmpStr buf with
  | none => rfl
  | some ret =>
      rw [Option.bind_some, Option.map_some]
      split_ifs <;> rfl

theorem textCheckData_of_long {line : Bytes} (hline : cstr buf = some line)
    (hlong : 128 < line.length) : textCheckData tmpStr buf = none := by
  have hwrite : tmpStr.write 0 line = none := Block.write_eq_none_iff.mpr (by omega)
  rw [textCheckData, hline]
  simp only [Option.bind_eq_bind, Option.bind_some, hwrite, Option.bind_none]

theorem not_copyInside_first : ¬ CopyInside 0 w := by
  rintro ⟨⟨hrow, _⟩, _⟩
  exact absurd hrow (by decide)

/-- **Placing the words.** For every line that starts with `[id]` and a blank, whatever is behind them:
it is refused or placed if and only if it fits `tmp_str` and its id has the digit 0, which the pattern
refuses. -/
theorem refusedOrPlaced_iff (hline : cstr buf = some (w ++ 0x20 :: rest)) (hid : IdWord ds w)
    (tmpStr : Block 128) (fd : Int) (cmd : StCmdFrame) :
    RefusedOrPlaced tmpStr fd cmd buf (words 0x20 (w ++ 0x20 :: rest)) ↔
      (w ++ 0x20 :: rest).length ≤ 128 ∧ 0x30 ∈ ds := by
  have hne : w ≠ [] := by
    obtain ⟨_, _, rfl⟩ := hid
    exact List.cons_ne_nil _ _
  have hhead : buf[0]? = some 0x5b := by
    obtain ⟨_, _, rfl⟩ := hid
    obtain ⟨_, tail, rfl⟩ := cstr_eq_some_iff.mp hline
    rfl
  have hfirst : (words 0x20 (w ++ 0x20 :: rest))[0]? = some w := by
    rw [words_token_delim hne fun hmem => (hid.token _ hmem).1 rfl]
    rfl
  rw [RefusedOrPlaced, doProtocolHandle_bracket hhead]
  by_cases hshort : (w ++ 0x20 :: rest).length ≤ 128
  · have hword : FirstWord ((w ++ 0x20 :: rest)
        ++ tmpStr.bytes.drop (w ++ 0x20 :: rest).length) w := by
      rw [List.append_assoc, List.cons_append]
      exact firstWord_of_blank hid.token hne
    obtain ⟨ret, hret, hpattern⟩ := textCheckData_of_firstWord hline hshort hword
    rw [hid.patternWord_iff] at hpattern
    rw [hret, Option.map_some]
    by_cases hzero : ret = 0
    · have hnone : 0x30 ∉ ds := hpattern.mp hzero
      rw [if_pos hzero]
      constructor
      · rintro (hrefused | ⟨_, _, _, _, _, hcopies⟩)
        · cases hrefused
        · exact absurd (hcopies 0 w hfirst) not_copyInside_first
      · exact fun h => absurd h.2 hnone
    · rw [if_neg hzero]
      have hdigit : 0x30 ∈ ds := by
        by_contra hnone
        exact hzero (hpattern.mpr hnone)
      exact iff_of_true (Or.inl rfl) ⟨hshort, hdigit⟩
  · rw [textCheckData_of_long hline (Nat.not_le.mp hshort), Option.map_none]
    constructor
    · rintro (hrefused | ⟨_, _, hselected, _⟩)
      · cases hrefused
      · cases hselected
    · exact fun h => absurd h.1 hshort

theorem refusedOrPlaced_iff_ten :
    RefusedOrPlaced (Block.zeroed 128) 5 StCmdFrame.zeroed (ascii "[10] get_ip eth0" ++ [0])
      (words 0x20 (ascii "[10]" ++ 0x20 :: ascii "get_ip eth0")) := by
  have hline : cstr (ascii "[10] get_ip eth0" ++ [0])
      = some (ascii "[10]" ++ 0x20 :: ascii "get_ip eth0") := by decide
  have hid : IdWord (ascii "10") (ascii "[10]") := ⟨by decide, by decide +kernel, rfl⟩
  exact (refusedOrPlaced_iff hline hid _ _ _).mpr ⟨by decide, by decide⟩

/-- The id of `[1] get_ip eth0` is copied to the row -2. -/
theorem id_outside_rows :
    ¬ ∀ (tmpStr : Block 128) (fd : Int) (cmd : StCmdFrame) (buf w rest ds : Bytes),
      cstr buf = some (w ++ 0x20 :: rest) → (w ++ 0x20 :: rest).length ≤ 254 → IdWord ds w →
      RefusedOrPlaced tmpStr fd cmd buf (words 0x20 (w ++ 0x20 :: rest)) := by
  intro h
  have hline : cstr (ascii "[1] get_ip eth0" ++ [0])
      = some (ascii "[1]" ++ 0x20 :: ascii "get_ip eth0") := by decide
  have hid : IdWord (ascii "1") (ascii "[1]") := ⟨by decide, by decide +kernel, rfl⟩
  have hplaced := h (Block.zeroed 128) 5 StCmdFrame.zeroed _ _ _ _ hline (by decide) hid
  rcases hplaced with hrefused | ⟨_, _, _, _, _, hcopies⟩
  · have hselected : (doProtocolHandle (Block.zeroed 128) protocolSupported
        (ascii "[1] get_ip eth0" ++ [0])).map Option.isSome = some true := by decide +kernel
    rw [hrefused] at hselected
    cases hselected
  · exact not_copyInside_first (hcopies 0 (ascii "[1]") (by decide))

end InstructionParser
