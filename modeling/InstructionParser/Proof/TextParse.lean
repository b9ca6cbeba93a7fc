import InstructionParser.Protocol.Registry

/-!
# What the text parser pushes

`text_parse` copies the words of the line into its local frame. It returns when every word fits where
it is copied to, and the fields that it does not write are those of the local frame.
-/

namespace InstructionParser

open CLib

/-- Every word, with its zero, ends inside the frame. -/
def TokensFit (tokens : List Bytes) : Prop :=
  ∀ i w, tokens[i]? = some w → tokenOff i + w.length + 1 ≤ arraysSize

variable {cmd c : StCmdFrame} {fd : Int} {buf : Bytes}

theorem zero_mem_of_textCheckData {tmpStr : Block 128} (h : textCheckData tmpStr buf = some 0) :
    0 ∈ buf := by
  simp only [textCheckData, Option.bind_eq_bind, Option.bind_eq_some_iff] at h
  obtain ⟨line, hline, _⟩ := h
  obtain ⟨_, rest, rfl⟩ := cstr_eq_some_iff.mp hline
  simp

theorem storeToken_keeps {i : Nat} {pStr : Bytes} (h : storeToken cmd i pStr = some c) :
    c.cmdId = cmd.cmdId ∧ c.deviceId = cmd.deviceId ∧ c.len = cmd.len := by
  obtain ⟨arrays, _, rfl⟩ := StCmdFrame.store_eq_some_iff.mp h
  split_ifs <;> exact ⟨rfl, rfl, rfl⟩

theorem exists_storeToken_iff (cmd : StCmdFrame) {i : Nat} {pStr : Bytes} :
    (∃ c, storeToken cmd i pStr = some c) ↔ tokenOff i + pStr.length + 1 ≤ arraysSize := by
  rw [← Option.ne_none_iff_exists', storeToken, Ne, StCmdFrame.store_eq_none_iff, not_lt,
    List.length_append, List.length_singleton, Nat.add_assoc]

theorem storeTokens_keeps : ∀ {tokens : List Bytes} {cmd : StCmdFrame} {i : Nat},
    storeTokens cmd i tokens = some c →
    c.cmdId = cmd.cmdId ∧ c.deviceId = cmd.deviceId ∧ c.len = cmd.len := by
  intro tokens
  induction tokens with
  | nil =>
      intro cmd i h
      obtain rfl := Option.some.inj h
      exact ⟨rfl, rfl, rfl⟩
  | cons pStr rest ih =>
      intro cmd i h
      obtain ⟨next, hstore, hrest⟩ := Option.bind_eq_some_iff.mp h
      obtain ⟨hid, hdevice, hlen⟩ := storeToken_keeps hstore
      obtain ⟨hid', hdevice', hlen'⟩ := ih hrest
      exact ⟨hid'.trans hid, hdevice'.trans hdevice, hlen'.trans hlen⟩

theorem exists_storeTokens_iff : ∀ (tokens : List Bytes) (cmd : StCmdFrame) (i : Nat),
    (∃ c, storeTokens cmd i tokens = some c) ↔
      ∀ j w, tokens[j]? = some w → tokenOff (i + j) + w.length + 1 ≤ arraysSize := by
  intro tokens
  induction tokens with
  | nil => simp [storeTokens]
  | cons pStr rest ih =>
      intro cmd i
      constructor
      · rintro ⟨c, h⟩
        obtain ⟨next, hstore, hrest⟩ := Option.bind_eq_some_iff.mp h
        intro j w hw
        cases j with
        | zero =>
            obtain rfl : pStr = w := by simpa using hw
            exact (exists_storeToken_iff cmd).mp ⟨next, hstore⟩
        | succ j =>
            have hfits := (ih next (i + 1)).mp ⟨c, hrest⟩ j w (by simpa using hw)
            rwa [show i + (j + 1) = i + 1 + j by omega]
      · intro h
        obtain ⟨next, hstore⟩ := (exists_storeToken_iff cmd).mpr (h 0 pStr rfl)
        rw [Nat.add_zero] at hstore
        have hrest : ∃ c, storeTokens next (i + 1) rest = some c := by
          refine (ih next (i + 1)).mpr fun j w hw => ?_
          have hfits := h (j + 1) w (by simpa using hw)
          rwa [show i + 1 + j = i + (j + 1) by omega]
        obtain ⟨c, hc⟩ := hrest
        exact ⟨c, by simp [storeTokens, hstore, hc]⟩

theorem storeTokens_append : ∀ (tokens : List Bytes) (cmd : StCmdFrame) (i : Nat) (pStr : Bytes),
    storeTokens cmd i (tokens ++ [pStr])
      = (storeTokens cmd i tokens).bind fun c => storeToken c (i + tokens.length) pStr := by
  intro tokens
  induction tokens with
  | nil => intro cmd i pStr; simp [storeTokens]
  | cons first rest ih =>
      intro cmd i pStr
      simp only [List.cons_append, storeTokens, ih, Option.bind_assoc, List.length_cons]
      rw [show i + (rest.length + 1) = i + 1 + rest.length by omega]

theorem textParse_eq (hzero : 0 ∈ buf) :
    textParse fd cmd buf = (storeTokens cmd 0 (words 0x20 (strBytes buf))).map fun c =>
      finishText fd c (words 0x20 (strBytes buf)).length := by
  have hwords : strtokAll 0x20 (buf.length + 1) buf 0 = some (words 0x20 (strBytes buf)) := by
    have hshort : (strBytes (buf.drop 0)).length < buf.length + 1 :=
      Nat.lt_succ_of_le (List.takeWhile_prefix _).length_le
    exact strtokAll_eq_words (by decide) _ buf 0 (by simpa using hzero) hshort
  simp only [textParse, hwords, Option.bind_eq_bind, Option.bind_some]
  cases storeTokens cmd 0 (words 0x20 (strBytes buf)) <;> rfl

theorem exists_textParse_iff (hzero : 0 ∈ buf) :
    (∃ c, textParse fd cmd buf = some c) ↔ TokensFit (words 0x20 (strBytes buf)) := by
  rw [textParse_eq hzero]
  have hstore := exists_storeTokens_iff (words 0x20 (strBytes buf)) cmd 0
  simp only [Nat.zero_add] at hstore
  rw [TokensFit, ← hstore]
  simp

theorem textParse_cmdId (hzero : 0 ∈ buf) (h : textParse fd cmd buf = some c) :
    c.cmdId = cmd.cmdId := by
  rw [textParse_eq hzero] at h
  obtain ⟨stored, hstored, rfl⟩ := Option.map_eq_some_iff.mp h
  exact (storeTokens_keeps hstored).1

end InstructionParser
