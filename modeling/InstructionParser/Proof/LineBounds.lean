import InstructionParser.Handle
import InstructionParser.Proof.Recognition

/-!
# What the checks read and write

The binary checks read where the line tells them to, and the text check copies the line by the length
that `strlen` finds. Neither looks at the size of what it indexes, so the line decides whether they stay
inside.
-/

namespace InstructionParser

open CLib

variable {tmpStr : Block 128} {buf : Bytes} {headH headL : UInt8}

def Magic (headH headL : UInt8) (buf : Bytes) : Prop :=
  buf[0]? = some headH ∧ buf[1]? = some headL

/-- If the line starts with the magic, the CRC at the length it announces lies inside it. -/
def CrcInside (headH headL : UInt8) (buf : Bytes) : Prop :=
  Magic headH headL buf → ∀ len ∈ readBe16 buf 2, len.toNat + 2 ≤ buf.length

/-- The copy that `text_check_data` makes lies inside `tmp_str` and is terminated there. -/
def CopyTerminated (tmpStr : Block 128) (buf : Bytes) : Prop :=
  ∀ line, cstr buf = some line → ∃ copied, tmpStr.write 0 line = some copied ∧ 0 ∈ copied.bytes

/-- In whatever order the protocols are registered, the search stays inside the line and `tmp_str`, and
a terminated string is tokenised. -/
structure StaysInside (tmpStr : Block 128) (buf : Bytes) : Prop where
  search : ∀ order : List ProtocolSet, order.Perm protocols →
    ∃ found, doProtocolHandle tmpStr (order.foldl registerProtocol []) buf = some found
  copy : CopyTerminated tmpStr buf

/-- The condition on the line and on what `tmp_str` holds before. -/
structure FitsChecks (tmpStr : Block 128) (buf : Bytes) : Prop where
  ht_crc : CrcInside 0x48 0x54 buf
  sl_crc : CrcInside 0x22 0x53 buf
  terminated : 0 ∈ buf
  zero_behind : 0 ∈ tmpStr.bytes.drop (strBytes buf).length

theorem exists_checkFrame_iff (hlong : 4 ≤ buf.length) :
    (∃ ret, checkFrame headH headL buf = some ret) ↔ CrcInside headH headL buf := by
  have hread : ∀ i < 4, ∃ b, buf[i]? = some b :=
    fun i hi => ⟨_, List.getElem?_eq_getElem (Nat.lt_of_lt_of_le hi hlong)⟩
  obtain ⟨b0, h0⟩ := hread 0 (by decide)
  obtain ⟨b1, h1⟩ := hread 1 (by decide)
  obtain ⟨len, hlen⟩ := exists_readBe16 (show 2 + 2 ≤ buf.length from hlong)
  have hmember : (∀ len ∈ readBe16 buf 2, len.toNat + 2 ≤ buf.length)
      ↔ len.toNat + 2 ≤ buf.length := by
    rw [hlen]
    exact ⟨fun h => h len rfl, fun h len' hlen' => by cases hlen'; exact h⟩
  rw [CrcInside, Magic, hmember]
  simp only [checkFrame, h0, h1, hlen, Option.bind_eq_bind, Option.bind_some, Option.some.injEq]
  by_cases hmagic : b0 = headH ∧ b1 = headL
  · obtain ⟨hH, hL⟩ := hmagic
    rw [if_neg (not_not.mpr hH), if_neg (not_not.mpr hL)]
    constructor
    · rintro ⟨ret, hret⟩ _
      obtain ⟨dataCrc, hcrc, _⟩ := Option.bind_eq_some_iff.mp hret
      exact readBe16_length hcrc
    · intro hinside
      obtain ⟨dataCrc, hcrc⟩ := exists_readBe16 (hinside ⟨hH, hL⟩)
      rw [hcrc, Option.bind_some]
      split_ifs
      · exact ⟨_, rfl⟩
      · exact ⟨_, rfl⟩
  · constructor
    · exact fun _ h => absurd h hmagic
    · intro _
      by_cases hH : b0 = headH
      · rw [if_neg (not_not.mpr hH), if_pos fun hL => hmagic ⟨hH, hL⟩]
        exact ⟨-1, rfl⟩
      · rw [if_pos hH]
        exact ⟨-1, rfl⟩

theorem copyTerminated_iff (hzero : 0 ∈ buf) :
    CopyTerminated tmpStr buf ↔ 0 ∈ tmpStr.bytes.drop (strBytes buf).length := by
  have hline : cstr buf = some (strBytes buf) := if_pos hzero
  constructor
  · intro h
    obtain ⟨copied, hwrite, hmem⟩ := h _ hline
    rw [(Block.write_eq_some_iff.mp hwrite).2, patch, List.take_zero, List.nil_append, Nat.zero_add,
      List.mem_append] at hmem
    exact hmem.resolve_left (zero_notMem_strBytes buf)
  · intro hmem line hline'
    obtain rfl := Option.some.inj (hline.symm.trans hline')
    have hlt := List.length_pos_of_mem hmem
    rw [List.length_drop, tmpStr.size_eq] at hlt
    obtain ⟨copied, hwrite, hbytes⟩ := Block.exists_write (b := tmpStr)
      (show 0 + (strBytes buf).length ≤ 128 by omega)
    refine ⟨copied, hwrite, ?_⟩
    rw [hbytes, patch, List.mem_append, Nat.zero_add]
    exact Or.inr hmem

theorem exists_textCheckData (hzero : 0 ∈ buf) (hcopy : CopyTerminated tmpStr buf) :
    ∃ ret, textCheckData tmpStr buf = some ret := by
  have hline : cstr buf = some (strBytes buf) := if_pos hzero
  obtain ⟨copied, hwrite, hmem⟩ := hcopy _ hline
  obtain ⟨⟨pStr, after, pos⟩, htok⟩ := exists_strtok (d := 0x20) (by decide)
    (show 0 ∈ copied.bytes.drop 0 from hmem)
  simp only [textCheckData, hline, hwrite, htok, Option.bind_eq_bind, Option.bind_some]
  cases pStr with
  | none => exact ⟨-1, rfl⟩
  | some pStr =>
      simp only
      split_ifs
      · exact ⟨0, rfl⟩
      · exact ⟨-1, rfl⟩

/-- The check of the protocol that is registered first is always run. -/
theorem exists_checkData_of_search {protocol : ProtocolSet} {rest : List ProtocolSet}
    (h : ∃ found, doProtocolHandle tmpStr ((protocol :: rest).foldl registerProtocol []) buf
      = some found) : ∃ ret, protocol.checkData tmpStr buf = some ret := by
  obtain ⟨found, hfound⟩ := h
  rw [foldl_registerProtocol, List.nil_append, doProtocolHandle] at hfound
  obtain ⟨ret, hret, _⟩ := Option.bind_eq_some_iff.mp hfound
  exact ⟨ret, hret⟩

theorem readLine_length {chunk : Bytes} (h : chunk.length ≤ 255) : (readLine chunk).length = 255 := by
  rw [readLine, List.length_append, List.length_replicate, Nat.add_sub_cancel' h]

/-- **Bounds of the checks.** For every line that `handle` can present and everything that `tmp_str` may
hold before: the search stays inside in every order of registration if and only if the announced length
of a binary frame ends inside the line, the line is terminated, and `tmp_str` holds a zero at or behind
the place where the copied line ends. -/
theorem staysInside_iff {chunk : Bytes} (hread : 1 ≤ chunk.length ∧ chunk.length ≤ 255)
    (tmpStr : Block 128) : StaysInside tmpStr (readLine chunk) ↔ FitsChecks tmpStr (readLine chunk) := by
  have hlong : 4 ≤ (readLine chunk).length := by
    rw [readLine_length hread.2]
    decide
  constructor
  · intro h
    obtain ⟨ret, htext⟩ := exists_checkData_of_search (h.search [textProtocol, slProtocol, htProtocol]
      (List.reverse_perm protocols))
    obtain ⟨line, hline, _⟩ := Option.bind_eq_some_iff.mp htext
    obtain ⟨_, tail, hsplit⟩ := cstr_eq_some_iff.mp hline
    have hzero : 0 ∈ readLine chunk := by
      rw [hsplit]
      simp
    refine ⟨?_, ?_, hzero, (copyTerminated_iff hzero).mp h.copy⟩
    · exact (exists_checkFrame_iff hlong).mp
        (exists_checkData_of_search (h.search protocols (List.Perm.refl _)))
    · exact (exists_checkFrame_iff hlong).mp (exists_checkData_of_search
        (h.search [slProtocol, htProtocol, textProtocol] (List.Perm.swap _ _ _)))
  · intro h
    have hcopy := (copyTerminated_iff h.terminated).mpr h.zero_behind
    refine ⟨fun order hperm => ?_, hcopy⟩
    rw [foldl_registerProtocol, List.nil_append, doProtocolHandle_eq_find]
    · exact ⟨_, rfl⟩
    · intro p hp
      have hmem := hperm.subset hp
      simp only [protocols, List.mem_cons, List.not_mem_nil, or_false] at hmem
      rcases hmem with rfl | rfl | rfl
      · exact (exists_checkFrame_iff hlong).mpr h.ht_crc
      · exact (exists_checkFrame_iff hlong).mpr h.sl_crc
      · exact exists_textCheckData h.terminated hcopy

theorem staysInside_iff_help : StaysInside (Block.zeroed 128) (readLine (ascii "[1] help")) := by
  have hread : 1 ≤ (ascii "[1] help").length ∧ (ascii "[1] help").length ≤ 255 := by decide
  refine (staysInside_iff hread _).mpr ⟨?_, ?_, ?_, ?_⟩
  · exact fun hmagic => absurd hmagic.1 (by decide)
  · exact fun hmagic => absurd hmagic.1 (by decide)
  · decide +kernel
  · decide +kernel

/-- An HT frame that announces 65535 bytes. -/
theorem length_leaves_line :
    ¬ ∀ (chunk : Bytes) (tmpStr : Block 128), 1 ≤ chunk.length ∧ chunk.length ≤ 255 →
      StaysInside tmpStr (readLine chunk) := by
  intro h
  have hinside := (h [0x48, 0x54, 0xff, 0xff] (Block.zeroed 128) (by decide)).search protocols
    (List.Perm.refl _)
  obtain ⟨found, hfound⟩ := hinside
  have hnone : doProtocolHandle (Block.zeroed 128) (protocols.foldl registerProtocol [])
      (readLine [0x48, 0x54, 0xff, 0xff]) = none := rfl
  rw [hnone] at hfound
  cases hfound

end InstructionParser
