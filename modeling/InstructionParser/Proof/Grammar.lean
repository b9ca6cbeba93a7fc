import InstructionParser.CLib.Decimal
import InstructionParser.Proof.LineBounds

/-!
# The grammar of a text line

A text line is documented as `[id] cmd ...`. The pattern that the check compiles has lost its
backslashes: it knows no digit 0, it does not ask for the opening bracket, and it sees the first word
only, which runs on into what `tmp_str` held when the line has no blank.
-/

namespace InstructionParser

open CLib

variable {tmpStr : Block 128} {buf line mem w w' : Bytes}

/-- `[id]`, with decimal digits. -/
def IdWord (ds w : Bytes) : Prop :=
  ds ≠ [] ∧ (∀ d ∈ ds, isDigit d = true) ∧ w = 0x5b :: (ds ++ [0x5d])

/-- The documented form: `[id]`, then a blank. -/
def Documented (line : Bytes) : Prop := ∃ ds w rest, IdWord ds w ∧ line = w ++ 0x20 :: rest

/-- The first word that stands in memory, and empty when there is only the end of a string. -/
def FirstWord (mem w : Bytes) : Prop :=
  ∃ ds b rest, mem = ds ++ (w ++ b :: rest) ∧ (∀ x ∈ ds, x = 0x20) ∧ (∀ x ∈ w, x ≠ 0x20 ∧ x ≠ 0)
    ∧ (b = 0x20 ∨ b = 0) ∧ (w = [] → b ≠ 0x20)

theorem FirstWord.strtok_eq (h : FirstWord mem w) :
    ∃ mem' pos', strtok 0x20 mem 0 = some (if w = [] then none else some w, mem', pos') := by
  obtain ⟨ds, b, rest, hsplit, hds, hw, hb, hnil⟩ := h
  by_cases hempty : w = []
  · refine ⟨mem, 0 + ds.length, strtok_eq_some_iff.mpr
      ⟨ds, w, b, rest, by rwa [List.drop_zero], hds, hw, hb, hnil, ?_⟩⟩
    rw [if_pos hempty, if_pos hempty]
  · by_cases hblank : b = 0x20
    · refine ⟨mem.set (0 + ds.length + w.length) 0, 0 + ds.length + w.length + 1,
        strtok_eq_some_iff.mpr
          ⟨ds, w, b, rest, by rwa [List.drop_zero], hds, hw, hb, hnil, ?_⟩⟩
      rw [if_neg hempty, if_neg hempty, if_pos hblank]
    · refine ⟨mem, 0 + ds.length + w.length, strtok_eq_some_iff.mpr
        ⟨ds, w, b, rest, by rwa [List.drop_zero], hds, hw, hb, hnil, ?_⟩⟩
      rw [if_neg hempty, if_neg hempty, if_neg hblank]

theorem exists_firstWord {r : Option Bytes} {mem' : Bytes} {pos' : Nat}
    (h : strtok 0x20 mem 0 = some (r, mem', pos')) : ∃ w, FirstWord mem w := by
  obtain ⟨ds, w, b, rest, hsplit, hds, hw, hb, hnil, _⟩ := strtok_eq_some_iff.mp h
  exact ⟨w, ds, b, rest, by rwa [List.drop_zero] at hsplit, hds, hw, hb, hnil⟩

theorem FirstWord.unique (h : FirstWord mem w) (h' : FirstWord mem w') : w = w' := by
  obtain ⟨_, _, heq⟩ := h.strtok_eq
  obtain ⟨_, _, heq'⟩ := h'.strtok_eq
  have hsame := congrArg Prod.fst (Option.some.inj (heq.symm.trans heq'))
  simp only at hsame
  split_ifs at hsame with hw hw'
  · rw [hw, hw']
  · exact Option.some.inj hsame

theorem firstWord_of_blank {rest : Bytes} (hw : ∀ x ∈ w, x ≠ 0x20 ∧ x ≠ 0) (hne : w ≠ []) :
    FirstWord (w ++ 0x20 :: rest) w :=
  ⟨[], 0x20, rest, rfl, by simp, hw, Or.inl rfl, fun h => absurd h hne⟩

/-! ### What the check sees -/

theorem textCheckData_of_cstr (hline : cstr buf = some line) (hshort : line.length ≤ 128) :
    textCheckData tmpStr buf =
      (strtok 0x20 (line ++ tmpStr.bytes.drop line.length) 0).map fun result =>
        match result.1 with
        | none => -1
        | some w => if textPattern.rmatch w then 0 else -1 := by
  obtain ⟨copied, hwrite, hbytes⟩ := Block.exists_write (b := tmpStr)
    (show 0 + line.length ≤ 128 by omega)
  have hcopied : copied.bytes = line ++ tmpStr.bytes.drop line.length := by
    rw [hbytes, patch, List.take_zero, List.nil_append, Nat.zero_add]
  simp only [textCheckData, hline, hwrite, hcopied, Option.bind_eq_bind, Option.bind_some]
  cases strtok 0x20 (line ++ tmpStr.bytes.drop line.length) 0 with
  | none => rfl
  | some result =>
      obtain ⟨pStr, mem', pos'⟩ := result
      cases pStr with
      | none => rfl
      | some w =>
          simp only [Option.bind_some, Option.map_some]
          split_ifs <;> rfl

theorem patternWord_ne_nil (h : PatternWord w) : w ≠ [] := by
  obtain ⟨c, _, rest, rfl⟩ := h.head
  exact List.cons_ne_nil c rest

theorem textCheckData_of_firstWord (hline : cstr buf = some line) (hshort : line.length ≤ 128)
    (hw : FirstWord (line ++ tmpStr.bytes.drop line.length) w) :
    ∃ ret, textCheckData tmpStr buf = some ret ∧ (ret = 0 ↔ PatternWord w) := by
  obtain ⟨_, _, htok⟩ := hw.strtok_eq
  rw [textCheckData_of_cstr hline hshort, htok, Option.map_some]
  by_cases hempty : w = []
  · refine ⟨-1, by rw [if_pos hempty], ?_⟩
    exact iff_of_false (by decide) fun h => patternWord_ne_nil h hempty
  · rw [if_neg hempty, ← textPattern_rmatch_iff]
    refine ⟨_, rfl, ?_⟩
    simp only
    split_ifs with hmatch
    · exact iff_of_true rfl hmatch
    · exact iff_of_false (by decide) hmatch

theorem exists_firstWord_of_textCheckData (hline : cstr buf = some line)
    (hshort : line.length ≤ 128) {ret : Int} (h : textCheckData tmpStr buf = some ret) :
    ∃ w, FirstWord (line ++ tmpStr.bytes.drop line.length) w := by
  rw [textCheckData_of_cstr hline hshort, Option.map_eq_some_iff] at h
  obtain ⟨⟨r, mem', pos'⟩, htok, _⟩ := h
  exact exists_firstWord htok

/-! ### Ids -/

theorem IdWord.token {ds : Bytes} (h : IdWord ds w) : ∀ x ∈ w, x ≠ 0x20 ∧ x ≠ 0 := by
  obtain ⟨_, hds, rfl⟩ := h
  intro x hx
  simp only [List.mem_cons, List.mem_append, List.not_mem_nil, or_false] at hx
  rcases hx with rfl | hx | rfl
  · decide
  · have hbounds := isDigit_iff.mp (hds x hx)
    constructor
    · rintro rfl
      exact absurd hbounds.1 (by decide)
    · rintro rfl
      exact absurd hbounds.1 (by decide)
  · decide

/-- The pattern takes an id exactly when it has no digit 0. -/
theorem IdWord.patternWord_iff {ds : Bytes} (h : IdWord ds w) : PatternWord w ↔ 0x30 ∉ ds := by
  obtain ⟨hne, hds, rfl⟩ := h
  constructor
  · rintro ⟨cs, _, hcs, heq⟩ hzero
    rw [← List.cons_append] at heq
    obtain rfl := List.append_cancel_right heq
    exact absurd (hcs 0x30 (List.mem_cons_of_mem _ hzero)) (by decide)
  · intro hzero
    have hdigit : ∀ n : Fin 256, 0x30 < n.val → n.val ≤ 0x39 →
        UInt8.ofNat n.val ∈ ascii "[123456789" := by decide +kernel
    refine ⟨0x5b :: ds, List.cons_ne_nil _ _, ?_, rfl⟩
    intro c hc
    rcases List.mem_cons.mp hc with rfl | hc
    · decide
    · obtain ⟨hlow, hhigh⟩ := isDigit_iff.mp (hds c hc)
      have hne : c.toNat ≠ 0x30 := fun heq => hzero ((UInt8.toNat_inj.mp heq : c = 0x30) ▸ hc)
      have hmem := hdigit ⟨c.toNat, c.toNat_lt⟩ (Nat.lt_of_le_of_ne hlow (Ne.symm hne)) hhigh
      rwa [UInt8.ofNat_toNat] at hmem

theorem documented_iff (hzero : 0 ∉ line) (hspace : line.head? ≠ some 0x20) {rest : Bytes}
    (hw : FirstWord (line ++ rest) w) : Documented line ↔ 0x20 ∈ line ∧ ∃ ds, IdWord ds w := by
  constructor
  · rintro ⟨ds, w', tail, hid, rfl⟩
    refine ⟨by simp, ds, ?_⟩
    rw [List.append_assoc, List.cons_append] at hw
    obtain ⟨hne, _, hform⟩ := id hid
    obtain rfl := hw.unique (firstWord_of_blank hid.token (hform ▸ List.cons_ne_nil _ _))
    exact hid
  · rintro ⟨hblank, ds, hid⟩
    obtain ⟨first, tail, rfl, hfirst⟩ := List.eq_append_cons_of_mem hblank
    have hne : first ≠ [] := by
      rintro rfl
      exact hspace rfl
    have htoken : ∀ x ∈ first, x ≠ 0x20 ∧ x ≠ 0 := by
      intro x hx
      refine ⟨fun h => hfirst (h ▸ hx), fun h => hzero ?_⟩
      exact List.mem_append_left _ (h ▸ hx)
    rw [List.append_assoc, List.cons_append] at hw
    obtain rfl := hw.unique (firstWord_of_blank htoken hne)
    exact ⟨ds, w, tail, hid, rfl⟩

/-- The check takes exactly the documented lines. -/
def TakesGrammar (tmpStr : Block 128) (buf line : Bytes) : Prop :=
  ∃ ret, textCheckData tmpStr buf = some ret ∧ (ret = 0 ↔ Documented line)

/-- The condition: the first word ends inside `tmp_str`, and the pattern does not go wrong on it. If
the line ends it by a blank, it is not an id with a digit 0, and it is an id if the pattern matches it;
otherwise the pattern does not match it. -/
structure PlainWord (tmpStr : Block 128) (line w : Bytes) : Prop where
  first : FirstWord (line ++ tmpStr.bytes.drop line.length) w
  no_zero : 0x20 ∈ line → ∀ ds, IdWord ds w → 0x30 ∉ ds
  no_stray : 0x20 ∈ line → PatternWord w → ∃ ds, IdWord ds w
  no_residue : 0x20 ∉ line → ¬ PatternWord w

/-- **The text grammar.** For every terminated line shorter than 128 bytes that does not begin with a
blank and everything that `tmp_str` may hold: the check takes it exactly when it is documented, if and
only if its first word is plain. -/
theorem takesGrammar_iff (hline : cstr buf = some line) (hshort : line.length < 128)
    (hspace : line.head? ≠ some 0x20) (tmpStr : Block 128) :
    TakesGrammar tmpStr buf line ↔ ∃ w, PlainWord tmpStr line w := by
  have hzero := zero_notMem_of_cstr hline
  constructor
  · rintro ⟨ret, hret, hiff⟩
    obtain ⟨w, hw⟩ := exists_firstWord_of_textCheckData hline (Nat.le_of_lt hshort) hret
    obtain ⟨ret', hret', hpattern⟩ := textCheckData_of_firstWord hline (Nat.le_of_lt hshort) hw
    obtain rfl := Option.some.inj (hret.symm.trans hret')
    rw [hpattern, documented_iff hzero hspace hw] at hiff
    refine ⟨w, hw, ?_, fun _ h => (hiff.mp h).2, fun hblank h => hblank (hiff.mp h).1⟩
    intro hblank ds hid
    exact hid.patternWord_iff.mp (hiff.mpr ⟨hblank, ds, hid⟩)
  · rintro ⟨w, hplain⟩
    obtain ⟨ret, hret, hpattern⟩ :=
      textCheckData_of_firstWord hline (Nat.le_of_lt hshort) hplain.first
    refine ⟨ret, hret, ?_⟩
    rw [hpattern, documented_iff hzero hspace hplain.first]
    constructor
    · intro h
      have hblank : 0x20 ∈ line := by
        by_contra hnone
        exact hplain.no_residue hnone h
      exact ⟨hblank, hplain.no_stray hblank h⟩
    · rintro ⟨hblank, ds, hid⟩
      exact hid.patternWord_iff.mpr (hplain.no_zero hblank ds hid)

theorem takesGrammar_iff_help :
    TakesGrammar (Block.zeroed 128) (ascii "[1] help" ++ [0]) (ascii "[1] help") := by
  have hline : cstr (ascii "[1] help" ++ [0]) = some (ascii "[1] help") := by decide
  refine (takesGrammar_iff hline (by decide) (by decide) _).mpr ⟨ascii "[1]", ?_, ?_, ?_, ?_⟩
  · exact firstWord_of_blank (w := ascii "[1]") (by decide +kernel) (by decide)
  · rintro _ ds ⟨_, _, hform⟩ hzero
    have hmem : 0x30 ∈ ascii "[1]" := hform ▸ List.mem_cons_of_mem _ (List.mem_append_left _ hzero)
    exact absurd hmem (by decide)
  · exact fun _ _ => ⟨[0x31], by decide, by decide +kernel, rfl⟩
  · exact fun hnone => absurd (by decide) hnone

/-- The pattern refuses the id 10. -/
theorem id_ten_refused :
    ¬ ∀ (tmpStr : Block 128) (buf line : Bytes), cstr buf = some line → line.length < 128 →
      line.head? ≠ some 0x20 → TakesGrammar tmpStr buf line := by
  intro h
  obtain ⟨ret, hret, hiff⟩ := h (Block.zeroed 128) (ascii "[10] help" ++ [0]) (ascii "[10] help")
    (by decide) (by decide) (by decide)
  have hrefused : textCheckData (Block.zeroed 128) (ascii "[10] help" ++ [0]) = some (-1) := by
    decide +kernel
  obtain rfl := Option.some.inj (hret.symm.trans hrefused)
  have hdocumented : Documented (ascii "[10] help") :=
    ⟨[0x31, 0x30], ascii "[10]", ascii "help", ⟨by decide, by decide +kernel, rfl⟩, rfl⟩
  exact absurd (hiff.mpr hdocumented) (by decide)

end InstructionParser
