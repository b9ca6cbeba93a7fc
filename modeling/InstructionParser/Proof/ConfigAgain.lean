import InstructionParser.Proof.ConfigFile

/-!
# Updating the configuration file again

Whatever stands in front of the place that `config_file` writes to is read in the same pieces by the
next call, and none of them is of the attribute. The line that was written is the first that is, so the
next call writes it to the same place.
-/

namespace InstructionParser

open CLib

variable {file front back piece atrribute value buffer1 buffer1' : Bytes}

/-! ### Pieces of a file -/

/-- One call of `fgets` reads this much, whatever follows. -/
def IsPiece (piece : Bytes) : Prop := piece ≠ [] ∧ ∀ back, fgets (piece ++ back) = (piece, back)

/-- `front` is read in pieces none of which is of the attribute, and `buffer1` goes along. -/
inductive PassesOver (atrribute : Bytes) : Bytes → Bytes → Bytes → Prop where
  | nil (buffer1 : Bytes) : PassesOver atrribute [] buffer1 buffer1
  | cons {piece front buffer1 buffer1' : Bytes} (hpiece : IsPiece piece) (hzero : 0 ∉ piece)
      (hother : atrribute ≠ scanAttribute piece buffer1)
      (h : PassesOver atrribute front (scanAttribute piece buffer1) buffer1') :
      PassesOver atrribute (piece ++ front) buffer1 buffer1'

theorem fgets_long {body : Bytes} (hbody : ∀ b ∈ body, b ≠ 0x0a) (hlong : body.length = 511)
    (back : Bytes) : fgets (body ++ back) = (body, back) := by
  have hn : min 511 ((List.takeWhile (· ≠ 0x0a) (body ++ back)).length + 1) = body.length := by
    rw [List.takeWhile_append_of_pos fun b hb => by simpa using hbody b hb, List.length_append]
    omega
  simp only [fgets, hn, List.take_left, List.drop_left]

theorem isPiece_fgets (hend : file.getLast? = some 0x0a) : IsPiece (fgets file).1 := by
  obtain ⟨body, back, hfile, hbody⟩ := List.eq_append_cons_of_mem (List.mem_of_getLast? hend)
  have hnoEnd : ∀ b ∈ body, b ≠ 0x0a := fun b hb heq => hbody (heq ▸ hb)
  by_cases hshort : body.length + 1 < 512
  · rw [hfile, fgets_line hnoEnd hshort]
    refine ⟨by simp, fun next => ?_⟩
    rw [List.append_assoc]
    exact fgets_line hnoEnd hshort next
  · have hlength : (body.take 511).length = 511 := by
      rw [List.length_take]
      omega
    have htaken : ∀ b ∈ body.take 511, b ≠ 0x0a := fun b hb => hnoEnd b (List.mem_of_mem_take hb)
    have hsplit : file = body.take 511 ++ (body.drop 511 ++ 0x0a :: back) := by
      rw [← List.append_assoc, List.take_append_drop, hfile]
    rw [hsplit, fgets_long htaken hlength]
    refine ⟨fun hnil => ?_, fgets_long htaken hlength⟩
    change body.take 511 = [] at hnil
    rw [hnil] at hlength
    cases hlength

theorem fgets_append (file : Bytes) : (fgets file).1 ++ (fgets file).2 = file :=
  List.take_append_drop _ _

/-! ### The search -/

theorem PassesOver.search (h : PassesOver atrribute front buffer1 buffer1') (fuel len : Nat)
    (hfuel : (front ++ back).length < fuel) :
    ∃ fuel', back.length < fuel' ∧ searchLoop atrribute fuel (front ++ back) buffer1 len
      = searchLoop atrribute fuel' back buffer1' (len + front.length) := by
  induction h generalizing fuel len with
  | nil buffer1 => exact ⟨fuel, hfuel, rfl⟩
  | @cons piece front buffer1 buffer1' hpiece hzero hother _ ih =>
      obtain ⟨hne, hread⟩ := hpiece
      obtain ⟨fuel, rfl⟩ := Nat.exists_eq_succ_of_ne_zero (Nat.ne_of_gt (Nat.zero_lt_of_lt hfuel))
      have hpos := List.length_pos_iff.mpr hne
      simp only [List.length_append] at hfuel
      obtain ⟨fuel', hfuel', hsearch⟩ := ih fuel (len + piece.length) (by rw [List.length_append]; omega)
      refine ⟨fuel', hfuel', ?_⟩
      rw [List.append_assoc, searchLoop, if_neg (by simp [hne])]
      simp only [hread, strBytes_of_notMem hzero, if_neg hother, hsearch, List.length_append,
        Nat.add_assoc]

theorem exists_passesOver (hzero : 0 ∉ file) (hend : file = [] ∨ file.getLast? = some 0x0a)
    {fuel len : Nat} {found : Search}
    (h : searchLoop atrribute fuel file buffer1 len = some found) :
    ∃ front back buffer1', file = front ++ back ∧ PassesOver atrribute front buffer1 buffer1'
      ∧ ((∃ lineLen, found = .found (len + front.length) lineLen atrribute)
        ∨ back = [] ∧ found = .missing (len + front.length)) := by
  induction fuel generalizing file buffer1 len with
  | zero => cases h
  | succ fuel ih =>
      simp only [searchLoop] at h
      split_ifs at h with hnil hown
      · obtain rfl := Option.some.inj h
        exact ⟨[], [], buffer1, hnil, .nil _, Or.inr ⟨rfl, rfl⟩⟩
      · obtain rfl := Option.some.inj h
        refine ⟨[], file, buffer1, rfl, .nil _, Or.inl ⟨(strBytes (fgets file).1).length, ?_⟩⟩
        rw [← hown, List.length_nil, Nat.add_zero]
      · have hpiece := isPiece_fgets (hend.resolve_left hnil)
        have hsplit := fgets_append file
        generalize (fgets file).1 = piece at *
        generalize (fgets file).2 = rest at *
        subst hsplit
        rw [List.mem_append, not_or] at hzero
        rw [strBytes_of_notMem hzero.1] at hown h
        have hrest : rest = [] ∨ rest.getLast? = some 0x0a := by
          cases rest with
          | nil => exact Or.inl rfl
          | cons b rest =>
              rw [List.getLast?_append_cons] at hend
              exact Or.inr (hend.resolve_left (by simp))
        obtain ⟨front, back, buffer1', rfl, hpasses, hfound⟩ := ih hzero.2 hrest h
        refine ⟨piece ++ front, back, buffer1', (List.append_assoc _ _ _).symm,
          .cons hpiece hzero.1 hown hpasses, ?_⟩
        rwa [List.length_append, ← Nat.add_assoc]

/-! ### The line that was written -/

/-- The first line feed stands behind the equals sign, in the value or at its end. -/
theorem configLine_split (atrribute value : Bytes) :
    ∃ body tail, configLine atrribute value = atrribute ++ 0x3d :: body ++ 0x0a :: tail
      ∧ 0x0a ∉ body := by
  obtain ⟨body, tail, hvalue, hbody⟩ := List.eq_append_cons_of_mem
    (show (0x0a : UInt8) ∈ value ++ [0x0a] by simp)
  refine ⟨body, tail, ?_, hbody⟩
  calc configLine atrribute value
      = atrribute ++ 0x3d :: (value ++ [0x0a]) := by simp [configLine, ascii]
    _ = atrribute ++ 0x3d :: body ++ 0x0a :: tail := by rw [hvalue]; simp

/-- `fgets` reads the new line up to its first line feed, and `buffer1` becomes its attribute. -/
theorem searchLoop_configLine (hne : atrribute ≠ [])
    (hname : ∀ b ∈ atrribute, b ≠ 0x3d ∧ b ≠ 0x0a ∧ b ≠ 0)
    (hshort : (configLine atrribute value).length < 512) {fuel : Nat} (hfuel : 0 < fuel)
    (back buffer1 : Bytes) (len : Nat) :
    ∃ lineLen ≤ (configLine atrribute value).length,
      searchLoop atrribute fuel (configLine atrribute value ++ back) buffer1 len
        = some (.found len lineLen atrribute) := by
  obtain ⟨fuel, rfl⟩ := Nat.exists_eq_succ_of_ne_zero (Nat.ne_of_gt hfuel)
  obtain ⟨body, tail, hline, hbody⟩ := configLine_split atrribute value
  have hhead : ∀ b ∈ atrribute ++ 0x3d :: body, b ≠ 0x0a := by
    intro b hb
    rcases List.mem_append.mp hb with hb | hb
    · exact (hname b hb).2.1
    · rcases List.mem_cons.mp hb with rfl | hb
      · decide
      · exact fun heq => hbody (heq ▸ hb)
  rw [hline, List.length_append, List.length_cons] at hshort
  have hread : fgets (configLine atrribute value ++ back)
      = (atrribute ++ 0x3d :: body ++ [0x0a], tail ++ back) := by
    rw [hline, List.append_assoc, List.cons_append]
    apply fgets_line hhead
    omega
  have hstr : strBytes (atrribute ++ 0x3d :: body ++ [0x0a])
      = atrribute ++ 0x3d :: strBytes (body ++ [0x0a]) := by
    rw [List.append_assoc, strBytes_append_of_notMem fun hmem => (hname 0 hmem).2.2 rfl,
      List.cons_append, strBytes_cons, if_neg (by decide)]
  have hscan : scanAttribute (atrribute ++ 0x3d :: strBytes (body ++ [0x0a])) buffer1 = atrribute := by
    rw [scanAttribute, takeWhile_name fun b hb => (hname b hb).1, if_neg hne]
  refine ⟨(atrribute ++ 0x3d :: strBytes (body ++ [0x0a])).length, ?_, ?_⟩
  · have hcut : (strBytes (body ++ [0x0a])).length ≤ (body ++ [0x0a]).length :=
      (List.takeWhile_prefix _).length_le
    rw [hline]
    simp only [List.length_append, List.length_cons, List.length_nil] at hcut ⊢
    omega
  · simp only [searchLoop, hread, hstr, hscan]
    rw [if_neg (by simp [hline])]
    exact if_pos trivial

theorem writeAt_cleared (front rest line : Bytes) (lineLen : Nat) :
    writeAt (writeAt (front ++ rest) front.length (List.replicate lineLen 0)) front.length line
      = front ++ (line ++ (List.replicate lineLen 0 ++ rest.drop lineLen).drop line.length) := by
  rw [writeAt_behind, writeAt_behind, List.length_replicate]

theorem configFile_again (hne : atrribute ≠ [])
    (hname : ∀ b ∈ atrribute, b ≠ 0x3d ∧ b ≠ 0x0a ∧ b ≠ 0)
    (hshort : (configLine atrribute value).length < 512)
    (h : PassesOver atrribute front [] buffer1) (back : Bytes) :
    configFile true (front ++ (configLine atrribute value ++ back)) atrribute value
      = some (0, front ++ (configLine atrribute value ++ back)) := by
  obtain ⟨fuel, hfuel, hsearch⟩ := h.search _ 0
    (Nat.lt_succ_self (front ++ (configLine atrribute value ++ back)).length)
  obtain ⟨lineLen, hlineLen, hfound⟩ := searchLoop_configLine hne hname hshort
    (Nat.zero_lt_of_lt hfuel) back buffer1 (0 + front.length)
  rw [hfound, Nat.zero_add] at hsearch
  have hback : (List.replicate lineLen 0 ++ (configLine atrribute value ++ back).drop lineLen).drop
      (configLine atrribute value).length = back := by
    have hzeros : (List.replicate lineLen (0 : UInt8)).length ≤ (configLine atrribute value).length := by
      rwa [List.length_replicate]
    calc (List.replicate lineLen 0 ++ (configLine atrribute value ++ back).drop lineLen).drop
          (configLine atrribute value).length
        = ((configLine atrribute value ++ back).drop lineLen).drop
          ((configLine atrribute value).length - lineLen) := by
          rw [List.drop_append, List.drop_eq_nil_of_le hzeros, List.nil_append, List.length_replicate]
      _ = (configLine atrribute value ++ back).drop (configLine atrribute value).length := by
          rw [List.drop_drop, Nat.add_sub_cancel' hlineLen]
      _ = back := List.drop_left
  rw [configFile_found value hsearch, writeAt_cleared, hback]

theorem exists_written (hzero : 0 ∉ file) (hend : file = [] ∨ file.getLast? = some 0x0a)
    {file' : Bytes} (h : configFile true file atrribute value = some (0, file')) :
    ∃ front back buffer1, PassesOver atrribute front [] buffer1
      ∧ file' = front ++ (configLine atrribute value ++ back) := by
  obtain ⟨found, hsearch⟩ := exists_searchLoop atrribute (file.length + 1) file [] 0 (Nat.lt_succ_self _)
  obtain ⟨front, back, buffer1, hfile, hpasses, hfound⟩ := exists_passesOver hzero hend hsearch
  rw [Nat.zero_add] at hfound
  rcases hfound with ⟨lineLen, rfl⟩ | ⟨rfl, rfl⟩
  · rw [configFile_found value hsearch] at h
    obtain rfl := (Prod.mk.inj (Option.some.inj h)).2
    rw [hfile, writeAt_cleared]
    exact ⟨front, _, buffer1, hpasses, rfl⟩
  · rw [configFile_missing value hsearch] at h
    obtain rfl := (Prod.mk.inj (Option.some.inj h)).2
    rw [hfile, writeAt_behind]
    exact ⟨front, _, buffer1, hpasses, rfl⟩

/-- **Updating twice.** When a call of `config_file` succeeds, the same call again succeeds and leaves
the file as it is. -/
theorem configFile_idempotent {opens : Bool} {file' : Bytes} (hzero : 0 ∉ file)
    (hend : file = [] ∨ file.getLast? = some 0x0a) (hne : atrribute ≠ [])
    (hname : ∀ b ∈ atrribute, b ≠ 0x3d ∧ b ≠ 0x0a ∧ b ≠ 0)
    (hshort : (configLine atrribute value).length < 512)
    (hfirst : configFile opens file atrribute value = some (0, file')) :
    configFile opens file' atrribute value = some (0, file') := by
  cases opens with
  | false => exact absurd (Prod.mk.inj (Option.some.inj hfirst)).1 (by decide)
  | true =>
      obtain ⟨front, back, buffer1, hpasses, rfl⟩ := exists_written hzero hend hfirst
      exact configFile_again hne hname hshort hpasses back

/-- A shorter value leaves a zero, and the second call changes nothing. -/
theorem configFile_idempotent_shorter :
    configFile true (ascii "A=12\nB=3\n") (ascii "A") (ascii "1")
        = some (0, ascii "A=1\n" ++ 0 :: ascii "B=3\n")
      ∧ configFile true (ascii "A=1\n" ++ 0 :: ascii "B=3\n") (ascii "A") (ascii "1")
        = some (0, ascii "A=1\n" ++ 0 :: ascii "B=3\n") := by
  have hfirst : configFile true (ascii "A=12\nB=3\n") (ascii "A") (ascii "1")
      = some (0, ascii "A=1\n" ++ 0 :: ascii "B=3\n") := by decide +kernel
  exact ⟨hfirst, configFile_idempotent (by decide +kernel) (Or.inr (by decide)) (by decide)
    (by decide +kernel) (by decide) hfirst⟩

end InstructionParser
