import InstructionParser.CLib.CString
import Mathlib.Tactic

/-!
# Tokenising

`strtok` with one delimiter, as ISO C describes it: it skips delimiters from the search position,
ends the token it finds by writing a zero over the delimiter behind it, and leaves the search
position behind that zero. The words of a string are what a loop over `strtok` yields, and the lemmas
say so one call at a time, since between two calls the position is anybody's.
-/

namespace CLib

/-- The nonempty pieces of `s` between delimiters. -/
def words (d : UInt8) (s : Bytes) : List Bytes := (s.splitOn d).filter (· ≠ [])

/-- The words that are left at a search position. -/
def wordsFrom (d : UInt8) (buf : Bytes) (pos : Nat) : List Bytes := words d (strBytes (buf.drop pos))

def inToken (d b : UInt8) : Bool := b ≠ d ∧ b ≠ 0

/-- One call of `strtok` at search position `pos`: the token or the null pointer, the buffer, and
the next search position. `none`: the search ran past the end of the buffer. -/
def strtok (d : UInt8) (buf : Bytes) (pos : Nat) : Option (Option Bytes × Bytes × Nat) :=
  let skipped := (buf.drop pos).takeWhile fun b => b = d
  let rest := (buf.drop pos).dropWhile fun b => b = d
  let tok := rest.takeWhile (inToken d)
  let start := pos + skipped.length
  match rest.dropWhile (inToken d) with
  | [] => none
  | b :: _ =>
      if tok = [] then some (none, buf, start)
      else if b = d then some (some tok, buf.set (start + tok.length) 0, start + tok.length + 1)
      else some (some tok, buf, start + tok.length)

/-- `p = strtok(buf, d); while (p != NULL) { ...; p = strtok(NULL, d); }`, collecting the tokens. -/
def strtokAll (d : UInt8) : Nat → Bytes → Nat → Option (List Bytes)
  | 0, _, _ => none
  | fuel + 1, buf, pos =>
      match strtok d buf pos with
      | none => none
      | some (none, _, _) => some []
      | some (some tok, buf', pos') => (strtokAll d fuel buf' pos').map (tok :: ·)

variable {d : UInt8}

@[simp]
theorem words_nil : words d [] = [] := by simp [words]

theorem words_delim_cons (s : Bytes) : words d (d :: s) = words d s := by
  simp [words, List.splitOn_cons_eq_if_modifyHead]

/-- A byte that is no delimiter is in the first word. -/
theorem words_cons_of_ne {b : UInt8} (hb : b ≠ d) (s : Bytes) : ∃ first others,
    words d (b :: s) = (b :: first) :: others ∧ others.length ≤ (words d s).length := by
  obtain ⟨first, others, hsplit⟩ := List.exists_cons_of_ne_nil (List.splitOn_ne_nil d s)
  refine ⟨first, others.filter (· ≠ []), ?_, ?_⟩
  · simp [words, List.splitOn_cons_eq_if_modifyHead, hsplit, hb]
  · rw [words, hsplit]
    exact ((List.sublist_cons_self first others).filter _).length_le

theorem words_length_le (s : Bytes) : (words d s).length ≤ s.length := by
  induction s with
  | nil => simp
  | cons b s ih =>
      by_cases hb : b = d
      · rw [hb, words_delim_cons, List.length_cons]
        exact Nat.le_succ_of_le ih
      · obtain ⟨first, others, hcons, hothers⟩ := words_cons_of_ne hb s
        rw [hcons, List.length_cons, List.length_cons]
        exact Nat.succ_le_succ (hothers.trans ih)

/-- A string without words holds delimiters only. -/
theorem eq_of_mem_of_words_nil {s : Bytes} (h : words d s = []) : ∀ b ∈ s, b = d := by
  induction s with
  | nil => exact nofun
  | cons b s ih =>
      by_cases hb : b = d
      · rw [hb, words_delim_cons] at h
        rintro x (_ | ⟨_, hx⟩)
        · exact hb
        · exact ih h x hx
      · obtain ⟨first, others, hcons, _⟩ := words_cons_of_ne hb s
        rw [hcons] at h
        cases h

theorem words_append_of_delims {ds : Bytes} (h : ∀ b ∈ ds, b = d) (s : Bytes) :
    words d (ds ++ s) = words d s := by
  induction ds with
  | nil => rfl
  | cons b ds ih =>
      rw [h b (by simp), List.cons_append, words_delim_cons, ih fun c hc => h c (by simp [hc])]

theorem words_token {tok : Bytes} (hne : tok ≠ []) (h : d ∉ tok) : words d tok = [tok] := by
  simp [words, List.splitOn_eq_singleton h, hne]

theorem words_token_delim {tok : Bytes} (hne : tok ≠ []) (h : d ∉ tok) (s : Bytes) :
    words d (tok ++ d :: s) = tok :: words d s := by
  simp [words, List.splitOn_append_cons_self_of_not_mem h, hne]

/-- The bytes at a search position are delimiters, the token, and the byte that ends the token. The
token is empty only at the end of the string. -/
theorem strtok_eq_some_iff {buf buf' : Bytes} {pos pos' : Nat} {r : Option Bytes} :
    strtok d buf pos = some (r, buf', pos') ↔
      ∃ (ds tok : Bytes) (b : UInt8) (rest : Bytes), buf.drop pos = ds ++ (tok ++ b :: rest)
        ∧ (∀ x ∈ ds, x = d) ∧ (∀ x ∈ tok, x ≠ d ∧ x ≠ 0) ∧ (b = d ∨ b = 0) ∧ (tok = [] → b ≠ d)
        ∧ (r, buf', pos') = if tok = [] then (none, buf, pos + ds.length)
          else if b = d then
            (some tok, buf.set (pos + ds.length + tok.length) 0, pos + ds.length + tok.length + 1)
          else (some tok, buf, pos + ds.length + tok.length) := by
  constructor
  · intro h
    simp only [strtok] at h
    set ds := (buf.drop pos).takeWhile fun b => b = d with hds
    set after := (buf.drop pos).dropWhile fun b => b = d with hafter
    set tok := after.takeWhile (inToken d) with htok
    have hsplit : buf.drop pos = ds ++ after := List.takeWhile_append_dropWhile.symm
    cases hend : after.dropWhile (inToken d) with
    | nil => simp [hend] at h
    | cons b rest =>
        have htail : after = tok ++ b :: rest := by
          rw [← hend]
          exact List.takeWhile_append_dropWhile.symm
        have hstop := List.head_dropWhile_not (inToken d) (l := after) (by simp [hend])
        simp only [hend, List.head_cons, inToken, decide_eq_false_iff_not, not_and_or,
          not_not] at hstop
        refine ⟨ds, tok, b, rest, by rw [hsplit, htail], ?_, ?_, hstop, ?_, ?_⟩
        · intro x hx
          simpa using List.mem_takeWhile_imp hx
        · intro x hx
          simpa [inToken] using List.mem_takeWhile_imp hx
        · intro hnil hb
          have hne : after ≠ [] := by simp [htail]
          have hhead := List.head_dropWhile_not (fun b : UInt8 => decide (b = d)) (l := buf.drop pos)
            (hafter ▸ hne)
          simp only [← hafter, htail, hnil, List.nil_append, List.head_cons,
            decide_eq_false_iff_not] at hhead
          exact hhead hb
        · simp only [hend] at h
          split_ifs at h ⊢ <;> exact (Option.some.inj h).symm
  · rintro ⟨ds, tok, b, rest, hsplit, hds, htok, hstop, hnil, heq⟩
    have hhead : (tok ++ b :: rest).takeWhile (fun b => decide (b = d)) = [] := by
      cases htok' : tok with
      | nil => simp [hnil htok']
      | cons c cs => simp [(htok c (by simp [htok'])).1]
    have htake : (buf.drop pos).takeWhile (fun b => decide (b = d)) = ds := by
      rw [hsplit, List.takeWhile_append_of_pos (by simpa using hds), hhead, List.append_nil]
    have hdrop : (buf.drop pos).dropWhile (fun b => decide (b = d)) = tok ++ b :: rest := by
      rw [hsplit, List.dropWhile_append_of_pos (by simpa using hds)]
      cases htok' : tok with
      | nil => simp [hnil htok']
      | cons c cs => simp [(htok c (by simp [htok'])).1]
    have hb : ¬ (b ≠ d ∧ b ≠ 0) := by tauto
    simp only [strtok, htake, hdrop]
    rw [List.takeWhile_append_of_pos (by simpa [inToken] using htok),
      List.dropWhile_append_of_pos (by simpa [inToken] using htok),
      List.takeWhile_cons_of_neg (by simpa [inToken] using hb),
      List.dropWhile_cons_of_neg (by simpa [inToken] using hb)]
    simp only [List.append_nil]
    rw [heq]
    split_ifs <;> rfl

theorem strtok_frame {buf buf' : Bytes} {pos pos' : Nat} {r : Option Bytes}
    (h : strtok d buf pos = some (r, buf', pos')) : buf'.take pos = buf.take pos ∧ pos ≤ pos' := by
  obtain ⟨ds, tok, b, rest, _, _, _, _, _, heq⟩ := strtok_eq_some_iff.mp h
  split_ifs at heq
  · obtain ⟨_, rfl, rfl⟩ := by simpa only [Prod.mk.injEq] using heq
    exact ⟨rfl, Nat.le_add_right pos _⟩
  · obtain ⟨_, rfl, rfl⟩ := by simpa only [Prod.mk.injEq] using heq
    exact ⟨List.take_set_of_le (by omega), by omega⟩
  · obtain ⟨_, rfl, rfl⟩ := by simpa only [Prod.mk.injEq] using heq
    exact ⟨rfl, by omega⟩

section Spec

variable (hd : d ≠ 0)
include hd

theorem zero_notMem_delims {ds : Bytes} (h : ∀ x ∈ ds, x = d) : 0 ∉ ds :=
  fun hmem => hd (h 0 hmem).symm

theorem strtok_null {buf buf' : Bytes} {pos pos' : Nat}
    (h : strtok d buf pos = some (none, buf', pos')) : wordsFrom d buf pos = [] ∧ buf' = buf := by
  obtain ⟨ds, tok, b, rest, hsplit, hds, _, hstop, hnil, heq⟩ := strtok_eq_some_iff.mp h
  by_cases htok : tok = []
  · rw [if_pos htok] at heq
    have hb : b = 0 := hstop.resolve_left (hnil htok)
    refine ⟨?_, congrArg (fun r => r.2.1) heq⟩
    rw [wordsFrom, hsplit, htok, hb, List.nil_append,
      strBytes_append_zero (zero_notMem_delims hd hds), ← List.append_nil ds,
      words_append_of_delims hds, words_nil]
  · rw [if_neg htok] at heq
    split_ifs at heq <;> simp at heq

theorem strtok_token {buf buf' : Bytes} {pos pos' : Nat} {tok : Bytes}
    (h : strtok d buf pos = some (some tok, buf', pos')) :
    wordsFrom d buf pos = tok :: wordsFrom d buf' pos'
      ∧ (strBytes (buf'.drop pos')).length < (strBytes (buf.drop pos)).length
      ∧ (0 ∈ buf.drop pos → 0 ∈ buf'.drop pos') ∧ buf'.length = buf.length := by
  obtain ⟨ds, tok', b, rest, hsplit, hds, htok, hstop, hnil, heq⟩ := strtok_eq_some_iff.mp h
  by_cases hempty : tok' = []
  · rw [if_pos hempty] at heq
    simp at heq
  rw [if_neg hempty] at heq
  have hzds := zero_notMem_delims hd hds
  have hztok : 0 ∉ tok' := fun hmem => (htok 0 hmem).2 rfl
  have hdtok : d ∉ tok' := fun hmem => (htok d hmem).1 rfl
  have hpos : 0 < tok'.length := List.length_pos_of_ne_nil hempty
  have hstr : strBytes (buf.drop pos) = ds ++ (tok' ++ strBytes (b :: rest)) := by
    rw [hsplit, strBytes_append_of_notMem hzds, strBytes_append_of_notMem hztok]
  have hstopDrop : buf.drop (pos + ds.length + tok'.length) = b :: rest := by
    rw [Nat.add_assoc, ← List.drop_drop, hsplit, ← List.append_assoc, ← List.length_append,
      List.drop_left]
  by_cases hb : b = d
  · rw [if_pos hb] at heq
    simp only [Prod.mk.injEq, Option.some.injEq] at heq
    obtain ⟨rfl, rfl, rfl⟩ := heq
    have hnext : (buf.set (pos + ds.length + tok.length) 0).drop (pos + ds.length + tok.length + 1)
        = rest := by
      rw [List.drop_set_of_lt (by omega), ← List.drop_drop, hstopDrop]
      rfl
    have hcons : strBytes (b :: rest) = d :: strBytes rest := by
      rw [strBytes_cons, hb, if_neg hd]
    rw [hcons] at hstr
    refine ⟨?_, ?_, ?_, List.length_set⟩
    · rw [wordsFrom, wordsFrom, hnext, hstr, words_append_of_delims hds,
        words_token_delim hempty hdtok]
    · rw [hnext, hstr]
      simp only [List.length_append, List.length_cons]
      omega
    · intro hmem
      rw [hsplit, hb] at hmem
      rw [hnext]
      simpa [hzds, hztok, Ne.symm hd] using hmem
  · rw [if_neg hb] at heq
    simp only [Prod.mk.injEq, Option.some.injEq] at heq
    obtain ⟨rfl, rfl, rfl⟩ := heq
    have hzero : b = 0 := hstop.resolve_left hb
    have hcons : strBytes (b :: rest) = [] := by rw [strBytes_cons, if_pos hzero]
    rw [hcons, List.append_nil] at hstr
    refine ⟨?_, ?_, ?_, rfl⟩
    · rw [wordsFrom, wordsFrom, hstopDrop, hcons, hstr, words_append_of_delims hds,
        words_token hempty hdtok, words_nil]
    · rw [hstopDrop, hcons, hstr]
      simp only [List.length_append, List.length_nil]
      omega
    · intro _
      rw [hstopDrop, hzero]
      simp

theorem exists_strtok {buf : Bytes} {pos : Nat} (h : 0 ∈ buf.drop pos) :
    ∃ result, strtok d buf pos = some result := by
  simp only [strtok]
  cases hend : ((buf.drop pos).dropWhile fun b => b = d).dropWhile (inToken d) with
  | nil =>
      exfalso
      rw [← List.takeWhile_append_dropWhile (p := fun b => decide (b = d)) (l := buf.drop pos),
        List.mem_append] at h
      rcases h with hskip | hrest
      · exact hd (by simpa [eq_comm] using List.mem_takeWhile_imp hskip)
      · have hall := List.dropWhile_eq_nil_iff.mp hend 0 hrest
        simp [inToken] at hall
  | cons b rest =>
      simp only
      split_ifs <;> exact ⟨_, rfl⟩

theorem strtokAll_eq_words : ∀ (fuel : Nat) (buf : Bytes) (pos : Nat), 0 ∈ buf.drop pos →
    (strBytes (buf.drop pos)).length < fuel →
    strtokAll d fuel buf pos = some (wordsFrom d buf pos) := by
  intro fuel
  induction fuel with
  | zero => intro buf pos _ hfuel; omega
  | succ fuel ih =>
      intro buf pos hzero hfuel
      obtain ⟨⟨r, buf', pos'⟩, hcall⟩ := exists_strtok hd hzero
      cases r with
      | none => simp [strtokAll, hcall, (strtok_null hd hcall).1]
      | some tok =>
          obtain ⟨hwords, hshorter, hkeeps, _⟩ := strtok_token hd hcall
          rw [strtokAll, hcall]
          simp only
          rw [ih buf' pos' (hkeeps hzero) (by omega), hwords]
          rfl

end Spec

end CLib
