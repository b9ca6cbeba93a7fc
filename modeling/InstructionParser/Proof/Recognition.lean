import InstructionParser.Proof.Parse
import Mathlib.Data.List.Find

/-!
# Which protocol takes a line

The first byte already decides: a frame of the HT protocol starts with `H`, one of the SL protocol
with a double quote, and the first word of a text line with a bracket or a digit. So the order of the
registrations does not matter to `do_protocol_handle`.
-/

namespace InstructionParser

open CLib

variable {tmpStr : Block 128} {buf : Bytes}

/-- The protocols that `main` registers. -/
def protocols : List ProtocolSet := [htProtocol, slProtocol, textProtocol]

def ProtocolSet.Accepts (protocol : ProtocolSet) (tmpStr : Block 128) (buf : Bytes) : Prop :=
  protocol.checkData tmpStr buf = some 0

instance (protocol : ProtocolSet) (tmpStr : Block 128) (buf : Bytes) :
    Decidable (protocol.Accepts tmpStr buf) :=
  inferInstanceAs (Decidable (protocol.checkData tmpStr buf = some 0))

/-! ### The first word of a text line -/

theorem bracketExpression_rmatch_iff {chars s : Bytes} :
    (bracketExpression chars).rmatch s = true ↔ ∃ c ∈ chars, s = [c] := by
  induction chars with
  | nil => simp [bracketExpression]
  | cons c chars ih =>
      rw [bracketExpression, List.foldr_cons, RegularExpression.add_rmatch_iff,
        RegularExpression.char_rmatch_iff, ← bracketExpression, ih]
      simp

theorem bracketExpression_star_iff {chars s : Bytes} :
    (bracketExpression chars).star.rmatch s = true ↔ ∀ c ∈ s, c ∈ chars := by
  rw [RegularExpression.star_rmatch_iff]
  constructor
  · rintro ⟨pieces, rfl, hpieces⟩ c hc
    obtain ⟨piece, hpiece, hmem⟩ := List.mem_flatten.mp hc
    obtain ⟨c', hc', rfl⟩ := bracketExpression_rmatch_iff.mp (hpieces piece hpiece).2
    obtain rfl := List.mem_singleton.mp hmem
    exact hc'
  · intro hall
    refine ⟨s.map fun c => [c], by simp [← List.flatMap_def], ?_⟩
    simp only [List.mem_map, forall_exists_index, and_imp, forall_apply_eq_imp_iff₂]
    exact fun c hc => ⟨List.cons_ne_nil c [], bracketExpression_rmatch_iff.mpr ⟨c, hall c hc, rfl⟩⟩

/-- At least one bracket or digit from 1 to 9, then the closing bracket. -/
def PatternWord (s : Bytes) : Prop :=
  ∃ cs, cs ≠ [] ∧ (∀ c ∈ cs, c ∈ ascii "[123456789") ∧ s = cs ++ [0x5d]

theorem textPattern_rmatch_iff {s : Bytes} : textPattern.rmatch s = true ↔ PatternWord s := by
  rw [textPattern, RegularExpression.mul_rmatch_iff]
  constructor
  · rintro ⟨cs, bracket, rfl, hcs, hbracket⟩
    rw [RegularExpression.char_rmatch_iff] at hbracket
    obtain ⟨first, more, rfl, hfirst, hmore⟩ := (RegularExpression.mul_rmatch_iff _ _ _).mp hcs
    obtain ⟨c, hc, rfl⟩ := bracketExpression_rmatch_iff.mp hfirst
    refine ⟨[c] ++ more, List.cons_ne_nil c more, ?_, by rw [hbracket]⟩
    exact List.forall_mem_cons.mpr ⟨hc, bracketExpression_star_iff.mp hmore⟩
  · rintro ⟨cs, hne, hcs, rfl⟩
    refine ⟨cs, [0x5d], rfl, ?_, (RegularExpression.char_rmatch_iff _ _).mpr rfl⟩
    obtain ⟨c, more, rfl⟩ := List.exists_cons_of_ne_nil hne
    obtain ⟨hc, hmore⟩ := List.forall_mem_cons.mp hcs
    exact (RegularExpression.mul_rmatch_iff _ _ _).mpr ⟨[c], more, rfl,
      bracketExpression_rmatch_iff.mpr ⟨c, hc, rfl⟩, bracketExpression_star_iff.mpr hmore⟩

theorem PatternWord.head {s : Bytes} (h : PatternWord s) :
    ∃ c ∈ ascii "[123456789", ∃ rest, s = c :: rest := by
  obtain ⟨cs, hne, hcs, rfl⟩ := h
  obtain ⟨c, more, rfl⟩ := List.exists_cons_of_ne_nil hne
  exact ⟨c, hcs c List.mem_cons_self, more ++ [0x5d], rfl⟩

theorem strtok_head {d b : UInt8} {rest buf' : Bytes} {pos' : Nat} {r : Option Bytes}
    (hd : b ≠ d) (hzero : b ≠ 0) (h : strtok d (b :: rest) 0 = some (r, buf', pos')) :
    ∃ tok, r = some (b :: tok) := by
  obtain ⟨ds, tok, stop, tail, hsplit, hds, _, hstop, _, hresult⟩ := strtok_eq_some_iff.mp h
  rw [List.drop_zero] at hsplit
  cases ds with
  | cons first ds =>
      obtain rfl := (List.cons.inj hsplit).1
      exact absurd (hds b List.mem_cons_self) hd
  | nil =>
      cases tok with
      | nil =>
          obtain rfl := (List.cons.inj hsplit).1
          exact absurd hstop (not_or.mpr ⟨hd, hzero⟩)
      | cons first tok =>
          obtain rfl := (List.cons.inj hsplit).1
          refine ⟨tok, ?_⟩
          rw [if_neg (List.cons_ne_nil b tok)] at hresult
          split_ifs at hresult
          · exact congrArg Prod.fst hresult
          · exact congrArg Prod.fst hresult

theorem cstr_cons {b : UInt8} {rest line : Bytes} (hzero : b ≠ 0)
    (h : cstr (b :: rest) = some line) : ∃ tail, line = b :: tail := by
  obtain ⟨_, more, hsplit⟩ := cstr_eq_some_iff.mp h
  cases line with
  | nil => exact absurd (List.cons.inj hsplit).1 hzero
  | cons first tail =>
      obtain rfl := (List.cons.inj hsplit).1
      exact ⟨tail, rfl⟩

/-- `strncpy` puts the line at the start of `tmp_str`, so the pattern sees the line's first byte
whatever `tmp_str` held. -/
theorem not_textCheckData {b : UInt8} (hhead : buf[0]? = some b) (hspace : b ≠ 0x20)
    (hzero : b ≠ 0) (hpattern : b ∉ ascii "[123456789") : textCheckData tmpStr buf ≠ some 0 := by
  intro h
  simp only [textCheckData, Option.bind_eq_bind, Option.bind_eq_some_iff] at h
  obtain ⟨line, hline, tmpStr', hwrite, ⟨pStr, buf', pos'⟩, htok, hmatch⟩ := h
  obtain ⟨rest, rfl⟩ : ∃ rest, buf = b :: rest := by
    cases buf with
    | nil => cases hhead
    | cons first rest => exact ⟨rest, by rw [Option.some.inj hhead]⟩
  obtain ⟨tail, rfl⟩ := cstr_cons hzero hline
  have hcopied : tmpStr'.bytes = b :: (tail ++ tmpStr.bytes.drop (b :: tail).length) := by
    rw [(Block.write_eq_some_iff.mp hwrite).2, patch, List.take_zero, Nat.zero_add]
    rfl
  rw [hcopied] at htok
  obtain ⟨tok, rfl⟩ := strtok_head hspace hzero htok
  simp only at hmatch
  split_ifs at hmatch with hmatched
  · obtain ⟨c, hc, rest, hcons⟩ := (textPattern_rmatch_iff.mp hmatched).head
    exact hpattern ((List.cons.inj hcons).1 ▸ hc)
  · cases hmatch

/-! ### At most one protocol -/

theorem not_both_accept :
    protocols.Pairwise fun p q => ¬ (p.Accepts tmpStr buf ∧ q.Accepts tmpStr buf) := by
  have hHead : ∀ {headH headL}, checkFrame headH headL buf = some 0 → buf[0]? = some headH :=
    fun h => (checkFrame_eq_zero_iff.mp h).1
  simp only [protocols, List.pairwise_cons, List.mem_cons, List.not_mem_nil, or_false,
    forall_eq_or_imp, forall_eq, IsEmpty.forall_iff, implies_true, List.Pairwise.nil, and_true]
  refine ⟨⟨?_, ?_⟩, ?_⟩
  · rintro ⟨hht, hsl⟩
    exact absurd ((hHead hht).symm.trans (hHead hsl)) (by decide)
  · rintro ⟨hht, htext⟩
    exact not_textCheckData (hHead hht) (by decide) (by decide) (by decide) htext
  · rintro ⟨hsl, htext⟩
    exact not_textCheckData (hHead hsl) (by decide) (by decide) (by decide) htext

theorem accepts_unique :
    {p ∈ protocols | decide (p.Accepts tmpStr buf)}.Subsingleton := by
  rintro p ⟨hp, haccepts⟩ q ⟨hq, haccepts'⟩
  by_contra hne
  have hsymm : Std.Symm fun p q : ProtocolSet => ¬ (p.Accepts tmpStr buf ∧ q.Accepts tmpStr buf) :=
    ⟨fun _ _ h => fun hboth => h hboth.symm⟩
  exact not_both_accept.forall hp hq hne ⟨of_decide_eq_true haccepts, of_decide_eq_true haccepts'⟩

/-! ### The search -/

theorem doProtocolHandle_eq_find {supported : List ProtocolSet}
    (hbounds : ∀ p ∈ supported, ∃ ret, p.checkData tmpStr buf = some ret) :
    doProtocolHandle tmpStr supported buf
      = some (supported.find? fun p => p.Accepts tmpStr buf) := by
  induction supported with
  | nil => rfl
  | cons p rest ih =>
      obtain ⟨ret, hret⟩ := hbounds p List.mem_cons_self
      rw [doProtocolHandle, hret, Option.bind_some, List.find?_cons]
      by_cases hzero : ret = 0
      · have haccepts : p.Accepts tmpStr buf := hret.trans (congrArg some hzero)
        rw [if_pos hzero, decide_eq_true haccepts]
      · have hrefuses : ¬ p.Accepts tmpStr buf := fun h => hzero (Option.some.inj (hret.symm.trans h))
        rw [if_neg hzero, decide_eq_false hrefuses,
          ih fun q hq => hbounds q (List.mem_cons_of_mem p hq)]

theorem foldl_registerProtocol (order supported : List ProtocolSet) :
    order.foldl registerProtocol supported = supported ++ order := by
  induction order generalizing supported with
  | nil => simp
  | cons p order ih => rw [List.foldl_cons, ih, registerProtocol, List.append_assoc]; rfl

/-- **Recognition.** No two of the protocols accept the same line, and in whatever order they are
registered the search returns the one that accepts it, or none when none does. -/
theorem recognition_unambiguous
    (hbounds : ∀ p ∈ protocols, ∃ ret, p.checkData tmpStr buf = some ret) :
    (protocols.Pairwise fun p q => ¬ (p.Accepts tmpStr buf ∧ q.Accepts tmpStr buf))
      ∧ ∃ found,
        (∀ order : List ProtocolSet, order.Perm protocols →
          doProtocolHandle tmpStr (order.foldl registerProtocol []) buf = some found)
        ∧ (∀ p, found = some p ↔ p ∈ protocols ∧ p.Accepts tmpStr buf)
        ∧ (found = none ↔ ∀ p ∈ protocols, ¬ p.Accepts tmpStr buf) := by
  refine ⟨not_both_accept, protocols.find? fun p => p.Accepts tmpStr buf, ?_, ?_, ?_⟩
  · intro order hperm
    rw [foldl_registerProtocol, List.nil_append,
      doProtocolHandle_eq_find fun p hp => hbounds p (hperm.subset hp),
      List.find?_eq_find?_of_perm hperm.symm accepts_unique]
  · intro p
    constructor
    · intro hfound
      have haccepts := List.find?_some hfound
      exact ⟨List.mem_of_find?_eq_some hfound, of_decide_eq_true haccepts⟩
    · rintro ⟨hp, haccepts⟩
      cases hfound : protocols.find? fun p => decide (p.Accepts tmpStr buf) with
      | none =>
          exact absurd (decide_eq_true haccepts) (List.find?_eq_none.mp hfound p hp)
      | some q =>
          have hq := List.mem_of_find?_eq_some hfound
          have haccepts' := List.find?_some hfound
          rw [accepts_unique ⟨hp, decide_eq_true haccepts⟩ ⟨hq, haccepts'⟩]
  · simp [List.find?_eq_none]

theorem recognition_unambiguous_help :
    doProtocolHandle (Block.zeroed 128)
      ([textProtocol, slProtocol, htProtocol].foldl registerProtocol [])
      (ascii "[1] help" ++ List.replicate 247 0) = some (some textProtocol) := by
  have hbounds : ∀ p ∈ protocols, ∃ ret, p.checkData (Block.zeroed 128)
      (ascii "[1] help" ++ List.replicate 247 0) = some ret := by
    simp only [protocols, List.forall_mem_cons, List.not_mem_nil, false_implies, implies_true,
      and_true]
    exact ⟨⟨-1, by decide +kernel⟩, ⟨-1, by decide +kernel⟩, ⟨0, by decide +kernel⟩⟩
  obtain ⟨_, found, hsame, hfound, _⟩ := recognition_unambiguous hbounds
  have htext : found = some textProtocol := by
    refine (hfound textProtocol).mpr ⟨by simp [protocols], ?_⟩
    decide +kernel
  exact (hsame _ (List.reverse_perm protocols)).trans (congrArg some htext)

end InstructionParser
