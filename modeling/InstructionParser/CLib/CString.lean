import InstructionParser.CLib.Block
import Mathlib.Algebra.Group.Int.Defs
import Mathlib.Data.List.TakeWhile

/-!
# C strings

The string functions of the C library on readable memory. A function that runs past the end of its
memory looking for the terminating zero is `none`.
-/

namespace CLib

/-- The bytes before the first zero, or all of them when there is none. -/
def strBytes (p : Bytes) : Bytes := p.takeWhile fun b => b ≠ 0

/-- The string at `p`; `none` when it is not terminated. -/
def cstr (p : Bytes) : Option Bytes := if 0 ∈ p then some (strBytes p) else none

/-- `strcmp(s, p) == 0` for a terminated `s`; the comparison stops at the first difference. -/
def strcmpEq (s p : Bytes) : Bool := (s ++ [0]).isPrefixOf p

/-- The `n` bytes that `strncpy(dst, p, n)` stores: the string cut or padded with zeros. -/
def strncpyBytes (p : Bytes) (n : Nat) : Option Bytes :=
  if 0 ∈ p ∨ n ≤ p.length then
    let s := strBytes (p.take n)
    some (s ++ List.replicate (n - s.length) 0)
  else none

def decNat (n : Nat) : Bytes := (Nat.toDigits 10 n).map fun c => UInt8.ofNat c.toNat

def decInt (z : Int) : Bytes := if z < 0 then ascii "-" ++ decNat z.natAbs else decNat z.natAbs

def isSpace (b : UInt8) : Bool := b = 0x20 || (9 ≤ b.toNat && b.toNat ≤ 13)

def isDigit (b : UInt8) : Bool := 0x30 ≤ b.toNat && b.toNat ≤ 0x39

def digitsValue (ds : Bytes) : Nat := ds.foldl (fun value b => value * 10 + (b.toNat - 0x30)) 0

/-- The number at the beginning of a string: blanks, an optional sign, then the digits up to the first
other byte. -/
def leadingInt (s : Bytes) : Int :=
  match s.dropWhile isSpace with
  | [] => 0
  | b :: rest =>
      if b = 0x2d then -(digitsValue (rest.takeWhile isDigit) : Int)
      else if b = 0x2b then digitsValue (rest.takeWhile isDigit)
      else digitsValue ((b :: rest).takeWhile isDigit)

/-- `atoi`, which the C library leaves undefined where the number is no `int`. -/
def atoi (s : Bytes) : Option Int :=
  if -2 ^ 31 ≤ leadingInt s ∧ leadingInt s < 2 ^ 31 then some (leadingInt s) else none

theorem atoi_eq_some_iff {s : Bytes} {value : Int} :
    atoi s = some value ↔ leadingInt s = value ∧ -2 ^ 31 ≤ value ∧ value < 2 ^ 31 := by
  unfold atoi
  constructor
  · intro h
    split_ifs at h with hint
    obtain rfl := Option.some.inj h
    exact ⟨rfl, hint⟩
  · rintro ⟨rfl, hint⟩
    rw [if_pos hint]

theorem zero_notMem_strBytes (p : Bytes) : 0 ∉ strBytes p := by
  intro hmem
  simpa using List.mem_takeWhile_imp hmem

theorem strBytes_append_of_notMem {s : Bytes} (h : 0 ∉ s) (p : Bytes) :
    strBytes (s ++ p) = s ++ strBytes p := by
  rw [strBytes, List.takeWhile_append_of_pos]
  · rfl
  · intro b hb
    simpa using fun hzero : b = 0 => h (hzero ▸ hb)

theorem strBytes_of_notMem {s : Bytes} (h : 0 ∉ s) : strBytes s = s := by
  have happend := strBytes_append_of_notMem h []
  rw [List.append_nil] at happend
  exact happend.trans (List.append_nil s)

theorem strBytes_append_zero {s : Bytes} (h : 0 ∉ s) (rest : Bytes) :
    strBytes (s ++ 0 :: rest) = s := by
  rw [strBytes_append_of_notMem h]
  simp [strBytes]

theorem cstr_append_zero {s : Bytes} (h : 0 ∉ s) (rest : Bytes) : cstr (s ++ 0 :: rest) = some s := by
  rw [cstr, if_pos (by simp), strBytes_append_zero h]

theorem strBytes_cons (b : UInt8) (p : Bytes) :
    strBytes (b :: p) = if b = 0 then [] else b :: strBytes p := by
  by_cases hb : b = 0 <;> simp [strBytes, hb]

theorem strBytes_split {p : Bytes} (h : 0 ∈ p) : ∃ rest, p = strBytes p ++ 0 :: rest := by
  induction p with
  | nil => cases h
  | cons b p ih =>
      rw [strBytes_cons]
      by_cases hb : b = 0
      · exact ⟨p, by simp [hb]⟩
      · obtain ⟨rest, hrest⟩ := ih ((List.mem_cons.mp h).resolve_left (Ne.symm hb))
        exact ⟨rest, by rw [if_neg hb, List.cons_append, ← hrest]⟩

theorem cstr_eq_some_iff {p s : Bytes} : cstr p = some s ↔ 0 ∉ s ∧ ∃ rest, p = s ++ 0 :: rest := by
  constructor
  · intro h
    unfold cstr at h
    split at h
    · rename_i hzero
      obtain rfl := Option.some.inj h
      exact ⟨zero_notMem_strBytes p, strBytes_split hzero⟩
    · cases h
  · rintro ⟨hs, rest, rfl⟩
    exact cstr_append_zero hs rest

theorem strBytes_of_cstr {p s : Bytes} (h : cstr p = some s) : strBytes p = s := by
  obtain ⟨hs, rest, rfl⟩ := cstr_eq_some_iff.mp h
  exact strBytes_append_zero hs rest

theorem zero_notMem_of_cstr {p s : Bytes} (h : cstr p = some s) : 0 ∉ s := (cstr_eq_some_iff.mp h).1

theorem cstr_eq_nil_iff {p : Bytes} : cstr p = some [] ↔ p[0]? = some 0 := by
  rw [cstr_eq_some_iff]
  cases p <;> simp

theorem cstr_cons_eq_iff {b : UInt8} {p s : Bytes} (hb : b ≠ 0) :
    cstr (b :: p) = some (b :: s) ↔ cstr p = some s := by
  rw [cstr_eq_some_iff, cstr_eq_some_iff]
  simp [Ne.symm hb]

theorem cstr_of_take_eq {p q s : Bytes} {k : Nat} (htake : p.take k = q.take k)
    (h : cstr q = some s) (hk : s.length < k) : cstr p = some s := by
  obtain ⟨hs, rest, rfl⟩ := cstr_eq_some_iff.mp h
  have hterminated : (s ++ [0]).length ≤ k := by
    rw [List.length_append, List.length_singleton]
    omega
  rw [← List.singleton_append, ← List.append_assoc, List.take_append,
    List.take_of_length_le hterminated, List.append_assoc] at htake
  rw [← List.take_append_drop k p, htake, List.append_assoc, List.append_assoc]
  exact cstr_append_zero hs _

theorem cstr_length_le {p s : Bytes} (h : cstr p = some s) : s.length < p.length := by
  obtain ⟨_, rest, rfl⟩ := cstr_eq_some_iff.mp h
  simp

theorem strBytes_padded {s : Bytes} (h : 0 ∉ s) (k : Nat) : strBytes (s ++ List.replicate k 0) = s := by
  rw [strBytes_append_of_notMem h]
  cases k <;> simp [strBytes, List.replicate_succ]

theorem cstr_padded {s : Bytes} (h : 0 ∉ s) {k : Nat} (hk : 0 < k) :
    cstr (s ++ List.replicate k 0) = some s := by
  obtain ⟨k, rfl⟩ := Nat.exists_eq_succ_of_ne_zero hk.ne'
  rw [List.replicate_succ]
  exact cstr_append_zero h _

theorem strcmpEq_iff {s p : Bytes} (hs : 0 ∉ s) : strcmpEq s p = true ↔ cstr p = some s := by
  rw [strcmpEq, List.isPrefixOf_iff_prefix, cstr_eq_some_iff]
  constructor
  · rintro ⟨rest, hrest⟩
    exact ⟨hs, rest, by simpa using hrest.symm⟩
  · rintro ⟨_, rest, hrest⟩
    exact ⟨rest, by simpa using hrest.symm⟩

theorem strncpyBytes_length {p s : Bytes} {n : Nat} (h : strncpyBytes p n = some s) :
    s.length = n := by
  unfold strncpyBytes at h
  split at h
  · obtain rfl := Option.some.inj h
    have hle : (strBytes (p.take n)).length ≤ n := by
      have hpre : (strBytes (p.take n)).length ≤ (p.take n).length :=
        (List.takeWhile_prefix _).length_le
      exact hpre.trans (List.length_take_le n p)
    simp [Nat.add_sub_cancel' hle]
  · cases h

end CLib
