import InstructionParser.CLib.CString

/-!
# Decimal numbers

What `%d` prints and what is read back: the digits of a number have its value.
-/

namespace CLib

theorem isDigit_iff {d : UInt8} : isDigit d = true ↔ 0x30 ≤ d.toNat ∧ d.toNat ≤ 0x39 := by
  simp [isDigit]

theorem isDigit_of_mem_decNat {n : Nat} {d : UInt8} (h : d ∈ decNat n) : isDigit d = true := by
  obtain ⟨c, hc, rfl⟩ := List.mem_map.mp h
  have hdigit := Nat.isDigit_of_mem_toDigits (by decide) (Nat.le_refl 10) hc
  have hbounds : 0x30 ≤ c.toNat ∧ c.toNat ≤ 0x39 := by
    rw [Char.isDigit, Bool.and_eq_true, decide_eq_true_eq, decide_eq_true_eq] at hdigit
    exact ⟨UInt32.le_iff_toNat_le.mp hdigit.1, UInt32.le_iff_toNat_le.mp hdigit.2⟩
  rw [isDigit_iff, UInt8.toNat_ofNat']
  omega

theorem decNat_ne_nil (n : Nat) : decNat n ≠ [] := by
  simp [decNat, Nat.toDigits_ne_nil]

theorem digitsValue_decNat (n : Nat) : digitsValue (decNat n) = n := by
  have hread : ∀ (cs : List Char) (init : Nat), (∀ c ∈ cs, c.isDigit = true) →
      (cs.map fun c => UInt8.ofNat c.toNat).foldl (fun value b => value * 10 + (b.toNat - 0x30)) init
        = Nat.ofDigitChars 10 cs init := by
    intro cs
    induction cs with
    | nil => simp
    | cons c cs ih =>
        intro init hcs
        have hdigit := hcs c List.mem_cons_self
        rw [Char.isDigit, Bool.and_eq_true, decide_eq_true_eq, decide_eq_true_eq] at hdigit
        have hhigh : c.toNat ≤ 0x39 := UInt32.le_iff_toNat_le.mp hdigit.2
        rw [List.map_cons, List.foldl_cons, Nat.ofDigitChars_cons,
          ih _ fun d hd => hcs d (List.mem_cons_of_mem c hd), UInt8.toNat_ofNat',
          Nat.mod_eq_of_lt (by omega), Nat.mul_comm]
        rfl
  rw [digitsValue, decNat, hread _ _ fun c hc =>
    Nat.isDigit_of_mem_toDigits (by decide) (Nat.le_refl 10) hc, Nat.ofDigitChars_ten_toDigits]

theorem decNat_length_le {n k : Nat} (hk : 0 < k) (h : n < 10 ^ k) : (decNat n).length ≤ k := by
  rwa [decNat, List.length_map, Nat.length_toDigits_le_iff (by decide) hk]

/-! ### Numbers at the beginning of a string -/

theorem digitsValue_lt {ds : Bytes} (h : ∀ d ∈ ds, isDigit d = true) :
    digitsValue ds < 10 ^ ds.length := by
  have hfold : ∀ (ds : Bytes) (value : Nat), (∀ d ∈ ds, isDigit d = true) →
      ds.foldl (fun value b => value * 10 + (b.toNat - 0x30)) value < (value + 1) * 10 ^ ds.length := by
    intro ds
    induction ds with
    | nil => simp
    | cons d ds ih =>
        intro value hds
        have hd := isDigit_iff.mp (hds d List.mem_cons_self)
        calc ds.foldl (fun value b => value * 10 + (b.toNat - 0x30)) (value * 10 + (d.toNat - 0x30))
            < (value * 10 + (d.toNat - 0x30) + 1) * 10 ^ ds.length :=
              ih _ fun x hx => hds x (List.mem_cons_of_mem d hx)
          _ ≤ (value + 1) * 10 * 10 ^ ds.length := Nat.mul_le_mul_right _ (by omega)
          _ = (value + 1) * 10 ^ (d :: ds).length := by
              rw [List.length_cons, Nat.pow_succ', Nat.mul_assoc]
  simpa [digitsValue] using hfold ds 0 h

theorem natAbs_leadingInt_lt (s : Bytes) : (leadingInt s).natAbs < 10 ^ s.length := by
  have hvalue : ∀ t : Bytes, t.length ≤ s.length →
      digitsValue (t.takeWhile isDigit) < 10 ^ s.length := by
    intro t ht
    have hdigits : ∀ d ∈ t.takeWhile isDigit, isDigit d = true := fun d hd => List.mem_takeWhile_imp hd
    calc digitsValue (t.takeWhile isDigit) < 10 ^ (t.takeWhile isDigit).length :=
          digitsValue_lt hdigits
      _ ≤ 10 ^ s.length :=
          Nat.pow_le_pow_right (by decide) ((List.takeWhile_prefix _).length_le.trans ht)
  have hrest := (List.dropWhile_suffix (l := s) isSpace).length_le
  unfold leadingInt
  split
  case h_1 => exact Nat.pow_pos (by decide)
  case h_2 b rest hsplit =>
    rw [hsplit, List.length_cons] at hrest
    have hsigned := hvalue rest (by omega)
    have hunsigned := hvalue (b :: rest) (by rwa [List.length_cons])
    split_ifs
    · rwa [Int.natAbs_neg, Int.natAbs_natCast]
    · rwa [Int.natAbs_natCast]
    · rwa [Int.natAbs_natCast]

/-- A string too short for any number outside of `int`. -/
theorem atoi_short {s : Bytes} (h : s.length ≤ 9) : atoi s = some (leadingInt s) := by
  have hvalue : (leadingInt s).natAbs < 10 ^ 9 :=
    (natAbs_leadingInt_lt s).trans_le (Nat.pow_le_pow_right (by decide) h)
  exact atoi_eq_some_iff.mpr ⟨rfl, by omega, by omega⟩

theorem le_foldl_digits (ds : Bytes) (value : Nat) :
    value ≤ ds.foldl (fun value b => value * 10 + (b.toNat - 0x30)) value := by
  induction ds generalizing value with
  | nil => exact Nat.le_refl value
  | cons d ds ih =>
      calc value ≤ value * 10 + (d.toNat - 0x30) := by omega
        _ ≤ (d :: ds).foldl (fun value b => value * 10 + (b.toNat - 0x30)) value := ih _

end CLib
