import InstructionParser.CLib.Bytes

/-!
# Reading memory and writing objects

`readBe16` and `readBytes` read from a pointer, `Block.write` writes into an object. The lemmas say
which bytes a write leaves alone: everything before the first byte written and after the last.
-/

namespace CLib

/-- `p[i] << 8 | p[i + 1]`. -/
def readBe16 (p : Bytes) (i : Nat) : Option UInt16 := do
  let hi ← p[i]?
  let lo ← p[i + 1]?
  pure (be16 hi lo)

/-- The source bytes of a `memcpy` of `n` bytes from `p + off`. -/
def readBytes (p : Bytes) (off n : Nat) : Option Bytes :=
  if off + n ≤ p.length then some ((p.drop off).take n) else none

theorem readBe16_eq_some_iff {p : Bytes} {i : Nat} {x : UInt16} :
    readBe16 p i = some x ↔ p[i]? = some (hi8 x.toNat) ∧ p[i + 1]? = some (lo8 x.toNat) := by
  unfold readBe16
  constructor
  · intro h
    cases hhi : p[i]? with
    | none => simp [hhi] at h
    | some hi =>
        cases hlo : p[i + 1]? with
        | none => simp [hhi, hlo] at h
        | some lo =>
            simp only [hhi, hlo, Option.bind_eq_bind, Option.bind_some, Option.pure_def,
              Option.some.injEq] at h
            subst h
            simp
  · rintro ⟨hhi, hlo⟩
    simp [hhi, hlo]

theorem readBe16_length {p : Bytes} {i : Nat} {x : UInt16} (h : readBe16 p i = some x) :
    i + 2 ≤ p.length := by
  obtain ⟨_, hlo⟩ := readBe16_eq_some_iff.mp h
  obtain ⟨hlt, _⟩ := List.getElem?_eq_some_iff.mp hlo
  omega

theorem exists_readBe16 {p : Bytes} {i : Nat} (h : i + 2 ≤ p.length) :
    ∃ x, readBe16 p i = some x := by
  have hhi : i < p.length := by omega
  have hlo : i + 1 < p.length := by omega
  exact ⟨be16 p[i] p[i + 1], by simp [readBe16, hhi, hlo]⟩

theorem readBe16_append_right {p : Bytes} {i : Nat} {x : UInt16} (h : readBe16 p i = some x)
    (post : Bytes) : readBe16 (p ++ post) i = some x := by
  have hlen := readBe16_length h
  obtain ⟨hhi, hlo⟩ := readBe16_eq_some_iff.mp h
  rw [readBe16_eq_some_iff, List.getElem?_append_left (by omega),
    List.getElem?_append_left (by omega)]
  exact ⟨hhi, hlo⟩

theorem readBe16_append {pre : Bytes} {i : Nat} (hi : i = pre.length) (n : Nat) (post : Bytes) :
    readBe16 (pre ++ be16Bytes n ++ post) i = some (UInt16.ofNat n) := by
  subst hi
  simp [readBe16, be16Bytes, be16_hi8_lo8]

theorem readBytes_eq_some_iff {p s : Bytes} {off n : Nat} :
    readBytes p off n = some s ↔ off + n ≤ p.length ∧ s = (p.drop off).take n := by
  unfold readBytes
  split
  · rename_i hle
    simp [hle, eq_comm]
  · rename_i hle
    simp [hle]

theorem readBytes_append {pre mid post : Bytes} {off n : Nat} (hoff : off = pre.length)
    (hn : n = mid.length) : readBytes (pre ++ mid ++ post) off n = some mid := by
  subst hoff hn
  rw [readBytes_eq_some_iff]
  simp

/-- `bs` with the bytes from `off` on replaced by `src`. -/
def patch (bs : Bytes) (off : Nat) (src : Bytes) : Bytes :=
  bs.take off ++ src ++ bs.drop (off + src.length)

theorem patch_length {bs src : Bytes} {off : Nat} (h : off + src.length ≤ bs.length) :
    (patch bs off src).length = bs.length := by
  simp only [patch, List.length_append, List.length_take, List.length_drop]
  omega

theorem take_patch {bs src : Bytes} {off k : Nat} (hk : k ≤ off) (h : off ≤ bs.length) :
    (patch bs off src).take k = bs.take k := by
  rw [patch, List.append_assoc, List.take_append_of_le_length (by simp; omega), List.take_take,
    Nat.min_eq_left hk]

theorem drop_patch_within {bs : Bytes} {off k : Nat} (src : Bytes) (hk : k ≤ src.length)
    (h : off ≤ bs.length) :
    (patch bs off src).drop (off + k) = src.drop k ++ bs.drop (off + src.length) := by
  have htake : (bs.take off).length = off := by simp; omega
  rw [patch, List.append_assoc, List.drop_append, htake, List.drop_eq_nil_of_le (by omega),
    List.nil_append, Nat.add_sub_cancel_left, List.drop_append_of_le_length hk]

theorem drop_patch_behind {bs src : Bytes} {off k : Nat} (hk : off + src.length ≤ k)
    (h : off ≤ bs.length) : (patch bs off src).drop k = bs.drop k := by
  have hend := drop_patch_within src (Nat.le_refl src.length) h
  rw [List.drop_length, List.nil_append] at hend
  calc (patch bs off src).drop k
      = ((patch bs off src).drop (off + src.length)).drop (k - (off + src.length)) := by
        rw [List.drop_drop, Nat.add_sub_cancel' hk]
    _ = bs.drop k := by rw [hend, List.drop_drop, Nat.add_sub_cancel' hk]

theorem patch_patch {bs src : Bytes} {off : Nat} (next : Bytes) (h : off + src.length ≤ bs.length) :
    patch (patch bs off src) (off + src.length) next = patch bs off (src ++ next) := by
  have hfront : (patch bs off src).take (off + src.length) = bs.take off ++ src := by
    have hlength : (bs.take off ++ src).length = off + src.length := by
      rw [List.length_append, List.length_take]
      omega
    rw [patch, ← hlength, List.take_left]
  rw [patch, hfront, drop_patch_behind (Nat.le_add_right _ _) (by omega), patch, List.length_append,
    List.append_assoc (bs.take off), Nat.add_assoc]

@[ext]
structure Block (n : Nat) where
  bytes : Bytes
  size_eq : bytes.length = n
deriving DecidableEq

namespace Block

variable {n : Nat}

def zeroed (n : Nat) : Block n := ⟨List.replicate n 0, List.length_replicate⟩

/-- Store `src` at offset `off`; out of bounds when it does not end inside the object. -/
def write (b : Block n) (off : Nat) (src : Bytes) : Option (Block n) :=
  if h : off + src.length ≤ n then
    some ⟨patch b.bytes off src, by rw [patch_length (by rw [b.size_eq]; exact h), b.size_eq]⟩
  else none

theorem write_eq_some_iff {b b' : Block n} {off : Nat} {src : Bytes} :
    b.write off src = some b' ↔ off + src.length ≤ n ∧ b'.bytes = patch b.bytes off src := by
  unfold write
  split
  · rename_i hle
    simp [hle, Block.ext_iff, eq_comm]
  · rename_i hle
    simp [hle]

theorem exists_write {b : Block n} {off : Nat} {src : Bytes} (h : off + src.length ≤ n) :
    ∃ b', b.write off src = some b' ∧ b'.bytes = patch b.bytes off src := by
  simp only [write, dif_pos h]
  exact ⟨_, rfl, rfl⟩

theorem write_eq_none_iff {b : Block n} {off : Nat} {src : Bytes} :
    b.write off src = none ↔ n < off + src.length := by
  unfold write
  split
  · rename_i hle
    simpa using hle
  · rename_i hle
    simpa using hle

end Block

end CLib
