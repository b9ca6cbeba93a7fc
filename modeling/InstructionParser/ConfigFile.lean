import InstructionParser.CLib.CString

/-!
# The configuration file

`config_file` of `common/common.c`, on the bytes of a file. Reading, seeking and writing do not fail
once the file is open, and no file is opened whose offsets an `int` does not hold.
-/

namespace InstructionParser

open CLib

/-- The line that `fgets(linebuffer, 512, fp)` reads and what it leaves to read. -/
def fgets (rest : Bytes) : Bytes × Bytes :=
  let n := min 511 ((rest.takeWhile (· ≠ 0x0a)).length + 1)
  (rest.take n, rest.drop n)

/-- `buffer1` after `sscanf(linebuffer, "%[^=]=%[^=]", buffer1, buffer2)`. A conversion that matches
nothing leaves it as it was. -/
def scanAttribute (linebuffer buffer1 : Bytes) : Bytes :=
  if linebuffer.takeWhile (· ≠ 0x3d) = [] then buffer1 else linebuffer.takeWhile (· ≠ 0x3d)

/-- Where the loop of `config_file` ends: at a line of the attribute, with the offset `len` that it has
computed, `line_len` and `buffer1`, or at the end of the file. -/
inductive Search where
  | found (len lineLen : Nat) (buffer1 : Bytes)
  | missing (len : Nat)
deriving DecidableEq

def searchLoop (atrribute : Bytes) : Nat → Bytes → Bytes → Nat → Option Search
  | 0, _, _, _ => none
  | fuel + 1, rest, buffer1, len =>
      if rest = [] then some (.missing len)
      else
        let linebuffer := strBytes (fgets rest).1
        let buffer1 := scanAttribute linebuffer buffer1
        if atrribute = buffer1 then some (.found len linebuffer.length buffer1)
        else searchLoop atrribute fuel (fgets rest).2 buffer1 (len + linebuffer.length)

/-- `fseek(fp, off, SEEK_SET)` and a write. -/
def writeAt (file : Bytes) (off : Nat) (src : Bytes) : Bytes :=
  file.take off ++ List.replicate (off - file.length) 0 ++ src ++ file.drop (off + src.length)

/-- `"%s=%s\n"`. -/
def configLine (atrribute value : Bytes) : Bytes := atrribute ++ ascii "=" ++ value ++ ascii "\n"

/-- `config_file`: what it returns and the file after it. -/
def configFile (opens : Bool) (file atrribute value : Bytes) : Option (Int × Bytes) :=
  if opens = false then some (-1, file)
  else
    (searchLoop atrribute (file.length + 1) file [] 0).map fun
      | .found len lineLen buffer1 =>
          (0, writeAt (writeAt file len (List.replicate lineLen 0)) len (configLine buffer1 value))
      | .missing len => (0, writeAt file len (configLine atrribute value))

theorem fgets_snd_length {rest : Bytes} (h : rest ≠ []) : (fgets rest).2.length < rest.length := by
  have hpos := List.length_pos_iff.mpr h
  rw [fgets, List.length_drop]
  omega

theorem exists_searchLoop (atrribute : Bytes) : ∀ (fuel : Nat) (rest buffer1 : Bytes) (len : Nat),
    rest.length < fuel → ∃ found, searchLoop atrribute fuel rest buffer1 len = some found := by
  intro fuel
  induction fuel with
  | zero => exact fun rest _ _ hfuel => absurd hfuel (Nat.not_lt_zero _)
  | succ fuel ih =>
      intro rest buffer1 len hfuel
      simp only [searchLoop]
      split_ifs with hrest
      · exact ⟨_, rfl⟩
      · exact ⟨_, rfl⟩
      · have hshorter := fgets_snd_length hrest
        exact ih _ _ _ (by omega)

theorem exists_configFile (opens : Bool) (file atrribute value : Bytes) :
    ∃ out, configFile opens file atrribute value = some out := by
  obtain ⟨found, hfound⟩ := exists_searchLoop atrribute (file.length + 1) file [] 0 (by omega)
  rw [configFile, hfound]
  split_ifs
  · exact ⟨_, rfl⟩
  · exact ⟨_, rfl⟩

end InstructionParser
