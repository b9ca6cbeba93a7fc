import InstructionParser.Proof.Handlers
import InstructionParser.Proof.SetAddress

/-!
# Printed addresses read back

`inet_ntoa` prints an address that `ip_to_hex_str` takes apart again: every address comes back as its
four octets.
-/

namespace InstructionParser

open CLib

/-! ### Names padded with zeros -/

theorem exists_copied {field : Bytes} {n size : Nat} (hn : n ≤ size) (hread : n ≤ field.length) :
    ∃ src info, strncpyBytes field n = some src ∧ (Block.zeroed size).write 0 src = some info
      ∧ info.bytes = strBytes (field.take n)
        ++ List.replicate (size - (strBytes (field.take n)).length) 0 := by
  have hcopy : strncpyBytes field n = some (strBytes (field.take n)
      ++ List.replicate (n - (strBytes (field.take n)).length) 0) := if_pos (Or.inr hread)
  have hlength := strncpyBytes_length hcopy
  have hroom : 0 + (strBytes (field.take n)
      ++ List.replicate (n - (strBytes (field.take n)).length) (0 : UInt8)).length ≤ size := by omega
  obtain ⟨info, hwrite, hbytes⟩ := Block.exists_write (b := Block.zeroed size) hroom
  have hfield : (strBytes (field.take n)).length ≤ n := by
    have hsum := hlength
    rw [List.length_append] at hsum
    omega
  refine ⟨_, info, hcopy, hwrite, ?_⟩
  rw [hbytes, patch, hlength]
  change [] ++ _ ++ (List.replicate size 0).drop _ = _
  rw [List.nil_append, List.drop_replicate, List.append_assoc, List.replicate_append_replicate]
  congr 2
  omega

theorem getIp_padded (env : Env) {name : Bytes} (h : 0 ∉ name) {k : Nat} (hlength : name.length ≤ 15)
    (hk : 0 < k) :
    getIp env (name ++ List.replicate k 0) = some ((env.ifAddr name).map inetNtoa) := by
  have hzero : 0 ∈ name ++ List.replicate k (0 : UInt8) := by simp; omega
  have hcut : strBytes ((name ++ List.replicate k 0).take 15) = name := by
    rw [List.take_append, List.take_of_length_le hlength, List.take_replicate]
    exact strBytes_padded h _
  rw [getIp, strncpyBytes, if_pos (Or.inl hzero)]
  simp only [hcut, Option.bind_eq_bind, Option.bind_some, strBytes_padded h]
  rfl

/-! ### The octets -/

theorem octetGroup_decNat (a : UInt8) : OctetGroup (decNat a.toNat) := by
  have ha := a.toNat_lt
  refine ⟨decNat_ne_nil _, fun d hd => isDigit_of_mem_decNat hd, ?_⟩
  rw [digitsValue_decNat]
  omega

theorem octet_read (a : UInt8) : atoi (decNat a.toNat) = some (a.toNat : Int) := by
  rw [(octetGroup_decNat a).atoi_eq, digitsValue_decNat]

theorem octet_stored (a : UInt8) : UInt8.ofInt a.toNat = a := by
  apply UInt8.toNat_inj.mp
  have ha := a.toNat_lt
  simp [UInt8.ofInt]
  omega

theorem words_inetNtoa (a b c d : UInt8) :
    words 0x2e (inetNtoa (a, b, c, d))
      = [decNat a.toNat, decNat b.toNat, decNat c.toNat, decNat d.toNat] := by
  have htext : inetNtoa (a, b, c, d) = decNat a.toNat ++ 0x2e :: (decNat b.toNat
      ++ 0x2e :: (decNat c.toNat ++ 0x2e :: decNat d.toNat)) := by
    simp [inetNtoa, ascii]
  rw [htext, words_token_delim (decNat_ne_nil _) (octetGroup_decNat a).noDot,
    words_token_delim (decNat_ne_nil _) (octetGroup_decNat b).noDot,
    words_token_delim (decNat_ne_nil _) (octetGroup_decNat c).noDot,
    words_token (decNat_ne_nil _) (octetGroup_decNat d).noDot]

theorem zero_notMem_inetNtoa (addr : UInt8 × UInt8 × UInt8 × UInt8) : 0 ∉ inetNtoa addr := by
  obtain ⟨a, b, c, d⟩ := addr
  have hgroup : ∀ n, (0 : UInt8) ∉ decNat n := by
    intro n hmem
    exact absurd (isDigit_of_mem_decNat hmem) (by decide)
  have hdot : (0 : UInt8) ∉ ascii "." := by decide
  simp only [inetNtoa, List.mem_flatten, List.mem_cons, List.not_mem_nil, or_false, not_exists,
    not_and]
  rintro s (rfl | rfl | rfl | rfl | rfl | rfl | rfl)
  exacts [hgroup _, hdot, hgroup _, hdot, hgroup _, hdot, hgroup _]

theorem inetNtoa_length_le (addr : UInt8 × UInt8 × UInt8 × UInt8) : (inetNtoa addr).length ≤ 15 := by
  obtain ⟨a, b, c, d⟩ := addr
  have hgroup : ∀ x : UInt8, (decNat x.toNat).length ≤ 3 := fun x =>
    decNat_length_le (by decide) (Nat.lt_trans x.toNat_lt (by decide))
  have hdot : (ascii ".").length = 1 := by decide
  have ha := hgroup a
  have hb := hgroup b
  have hc := hgroup c
  have hd := hgroup d
  simp only [inetNtoa, List.length_flatten, List.map_cons, List.map_nil, List.sum_cons,
    List.sum_nil, hdot]
  omega

theorem storeOctets_bytes {octets : Bytes} {info info' : Block 10} {i : Nat}
    (h : storeOctets info i (octets.map fun a => decNat a.toNat) = some info') :
    info'.bytes = patch info.bytes (ipaddrOff + i) octets := by
  induction octets generalizing info i with
  | nil =>
      obtain rfl := Option.some.inj h
      simp [patch]
  | cons a rest ih =>
      obtain ⟨octet, hoctet, h⟩ := Option.bind_eq_some_iff.mp h
      obtain rfl := Option.some.inj (hoctet.symm.trans (octet_read a))
      obtain ⟨next, hwrite, hrest⟩ := Option.bind_eq_some_iff.mp h
      obtain ⟨hroom, hnext⟩ := Block.write_eq_some_iff.mp hwrite
      rw [octet_stored] at hroom hnext
      rw [← info.size_eq] at hroom
      rw [ih hrest, hnext]
      exact patch_patch rest hroom

theorem ipToHexStr_inetNtoa (info : Block 10) (a b c d : UInt8) :
    ∃ info', ipToHexStr (inetNtoa (a, b, c, d) ++ [0]) info = some info'
      ∧ info'.bytes = info.bytes.take ipaddrOff ++ [a, b, c, d] := by
  have hzero := zero_notMem_inetNtoa (a, b, c, d)
  have htokens : strtokAll 0x2e ((inetNtoa (a, b, c, d) ++ [0]).length + 1)
      (inetNtoa (a, b, c, d) ++ [0]) 0
      = some [decNat a.toNat, decNat b.toNat, decNat c.toNat, decNat d.toNat] := by
    have hstr : strBytes ((inetNtoa (a, b, c, d) ++ [0]).drop 0) = inetNtoa (a, b, c, d) :=
      strBytes_append_zero hzero []
    rw [strtokAll_eq_words (by decide) _ _ _ (by simp) (by rw [hstr]; simp), wordsFrom, hstr,
      words_inetNtoa]
  have hread : ∀ tok ∈ [a, b, c, d].map fun a => decNat a.toNat, ∃ octet, atoi tok = some octet := by
    intro tok htok
    obtain ⟨x, _, rfl⟩ := List.mem_map.mp htok
    exact ⟨_, octet_read x⟩
  obtain ⟨info', hstored⟩ := exists_storeOctets ([a, b, c, d].map fun a => decNat a.toNat) info 0
    (le_refl 4) hread
  refine ⟨info', by rw [ipToHexStr, htokens]; exact hstored, ?_⟩
  rw [storeOctets_bytes hstored]
  have hsize := info.size_eq
  simp [patch, ipaddrOff, List.drop_eq_nil_of_le (le_of_eq hsize)]

end InstructionParser
