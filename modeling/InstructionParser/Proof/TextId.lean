import InstructionParser.CLib.Decimal
import InstructionParser.Handle
import InstructionParser.Proof.Grammar
import InstructionParser.Proof.TextParse

/-!
# The id of a text command

`StringToInteger` reads the id into an `int`, `text_parse` stores it in a field of 16 bits, and the
responses print that field.
-/

namespace InstructionParser

open CLib

variable {buf line w ds : Bytes} {fd : Int} {cmd c : StCmdFrame}

/-- One digit of `StringToInteger` on an `int` of 32 bits: `none` when `value * 10 + *p` overflows, the
difference with `'0'` being taken last. -/
def stringToIntegerStep (value : Int) (b : UInt8) : Option Int :=
  if isDigit b then
    if value * 10 + b.toNat < 2 ^ 31 then some (value * 10 + b.toNat - 0x30) else none
  else some value

/-- `StringToInteger`, `none` when it overflows. -/
def stringToInteger? (p : Bytes) : Option Int := p.foldlM stringToIntegerStep 0

/-- The number between the brackets that a response begins with. -/
def printedId : Bytes → Option Nat
  | 0x5b :: rest =>
      let ds := rest.takeWhile isDigit
      if rest[ds.length]? = some 0x5d then some (digitsValue ds) else none
  | _ => none

/-- The number of the command is the one that the line gives: the conversion does not overflow, and
every response to the command prints it. -/
structure CarriesId (ds w : Bytes) (c : StCmdFrame) : Prop where
  converted : stringToInteger? w = some (digitsValue ds : Int)
  response : ∀ reply len response, doTextResponse c reply len = some response →
    printedId response = some (digitsValue ds)
  error : ∀ code response, doTextResponseError c code = some response →
    printedId response = some (digitsValue ds)

theorem printedId_decNat (n : Nat) (rest : Bytes) :
    printedId (ascii "[" ++ decNat n ++ 0x5d :: rest) = some n := by
  have htake : (decNat n ++ 0x5d :: rest).takeWhile isDigit = decNat n := by
    rw [List.takeWhile_append_of_pos fun d hd => isDigit_of_mem_decNat hd]
    simp [isDigit]
  have hsplit : ascii "[" ++ decNat n ++ 0x5d :: rest = 0x5b :: (decNat n ++ 0x5d :: rest) := by
    rw [List.append_assoc]
    rfl
  rw [hsplit, printedId, htake]
  simp [digitsValue_decNat]

theorem printedId_doTextResponse {reply response : Bytes} {len : Int}
    (h : doTextResponse c reply len = some response) : printedId response = some c.frameId.toNat := by
  simp only [doTextResponse, Option.bind_eq_bind, Option.bind_eq_some_iff] at h
  obtain ⟨name, _, text, _, _, _, hresponse⟩ := h
  obtain rfl := Option.some.inj hresponse
  have hsplit : textResponseHead c name ++ text ++ textResponseTail
      = ascii "[" ++ decNat c.frameId.toNat
        ++ 0x5d :: (ascii " " ++ name ++ ascii " " ++ text ++ textResponseTail) := by
    rw [textResponseHead, show ascii "] " = 0x5d :: ascii " " from rfl]
    simp only [List.append_assoc, List.cons_append]
  rw [hsplit, printedId_decNat]

theorem printedId_doTextResponseError {code : Int} {response : Bytes}
    (h : doTextResponseError c code = some response) : printedId response = some c.frameId.toNat := by
  simp only [doTextResponseError, Option.bind_eq_bind, Option.bind_eq_some_iff] at h
  obtain ⟨_, _, hresponse⟩ := h
  obtain rfl := Option.some.inj hresponse
  have hsplit : ascii "[" ++ decNat c.frameId.toNat ++ ascii "] ERROR [" ++ decInt code ++ ascii "]\n"
      = ascii "[" ++ decNat c.frameId.toNat
        ++ 0x5d :: (ascii " ERROR [" ++ decInt code ++ ascii "]\n") := by
    rw [show ascii "] ERROR [" = 0x5d :: ascii " ERROR [" from rfl]
    simp only [List.append_assoc, List.cons_append]
  rw [hsplit, printedId_decNat]

theorem exists_doTextResponseError (c : StCmdFrame) :
    ∃ response, doTextResponseError c (-1) = some response := by
  have hdigits : (decNat c.frameId.toNat).length ≤ 5 :=
    decNat_length_le (by decide) (Nat.lt_trans c.frameId.toNat_lt (by decide))
  have hopen : (ascii "[").length = 1 := by decide
  have herror : (ascii "] ERROR [").length = 9 := by decide
  have hcode : (decInt (-1)).length = 2 := by decide
  have hclose : (ascii "]\n").length = 2 := by decide
  have hfits : 0 + (ascii "[" ++ decNat c.frameId.toNat ++ ascii "] ERROR [" ++ decInt (-1)
      ++ ascii "]\n" ++ [0]).length ≤ 128 := by
    simp only [List.length_append, hopen, herror, hcode, hclose, List.length_singleton]
    omega
  obtain ⟨block, hblock, _⟩ := Block.exists_write (b := Block.zeroed 128) hfits
  exact ⟨_, by rw [doTextResponseError, hblock]; rfl⟩

/-! ### The conversion -/

theorem foldl_digits_wrapped {ds : Bytes} (h : ∀ d ∈ ds, isDigit d = true) {value : UInt32} {n : Nat}
    (hvalue : value.toNat = n % 2 ^ 32) :
    (ds.foldl (fun value b => if isDigit b then value * 10 + b.toUInt32 - 0x30 else value) value).toNat
      = ds.foldl (fun value b => value * 10 + (b.toNat - 0x30)) n % 2 ^ 32 := by
  induction ds generalizing value n with
  | nil => exact hvalue
  | cons d ds ih =>
      obtain ⟨hd, hds⟩ := List.forall_mem_cons.mp h
      have hbounds := isDigit_iff.mp hd
      rw [List.foldl_cons, List.foldl_cons, if_pos hd]
      refine ih hds ?_
      rw [UInt32.toNat_sub, UInt32.toNat_add, UInt32.toNat_mul, hvalue, UInt8.toNat_toUInt32,
        show (0x30 : UInt32).toNat = 0x30 from rfl, show (10 : UInt32).toNat = 10 from rfl]
      omega

theorem foldlM_digits {ds : Bytes} (h : ∀ d ∈ ds, isDigit d = true) {value : Nat}
    (hsmall : ds.foldl (fun value b => value * 10 + (b.toNat - 0x30)) value < 2 ^ 16) :
    ds.foldlM stringToIntegerStep (value : Int)
      = some ((ds.foldl (fun value b => value * 10 + (b.toNat - 0x30)) value : Nat) : Int) := by
  induction ds generalizing value with
  | nil => rfl
  | cons d ds ih =>
      obtain ⟨hd, hds⟩ := List.forall_mem_cons.mp h
      have hbounds := isDigit_iff.mp hd
      have hnext := le_foldl_digits ds (value * 10 + (d.toNat - 0x30))
      rw [List.foldl_cons] at hsmall ⊢
      have hstep : stringToIntegerStep (value : Int) d
          = some ((value * 10 + (d.toNat - 0x30) : Nat) : Int) := by
        rw [stringToIntegerStep, if_pos hd, if_pos (by omega)]
        congr 1
        omega
      rw [List.foldlM_cons, hstep]
      exact ih hds hsmall

theorem IdWord.stringToInteger_toNat (h : IdWord ds w) :
    (stringToInteger w).toNat = digitsValue ds % 2 ^ 32 := by
  obtain ⟨_, hds, rfl⟩ := h
  have hwrapped := foldl_digits_wrapped hds (show (0 : UInt32).toNat = 0 % 2 ^ 32 from rfl)
  rw [digitsValue, ← hwrapped, stringToInteger, List.foldl_cons, List.foldl_append]
  rfl

theorem IdWord.stringToInteger?_eq (h : IdWord ds w) (hsmall : digitsValue ds < 2 ^ 16) :
    stringToInteger? w = some (digitsValue ds : Int) := by
  obtain ⟨_, hds, rfl⟩ := h
  have hdigits := foldlM_digits hds (show ds.foldl _ 0 < 2 ^ 16 from hsmall)
  rw [stringToInteger?, List.foldlM_cons, show stringToIntegerStep 0 0x5b = some 0 from rfl]
  simp only [Option.bind_eq_bind, Option.bind_some, List.foldlM_append]
  rw [show ((0 : Int)) = ((0 : Nat) : Int) from rfl, hdigits]
  rfl

/-! ### The field -/

theorem storeToken_frameId {i : Nat} {pStr : Bytes} (h : storeToken cmd i pStr = some c) :
    c.frameId = if i = 0 then (stringToInteger pStr).toUInt16 else cmd.frameId := by
  obtain ⟨arrays, _, rfl⟩ := StCmdFrame.store_eq_some_iff.mp h
  split_ifs <;> rfl

theorem storeTokens_frameId : ∀ {tokens : List Bytes} {cmd : StCmdFrame} {i : Nat},
    storeTokens cmd (i + 1) tokens = some c → c.frameId = cmd.frameId := by
  intro tokens
  induction tokens with
  | nil =>
      intro cmd i h
      rw [← Option.some.inj h]
  | cons pStr rest ih =>
      intro cmd i h
      obtain ⟨next, hstore, hrest⟩ := Option.bind_eq_some_iff.mp h
      rw [ih hrest, storeToken_frameId hstore, if_neg (Nat.succ_ne_zero i)]

theorem textParse_frameId {rest : List Bytes} (hline : cstr buf = some line)
    (hwords : words 0x20 line = w :: rest) (h : textParse fd cmd buf = some c) :
    c.frameId = (stringToInteger w).toUInt16 := by
  have hzero : 0 ∈ buf := by
    obtain ⟨_, tail, rfl⟩ := cstr_eq_some_iff.mp hline
    simp
  have hstr : strBytes buf = line := Option.some.inj ((if_pos hzero).symm.trans hline)
  rw [textParse_eq hzero, hstr, hwords] at h
  obtain ⟨stored, hstored, rfl⟩ := Option.map_eq_some_iff.mp h
  obtain ⟨next, hfirst, hrest⟩ := Option.bind_eq_some_iff.mp hstored
  exact (storeTokens_frameId hrest).trans ((storeToken_frameId hfirst).trans (if_pos rfl))

/-- **Ids.** Whatever line the command comes from, its responses carry the id of the line and the
conversion does not overflow if and only if the id is below 2^16. -/
theorem carriesId_iff {rest : List Bytes} (hline : cstr buf = some line)
    (hwords : words 0x20 line = w :: rest) (hid : IdWord ds w)
    (hparse : textParse fd cmd buf = some c) : CarriesId ds w c ↔ digitsValue ds < 2 ^ 16 := by
  have hfield : c.frameId.toNat = digitsValue ds % 2 ^ 32 % 2 ^ 16 := by
    rw [textParse_frameId hline hwords hparse, UInt32.toNat_toUInt16, hid.stringToInteger_toNat]
  constructor
  · intro h
    obtain ⟨response, hresponse⟩ := exists_doTextResponseError c
    have hprinted := (printedId_doTextResponseError hresponse).symm.trans (h.error _ _ hresponse)
    have hbound := c.frameId.toNat_lt
    rw [Option.some.injEq] at hprinted
    omega
  · intro hsmall
    have hsame : c.frameId.toNat = digitsValue ds := by omega
    refine ⟨hid.stringToInteger?_eq hsmall, ?_, ?_⟩
    · intro reply len response hresponse
      rw [printedId_doTextResponse hresponse, hsame]
    · intro code response hresponse
      rw [printedId_doTextResponseError hresponse, hsame]

theorem carriesId_iff_sixteen :
    ∃ c, textParse 5 StCmdFrame.zeroed (ascii "[16] help" ++ [0]) = some c
      ∧ CarriesId (ascii "16") (ascii "[16]") c := by
  obtain ⟨c, hc⟩ : ∃ c, textParse 5 StCmdFrame.zeroed (ascii "[16] help" ++ [0]) = some c :=
    Option.isSome_iff_exists.mp (by decide +kernel)
  have hwords : words 0x20 (ascii "[16] help") = [ascii "[16]", ascii "help"] := by decide
  have hid : IdWord (ascii "16") (ascii "[16]") := ⟨by decide, by decide +kernel, rfl⟩
  exact ⟨c, hc, (carriesId_iff (by decide) hwords hid hc).mpr (by decide)⟩

/-- The id 65536 is printed as 0. -/
theorem id_cut :
    ¬ ∀ (tmpStr : Block 128) (buf line w ds : Bytes) (rest : List Bytes) (fd : Int)
      (cmd c : StCmdFrame), cstr buf = some line → textCheckData tmpStr buf = some 0 →
      words 0x20 line = w :: rest → IdWord ds w → textParse fd cmd buf = some c →
      CarriesId ds w c := by
  intro h
  obtain ⟨c, hc⟩ : ∃ c, textParse 5 StCmdFrame.zeroed (ascii "[65536] help" ++ [0]) = some c :=
    Option.isSome_iff_exists.mp (by decide +kernel)
  have hline : cstr (ascii "[65536] help" ++ [0]) = some (ascii "[65536] help") := by decide
  have hwords : words 0x20 (ascii "[65536] help") = [ascii "[65536]", ascii "help"] := by decide
  have hid : IdWord (ascii "65536") (ascii "[65536]") := ⟨by decide, by decide +kernel, rfl⟩
  have hchecked : textCheckData (Block.zeroed 128) (ascii "[65536] help" ++ [0]) = some 0 := by
    decide +kernel
  have hcarries := h _ _ _ _ _ _ _ _ c hline hchecked hwords hid hc
  obtain ⟨response, hresponse⟩ := exists_doTextResponseError c
  have hprinted := (printedId_doTextResponseError hresponse).symm.trans
    (hcarries.error _ _ hresponse)
  have hbound := c.frameId.toNat_lt
  have hvalue : digitsValue (ascii "65536") = 65536 := by decide
  rw [hvalue, Option.some.injEq] at hprinted
  omega

end InstructionParser
