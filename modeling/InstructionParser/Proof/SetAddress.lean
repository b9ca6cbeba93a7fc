import InstructionParser.CLib.Decimal
import InstructionParser.Functions.Network

/-!
# Which addresses are set

`check_right_ip` counts the groups between dots and looks at the value of the first one only, and the
copy that is handed to `set_hand_ip` has no end of its own.
-/

namespace InstructionParser

open CLib

variable {env : Env} {info mem s ip first : Bytes}

/-! ### Dotted quads -/

def OctetGroup (g : Bytes) : Prop := g ≠ [] ∧ (∀ d ∈ g, isDigit d = true) ∧ digitsValue g ≤ 255

/-- Four groups of decimal digits with single dots between them, each of value at most 255. -/
def DottedQuad (s : Bytes) : Prop :=
  ∃ a b c d, OctetGroup a ∧ OctetGroup b ∧ OctetGroup c ∧ OctetGroup d
    ∧ s = a ++ 0x2e :: (b ++ 0x2e :: (c ++ 0x2e :: d))

/-- The string up to the end of its first group. -/
def firstPart (s : Bytes) : Bytes :=
  s.takeWhile (· = 0x2e) ++ (s.dropWhile (· = 0x2e)).takeWhile (· ≠ 0x2e)

/-- What `check_right_ip` asks for: four nonempty groups, the value of the first being in range. -/
structure AcceptedForm (s : Bytes) : Prop where
  groups : (words 0x2e s).length = 4
  first : ∃ value, atoi (firstPart s) = some value ∧ 0 ≤ value ∧ value ≤ 255

instance (s : Bytes) : Decidable (AcceptedForm s) :=
  decidable_of_iff ((words 0x2e s).length = 4
      ∧ (atoi (firstPart s)).any (fun value => 0 ≤ value ∧ value ≤ 255) = true) <| by
    simp only [Option.any_eq_true, decide_eq_true_eq]
    exact ⟨fun h => ⟨h.1, h.2⟩, fun h => ⟨h.groups, h.first⟩⟩

/-- What `check_right_ip` refuses: the start of the string reads as an `int`, and this or the number of
groups is wrong. -/
structure RefusedForm (s : Bytes) : Prop where
  first : ∃ value, atoi (firstPart s) = some value
  refused : ¬ AcceptedForm s

theorem OctetGroup.noDot {g : Bytes} (h : OctetGroup g) : 0x2e ∉ g := by
  intro hmem
  exact absurd (isDigit_iff.mp (h.2.1 _ hmem)).1 (by decide)

theorem leadingInt_digits {g : Bytes} (hne : g ≠ []) (hg : ∀ d ∈ g, isDigit d = true) :
    leadingInt g = digitsValue g := by
  obtain ⟨d, ds, rfl⟩ := List.exists_cons_of_ne_nil hne
  have hd := isDigit_iff.mp (hg d List.mem_cons_self)
  have hspace : isSpace d = false := by
    rw [isSpace, Bool.or_eq_false_iff, decide_eq_false_iff_not, Bool.and_eq_false_iff,
      decide_eq_false_iff_not, decide_eq_false_iff_not]
    refine ⟨?_, Or.inr (by omega)⟩
    rintro rfl
    exact absurd hd.1 (by decide)
  have hminus : d ≠ 0x2d := by
    rintro rfl
    exact absurd hd.1 (by decide)
  have hplus : d ≠ 0x2b := by
    rintro rfl
    exact absurd hd.1 (by decide)
  rw [leadingInt, List.dropWhile_cons_of_neg (by simp [hspace])]
  simp only
  rw [if_neg hminus, if_neg hplus, List.takeWhile_eq_self_iff.mpr hg]

theorem OctetGroup.atoi_eq {g : Bytes} (h : OctetGroup g) : atoi g = some (digitsValue g : Int) := by
  have hvalue := h.2.2
  exact atoi_eq_some_iff.mpr ⟨leadingInt_digits h.1 h.2.1, by omega, by omega⟩

/-- A string of dots reads as zero. -/
theorem atoi_dots {ds : Bytes} (h : ∀ x ∈ ds, x = 0x2e) : atoi ds = some 0 := by
  have hzero : leadingInt ds = 0 := by
    cases ds with
    | nil => rfl
    | cons d ds =>
        obtain rfl := h d List.mem_cons_self
        rfl
  exact atoi_eq_some_iff.mpr ⟨hzero, by decide, by decide⟩

theorem firstPart_append {ds tok rest : Bytes} (hds : ∀ x ∈ ds, x = 0x2e) (hne : tok ≠ [])
    (htok : 0x2e ∉ tok) (hrest : rest = [] ∨ rest.head? = some 0x2e) :
    firstPart (ds ++ (tok ++ rest)) = ds ++ tok := by
  obtain ⟨t, ts, rfl⟩ := List.exists_cons_of_ne_nil hne
  have ht : t ≠ 0x2e := fun h => htok (h ▸ List.mem_cons_self)
  have hts : ∀ x ∈ t :: ts, x ≠ 0x2e := fun x hx h => htok (h ▸ hx)
  have hstop : rest.takeWhile (fun x => decide (x ≠ 0x2e)) = [] := by
    rcases hrest with rfl | hdot
    · rfl
    · obtain ⟨tail, rfl⟩ := List.head?_eq_some_iff.mp hdot
      simp
  have hdots : (t :: ts ++ rest).takeWhile (fun x => decide (x = 0x2e)) = [] := by simp [ht]
  have htail : (t :: ts ++ rest).dropWhile (fun x => decide (x = 0x2e)) = t :: ts ++ rest := by
    simp [ht]
  rw [firstPart, List.takeWhile_append_of_pos (by simpa using hds), hdots,
    List.dropWhile_append_of_pos (by simpa using hds), htail,
    List.takeWhile_append_of_pos (by simpa using hts), hstop, List.append_nil, List.append_nil]

theorem DottedQuad.words_eq (h : DottedQuad s) : ∃ a b c d, OctetGroup a ∧ OctetGroup b
    ∧ OctetGroup c ∧ OctetGroup d ∧ words 0x2e s = [a, b, c, d] := by
  obtain ⟨a, b, c, d, ha, hb, hc, hd, rfl⟩ := h
  refine ⟨a, b, c, d, ha, hb, hc, hd, ?_⟩
  rw [words_token_delim ha.1 ha.noDot, words_token_delim hb.1 hb.noDot,
    words_token_delim hc.1 hc.noDot, words_token hd.1 hd.noDot]

theorem DottedQuad.acceptedForm (h : DottedQuad s) : AcceptedForm s := by
  constructor
  · obtain ⟨a, b, c, d, _, _, _, _, hwords⟩ := h.words_eq
    rw [hwords]
    rfl
  · obtain ⟨a, b, c, d, ha, hb, hc, hd, rfl⟩ := h
    have hfirst : firstPart ([] ++ (a ++ 0x2e :: (b ++ 0x2e :: (c ++ 0x2e :: d)))) = [] ++ a :=
      firstPart_append (by simp) ha.1 ha.noDot (Or.inr rfl)
    rw [List.nil_append, List.nil_append] at hfirst
    refine ⟨digitsValue a, ?_, Int.natCast_nonneg _, by exact_mod_cast ha.2.2⟩
    rw [hfirst, ha.atoi_eq]

/-! ### The loop of the check -/

theorem checkRightIpLoop_eq {first : Bytes} {value : Int} (hvalue : atoi first = some value)
    (hrange : 0 ≤ value ∧ value ≤ 255) :
    ∀ (fuel : Nat) (ip : Bytes) (pos : Nat) (i : Int), cstr ip = some first →
      (first.length < pos ∨ wordsFrom 0x2e ip pos = []) → 0 ∈ ip.drop pos →
      (strBytes (ip.drop pos)).length < fuel →
      ∃ ip', checkRightIpLoop fuel ip pos i
        = some (if i = (wordsFrom 0x2e ip pos).length then 0 else -1, ip') := by
  intro fuel
  induction fuel with
  | zero => intro ip pos i _ _ _ hfuel; omega
  | succ fuel ih =>
      intro ip pos i hfirst hbehind hzero hfuel
      obtain ⟨⟨r, ip', pos'⟩, hcall⟩ := exists_strtok (d := 0x2e) (by decide) hzero
      cases r with
      | none =>
          have hnone := (strtok_null (by decide) hcall).1
          exact ⟨ip', by simp [checkRightIpLoop, hcall, hnone]⟩
      | some tok =>
          obtain ⟨hwords, hshorter, hkeeps, _⟩ := strtok_token (by decide) hcall
          obtain ⟨htake, hle⟩ := strtok_frame hcall
          have hpos : first.length < pos := hbehind.resolve_right (by rw [hwords]; simp)
          have hfirst' : cstr ip' = some first := cstr_of_take_eq htake hfirst hpos
          have hstr := strBytes_of_cstr hfirst'
          obtain ⟨last, hlast⟩ := ih ip' pos' (i - 1) hfirst' (Or.inl (by omega)) (hkeeps hzero)
            (by omega)
          refine ⟨last, ?_⟩
          rw [checkRightIpLoop, hcall]
          simp only
          rw [hstr, hvalue, Option.bind_some, if_neg (by omega), hlast, hwords, List.length_cons]
          congr 3
          simp only [eq_iff_iff]
          omega

/-- The first call of `strtok` ends the first group, or finds the end of the string behind it. -/
theorem strtok_first {tok : Bytes} {pos : Nat} (hs : cstr mem = some s)
    (h : strtok 0x2e mem 0 = some (some tok, ip, pos)) :
    cstr ip = some (firstPart s)
      ∧ ((firstPart s).length < pos ∨ wordsFrom 0x2e ip pos = []) := by
  obtain ⟨ds, tok', b, rest, hsplit, hds, htok, hstop, _, heq⟩ := strtok_eq_some_iff.mp h
  by_cases hempty : tok' = []
  · rw [if_pos hempty] at heq
    cases heq
  rw [List.drop_zero] at hsplit
  have hdot : 0x2e ∉ tok' := fun hmem => (htok _ hmem).1 rfl
  have hzero : 0 ∉ ds ++ tok' := by
    rw [List.mem_append, not_or]
    exact ⟨zero_notMem_delims (by decide) hds, fun hmem => (htok _ hmem).2 rfl⟩
  have hmem : mem = (ds ++ tok') ++ b :: rest := by rw [hsplit, List.append_assoc]
  have hstr : s = (ds ++ tok') ++ strBytes (b :: rest) := by
    rw [← strBytes_of_cstr hs, hmem, strBytes_append_of_notMem hzero]
  rw [if_neg hempty] at heq
  by_cases hb : b = 0x2e
  · rw [if_pos hb] at heq
    simp only [Prod.mk.injEq, Option.some.injEq] at heq
    obtain ⟨_, rfl, rfl⟩ := heq
    have hfirst : firstPart s = ds ++ tok' := by
      rw [hstr, List.append_assoc]
      refine firstPart_append hds hempty hdot (Or.inr ?_)
      rw [hb, strBytes_cons, if_neg (by decide)]
      rfl
    have hset : mem.set (0 + ds.length + tok'.length) 0 = (ds ++ tok') ++ 0 :: rest := by
      rw [hmem, Nat.zero_add, ← List.length_append, List.set_append_right _ _ (Nat.le_refl _),
        Nat.sub_self]
      rfl
    rw [hset, hfirst]
    refine ⟨cstr_append_zero hzero rest, Or.inl ?_⟩
    rw [List.length_append]
    omega
  · rw [if_neg hb] at heq
    simp only [Prod.mk.injEq, Option.some.injEq] at heq
    obtain ⟨_, rfl, rfl⟩ := heq
    have hend : strBytes (b :: rest) = [] := by
      rw [strBytes_cons, if_pos (hstop.resolve_left hb)]
    have hfirst : firstPart s = ds ++ tok' := by
      rw [hstr, hend, List.append_assoc]
      exact firstPart_append hds hempty hdot (Or.inl rfl)
    refine ⟨?_, Or.inr ?_⟩
    · rw [hfirst, hs, hstr, hend, List.append_nil]
    · rw [wordsFrom, hmem, Nat.zero_add, ← List.length_append, List.drop_left, hend, words_nil]

theorem firstPart_of_words_nil (h : words 0x2e s = []) : firstPart s = s := by
  have hdots : ∀ x ∈ s, decide (x = 0x2e) = true := fun x hx =>
    decide_eq_true (eq_of_mem_of_words_nil h x hx)
  rw [firstPart, List.takeWhile_eq_self_iff.mpr hdots, List.dropWhile_eq_nil_iff.mpr hdots,
    List.takeWhile_nil, List.append_nil]

/-- The check comes to an end where `atoi` is defined on the start of the string. -/
theorem checkRightIp_eq (hs : cstr mem = some s) :
    (atoi (firstPart s) = none ∧ checkRightIp mem = none)
      ∨ ∃ value ret ip, atoi (firstPart s) = some value ∧ checkRightIp mem = some (ret, ip)
        ∧ (ret = 0 ↔ AcceptedForm s) := by
  have hzero : 0 ∈ mem.drop 0 := by
    obtain ⟨_, rest, rfl⟩ := cstr_eq_some_iff.mp hs
    simp
  have hstr : strBytes (mem.drop 0) = s := strBytes_of_cstr hs
  have hshort : s.length < mem.length := cstr_length_le hs
  obtain ⟨⟨r, ip, pos⟩, hcall⟩ := exists_strtok (d := 0x2e) (by decide) hzero
  rw [checkRightIp, checkRightIpLoop, hcall]
  cases r with
  | none =>
      have hnone := (strtok_null (by decide) hcall).1
      rw [wordsFrom, hstr] at hnone
      have hvalue : atoi (firstPart s) = some 0 := by
        rw [firstPart_of_words_nil hnone]
        exact atoi_dots (eq_of_mem_of_words_nil hnone)
      refine Or.inr ⟨0, -1, ip, hvalue, rfl, iff_of_false (by decide) fun h => ?_⟩
      have hgroups := h.groups
      rw [hnone] at hgroups
      cases hgroups
  | some tok =>
      obtain ⟨hfirst, hbehind⟩ := strtok_first hs hcall
      obtain ⟨hwords, hshorter, hkeeps, _⟩ := strtok_token (by decide) hcall
      have hstart := strBytes_of_cstr hfirst
      rw [wordsFrom, hstr] at hwords
      rw [hstr] at hshorter
      simp only
      rw [hstart]
      cases hvalue : atoi (firstPart s) with
      | none => exact Or.inl ⟨rfl, rfl⟩
      | some value =>
          refine Or.inr ⟨value, ?_⟩
          rw [Option.bind_some]
          by_cases hrange : 0 ≤ value ∧ value ≤ 255
          · obtain ⟨last, hlast⟩ := checkRightIpLoop_eq hvalue hrange mem.length ip pos (4 - 1)
              hfirst hbehind (hkeeps hzero) (by omega)
            refine ⟨_, last, rfl, by rw [if_neg (by omega), hlast], ?_⟩
            have hcount : (words 0x2e s).length = (wordsFrom 0x2e ip pos).length + 1 := by
              rw [hwords, List.length_cons]
            split_ifs with hleft
            · exact iff_of_true rfl ⟨by omega, value, hvalue, hrange⟩
            · refine iff_of_false (by decide) fun h => hleft ?_
              have hgroups := h.groups
              omega
          · refine ⟨-1, ip, rfl, ?_, iff_of_false (by decide) fun h => hrange ?_⟩
            · rw [if_pos (by omega)]
              rfl
            · obtain ⟨value', hsame, hbounds⟩ := h.first
              obtain rfl := Option.some.inj (hvalue.symm.trans hsame)
              exact hbounds

/-! ### The call -/

/-- The memory that `set_device_ip` hands to `set_hand_ip` as the address, if it calls it. -/
def handIpArgument (env : Env) (info : Bytes) : Option (Option Bytes) := do
  let ipAddr ← cstr (info.drop ipaddrOff)
  if env.mallocFails then pure none
  else
    let (ret, _) ← checkRightIp (info.drop ipaddrOff)
    if ret ≠ 0 then pure none else pure (some (ipAddr ++ env.heap))

theorem handIpArgument_eq (hs : cstr (info.drop ipaddrOff) = some s) :
    handIpArgument env info
      = if env.mallocFails = true then some none
        else (atoi (firstPart s)).map fun _ =>
          if AcceptedForm s then some (s ++ env.heap) else none := by
  rw [handIpArgument, hs]
  simp only [Option.bind_eq_bind, Option.bind_some]
  by_cases hmalloc : env.mallocFails = true
  · rw [if_pos hmalloc, if_pos hmalloc]
    rfl
  rw [if_neg hmalloc, if_neg hmalloc]
  rcases checkRightIp_eq hs with ⟨hvalue, hcheck⟩ | ⟨value, ret, checked, hvalue, hcheck, hret⟩
  · rw [hvalue, hcheck]
    rfl
  · rw [hvalue, hcheck]
    simp only [Option.bind_some, Option.map_some]
    by_cases hzero : ret = 0
    · simp [hzero, hret.mp hzero]
    · simp [hzero, mt hret.mpr hzero]

theorem setDeviceIp_of_not_called (h : handIpArgument env info = some none) :
    ∃ status info', setDeviceIp env info = some (status, info', []) ∧ status < 0 := by
  simp only [handIpArgument, Option.bind_eq_bind, Option.bind_eq_some_iff] at h
  obtain ⟨ipAddr, hline, h⟩ := h
  simp only [setDeviceIp, hline, Option.bind_eq_bind, Option.bind_some]
  split_ifs at h ⊢ with hmalloc
  · exact ⟨-noMem, info, rfl, by decide⟩
  · obtain ⟨⟨ret, checked⟩, hcheck, h⟩ := Option.bind_eq_some_iff.mp h
    simp only [hcheck, Option.bind_some]
    split_ifs at h ⊢ with hret
    · exact ⟨-errParams, _, rfl, by decide⟩
    · cases h

theorem setDeviceIp_of_called (h : handIpArgument env info = some (some ip)) :
    ∃ info', setDeviceIp env info = (setHandIp env info' ip).map fun r => (r.1, info', r.2) := by
  simp only [handIpArgument, Option.bind_eq_bind, Option.bind_eq_some_iff] at h
  obtain ⟨ipAddr, hline, h⟩ := h
  simp only [setDeviceIp, hline, Option.bind_eq_bind, Option.bind_some]
  split_ifs at h ⊢ with hmalloc
  · cases h
  obtain ⟨⟨ret, checked⟩, hcheck, h⟩ := Option.bind_eq_some_iff.mp h
  simp only [hcheck, Option.bind_some]
  split_ifs at h ⊢ with hret
  · cases h
  obtain rfl := Option.some.inj (Option.some.inj h)
  refine ⟨info.take ipaddrOff ++ checked, ?_⟩
  cases setHandIp env (info.take ipaddrOff ++ checked) (ipAddr ++ env.heap) <;> rfl

/-- `set_hand_ip` is called exactly for dotted quads, and then with the string itself; for any other
string an error is returned and no interface is touched. -/
structure SetsValidated (env : Env) (info s : Bytes) : Prop where
  quad : DottedQuad s → ∃ ip info', handIpArgument env info = some (some ip) ∧ cstr ip = some s
    ∧ setDeviceIp env info = (setHandIp env info' ip).map fun r => (r.1, info', r.2)
  other : ¬ DottedQuad s → handIpArgument env info = some none
    ∧ ∃ status info', setDeviceIp env info = some (status, info', []) ∧ status < 0

theorem cstr_copy_iff (hs : 0 ∉ s) (heap : Bytes) :
    cstr (s ++ heap) = some s ↔ heap.head? = some 0 := by
  rw [cstr_eq_some_iff, List.head?_eq_some_iff]
  constructor
  · rintro ⟨_, rest, hsplit⟩
    exact ⟨rest, List.append_cancel_left hsplit⟩
  · rintro ⟨rest, rfl⟩
    exact ⟨hs, rest, rfl⟩

/-- **Setting an address.** For every string and everything that the heap may hold: only what has been
validated is set if and only if a dotted quad finds memory and a zero behind its copy, and any other
string finds no memory or is of a form that `check_right_ip` refuses. -/
theorem setsValidated_iff (hs : cstr (info.drop ipaddrOff) = some s) (env : Env) :
    SetsValidated env info s ↔
      (DottedQuad s → env.mallocFails = false ∧ env.heap.head? = some 0)
      ∧ (¬ DottedQuad s → env.mallocFails = true ∨ RefusedForm s) := by
  have hzero := zero_notMem_of_cstr hs
  have hargument : handIpArgument env info = if env.mallocFails = true then some none
      else (atoi (firstPart s)).map fun _ =>
        if AcceptedForm s then some (s ++ env.heap) else none := handIpArgument_eq hs
  constructor
  · intro h
    constructor
    · intro hquad
      obtain ⟨ip, _, hip, hcopy, _⟩ := h.quad hquad
      rw [hargument] at hip
      by_cases hmalloc : env.mallocFails = true
      · rw [if_pos hmalloc] at hip
        cases hip
      rw [if_neg hmalloc] at hip
      obtain ⟨_, _, hcalled⟩ := Option.map_eq_some_iff.mp hip
      rw [if_pos hquad.acceptedForm] at hcalled
      obtain rfl := Option.some.inj hcalled
      exact ⟨Bool.eq_false_iff.mpr hmalloc, (cstr_copy_iff hzero _).mp hcopy⟩
    · intro hother
      have hnone := (h.other hother).1
      rw [hargument] at hnone
      by_cases hmalloc : env.mallocFails = true
      · exact Or.inl hmalloc
      rw [if_neg hmalloc] at hnone
      obtain ⟨value, hvalue, hcalled⟩ := Option.map_eq_some_iff.mp hnone
      refine Or.inr ⟨⟨value, hvalue⟩, fun hform => ?_⟩
      rw [if_pos hform] at hcalled
      cases hcalled
  · rintro ⟨hquad, hother⟩
    constructor
    · intro h
      obtain ⟨hmalloc, hheap⟩ := hquad h
      have hcalled : handIpArgument env info = some (some (s ++ env.heap)) := by
        obtain ⟨value, hvalue, _⟩ := h.acceptedForm.first
        rw [hargument, if_neg (Bool.eq_false_iff.mp hmalloc), hvalue, Option.map_some,
          if_pos h.acceptedForm]
      obtain ⟨info', hset⟩ := setDeviceIp_of_called hcalled
      exact ⟨s ++ env.heap, info', hcalled, (cstr_copy_iff hzero _).mpr hheap, hset⟩
    · intro h
      have hnone : handIpArgument env info = some none := by
        rw [hargument]
        rcases hother h with hfails | ⟨⟨value, hvalue⟩, hrefused⟩
        · rw [if_pos hfails]
        · rw [hvalue, Option.map_some, if_neg hrefused]
          split_ifs <;> rfl
      exact ⟨hnone, setDeviceIp_of_not_called hnone⟩

theorem setsValidated_iff_quad :
    SetsValidated Env.succeeding (ascii "eth0" ++ [0, 0] ++ ascii "10.0.0.1" ++ [0])
      (ascii "10.0.0.1") := by
  have hs : cstr ((ascii "eth0" ++ [0, 0] ++ ascii "10.0.0.1" ++ [0]).drop ipaddrOff)
      = some (ascii "10.0.0.1") := by decide
  have hgroup : ∀ g ∈ [ascii "10", ascii "0", ascii "1"], OctetGroup g := by
    unfold OctetGroup
    decide +kernel
  have hquad : DottedQuad (ascii "10.0.0.1") :=
    ⟨ascii "10", ascii "0", ascii "0", ascii "1", hgroup _ (by decide), hgroup _ (by decide),
      hgroup _ (by decide), hgroup _ (by decide), by decide⟩
  exact (setsValidated_iff hs Env.succeeding).mpr
    ⟨fun _ => ⟨rfl, rfl⟩, fun hother => absurd hquad hother⟩

/-- The last group of `1.2.3.999` is not looked at. -/
theorem octet_unchecked :
    ¬ ∀ (env : Env) (info s : Bytes), cstr (info.drop ipaddrOff) = some s → SetsValidated env info s := by
  intro h
  have hs : cstr ((ascii "eth0" ++ [0, 0] ++ ascii "1.2.3.999" ++ [0]).drop ipaddrOff)
      = some (ascii "1.2.3.999") := by decide
  have hother : ¬ DottedQuad (ascii "1.2.3.999") := by
    intro hquad
    obtain ⟨a, b, c, d, _, _, _, hd, hwords⟩ := hquad.words_eq
    have hgroups : words 0x2e (ascii "1.2.3.999")
        = [ascii "1", ascii "2", ascii "3", ascii "999"] := by decide
    have hlast : ascii "999" = d := by
      rw [hgroups] at hwords
      simpa using congrArg List.getLast? hwords
    have hvalue := hd.2.2
    rw [← hlast] at hvalue
    exact absurd hvalue (by decide)
  have hform : AcceptedForm (ascii "1.2.3.999") := by decide
  rcases ((setsValidated_iff hs Env.succeeding).mp (h _ _ _ hs)).2 hother with hfails | hrefused
  · cases hfails
  · exact hrefused.refused hform

end InstructionParser
