import InstructionParser.ConfigFile
import InstructionParser.Runs
import Mathlib.Data.List.Nodup

/-!
# Updating the configuration file

A line is rewritten where it stands. The file stays a list of `attribute=value` lines as long as every
new line takes exactly the room of the old one, or is the last, and nothing is appended to a line that
has no end.
-/

namespace InstructionParser

open CLib Runs

/-- An attribute and its value, as one line can hold them. -/
structure ConfigEntry where
  atrribute : Bytes
  value : Bytes
  nonempty : atrribute ≠ []
  name_ok : ∀ b ∈ atrribute, b ≠ 0x3d ∧ b ≠ 0x0a ∧ b ≠ 0
  value_ok : ∀ b ∈ value, b ≠ 0x0a ∧ b ≠ 0

def ConfigEntry.body (e : ConfigEntry) : Bytes := e.atrribute ++ ascii "=" ++ e.value

/-- The file consists of the lines of these entries, the last of them with or without its end. -/
inductive HoldsLines : Bytes → List ConfigEntry → Prop where
  | nil : HoldsLines [] []
  | last (e : ConfigEntry) (hshort : e.body.length < 512) : HoldsLines e.body [e]
  | cons (e : ConfigEntry) {rest : Bytes} {entries : List ConfigEntry}
      (hshort : e.body.length + 1 < 512) (h : HoldsLines rest entries) :
      HoldsLines (e.body ++ 0x0a :: rest) (e :: entries)

/-- The file is a map from attributes to values. -/
def IsMap (file : Bytes) (entries : List ConfigEntry) : Prop :=
  HoldsLines file entries ∧ (entries.map ConfigEntry.atrribute).Nodup

def valueOf (entries : List ConfigEntry) (atrribute : Bytes) : Option Bytes :=
  (entries.find? fun e => e.atrribute = atrribute).map ConfigEntry.value

/-- A call of `config_file`, and whether `fopen` opens the file. -/
structure ConfigCall where
  entry : ConfigEntry
  short : entry.body.length + 1 < 512
  opens : Bool

def fileLines : Bytes → List Bytes
  | [] => []
  | b :: bs =>
      if b = 0x0a then [b] :: fileLines bs
      else
        match fileLines bs with
        | [] => [[b]]
        | line :: lines => (b :: line) :: lines

/-- The condition on the calls of a run: the line of the attribute is as long as the new one, or it is
the last line of the file and no longer; where there is none, the file is empty or its last line has an
end. -/
def KeepsLines (file : Bytes) (call : ConfigCall) : Prop :=
  call.opens = true →
    match (fileLines file).dropWhile fun line =>
      decide (line.takeWhile (· ≠ 0x3d) ≠ call.entry.atrribute) with
    | [] => file = [] ∨ file.getLast? = some 0x0a
    | line :: lines => line.length = call.entry.body.length + 1
        ∨ lines = [] ∧ line.length ≤ call.entry.body.length + 1

def configured (file : Bytes) (call : ConfigCall) : Option Bytes :=
  (configFile call.opens file call.entry.atrribute call.entry.value).map Prod.snd

/-- One attribute has its new value and the others keep theirs. -/
structure Updated (entries entries' : List ConfigEntry) (atrribute value : Bytes) : Prop where
  given : valueOf entries' atrribute = some value
  others : ∀ other, other ≠ atrribute → valueOf entries' other = valueOf entries other

variable {file rest : Bytes} {entries : List ConfigEntry} {atrribute : Bytes} {e : ConfigEntry}

/-! ### One line -/

theorem fgets_line {body : Bytes} (hbody : ∀ b ∈ body, b ≠ 0x0a) (hshort : body.length + 1 < 512)
    (rest : Bytes) : fgets (body ++ 0x0a :: rest) = (body ++ [0x0a], rest) := by
  have hn : min 511 ((List.takeWhile (· ≠ 0x0a) (body ++ 0x0a :: rest)).length + 1)
      = (body ++ [0x0a]).length := by
    rw [List.takeWhile_append_of_pos fun b hb => by simpa using hbody b hb,
      List.takeWhile_cons_of_neg (by simp), List.append_nil, List.length_append,
      List.length_singleton]
    omega
  simp only [fgets, hn]
  rw [show body ++ 0x0a :: rest = body ++ [0x0a] ++ rest by simp, List.take_left, List.drop_left]

theorem takeWhile_name {name : Bytes} (hname : ∀ b ∈ name, b ≠ 0x3d) (rest : Bytes) :
    (name ++ 0x3d :: rest).takeWhile (· ≠ 0x3d) = name := by
  rw [List.takeWhile_append_of_pos fun b hb => by simpa using hname b hb,
    List.takeWhile_cons_of_neg (by simp), List.append_nil]

namespace ConfigEntry

theorem body_ok (e : ConfigEntry) : ∀ b ∈ e.body, b ≠ 0x0a ∧ b ≠ 0 := by
  intro b hb
  rw [body, List.mem_append, List.mem_append] at hb
  rcases hb with (hname | heq) | hvalue
  · exact (e.name_ok b hname).2
  · obtain rfl : b = 0x3d := by simpa [ascii] using heq
    decide
  · exact e.value_ok b hvalue

theorem zero_notMem_body (e : ConfigEntry) : 0 ∉ e.body := fun h => (e.body_ok 0 h).2 rfl

theorem body_ne_nil (e : ConfigEntry) : e.body ≠ [] := by simp [body, ascii]

theorem takeWhile_body (e : ConfigEntry) (tail : Bytes) :
    (e.body ++ tail).takeWhile (· ≠ 0x3d) = e.atrribute := by
  have hsplit : e.body ++ tail = e.atrribute ++ 0x3d :: (e.value ++ tail) := by
    simp [body, ascii]
  rw [hsplit]
  exact takeWhile_name (fun b hb => (e.name_ok b hb).1) _

theorem scanAttribute_body (e : ConfigEntry) (tail buffer1 : Bytes) :
    scanAttribute (e.body ++ tail) buffer1 = e.atrribute := by
  rw [scanAttribute, takeWhile_body, if_neg e.nonempty]

theorem fgets_line (e : ConfigEntry) (hshort : e.body.length + 1 < 512) (rest : Bytes) :
    fgets (e.body ++ 0x0a :: rest) = (e.body ++ [0x0a], rest) :=
  InstructionParser.fgets_line (fun b hb => (e.body_ok b hb).1) hshort rest

theorem fgets_last (e : ConfigEntry) (hshort : e.body.length < 512) : fgets e.body = (e.body, []) := by
  have hbody : ∀ b ∈ e.body, decide (b ≠ 0x0a) = true := fun b hb => by
    simpa using (e.body_ok b hb).1
  have hle : e.body.length
      ≤ min 511 ((List.takeWhile (· ≠ 0x0a) e.body).length + 1) := by
    rw [List.takeWhile_eq_self_iff.mpr hbody]
    omega
  simp only [fgets, List.take_of_length_le hle, List.drop_eq_nil_of_le hle]

theorem strBytes_line (e : ConfigEntry) : strBytes (e.body ++ [0x0a]) = e.body ++ [0x0a] := by
  rw [strBytes_append_of_notMem e.zero_notMem_body]
  rfl

theorem strBytes_body (e : ConfigEntry) : strBytes e.body = e.body :=
  strBytes_of_notMem e.zero_notMem_body

end ConfigEntry

theorem searchLoop_line (hshort : e.body.length + 1 < 512) (fuel : Nat) (buffer1 : Bytes) (len : Nat) :
    searchLoop atrribute (fuel + 1) (e.body ++ 0x0a :: rest) buffer1 len
      = if atrribute = e.atrribute then some (.found len (e.body.length + 1) e.atrribute)
        else searchLoop atrribute fuel rest e.atrribute (len + (e.body.length + 1)) := by
  simp only [searchLoop, e.fgets_line hshort, e.strBytes_line, e.scanAttribute_body, List.length_append,
    List.length_singleton]
  exact if_neg (by simp)

theorem searchLoop_last (hshort : e.body.length < 512) (fuel : Nat) (buffer1 : Bytes) (len : Nat) :
    searchLoop atrribute (fuel + 1) e.body buffer1 len
      = if atrribute = e.atrribute then some (.found len e.body.length e.atrribute)
        else searchLoop atrribute fuel [] e.atrribute (len + e.body.length) := by
  have hscan := e.scanAttribute_body [] buffer1
  rw [List.append_nil] at hscan
  simp only [searchLoop, e.fgets_last hshort, e.strBytes_body, hscan]
  exact if_neg e.body_ne_nil

theorem fileLines_line (e : ConfigEntry) (rest : Bytes) :
    fileLines (e.body ++ 0x0a :: rest) = (e.body ++ [0x0a]) :: fileLines rest := by
  have hline : ∀ body : Bytes, (∀ b ∈ body, b ≠ 0x0a) →
      fileLines (body ++ 0x0a :: rest) = (body ++ [0x0a]) :: fileLines rest := by
    intro body hbody
    induction body with
    | nil => rfl
    | cons b body ih =>
        have htail := ih fun c hc => hbody c (List.mem_cons_of_mem b hc)
        simp only [List.cons_append, fileLines, if_neg (hbody b List.mem_cons_self), htail]
  exact hline e.body fun b hb => (e.body_ok b hb).1

theorem fileLines_last (e : ConfigEntry) : fileLines e.body = [e.body] := by
  have hline : ∀ (body : Bytes) (b : UInt8), (∀ c ∈ b :: body, c ≠ 0x0a) →
      fileLines (b :: body) = [b :: body] := by
    intro body
    induction body with
    | nil => exact fun b hb => by rw [fileLines, if_neg (hb b List.mem_cons_self)]; rfl
    | cons c body ih =>
        intro b hb
        have htail := ih c fun d hd => hb d (List.mem_cons_of_mem b hd)
        rw [fileLines, if_neg (hb b List.mem_cons_self), htail]
  obtain ⟨b, body, heq⟩ := List.exists_cons_of_ne_nil e.body_ne_nil
  rw [heq]
  exact hline body b fun c hc => (e.body_ok c (heq ▸ hc)).1

/-! ### The search -/

theorem HoldsLines.zero_notMem (h : HoldsLines file entries) : 0 ∉ file := by
  induction h with
  | nil => exact List.not_mem_nil
  | last e _ => exact e.zero_notMem_body
  | cons e _ _ ih =>
      rw [List.mem_append, List.mem_cons, not_or, not_or]
      exact ⟨e.zero_notMem_body, by decide, ih⟩

theorem HoldsLines.append {file' : Bytes} {entries' : List ConfigEntry}
    (h : HoldsLines file entries) (hend : file = [] ∨ file.getLast? = some 0x0a)
    (h' : HoldsLines file' entries') : HoldsLines (file ++ file') (entries ++ entries') := by
  induction h with
  | nil => exact h'
  | last e _ =>
      -- A line without an end does not end in a line feed.
      rcases hend with hnil | hlast
      · exact absurd hnil e.body_ne_nil
      · exact absurd rfl (e.body_ok 0x0a (List.mem_of_getLast? hlast)).1
  | @cons e rest entries hshort hrest ih =>
      rw [List.append_assoc, List.cons_append, List.cons_append]
      refine .cons e hshort (ih ?_)
      rcases hend with hnil | hlast
      · simp at hnil
      · cases rest with
        | nil => exact Or.inl rfl
        | cons b rest =>
            rw [List.getLast?_append_cons, List.getLast?_cons_cons] at hlast
            exact Or.inr hlast

/-- Where the line of an attribute stands. -/
structure Located (atrribute file : Bytes) (entries before : List ConfigEntry) (e : ConfigEntry)
    (after : List ConfigEntry) (front line back : Bytes) : Prop where
  entries_eq : entries = before ++ e :: after
  file_eq : file = front ++ (line ++ back)
  own : e.atrribute = atrribute
  others : ∀ b ∈ before, b.atrribute ≠ atrribute
  ends : back = [] ∨ line.length = e.body.length + 1
  behind : HoldsLines back after
  around : ∀ {file' : Bytes} {entries' : List ConfigEntry}, HoldsLines file' entries' →
    HoldsLines (front ++ file') (before ++ entries')
  search : ∀ fuel buffer1 len, file.length < fuel →
    searchLoop atrribute fuel file buffer1 len
      = some (.found (len + front.length) line.length atrribute)
  lines : ((fileLines file).dropWhile fun line =>
    decide (line.takeWhile (· ≠ 0x3d) ≠ atrribute)) = line :: fileLines back

theorem located_here_line (hshort : e.body.length + 1 < 512) (h : HoldsLines rest entries) :
    Located e.atrribute (e.body ++ 0x0a :: rest) (e :: entries) [] e entries [] (e.body ++ [0x0a])
      rest := by
  refine ⟨rfl, by simp, rfl, by simp, Or.inr (by simp), h, id, ?_, ?_⟩
  · intro fuel buffer1 len hfuel
    obtain ⟨fuel, rfl⟩ := Nat.exists_eq_succ_of_ne_zero (Nat.ne_of_gt (Nat.zero_lt_of_lt hfuel))
    rw [searchLoop_line hshort, if_pos rfl, List.length_append]
    rfl
  · rw [fileLines_line, List.dropWhile_cons_of_neg]
    simp only [e.takeWhile_body]
    simp

theorem located_here_last (hshort : e.body.length < 512) :
    Located e.atrribute e.body [e] [] e [] [] e.body [] := by
  refine ⟨rfl, by simp, rfl, by simp, Or.inl rfl, .nil, id, ?_, ?_⟩
  · intro fuel buffer1 len hfuel
    obtain ⟨fuel, rfl⟩ := Nat.exists_eq_succ_of_ne_zero (Nat.ne_of_gt (Nat.zero_lt_of_lt hfuel))
    rw [searchLoop_last hshort, if_pos rfl]
    rfl
  · have hname := e.takeWhile_body []
    rw [List.append_nil] at hname
    rw [fileLines_last, List.dropWhile_cons_of_neg (by simp only [hname]; simp)]
    rfl

theorem Located.behind_line {before after : List ConfigEntry} {e' : ConfigEntry}
    {front line back : Bytes}
    (h : Located atrribute rest entries before e' after front line back)
    (hshort : e.body.length + 1 < 512) (hother : e.atrribute ≠ atrribute) :
    Located atrribute (e.body ++ 0x0a :: rest) (e :: entries) (e :: before) e' after
      (e.body ++ 0x0a :: front) line back := by
  refine ⟨?_, ?_, h.own, ?_, h.ends, h.behind, ?_, ?_, ?_⟩
  · rw [h.entries_eq]
    rfl
  · rw [h.file_eq]
    simp
  · intro b hb
    obtain rfl | hb := List.mem_cons.mp hb
    · exact hother
    · exact h.others b hb
  · intro file' entries' h'
    rw [List.append_assoc]
    exact .cons e hshort (h.around h')
  · intro fuel buffer1 len hfuel
    obtain ⟨fuel, rfl⟩ := Nat.exists_eq_succ_of_ne_zero (Nat.ne_of_gt (Nat.zero_lt_of_lt hfuel))
    have hlength : (e.body ++ 0x0a :: rest).length = e.body.length + (rest.length + 1) := by simp
    rw [searchLoop_line hshort, if_neg (Ne.symm hother), h.search _ _ _ (by omega)]
    simp only [List.length_append, List.length_cons]
    congr 2
    omega
  · rw [fileLines_line, List.dropWhile_cons_of_pos, h.lines]
    simpa only [e.takeWhile_body] using decide_eq_true hother

theorem exists_located (h : HoldsLines file entries) (hmem : ∃ e ∈ entries, e.atrribute = atrribute) :
    ∃ before e after front line back,
      Located atrribute file entries before e after front line back := by
  induction h with
  | nil =>
      obtain ⟨_, hnil, _⟩ := hmem
      exact absurd hnil List.not_mem_nil
  | last e hshort =>
      obtain ⟨e', he', rfl⟩ := hmem
      obtain rfl := List.mem_singleton.mp he'
      exact ⟨_, _, _, _, _, _, located_here_last hshort⟩
  | cons e hshort hrest ih =>
      by_cases hown : e.atrribute = atrribute
      · exact ⟨_, _, _, _, _, _, hown ▸ located_here_line hshort hrest⟩
      · obtain ⟨e', he', hname⟩ := hmem
        have htail := (List.mem_cons.mp he').resolve_left fun heq => hown (heq ▸ hname)
        obtain ⟨_, _, _, _, _, _, hlocated⟩ := ih ⟨e', htail, hname⟩
        exact ⟨_, _, _, _, _, _, hlocated.behind_line hshort hown⟩

theorem searchLoop_missing (h : HoldsLines file entries) (hnone : ∀ e ∈ entries, e.atrribute ≠ atrribute) :
    (∀ fuel buffer1 len, file.length < fuel →
      searchLoop atrribute fuel file buffer1 len = some (.missing (len + file.length)))
    ∧ ((fileLines file).dropWhile fun line => decide (line.takeWhile (· ≠ 0x3d) ≠ atrribute)) = [] := by
  have hempty : ∀ fuel buffer1 len, 0 < fuel →
      searchLoop atrribute fuel [] buffer1 len = some (.missing len) := by
    intro fuel buffer1 len hfuel
    obtain ⟨fuel, rfl⟩ := Nat.exists_eq_succ_of_ne_zero (Nat.ne_of_gt hfuel)
    rfl
  induction h with
  | nil => exact ⟨fun fuel buffer1 len hfuel => hempty fuel buffer1 len hfuel, rfl⟩
  | last e hshort =>
      have hother := hnone e List.mem_cons_self
      constructor
      · intro fuel buffer1 len hfuel
        have hpos := List.length_pos_iff.mpr e.body_ne_nil
        obtain ⟨fuel, rfl⟩ := Nat.exists_eq_succ_of_ne_zero (Nat.ne_of_gt (Nat.zero_lt_of_lt hfuel))
        rw [searchLoop_last hshort, if_neg (Ne.symm hother), hempty _ _ _ (by omega)]
      · have hname := e.takeWhile_body []
        rw [List.append_nil] at hname
        rw [fileLines_last, List.dropWhile_cons_of_pos (by simpa only [hname] using decide_eq_true hother)]
        rfl
  | @cons e rest entries hshort hrest ih =>
      have hother := hnone e List.mem_cons_self
      obtain ⟨hsearch, hlines⟩ := ih fun e' he' => hnone e' (List.mem_cons_of_mem e he')
      constructor
      · intro fuel buffer1 len hfuel
        obtain ⟨fuel, rfl⟩ := Nat.exists_eq_succ_of_ne_zero (Nat.ne_of_gt (Nat.zero_lt_of_lt hfuel))
        have hlength : (e.body ++ 0x0a :: rest).length = e.body.length + (rest.length + 1) := by simp
        rw [searchLoop_line hshort, if_neg (Ne.symm hother), hsearch _ _ _ (by omega), hlength]
        congr 2
        omega
      · rw [fileLines_line, List.dropWhile_cons_of_pos, hlines]
        simpa only [e.takeWhile_body] using decide_eq_true hother

/-! ### The new line -/

theorem find_behind {other : Bytes} (h : e.atrribute ≠ other) (entries : List ConfigEntry) :
    (e :: entries).find? (fun e => decide (e.atrribute = other))
      = entries.find? fun e => decide (e.atrribute = other) :=
  List.find?_cons_of_neg (by simpa using h)

theorem updated_replace {before after : List ConfigEntry} {new : ConfigEntry}
    (hothers : ∀ b ∈ before, b.atrribute ≠ new.atrribute) (hown : e.atrribute = new.atrribute) :
    Updated (before ++ e :: after) (before ++ new :: after) new.atrribute new.value := by
  constructor
  · have hnone : before.find? (fun b => decide (b.atrribute = new.atrribute)) = none :=
      List.find?_eq_none.mpr fun b hb => by simpa using hothers b hb
    rw [valueOf, List.find?_append, hnone, Option.none_or, List.find?_cons_of_pos (by simp)]
    rfl
  · intro other hother
    rw [valueOf, valueOf, List.find?_append, List.find?_append, find_behind (Ne.symm hother),
      find_behind (hown ▸ Ne.symm hother)]

theorem updated_append {new : ConfigEntry} (hnone : ∀ b ∈ entries, b.atrribute ≠ new.atrribute) :
    Updated entries (entries ++ [new]) new.atrribute new.value := by
  constructor
  · have hmissing : entries.find? (fun b => decide (b.atrribute = new.atrribute)) = none :=
      List.find?_eq_none.mpr fun b hb => by simpa using hnone b hb
    rw [valueOf, List.find?_append, hmissing, Option.none_or, List.find?_cons_of_pos (by simp)]
    rfl
  · intro other hother
    rw [valueOf, valueOf, List.find?_append, find_behind (Ne.symm hother), List.find?_nil,
      Option.or_none]

theorem writeAt_behind (front rest src : Bytes) :
    writeAt (front ++ rest) front.length src = front ++ (src ++ rest.drop src.length) := by
  have hgap : front.length - (front ++ rest).length = 0 := by
    rw [List.length_append]
    omega
  rw [writeAt, List.take_left, hgap, List.drop_length_add_append]
  simp

theorem writeAt_line {line back new : Bytes}
    (hroom : line.length = new.length ∨ back = [] ∧ line.length ≤ new.length) (front : Bytes) :
    writeAt (writeAt (front ++ (line ++ back)) front.length (List.replicate line.length 0))
      front.length new = front ++ (new ++ back) := by
  rw [writeAt_behind, writeAt_behind, List.length_replicate, List.drop_left]
  rcases hroom with hsame | ⟨rfl, hlonger⟩
  · rw [← hsame, List.drop_append_of_le_length (by simp), List.drop_eq_nil_of_le (by simp),
      List.nil_append]
  · rw [List.append_nil, List.drop_eq_nil_of_le (by simpa using hlonger)]

theorem configLine_eq (e : ConfigEntry) : configLine e.atrribute e.value = e.body ++ 0x0a :: [] := rfl

theorem configLine_length (e : ConfigEntry) :
    (configLine e.atrribute e.value).length = e.body.length + 1 := by
  rw [configLine_eq, List.length_append, List.length_singleton]

theorem fileLines_eq_nil {file : Bytes} (h : fileLines file = []) : file = [] := by
  cases file with
  | nil => rfl
  | cons b file =>
      rw [fileLines] at h
      split_ifs at h
      split at h <;> simp at h

theorem configFile_found {len lineLen : Nat} (value : Bytes)
    (h : searchLoop atrribute (file.length + 1) file [] 0 = some (.found len lineLen atrribute)) :
    configFile true file atrribute value = some (0,
      writeAt (writeAt file len (List.replicate lineLen 0)) len (configLine atrribute value)) := by
  rw [configFile, if_neg (by decide), h]
  rfl

theorem configFile_missing {len : Nat} (value : Bytes)
    (h : searchLoop atrribute (file.length + 1) file [] 0 = some (.missing len)) :
    configFile true file atrribute value
      = some (0, writeAt file len (configLine atrribute value)) := by
  rw [configFile, if_neg (by decide), h]
  rfl

theorem isMap_rewritten {call : ConfigCall} {before after : List ConfigEntry}
    {front line back : Bytes} (hdistinct : (entries.map ConfigEntry.atrribute).Nodup)
    (h : Located call.entry.atrribute file entries before e after front line back)
    (hroom : line.length = call.entry.body.length + 1
      ∨ fileLines back = [] ∧ line.length ≤ call.entry.body.length + 1) :
    ∃ file' entries', configFile true file call.entry.atrribute call.entry.value = some (0, file')
      ∧ IsMap file' entries'
      ∧ Updated entries entries' call.entry.atrribute call.entry.value := by
  rw [← configLine_length] at hroom
  have hwrite := writeAt_line (hroom.imp_right fun hlast => ⟨fileLines_eq_nil hlast.1, hlast.2⟩)
  refine ⟨front ++ (configLine call.entry.atrribute call.entry.value ++ back),
    before ++ call.entry :: after, ?_, ⟨?_, ?_⟩, ?_⟩
  · rw [configFile_found _ (h.search _ _ _ (Nat.lt_succ_self _))]
    simp only [Nat.zero_add]
    rw [← hwrite front, ← h.file_eq]
  · rw [configLine_eq, List.append_assoc]
    exact h.around (.cons call.entry call.short h.behind)
  · rw [h.entries_eq, List.map_append, List.map_cons, h.own] at hdistinct
    rwa [List.map_append, List.map_cons]
  · rw [h.entries_eq]
    exact updated_replace h.others h.own

theorem isMap_appended {call : ConfigCall} (h : IsMap file entries)
    (hnone : ∀ e ∈ entries, e.atrribute ≠ call.entry.atrribute)
    (hend : file = [] ∨ file.getLast? = some 0x0a) :
    ∃ file' entries', configFile true file call.entry.atrribute call.entry.value = some (0, file')
      ∧ IsMap file' entries'
      ∧ Updated entries entries' call.entry.atrribute call.entry.value := by
  obtain ⟨hlines, hdistinct⟩ := h
  refine ⟨file ++ configLine call.entry.atrribute call.entry.value, entries ++ [call.entry], ?_,
    ⟨?_, ?_⟩, updated_append hnone⟩
  · have hbehind := writeAt_behind file [] (configLine call.entry.atrribute call.entry.value)
    rw [List.append_nil, List.drop_nil, List.append_nil] at hbehind
    rw [configFile_missing _ ((searchLoop_missing hlines hnone).1 _ _ _ (Nat.lt_succ_self _))]
    simp only [Nat.zero_add, hbehind]
  · rw [configLine_eq]
    exact hlines.append hend (.cons call.entry call.short .nil)
  · rw [List.map_append, List.map_singleton]
    refine List.Nodup.append hdistinct (List.nodup_singleton _) ?_
    intro name hname hnew
    obtain ⟨e, he, rfl⟩ := List.mem_map.mp hname
    exact hnone e he (List.mem_singleton.mp hnew)

theorem isMap_configFile {call : ConfigCall} (h : IsMap file entries) (hkeeps : KeepsLines file call)
    (hopens : call.opens = true) :
    ∃ file' entries', configFile true file call.entry.atrribute call.entry.value = some (0, file')
      ∧ IsMap file' entries'
      ∧ Updated entries entries' call.entry.atrribute call.entry.value := by
  have hcondition := hkeeps hopens
  by_cases hmem : ∃ e ∈ entries, e.atrribute = call.entry.atrribute
  · obtain ⟨before, e, after, front, line, back, hlocated⟩ := exists_located h.1 hmem
    rw [hlocated.lines] at hcondition
    exact isMap_rewritten h.2 hlocated hcondition
  · have hnone : ∀ e ∈ entries, e.atrribute ≠ call.entry.atrribute := fun e he hown =>
      hmem ⟨e, he, hown⟩
    rw [(searchLoop_missing h.1 hnone).2] at hcondition
    exact isMap_appended h hnone hcondition

/-! ### Runs -/

theorem isMap_configured {call : ConfigCall} {file' : Bytes} (h : ∃ entries, IsMap file entries)
    (hkeeps : KeepsLines file call) (hstep : configured file call = some file') :
    ∃ entries', IsMap file' entries' := by
  obtain ⟨entries, hmap⟩ := h
  obtain ⟨out, hout, rfl⟩ := Option.map_eq_some_iff.mp hstep
  cases hopens : call.opens with
  | false =>
      rw [hopens, configFile, if_pos rfl] at hout
      obtain rfl := Option.some.inj hout
      exact ⟨entries, hmap⟩
  | true =>
      obtain ⟨file', entries', hfile, hmap', _⟩ := isMap_configFile hmap hkeeps hopens
      rw [hopens] at hout
      obtain rfl := Option.some.inj (hfile.symm.trans hout)
      exact ⟨entries', hmap'⟩

/-- **The configuration file as a map.** In every run of calls that keep to the lines, each file reached
is a map, and a call that returns 0 changes the value of its attribute and no other. -/
theorem mapUpdate_of_keepsLines {start : Bytes} (hstart : ∃ entries, IsMap start entries)
    (hrun : Reaches configured KeepsLines start file) :
    (∃ entries, IsMap file entries) ∧ ∀ entries, IsMap file entries → ∀ call, KeepsLines file call →
      ∃ ret file', configFile call.opens file call.entry.atrribute call.entry.value = some (ret, file')
        ∧ (ret = 0 → ∃ entries', IsMap file' entries'
          ∧ Updated entries entries' call.entry.atrribute call.entry.value)
        ∧ (ret ≠ 0 → file' = file) := by
  refine ⟨hrun.invariant (I := fun file => ∃ entries, IsMap file entries)
    (fun _ _ _ hmap hok hstep => isMap_configured hmap hok hstep) hstart, ?_⟩
  intro entries hmap call hkeeps
  cases hopens : call.opens with
  | false =>
      exact ⟨-1, file, if_pos rfl, fun hzero => absurd hzero (by decide), fun _ => rfl⟩
  | true =>
      obtain ⟨file', entries', hfile, hmap', hupdated⟩ := isMap_configFile hmap hkeeps hopens
      exact ⟨0, file', hfile, fun _ => ⟨entries', hmap', hupdated⟩, fun hne => absurd rfl hne⟩

def entryA (value : Bytes) (h : ∀ b ∈ value, b ≠ 0x0a ∧ b ≠ 0) : ConfigEntry :=
  ⟨ascii "A", value, by decide, by decide +kernel, h⟩

theorem isMap_twoLines : ∃ entries, IsMap (ascii "A=12\nB=3\n") entries := by
  let first : ConfigEntry := entryA (ascii "12") (by decide +kernel)
  let second : ConfigEntry := ⟨ascii "B", ascii "3", by decide, by decide +kernel, by decide +kernel⟩
  have hfile : ascii "A=12\nB=3\n" = first.body ++ 0x0a :: (second.body ++ 0x0a :: []) := by decide
  refine ⟨[first, second], ?_, by decide⟩
  rw [hfile]
  exact .cons first (by decide) (.cons second (by decide) .nil)

theorem mapUpdate_of_keepsLines_sameLength :
    ∃ file, Reaches configured KeepsLines (ascii "A=12\nB=3\n") file ∧ ∃ entries, IsMap file entries := by
  let call : ConfigCall := ⟨entryA (ascii "34") (by decide +kernel), by decide, true⟩
  obtain ⟨file, hfile⟩ := Option.isSome_iff_exists.mp (show
    (configured (ascii "A=12\nB=3\n") call).isSome = true by decide +kernel)
  have hkeeps : KeepsLines (ascii "A=12\nB=3\n") call := fun _ => Or.inl (by decide)
  have hrun : Reaches configured KeepsLines (ascii "A=12\nB=3\n") file :=
    Reaches.tail (Reaches.refl _) hkeeps hfile
  exact ⟨file, hrun, (mapUpdate_of_keepsLines isMap_twoLines hrun).1⟩

/-- A shorter line leaves a zero behind it. -/
theorem zero_left_behind :
    ¬ ∀ start file : Bytes, (∃ entries, IsMap start entries) →
      Reaches configured anyAction start file →
      (∃ entries, IsMap file entries) ∧ ∀ entries, IsMap file entries → ∀ call : ConfigCall,
        ∃ ret file', configFile call.opens file call.entry.atrribute call.entry.value
            = some (ret, file')
          ∧ (ret = 0 → ∃ entries', IsMap file' entries'
            ∧ Updated entries entries' call.entry.atrribute call.entry.value)
          ∧ (ret ≠ 0 → file' = file) := by
  intro h
  let call : ConfigCall := ⟨entryA (ascii "1") (by decide +kernel), by decide, true⟩
  have hfile : configured (ascii "A=12\nB=3\n") call = some (ascii "A=1\n" ++ 0 :: ascii "B=3\n") := by
    decide +kernel
  have hrun : Reaches configured anyAction (ascii "A=12\nB=3\n")
      (ascii "A=1\n" ++ 0 :: ascii "B=3\n") :=
    Reaches.tail (Reaches.refl _) trivial hfile
  obtain ⟨entries, hmap⟩ := (h _ _ isMap_twoLines hrun).1
  exact hmap.1.zero_notMem (List.mem_append_right _ List.mem_cons_self)

end InstructionParser
