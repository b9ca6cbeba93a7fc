import InstructionParser.CLib.Bytes

/-!
# Lines of the POSIX shell

Token recognition and quote removal on a line of one simple command, as far as the line alone fixes
what they give. Every byte either goes into a field or is lost: a blank between two fields, a quote, a
backslash, a comment. A line from which nothing but single blanks is lost holds no special byte.
-/

namespace Shell

open CLib

/-- What a byte does where no quotes protect it. The last two are special at the start of a word. -/
inductive Role where
  | literal
  | blank
  /-- Control operators, redirections and the line feed. -/
  | operator
  /-- Parameter expansion and command substitution. -/
  | expansion
  /-- Pathname expansion. -/
  | pattern
  | singleQuote
  | doubleQuote
  | backslash
  | comment
  | tilde
deriving DecidableEq

def role (b : UInt8) : Role :=
  if b ∈ ascii " \t" then .blank
  else if b ∈ ascii "|&;<>()\n" then .operator
  else if b ∈ ascii "$\x60" then .expansion
  else if b ∈ ascii "*?[" then .pattern
  else if b = 0x27 then .singleQuote
  else if b = 0x22 then .doubleQuote
  else if b = 0x5c then .backslash
  else if b = 0x23 then .comment
  else if b = 0x7e then .tilde
  else .literal

inductive Mode where
  | bare
  | single
  | double
  /-- Behind a backslash. -/
  | escaped
  /-- Behind a backslash between double quotes. -/
  | doubleEscaped
  | comment
deriving DecidableEq

/-- The fields that are complete, and the word that is being read. -/
structure Scan where
  mode : Mode
  done : List Bytes
  word : Option Bytes
deriving DecidableEq

namespace Scan

def start : Scan := { mode := .bare, done := [], word := none }

def add (s : Scan) (mode : Mode) (bs : Bytes) : Scan :=
  { s with mode, word := some (s.word.getD [] ++ bs) }

def close (s : Scan) : Scan := { s with done := s.done ++ s.word.toList, word := none }

/-- One byte; `none` for an operator and for an expansion. -/
def step (s : Scan) (b : UInt8) : Option Scan :=
  match s.mode with
  | .bare =>
      match role b with
      | .literal => some (s.add .bare [b])
      | .blank => some s.close
      | .operator | .expansion | .pattern => none
      | .singleQuote => some (s.add .single [])
      | .doubleQuote => some (s.add .double [])
      | .backslash => some { s with mode := .escaped }
      | .comment => some (if s.word = none then { s with mode := .comment } else s.add .bare [b])
      | .tilde => if s.word = none then none else some (s.add .bare [b])
  | .single => some (if role b = .singleQuote then { s with mode := .bare } else s.add .single [b])
  | .double =>
      match role b with
      | .expansion => none
      | .doubleQuote => some { s with mode := .bare }
      | .backslash => some { s with mode := .doubleEscaped }
      | _ => some (s.add .double [b])
  -- A backslash and a line feed behind it are removed together.
  | .escaped => some (if b = 0x0a then { s with mode := .bare } else s.add .bare [b])
  | .doubleEscaped =>
      if b = 0x0a then some { s with mode := .double }
      else if role b ∈ [.expansion, .doubleQuote, .backslash] then some (s.add .double [b])
      else some (s.add .double [0x5c, b])
  | .comment => if b = 0x0a then none else some s

/-- The end of the line; `none` between quotes and behind a backslash. -/
def finish (s : Scan) : Option (List Bytes) :=
  if s.mode = .bare ∨ s.mode = .comment then some s.close.done else none

end Scan

/-- The fields of a line that is one simple command, when no variable, user or file of the shell has a
part in them. -/
def fields (line : Bytes) : Option (List Bytes) :=
  (line.foldlM Scan.step Scan.start).bind Scan.finish

/-- The program that a line runs, named by its path, and its arguments. A word with a slash and without
an equals sign is neither an assignment nor a reserved word. -/
def command (line : Bytes) : Option (Bytes × List Bytes) :=
  match fields line with
  | some (program :: args) => if 0x2f ∈ program ∧ 0x3d ∉ program then some (program, args) else none
  | _ => none

/-- A word that stands for itself. -/
def plain : Bytes → Bool
  | [] => false
  | b :: rest => role b = .literal && rest.all fun c => role c ∈ [.literal, .comment, .tilde]

def join : List Bytes → Bytes
  | [] => []
  | [w] => w
  | w :: w' :: ws => w ++ 0x20 :: join (w' :: ws)

variable {s s' : Scan} {b : UInt8} {w line : Bytes} {ws : List Bytes}

/-! ### Words that stand for themselves -/

theorem step_behind_plain {done : List Bytes} (hb : role b ∈ [.literal, .comment, .tilde]) (w : Bytes) :
    Scan.step { mode := .bare, done, word := some w } b
      = some { mode := .bare, done, word := some (w ++ [b]) } := by
  simp only [List.mem_cons, List.not_mem_nil, or_false] at hb
  rcases hb with hb | hb | hb
  · simp only [Scan.step, hb]
    rfl
  · simp only [Scan.step, hb]
    rfl
  · simp only [Scan.step, hb]
    rfl

theorem scan_behind_plain {rest : Bytes} (hrest : ∀ c ∈ rest, role c ∈ [.literal, .comment, .tilde])
    (done : List Bytes) (w : Bytes) :
    rest.foldlM Scan.step { mode := .bare, done, word := some w }
      = some { mode := .bare, done, word := some (w ++ rest) } := by
  induction rest generalizing w with
  | nil => rw [List.append_nil]; rfl
  | cons c rest ih =>
      rw [List.foldlM_cons, step_behind_plain (hrest c List.mem_cons_self), Option.bind_eq_bind,
        Option.bind_some, ih fun d hd => hrest d (List.mem_cons_of_mem c hd), List.append_assoc]
      rfl

theorem scan_plain (h : plain w = true) (done : List Bytes) :
    w.foldlM Scan.step { mode := .bare, done, word := none }
      = some { mode := .bare, done, word := some w } := by
  cases w with
  | nil => cases h
  | cons b rest =>
      rw [plain, Bool.and_eq_true, decide_eq_true_eq, List.all_eq_true] at h
      obtain ⟨hb, hrest⟩ := h
      have hfirst : Scan.step { mode := .bare, done, word := none } b
          = some { mode := .bare, done, word := some [b] } := by
        simp only [Scan.step, hb]
        rfl
      rw [List.foldlM_cons, hfirst, Option.bind_eq_bind, Option.bind_some,
        scan_behind_plain fun c hc => of_decide_eq_true (hrest c hc)]
      rfl

theorem scan_join (h : ∀ w ∈ ws, plain w = true) (hws : ws ≠ []) (done : List Bytes) :
    ((join ws).foldlM Scan.step { mode := .bare, done, word := none }).bind Scan.finish
      = some (done ++ ws) := by
  induction ws generalizing done with
  | nil => exact absurd rfl hws
  | cons w ws ih =>
      have hw := h w List.mem_cons_self
      cases ws with
      | nil =>
          rw [join, scan_plain hw]
          rfl
      | cons w' ws =>
          have hblank : Scan.step { mode := .bare, done, word := some w } 0x20
              = some { mode := .bare, done := done ++ [w], word := none } := rfl
          have htail := ih (fun v hv => h v (List.mem_cons_of_mem w hv)) (List.cons_ne_nil _ _)
            (done ++ [w])
          rw [List.append_assoc] at htail
          rw [join, List.foldlM_append, scan_plain hw, Option.bind_eq_bind, Option.bind_some,
            List.foldlM_cons, hblank, Option.bind_eq_bind, Option.bind_some]
          exact htail

theorem fields_join (h : ∀ w ∈ ws, plain w = true) (hws : ws ≠ []) : fields (join ws) = some ws :=
  scan_join h hws []

/-! ### Nothing is gained -/

/-- The room that fields take in a line, each with the blank behind it. -/
def room : List Bytes → Nat
  | [] => 0
  | w :: ws => w.length + 1 + room ws

theorem room_append (ws ws' : List Bytes) : room (ws ++ ws') = room ws + room ws' := by
  induction ws with
  | nil => exact (Nat.zero_add _).symm
  | cons w ws ih =>
      rw [List.cons_append, room, room, ih]
      exact (Nat.add_assoc _ _ _).symm

namespace Scan

/-- What the scan has taken over from the line, and the blank behind it. -/
def size (s : Scan) : Nat :=
  room s.done + (s.word.getD []).length + 1 + if s.mode = .doubleEscaped then 1 else 0

theorem size_le (s : Scan) (mode : Mode) (hmode : mode ≠ .doubleEscaped) :
    size { s with mode } ≤ s.size := by
  simp only [size, hmode, if_false]
  omega

theorem size_add (s : Scan) {mode : Mode} (hmode : mode ≠ .doubleEscaped) (bs : Bytes) :
    (s.add mode bs).size = room s.done + (s.word.getD []).length + 1 + bs.length := by
  simp only [size, add, hmode, if_false, Option.getD_some, List.length_append]
  omega

theorem size_close (s : Scan) (hmode : s.mode = .bare) :
    s.close.size = s.size + if s.word = none then 0 else 1 := by
  cases hword : s.word with
  | none => simp [size, close, hword, hmode]
  | some w =>
      simp only [size, close, hword, hmode, Option.toList_some, room_append]
      simp [room]
      omega

/-- What a byte can do. Between double quotes a backslash waits for the byte behind it. -/
inductive Taken (s : Scan) : Scan → Prop where
  | closed (hmode : s.mode = .bare) : Taken s s.close
  | added {mode : Mode} {bs : Bytes} (hmode : mode ≠ .doubleEscaped) (hbs : bs.length ≤ 1) :
      Taken s (s.add mode bs)
  | moved {mode : Mode} (hmode : mode ≠ .doubleEscaped) : Taken s { s with mode }
  | waits (hmode : s.mode = .double) : Taken s { s with mode := .doubleEscaped }
  | waited {bs : Bytes} (hmode : s.mode = .doubleEscaped) (hbs : bs.length ≤ 2) :
      Taken s (s.add .double bs)

theorem taken_of_bare (hmode : s.mode = .bare) (h : s.step b = some s') : s.Taken s' := by
  simp only [step, hmode] at h
  split at h
  all_goals try cases h
  · exact .added (by decide) (Nat.le_refl _)
  · exact .closed hmode
  · exact .added (by decide) (Nat.zero_le _)
  · exact .added (by decide) (Nat.zero_le _)
  · exact .moved (by decide)
  · split_ifs
    · exact .moved (by decide)
    · exact .added (by decide) (Nat.le_refl _)
  · split_ifs at h
    cases h
    exact .added (by decide) (Nat.le_refl _)

theorem taken_of_double (hmode : s.mode = .double) (h : s.step b = some s') : s.Taken s' := by
  simp only [step, hmode] at h
  split at h
  all_goals try cases h
  · exact .moved (by decide)
  · exact .waits hmode
  · exact .added (by decide) (Nat.le_refl _)

theorem taken_of_step (h : s.step b = some s') : s.Taken s' := by
  cases hmode : s.mode with
  | bare => exact taken_of_bare hmode h
  | double => exact taken_of_double hmode h
  | single =>
      simp only [step, hmode] at h
      cases h
      split_ifs
      · exact .moved (by decide)
      · exact .added (by decide) (Nat.le_refl _)
  | escaped =>
      simp only [step, hmode] at h
      cases h
      split_ifs
      · exact .moved (by decide)
      · exact .added (by decide) (Nat.le_refl _)
  | doubleEscaped =>
      simp only [step, hmode] at h
      split_ifs at h
      all_goals cases h
      · exact .moved (by decide)
      · exact .added (by decide) (Nat.le_refl _)
      · exact .waited hmode (Nat.le_refl _)
  | comment =>
      simp only [step, hmode] at h
      split_ifs at h
      cases h
      have hsame : s.Taken { s with mode := s.mode } := .moved (by rw [hmode]; decide)
      exact hsame

/-- A byte adds at most itself. -/
theorem size_step (h : s.step b = some s') : s'.size ≤ s.size + 1 := by
  cases taken_of_step h with
  | closed hmode =>
      rw [s.size_close hmode]
      split_ifs <;> omega
  | added hmode hbs =>
      rw [s.size_add hmode, size]
      omega
  | moved hmode => exact Nat.le_succ_of_le (s.size_le _ hmode)
  | waits hmode => simp [size, hmode]
  | waited hmode hbs =>
      rw [s.size_add (by decide), size, if_pos hmode]
      omega

/-- Outside quotes, with nothing but plain words so far. -/
structure Lossless (s : Scan) : Prop where
  bare : s.mode = .bare
  done : ∀ w ∈ s.done, plain w = true
  word : ∀ w ∈ s.word, plain w = true

end Scan

theorem plain_append (h : plain w = true) (hb : role b ∈ [.literal, .comment, .tilde]) :
    plain (w ++ [b]) = true := by
  cases w with
  | nil => cases h
  | cons c rest =>
      rw [plain, Bool.and_eq_true] at h
      rw [List.cons_append, plain, List.all_append, h.1, h.2]
      simpa using hb

namespace Scan

theorem Lossless.add (h : s.Lossless) (hb : role b ∈ [.literal, .comment, .tilde])
    (hfirst : s.word = none → role b = .literal) : (s.add .bare [b]).Lossless := by
  refine ⟨rfl, h.done, ?_⟩
  intro w hw
  obtain rfl := Option.some.inj hw
  cases hword : s.word with
  | none => simpa [plain] using hfirst hword
  | some w => exact plain_append (h.word w hword) hb

theorem Lossless.close (h : s.Lossless) : s.close.Lossless := by
  refine ⟨h.bare, ?_, by simp [Scan.close]⟩
  intro w hw
  rcases List.mem_append.mp hw with hdone | hword
  · exact h.done w hdone
  · exact h.word w (Option.mem_toList.mp hword)

theorem Lossless.step (h : s.Lossless) (hstep : s.step b = some s') :
    s'.size ≤ s.size ∨ s'.Lossless := by
  simp only [Scan.step, h.bare] at hstep
  split at hstep
  all_goals rename_i hrole
  · obtain rfl := Option.some.inj hstep
    exact Or.inr (h.add (by simp [hrole]) fun _ => hrole)
  · obtain rfl := Option.some.inj hstep
    exact Or.inr h.close
  · cases hstep
  · cases hstep
  · cases hstep
  · obtain rfl := Option.some.inj hstep
    rw [s.size_add (by decide)]
    exact Or.inl (Nat.le_add_right _ _)
  · obtain rfl := Option.some.inj hstep
    rw [s.size_add (by decide)]
    exact Or.inl (Nat.le_add_right _ _)
  · obtain rfl := Option.some.inj hstep
    exact Or.inl (s.size_le _ (by decide))
  · obtain rfl := Option.some.inj hstep
    split_ifs with hword
    · exact Or.inl (s.size_le _ (by decide))
    · exact Or.inr (h.add (by simp [hrole]) fun hnone => absurd hnone hword)
  · split_ifs at hstep with hword
    obtain rfl := Option.some.inj hstep
    exact Or.inr (h.add (by simp [hrole]) fun hnone => absurd hnone hword)

/-- After `k` bytes: something is lost, or nothing and no byte was special. -/
def Kept (k : Nat) (s : Scan) : Prop := s.size ≤ k ∨ s.size = k + 1 ∧ s.Lossless

theorem Kept.step {k : Nat} (h : Kept k s) (hstep : s.step b = some s') : Kept (k + 1) s' := by
  have hsize := size_step hstep
  rcases h with hlost | ⟨hkept, hlossless⟩
  · exact Or.inl (by omega)
  · rcases hlossless.step hstep with hlost | hlossless'
    · exact Or.inl (by omega)
    · by_cases hfull : s'.size = k + 2
      · exact Or.inr ⟨hfull, hlossless'⟩
      · exact Or.inl (by omega)

end Scan

/-- A byte that stands for itself between double quotes. -/
def quotable (b : UInt8) : Bool := role b ∉ [.expansion, .doubleQuote, .backslash]

theorem step_quotable {done : List Bytes} (hb : quotable b = true) (w : Bytes) :
    Scan.step { mode := .double, done, word := some w } b
      = some { mode := .double, done, word := some (w ++ [b]) } := by
  simp only [quotable, List.mem_cons, List.not_mem_nil, or_false, not_or, decide_eq_true_eq] at hb
  obtain ⟨hexpansion, hquote, hbackslash⟩ := hb
  simp only [Scan.step]
  cases hrole : role b
  case expansion => exact absurd hrole hexpansion
  case doubleQuote => exact absurd hrole hquote
  case backslash => exact absurd hrole hbackslash
  all_goals rfl

theorem scan_quotable {rest : Bytes} (hrest : ∀ c ∈ rest, quotable c = true) (done : List Bytes)
    (w : Bytes) :
    rest.foldlM Scan.step { mode := .double, done, word := some w }
      = some { mode := .double, done, word := some (w ++ rest) } := by
  induction rest generalizing w with
  | nil => rw [List.append_nil]; rfl
  | cons c rest ih =>
      rw [List.foldlM_cons, step_quotable (hrest c List.mem_cons_self), Option.bind_eq_bind,
        Option.bind_some, ih fun d hd => hrest d (List.mem_cons_of_mem c hd), List.append_assoc]
      rfl

/-- Where the scan stands behind words and the blank behind them. -/
theorem scan_join_blank (h : ∀ w ∈ ws, plain w = true) (hws : ws ≠ []) (done : List Bytes) :
    (join ws ++ [0x20]).foldlM Scan.step { mode := .bare, done, word := none }
      = some { mode := .bare, done := done ++ ws, word := none } := by
  have hblank : ∀ (done : List Bytes) (w : Bytes),
      Scan.step { mode := .bare, done, word := some w } 0x20
        = some { mode := .bare, done := done ++ [w], word := none } := fun _ _ => rfl
  induction ws generalizing done with
  | nil => exact absurd rfl hws
  | cons w ws ih =>
      have hw := h w List.mem_cons_self
      cases ws with
      | nil =>
          rw [join, List.foldlM_append, scan_plain hw, Option.bind_eq_bind, Option.bind_some,
            List.foldlM_cons, hblank]
          rfl
      | cons w' ws =>
          have htail := ih (fun v hv => h v (List.mem_cons_of_mem w hv)) (List.cons_ne_nil _ _)
            (done ++ [w])
          rw [List.append_assoc, List.singleton_append] at htail
          rw [join, List.append_assoc, List.cons_append, List.foldlM_append, scan_plain hw,
            Option.bind_eq_bind, Option.bind_some, List.foldlM_cons, hblank, Option.bind_eq_bind,
            Option.bind_some]
          exact htail

/-- Words that stand for themselves, and behind them a word between double quotes. -/
theorem fields_join_quoted {quoted : Bytes} (h : ∀ w ∈ ws, plain w = true) (hws : ws ≠ [])
    (hquoted : ∀ c ∈ quoted, quotable c = true) :
    fields (join ws ++ [0x20] ++ 0x22 :: (quoted ++ [0x22])) = some (ws ++ [quoted]) := by
  have hopen : Scan.step { mode := .bare, done := ws, word := none } 0x22
      = some { mode := .double, done := ws, word := some [] } := rfl
  have hclose : Scan.step { mode := .double, done := ws, word := some quoted } 0x22
      = some { mode := .bare, done := ws, word := some quoted } := rfl
  have hstart := scan_join_blank h hws []
  rw [List.nil_append] at hstart
  rw [fields, List.foldlM_append, Scan.start, hstart, Option.bind_eq_bind, Option.bind_some,
    List.foldlM_cons, hopen, Option.bind_eq_bind, Option.bind_some, List.foldlM_append,
    scan_quotable hquoted, List.nil_append, Option.bind_eq_bind, Option.bind_some, List.foldlM_cons,
    hclose]
  rfl

end Shell
