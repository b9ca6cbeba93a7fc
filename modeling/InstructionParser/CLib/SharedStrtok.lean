import InstructionParser.CLib.Strtok
import Mathlib.Logic.Function.Basic

/-!
# One saved position for all strings

`strtok` keeps its search position in one static variable. `strtok(s, d)` starts at the front of `s`,
and `strtok(NULL, d)` goes on wherever the last call of anybody ended. As long as that is in the own
string, the calls yield the words of the own string.
-/

namespace CLib

/-- The strings that are being tokenised, each with a name, and the saved position. -/
structure StrtokState (ι : Type) where
  strings : ι → Bytes
  saved : Option (ι × Nat)

namespace StrtokState

variable {ι : Type}

/-- The saved position lies in this string. -/
def OwnedBy (m : StrtokState ι) (id : ι) : Prop := ∃ pos, m.saved = some (id, pos)

theorem ownedBy_iff {m : StrtokState ι} {id : ι} :
    m.OwnedBy id ↔ m.saved.map Prod.fst = some id := by
  simp [OwnedBy]

instance [DecidableEq ι] (m : StrtokState ι) (id : ι) : Decidable (m.OwnedBy id) :=
  decidable_of_iff _ ownedBy_iff.symm

/-- The saved position lies in this string and these are the words behind it. -/
def Remaining (m : StrtokState ι) (d : UInt8) (id : ι) (rest : List Bytes) : Prop :=
  ∃ pos, m.saved = some (id, pos) ∧ wordsFrom d (m.strings id) pos = rest

theorem OwnedBy.unique {m : StrtokState ι} {id other : ι} (h : m.OwnedBy id)
    (hother : m.OwnedBy other) : other = id := by
  obtain ⟨pos, hpos⟩ := h
  obtain ⟨pos', hpos'⟩ := hother
  exact congrArg Prod.fst (Option.some.inj (hpos'.symm.trans hpos))

variable [DecidableEq ι]

def setString (m : StrtokState ι) (id : ι) (s : Bytes) : StrtokState ι :=
  { m with strings := Function.update m.strings id s }

def callAt (m : StrtokState ι) (d : UInt8) (id : ι) (pos : Nat) :
    Option (Option Bytes × StrtokState ι) :=
  (strtok d (m.strings id) pos).map fun (tok, buf, pos) =>
    (tok, { strings := Function.update m.strings id buf, saved := some (id, pos) })

def first (m : StrtokState ι) (d : UInt8) (id : ι) : Option (Option Bytes × StrtokState ι) :=
  m.callAt d id 0

def next (m : StrtokState ι) (d : UInt8) : Option (Option Bytes × StrtokState ι) :=
  m.saved.bind fun (id, pos) => m.callAt d id pos

variable {m m' : StrtokState ι} {d : UInt8} {id other : ι} {pos : Nat} {r : Option Bytes}

theorem setString_same (m : StrtokState ι) (id : ι) (s : Bytes) :
    (m.setString id s).strings id = s := Function.update_self ..

theorem setString_other (m : StrtokState ι) (s : Bytes) (hne : other ≠ id) :
    (m.setString id s).strings other = m.strings other := Function.update_of_ne hne ..

theorem callAt_other (h : m.callAt d id pos = some (r, m')) (hne : other ≠ id) :
    m'.strings other = m.strings other := by
  obtain ⟨⟨tok, buf, next⟩, _, heq⟩ := Option.map_eq_some_iff.mp h
  obtain ⟨rfl, rfl⟩ := Prod.mk.inj heq
  exact Function.update_of_ne hne ..

theorem callAt_ownedBy (h : m.callAt d id pos = some (r, m')) : m'.OwnedBy id := by
  obtain ⟨⟨tok, buf, next⟩, _, heq⟩ := Option.map_eq_some_iff.mp h
  obtain ⟨rfl, rfl⟩ := Prod.mk.inj heq
  exact ⟨next, rfl⟩

theorem callAt_null (hd : d ≠ 0) (h : m.callAt d id pos = some (none, m')) :
    wordsFrom d (m.strings id) pos = [] := by
  obtain ⟨⟨tok, buf, next⟩, hcall, heq⟩ := Option.map_eq_some_iff.mp h
  obtain ⟨rfl, rfl⟩ := Prod.mk.inj heq
  exact (strtok_null hd hcall).1

theorem callAt_token (hd : d ≠ 0) {tok : Bytes} (h : m.callAt d id pos = some (some tok, m')) :
    ∃ rest, wordsFrom d (m.strings id) pos = tok :: rest ∧ m'.Remaining d id rest := by
  obtain ⟨⟨found, buf, next⟩, hcall, heq⟩ := Option.map_eq_some_iff.mp h
  obtain ⟨rfl, rfl⟩ := Prod.mk.inj heq
  refine ⟨wordsFrom d buf next, (strtok_token hd hcall).1, next, rfl, ?_⟩
  simp

theorem next_eq_callAt (hsaved : m.saved = some (id, pos)) : m.next d = m.callAt d id pos := by
  simp [next, hsaved]

theorem Remaining.next_null (hd : d ≠ 0) {rest : List Bytes} (hrest : m.Remaining d id rest)
    (h : m.next d = some (none, m')) : rest = [] := by
  obtain ⟨pos, hsaved, rfl⟩ := hrest
  rw [next_eq_callAt hsaved] at h
  exact callAt_null hd h

theorem Remaining.next_token (hd : d ≠ 0) {rest : List Bytes} {tok : Bytes}
    (hrest : m.Remaining d id rest) (h : m.next d = some (some tok, m')) :
    ∃ rest', rest = tok :: rest' ∧ m'.Remaining d id rest' := by
  obtain ⟨pos, hsaved, rfl⟩ := hrest
  rw [next_eq_callAt hsaved] at h
  exact callAt_token hd h

theorem first_null (hd : d ≠ 0) (h : m.first d id = some (none, m')) :
    words d (strBytes (m.strings id)) = [] := by
  simpa [wordsFrom] using callAt_null hd h

theorem first_token (hd : d ≠ 0) {tok : Bytes} (h : m.first d id = some (some tok, m')) :
    ∃ rest, words d (strBytes (m.strings id)) = tok :: rest ∧ m'.Remaining d id rest := by
  simpa [wordsFrom] using callAt_token hd h

end StrtokState

end CLib
