import InstructionParser.PointerChain
import InstructionParser.Proof.Recognition
import InstructionParser.Runs
import InstructionParser.SharedRegistry

/-!
# Looking up while registering

Every write of `main` leaves a chain from the head to the null pointer, and the chain only ever grows
at its end. So a lookup that overlaps registrations visits a prefix of the registrations and stops
short of none that had returned when it began.
-/

namespace InstructionParser

open CLib Runs

namespace SharedRegistry

variable {ι κ : Type} {accepts : κ → ι → Bool} {cmds : List ι}

/-- What a lookup has found that began when the registrations `known` had returned. -/
structure Walked (accepts : κ → ι → Bool) (cmds known : List ι) (w : κ) (s : SharedRegistry ι κ) :
    Prop where
  missed : s.lookups w = .returned none → known <+: s.log.visited w
  found : ∀ n, s.lookups w = .returned (some n) →
    known <+: s.log.visited w ∨ s.log.visited w <+: known
  first : ∀ found, s.lookups w = .returned found → (∃ n ∈ known, accepts w n = true) →
    found = cmds.find? (accepts w) ∧ found.isSome = true

/-- What the lookups rely on in any state of a run. -/
structure InUse [DecidableEq ι] [DecidableEq κ] (accepts : κ → ι → Bool) (cmds : List ι)
    (s : SharedRegistry ι κ) : Prop where
  chain : PointerChain s.next s.head s.log.linked
  order : s.log.linked <+: cmds
  once : s.log.linked.Nodup
  completed : s.log.completed <+: s.log.linked
  visited : ∀ w, s.log.visited w <+: s.log.linked
  missed : ∀ w, s.lookups w = .returned none → ∀ n ∈ s.log.visited w, accepts w n = false
  found : ∀ w n, s.lookups w = .returned (some n) → accepts w n = true ∧ ∃ before,
    s.log.visited w = before ++ [n] ∧ ∀ m ∈ before, accepts w m = false
  /-- A lookup that takes its first step in this state. -/
  begins : ∀ w as s', s.lookups w = .before →
    exec (step accepts) s (.lookup w :: as) = some s' → Walked accepts cmds s.log.completed w s'
  goesOn : ∀ w, (∀ found, s.lookups w ≠ .returned found) → (s.lookup accepts w).isSome = true
  ends : ∀ w as s', exec (step accepts) s as = some s' → cmds.length < as.count (.lookup w) →
    ∃ found, s'.lookups w = .returned found

/-! ### The chain -/

/-- The node that `main` has still to link. -/
def unlinked (s : SharedRegistry ι κ) : List ι :=
  match s.registrar with
  | .idle | .endList _ => []
  | .testHead node | .setHead node | .readHead node | .testNext node _ | .advance node _
  | .link node _ => [node]

def Stands (s : SharedRegistry ι κ) : Prop :=
  match s.registrar with
  | .idle | .testHead _ => s.log.completed = s.log.linked
  | .setHead _ => s.log.completed = s.log.linked ∧ s.log.linked = []
  | .readHead _ => s.log.completed = s.log.linked
  | .testNext _ ptTmp | .advance _ ptTmp =>
      s.log.completed = s.log.linked ∧ ∃ before after, s.log.linked = before ++ ptTmp :: after
  | .link _ ptTmp => s.log.completed = s.log.linked ∧ ∃ before, s.log.linked = before ++ [ptTmp]
  | .endList node => s.log.linked = s.log.completed ++ [node]

structure Listed (cmds : List ι) (s : SharedRegistry ι κ) : Prop where
  chain : PointerChain s.next s.head s.log.linked
  outside : ∀ n, n ∉ s.log.linked → s.next n = none
  split : s.log.linked ++ (s.unlinked ++ s.calls) = cmds
  stands : s.Stands

variable {s s' : SharedRegistry ι κ}

theorem Listed.start : Listed cmds (start cmds : SharedRegistry ι κ) where
  chain := rfl
  outside _ _ := rfl
  split := rfl
  stands := rfl

theorem Listed.completed (h : s.Listed cmds) : s.log.completed <+: s.log.linked := by
  have hstands := h.stands
  unfold Stands at hstands
  split at hstands
  case h_1 | h_2 | h_4 => exact hstands ▸ List.prefix_refl _
  case h_3 | h_5 | h_6 | h_7 => exact hstands.1 ▸ List.prefix_refl _
  case h_8 => exact ⟨_, hstands.symm⟩

theorem Listed.next_eq (h : s.Listed cmds) {before after : List ι} {n : ι}
    (hlinked : s.log.linked = before ++ n :: after) : s.next n = after.head? := by
  have hchain := h.chain
  rw [hlinked] at hchain
  exact hchain.next_eq

theorem Listed.fresh (h : s.Listed cmds) (hdistinct : cmds.Nodup) {node : ι}
    (hnode : node ∈ s.unlinked) : node ∉ s.log.linked := by
  rw [← h.split] at hdistinct
  exact fun hmem => (List.nodup_append'.mp hdistinct).2.2 hmem (List.mem_append_left _ hnode)

theorem Listed.moveOn (h : s.Listed cmds) {registrar : Registrar ι}
    (hunlinked : unlinked { s with registrar := registrar } = s.unlinked)
    (hstands : Stands { s with registrar := registrar }) :
    Listed cmds { s with registrar := registrar } where
  chain := h.chain
  outside := h.outside
  split := by
    rw [hunlinked]
    exact h.split
  stands := hstands

theorem Listed.setHead (h : s.Listed cmds) (hdistinct : cmds.Nodup) {node : ι}
    (hregistrar : s.registrar = .setHead node) : (s.setHead node).Listed cmds := by
  have hfresh : node ∉ s.log.linked := h.fresh hdistinct (by simp [unlinked, hregistrar])
  have hsplit := h.split
  have hstands := h.stands
  simp only [unlinked, Stands, hregistrar] at hsplit hstands
  refine ⟨?_, ?_, ?_, ?_⟩
  · change PointerChain s.next (some node) (s.log.linked ++ [node])
    rw [hstands.2]
    exact ⟨rfl, h.outside node hfresh⟩
  · intro n hn
    exact h.outside n fun hmem => hn (List.mem_append_left _ hmem)
  · change s.log.linked ++ [node] ++ ([] ++ s.calls) = cmds
    rw [List.nil_append, List.append_assoc]
    exact hsplit
  · change s.log.linked ++ [node] = s.log.completed ++ [node]
    rw [hstands.1]

section Register

variable [DecidableEq ι]

theorem Listed.link (h : s.Listed cmds) (hdistinct : cmds.Nodup) {node ptTmp : ι}
    (hregistrar : s.registrar = .link node ptTmp) : (s.link node ptTmp).Listed cmds := by
  have hfresh : node ∉ s.log.linked := h.fresh hdistinct (by simp [unlinked, hregistrar])
  have hsplit := h.split
  have hstands := h.stands
  simp only [unlinked, Stands, hregistrar] at hsplit hstands
  obtain ⟨hcompleted, before, hlinked⟩ := hstands
  have hlast : ptTmp ∈ s.log.linked := by simp [hlinked]
  have hbefore : ptTmp ∉ before := by
    rw [← hsplit, hlinked, List.append_assoc] at hdistinct
    exact fun hmem => (List.nodup_append'.mp hdistinct).2.2 hmem List.mem_cons_self
  refine ⟨?_, ?_, ?_, ?_⟩
  · change PointerChain (Function.update s.next ptTmp (some node)) s.head (s.log.linked ++ [node])
    have hchain := h.chain
    rw [hlinked] at hchain ⊢
    exact hchain.link hbefore (fun heq => hfresh (heq ▸ hlast)) (h.outside node hfresh)
  · intro n hn
    have hmem : n ∉ s.log.linked := fun hmem => hn (List.mem_append_left _ hmem)
    have hne : n ≠ ptTmp := fun heq => hmem (heq ▸ hlast)
    exact (Function.update_of_ne hne _ _).trans (h.outside n hmem)
  · change s.log.linked ++ [node] ++ ([] ++ s.calls) = cmds
    rw [List.nil_append, List.append_assoc]
    exact hsplit
  · change s.log.linked ++ [node] = s.log.completed ++ [node]
    rw [hcompleted]

theorem Listed.endList (h : s.Listed cmds) {node : ι} (hregistrar : s.registrar = .endList node) :
    (s.endList node).Listed cmds := by
  have hsplit := h.split
  have hstands := h.stands
  simp only [unlinked, Stands, hregistrar] at hsplit hstands
  -- The last node points nowhere already.
  have hnone : s.next node = none := h.next_eq hstands
  have hsame : Function.update s.next node none = s.next :=
    Function.update_eq_self_iff.mpr hnone.symm
  refine ⟨?_, ?_, hsplit, hstands.symm⟩
  · change PointerChain (Function.update s.next node none) s.head s.log.linked
    rw [hsame]
    exact h.chain
  · change ∀ n, n ∉ s.log.linked → Function.update s.next node none n = none
    rw [hsame]
    exact h.outside

theorem Listed.register (h : s.Listed cmds) (hdistinct : cmds.Nodup) (hstep : s.register = some s') :
    s'.Listed cmds := by
  have hstands := h.stands
  unfold SharedRegistry.register at hstep
  split at hstep
  case h_1 hregistrar =>
    split at hstep
    case h_1 => simp at hstep
    case h_2 node calls hcalls =>
      obtain rfl := Option.some.inj hstep
      have hsplit := h.split
      simp only [Stands, unlinked, hregistrar, hcalls] at hstands hsplit
      exact ⟨h.chain, h.outside, hsplit, hstands⟩
  case h_2 node hregistrar =>
    simp only [Stands, hregistrar] at hstands
    split_ifs at hstep with hhead
    · obtain rfl := Option.some.inj hstep
      refine h.moveOn (by simp [unlinked, hregistrar]) ⟨hstands, ?_⟩
      rw [h.chain.head_eq, Option.isNone_iff_eq_none] at hhead
      exact List.head?_eq_none_iff.mp hhead
    · obtain rfl := Option.some.inj hstep
      exact h.moveOn (by simp [unlinked, hregistrar]) hstands
  case h_3 node hregistrar =>
    obtain rfl := Option.some.inj hstep
    exact h.setHead hdistinct hregistrar
  case h_4 node hregistrar =>
    simp only [Stands, hregistrar] at hstands
    obtain ⟨ptTmp, hhead, rfl⟩ := Option.map_eq_some_iff.mp hstep
    refine h.moveOn (by simp [unlinked, hregistrar]) ⟨hstands, [], ?_⟩
    rw [h.chain.head_eq, List.head?_eq_some_iff] at hhead
    exact hhead
  case h_5 node ptTmp hregistrar =>
    simp only [Stands, hregistrar] at hstands
    obtain ⟨hcompleted, before, after, hlinked⟩ := hstands
    split_ifs at hstep with hnext
    · obtain rfl := Option.some.inj hstep
      exact h.moveOn (by simp [unlinked, hregistrar]) ⟨hcompleted, before, after, hlinked⟩
    · obtain rfl := Option.some.inj hstep
      refine h.moveOn (by simp [unlinked, hregistrar]) ⟨hcompleted, before, ?_⟩
      rw [h.next_eq hlinked, Option.not_isSome_iff_eq_none, List.head?_eq_none_iff] at hnext
      rw [hlinked, hnext]
  case h_6 node ptTmp hregistrar =>
    simp only [Stands, hregistrar] at hstands
    obtain ⟨hcompleted, before, after, hlinked⟩ := hstands
    obtain ⟨n, hnext, rfl⟩ := Option.map_eq_some_iff.mp hstep
    rw [h.next_eq hlinked, List.head?_eq_some_iff] at hnext
    obtain ⟨rest, rfl⟩ := hnext
    refine h.moveOn (by simp [unlinked, hregistrar]) ⟨hcompleted, before ++ [ptTmp], rest, ?_⟩
    rw [hlinked, List.append_assoc]
    rfl
  case h_7 node ptTmp hregistrar =>
    obtain rfl := Option.some.inj hstep
    exact h.link hdistinct hregistrar
  case h_8 node hregistrar =>
    obtain rfl := Option.some.inj hstep
    exact h.endList hregistrar

/-- What `main` does is not seen in the log of a lookup, and links nodes at the end only. -/
theorem register_log (hstep : s.register = some s') :
    s'.lookups = s.lookups ∧ s'.log.visited = s.log.visited ∧ s.log.linked <+: s'.log.linked := by
  unfold SharedRegistry.register at hstep
  split at hstep
  case h_1 =>
    split at hstep
    case h_1 => simp at hstep
    case h_2 =>
      obtain rfl := Option.some.inj hstep
      exact ⟨rfl, rfl, List.prefix_refl _⟩
  case h_2 | h_5 =>
    split_ifs at hstep
    all_goals
      obtain rfl := Option.some.inj hstep
      exact ⟨rfl, rfl, List.prefix_refl _⟩
  case h_3 | h_7 =>
    obtain rfl := Option.some.inj hstep
    exact ⟨rfl, rfl, List.prefix_append _ _⟩
  case h_4 | h_6 =>
    obtain ⟨_, _, rfl⟩ := Option.map_eq_some_iff.mp hstep
    exact ⟨rfl, rfl, List.prefix_refl _⟩
  case h_8 =>
    obtain rfl := Option.some.inj hstep
    exact ⟨rfl, rfl, List.prefix_refl _⟩

end Register

/-! ### The lookups -/

/-- What a lookup has done where it stands. -/
structure Sound (accepts : κ → ι → Bool) (s : SharedRegistry ι κ) (w : κ) : Prop where
  visited : s.log.visited w <+: s.log.linked
  before : s.lookups w = .before → s.log.visited w = []
  visiting : ∀ n, s.lookups w = .visiting n → ∃ before,
    s.log.visited w = before ++ [n] ∧ ∀ m ∈ before, accepts w m = false
  missed : s.lookups w = .returned none → ∀ n ∈ s.log.visited w, accepts w n = false
  found : ∀ n, s.lookups w = .returned (some n) → accepts w n = true ∧ ∃ before,
    s.log.visited w = before ++ [n] ∧ ∀ m ∈ before, accepts w m = false

variable {w : κ}

theorem Sound.start : Sound accepts (start cmds : SharedRegistry ι κ) w where
  visited := List.prefix_refl _
  before _ := rfl
  visiting _ h := by simp [SharedRegistry.start] at h
  missed h := by simp [SharedRegistry.start] at h
  found _ h := by simp [SharedRegistry.start] at h

theorem Sound.frame (h : Sound accepts s w) (hlookup : s'.lookups w = s.lookups w)
    (hvisited : s'.log.visited w = s.log.visited w) (hlinked : s.log.linked <+: s'.log.linked) :
    Sound accepts s' w := by
  refine ⟨?_, ?_, ?_, ?_, ?_⟩
  · rw [hvisited]
    exact h.visited.trans hlinked
  · rw [hlookup, hvisited]
    exact h.before
  · rw [hlookup, hvisited]
    exact h.visiting
  · rw [hlookup, hvisited]
    exact h.missed
  · rw [hlookup, hvisited]
    exact h.found

variable [DecidableEq κ]

theorem Sound.arrive {p : Option ι} (hvisited : s.log.visited w <+: s.log.linked)
    (hrefused : ∀ n ∈ s.log.visited w, accepts w n = false)
    (hnext : ∃ after, s.log.linked = s.log.visited w ++ after ∧ p = after.head?) :
    Sound accepts (s.arrive w p) w := by
  obtain ⟨after, hlinked, hp⟩ := hnext
  cases after with
  | nil =>
      obtain rfl : p = none := hp
      have hreturned : (s.arrive w none).lookups w = .returned none := Function.update_self ..
      refine ⟨hvisited, ?_, ?_, fun _ => hrefused, ?_⟩
      · rw [hreturned]
        exact nofun
      · rw [hreturned]
        exact nofun
      · rw [hreturned]
        exact nofun
  | cons n after =>
      obtain rfl : p = some n := hp
      have hvisiting : (s.arrive w (some n)).lookups w = .visiting n := Function.update_self ..
      have hnow : (s.arrive w (some n)).log.visited w = s.log.visited w ++ [n] :=
        Function.update_self ..
      refine ⟨?_, ?_, ?_, ?_, ?_⟩
      · rw [hnow]
        change _ <+: s.log.linked
        rw [hlinked]
        exact ⟨after, by simp⟩
      · rw [hvisiting]
        exact nofun
      · intro m hm
        obtain rfl : n = m := Lookup.visiting.inj (hvisiting.symm.trans hm)
        exact ⟨s.log.visited w, hnow, hrefused⟩
      · rw [hvisiting]
        exact nofun
      · rw [hvisiting]
        exact nofun

theorem lookup_cases (hstep : s.lookup accepts w = some s') :
    (s.lookups w = .before ∧ s' = s.arrive w s.head) ∨ ∃ n, s.lookups w = .visiting n
      ∧ (accepts w n = true ∧ s' = s.setLookup w (.returned (some n))
        ∨ accepts w n = false ∧ s' = s.arrive w (s.next n)) := by
  unfold SharedRegistry.lookup at hstep
  split at hstep
  case h_1 hbefore => exact Or.inl ⟨hbefore, (Option.some.inj hstep).symm⟩
  case h_2 n hvisiting =>
    refine Or.inr ⟨n, hvisiting, ?_⟩
    split_ifs at hstep with haccepts
    · exact Or.inl ⟨haccepts, (Option.some.inj hstep).symm⟩
    · exact Or.inr ⟨Bool.eq_false_iff.mpr haccepts, (Option.some.inj hstep).symm⟩
  case h_3 => simp at hstep

/-- The other lookups and the list are as before. -/
structure OnlyLookup (w : κ) (s s' : SharedRegistry ι κ) : Prop where
  lookups : ∀ w', w' ≠ w → s'.lookups w' = s.lookups w'
  visited : ∀ w', w' ≠ w → s'.log.visited w' = s.log.visited w'
  head : s'.head = s.head
  next : s'.next = s.next
  calls : s'.calls = s.calls
  registrar : s'.registrar = s.registrar
  linked : s'.log.linked = s.log.linked
  completed : s'.log.completed = s.log.completed

theorem onlyLookup_setLookup (s : SharedRegistry ι κ) (w : κ) (lookup : Lookup ι) :
    OnlyLookup w s (s.setLookup w lookup) where
  lookups _ hne := Function.update_of_ne hne _ _
  visited _ _ := rfl
  head := rfl
  next := rfl
  calls := rfl
  registrar := rfl
  linked := rfl
  completed := rfl

theorem onlyLookup_arrive (s : SharedRegistry ι κ) (w : κ) (p : Option ι) :
    OnlyLookup w s (s.arrive w p) := by
  cases p with
  | none => exact onlyLookup_setLookup s w _
  | some n =>
      exact ⟨fun _ hne => Function.update_of_ne hne _ _,
        fun _ hne => Function.update_of_ne hne _ _, rfl, rfl, rfl, rfl, rfl, rfl⟩

theorem onlyLookup_lookup (hstep : s.lookup accepts w = some s') : OnlyLookup w s s' := by
  rcases lookup_cases hstep with ⟨_, rfl⟩ | ⟨n, _, ⟨_, rfl⟩ | ⟨_, rfl⟩⟩
  · exact onlyLookup_arrive s w _
  · exact onlyLookup_setLookup s w _
  · exact onlyLookup_arrive s w _

theorem Listed.lookup (h : s.Listed cmds) (hstep : s.lookup accepts w = some s') :
    s'.Listed cmds := by
  have honly := onlyLookup_lookup hstep
  refine ⟨?_, ?_, ?_, ?_⟩
  · rw [honly.next, honly.head, honly.linked]
    exact h.chain
  · rw [honly.next, honly.linked]
    exact h.outside
  · rw [unlinked, honly.registrar, honly.linked, honly.calls]
    exact h.split
  · rw [Stands, honly.registrar, honly.linked, honly.completed]
    exact h.stands

omit [DecidableEq κ] in
/-- The head is the node behind what a lookup has visited that is about to begin. -/
theorem Sound.head_eq (h : Sound accepts s w) (hlisted : s.Listed cmds)
    (hbefore : s.lookups w = .before) :
    ∃ after, s.log.linked = s.log.visited w ++ after ∧ s.head = after.head? := by
  rw [h.before hbefore]
  exact ⟨s.log.linked, rfl, hlisted.chain.head_eq⟩

omit [DecidableEq κ] in
theorem Sound.next_eq (h : Sound accepts s w) (hlisted : s.Listed cmds) {n : ι}
    (hvisiting : s.lookups w = .visiting n) :
    ∃ after, s.log.linked = s.log.visited w ++ after ∧ s.next n = after.head? := by
  obtain ⟨before, hvisited, _⟩ := h.visiting n hvisiting
  obtain ⟨after, hlinked⟩ := h.visited
  have hplace : s.log.linked = before ++ n :: after := by
    rw [← hlinked, hvisited, List.append_assoc]
    rfl
  exact ⟨after, hlinked.symm, hlisted.next_eq hplace⟩

theorem Sound.begin (h : Sound accepts s w) (hlisted : s.Listed cmds)
    (hbefore : s.lookups w = .before) : Sound accepts (s.arrive w s.head) w := by
  refine Sound.arrive h.visited ?_ (h.head_eq hlisted hbefore)
  rw [h.before hbefore]
  exact nofun

theorem Sound.goOn (h : Sound accepts s w) (hlisted : s.Listed cmds) {n : ι}
    (hvisiting : s.lookups w = .visiting n) (hrefuses : accepts w n = false) :
    Sound accepts (s.arrive w (s.next n)) w := by
  obtain ⟨before, hvisited, hrefused⟩ := h.visiting n hvisiting
  refine Sound.arrive h.visited ?_ (h.next_eq hlisted hvisiting)
  intro m hm
  rw [hvisited, List.mem_append, List.mem_singleton] at hm
  obtain hm | rfl := hm
  · exact hrefused m hm
  · exact hrefuses

theorem Sound.stop (h : Sound accepts s w) {n : ι} (hvisiting : s.lookups w = .visiting n)
    (haccepts : accepts w n = true) : Sound accepts (s.setLookup w (.returned (some n))) w := by
  have hreturned : (s.setLookup w (.returned (some n))).lookups w = .returned (some n) :=
    Function.update_self ..
  refine ⟨h.visited, ?_, ?_, ?_, ?_⟩
  · rw [hreturned]
    exact nofun
  · rw [hreturned]
    exact nofun
  · rw [hreturned]
    exact nofun
  · intro m hm
    obtain rfl : n = m := Option.some.inj (Lookup.returned.inj (hreturned.symm.trans hm))
    exact ⟨haccepts, h.visiting n hvisiting⟩

theorem Sound.lookup (h : Sound accepts s w) (hlisted : s.Listed cmds)
    (hstep : s.lookup accepts w = some s') : Sound accepts s' w := by
  rcases lookup_cases hstep with ⟨hbefore, rfl⟩ | ⟨n, hvisiting, ⟨haccepts, rfl⟩ | ⟨hrefuses, rfl⟩⟩
  · exact h.begin hlisted hbefore
  · exact h.stop hvisiting haccepts
  · exact h.goOn hlisted hvisiting hrefuses

/-! ### What had returned when a lookup began -/

/-- A lookup that has found nothing has visited all of `known`. -/
structure Covers (known : List ι) (w : κ) (s : SharedRegistry ι κ) : Prop where
  linked : known <+: s.log.linked
  missed : s.lookups w = .returned none → known <+: s.log.visited w

variable {known : List ι}

omit [DecidableEq κ] in
theorem Covers.frame (h : Covers known w s) (hlookup : s'.lookups w = s.lookups w)
    (hvisited : s'.log.visited w = s.log.visited w) (hlinked : s.log.linked <+: s'.log.linked) :
    Covers known w s' := by
  refine ⟨h.linked.trans hlinked, ?_⟩
  rw [hlookup, hvisited]
  exact h.missed

theorem Covers.arrive {p : Option ι} (h : Covers known w s)
    (hnext : ∃ after, s.log.linked = s.log.visited w ++ after ∧ p = after.head?) :
    Covers known w (s.arrive w p) := by
  obtain ⟨after, hlinked, rfl⟩ := hnext
  cases after with
  | nil =>
      refine ⟨h.linked, fun _ => ?_⟩
      rw [List.append_nil] at hlinked
      exact hlinked ▸ h.linked
  | cons n after =>
      have hvisiting : (s.arrive w (some n)).lookups w = .visiting n := Function.update_self ..
      exact ⟨h.linked, fun hreturned => nomatch hvisiting.symm.trans hreturned⟩

theorem Covers.lookup (h : Covers known w s) (hsound : Sound accepts s w) (hlisted : s.Listed cmds)
    (hstep : s.lookup accepts w = some s') : Covers known w s' := by
  rcases lookup_cases hstep with ⟨hbefore, rfl⟩ | ⟨n, hvisiting, ⟨_, rfl⟩ | ⟨_, rfl⟩⟩
  · exact h.arrive (hsound.head_eq hlisted hbefore)
  · have hreturned : (s.setLookup w (.returned (some n))).lookups w = .returned (some n) :=
      Function.update_self ..
    exact ⟨h.linked, fun hnone => nomatch hreturned.symm.trans hnone⟩
  · exact h.arrive (hsound.next_eq hlisted hvisiting)

/-! ### Runs -/

section Runs

variable [DecidableEq ι]

structure Kept (accepts : κ → ι → Bool) (cmds : List ι) (s : SharedRegistry ι κ) : Prop where
  listed : s.Listed cmds
  sound : ∀ w, Sound accepts s w

omit [DecidableEq ι] [DecidableEq κ] in
theorem Kept.start : Kept accepts cmds (start cmds : SharedRegistry ι κ) :=
  ⟨Listed.start, fun _ => Sound.start⟩

theorem Kept.step (h : Kept accepts cmds s) (hdistinct : cmds.Nodup) {a : RegistryAction κ}
    (hstep : s.step accepts a = some s') : Kept accepts cmds s' := by
  cases a with
  | register =>
      obtain ⟨hlookups, hvisited, hlinked⟩ := register_log hstep
      refine ⟨h.listed.register hdistinct hstep, fun w => ?_⟩
      exact (h.sound w).frame (congrFun hlookups w) (congrFun hvisited w) hlinked
  | lookup w =>
      refine ⟨h.listed.lookup hstep, fun w' => ?_⟩
      by_cases hw : w' = w
      · obtain rfl := hw
        exact (h.sound w').lookup h.listed hstep
      · have honly := onlyLookup_lookup hstep
        exact (h.sound w').frame (honly.lookups w' hw) (honly.visited w' hw)
          (honly.linked ▸ List.prefix_refl _)

/-- How many steps a lookup has left, at most. -/
def stepsLeft (cmds : List ι) (w : κ) (s : SharedRegistry ι κ) : Nat :=
  match s.lookups w with
  | .before => cmds.length + 1
  | .visiting _ => cmds.length + 1 - (s.log.visited w).length
  | .returned _ => 0

omit [DecidableEq κ] [DecidableEq ι] in
theorem stepsLeft_congr (hlookup : s'.lookups w = s.lookups w)
    (hvisited : s'.log.visited w = s.log.visited w) :
    stepsLeft cmds w s' = stepsLeft cmds w s := by
  rw [stepsLeft, hlookup, hvisited, stepsLeft]

omit [DecidableEq ι] in
theorem stepsLeft_arrive (cmds : List ι) (w : κ) (s : SharedRegistry ι κ) (p : Option ι) :
    stepsLeft cmds w (s.arrive w p) ≤ cmds.length - (s.log.visited w).length := by
  cases p with
  | none =>
      have hreturned : (s.arrive w none).lookups w = .returned none := Function.update_self ..
      simp only [stepsLeft, hreturned]
      exact Nat.zero_le _
  | some n =>
      have hvisiting : (s.arrive w (some n)).lookups w = .visiting n := Function.update_self ..
      have hnow : (s.arrive w (some n)).log.visited w = s.log.visited w ++ [n] :=
        Function.update_self ..
      simp only [stepsLeft, hvisiting, hnow, List.length_append, List.length_singleton]
      omega

omit [DecidableEq κ] [DecidableEq ι] in
theorem Kept.visited_prefix (h : Kept accepts cmds s) (w : κ) : s.log.visited w <+: cmds :=
  (h.sound w).visited.trans ⟨_, h.listed.split⟩

omit [DecidableEq ι] in
theorem Kept.stepsLeft_lookup (h : Kept accepts cmds s) (hstep : s.lookup accepts w = some s') :
    stepsLeft cmds w s' < stepsLeft cmds w s := by
  have hlength := (h.visited_prefix w).length_le
  rcases lookup_cases hstep with ⟨hbefore, rfl⟩ | ⟨n, hvisiting, ⟨_, rfl⟩ | ⟨_, rfl⟩⟩
  · have hleft : stepsLeft cmds w s = cmds.length + 1 := by rw [stepsLeft, hbefore]
    have harrive := stepsLeft_arrive cmds w s s.head
    exact (harrive.trans (Nat.sub_le _ _)).trans_lt (hleft ▸ Nat.lt_succ_self _)
  · have hreturned : (s.setLookup w (.returned (some n))).lookups w = .returned (some n) :=
      Function.update_self ..
    simp only [stepsLeft, hreturned, hvisiting]
    omega
  · have harrive := stepsLeft_arrive cmds w s (s.next n)
    have hleft : stepsLeft cmds w s = cmds.length + 1 - (s.log.visited w).length := by
      rw [stepsLeft, hvisiting]
    omega

theorem Kept.stepsLeft_le (h : Kept accepts cmds s) {a : RegistryAction κ}
    (hstep : s.step accepts a = some s') : stepsLeft cmds w s' ≤ stepsLeft cmds w s := by
  cases a with
  | register =>
      obtain ⟨hlookups, hvisited, _⟩ := register_log hstep
      exact (stepsLeft_congr (congrFun hlookups w) (congrFun hvisited w)).le
  | lookup w' =>
      by_cases hw : w = w'
      · obtain rfl := hw
        exact (h.stepsLeft_lookup hstep).le
      · have honly := onlyLookup_lookup hstep
        exact (stepsLeft_congr (honly.lookups w hw) (honly.visited w hw)).le

/-- No lookup is endless: it takes at most one step more than there are registrations. -/
theorem Kept.ends (h : Kept accepts cmds s) (hdistinct : cmds.Nodup) {as : List (RegistryAction κ)}
    (hexec : exec (SharedRegistry.step accepts) s as = some s')
    (hcount : cmds.length < as.count (.lookup w)) : ∃ found, s'.lookups w = .returned found := by
  have hkeep : ∀ s a s', Kept accepts cmds s → s.step accepts a = some s' →
      Kept accepts cmds s' ∧ stepsLeft cmds w s' ≤ stepsLeft cmds w s :=
    fun s a s' hI hstep => ⟨hI.step hdistinct hstep, hI.stepsLeft_le hstep⟩
  have hlower : ∀ s s', Kept accepts cmds s → s.step accepts (.lookup w) = some s' →
      stepsLeft cmds w s' < stepsLeft cmds w s :=
    fun s s' hI hstep => hI.stepsLeft_lookup hstep
  have hleft : stepsLeft cmds w s' + as.count (.lookup w) ≤ stepsLeft cmds w s :=
    count_le_of_measure (stepsLeft cmds w) (.lookup w) hkeep hlower h hexec
  have hmost : stepsLeft cmds w s ≤ cmds.length + 1 := by
    rw [stepsLeft]
    split <;> omega
  have hkept : Kept accepts cmds s' :=
    (reaches_of_exec hexec).invariant (fun _ _ _ hI _ hstep => hI.step hdistinct hstep) h
  have hlength := (hkept.visited_prefix w).length_le
  have hnone : stepsLeft cmds w s' = 0 := by omega
  rw [stepsLeft] at hnone
  split at hnone
  case h_1 => omega
  case h_2 => omega
  case h_3 found hreturned => exact ⟨found, hreturned⟩

theorem Covers.step (h : Covers known w s) (hkept : Kept accepts cmds s) {a : RegistryAction κ}
    (hstep : s.step accepts a = some s') : Covers known w s' := by
  cases a with
  | register =>
      obtain ⟨hlookups, hvisited, hlinked⟩ := register_log hstep
      exact h.frame (congrFun hlookups w) (congrFun hvisited w) hlinked
  | lookup w' =>
      by_cases hw : w = w'
      · obtain rfl := hw
        exact h.lookup (hkept.sound w) hkept.listed hstep
      · have honly := onlyLookup_lookup hstep
        exact h.frame (honly.lookups w hw) (honly.visited w hw) (honly.linked ▸ List.prefix_refl _)

omit [DecidableEq ι] [DecidableEq κ] in
theorem Covers.walked (h : Covers known w s) (hkept : Kept accepts cmds s) :
    Walked accepts cmds known w s := by
  refine ⟨h.missed, fun n _ => ?_, ?_⟩
  · exact List.prefix_or_prefix_of_prefix h.linked (hkept.sound w).visited
  · rintro found hreturned ⟨n, hknown, haccepts⟩
    cases found with
    | none =>
        have hrefuses := (hkept.sound w).missed hreturned n ((h.missed hreturned).subset hknown)
        exact absurd haccepts (Bool.eq_false_iff.mp hrefuses)
    | some m =>
        obtain ⟨hm, before, hvisited, hrefused⟩ := (hkept.sound w).found m hreturned
        obtain ⟨after, hcmds⟩ := hkept.visited_prefix w
        refine ⟨Eq.symm (List.find?_eq_some_iff_append.mpr ⟨hm, before, after, ?_, ?_⟩), rfl⟩
        · rw [← hcmds, hvisited, List.append_assoc]
          rfl
        · intro x hx
          rw [hrefused x hx]
          rfl

/-- What a lookup finds is measured against what had returned in the state of its first step. -/
theorem Kept.begins (h : Kept accepts cmds s) (hdistinct : cmds.Nodup)
    (hbefore : s.lookups w = .before) {as : List (RegistryAction κ)}
    (hexec : exec (SharedRegistry.step accepts) s (.lookup w :: as) = some s') :
    Walked accepts cmds s.log.completed w s' := by
  have hcovers : Covers s.log.completed w s :=
    ⟨h.listed.completed, fun hreturned => nomatch hbefore.symm.trans hreturned⟩
  obtain ⟨hkept, hlast⟩ := (reaches_of_exec hexec).invariant
    (I := fun s' => Kept accepts cmds s' ∧ Covers s.log.completed w s')
    (fun _ _ _ hI _ hstep => ⟨hI.1.step hdistinct hstep, hI.2.step hI.1 hstep⟩) ⟨h, hcovers⟩
  exact hlast.walked hkept

theorem Kept.inUse (h : Kept accepts cmds s) (hdistinct : cmds.Nodup) :
    InUse accepts cmds s := by
  have horder : s.log.linked <+: cmds := ⟨_, h.listed.split⟩
  refine ⟨h.listed.chain, horder, hdistinct.sublist horder.sublist, h.listed.completed,
    fun w => (h.sound w).visited, fun w => (h.sound w).missed, fun w => (h.sound w).found,
    fun w as s' hbefore => h.begins hdistinct hbefore, ?_, ?_⟩
  · intro w hgoing
    unfold SharedRegistry.lookup
    split
    case h_1 => rfl
    case h_2 => split_ifs <;> rfl
    case h_3 found hreturned => exact absurd hreturned (hgoing found)
  · intro w as s' hexec hcount
    exact h.ends hdistinct hexec hcount

end Runs

end SharedRegistry

open SharedRegistry

variable {ι κ : Type} [DecidableEq ι] [DecidableEq κ]

/-- **Registries in use.** Whatever distinct nodes `main` registers and however the lookups interleave
with it, the registry of commands and that of protocols are in every state what the lookups rely on. -/
theorem registries_inUse {cmds : List ι} (hdistinct : cmds.Nodup) (s : SharedRegistry ι κ) :
    (∀ (entry : ι → CmdList) (cmd : κ → StCmdFrame),
      Reaches (step (selectsCmd entry cmd)) anyAction (start cmds) s →
        InUse (selectsCmd entry cmd) cmds s)
    ∧ ∀ (protocol : ι → ProtocolSet) (tmpStr : κ → Block 128) (pucBufHead : κ → Bytes),
      Reaches (step (selectsProtocol protocol tmpStr pucBufHead)) anyAction (start cmds) s →
        InUse (selectsProtocol protocol tmpStr pucBufHead) cmds s := by
  constructor
  · intro entry cmd hreaches
    exact Kept.inUse
      (hreaches.invariant (fun _ _ _ hI _ hstep => hI.step hdistinct hstep) Kept.start) hdistinct
  · intro protocol tmpStr pucBufHead hreaches
    exact Kept.inUse
      (hreaches.invariant (fun _ _ _ hI _ hstep => hI.step hdistinct hstep) Kept.start) hdistinct

theorem registries_inUse_overlapping :
    ∃ s, (exec (step (selectsCmd (fun n : Bool => cond n rebootCmd helpCmd)
        fun _ : Unit => StCmdFrame.zeroed))
      (start [false, true]) ([.register, .register, .register, .lookup ()]
        ++ List.replicate 7 .register ++ [.lookup (), .lookup ()])) = some s
      ∧ InUse (selectsCmd (fun n : Bool => cond n rebootCmd helpCmd)
        fun _ : Unit => StCmdFrame.zeroed) [false, true] s := by
  obtain ⟨s, hs⟩ := Option.isSome_iff_exists.mp (show (exec (step (selectsCmd
      (fun n : Bool => cond n rebootCmd helpCmd) fun _ : Unit => StCmdFrame.zeroed))
    (start [false, true]) ([.register, .register, .register, .lookup ()]
      ++ List.replicate 7 .register ++ [.lookup (), .lookup ()])).isSome = true by decide +kernel)
  exact ⟨s, hs, (registries_inUse (by decide) s).1 _ _ (reaches_of_exec hs)⟩

/-! ### The registered lists -/

theorem foldl_registerCmd (entries cmds : List CmdList) :
    cmds.foldl registerCmd entries = entries ++ cmds := by
  induction cmds generalizing entries with
  | nil => exact (List.append_nil entries).symm
  | cons cmd cmds ih =>
      rw [List.foldl_cons, ih, registerCmd, List.append_assoc]
      rfl

omit [DecidableEq ι] [DecidableEq κ] in
/-- What a lookup resolves to in `Walked.first` is what it resolves to in the registered list. -/
theorem selectCmd_of_registrations (entry : ι → CmdList) (cmd : κ → StCmdFrame) (cmds : List ι)
    (w : κ) :
    selectCmd ((cmds.map entry).foldl registerCmd []) (cmd w)
      = (cmds.find? (selectsCmd entry cmd w)).map entry := by
  rw [foldl_registerCmd, List.nil_append, selectCmd, List.find?_map]
  rfl

omit [DecidableEq ι] [DecidableEq κ] in
theorem doProtocolHandle_of_registrations (protocol : ι → ProtocolSet) (tmpStr : κ → Block 128)
    (pucBufHead : κ → Bytes) (protocols : List ι) (w : κ)
    (hbounds : ∀ n ∈ protocols, ∃ ret, (protocol n).checkData (tmpStr w) (pucBufHead w) = some ret) :
    doProtocolHandle (tmpStr w) ((protocols.map protocol).foldl registerProtocol []) (pucBufHead w)
      = some ((protocols.find? (selectsProtocol protocol tmpStr pucBufHead w)).map protocol) := by
  rw [foldl_registerProtocol, List.nil_append, doProtocolHandle_eq_find, List.find?_map]
  · rfl
  · intro p hp
    obtain ⟨n, hn, rfl⟩ := List.mem_map.mp hp
    exact hbounds n hn

end InstructionParser
