import Mathlib.Data.List.Nodup
import Mathlib.Data.List.Perm.Subperm
import Mathlib.Logic.Function.Basic

/-!
# Jobs under way

Several hands begin jobs and end them. What each hand has under way is a partial function; the jobs begun
are those that have ended and those under way, and they end in the order in which they began when one
begins only while no other is under way.
-/

namespace UnderWay

open Function

variable {ι α : Type} {f : ι → Option α} {l : List (ι × α)} {begun ended : List α} {i : ι} {a : α}

/-- The list has each job under way once. -/
structure Lists (f : ι → Option α) (l : List (ι × α)) : Prop where
  nodup : l.Nodup
  mem_iff : ∀ i a, (i, a) ∈ l ↔ f i = some a

theorem lists_nil : Lists (fun _ : ι => (none : Option α)) [] :=
  ⟨List.nodup_nil, fun _ _ => ⟨fun h => absurd h List.not_mem_nil, fun h => nomatch h⟩⟩

theorem Lists.begin [DecidableEq ι] (h : Lists f l) (hi : f i = none) (a : α) :
    Lists (update f i (some a)) (l ++ [(i, a)]) := by
  have hfresh : ∀ b, (i, b) ∉ l := fun b hb => by
    rw [(h.mem_iff i b).mp hb] at hi
    cases hi
  refine ⟨?_, fun j b => ?_⟩
  · rw [List.nodup_append]
    refine ⟨h.nodup, List.nodup_singleton _, fun x hx y hy heq => ?_⟩
    rw [List.mem_singleton.mp hy] at heq
    exact hfresh a (heq ▸ hx)
  · rw [List.mem_append, List.mem_singleton, Prod.mk.injEq]
    by_cases hj : j = i
    · subst hj
      rw [update_self, Option.some.injEq]
      exact ⟨fun hb => (hb.resolve_left (hfresh b)).2.symm, fun hb => Or.inr ⟨rfl, hb.symm⟩⟩
    · rw [update_of_ne hj, ← h.mem_iff j b]
      exact ⟨fun hb => hb.resolve_right fun hnew => hj hnew.1, Or.inl⟩

theorem Lists.finish [DecidableEq ι] [DecidableEq α] (h : Lists f l) (hi : f i = some a) :
    Lists (update f i none) (l.erase (i, a)) := by
  refine ⟨h.nodup.erase _, fun j b => ?_⟩
  rw [h.nodup.mem_erase_iff, h.mem_iff j b]
  by_cases hj : j = i
  · subst hj
    rw [update_self, hi]
    refine ⟨fun hb => absurd ?_ hb.1, fun hb => nomatch hb⟩
    rw [Option.some.inj hb.2]
  · rw [update_of_ne hj]
    exact ⟨fun hb => hb.2, fun hb => ⟨fun heq => hj (congrArg Prod.fst heq), hb⟩⟩

/-- The jobs begun are those ended and those under way. -/
def Accounted (f : ι → Option α) (begun ended : List α) : Prop :=
  ∃ l, Lists f l ∧ begun.Perm (ended ++ l.map Prod.snd)

theorem accounted_nil : Accounted (fun _ : ι => (none : Option α)) [] [] :=
  ⟨[], lists_nil, List.Perm.refl _⟩

theorem Accounted.begin [DecidableEq ι] (h : Accounted f begun ended) (hi : f i = none) (a : α) :
    Accounted (update f i (some a)) (begun ++ [a]) ended := by
  obtain ⟨l, hlists, hperm⟩ := h
  refine ⟨l ++ [(i, a)], hlists.begin hi a, ?_⟩
  rw [List.map_append, ← List.append_assoc]
  exact hperm.append_right _

theorem Accounted.finish [DecidableEq ι] [DecidableEq α] (h : Accounted f begun ended)
    (hi : f i = some a) : Accounted (update f i none) begun (ended ++ [a]) := by
  obtain ⟨l, hlists, hperm⟩ := h
  have hsplit := (List.perm_cons_erase ((hlists.mem_iff i a).mpr hi)).map Prod.snd
  refine ⟨l.erase (i, a), hlists.finish hi, hperm.trans ?_⟩
  rw [List.append_assoc]
  exact hsplit.append_left ended

theorem Accounted.subperm (h : Accounted f begun ended) : ended.Subperm begun := by
  obtain ⟨l, _, hperm⟩ := h
  exact (List.sublist_append_left ended _).subperm.trans hperm.symm.subperm

/-- One job at a time. -/
def InTurn (f : ι → Option α) (begun ended : List α) : Prop :=
  ∃ l, Lists f l ∧ l.length ≤ 1 ∧ begun = ended ++ l.map Prod.snd

theorem inTurn_nil : InTurn (fun _ : ι => (none : Option α)) [] [] :=
  ⟨[], lists_nil, Nat.zero_le _, rfl⟩

theorem InTurn.begin [DecidableEq ι] (h : InTurn f begun ended) (hnone : ∀ j, f j = none) (i : ι)
    (a : α) : InTurn (update f i (some a)) (begun ++ [a]) ended := by
  obtain ⟨l, hlists, _, rfl⟩ := h
  obtain rfl : l = [] := List.eq_nil_iff_forall_not_mem.mpr fun p hp => by
    have hsome := (hlists.mem_iff p.1 p.2).mp hp
    rw [hnone p.1] at hsome
    cases hsome
  exact ⟨[(i, a)], hlists.begin (hnone i) a, Nat.le_refl _, by simp⟩

theorem InTurn.finish [DecidableEq ι] [DecidableEq α] (h : InTurn f begun ended) (hi : f i = some a) :
    InTurn (update f i none) begun (ended ++ [a]) := by
  obtain ⟨l, hlists, hlength, rfl⟩ := h
  have hmem := (hlists.mem_iff i a).mpr hi
  have herased := List.length_erase_of_mem hmem
  refine ⟨l.erase (i, a), hlists.finish hi, by omega, ?_⟩
  cases l with
  | nil => exact absurd hmem List.not_mem_nil
  | cons first rest =>
      have hrest : rest.length = 0 := by
        rw [List.length_cons] at hlength
        omega
      obtain rfl := List.eq_nil_of_length_eq_zero hrest
      obtain rfl := List.mem_singleton.mp hmem
      simp

theorem InTurn.isPrefix (h : InTurn f begun ended) : ended <+: begun := by
  obtain ⟨l, _, _, rfl⟩ := h
  exact List.prefix_append _ _

theorem InTurn.none_of_nil (h : InTurn f [] ended) (i : ι) : f i = none := by
  obtain ⟨l, hlists, _, hnil⟩ := h
  obtain ⟨_, hmap⟩ := List.append_eq_nil_iff.mp hnil.symm
  obtain rfl := List.map_eq_nil_iff.mp hmap
  exact Option.eq_none_iff_forall_ne_some.mpr fun a ha =>
    absurd ((hlists.mem_iff i a).mpr ha) List.not_mem_nil

end UnderWay
