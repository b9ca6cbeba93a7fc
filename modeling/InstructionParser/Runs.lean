import Mathlib.Data.List.Count
import Mathlib.Logic.Relation

/-!
# Runs of a state machine

A machine is a step function from a state and an action to the next state, `none` where the action
is not possible. `Reaches step ok` are the runs whose every action meets `ok` in the state it is
taken in; with `ok` always true these are all runs.
-/

namespace Runs

variable {σ α : Type}

def StepBy (step : σ → α → Option σ) (ok : σ → α → Prop) (s s' : σ) : Prop :=
  ∃ a, ok s a ∧ step s a = some s'

def Reaches (step : σ → α → Option σ) (ok : σ → α → Prop) : σ → σ → Prop :=
  Relation.ReflTransGen (StepBy step ok)

/-- No condition on the actions of a run. -/
def anyAction : σ → α → Prop := fun _ _ => True

variable {step : σ → α → Option σ} {ok : σ → α → Prop}

theorem Reaches.refl (s : σ) : Reaches step ok s s := Relation.ReflTransGen.refl

theorem Reaches.tail {s s' s'' : σ} {a : α} (h : Reaches step ok s s') (hok : ok s' a)
    (hstep : step s' a = some s'') : Reaches step ok s s'' :=
  Relation.ReflTransGen.tail h ⟨a, hok, hstep⟩

/-- What holds at the start and is kept by every step of the run holds at its end. -/
theorem Reaches.invariant {I : σ → Prop} {s s' : σ} (h : Reaches step ok s s')
    (hkeep : ∀ s a s', I s → ok s a → step s a = some s' → I s') (hinit : I s) : I s' := by
  induction h with
  | refl => exact hinit
  | tail _ hlast ih =>
      obtain ⟨a, hok, hstep⟩ := hlast
      exact hkeep _ a _ ih hok hstep

theorem Reaches.any {s s' : σ} (h : Reaches step ok s s') : Reaches step anyAction s s' :=
  h.invariant (fun _ _ _ hrun _ hstep => hrun.tail trivial hstep) (Reaches.refl s)

/-- The state after a list of actions. -/
def exec (step : σ → α → Option σ) : σ → List α → Option σ
  | s, [] => some s
  | s, a :: as => (step s a).bind fun s' => exec step s' as

/-- Every action of the list meets `ok` in the state it is taken in. -/
def Allowed (step : σ → α → Option σ) (ok : σ → α → Prop) : σ → List α → Prop
  | _, [] => True
  | s, a :: as => ok s a ∧ ∀ s' ∈ step s a, Allowed step ok s' as

instance Allowed.decidable [∀ s a, Decidable (ok s a)] : ∀ (as : List α) (s : σ),
    Decidable (Allowed step ok s as)
  | [], _ => isTrue trivial
  | a :: as, s =>
      have (s' : σ) : Decidable (Allowed step ok s' as) := Allowed.decidable as s'
      inferInstanceAs (Decidable (ok s a ∧ ∀ s' ∈ step s a, Allowed step ok s' as))

theorem reaches_of_allowed : ∀ {as : List α} {s s' : σ}, Allowed step ok s as →
    exec step s as = some s' → Reaches step ok s s' := by
  intro as
  induction as with
  | nil =>
      intro s s' _ h
      obtain rfl := Option.some.inj h
      exact Reaches.refl s
  | cons a as ih =>
      intro s s' hallowed h
      obtain ⟨middle, hstep, hrest⟩ := Option.bind_eq_some_iff.mp h
      exact Relation.ReflTransGen.head ⟨a, hallowed.1, hstep⟩ (ih (hallowed.2 middle hstep) hrest)

theorem allowed_of_forall {as : List α} (h : ∀ a ∈ as, ∀ s, ok s a) (s : σ) :
    Allowed step ok s as := by
  induction as generalizing s with
  | nil => trivial
  | cons a as ih =>
      exact ⟨h a List.mem_cons_self s, fun s' _ =>
        ih (fun b hb => h b (List.mem_cons_of_mem a hb)) s'⟩

theorem allowed_append {as bs : List α} {s middle : σ} (has : Allowed step ok s as)
    (hexec : exec step s as = some middle) (hbs : Allowed step ok middle bs) :
    Allowed step ok s (as ++ bs) := by
  induction as generalizing s with
  | nil =>
      obtain rfl := Option.some.inj hexec
      exact hbs
  | cons a as ih =>
      obtain ⟨next, hstep, hrest⟩ := Option.bind_eq_some_iff.mp hexec
      refine ⟨has.1, fun s' hs' => ?_⟩
      obtain rfl := Option.some.inj (hstep.symm.trans hs')
      exact ih (has.2 next hstep) hrest

theorem reaches_of_exec {as : List α} {s s' : σ} (h : exec step s as = some s') :
    Reaches step anyAction s s' :=
  reaches_of_allowed (allowed_of_forall (fun _ _ _ => trivial) s) h

/-- An action that lowers a measure which no action raises is taken only so often. -/
theorem count_le_of_measure [DecidableEq α] {I : σ → Prop} (μ : σ → Nat) (b : α)
    (hkeep : ∀ s a s', I s → step s a = some s' → I s' ∧ μ s' ≤ μ s)
    (hlower : ∀ s s', I s → step s b = some s' → μ s' < μ s) {as : List α} {s s' : σ} (hI : I s)
    (h : exec step s as = some s') : μ s' + as.count b ≤ μ s := by
  induction as generalizing s with
  | nil =>
      obtain rfl := Option.some.inj h
      exact Nat.le_refl _
  | cons a as ih =>
      obtain ⟨middle, hstep, hrest⟩ := Option.bind_eq_some_iff.mp h
      obtain ⟨hnext, hle⟩ := hkeep s a middle hI hstep
      have hcount := ih hnext hrest
      rw [List.count_cons]
      by_cases hab : a = b
      · obtain rfl := hab
        have hlt := hlower s middle hI hstep
        rw [if_pos (beq_self_eq_true a)]
        omega
      · rw [if_neg (by simpa using hab)]
        omega

/-- What a list of actions costs. -/
def spent (cost : α → Nat) : List α → Nat
  | [] => 0
  | a :: as => cost a + spent cost as

theorem spent_zero (as : List α) : spent (fun _ => 0) as = 0 := by
  induction as with
  | nil => rfl
  | cons a as ih => rw [spent, ih]

/-- Every action takes one from a measure, but for what it costs: a run is no longer than the measure at
its start and all it costs. -/
theorem length_le_of_measure {I : σ → Prop} (μ : σ → Nat) (cost : α → Nat)
    (hlower : ∀ s a s', I s → ok s a → step s a = some s' → I s' ∧ μ s' + 1 ≤ μ s + cost a)
    {as : List α} {s s' : σ} (hI : I s) (hok : Allowed step ok s as) (h : exec step s as = some s') :
    I s' ∧ as.length + μ s' ≤ μ s + spent cost as := by
  induction as generalizing s with
  | nil =>
      obtain rfl := Option.some.inj h
      exact ⟨hI, Nat.le_of_eq (Nat.zero_add _)⟩
  | cons a as ih =>
      obtain ⟨middle, hstep, hrest⟩ := Option.bind_eq_some_iff.mp h
      obtain ⟨hnext, hlt⟩ := hlower s a middle hI hok.1 hstep
      obtain ⟨hlast, hle⟩ := ih hnext (hok.2 middle hstep) hrest
      refine ⟨hlast, ?_⟩
      rw [List.length_cons, spent]
      omega

/-! ### Objects that answer calls -/

section Replay

variable {τ ι ο : Type}

/-- The answers to a list of calls and the state after them. -/
def replay (call : σ → ι → ο × σ) (s : σ) : List ι → List ο × σ
  | [] => ([], s)
  | i :: calls => ((call s i).1 :: (replay call (call s i).2 calls).1, (replay call (call s i).2 calls).2)

variable {call : σ → ι → ο × σ} {call' : τ → ι → ο × τ}

/-- Two objects that answer each call alike from related states answer every list of calls alike. -/
theorem replay_of_simulation {R : σ → τ → Prop}
    (hcall : ∀ s t i, R s t → (call s i).1 = (call' t i).1 ∧ R (call s i).2 (call' t i).2)
    {s : σ} {t : τ} (hrelated : R s t) (calls : List ι) :
    (replay call s calls).1 = (replay call' t calls).1
      ∧ R (replay call s calls).2 (replay call' t calls).2 := by
  induction calls generalizing s t with
  | nil => exact ⟨rfl, hrelated⟩
  | cons i calls ih =>
      obtain ⟨hanswer, hnext⟩ := hcall s t i hrelated
      obtain ⟨hanswers, hlast⟩ := ih hnext
      refine ⟨?_, hlast⟩
      rw [replay, replay, hanswer, hanswers]

end Replay

end Runs
