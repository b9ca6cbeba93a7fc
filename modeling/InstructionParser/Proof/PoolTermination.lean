import InstructionParser.Proof.PoolShutdown

/-!
# Whether `threadpool_destroy` returns

After a shutdown the threads of the pool can go on until the pool is freed, whoever is scheduled, and
only so many steps are left. A second call of `threadpool_destroy` keeps the mutex and stops them for
ever.
-/

namespace InstructionParser

open Runs

namespace PoolSystem

variable {α : Type} {s s' : PoolSystem α} {a : PoolAction α} {args : PoolArgs}

/-! ### Who has the mutex -/

structure Owned (s : PoolSystem α) : Prop where
  live : s.lock ≠ none → s.freed = false
  thread : ∀ i, s.lock = some (.thread i) → s.threads[i]? = some .testing

theorem owned_start (args : PoolArgs) (queue : Nat → α) (others : Nat) :
    (start args queue others).Owned := by
  refine ⟨fun _ => rfl, fun i hlock => ?_⟩
  cases hlock

/-- A thread that is not inside moves on. -/
theorem Owned.setThread (h : s.Owned) {i : Nat} {old t : PoolThread α}
    (hi : s.threads[i]? = some old) (hold : Inside.thread old = false) :
    (s.setThread i t).Owned := by
  refine ⟨h.live, fun j hlock => ?_⟩
  have htesting := h.thread j hlock
  have hne : i ≠ j := by
    rintro rfl
    rw [hi, Option.some.injEq] at htesting
    rw [htesting] at hold
    cases hold
  simpa only [PoolSystem.setThread, List.getElem?_set_ne hne] using htesting

theorem owned_of_unlocked (h : s.lock = none) : s.Owned :=
  ⟨fun hne => absurd h hne, fun i hlock => by rw [h] at hlock; cases hlock⟩

theorem Owned.congr (h : s.Owned) (hlock : s'.lock = s.lock) (hthreads : s'.threads = s.threads)
    (hfreed : s'.freed = s.freed) : s'.Owned := by
  refine ⟨?_, ?_⟩
  · rw [hlock, hfreed]
    exact h.live
  · rw [hlock, hthreads]
    exact h.thread

theorem Owned.stepped (h : s.Owned) (hstep : Stepped s a s') : s'.Owned := by
  cases hstep with
  | created =>
      refine ⟨h.live, fun i hlock => ?_⟩
      exact (List.getElem?_append_left (List.getElem?_eq_some_iff.mp (h.thread i hlock)).1).trans
        (h.thread i hlock)
  | threadLocked _ hlive hi ht =>
      obtain ⟨_, rfl⟩ := isExited_locked ht
      refine ⟨fun _ => hlive, fun j hlock => ?_⟩
      cases hlock
      exact List.getElem?_set_self (List.getElem?_eq_some_iff.mp hi).1
  | callerLocked _ hlive => exact ⟨fun _ => hlive, fun i hlock => by cases hlock⟩
  | freedPool _ hfree => exact owned_of_unlocked hfree
  | spurious hi => exact h.setThread hi rfl
  | finished hi => exact (h.setThread hi rfl).congr rfl rfl rfl
  | addedWaking | added | refused | shutDown | waits | exits | takes => exact owned_of_unlocked rfl
  | _ => exact h.congr rfl rfl rfl

theorem owned_of_reaches {queue : Nat → α} {others : Nat}
    (h : Reaches step anyAction (start args queue others) s) : s.Owned :=
  invariant_of_stepped h (fun hI hstep => hI.stepped hstep) (owned_start args queue others)

/-! ### The second call -/

/-- Caller `c` has returned and has kept the mutex. `t` is what has become of `s` since then. -/
structure Stuck (c : Nat) (s t : PoolSystem α) : Prop where
  lock : t.lock = some (.caller c)
  outside : ∀ k, t.callers[c]? = some k → Inside.caller k = false
  exclusive : t.Exclusive
  live : t.freed = false
  accepted : t.log.accepted = s.log.accepted
  taken : t.log.taken = s.log.taken
  exited : ∀ i : Nat, t.threads[i]? = some PoolThread.exited ↔ s.threads[i]? = some PoolThread.exited

theorem Stuck.not_inside {t : PoolSystem α} {c d : Nat} {k : PoolCaller α} (h : Stuck c s t)
    (hd : t.callers[d]? = some k) : Inside.caller k = false := by
  refine Bool.eq_false_of_not_eq_true fun hinside => ?_
  have howner := h.exclusive.caller d k hd hinside
  rw [h.lock, Option.some.injEq, PoolAgent.caller.injEq] at howner
  subst howner
  rw [h.outside k hd] at hinside
  cases hinside

theorem Stuck.not_testing {t : PoolSystem α} {c i : Nat} (h : Stuck c s t) :
    t.threads[i]? ≠ some PoolThread.testing := by
  intro hi
  have howner := h.exclusive.thread i _ hi rfl
  rw [h.lock] at howner
  cases howner

theorem exited_set {l : List (PoolThread α)} {i j : Nat} {old t : PoolThread α}
    (hi : l[i]? = some old) (hold : old.isExited = false) (ht : t.isExited = false) :
    (l.set i t)[j]? = some PoolThread.exited ↔ l[j]? = some PoolThread.exited := by
  by_cases hij : i = j
  · subst hij
    rw [List.getElem?_set_self (List.getElem?_eq_some_iff.mp hi).1, hi]
    constructor
    · rintro ⟨⟩
      cases ht
    · rintro ⟨⟩
      cases hold
  · rw [List.getElem?_set_ne hij]

theorem exited_concat {l : List (PoolThread α)} {j : Nat} :
    (l ++ [PoolThread.locking])[j]? = some PoolThread.exited ↔ l[j]? = some PoolThread.exited := by
  rw [List.getElem?_append]
  split_ifs with hlt
  · rfl
  · rw [List.getElem?_eq_none (Nat.le_of_not_lt hlt)]
    refine iff_of_false (fun hj => ?_) (by simp)
    cases List.eq_of_mem_singleton (List.mem_of_getElem? hj)

theorem Stuck.setCaller {t : PoolSystem α} {c d : Nat} {k : PoolCaller α} (h : Stuck c s t)
    (hk : Inside.caller k = false) : Stuck c s (t.setCaller d k) where
  lock := h.lock
  outside k' hk' := by
    rcases Census.getElem?_set_cases hk' with ⟨_, rfl⟩ | ⟨_, hold⟩
    · exact hk
    · exact h.outside k' hold
  exclusive := h.exclusive.setCaller hk
  live := h.live
  accepted := h.accepted
  taken := h.taken
  exited := h.exited

theorem Stuck.stepped {t t' : PoolSystem α} {c : Nat} (h : Stuck c s t) (hstep : Stepped t a t') :
    Stuck c s t' := by
  have hheld : t.lock ≠ none := by simp [h.lock]
  have hexclusive := h.exclusive.stepped hstep
  cases hstep with
  | threadLocked hfree | callerLocked hfree | freedPool _ hfree => exact absurd hfree hheld
  | addedWaking hc | added hc | refused hc | shutDown hc | abandoned hc =>
      cases h.not_inside hc
  | waits hi | exits hi | takes hi => exact absurd hi h.not_testing
  | @created d n =>
      have hmoved : Stuck c s (t.setCaller d (.counting n)) := h.setCaller rfl
      exact ⟨h.lock, hmoved.outside, hexclusive, h.live, h.accepted, h.taken,
        fun j => exited_concat.trans (h.exited j)⟩
  | notCreated | calledAdd | calledDestroy | joined | allJoined | keptPool => exact h.setCaller rfl
  | @counted d n =>
      have hmoved : Stuck c s (t.setCaller d (.creating n)) := h.setCaller rfl
      exact ⟨h.lock, hmoved.outside, hexclusive, h.live, h.accepted, h.taken, h.exited⟩
  | @published d =>
      have hmoved : Stuck c s (t.setCaller d .outside) := h.setCaller rfl
      exact ⟨h.lock, hmoved.outside, hexclusive, h.live, h.accepted, h.taken, h.exited⟩
  | @freedArrays d =>
      have hmoved : Stuck c s (t.setCaller d .relocking) := h.setCaller rfl
      exact ⟨h.lock, hmoved.outside, hexclusive, h.live, h.accepted, h.taken, h.exited⟩
  | spurious hi =>
      exact ⟨h.lock, h.outside, hexclusive, h.live, h.accepted, h.taken,
        fun j => (exited_set hi rfl rfl).trans (h.exited j)⟩
  | finished hi =>
      exact ⟨h.lock, h.outside, hexclusive, h.live, h.accepted, h.taken,
        fun j => (exited_set hi rfl rfl).trans (h.exited j)⟩

/-- **A second shutdown is for ever.** A call of `threadpool_destroy` that finds the pool shutting down
returns with the mutex: from then on no task is accepted or taken, no worker ends, and the first call
never frees the pool. -/
theorem second_destroy_blocks {queue : Nat → α} {others c : Nat} {graceful : Bool}
    {blocked : PoolSystem α} (h : Reaches step anyAction (start args queue others) s)
    (hcall : s.callers[c]? = some (.destroying graceful)) (hshut : s.pool.shutdown ≠ .none)
    (hstep : s.destroy c = some blocked) (hrun : Reaches step anyAction blocked s') :
    s'.lock = some (.caller c) ∧ s'.freed = false
      ∧ s'.log.accepted = s.log.accepted ∧ s'.log.taken = s.log.taken
      ∧ ∀ i : Nat, s'.threads[i]? = some PoolThread.exited ↔ s.threads[i]? = some PoolThread.exited := by
  have hexclusive := exclusive_of_reaches h
  have hlock := hexclusive.caller c _ hcall rfl
  have hlive := (owned_of_reaches h).live (by simp [hlock])
  have hblocked : blocked = s.setCaller c .outside := by
    simpa [destroy, hcall, hshut] using hstep.symm
  have hout : ∀ k, (s.setCaller c .outside).callers[c]? = some k → Inside.caller k = false := by
    intro k hk
    rcases Census.getElem?_set_cases hk with ⟨_, rfl⟩ | ⟨hne, _⟩
    · rfl
    · exact absurd rfl hne
  have hbegin : Stuck c s blocked :=
    hblocked ▸ ⟨hlock, hout, hexclusive.setCaller rfl, hlive, rfl, rfl, fun _ => Iff.rfl⟩
  have hstuck : Stuck c s s' := invariant_of_stepped hrun (fun hI hnext => hI.stepped hnext) hbegin
  exact ⟨hstuck.lock, hstuck.live, hstuck.accepted, hstuck.taken, hstuck.exited⟩

/-- Two callers shut the pool down, one after the other. -/
def closeTwice : List (PoolAction Nat) :=
  [.pthreadCreate 0 true, .countThread 0, .callDestroy 0 true, .callDestroy 1 true,
    .lockMutex (.caller 0), .destroy 0, .lockMutex (.caller 1)]

theorem second_destroy_blocks_closeTwice :
    ∃ s blocked, exec step (start smallPool (fun _ => 0) 1) closeTwice = some s
      ∧ s.destroy 1 = some blocked
      ∧ ∀ s', Reaches step anyAction blocked s' → s'.freed = false := by
  have hclose : (exec step (start smallPool (fun _ => 0) 1) closeTwice).map (fun s =>
      (s.callers[1]?, s.pool.shutdown)) = some (some (.destroying true), .graceful) := rfl
  have hagain : ((exec step (start smallPool (fun _ => 0) 1) closeTwice).bind
      (·.destroy 1)).isSome = true := rfl
  obtain ⟨s, hexec, hs⟩ := Option.map_eq_some_iff.mp hclose
  simp only [Prod.mk.injEq] at hs
  obtain ⟨hcall, hshut⟩ := hs
  rw [hexec, Option.bind_some] at hagain
  obtain ⟨blocked, hstep⟩ := Option.isSome_iff_exists.mp hagain
  refine ⟨s, blocked, hexec, hstep, fun s' hrun => ?_⟩
  exact (second_destroy_blocks (reaches_of_exec hexec) hcall (by simp [hshut]) hstep hrun).2.1

/-! ### The steps that are left -/

/-- A caller comes in from outside. -/
def isCall : PoolAction α → Bool
  | .callAdd _ _ => true
  | .callDestroy _ _ => true
  | _ => false

/-- A sleeping thread wakes up without a cause. -/
def isWake : PoolAction α → Bool
  | .wake _ => true
  | _ => false

def isDestroying : PoolCaller α → Bool
  | .destroyLocking _ => true
  | .destroying _ => true
  | _ => false

def threadRank : PoolThread α → Nat
  | .exited => 0
  | .testing => 1
  | .locking => 2
  | .woken => 2
  | .waiting => 3
  | .running _ => 3

def callerRank (threadCount : Nat) : PoolCaller α → Nat
  | .addLocking _ => 2
  | .adding _ => 1
  | .joining i => (threadCount - i) + 3
  | .freeing => 2
  | .relocking => 1
  | _ => 0

/-- How many steps the threads have left at most while nobody calls. A worker needs three more for each
task that waits. -/
def stepsLeft (s : PoolSystem α) : Nat :=
  3 * s.pool.count + Census.total threadRank s.threads
    + Census.total (callerRank s.pool.threadCount) s.callers

/-- The pool is being shut down by one caller, and nobody has kept the mutex. -/
structure Closing (args : PoolArgs) (s : PoolSystem α) : Prop where
  sound : Sound args s
  owned : s.Owned
  attended : s.Attended
  shut : s.pool.shutdown ≠ .none
  single : ∀ k ∈ s.callers, isDestroying k = false
  held : ∀ c, s.lock = some (.caller c) → ∃ k, s.callers[c]? = some k ∧ Inside.caller k = true
  ends : (∃ k ∈ s.callers, isEnding k = true) ∨ s.freed = true

theorem stepsLeft_setThread {i : Nat} {old t : PoolThread α} (hi : s.threads[i]? = some old)
    (hlt : threadRank t < threadRank old) : (s.setThread i t).stepsLeft < s.stepsLeft := by
  have htotal := Census.total_set threadRank hi t
  simp only [stepsLeft, setThread]
  omega

theorem stepsLeft_setCaller {c : Nat} {old k : PoolCaller α} (hc : s.callers[c]? = some old)
    (hlt : callerRank s.pool.threadCount k < callerRank s.pool.threadCount old) :
    (s.setCaller c k).stepsLeft < s.stepsLeft := by
  have htotal := Census.total_set (callerRank s.pool.threadCount) hc k
  simp only [stepsLeft, setCaller]
  omega

/-- No step but a call makes it more. -/
theorem Closing.stepsLeft_lt (h : Closing args s) (hcall : isCall a = false) (hstep : Stepped s a s') :
    s'.stepsLeft < s.stepsLeft := by
  have hcreating : ∀ {c : Nat} {k : PoolCaller α}, s.callers[c]? = some k → isCreating k ≠ true := by
    intro c k hc hk
    cases k with
    | creating | counting => exact h.shut (h.sound.creation.creating hc hk).2.2.2.2
    | _ => cases hk
  have hsingle : ∀ {c : Nat} {k : PoolCaller α}, s.callers[c]? = some k → isDestroying k ≠ true := by
    intro c k hc
    simp [h.single k (List.mem_of_getElem? hc)]
  cases hstep with
  | created hc | notCreated hc | counted hc | published hc => exact absurd rfl (hcreating hc)
  | calledAdd | calledDestroy => cases hcall
  | addedWaking _ _ hopen | added _ _ hopen | waits _ _ hopen => exact absurd hopen h.shut
  | shutDown hc | abandoned hc => exact absurd rfl (hsingle hc)
  | @threadLocked i t t' _ _ hi ht =>
      have hlt : threadRank t' < threadRank t := by
        cases t <;> cases ht <;> exact Nat.lt_succ_self 1
      exact stepsLeft_setThread hi hlt
  | @callerLocked c k k' _ _ hc hk =>
      cases k with
      | addLocking task =>
          obtain rfl := Option.some.inj hk
          exact stepsLeft_setCaller (k := .adding task) hc (Nat.lt_succ_self 1)
      | destroyLocking => exact absurd rfl (hsingle hc)
      | _ => cases hk
  | refused hc => exact stepsLeft_setCaller (k := .outside) hc (Nat.lt_succ_self 0)
  | joined hc hmore =>
      refine stepsLeft_setCaller hc ?_
      simp only [callerRank]
      omega
  | allJoined hc =>
      refine stepsLeft_setCaller hc ?_
      simp only [callerRank]
      omega
  | keptPool hc => exact stepsLeft_setCaller (k := .outside) hc (Nat.zero_lt_succ 1)
  | freedArrays hc => exact stepsLeft_setCaller (k := .relocking) hc (Nat.lt_succ_self 1)
  | freedPool hc => exact stepsLeft_setCaller (k := .outside) hc (Nat.lt_succ_self 0)
  | exits hi => exact stepsLeft_setThread (t := .exited) hi (Nat.lt_succ_self 0)
  | takes hi hsome =>
      have htotal := Census.total_set threadRank hi (.running (s.pool.queue s.pool.head))
      simp only [threadRank] at htotal
      simp only [stepsLeft, setThread, unlock]
      omega
  | spurious hi => exact stepsLeft_setThread (t := .woken) hi (Nat.lt_succ_self 2)
  | finished hi => exact stepsLeft_setThread (t := .locking) hi (Nat.lt_succ_self 2)

/-! ### The shutdown goes on -/

theorem ends_setCaller {c : Nat} {old k : PoolCaller α} (hc : s.callers[c]? = some old)
    (hkeep : isEnding old = true → isEnding k = true) (h : ∃ k ∈ s.callers, isEnding k = true) :
    ∃ k' ∈ s.callers.set c k, isEnding k' = true := by
  obtain ⟨ender, hmem, hending⟩ := h
  obtain ⟨d, hd⟩ := List.mem_iff_getElem?.mp hmem
  by_cases hcd : c = d
  · subst hcd
    obtain rfl := Option.some.inj (hc.symm.trans hd)
    exact ⟨k, List.mem_of_getElem? (List.getElem?_set_self (List.getElem?_eq_some_iff.mp hc).1),
      hkeep hending⟩
  · exact ⟨ender, List.mem_of_getElem? ((List.getElem?_set_ne hcd).trans hd), hending⟩

theorem Closing.ends_stepped (h : Closing args s) (hstep : Stepped s a s') :
    (∃ k ∈ s'.callers, isEnding k = true) ∨ s'.freed = true := by
  rcases h.ends with hender | hfreed
  case inr =>
    right
    cases hstep <;> first | exact hfreed | rfl
  case inl =>
    cases hstep with
    | freedPool => exact Or.inr rfl
    | keptPool hc hleft =>
        have hall := h.sound.ending.gone (Or.inl (List.mem_of_getElem? hc))
        exact absurd (h.sound.headcount.started_eq_zero hall) (Nat.ne_of_gt hleft)
    | callerLocked _ _ hc hk =>
        refine Or.inl (ends_setCaller hc (fun hending => ?_) hender)
        rw [(isEnding_locked hk).1] at hending
        cases hending
    | joined hc | allJoined hc | freedArrays hc =>
        exact Or.inl (ends_setCaller hc (fun _ => rfl) hender)
    | created hc | notCreated hc | counted hc | published hc | calledAdd hc | calledDestroy hc
    | addedWaking hc | added hc | refused hc | shutDown hc | abandoned hc =>
        exact Or.inl (ends_setCaller hc (fun hending => by cases hending) hender)
    | threadLocked | waits | exits | takes | spurious | finished => exact Or.inl hender

/-- Callers that neither begin nor lock a shutdown. -/
theorem single_setCaller {c : Nat} {k : PoolCaller α} (h : ∀ k ∈ s.callers, isDestroying k = false)
    (hk : isDestroying k = false) : ∀ k' ∈ s.callers.set c k, isDestroying k' = false := by
  intro k' hk'
  rcases Census.mem_set_cases hk' with rfl | hmem
  · exact hk
  · exact h k' hmem

theorem held_setCaller {c : Nat} {old k : PoolCaller α} (hc : s.callers[c]? = some old)
    (hold : Inside.caller old = false)
    (h : ∀ c, s.lock = some (.caller c) → ∃ k, s.callers[c]? = some k ∧ Inside.caller k = true) :
    ∀ d, s.lock = some (.caller d) →
      ∃ k', (s.callers.set c k)[d]? = some k' ∧ Inside.caller k' = true := by
  intro d hlock
  obtain ⟨owner, hd, hinside⟩ := h d hlock
  have hne : c ≠ d := by
    rintro rfl
    obtain rfl := Option.some.inj (hc.symm.trans hd)
    rw [hold] at hinside
    cases hinside
  exact ⟨owner, (List.getElem?_set_ne hne).trans hd, hinside⟩

theorem Closing.stepped (h : Closing args s) (hcall : isCall a = false) (hstep : Stepped s a s') :
    Closing args s' := by
  have hsound := h.sound.stepped hstep
  have howned := h.owned.stepped hstep
  have hattended := h.attended.stepped hstep
  have hshut : s'.pool.shutdown ≠ .none := by
    rw [(hstep.frozen h.shut).shutdown]
    exact h.shut
  have hends := h.ends_stepped hstep
  have hcreating : ∀ {c : Nat} {k : PoolCaller α}, s.callers[c]? = some k → isCreating k ≠ true := by
    intro c k hc hk
    cases k with
    | creating | counting => exact h.shut (h.sound.creation.creating hc hk).2.2.2.2
    | _ => cases hk
  have hsingle : ∀ {c : Nat} {k : PoolCaller α}, s.callers[c]? = some k → isDestroying k ≠ true := by
    intro c k hc
    simp [h.single k (List.mem_of_getElem? hc)]
  cases hstep with
  | created hc | notCreated hc | counted hc | published hc => exact absurd rfl (hcreating hc)
  | calledAdd | calledDestroy => cases hcall
  | addedWaking _ _ hopen | added _ _ hopen | waits _ _ hopen => exact absurd hopen h.shut
  | shutDown hc | abandoned hc => exact absurd rfl (hsingle hc)
  | threadLocked =>
      exact ⟨hsound, howned, hattended, hshut, h.single, fun d hlock => (by cases hlock), hends⟩
  | @callerLocked c k k' _ _ hc hk =>
      cases k with
      | addLocking task =>
          obtain rfl := Option.some.inj hk
          refine ⟨hsound, howned, hattended, hshut, single_setCaller h.single rfl, fun d hlock => ?_,
            hends⟩
          cases hlock
          exact ⟨_, List.getElem?_set_self (List.getElem?_eq_some_iff.mp hc).1, rfl⟩
      | destroyLocking => exact absurd rfl (hsingle hc)
      | _ => cases hk
  | refused hc =>
      exact ⟨hsound, howned, hattended, hshut, single_setCaller h.single rfl,
        fun d hlock => (by cases hlock), hends⟩
  | joined hc | allJoined hc | keptPool hc | freedArrays hc | freedPool hc =>
      exact ⟨hsound, howned, hattended, hshut, single_setCaller h.single rfl,
        held_setCaller hc rfl h.held, hends⟩
  | exits | takes =>
      exact ⟨hsound, howned, hattended, hshut, h.single, fun d hlock => (by cases hlock), hends⟩
  | spurious | finished => exact ⟨hsound, howned, hattended, hshut, h.single, h.held, hends⟩

/-! ### Somebody can go on -/

theorem test_isSome {i : Nat} (hi : s.threads[i]? = some .testing) : (s.test i).isSome = true := by
  simp only [test, hi]
  cases s.pool.turn <;> rfl

/-- After a shutdown nobody sleeps on the condition variable. -/
theorem Closing.awake (h : Closing args s) {t : PoolThread α} (ht : t ∈ s.threads) :
    t.isWaiting = false :=
  Bool.eq_false_of_not_eq_true fun hwaits => h.shut (h.attended.open_of_waiting t ht hwaits)

/-- A thread that has not ended can go on by itself when nobody has the mutex. -/
theorem Closing.exists_step_thread (h : Closing args s) (hfree : s.lock = none)
    (hlive : s.freed = false) {i : Nat} {t : PoolThread α} (hi : s.threads[i]? = some t)
    (ht : t ≠ .exited) : ∃ a, isCall a = false ∧ isWake a = false ∧ (s.step a).isSome = true := by
  have hawake := h.awake (List.mem_of_getElem? hi)
  cases t with
  | locking | woken =>
      refine ⟨.lockMutex (.thread i), rfl, rfl, ?_⟩
      simp [step, lockMutex, hfree, hlive, hi, PoolThread.locked]
  | testing => exact ⟨.test i, rfl, rfl, test_isSome hi⟩
  | waiting => cases hawake
  | running task => exact ⟨.finish i, rfl, rfl, by simp [step, finish, hi]⟩
  | exited => exact absurd rfl ht

/-- The caller that ends the pool can go on when every thread has ended. -/
theorem exists_step_ender (hfree : s.lock = none) (hlength : s.pool.threadCount = s.threads.length)
    (hall : ∀ t ∈ s.threads, t = .exited) {c : Nat} {k : PoolCaller α}
    (hc : s.callers[c]? = some k) (hk : isEnding k = true) :
    ∃ a, isCall a = false ∧ isWake a = false ∧ (s.step a).isSome = true := by
  cases k with
  | joining i =>
      refine ⟨.join c, rfl, rfl, ?_⟩
      by_cases hmore : i < s.pool.threadCount
      · have hi : s.threads[i]? = some .exited := by
          have hlt : i < s.threads.length := hlength ▸ hmore
          rw [List.getElem?_eq_getElem hlt, hall _ (List.getElem_mem hlt)]
        simp [step, join, hc, hmore, hi, PoolThread.isExited]
      · simp [step, join, hc, hmore]
  | freeing =>
      refine ⟨.free c, rfl, rfl, ?_⟩
      simp only [step, free, hc]
      split_ifs <;> rfl
  | relocking => exact ⟨.freePool c, rfl, rfl, by simp [step, freePool, hc, hfree]⟩
  | _ => cases hk

/-- Until the pool is freed somebody can go on, without a call and without a wake-up from nowhere. -/
theorem Closing.exists_step (h : Closing args s) (hlive : s.freed = false) :
    ∃ a, isCall a = false ∧ isWake a = false ∧ (s.step a).isSome = true := by
  have hender := h.ends.resolve_right (by simp [hlive])
  cases hlock : s.lock with
  | some owner =>
      cases owner with
      | thread i => exact ⟨.test i, rfl, rfl, test_isSome (h.owned.thread i hlock)⟩
      | caller c =>
          obtain ⟨k, hc, hinside⟩ := h.held c hlock
          have hsingle := h.single k (List.mem_of_getElem? hc)
          cases k with
          | adding task =>
              refine ⟨.add c none, rfl, rfl, ?_⟩
              have hno : ¬ (s.pool.add task).1 = 0 := by simp [add_accepts_iff, h.shut]
              simp [step, add, hc, hno]
          | destroying => cases hsingle
          | _ => cases hinside
  | none =>
      by_cases hall : ∀ t ∈ s.threads, t = .exited
      · obtain ⟨k, hk, hending⟩ := hender
        obtain ⟨c, hc⟩ := List.mem_iff_getElem?.mp hk
        have hlength := h.sound.headcount.length_eq
        rw [h.sound.creation.no_counting h.shut, Nat.add_zero] at hlength
        exact exists_step_ender hlock hlength.symm hall hc hending
      · push Not at hall
        obtain ⟨t, ht, hne⟩ := hall
        obtain ⟨i, hi⟩ := List.mem_iff_getElem?.mp ht
        exact h.exists_step_thread hlock hlive hi hne

theorem Closing.exec (h : Closing args s) {as : List (PoolAction α)}
    (hcalls : ∀ a ∈ as, isCall a = false) (hexec : Runs.exec step s as = some s') :
    Closing args s' ∧ as.length + s'.stepsLeft ≤ s.stepsLeft := by
  have hallowed : Allowed step (fun _ a => isCall a = false) s as :=
    allowed_of_forall (fun a ha _ => hcalls a ha) s
  have hrun := length_le_of_measure stepsLeft (fun _ => 0)
    (fun _ _ _ hI hcall hstep => ⟨Closing.stepped hI hcall (stepped_of_step hstep),
      Closing.stepsLeft_lt hI hcall (stepped_of_step hstep)⟩) h hallowed hexec
  rwa [spent_zero, Nat.add_zero] at hrun

/-- **A shutdown comes to its end.** While one caller shuts the pool down and nobody else calls, the
threads have only so many steps left, in whatever order they are taken, and no worker sleeps on the
condition variable. Without a wake-up from nowhere they are stopped only when every worker has ended and
the pool is freed. -/
theorem destroy_terminates {queue : Nat → α} {others : Nat}
    (h : Reaches step anyAction (start args queue others) s)
    (hender : ∃ k ∈ s.callers, isEnding k = true) (hsingle : ∀ k ∈ s.callers, isDestroying k = false)
    (hheld : ∀ c, s.lock = some (.caller c) → ∃ k, s.callers[c]? = some k ∧ Inside.caller k = true)
    {as : List (PoolAction α)} (hcalls : ∀ a ∈ as, isCall a = false)
    (hexec : Runs.exec step s as = some s') :
    as.length ≤ s.stepsLeft ∧ (∀ t ∈ s'.threads, t.isWaiting = false)
      ∧ ((∀ a, isCall a = false → isWake a = false → s'.step a = none) →
        s'.freed = true ∧ ∀ t ∈ s'.threads, t = .exited) := by
  have hsound := sound_of_reaches h
  have hclosing : Closing args s :=
    ⟨hsound, owned_of_reaches h, attended_of_reaches h, hsound.ending.shut (Or.inl hender), hsingle,
      hheld, Or.inl hender⟩
  obtain ⟨hclosing', hle⟩ := hclosing.exec hcalls hexec
  refine ⟨by omega, fun t => hclosing'.awake, fun hstopped => ?_⟩
  have hfreed : s'.freed = true := by
    refine Bool.eq_true_of_not_eq_false fun hlive => ?_
    obtain ⟨a, hcall, hself, hsome⟩ := hclosing'.exists_step hlive
    rw [hstopped a hcall hself] at hsome
    cases hsome
  exact ⟨hfreed, hclosing'.sound.ending.gone (Or.inr (Or.inr (Or.inr hfreed)))⟩

theorem destroy_terminates_drainOne :
    ∃ s s', exec step (start smallPool (fun _ => 0) 0) (closeOne ++ [.destroy 0]) = some s
      ∧ exec step s drainOne = some s' ∧ drainOne.length ≤ s.stepsLeft := by
  have hclose : (exec step (start smallPool (fun _ => 0) 0) (closeOne ++ [.destroy 0])).map
      (fun s => (s.callers, s.lock)) = some ([.joining 0], none) := rfl
  have hdrain : ((exec step (start smallPool (fun _ => 0) 0) (closeOne ++ [.destroy 0])).bind
      fun s => exec step s drainOne).isSome = true := rfl
  obtain ⟨s, hexec, hs⟩ := Option.map_eq_some_iff.mp hclose
  simp only [Prod.mk.injEq] at hs
  obtain ⟨hcallers, hlock⟩ := hs
  rw [hexec, Option.bind_some] at hdrain
  obtain ⟨s', hrun⟩ := Option.isSome_iff_exists.mp hdrain
  refine ⟨s, s', hexec, hrun, (destroy_terminates (reaches_of_exec hexec) ?_ ?_ ?_ ?_ hrun).1⟩
  · exact ⟨.joining 0, by simp [hcallers], rfl⟩
  · simp [hcallers, isDestroying]
  · simp [hlock]
  · decide

end PoolSystem

end InstructionParser
