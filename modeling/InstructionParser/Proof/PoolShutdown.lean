import InstructionParser.Proof.PoolCreation

/-!
# The end of the thread pool

`threadpool_destroy` frees the pool when every worker has ended. Until then a graceful shutdown has run
every task that was accepted, and an immediate one those that were taken before it.
-/

namespace InstructionParser

open Runs

namespace PoolSystem

variable {α : Type} {s s' : PoolSystem α} {a : PoolAction α} {args : PoolArgs}

/-! ### Counting the threads -/

structure Headcount (s : PoolSystem α) : Prop where
  length_eq : s.threads.length = s.pool.threadCount + Census.count isCounting s.callers
  started_eq : s.pool.started + Census.count isCounting s.callers
    + Census.count PoolThread.isExited s.threads = s.threads.length
  shut_of_exited : ∀ t ∈ s.threads, t.isExited = true → s.pool.shutdown ≠ .none

theorem headcount_start (args : PoolArgs) (queue : Nat → α) (others : Nat) :
    (start args queue others).Headcount := by
  have hzero : Census.count isCounting (start args queue others).callers = 0 := by
    refine Census.count_eq_zero_iff.mpr fun k hk => ?_
    rcases List.mem_cons.mp hk with rfl | hmem
    · rfl
    · obtain rfl := List.eq_of_mem_replicate hmem
      rfl
  exact ⟨by rw [hzero]; rfl, by rw [hzero]; rfl, fun _ ht => absurd ht List.not_mem_nil⟩

theorem Creation.no_counting (h : Creation args s) (hshut : s.pool.shutdown ≠ .none) :
    Census.count isCounting s.callers = 0 := by
  refine Census.count_eq_zero_iff.mpr fun k hk => Bool.eq_false_of_not_eq_true fun hcounting => ?_
  obtain ⟨c, hc⟩ := List.mem_iff_getElem?.mp hk
  cases k with
  | counting n => exact hshut (h.creating hc rfl).2.2.2.2
  | _ => cases hcounting

/-- A caller moves between places of which neither is in the loop that counts. -/
theorem Headcount.setCaller (h : s.Headcount) {c : Nat} {old : PoolCaller α}
    (hc : s.callers[c]? = some old) (k : PoolCaller α) (hsame : isCounting old = isCounting k) :
    (s.setCaller c k).Headcount := by
  have hcount := Census.count_set isCounting hc k
  rw [hsame, Nat.add_right_cancel_iff] at hcount
  refine ⟨?_, ?_, h.shut_of_exited⟩
  · simp only [PoolSystem.setCaller, hcount]
    exact h.length_eq
  · simp only [PoolSystem.setCaller, hcount]
    exact h.started_eq

theorem Headcount.setThread (h : s.Headcount) {i : Nat} {old t : PoolThread α}
    (hi : s.threads[i]? = some old) (hold : old.isExited = false) (ht : t.isExited = false) :
    (s.setThread i t).Headcount := by
  have hcount := Census.count_set PoolThread.isExited hi t
  rw [hold, ht, Nat.add_right_cancel_iff] at hcount
  refine ⟨?_, ?_, fun t' ht' hexited => ?_⟩
  · simp only [PoolSystem.setThread, List.length_set]
    exact h.length_eq
  · simp only [PoolSystem.setThread, List.length_set, hcount]
    exact h.started_eq
  · rcases Census.mem_set_cases ht' with rfl | hmem
    · rw [ht] at hexited
      cases hexited
    · exact h.shut_of_exited t' hmem hexited

structure SameHeadcount (s s' : PoolSystem α) : Prop where
  threads : s'.threads = s.threads
  callers : s'.callers = s.callers
  threadCount : s'.pool.threadCount = s.pool.threadCount
  started : s'.pool.started = s.pool.started
  shutdown : s'.pool.shutdown = s.pool.shutdown

theorem Headcount.congr (h : s.Headcount) (hsame : SameHeadcount s s') : s'.Headcount where
  length_eq := by
    rw [hsame.threads, hsame.callers, hsame.threadCount]
    exact h.length_eq
  started_eq := by
    rw [hsame.threads, hsame.callers, hsame.started]
    exact h.started_eq
  shut_of_exited := by
    rw [hsame.threads, hsame.shutdown]
    exact h.shut_of_exited

theorem sameHeadcount_accept (s : PoolSystem α) (task : α) : SameHeadcount s (s.accept task) :=
  ⟨rfl, rfl, s.pool.add_threadCount task, s.pool.add_started task, s.pool.add_shutdown task⟩

theorem Headcount.addThread (h : s.Headcount) {c n : Nat}
    (hc : s.callers[c]? = some (.creating n)) :
    ({ s with threads := s.threads ++ [PoolThread.locking] }.setCaller c (.counting n)).Headcount := by
  have hcount := Census.count_set isCounting hc (.counting n)
  have hexited := Census.count_concat PoolThread.isExited s.threads .locking
  simp only [isCounting, PoolThread.isExited, Bool.toNat_true, Bool.toNat_false] at hcount hexited
  obtain ⟨hlength, hstarted, hshut⟩ := h
  refine ⟨?_, ?_, fun t ht hexit => ?_⟩
  · simp only [PoolSystem.setCaller, List.length_append, List.length_singleton]
    omega
  · simp only [PoolSystem.setCaller, List.length_append, List.length_singleton]
    omega
  · rcases List.mem_append.mp ht with hmem | hnew
    · exact hshut t hmem hexit
    · obtain rfl := List.eq_of_mem_singleton hnew
      cases hexit

theorem Headcount.countThread (h : s.Headcount) {c n : Nat} {k : PoolCaller α}
    (hc : s.callers[c]? = some (.counting n)) (hk : isCounting k = false) (published : Bool) :
    ({ s with
      pool := { s.pool with
        threadCount := s.pool.threadCount + 1
        started := s.pool.started + 1 }
      published }.setCaller c k).Headcount := by
  have hcount := Census.count_set isCounting hc k
  rw [hk] at hcount
  simp only [isCounting, Bool.toNat_true, Bool.toNat_false] at hcount
  obtain ⟨hlength, hstarted, hshut⟩ := h
  refine ⟨?_, ?_, hshut⟩
  · simp only [PoolSystem.setCaller]
    omega
  · simp only [PoolSystem.setCaller]
    omega

theorem Headcount.wakeAll (h : s.Headcount) (hopen : s.pool.shutdown = .none) (shutdown : Shutdown) :
    ({ s with
      pool := { s.pool with shutdown }
      threads := s.threads.map PoolThread.wake } : PoolSystem α).Headcount := by
  have hexited : ∀ t : PoolThread α, t.wake.isExited = t.isExited := fun t => by cases t <;> rfl
  obtain ⟨hlength, hstarted, hshut⟩ := h
  refine ⟨?_, ?_, fun t ht hexit => ?_⟩
  · simp only [List.length_map]
    exact hlength
  · simp only [List.length_map, Census.count, Census.total_map, hexited]
    exact hstarted
  · obtain ⟨old, hold, rfl⟩ := List.mem_map.mp ht
    rw [hexited] at hexit
    exact absurd hopen (hshut old hold hexit)

/-- `started` counts the worker that ends now. -/
theorem Headcount.exitThread (h : s.Headcount) (hcreation : Creation args s) {i : Nat}
    (hi : s.threads[i]? = some .testing) (hshut : s.pool.shutdown ≠ .none) :
    ({ s with pool := { s.pool with started := s.pool.started - 1 } }.setThread i .exited).Headcount := by
  have hcount := Census.count_set PoolThread.isExited hi .exited
  have hall := Census.count_add_count_not PoolThread.isExited s.threads
  have hleft : 0 < Census.count (fun t => !PoolThread.isExited t) s.threads :=
    Census.count_pos_iff.mpr ⟨_, List.mem_of_getElem? hi, rfl⟩
  have hnone := hcreation.no_counting hshut
  simp only [PoolThread.isExited, Bool.toNat_true, Bool.toNat_false] at hcount
  obtain ⟨hlength, hstarted, _⟩ := h
  refine ⟨?_, ?_, fun _ _ _ => hshut⟩
  · simp only [PoolSystem.setThread, List.length_set]
    exact hlength
  · simp only [PoolSystem.setThread, List.length_set]
    omega

theorem isExited_locked {t t' : PoolThread α} (h : t.locked = some t') :
    t.isExited = false ∧ t' = .testing := by
  cases t <;> simp_all [PoolThread.locked, PoolThread.isExited]

theorem isCounting_locked {k k' : PoolCaller α} (h : k.locked = some k') :
    isCounting k = false ∧ isCounting k' = false := by
  cases k with
  | addLocking | destroyLocking =>
      obtain rfl := Option.some.inj h
      exact ⟨rfl, rfl⟩
  | _ => cases h

theorem Headcount.stepped (h : s.Headcount) (hcreation : Creation args s) (hstep : Stepped s a s') :
    s'.Headcount := by
  cases hstep with
  | created hc => exact h.addThread hc
  | counted hc => exact h.countThread hc rfl s.published
  | published hc => exact h.countThread hc rfl true
  | threadLocked _ _ hi ht =>
      obtain ⟨hlive, rfl⟩ := isExited_locked ht
      exact (h.setThread hi hlive rfl).congr ⟨rfl, rfl, rfl, rfl, rfl⟩
  | callerLocked _ _ hc hk =>
      obtain ⟨hold, hnew⟩ := isCounting_locked hk
      exact (h.setCaller hc _ (hold.trans hnew.symm)).congr ⟨rfl, rfl, rfl, rfl, rfl⟩
  | @addedWaking c i task hc _ _ hi =>
      have haccept := h.congr (sameHeadcount_accept s task)
      have hwoken : ((s.accept task).setThread i .woken).Headcount := haccept.setThread hi rfl rfl
      exact (hwoken.setCaller hc .outside rfl).congr ⟨rfl, rfl, rfl, rfl, rfl⟩
  | @added c task hc =>
      have haccept := h.congr (sameHeadcount_accept s task)
      exact (haccept.setCaller hc .outside rfl).congr ⟨rfl, rfl, rfl, rfl, rfl⟩
  | shutDown hc hopen =>
      exact ((h.wakeAll hopen _).setCaller hc (.joining 0) rfl).congr ⟨rfl, rfl, rfl, rfl, rfl⟩
  | waits hi => exact (h.setThread hi rfl rfl).congr ⟨rfl, rfl, rfl, rfl, rfl⟩
  | exits hi hshut => exact (h.exitThread hcreation hi hshut).congr ⟨rfl, rfl, rfl, rfl, rfl⟩
  | takes hi => exact (h.setThread hi rfl rfl).congr ⟨rfl, rfl, rfl, rfl, rfl⟩
  | spurious hi => exact h.setThread hi rfl rfl
  | finished hi => exact (h.setThread hi rfl rfl).congr ⟨rfl, rfl, rfl, rfl, rfl⟩
  | refused hc => exact (h.setCaller hc .outside rfl).congr ⟨rfl, rfl, rfl, rfl, rfl⟩
  | freedArrays hc => exact (h.setCaller hc .relocking rfl).congr ⟨rfl, rfl, rfl, rfl, rfl⟩
  | freedPool hc => exact (h.setCaller hc .outside rfl).congr ⟨rfl, rfl, rfl, rfl, rfl⟩
  | notCreated hc | calledAdd hc | calledDestroy hc | abandoned hc | joined hc | allJoined hc
  | keptPool hc =>
      exact h.setCaller hc _ rfl

/-! ### The caller that ends the pool -/

def isEnding : PoolCaller α → Bool
  | .joining _ => true
  | .freeing => true
  | .relocking => true
  | _ => false

/-- The joins are over. -/
def Gone (s : PoolSystem α) : Prop :=
  .freeing ∈ s.callers ∨ .relocking ∈ s.callers ∨ s.arrays = false ∨ s.freed = true

structure Ending (s : PoolSystem α) : Prop where
  shut : (∃ k ∈ s.callers, isEnding k = true) ∨ s.Gone → s.pool.shutdown ≠ .none
  joined : ∀ i, .joining i ∈ s.callers → ∀ j < i, ∀ t, s.threads[j]? = some t → t = .exited
  gone : s.Gone → ∀ t ∈ s.threads, t = .exited
  once : Census.count isEnding s.callers + s.freed.toNat ≤ 1
  drained : s.pool.shutdown = .graceful → .exited ∈ s.threads → s.pool.count = 0

theorem ending_start (args : PoolArgs) (queue : Nat → α) (others : Nat) :
    (start args queue others).Ending := by
  have hcallers : ∀ k ∈ (start args queue others).callers, isEnding k = false := by
    intro k hk
    rcases List.mem_cons.mp hk with rfl | hmem
    · rfl
    · obtain rfl := List.eq_of_mem_replicate hmem
      rfl
  refine ⟨?_, fun i hi => absurd (hcallers _ hi) (by simp [isEnding]),
    fun _ _ ht => absurd ht List.not_mem_nil, ?_, fun h => by cases h⟩
  · rintro (⟨k, hk, hending⟩ | hfreeing | hrelocking | harrays | hfreed)
    · rw [hcallers k hk] at hending
      cases hending
    · cases hcallers _ hfreeing
    · cases hcallers _ hrelocking
    · cases harrays
    · cases hfreed
  · rw [Census.count_eq_zero_iff.mpr hcallers]
    exact Nat.zero_le 1

/-- A caller moves between places where it does not end the pool. -/
theorem Ending.setCaller (h : s.Ending) {c : Nat} {old : PoolCaller α}
    (hc : s.callers[c]? = some old) (k : PoolCaller α) (hold : isEnding old = false)
    (hk : isEnding k = false) : (s.setCaller c k).Ending := by
  have hcount := Census.count_set isEnding hc k
  rw [hold, hk, Nat.add_right_cancel_iff] at hcount
  have hmem : ∀ k' ∈ s.callers.set c k, isEnding k' = true → k' ∈ s.callers := by
    intro k' hk' hending
    rcases Census.mem_set_cases hk' with rfl | hmem
    · rw [hk] at hending
      cases hending
    · exact hmem
  have hgone : (s.setCaller c k).Gone → s.Gone := by
    rintro (hfreeing | hrelocking | hrest)
    · exact Or.inl (hmem _ hfreeing rfl)
    · exact Or.inr (Or.inl (hmem _ hrelocking rfl))
    · exact Or.inr (Or.inr hrest)
  refine ⟨?_, fun i hi => h.joined i (hmem _ hi rfl), fun hg => h.gone (hgone hg), ?_, h.drained⟩
  · rintro (⟨k', hk', hending⟩ | hg)
    · exact h.shut (Or.inl ⟨k', hmem k' hk' hending, hending⟩)
    · exact h.shut (Or.inr (hgone hg))
  · simp only [PoolSystem.setCaller, hcount]
    exact h.once

/-- A thread that has not ended moves on. -/
theorem Ending.setThread (h : s.Ending) {i : Nat} {old : PoolThread α}
    (hi : s.threads[i]? = some old) (hold : old.isExited = false) (t : PoolThread α)
    (ht : t.isExited = true → s.pool.shutdown = .graceful → s.pool.count = 0) :
    (s.setThread i t).Ending := by
  have hlive : old ≠ .exited := fun heq => by rw [heq] at hold; cases hold
  refine ⟨h.shut, fun m hm j hj t' ht' => ?_, fun hgone => ?_, h.once, fun hmode hexited => ?_⟩
  · rcases Census.getElem?_set_cases ht' with ⟨rfl, _⟩ | ⟨_, ht'⟩
    · exact absurd (h.joined m hm _ hj old hi) hlive
    · exact h.joined m hm j hj t' ht'
  · exact absurd (h.gone hgone old (List.mem_of_getElem? hi)) hlive
  · rcases Census.mem_set_cases hexited with rfl | hmem
    · exact ht rfl hmode
    · exact h.drained hmode hmem

structure SameEnding (s s' : PoolSystem α) : Prop where
  threads : s'.threads = s.threads
  callers : s'.callers = s.callers
  arrays : s'.arrays = s.arrays
  freed : s'.freed = s.freed
  shutdown : s'.pool.shutdown = s.pool.shutdown
  count : s.pool.shutdown = .graceful → s.pool.count = 0 → s'.pool.count = 0

theorem Ending.congr (h : s.Ending) (hsame : SameEnding s s') : s'.Ending := by
  have hgone : s'.Gone ↔ s.Gone := by
    rw [Gone, hsame.callers, hsame.arrays, hsame.freed, Gone]
  obtain ⟨hshut, hjoined, hall, honce, hdrained⟩ := h
  refine ⟨?_, ?_, ?_, ?_, ?_⟩
  · rw [hsame.callers, hgone, hsame.shutdown]
    exact hshut
  · rw [hsame.callers, hsame.threads]
    exact hjoined
  · rw [hgone, hsame.threads]
    exact hall
  · rw [hsame.callers, hsame.freed]
    exact honce
  · rw [hsame.threads, hsame.shutdown]
    exact fun hmode hexited => hsame.count hmode (hdrained hmode hexited)

theorem sameEnding_accept (hopen : s.pool.shutdown = .none) (task : α) :
    SameEnding s (s.accept task) :=
  ⟨rfl, rfl, rfl, rfl, s.pool.add_shutdown task, fun hmode => by rw [hopen] at hmode; cases hmode⟩

/-- Nobody ends a pool that is not shutting down. -/
theorem Ending.not_ending (h : s.Ending) (hopen : s.pool.shutdown = .none) :
    (∀ k ∈ s.callers, isEnding k = false) ∧ ¬ s.Gone :=
  ⟨fun k hk => Bool.eq_false_of_not_eq_true fun hending => h.shut (Or.inl ⟨k, hk, hending⟩) hopen,
    fun hgone => h.shut (Or.inr hgone) hopen⟩

theorem Ending.addThread (h : s.Ending) (hopen : s.pool.shutdown = .none) :
    ({ s with threads := s.threads ++ [PoolThread.locking] } : PoolSystem α).Ending := by
  obtain ⟨hnone, hnot⟩ := h.not_ending hopen
  refine ⟨h.shut, fun m hm => ?_, fun hgone => absurd hgone hnot, h.once, fun hmode => ?_⟩
  · cases hnone _ hm
  · rw [hopen] at hmode
    cases hmode

theorem Ending.beginShutdown (h : s.Ending) (hhead : s.Headcount) {c : Nat} {graceful : Bool}
    (hc : s.callers[c]? = some (.destroying graceful)) (hopen : s.pool.shutdown = .none) :
    ({ s with
      pool := { s.pool with shutdown := if graceful then .graceful else .immediate }
      threads := s.threads.map PoolThread.wake }.setCaller c (.joining 0)).unlock.Ending := by
  obtain ⟨hnone, hnot⟩ := h.not_ending hopen
  have hmem : ∀ k ∈ s.callers.set c (.joining 0), isEnding k = true → k = .joining 0 := by
    intro k hk hending
    rcases Census.mem_set_cases hk with rfl | hold
    · rfl
    · rw [hnone k hold] at hending
      cases hending
  refine ⟨fun _ => ?_, fun m hm j hj => ?_, fun hgone => ?_, ?_, fun _ hexited => ?_⟩
  · simp only [PoolSystem.setCaller, unlock]
    split_ifs <;> simp
  · cases hmem _ hm rfl
    exact absurd hj (Nat.not_lt_zero j)
  · rcases hgone with hfreeing | hrelocking | hrest
    · cases hmem _ hfreeing rfl
    · cases hmem _ hrelocking rfl
    · exact absurd (Or.inr (Or.inr hrest)) hnot
  · have hcount := Census.count_set isEnding hc (.joining 0)
    have hfreed : s.freed = false := Bool.eq_false_of_not_eq_true fun hfreed =>
      hnot (Or.inr (Or.inr (Or.inr hfreed)))
    rw [Census.count_eq_zero_iff.mpr hnone] at hcount
    simp only [isEnding, Bool.toNat_true, Bool.toNat_false] at hcount
    simp only [PoolSystem.setCaller, unlock, hfreed, Bool.toNat_false]
    omega
  · obtain ⟨old, hold, heq⟩ := List.mem_map.mp hexited
    refine absurd hopen (hhead.shut_of_exited old hold ?_)
    cases old <;> first | rfl | cases heq

theorem Ending.joinNext (h : s.Ending) {c i : Nat} (hc : s.callers[c]? = some (.joining i))
    (hi : s.threads[i]? = some .exited) : (s.setCaller c (.joining (i + 1))).Ending := by
  have hcount := Census.count_set isEnding hc (.joining (i + 1))
  have hshut := h.shut (Or.inl ⟨_, List.mem_of_getElem? hc, rfl⟩)
  have hgone : (s.setCaller c (.joining (i + 1))).Gone → s.Gone := by
    rintro (hfreeing | hrelocking | hrest)
    · exact Or.inl ((Census.mem_set_cases hfreeing).resolve_left (by simp))
    · exact Or.inr (Or.inl ((Census.mem_set_cases hrelocking).resolve_left (by simp)))
    · exact Or.inr (Or.inr hrest)
  refine ⟨fun _ => hshut, fun m hm j hj t ht => ?_, fun hg => h.gone (hgone hg), ?_, h.drained⟩
  · rcases Census.mem_set_cases hm with heq | hold
    · obtain rfl := PoolCaller.joining.inj heq
      rcases Nat.lt_succ_iff_lt_or_eq.mp hj with hlt | rfl
      · exact h.joined i (List.mem_of_getElem? hc) j hlt t ht
      · exact Option.some.inj (ht.symm.trans hi)
    · exact h.joined m hold j hj t ht
  · have honce := h.once
    simp only [isEnding, Bool.toNat_true] at hcount
    simp only [PoolSystem.setCaller]
    omega

/-- The one that ends the pool goes on when all threads have ended. -/
theorem Ending.conclude (h : s.Ending) {c : Nat} {old k : PoolCaller α}
    (hc : s.callers[c]? = some old) (hold : isEnding old = true)
    (hall : ∀ t ∈ s.threads, t = .exited) (arrays freed : Bool)
    (honce : (isEnding k).toNat + freed.toNat = 1 + s.freed.toNat) :
    ({ s with arrays, freed }.setCaller c k).Ending := by
  have hcount := Census.count_set isEnding hc k
  have hshut := h.shut (Or.inl ⟨old, List.mem_of_getElem? hc, hold⟩)
  refine ⟨fun _ => hshut, fun m hm j hj t ht => hall t (List.mem_of_getElem? ht), fun _ => hall, ?_,
    h.drained⟩
  have hbefore := h.once
  rw [hold] at hcount
  simp only [PoolSystem.setCaller, Bool.toNat_true] at hcount ⊢
  omega

/-- When the joins are over, every thread has ended. -/
theorem Ending.all_exited (h : s.Ending) (hhead : s.Headcount) (hcreation : Creation args s)
    {c i : Nat} (hc : s.callers[c]? = some (.joining i)) (hall : s.pool.threadCount ≤ i) :
    ∀ t ∈ s.threads, t = .exited := by
  intro t ht
  have hmem := List.mem_of_getElem? hc
  have hshut := h.shut (Or.inl ⟨_, hmem, rfl⟩)
  have hlength := hhead.length_eq
  rw [hcreation.no_counting hshut] at hlength
  obtain ⟨j, hj⟩ := List.mem_iff_getElem?.mp ht
  have hlt := (List.getElem?_eq_some_iff.mp hj).1
  exact h.joined i hmem j (by omega) t hj

theorem Headcount.started_eq_zero (h : s.Headcount) (hall : ∀ t ∈ s.threads, t = .exited) :
    s.pool.started = 0 := by
  have hcount := Census.count_add_count_not PoolThread.isExited s.threads
  have hnone : Census.count (fun t => !PoolThread.isExited t) s.threads = 0 :=
    Census.count_eq_zero_iff.mpr fun t ht => by rw [hall t ht]; rfl
  have hstarted := h.started_eq
  omega

theorem Ending.live (h : s.Ending) {k : PoolCaller α} (hk : k ∈ s.callers)
    (hending : isEnding k = true) : s.freed = false := by
  have hpos : 0 < Census.count isEnding s.callers := Census.count_pos_iff.mpr ⟨k, hk, hending⟩
  have honce := h.once
  cases hfreed : s.freed with
  | false => rfl
  | true =>
      rw [hfreed, Bool.toNat_true] at honce
      omega

theorem isEnding_locked {k k' : PoolCaller α} (h : k.locked = some k') :
    isEnding k = false ∧ isEnding k' = false := by
  cases k with
  | addLocking | destroyLocking =>
      obtain rfl := Option.some.inj h
      exact ⟨rfl, rfl⟩
  | _ => cases h

theorem Ending.stepped (h : s.Ending) (hhead : s.Headcount) (hcreation : Creation args s)
    (hstep : Stepped s a s') : s'.Ending := by
  cases hstep with
  | created hc =>
      exact (h.addThread (hcreation.creating hc rfl).2.2.2.2).setCaller hc _ rfl rfl
  | counted hc => exact (h.setCaller hc (.creating _) rfl rfl).congr ⟨rfl, rfl, rfl, rfl, rfl, fun _ => id⟩
  | published hc => exact (h.setCaller hc .outside rfl rfl).congr ⟨rfl, rfl, rfl, rfl, rfl, fun _ => id⟩
  | notCreated hc | calledAdd hc | calledDestroy hc | abandoned hc =>
      exact h.setCaller hc _ rfl rfl
  | threadLocked _ _ hi ht =>
      obtain ⟨hlive, rfl⟩ := isExited_locked ht
      exact (h.setThread hi hlive .testing fun hno => by cases hno).congr
        ⟨rfl, rfl, rfl, rfl, rfl, fun _ => id⟩
  | callerLocked _ _ hc hk =>
      obtain ⟨hold, hnew⟩ := isEnding_locked hk
      exact (h.setCaller hc _ hold hnew).congr ⟨rfl, rfl, rfl, rfl, rfl, fun _ => id⟩
  | @addedWaking c i task hc _ hopen hi =>
      have hwoken : ((s.accept task).setThread i .woken).Ending :=
        (h.congr (sameEnding_accept hopen task)).setThread hi rfl .woken fun hno => by cases hno
      exact (hwoken.setCaller hc .outside rfl rfl).congr ⟨rfl, rfl, rfl, rfl, rfl, fun _ => id⟩
  | @added c task hc _ hopen =>
      have haccept := h.congr (sameEnding_accept hopen task)
      exact (haccept.setCaller hc .outside rfl rfl).congr ⟨rfl, rfl, rfl, rfl, rfl, fun _ => id⟩
  | refused hc =>
      exact (h.setCaller hc .outside rfl rfl).congr ⟨rfl, rfl, rfl, rfl, rfl, fun _ => id⟩
  | shutDown hc hopen => exact h.beginShutdown hhead hc hopen
  | joined hc _ hi => exact h.joinNext hc hi
  | allJoined hc hall =>
      exact h.conclude hc rfl (h.all_exited hhead hcreation hc hall) s.arrays s.freed rfl
  | keptPool hc hleft =>
      have hall := h.gone (Or.inl (List.mem_of_getElem? hc))
      exact absurd (hhead.started_eq_zero hall) (Nat.ne_of_gt hleft)
  | freedArrays hc =>
      exact h.conclude hc rfl (h.gone (Or.inl (List.mem_of_getElem? hc))) false s.freed rfl
  | freedPool hc =>
      have hmem := List.mem_of_getElem? hc
      refine h.conclude hc rfl (h.gone (Or.inr (Or.inl hmem))) s.arrays true ?_
      rw [h.live hmem rfl]
      rfl
  | waits hi =>
      exact (h.setThread hi rfl .waiting fun hno => by cases hno).congr
        ⟨rfl, rfl, rfl, rfl, rfl, fun _ => id⟩
  | exits hi hshut hdrained =>
      exact (h.setThread hi rfl .exited fun _ => hdrained).congr ⟨rfl, rfl, rfl, rfl, rfl, fun _ => id⟩
  | takes hi hsome =>
      refine (h.setThread hi rfl (.running _) fun hno => by cases hno).congr
        ⟨rfl, rfl, rfl, rfl, rfl, fun _ hzero => ?_⟩
      exact absurd hzero (Nat.ne_of_gt hsome)
  | spurious hi => exact h.setThread hi rfl .woken fun hno => by cases hno
  | finished hi =>
      exact (h.setThread hi rfl .locking fun hno => by cases hno).congr
        ⟨rfl, rfl, rfl, rfl, rfl, fun _ => id⟩

/-! ### Runs -/

structure Sound (args : PoolArgs) (s : PoolSystem α) : Prop where
  creation : Creation args s
  headcount : s.Headcount
  ending : s.Ending
  accounted : s.Accounted
  exclusive : s.Exclusive

theorem Sound.stepped (h : Sound args s) (hstep : Stepped s a s') : Sound args s' where
  creation := h.creation.stepped
    (fun hfreeing => h.headcount.started_eq_zero (h.ending.gone (Or.inl hfreeing))) hstep
  headcount := h.headcount.stepped h.creation hstep
  ending := h.ending.stepped h.headcount h.creation hstep
  accounted := h.accounted.stepped hstep
  exclusive := h.exclusive.stepped hstep

theorem sound_of_reaches {queue : Nat → α} {others : Nat}
    (h : Reaches step anyAction (start args queue others) s) : Sound args s :=
  invariant_of_stepped h (fun hI hstep => hI.stepped hstep)
    ⟨creation_start args queue others, headcount_start args queue others,
      ending_start args queue others, accounted_start args queue others,
      exclusive_start args queue others⟩

/-- What does not change any more when the pool shuts down. -/
structure Frozen (s s' : PoolSystem α) : Prop where
  shutdown : s'.pool.shutdown = s.pool.shutdown
  accepted : s'.log.accepted = s.log.accepted
  taken : s.pool.shutdown = .immediate → s'.log.taken = s.log.taken

theorem Stepped.frozen (h : Stepped s a s') (hshut : s.pool.shutdown ≠ .none) : Frozen s s' := by
  cases h with
  | addedWaking _ _ hopen | added _ _ hopen | shutDown _ hopen => exact absurd hopen hshut
  | takes _ _ hnot => exact ⟨rfl, rfl, fun himmediate => absurd himmediate hnot⟩
  | _ => exact ⟨rfl, rfl, fun _ => rfl⟩

theorem frozen_of_reaches (h : Reaches step anyAction s s') (hshut : s.pool.shutdown ≠ .none) :
    Frozen s s' := by
  refine invariant_of_stepped (I := Frozen s) h (fun {t a t'} hfrozen hstep => ?_)
    ⟨rfl, rfl, fun _ => rfl⟩
  have hnext := hstep.frozen (hfrozen.shutdown.symm ▸ hshut)
  exact ⟨hnext.shutdown.trans hfrozen.shutdown, hnext.accepted.trans hfrozen.accepted,
    fun himmediate => (hnext.taken (hfrozen.shutdown.trans himmediate)).trans
      (hfrozen.taken himmediate)⟩

/-- One thread and room for one task. -/
def smallPool : PoolArgs where
  threadCount := 1
  queueSize := 1
  threadCount_pos := by decide
  threadCount_le := by decide
  queueSize_pos := by decide
  queueSize_le := by decide

/-- The pool is created, and one caller adds a task. -/
def addOne : List (PoolAction Nat) :=
  [.pthreadCreate 0 true, .countThread 0, .callAdd 0 7, .lockMutex (.caller 0), .add 0 none]

/-! ### The tasks -/

/-- **Each task once, in order.** The accepted tasks are those that were taken and behind them those in
the ring, of which there are never more than the ring has slots; a task that was taken is finished or is
being run. -/
theorem tasks_once_inOrder {queue : Nat → α} {others : Nat}
    (h : Reaches step anyAction (start args queue others) s) :
    s.log.accepted = s.log.taken ++ s.pool.tasks ∧ s.pool.tasks.length ≤ args.queueSize
      ∧ s.log.taken.Perm (s.log.finished ++ s.running) := by
  have hsound := sound_of_reaches h
  refine ⟨hsound.accounted.accepted_eq, ?_, hsound.accounted.taken_perm⟩
  rw [Threadpool.tasks_length, ← hsound.creation.queueSize_eq]
  exact hsound.accounted.wellFormed.count_le

theorem tasks_once_inOrder_one :
    ∃ s, exec step (start smallPool (fun _ => 0) 0) addOne = some s
      ∧ [7] = s.log.taken ++ s.pool.tasks := by
  have hrun : (exec step (start smallPool (fun _ => 0) 0) addOne).map (·.log.accepted) = some [7] :=
    rfl
  obtain ⟨s, hexec, haccepted⟩ := Option.map_eq_some_iff.mp hrun
  exact ⟨s, hexec, haccepted ▸ (tasks_once_inOrder (reaches_of_exec hexec)).1⟩

/-- **No worker sleeps through a task.** While a worker waits for the condition, the pool is not
shutting down, and for each task in the ring there is another worker on its way to take it. -/
theorem sleepers_attended {queue : Nat → α} {others : Nat}
    (h : Reaches step anyAction (start args queue others) s)
    (hsleeps : ∃ t ∈ s.threads, t.isWaiting = true) :
    s.pool.shutdown = .none ∧ s.pool.tasks.length ≤ Census.count isReady s.threads := by
  have hattended := attended_of_reaches h
  obtain ⟨t, ht, hwaits⟩ := hsleeps
  rw [Threadpool.tasks_length]
  exact ⟨hattended.open_of_waiting t ht hwaits,
    hattended.count_le (Census.count_pos_iff.mpr ⟨t, ht, hwaits⟩)⟩

/-- Two workers wait when a task is added; one of them is woken. -/
def wakeOne : List (PoolAction Nat) :=
  [.pthreadCreate 0 true, .countThread 0, .pthreadCreate 0 true, .countThread 0,
    .lockMutex (.thread 0), .test 0, .lockMutex (.thread 1), .test 1,
    .callAdd 0 7, .lockMutex (.caller 0), .add 0 (some 1)]

theorem sleepers_attended_wakeOne :
    ∃ s, exec step (start { smallPool with
        threadCount := 2, threadCount_pos := by decide, threadCount_le := by decide } (fun _ => 0) 0)
        wakeOne = some s
      ∧ s.pool.tasks.length ≤ Census.count isReady s.threads := by
  have hrun : (exec step (start { smallPool with
      threadCount := 2, threadCount_pos := by decide, threadCount_le := by decide } (fun _ => 0) 0)
      wakeOne).map (fun s => s.threads[0]?) = some (some .waiting) := rfl
  obtain ⟨s, hexec, hthread⟩ := Option.map_eq_some_iff.mp hrun
  exact ⟨s, hexec,
    (sleepers_attended (reaches_of_exec hexec) ⟨_, List.mem_of_getElem? hthread, rfl⟩).2⟩

/-! ### What `threadpool_create` and `threadpool_destroy` achieve -/

theorem running_of_all_exited (hall : ∀ t ∈ s.threads, t = .exited) : s.running = [] :=
  List.filterMap_eq_nil_iff.mpr fun t ht => by rw [hall t ht]; rfl

theorem Sound.threads_length (h : Sound args s) (hpool : s.published = true) :
    s.threads.length = args.threadCount := by
  have hnone : Census.count isCounting s.callers = 0 := by
    refine Census.count_eq_zero_iff.mpr fun k hk => ?_
    have hk := h.creation.settled hpool k hk
    cases k <;> first | rfl | cases hk
  rw [h.headcount.length_eq, hnone, h.creation.threadCount_eq hpool, Nat.add_zero]

/-- **All threads or none.** The pool that `threadpool_create` returns has all its threads, and none of
them ends before a shutdown; when it returns the null pointer, every thread that it has started has
ended and the pool is freed. -/
theorem create_allOrNothing {queue : Nat → α} {others : Nat}
    (h : Reaches step anyAction (start args queue others) s) :
    (s.published = true → s.threads.length = args.threadCount
      ∧ (s.pool.shutdown = .none →
        s.pool.started = args.threadCount ∧ ∀ t ∈ s.threads, t.isExited = false))
      ∧ (s.published = false → s.log.accepted = []
        ∧ (s.callers[0]? = some .outside → s.freed = true ∧ ∀ t ∈ s.threads, t = .exited)) := by
  have hsound := sound_of_reaches h
  refine ⟨fun hpool => ?_, fun hnew => ⟨hsound.creation.nothing hnew, fun hout => ?_⟩⟩
  · have hlength := hsound.threads_length hpool
    refine ⟨hlength, fun hopen => ?_⟩
    have hlive : ∀ t ∈ s.threads, t.isExited = false := fun t ht =>
      Bool.eq_false_of_not_eq_true fun hexited => hsound.headcount.shut_of_exited t ht hexited hopen
    have hcount := hsound.headcount.length_eq
    have hstarted := hsound.headcount.started_eq
    rw [Census.count_eq_zero_iff.mpr hlive] at hstarted
    have hthreads := hsound.creation.threadCount_eq hpool
    exact ⟨by omega, hlive⟩
  · have hfreed : s.freed = true := hsound.creation.creator hnew _ hout
    exact ⟨hfreed, hsound.ending.gone (Or.inr (Or.inr (Or.inr hfreed)))⟩

theorem Sound.drained (h : Sound args s) (hmode : s.pool.shutdown = .graceful)
    (hall : ∀ t ∈ s.threads, t = .exited) : s.pool.tasks = [] := by
  have hlength := h.threads_length (h.creation.graceful_published hmode)
  have hpos : 0 < s.threads.length := hlength ▸ args.threadCount_pos
  obtain ⟨t, ht⟩ := List.exists_mem_of_length_pos hpos
  have hexited : .exited ∈ s.threads := hall t ht ▸ ht
  rw [← List.length_eq_zero_iff, Threadpool.tasks_length, h.ending.drained hmode hexited]

theorem destroy_eq {c : Nat} {graceful : Bool} (hcall : s.callers[c]? = some (.destroying graceful))
    (hopen : s.pool.shutdown = .none) :
    s.destroy c = some ({ s with
      pool := { s.pool with shutdown := if graceful then .graceful else .immediate }
      threads := s.threads.map PoolThread.wake }.setCaller c (.joining 0)).unlock := by
  simp [destroy, hcall, hopen]

/-- **What a shutdown leaves.** When the pool is freed after a call of `threadpool_destroy`, all workers
have ended, and finished are all tasks accepted before the call, or those taken before it when the
shutdown is immediate. -/
theorem destroy_outcome {queue : Nat → α} {others c : Nat} {graceful : Bool} {closing : PoolSystem α}
    (h : Reaches step anyAction (start args queue others) s)
    (hcall : s.callers[c]? = some (.destroying graceful)) (hopen : s.pool.shutdown = .none)
    (hstep : s.destroy c = some closing) (hrun : Reaches step anyAction closing s')
    (hfreed : s'.freed = true) :
    (∀ t ∈ s'.threads, t = .exited) ∧ s'.log.accepted = s.log.accepted
      ∧ s'.log.finished.Perm (if graceful then s.log.accepted else s.log.taken) := by
  have hsound' : Sound args s' :=
    invariant_of_stepped hrun (fun hI hnext => hI.stepped hnext)
      ((sound_of_reaches h).stepped (stepped_destroy hstep))
  have hall := hsound'.ending.gone (Or.inr (Or.inr (Or.inr hfreed)))
  have hmode : closing.pool.shutdown = if graceful then .graceful else .immediate := by
    rw [destroy_eq hcall hopen] at hstep
    obtain rfl := Option.some.inj hstep
    rfl
  have hlog : closing.log = s.log := by
    rw [destroy_eq hcall hopen] at hstep
    obtain rfl := Option.some.inj hstep
    rfl
  have hfrozen := frozen_of_reaches hrun (by rw [hmode]; split_ifs <;> simp)
  have htaken := hsound'.accounted.taken_perm
  rw [running_of_all_exited hall, List.append_nil] at htaken
  refine ⟨hall, hlog ▸ hfrozen.accepted, ?_⟩
  cases graceful with
  | false => exact htaken.symm.trans (.of_eq (hlog ▸ hfrozen.taken hmode))
  | true =>
      have hempty := hsound'.drained (hfrozen.shutdown.trans hmode) hall
      have haccepted := hsound'.accounted.accepted_eq
      rw [hempty, List.append_nil] at haccepted
      exact htaken.symm.trans (.of_eq (haccepted.symm.trans (hlog ▸ hfrozen.accepted)))

theorem create_allOrNothing_one :
    ∃ s, exec step (start smallPool (fun _ => 0) 0) addOne = some s ∧ s.threads.length = 1 := by
  have hrun : (exec step (start smallPool (fun _ => 0) 0) addOne).map (·.published) = some true := rfl
  obtain ⟨s, hexec, hpool⟩ := Option.map_eq_some_iff.mp hrun
  exact ⟨s, hexec, ((create_allOrNothing (reaches_of_exec hexec)).1 hpool).1⟩

/-- A caller shuts the pool down gracefully while its task waits; the worker runs the task and ends. -/
def drainOne : List (PoolAction Nat) :=
  [.lockMutex (.thread 0), .test 0, .finish 0, .lockMutex (.thread 0), .test 0, .join 0, .join 0,
    .free 0, .freePool 0]

def closeOne : List (PoolAction Nat) := addOne ++ [.callDestroy 0 true, .lockMutex (.caller 0)]

theorem destroy_outcome_drainOne :
    ∃ s closing s', exec step (start smallPool (fun _ => 0) 0) closeOne = some s
      ∧ s.destroy 0 = some closing ∧ exec step closing drainOne = some s'
      ∧ s'.log.finished.Perm [7] := by
  have hclose : (exec step (start smallPool (fun _ => 0) 0) closeOne).map (fun s =>
      (s.callers[0]?, s.pool.shutdown, s.log.accepted))
        = some (some (.destroying true), .none, [7]) := rfl
  have hdrain : ((exec step (start smallPool (fun _ => 0) 0) closeOne).bind fun s =>
      (s.destroy 0).bind fun closing => (exec step closing drainOne).map (·.freed)) = some true := rfl
  obtain ⟨s, hexec, hs⟩ := Option.map_eq_some_iff.mp hclose
  simp only [Prod.mk.injEq] at hs
  obtain ⟨hcall, hopen, haccepted⟩ := hs
  rw [hexec, Option.bind_some] at hdrain
  obtain ⟨closing, hstep, hdrain⟩ := Option.bind_eq_some_iff.mp hdrain
  obtain ⟨s', hrun, hfreed⟩ := Option.map_eq_some_iff.mp hdrain
  have houtcome := destroy_outcome (reaches_of_exec hexec) hcall hopen hstep (reaches_of_exec hrun)
    hfreed
  exact ⟨s, closing, s', hexec, hstep, hrun, haccepted ▸ houtcome.2.2⟩

end PoolSystem

end InstructionParser
