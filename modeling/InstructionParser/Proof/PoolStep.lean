import InstructionParser.Census
import InstructionParser.Runs
import InstructionParser.ThreadPool

/-!
# What a step of the thread pool can do

One constructor for each branch of `threadpool.c` that a thread can take. Every invariant of the pool is
proved over these.
-/

namespace InstructionParser

open Runs

namespace PoolSystem

variable {α : Type} {s s' : PoolSystem α} {a : PoolAction α}

inductive Stepped (s : PoolSystem α) : PoolAction α → PoolSystem α → Prop where
  | created {c n : Nat} (hc : s.callers[c]? = some (.creating n)) :
      Stepped s (.pthreadCreate c true)
        ({ s with threads := s.threads ++ [PoolThread.locking] }.setCaller c (.counting n))
  | notCreated {c n : Nat} (hc : s.callers[c]? = some (.creating n)) :
      Stepped s (.pthreadCreate c false) (s.setCaller c (.destroyLocking false))
  | counted {c n : Nat} (hc : s.callers[c]? = some (.counting n))
      (hmore : s.pool.threadCount + 1 < n) :
      Stepped s (.countThread c)
        ({ s with pool := { s.pool with
            threadCount := s.pool.threadCount + 1
            started := s.pool.started + 1 } }.setCaller c (.creating n))
  | published {c n : Nat} (hc : s.callers[c]? = some (.counting n))
      (hlast : n ≤ s.pool.threadCount + 1) :
      Stepped s (.countThread c)
        ({ s with
          pool := { s.pool with
            threadCount := s.pool.threadCount + 1
            started := s.pool.started + 1 }
          published := true }.setCaller c .outside)
  | calledAdd {c : Nat} {task : α} (hc : s.callers[c]? = some .outside) (hpool : s.published = true)
      (hlive : s.freed = false) : Stepped s (.callAdd c task) (s.setCaller c (.addLocking task))
  | calledDestroy {c : Nat} {graceful : Bool} (hc : s.callers[c]? = some .outside)
      (hpool : s.published = true) (hlive : s.freed = false) :
      Stepped s (.callDestroy c graceful) (s.setCaller c (.destroyLocking graceful))
  | threadLocked {i : Nat} {t t' : PoolThread α} (hfree : s.lock = none) (hlive : s.freed = false)
      (hi : s.threads[i]? = some t) (ht : t.locked = some t') :
      Stepped s (.lockMutex (.thread i)) ({ s with lock := some (.thread i) }.setThread i t')
  | callerLocked {c : Nat} {k k' : PoolCaller α} (hfree : s.lock = none) (hlive : s.freed = false)
      (hc : s.callers[c]? = some k) (hk : k.locked = some k') :
      Stepped s (.lockMutex (.caller c)) ({ s with lock := some (.caller c) }.setCaller c k')
  | addedWaking {c i : Nat} {task : α} (hc : s.callers[c]? = some (.adding task))
      (hroom : s.pool.count ≠ s.pool.queueSize) (hopen : s.pool.shutdown = .none)
      (hi : s.threads[i]? = some .waiting) :
      Stepped s (.add c (some i)) (((s.accept task).setThread i .woken).setCaller c .outside).unlock
  | added {c : Nat} {task : α} (hc : s.callers[c]? = some (.adding task))
      (hroom : s.pool.count ≠ s.pool.queueSize) (hopen : s.pool.shutdown = .none)
      (hnone : ∀ t ∈ s.threads, t.isWaiting = false) :
      Stepped s (.add c none) ((s.accept task).setCaller c .outside).unlock
  | refused {c : Nat} {woken : Option Nat} {task : α} (hc : s.callers[c]? = some (.adding task))
      (hno : s.pool.count = s.pool.queueSize ∨ s.pool.shutdown ≠ .none) :
      Stepped s (.add c woken) (s.setCaller c .outside).unlock
  | shutDown {c : Nat} {graceful : Bool} (hc : s.callers[c]? = some (.destroying graceful))
      (hopen : s.pool.shutdown = .none) :
      Stepped s (.destroy c)
        ({ s with
          pool := { s.pool with shutdown := if graceful then .graceful else .immediate }
          threads := s.threads.map PoolThread.wake }.setCaller c (.joining 0)).unlock
  | abandoned {c : Nat} {graceful : Bool} (hc : s.callers[c]? = some (.destroying graceful))
      (hshut : s.pool.shutdown ≠ .none) : Stepped s (.destroy c) (s.setCaller c .outside)
  | joined {c i : Nat} (hc : s.callers[c]? = some (.joining i)) (hmore : i < s.pool.threadCount)
      (hi : s.threads[i]? = some .exited) : Stepped s (.join c) (s.setCaller c (.joining (i + 1)))
  | allJoined {c i : Nat} (hc : s.callers[c]? = some (.joining i)) (hall : s.pool.threadCount ≤ i) :
      Stepped s (.join c) (s.setCaller c .freeing)
  | keptPool {c : Nat} (hc : s.callers[c]? = some .freeing) (hleft : 0 < s.pool.started) :
      Stepped s (.free c) (s.setCaller c .outside)
  | freedArrays {c : Nat} (hc : s.callers[c]? = some .freeing) (hnone : s.pool.started = 0) :
      Stepped s (.free c) ({ s with arrays := false }.setCaller c .relocking)
  | freedPool {c : Nat} (hc : s.callers[c]? = some .relocking) (hfree : s.lock = none) :
      Stepped s (.freePool c) ({ s with freed := true }.setCaller c .outside)
  | waits {i : Nat} (hi : s.threads[i]? = some .testing) (hempty : s.pool.count = 0)
      (hopen : s.pool.shutdown = .none) : Stepped s (.test i) (s.setThread i .waiting).unlock
  | exits {i : Nat} (hi : s.threads[i]? = some .testing) (hshut : s.pool.shutdown ≠ .none)
      (hdrained : s.pool.shutdown = .graceful → s.pool.count = 0) :
      Stepped s (.test i)
        ({ s with pool := { s.pool with started := s.pool.started - 1 } }.setThread i .exited).unlock
  | takes {i : Nat} (hi : s.threads[i]? = some .testing) (hsome : 0 < s.pool.count)
      (hnot : s.pool.shutdown ≠ .immediate) :
      Stepped s (.test i)
        ({ s with
          pool := { s.pool with
            head := RingBuffer.next s.pool.queueSize s.pool.head
            count := s.pool.count - 1 }
          log := { s.log with taken := s.log.taken ++ [s.pool.queue s.pool.head] } }.setThread i
            (.running (s.pool.queue s.pool.head))).unlock
  | spurious {i : Nat} (hi : s.threads[i]? = some .waiting) :
      Stepped s (.wake i) (s.setThread i .woken)
  | finished {i : Nat} {task : α} (hi : s.threads[i]? = some (.running task)) :
      Stepped s (.finish i)
        ({ s with log := { s.log with finished := s.log.finished ++ [task] } }.setThread i .locking)

/-! ### The branches -/

theorem isWaiting_iff {t : PoolThread α} : t.isWaiting = true ↔ t = .waiting := by
  cases t <;> simp [PoolThread.isWaiting]

theorem isExited_iff {t : PoolThread α} : t.isExited = true ↔ t = .exited := by
  cases t <;> simp [PoolThread.isExited]

theorem getElem?_of_any {β : Type} {l : List β} {i : Nat} {p : β → Bool} {x : β}
    (hp : ∀ {y}, p y = true → y = x) (h : l[i]?.any p = true) : l[i]? = some x := by
  cases hi : l[i]? with
  | none => simp [hi] at h
  | some y =>
      rw [hi, Option.any_some] at h
      rw [hp h]

theorem add_accepts_iff {p : Threadpool α} {task : α} :
    (p.add task).1 = 0 ↔ p.count ≠ p.queueSize ∧ p.shutdown = .none := by
  unfold Threadpool.add
  split_ifs with hfull hshut
  · simp [threadpoolQueueFull, hfull]
  · simp [threadpoolShutdown, hshut]
  · simp [hfull, not_not.mp hshut]

theorem stepped_pthreadCreate {c : Nat} {succeeds : Bool}
    (h : s.pthreadCreate c succeeds = some s') : Stepped s (.pthreadCreate c succeeds) s' := by
  unfold pthreadCreate at h
  split at h
  case h_2 => cases h
  case h_1 n hc =>
    cases succeeds with
    | false =>
        obtain rfl := Option.some.inj h
        exact .notCreated hc
    | true =>
        obtain rfl := Option.some.inj h
        exact .created hc

theorem stepped_countThread {c : Nat} (h : s.countThread c = some s') :
    Stepped s (.countThread c) s' := by
  unfold countThread at h
  split at h
  case h_2 => cases h
  case h_1 n hc =>
    by_cases hmore : s.pool.threadCount + 1 < n
    · rw [if_pos hmore] at h
      obtain rfl := Option.some.inj h
      exact .counted hc hmore
    · rw [if_neg hmore] at h
      obtain rfl := Option.some.inj h
      exact .published hc (Nat.le_of_not_lt hmore)

theorem call_eq_some {c : Nat} {k : PoolCaller α} (h : s.call c k = some s') :
    s.callers[c]? = some .outside ∧ s.published = true ∧ s.freed = false ∧ s' = s.setCaller c k := by
  unfold call at h
  split at h
  case h_2 => cases h
  case h_1 hc =>
    split_ifs at h with hpool
    obtain rfl := Option.some.inj h
    exact ⟨hc, hpool.1, Bool.eq_false_of_not_eq_true hpool.2, rfl⟩

theorem stepped_lockMutex {agent : PoolAgent} (h : s.lockMutex agent = some s') :
    Stepped s (.lockMutex agent) s' := by
  unfold lockMutex at h
  split_ifs at h with hguard
  obtain ⟨hfree, hlive⟩ := hguard
  rw [Bool.not_eq_true] at hlive
  cases agent with
  | thread i =>
      obtain ⟨t', ht', rfl⟩ := Option.map_eq_some_iff.mp h
      obtain ⟨t, hi, ht⟩ := Option.bind_eq_some_iff.mp ht'
      exact .threadLocked hfree hlive hi ht
  | caller c =>
      obtain ⟨k', hk', rfl⟩ := Option.map_eq_some_iff.mp h
      obtain ⟨k, hc, hk⟩ := Option.bind_eq_some_iff.mp hk'
      exact .callerLocked hfree hlive hc hk

theorem stepped_add {c : Nat} {woken : Option Nat} (h : s.add c woken = some s') :
    Stepped s (.add c woken) s' := by
  unfold add at h
  split at h
  case h_2 => cases h
  case h_1 task hc =>
    by_cases haccepts : (s.pool.add task).1 = 0
    · rw [if_pos haccepts] at h
      obtain ⟨hroom, hopen⟩ := add_accepts_iff.mp haccepts
      obtain ⟨signalled, hsignal, rfl⟩ := Option.map_eq_some_iff.mp h
      cases woken with
      | none =>
          simp only [signal] at hsignal
          split_ifs at hsignal with hany
          obtain rfl := Option.some.inj hsignal
          refine .added hc hroom hopen fun t ht => ?_
          rw [List.any_eq_true, not_exists] at hany
          exact Bool.eq_false_of_not_eq_true fun hwaits => hany t ⟨ht, hwaits⟩
      | some i =>
          simp only [signal] at hsignal
          split_ifs at hsignal with hwaits
          obtain rfl := Option.some.inj hsignal
          exact .addedWaking hc hroom hopen (getElem?_of_any isWaiting_iff.mp hwaits)
    · rw [if_neg haccepts] at h
      obtain rfl := Option.some.inj h
      rw [add_accepts_iff, not_and_or, not_not] at haccepts
      exact .refused hc haccepts

theorem stepped_destroy {c : Nat} (h : s.destroy c = some s') : Stepped s (.destroy c) s' := by
  unfold destroy at h
  split at h
  case h_2 => cases h
  case h_1 graceful hc =>
    by_cases hshut : s.pool.shutdown ≠ .none
    · rw [if_pos hshut] at h
      obtain rfl := Option.some.inj h
      exact .abandoned hc hshut
    · rw [if_neg hshut] at h
      obtain rfl := Option.some.inj h
      exact .shutDown hc (not_not.mp hshut)

theorem stepped_join {c : Nat} (h : s.join c = some s') : Stepped s (.join c) s' := by
  unfold join at h
  split at h
  case h_2 => cases h
  case h_1 i hc =>
    by_cases hmore : i < s.pool.threadCount
    · rw [if_pos hmore] at h
      split_ifs at h with hexited
      obtain rfl := Option.some.inj h
      exact .joined hc hmore (getElem?_of_any isExited_iff.mp hexited)
    · rw [if_neg hmore] at h
      obtain rfl := Option.some.inj h
      exact .allJoined hc (Nat.le_of_not_lt hmore)

theorem stepped_free {c : Nat} (h : s.free c = some s') : Stepped s (.free c) s' := by
  unfold free at h
  split at h
  case h_2 => cases h
  case h_1 hc =>
    by_cases hleft : 0 < s.pool.started
    · rw [if_pos hleft] at h
      obtain rfl := Option.some.inj h
      exact .keptPool hc hleft
    · rw [if_neg hleft] at h
      obtain rfl := Option.some.inj h
      exact .freedArrays hc (Nat.eq_zero_of_not_pos hleft)

theorem stepped_freePool {c : Nat} (h : s.freePool c = some s') : Stepped s (.freePool c) s' := by
  unfold freePool at h
  split at h
  case h_2 => cases h
  case h_1 hc =>
    split_ifs at h with hfree
    obtain rfl := Option.some.inj h
    exact .freedPool hc hfree

theorem stepped_test {i : Nat} (h : s.test i = some s') : Stepped s (.test i) s' := by
  unfold test at h
  split at h
  case h_2 => cases h
  case h_1 hi =>
    unfold Threadpool.turn at h
    by_cases hwait : s.pool.count = 0 ∧ s.pool.shutdown = .none
    · rw [if_pos hwait] at h
      obtain rfl := Option.some.inj h
      exact .waits hi hwait.1 hwait.2
    · rw [if_neg hwait] at h
      by_cases hexit : s.pool.shutdown = .immediate ∨ s.pool.shutdown = .graceful ∧ s.pool.count = 0
      · rw [if_pos hexit] at h
        obtain rfl := Option.some.inj h
        refine .exits hi ?_ fun hgraceful => ?_
        · rcases hexit with himmediate | hdrained
          · simp [himmediate]
          · simp [hdrained.1]
        · rcases hexit with himmediate | hdrained
          · simp [himmediate] at hgraceful
          · exact hdrained.2
      · rw [if_neg hexit] at h
        obtain rfl := Option.some.inj h
        rw [not_or, not_and] at hexit
        refine .takes hi (Nat.pos_of_ne_zero fun hzero => ?_) hexit.1
        cases hmode : s.pool.shutdown with
        | none => exact hwait ⟨hzero, hmode⟩
        | immediate => exact hexit.1 hmode
        | graceful => exact hexit.2 hmode hzero

theorem stepped_wake {i : Nat} (h : s.wake i = some s') : Stepped s (.wake i) s' := by
  unfold wake at h
  split at h
  case h_2 => cases h
  case h_1 hi =>
    obtain rfl := Option.some.inj h
    exact .spurious hi

theorem stepped_finish {i : Nat} (h : s.finish i = some s') : Stepped s (.finish i) s' := by
  unfold finish at h
  split at h
  case h_2 => cases h
  case h_1 task hi =>
    obtain rfl := Option.some.inj h
    exact .finished hi

theorem stepped_of_step (h : s.step a = some s') : Stepped s a s' := by
  cases a with
  | pthreadCreate c succeeds => exact stepped_pthreadCreate h
  | countThread c => exact stepped_countThread h
  | callAdd c task =>
      obtain ⟨hc, hpool, hlive, rfl⟩ := call_eq_some h
      exact .calledAdd hc hpool hlive
  | callDestroy c graceful =>
      obtain ⟨hc, hpool, hlive, rfl⟩ := call_eq_some h
      exact .calledDestroy hc hpool hlive
  | lockMutex agent => exact stepped_lockMutex h
  | add c woken => exact stepped_add h
  | destroy c => exact stepped_destroy h
  | join c => exact stepped_join h
  | free c => exact stepped_free h
  | freePool c => exact stepped_freePool h
  | test i => exact stepped_test h
  | wake i => exact stepped_wake h
  | finish i => exact stepped_finish h

/-- What holds at the start and is kept by every branch holds in every state that a run reaches. -/
theorem invariant_of_stepped {I : PoolSystem α → Prop} (h : Reaches step anyAction s s')
    (hkeep : ∀ {s a s'}, I s → Stepped s a s' → I s') (hinit : I s) : I s' :=
  h.invariant (fun _ _ _ hI _ hstep => hkeep hI (stepped_of_step hstep)) hinit

end PoolSystem

end InstructionParser
