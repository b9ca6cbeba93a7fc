import InstructionParser.Proof.PoolTermination

/-!
# An open pool runs what it is given

A pool that is not shutting down comes to rest: each call of `threadpool_add` makes for so many steps
of the threads at most, each wake-up that nobody asked for makes for three, and while a task waits or is
run some thread can go on.
-/

namespace InstructionParser

open Runs

namespace PoolSystem

variable {α : Type} {s s' : PoolSystem α} {a : PoolAction α} {args : PoolArgs} {n : Nat}

/-! ### Pools that are open -/

/-- While the pool is open, a caller that has the mutex is about to give it back. -/
def Held (s : PoolSystem α) : Prop :=
  s.pool.shutdown = .none →
    ∀ c, s.lock = some (.caller c) → ∃ k, s.callers[c]? = some k ∧ Inside.caller k = true

theorem Held.stepped (h : s.Held) (hstep : Stepped s a s') : s'.Held := by
  intro hopen'
  have hopen : s.pool.shutdown = .none := by
    by_contra hshut
    exact hshut ((hstep.frozen hshut).shutdown.symm.trans hopen')
  have hheld := h hopen
  cases hstep with
  | created hc | notCreated hc | counted hc | published hc | calledAdd hc | calledDestroy hc
  | joined hc | allJoined hc | keptPool hc | freedArrays hc | freedPool hc =>
      exact held_setCaller hc rfl hheld
  | @callerLocked c k k' _ _ hc hk =>
      intro d hlock
      cases hlock
      refine ⟨k', List.getElem?_set_self (List.getElem?_eq_some_iff.mp hc).1, ?_⟩
      cases k with
      | addLocking | destroyLocking =>
          obtain rfl := Option.some.inj hk
          rfl
      | _ => cases hk
  | abandoned _ hshut => exact absurd hopen hshut
  | threadLocked | addedWaking | added | refused | shutDown | waits | exits | takes =>
      intro d hlock
      cases hlock
  | spurious | finished => exact hheld

theorem held_of_reaches {queue : Nat → α} {others : Nat}
    (h : Reaches step anyAction (start args queue others) s) : s.Held := by
  refine invariant_of_stepped h (fun hI hstep => hI.stepped hstep) ?_
  intro _ c hlock
  cases hlock

/-- The pool is there, and nobody shuts it down. -/
structure Serving (args : PoolArgs) (s : PoolSystem α) : Prop where
  sound : Sound args s
  attended : s.Attended
  owned : s.Owned
  held : s.Held
  published : s.published = true
  opened : s.pool.shutdown = .none
  single : ∀ k ∈ s.callers, isDestroying k = false

theorem serving_of_reaches {queue : Nat → α} {others : Nat}
    (h : Reaches step anyAction (start args queue others) s) (hpool : s.published = true)
    (hopen : s.pool.shutdown = .none) (hsingle : ∀ k ∈ s.callers, isDestroying k = false) :
    Serving args s :=
  ⟨sound_of_reaches h, attended_of_reaches h, owned_of_reaches h, held_of_reaches h, hpool, hopen,
    hsingle⟩

def isDestroy : PoolAction α → Bool
  | .callDestroy _ _ => true
  | _ => false

/-- A caller of a pool that is served neither creates the pool nor ends it. -/
theorem Serving.caller_cases (h : Serving args s) {k : PoolCaller α} (hk : k ∈ s.callers) :
    k = .outside ∨ (∃ task, k = .addLocking task) ∨ ∃ task, k = .adding task := by
  have hcreating := h.sound.creation.settled h.published k hk
  have hending := (h.sound.ending.not_ending h.opened).1 k hk
  have hdestroying := h.single k hk
  cases k with
  | outside => exact Or.inl rfl
  | addLocking task => exact Or.inr (Or.inl ⟨task, rfl⟩)
  | adding task => exact Or.inr (Or.inr ⟨task, rfl⟩)
  | creating | counting => cases hcreating
  | destroyLocking | destroying => cases hdestroying
  | joining | freeing | relocking => cases hending

theorem Serving.not_exited (h : Serving args s) {t : PoolThread α} (ht : t ∈ s.threads) :
    t ≠ .exited := by
  rintro rfl
  exact h.sound.headcount.shut_of_exited _ ht rfl h.opened

theorem Serving.stepped (h : Serving args s) (hno : isDestroy a = false) (hstep : Stepped s a s') :
    Serving args s' := by
  have hsound := h.sound.stepped hstep
  have hattended := h.attended.stepped hstep
  have howned := h.owned.stepped hstep
  have hheld := h.held.stepped hstep
  have hno_end : ∀ {c : Nat} {k : PoolCaller α}, s.callers[c]? = some k →
      k = .outside ∨ (∃ task, k = .addLocking task) ∨ ∃ task, k = .adding task :=
    fun hc => h.caller_cases (List.mem_of_getElem? hc)
  cases hstep with
  | created hc | notCreated hc | counted hc | published hc | shutDown hc | abandoned hc | joined hc
  | allJoined hc | keptPool hc | freedArrays hc | freedPool hc =>
      obtain heq | ⟨_, heq⟩ | ⟨_, heq⟩ := hno_end hc <;> cases heq
  | calledDestroy => cases hno
  | calledAdd | refused =>
      exact ⟨hsound, hattended, howned, hheld, h.published, h.opened, single_setCaller h.single rfl⟩
  | @callerLocked c k k' _ _ hc hk =>
      refine ⟨hsound, hattended, howned, hheld, h.published, h.opened, single_setCaller h.single ?_⟩
      obtain rfl | ⟨_, rfl⟩ | ⟨_, rfl⟩ := hno_end hc
      · cases hk
      · obtain rfl := Option.some.inj hk
        rfl
      · cases hk
  | @addedWaking c i task | @added c task =>
      exact ⟨hsound, hattended, howned, hheld, h.published, (s.pool.add_shutdown task).trans h.opened,
        single_setCaller h.single rfl⟩
  | threadLocked | waits | exits | takes | spurious | finished =>
      exact ⟨hsound, hattended, howned, hheld, h.published, h.opened, h.single⟩

/-! ### The steps that a task makes for -/

def threadPace : PoolThread α → Nat
  | .exited => 0
  | .waiting => 0
  | .testing => 1
  | .locking => 2
  | .woken => 2
  | .running _ => 3

/-- A caller that adds a task will have woken a thread for it. -/
def callerPace (n : Nat) : PoolCaller α → Nat
  | .addLocking _ => n + 7
  | .adding _ => n + 6
  | _ => 0

/-- How many steps are left at most when running a task takes `n` steps more than its return. -/
def work (n : Nat) (s : PoolSystem α) : Nat :=
  (n + 3) * s.pool.count + Census.total threadPace s.threads + Census.total (callerPace n) s.callers

/-- By how much an action of the callers, or a wake-up without a cause, lets the work grow. -/
def cost (n : Nat) : PoolAction α → Nat
  | .callAdd _ _ => n + 8
  | .wake _ => 3
  | _ => 0

theorem work_setThread {i : Nat} {old : PoolThread α} (hi : s.threads[i]? = some old)
    (t : PoolThread α) :
    (s.setThread i t).work n + threadPace old = s.work n + threadPace t := by
  have htotal := Census.total_set threadPace hi t
  simp only [work, setThread]
  omega

theorem work_setCaller {c : Nat} {old : PoolCaller α} (hc : s.callers[c]? = some old)
    (k : PoolCaller α) :
    (s.setCaller c k).work n + callerPace n old = s.work n + callerPace n k := by
  have htotal := Census.total_set (callerPace n) hc k
  simp only [work, setCaller]
  omega

theorem work_accept (hroom : s.pool.count ≠ s.pool.queueSize) (hopen : s.pool.shutdown = .none)
    (task : α) : (s.accept task).work n = s.work n + (n + 3) := by
  have hcount : (s.accept task).pool.count = s.pool.count + 1 :=
    congrArg Threadpool.count (Threadpool.add_of_room hroom hopen task)
  have hrest : (s.accept task).work n = (n + 3) * (s.pool.count + 1)
      + Census.total threadPace s.threads + Census.total (callerPace n) s.callers := by
    rw [← hcount]
    rfl
  rw [hrest, Nat.mul_succ, work]
  omega

/-- A worker takes the oldest task out of the ring. -/
def take (s : PoolSystem α) : PoolSystem α :=
  { s with
    pool := s.pool.popped
    log := { s.log with taken := s.log.taken ++ [s.pool.queue s.pool.head] } }

theorem work_take (hsome : 0 < s.pool.count) : s.take.work n + (n + 3) = s.work n := by
  obtain ⟨rest, hcount⟩ := Nat.exists_eq_succ_of_ne_zero (Nat.ne_of_gt hsome)
  have htaken : s.take.work n = (n + 3) * (s.pool.count - 1) + Census.total threadPace s.threads
      + Census.total (callerPace n) s.callers := rfl
  rw [htaken, work, hcount, Nat.mul_succ, Nat.succ_sub_one]
  omega

/-- A step takes one from the work, and `n` more when it takes a task, but for what it costs. -/
theorem Serving.work_stepped (h : Serving args s) (hno : isDestroy a = false) (hstep : Stepped s a s') :
    s'.work n + n * s'.log.taken.length + 1 ≤ s.work n + n * s.log.taken.length + cost n a := by
  have hno_end : ∀ {c : Nat} {k : PoolCaller α}, s.callers[c]? = some k →
      k = .outside ∨ (∃ task, k = .addLocking task) ∨ ∃ task, k = .adding task :=
    fun hc => h.caller_cases (List.mem_of_getElem? hc)
  cases hstep with
  | created hc | notCreated hc | counted hc | published hc | shutDown hc | abandoned hc | joined hc
  | allJoined hc | keptPool hc | freedArrays hc | freedPool hc =>
      obtain heq | ⟨_, heq⟩ | ⟨_, heq⟩ := hno_end hc <;> cases heq
  | calledDestroy => cases hno
  | @calledAdd c task hc =>
      have hmoved := work_setCaller (n := n) hc (.addLocking task)
      simp only [callerPace] at hmoved
      simp only [setCaller, cost] at hmoved ⊢
      omega
  | @threadLocked i t t' _ _ hi ht =>
      have hmoved := work_setThread (n := n) hi t'
      have hpace : threadPace t = 2 ∧ threadPace t' = 1 := by
        cases t <;> cases ht <;> exact ⟨rfl, rfl⟩
      change (s.setThread i t').work n + n * s.log.taken.length + 1 ≤ _
      omega
  | @callerLocked c k k' _ _ hc hk =>
      have hmoved := work_setCaller (n := n) hc k'
      have hpace : callerPace n k = n + 7 ∧ callerPace n k' = n + 6 := by
        obtain rfl | ⟨_, rfl⟩ | ⟨_, rfl⟩ := hno_end hc <;> cases hk
        exact ⟨rfl, rfl⟩
      change (s.setCaller c k').work n + n * s.log.taken.length + 1 ≤ _
      omega
  | @addedWaking c i task hc hroom hopen hi =>
      have haccepted := work_accept (n := n) hroom hopen task
      have hwoken := work_setThread (n := n) (s := s.accept task) hi .woken
      have hmoved := work_setCaller (n := n) (s := (s.accept task).setThread i .woken) hc .outside
      simp only [threadPace, callerPace] at hwoken hmoved
      change (((s.accept task).setThread i .woken).setCaller c .outside).work n
        + n * s.log.taken.length + 1 ≤ _
      omega
  | @added c task hc hroom hopen =>
      have haccepted := work_accept (n := n) hroom hopen task
      have hmoved := work_setCaller (n := n) (s := s.accept task) hc .outside
      simp only [callerPace] at hmoved
      change ((s.accept task).setCaller c .outside).work n + n * s.log.taken.length + 1 ≤ _
      omega
  | @refused c _ task hc =>
      have hmoved := work_setCaller (n := n) hc .outside
      simp only [callerPace] at hmoved
      change (s.setCaller c .outside).work n + n * s.log.taken.length + 1 ≤ _
      omega
  | @waits i hi =>
      have hmoved := work_setThread (n := n) hi .waiting
      simp only [threadPace] at hmoved
      change (s.setThread i .waiting).work n + n * s.log.taken.length + 1 ≤ _
      omega
  | exits _ hshut => exact absurd h.opened hshut
  | @takes i hi hsome =>
      have hmoved := work_setThread (n := n) (s := s.take) hi (.running (s.pool.queue s.pool.head))
      have htaken := work_take (n := n) hsome
      simp only [threadPace] at hmoved
      change (s.take.setThread i (.running (s.pool.queue s.pool.head))).work n
        + n * (s.log.taken ++ [s.pool.queue s.pool.head]).length + 1 ≤ _
      rw [List.length_append, List.length_singleton, Nat.mul_succ]
      omega
  | @spurious i hi =>
      have hmoved := work_setThread (n := n) hi .woken
      simp only [threadPace] at hmoved
      change (s.setThread i .woken).work n + n * s.log.taken.length + 1 ≤ _ + 3
      omega
  | @finished i task hi =>
      have hmoved := work_setThread (n := n) hi .locking
      simp only [threadPace] at hmoved
      change (s.setThread i .locking).work n + n * s.log.taken.length + 1 ≤ _
      omega

/-! ### Somebody can go on -/

/-- Nothing to do: no task waits or is run, and nobody is inside the pool. -/
structure Resting (s : PoolSystem α) : Prop where
  empty : s.pool.tasks = []
  asleep : ∀ t ∈ s.threads, t = .waiting
  alone : ∀ k ∈ s.callers, k = .outside

/-- The steps of the threads inside the pool. -/
def isInside : PoolAction α → Bool
  | .lockMutex _ => true
  | .add _ _ => true
  | .test _ => true
  | _ => false

theorem exists_add {c : Nat} {task : α} (hc : s.callers[c]? = some (.adding task)) :
    ∃ woken, (s.add c woken).isSome = true := by
  by_cases hroom : (s.pool.add task).1 = 0
  · by_cases hany : s.threads.any PoolThread.isWaiting = true
    · obtain ⟨t, ht, hwaits⟩ := List.any_eq_true.mp hany
      obtain ⟨i, hi⟩ := List.mem_iff_getElem?.mp ht
      have hi : (s.accept task).threads[i]? = some t := hi
      exact ⟨some i, by simp [add, hc, hroom, signal, hi, hwaits]⟩
    · have hnone : (s.accept task).threads.any PoolThread.isWaiting = false :=
        Bool.eq_false_of_not_eq_true hany
      exact ⟨none, by simp [add, hc, hroom, signal, hnone]⟩
  · exact ⟨none, by simp [add, hc, hroom]⟩

theorem Serving.exists_holder (h : Serving args s) {owner : PoolAgent} (hlock : s.lock = some owner) :
    ∃ a, isInside a = true ∧ (s.step a).isSome = true := by
  cases owner with
  | thread i => exact ⟨.test i, rfl, test_isSome (h.owned.thread i hlock)⟩
  | caller c =>
      obtain ⟨k, hc, hinside⟩ := h.held h.opened c hlock
      obtain rfl | ⟨task, rfl⟩ | ⟨task, rfl⟩ := h.caller_cases (List.mem_of_getElem? hc)
      · cases hinside
      · cases hinside
      · obtain ⟨woken, hsome⟩ := exists_add hc
        exact ⟨.add c woken, rfl, hsome⟩

/-- Every sleeping thread has nothing to do when nobody is awake. -/
theorem Serving.empty_of_asleep (h : Serving args s) (hall : ∀ t ∈ s.threads, t = .waiting) :
    s.pool.tasks = [] := by
  have hlength := h.sound.threads_length h.published
  have hpos : 0 < s.threads.length := hlength ▸ args.threadCount_pos
  obtain ⟨t, ht⟩ := List.exists_mem_of_length_pos hpos
  have hsleeps : 0 < Census.count PoolThread.isWaiting s.threads :=
    Census.count_pos_iff.mpr ⟨t, ht, by rw [hall t ht]; rfl⟩
  have hready : Census.count isReady s.threads = 0 :=
    Census.count_eq_zero_iff.mpr fun t ht => by rw [hall t ht]; rfl
  have hcount := h.attended.count_le hsleeps
  rw [← List.length_eq_zero_iff, Threadpool.tasks_length]
  omega

/-- A task is being run, or a thread inside the pool can go on, or there is nothing to do. -/
theorem Serving.progress (h : Serving args s) :
    s.Resting ∨ (∃ (i : Nat) (task : α), s.threads[i]? = some (.running task))
      ∨ ∃ a, isInside a = true ∧ (s.step a).isSome = true := by
  cases hlock : s.lock with
  | some owner => exact Or.inr (Or.inr (h.exists_holder hlock))
  | none =>
      have hlive : s.freed = false := Bool.eq_false_of_not_eq_true fun hfreed =>
        (h.sound.ending.not_ending h.opened).2 (Or.inr (Or.inr (Or.inr hfreed)))
      by_cases hall : ∀ t ∈ s.threads, t = .waiting
      · by_cases hout : ∀ k ∈ s.callers, k = .outside
        · exact Or.inl ⟨h.empty_of_asleep hall, hall, hout⟩
        · push Not at hout
          obtain ⟨k, hk, hne⟩ := hout
          obtain ⟨c, hc⟩ := List.mem_iff_getElem?.mp hk
          obtain rfl | ⟨task, rfl⟩ | ⟨task, rfl⟩ := h.caller_cases hk
          · exact absurd rfl hne
          · refine Or.inr (Or.inr ⟨.lockMutex (.caller c), rfl, ?_⟩)
            simp [step, lockMutex, hlock, hlive, hc, PoolCaller.locked]
          · have howner := h.sound.exclusive.caller c _ hc rfl
            rw [hlock] at howner
            cases howner
      · push Not at hall
        obtain ⟨t, ht, hne⟩ := hall
        obtain ⟨i, hi⟩ := List.mem_iff_getElem?.mp ht
        cases t with
        | waiting => exact absurd rfl hne
        | exited => exact absurd rfl (h.not_exited ht)
        | running task => exact Or.inr (Or.inl ⟨i, task, hi⟩)
        | locking | woken =>
            refine Or.inr (Or.inr ⟨.lockMutex (.thread i), rfl, ?_⟩)
            simp [step, lockMutex, hlock, hlive, hi, PoolThread.locked]
        | testing =>
            have howner := h.sound.exclusive.thread i _ hi rfl
            rw [hlock] at howner
            cases howner

/-- At rest every accepted task has been run to its end. -/
theorem Resting.finished (h : s.Resting) (haccounted : s.Accounted) :
    s.log.finished.Perm s.log.accepted := by
  have hnone : s.running = [] :=
    List.filterMap_eq_nil_iff.mpr fun t ht => by rw [h.asleep t ht]; rfl
  have htaken := haccounted.taken_perm
  rw [hnone, List.append_nil] at htaken
  rw [haccounted.accepted_eq, h.empty, List.append_nil]
  exact htaken.symm

/-- **An open pool runs what it is given.** While nobody shuts the pool down, the threads take only so
many steps, in whatever order: eight at most for each further call of `threadpool_add` and three for
each wake-up without a cause. They are stopped only when every accepted task has been run to its end and
every worker sleeps. -/
theorem drains {queue : Nat → α} {others : Nat}
    (h : Reaches step anyAction (start args queue others) s) (hpool : s.published = true)
    (hopen : s.pool.shutdown = .none) (hsingle : ∀ k ∈ s.callers, isDestroying k = false)
    {as : List (PoolAction α)} (hno : ∀ a ∈ as, isDestroy a = false)
    (hexec : exec step s as = some s') :
    as.length ≤ s.work 0 + spent (cost 0) as
      ∧ ((∀ a, cost 0 a = 0 → isDestroy a = false → s'.step a = none) →
        s'.Resting ∧ s'.log.finished.Perm s'.log.accepted) := by
  have hallowed : Allowed step (fun _ a => isDestroy a = false) s as :=
    allowed_of_forall (fun a ha _ => hno a ha) s
  obtain ⟨hserving, hlength⟩ := length_le_of_measure (work 0) (cost 0)
    (fun _ a _ hI hok hstep => ⟨hI.stepped hok (stepped_of_step hstep), by
      simpa using hI.work_stepped (n := 0) hok (stepped_of_step hstep)⟩)
    (serving_of_reaches h hpool hopen hsingle) hallowed hexec
  refine ⟨Nat.le_of_add_right_le hlength, fun hstopped => ?_⟩
  have hresting : s'.Resting := by
    obtain hresting | ⟨i, task, hi⟩ | ⟨a, hinside, hsome⟩ := hserving.progress
    · exact hresting
    · have hnone := hstopped (.finish i) rfl rfl
      simp [step, finish, hi] at hnone
    · have hfree : cost 0 a = 0 ∧ isDestroy a = false := by
        cases a <;> cases hinside <;> exact ⟨rfl, rfl⟩
      rw [hstopped a hfree.1 hfree.2] at hsome
      cases hsome
  exact ⟨hresting, hresting.finished hserving.sound.accounted⟩

def createOne : List (PoolAction Nat) := [.pthreadCreate 0 true, .countThread 0]

/-- One worker runs one task and sleeps. -/
def runOne : List (PoolAction Nat) :=
  [.callAdd 0 7, .lockMutex (.caller 0), .add 0 none, .lockMutex (.thread 0), .test 0, .finish 0,
    .lockMutex (.thread 0), .test 0]

theorem drains_runOne :
    ∃ s s', exec step (start smallPool (fun _ => 0) 0) createOne = some s
      ∧ exec step s runOne = some s' ∧ runOne.length ≤ s.work 0 + spent (cost 0) runOne := by
  have hcreate : (exec step (start smallPool (fun _ => 0) 0) createOne).map
      (fun s => (s.published, s.pool.shutdown, s.callers)) = some (true, .none, [.outside]) := rfl
  have hruns : ((exec step (start smallPool (fun _ => 0) 0) createOne).bind
      fun s => exec step s runOne).isSome = true := rfl
  obtain ⟨s, hexec, hs⟩ := Option.map_eq_some_iff.mp hcreate
  simp only [Prod.mk.injEq] at hs
  obtain ⟨hpool, hopen, hcallers⟩ := hs
  rw [hexec, Option.bind_some] at hruns
  obtain ⟨s', hrun⟩ := Option.isSome_iff_exists.mp hruns
  refine ⟨s, s', hexec, hrun, (drains (reaches_of_exec hexec) hpool hopen ?_ ?_ hrun).1⟩
  · simp [hcallers, isDestroying]
  · decide

end PoolSystem

end InstructionParser
