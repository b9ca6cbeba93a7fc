import InstructionParser.Proof.PoolStep

/-!
# The tasks of the thread pool

Every task that the pool has accepted is taken by one worker, in the order in which the tasks were
accepted, and no worker sleeps while there is a task that no other worker is on its way to.
-/

namespace InstructionParser

open Runs

namespace Threadpool

variable {α : Type} {p : Threadpool α}

structure WellFormed (p : Threadpool α) : Prop where
  head_lt : p.head < p.queueSize
  count_le : p.count ≤ p.queueSize
  tail_eq : p.tail = (p.head + p.count) % p.queueSize

@[simp]
theorem tasks_length (p : Threadpool α) : p.tasks.length = p.count := RingBuffer.held_length

theorem add_of_room (hroom : p.count ≠ p.queueSize) (hopen : p.shutdown = .none) (task : α) :
    (p.add task).2 = { p with
      queue := Function.update p.queue p.tail task
      tail := RingBuffer.next p.queueSize p.tail
      count := p.count + 1 } := by
  simp [add, hroom, hopen]

@[simp]
theorem add_threadCount (p : Threadpool α) (task : α) :
    (p.add task).2.threadCount = p.threadCount := by
  unfold add
  split_ifs <;> rfl

@[simp]
theorem add_queueSize (p : Threadpool α) (task : α) : (p.add task).2.queueSize = p.queueSize := by
  unfold add
  split_ifs <;> rfl

@[simp]
theorem add_shutdown (p : Threadpool α) (task : α) : (p.add task).2.shutdown = p.shutdown := by
  unfold add
  split_ifs <;> rfl

@[simp]
theorem add_started (p : Threadpool α) (task : α) : (p.add task).2.started = p.started := by
  unfold add
  split_ifs <;> rfl

theorem WellFormed.add (h : p.WellFormed) (hroom : p.count ≠ p.queueSize)
    (hopen : p.shutdown = .none) (task : α) : (p.add task).2.WellFormed := by
  have hlt : p.count < p.queueSize := Nat.lt_of_le_of_ne h.count_le hroom
  have htail : p.tail < p.queueSize := by
    rw [h.tail_eq]
    exact Nat.mod_lt _ (Nat.zero_lt_of_lt hlt)
  rw [add_of_room hroom hopen]
  refine ⟨h.head_lt, hlt, ?_⟩
  calc RingBuffer.next p.queueSize p.tail = (p.tail + 1) % p.queueSize :=
        RingBuffer.next_eq_mod htail
    _ = (p.head + (p.count + 1)) % p.queueSize := by rw [h.tail_eq, Nat.mod_add_mod, Nat.add_assoc]

theorem WellFormed.tasks_add (h : p.WellFormed) (hroom : p.count ≠ p.queueSize)
    (hopen : p.shutdown = .none) (task : α) : (p.add task).2.tasks = p.tasks ++ [task] := by
  rw [add_of_room hroom hopen, tasks, tasks, h.tail_eq]
  exact RingBuffer.held_push (Nat.lt_of_le_of_ne h.count_le hroom) task

/-- The pool without its oldest task. -/
def popped (p : Threadpool α) : Threadpool α :=
  { p with head := RingBuffer.next p.queueSize p.head, count := p.count - 1 }

theorem WellFormed.popped (h : p.WellFormed) (hsome : 0 < p.count) : p.popped.WellFormed := by
  refine ⟨RingBuffer.next_lt h.head_lt, Nat.le_trans (Nat.sub_le _ _) h.count_le, ?_⟩
  calc p.tail = (p.head + 1 + (p.count - 1)) % p.queueSize := by
        rw [h.tail_eq]
        congr 1
        omega
    _ = (RingBuffer.next p.queueSize p.head + (p.count - 1)) % p.queueSize := by
        rw [RingBuffer.next_eq_mod h.head_lt, Nat.mod_add_mod]

theorem WellFormed.tasks_popped (h : p.WellFormed) (hsome : 0 < p.count) :
    p.tasks = p.queue p.head :: p.popped.tasks := by
  obtain ⟨k, hk⟩ := Nat.exists_eq_add_of_lt hsome
  rw [Nat.zero_add] at hk
  rw [tasks, hk, RingBuffer.held_pop h.head_lt, tasks, Threadpool.popped, hk]
  rfl

end Threadpool

namespace PoolSystem

variable {α : Type} {s s' : PoolSystem α} {a : PoolAction α}

/-- The tasks that are being run. -/
def running (s : PoolSystem α) : List α := s.threads.filterMap PoolThread.task?

/-- Where the accepted tasks are: taken in the order in which they were accepted, or still in the ring;
and taken ones are finished or are being run. -/
structure Accounted (s : PoolSystem α) : Prop where
  wellFormed : s.pool.WellFormed
  accepted_eq : s.log.accepted = s.log.taken ++ s.pool.tasks
  taken_perm : s.log.taken.Perm (s.log.finished ++ s.running)

theorem accounted_start (args : PoolArgs) (queue : Nat → α) (others : Nat) :
    (start args queue others).Accounted :=
  ⟨⟨args.queueSize_pos, Nat.zero_le _, (Nat.mod_eq_of_lt args.queueSize_pos).symm⟩, rfl,
    List.Perm.refl _⟩

theorem running_setThread {i : Nat} {old : PoolThread α} (hi : s.threads[i]? = some old)
    (new : PoolThread α) :
    ((s.setThread i new).running ++ old.task?.toList).Perm (s.running ++ new.task?.toList) :=
  Census.filterMap_set_perm _ hi new

/-- A thread that runs no task before and after its step. -/
theorem running_of_idle {i : Nat} {old new : PoolThread α} (hi : s.threads[i]? = some old)
    (hold : old.task? = none) (hnew : new.task? = none) :
    (s.setThread i new).running.Perm s.running := by
  simpa [hold, hnew] using running_setThread hi new

theorem task?_locked {t t' : PoolThread α} (h : t.locked = some t') :
    t.task? = none ∧ t' = .testing := by
  cases t <;> simp_all [PoolThread.locked, PoolThread.task?]

theorem running_created (s : PoolSystem α) :
    ({ s with threads := s.threads ++ [PoolThread.locking] } : PoolSystem α).running = s.running := by
  rw [running, List.filterMap_append, running]
  exact List.append_nil _

theorem running_wake (l : List (PoolThread α)) :
    (l.map PoolThread.wake).filterMap PoolThread.task? = l.filterMap PoolThread.task? := by
  rw [List.filterMap_map]
  refine List.filterMap_congr fun t _ => ?_
  cases t <;> rfl

theorem accepted_accept (h : s.Accounted) {task : α} (hroom : s.pool.count ≠ s.pool.queueSize)
    (hopen : s.pool.shutdown = .none) :
    (s.accept task).log.accepted = s.log.taken ++ (s.pool.add task).2.tasks := by
  rw [h.wellFormed.tasks_add hroom hopen, ← List.append_assoc, ← h.accepted_eq]
  rfl

theorem taken_finish {task : α} {i : Nat} (hi : s.threads[i]? = some (.running task))
    (h : s.log.taken.Perm (s.log.finished ++ s.running)) :
    s.log.taken.Perm (s.log.finished ++ [task] ++ (s.setThread i .locking).running) := by
  have hmoved : ((s.setThread i .locking).running ++ [task]).Perm (s.running ++ []) :=
    running_setThread hi _
  rw [List.append_nil] at hmoved
  rw [List.append_assoc]
  exact h.trans ((hmoved.symm.trans List.perm_append_comm).append_left _)

theorem Accounted.take (h : s.Accounted) {i : Nat} (hi : s.threads[i]? = some .testing) {task : α} :
    (s.log.taken ++ [task]).Perm (s.log.finished ++ (s.setThread i (.running task)).running) := by
  have hmoved : ((s.setThread i (.running task)).running ++ []).Perm (s.running ++ [task]) :=
    running_setThread hi _
  rw [List.append_nil] at hmoved
  calc s.log.taken ++ [task] |>.Perm (s.log.finished ++ s.running ++ [task]) :=
        h.taken_perm.append_right _
    _ = s.log.finished ++ (s.running ++ [task]) := List.append_assoc ..
    _ |>.Perm (s.log.finished ++ (s.setThread i (.running task)).running) := hmoved.symm.append_left _

theorem Accounted.stepped (h : s.Accounted) (hstep : Stepped s a s') : s'.Accounted := by
  obtain ⟨hwell, haccepted, htaken⟩ := h
  cases hstep with
  | created hc => exact ⟨hwell, haccepted, (running_created s).symm ▸ htaken⟩
  | threadLocked _ _ hi ht =>
      obtain ⟨hidle, rfl⟩ := task?_locked ht
      exact ⟨hwell, haccepted, htaken.trans ((running_of_idle hi hidle rfl).symm.append_left _)⟩
  | addedWaking hc hroom hopen hi =>
      exact ⟨hwell.add hroom hopen _, accepted_accept ⟨hwell, haccepted, htaken⟩ hroom hopen,
        htaken.trans ((running_of_idle hi rfl rfl).symm.append_left _)⟩
  | added hc hroom hopen hnone =>
      exact ⟨hwell.add hroom hopen _, accepted_accept ⟨hwell, haccepted, htaken⟩ hroom hopen, htaken⟩
  | shutDown hc hopen =>
      exact ⟨⟨hwell.1, hwell.2, hwell.3⟩, haccepted,
        htaken.trans (.of_eq (congrArg _ (running_wake s.threads).symm))⟩
  | waits hi =>
      exact ⟨hwell, haccepted, htaken.trans ((running_of_idle hi rfl rfl).symm.append_left _)⟩
  | exits hi =>
      exact ⟨⟨hwell.1, hwell.2, hwell.3⟩, haccepted,
        htaken.trans ((running_of_idle hi rfl rfl).symm.append_left _)⟩
  | takes hi hsome hnot =>
      refine ⟨hwell.popped hsome, ?_, Accounted.take ⟨hwell, haccepted, htaken⟩ hi⟩
      rw [hwell.tasks_popped hsome] at haccepted
      exact haccepted.trans (List.append_cons ..)
  | spurious hi =>
      exact ⟨hwell, haccepted, htaken.trans ((running_of_idle hi rfl rfl).symm.append_left _)⟩
  | finished hi => exact ⟨hwell, haccepted, taken_finish hi htaken⟩
  | counted | published => exact ⟨⟨hwell.1, hwell.2, hwell.3⟩, haccepted, htaken⟩
  | _ => exact ⟨hwell, haccepted, htaken⟩

theorem accounted_of_reaches {args : PoolArgs} {queue : Nat → α} {others : Nat}
    (h : Reaches step anyAction (start args queue others) s) : s.Accounted :=
  invariant_of_stepped h (fun hI hstep => hI.stepped hstep) (accounted_start args queue others)

/-! ### The mutex -/

namespace Inside

/-- Between lock and unlock. -/
def thread : PoolThread α → Bool
  | .testing => true
  | _ => false

def caller : PoolCaller α → Bool
  | .adding _ => true
  | .destroying _ => true
  | _ => false

end Inside

/-- Whoever is between lock and unlock has the mutex. -/
structure Exclusive (s : PoolSystem α) : Prop where
  thread : ∀ i t, s.threads[i]? = some t → Inside.thread t = true → s.lock = some (.thread i)
  caller : ∀ c k, s.callers[c]? = some k → Inside.caller k = true → s.lock = some (.caller c)

theorem exclusive_start (args : PoolArgs) (queue : Nat → α) (others : Nat) :
    (start args queue others).Exclusive := by
  refine ⟨fun i t hi => absurd hi (by simp [start]), fun c k hc hk => ?_⟩
  rcases List.mem_cons.mp (List.mem_of_getElem? hc) with rfl | hmem
  · cases hk
  · obtain rfl := List.eq_of_mem_replicate hmem
    cases hk

/-- A thread moves to a place outside while it has no mutex, or comes inside with the mutex. -/
theorem Exclusive.setThread (h : s.Exclusive) {i : Nat} {t : PoolThread α}
    (ht : Inside.thread t = false) : (s.setThread i t).Exclusive := by
  refine ⟨fun j t' hj hinside => ?_, h.caller⟩
  rcases Census.getElem?_set_cases hj with ⟨_, rfl⟩ | ⟨_, hold⟩
  · rw [ht] at hinside
    cases hinside
  · exact h.thread j t' hold hinside

theorem Exclusive.setCaller (h : s.Exclusive) {c : Nat} {k : PoolCaller α}
    (hk : Inside.caller k = false) : (s.setCaller c k).Exclusive := by
  refine ⟨h.thread, fun d k' hd hinside => ?_⟩
  rcases Census.getElem?_set_cases hd with ⟨_, rfl⟩ | ⟨_, hold⟩
  · rw [hk] at hinside
    cases hinside
  · exact h.caller d k' hold hinside

/-- Nobody is inside when the one who has the mutex has moved out. -/
theorem Exclusive.unlockThread (h : s.Exclusive) {i : Nat} {old t : PoolThread α}
    (hi : s.threads[i]? = some old) (hold : Inside.thread old = true)
    (ht : Inside.thread t = false) : (s.setThread i t).unlock.Exclusive := by
  have hlock := h.thread i old hi hold
  refine ⟨fun j t' hj hinside => ?_, fun d k hd hinside => ?_⟩
  · rcases Census.getElem?_set_cases hj with ⟨_, rfl⟩ | ⟨hne, hj⟩
    · rw [ht] at hinside
      cases hinside
    · have hother := h.thread j t' hj hinside
      rw [hlock] at hother
      exact absurd (by simpa using hother.symm) hne
  · have hother := h.caller d k hd hinside
    rw [hlock] at hother
    cases hother

theorem Exclusive.unlockCaller (h : s.Exclusive) {c : Nat} {old k : PoolCaller α}
    (hc : s.callers[c]? = some old) (hold : Inside.caller old = true)
    (hk : Inside.caller k = false) : (s.setCaller c k).unlock.Exclusive := by
  have hlock := h.caller c old hc hold
  refine ⟨fun j t hj hinside => ?_, fun d k' hd hinside => ?_⟩
  · have hother := h.thread j t hj hinside
    rw [hlock] at hother
    cases hother
  · rcases Census.getElem?_set_cases hd with ⟨_, rfl⟩ | ⟨hne, hd⟩
    · rw [hk] at hinside
      cases hinside
    · have hother := h.caller d k' hd hinside
      rw [hlock] at hother
      exact absurd (by simpa using hother.symm) hne

theorem Exclusive.lockThread (h : s.Exclusive) (hfree : s.lock = none) {i : Nat}
    (t : PoolThread α) : ({ s with lock := some (.thread i) }.setThread i t).Exclusive := by
  refine ⟨fun j t' hj hinside => ?_, fun d k hd hinside => ?_⟩
  · rcases Census.getElem?_set_cases hj with ⟨rfl, _⟩ | ⟨_, hold⟩
    · rfl
    · have hother := h.thread j t' hold hinside
      rw [hfree] at hother
      cases hother
  · have hother := h.caller d k hd hinside
    rw [hfree] at hother
    cases hother

theorem Exclusive.lockCaller (h : s.Exclusive) (hfree : s.lock = none) {c : Nat}
    (k : PoolCaller α) : ({ s with lock := some (.caller c) }.setCaller c k).Exclusive := by
  refine ⟨fun j t hj hinside => ?_, fun d k' hd hinside => ?_⟩
  · have hother := h.thread j t hj hinside
    rw [hfree] at hother
    cases hother
  · rcases Census.getElem?_set_cases hd with ⟨rfl, _⟩ | ⟨_, hold⟩
    · rfl
    · have hother := h.caller d k' hold hinside
      rw [hfree] at hother
      cases hother

theorem Exclusive.addThread (h : s.Exclusive) :
    ({ s with threads := s.threads ++ [PoolThread.locking] } : PoolSystem α).Exclusive := by
  refine ⟨fun j t hj hinside => ?_, h.caller⟩
  rw [List.getElem?_append] at hj
  split_ifs at hj
  · exact h.thread j t hj hinside
  · obtain rfl := List.eq_of_mem_singleton (List.mem_of_getElem? hj)
    cases hinside

theorem Exclusive.wakeAll (h : s.Exclusive) :
    ({ s with threads := s.threads.map PoolThread.wake } : PoolSystem α).Exclusive := by
  refine ⟨fun j t hj hinside => ?_, h.caller⟩
  rw [List.getElem?_map] at hj
  obtain ⟨old, hold, rfl⟩ := Option.map_eq_some_iff.mp hj
  exact h.thread j old hold (by cases old <;> exact hinside)

/-- Only the mutex, the threads and the callers matter. -/
theorem Exclusive.congr (h : s.Exclusive) (hlock : s'.lock = s.lock)
    (hthreads : s'.threads = s.threads) (hcallers : s'.callers = s.callers) : s'.Exclusive := by
  refine ⟨?_, ?_⟩
  · rw [hthreads, hlock]
    exact h.thread
  · rw [hcallers, hlock]
    exact h.caller

theorem Exclusive.stepped (h : s.Exclusive) (hstep : Stepped s a s') : s'.Exclusive := by
  cases hstep with
  | created hc => exact h.addThread.setCaller rfl
  | notCreated hc => exact h.setCaller rfl
  | counted hc => exact (h.setCaller rfl).congr rfl rfl rfl
  | published hc => exact (h.setCaller rfl).congr rfl rfl rfl
  | calledAdd hc => exact h.setCaller rfl
  | calledDestroy hc => exact h.setCaller rfl
  | threadLocked hfree _ hi ht => exact h.lockThread hfree _
  | callerLocked hfree _ hc hk => exact h.lockCaller hfree _
  | addedWaking hc _ _ hi =>
      exact ((h.setThread rfl).unlockCaller hc rfl rfl).congr rfl rfl rfl
  | added hc => exact (h.unlockCaller hc rfl rfl).congr rfl rfl rfl
  | refused hc => exact h.unlockCaller hc rfl rfl
  | shutDown hc => exact (h.wakeAll.unlockCaller hc rfl rfl).congr rfl rfl rfl
  | abandoned hc => exact h.setCaller rfl
  | joined hc => exact h.setCaller rfl
  | allJoined hc => exact h.setCaller rfl
  | keptPool hc => exact h.setCaller rfl
  | freedArrays hc => exact (h.setCaller rfl).congr rfl rfl rfl
  | freedPool hc => exact (h.setCaller rfl).congr rfl rfl rfl
  | waits hi => exact h.unlockThread hi rfl rfl
  | exits hi => exact (h.unlockThread hi rfl rfl).congr rfl rfl rfl
  | takes hi => exact (h.unlockThread hi rfl rfl).congr rfl rfl rfl
  | spurious hi => exact h.setThread rfl
  | finished hi => exact (h.setThread rfl).congr rfl rfl rfl

theorem exclusive_of_reaches {args : PoolArgs} {queue : Nat → α} {others : Nat}
    (h : Reaches step anyAction (start args queue others) s) : s.Exclusive :=
  invariant_of_stepped h (fun hI hstep => hI.stepped hstep) (exclusive_start args queue others)

/-! ### Sleeping workers -/

/-- On its way to the test of the pool. -/
def isReady : PoolThread α → Bool
  | .locking => true
  | .testing => true
  | .woken => true
  | _ => false

/-- While a worker sleeps, there is a worker on its way to the pool for each task in it. -/
structure Attended (s : PoolSystem α) : Prop where
  open_of_waiting : ∀ t ∈ s.threads, t.isWaiting = true → s.pool.shutdown = .none
  count_le : 0 < Census.count PoolThread.isWaiting s.threads →
    s.pool.count ≤ Census.count isReady s.threads

theorem attended_start (args : PoolArgs) (queue : Nat → α) (others : Nat) :
    (start args queue others).Attended :=
  ⟨fun _ ht => absurd ht List.not_mem_nil, fun _ => Nat.zero_le _⟩

theorem attended_of_awake (h : ∀ t ∈ s.threads, t.isWaiting = false) : s.Attended := by
  refine ⟨fun t ht hwaits => ?_, fun hpos => ?_⟩
  · rw [h t ht] at hwaits
    cases hwaits
  · rw [Census.count_eq_zero_iff.mpr h] at hpos
    exact absurd hpos (Nat.lt_irrefl 0)

/-- A thread moves to a place that is not that of a sleeping thread. -/
theorem open_of_setThread (h : s.Attended) {i : Nat} {new : PoolThread α}
    (hnew : new.isWaiting = false) : ∀ t ∈ s.threads.set i new, t.isWaiting = true →
      s.pool.shutdown = .none := by
  intro t ht hwaits
  rcases Census.mem_set_cases ht with rfl | hmem
  · rw [hnew] at hwaits
    cases hwaits
  · exact h.open_of_waiting t hmem hwaits

theorem Attended.setThread (h : s.Attended) {i : Nat} {old new : PoolThread α}
    (hi : s.threads[i]? = some old) (hold : old.isWaiting = false) (hnew : new.isWaiting = false)
    (hready : (isReady old).toNat ≤ (isReady new).toNat) : (s.setThread i new).Attended := by
  have hwaiting := Census.count_set PoolThread.isWaiting hi new
  have hreadies := Census.count_set isReady hi new
  rw [hold, hnew, Nat.add_right_cancel_iff] at hwaiting
  refine ⟨open_of_setThread h hnew, fun hpos => ?_⟩
  have hle := h.count_le (hwaiting ▸ hpos)
  simp only [PoolSystem.setThread]
  omega

theorem Attended.congr (h : s.Attended) (hthreads : s'.threads = s.threads)
    (hcount : s'.pool.count = s.pool.count) (hmode : s'.pool.shutdown = s.pool.shutdown) :
    s'.Attended := by
  refine ⟨?_, ?_⟩
  · rw [hthreads, hmode]
    exact h.open_of_waiting
  · rw [hthreads, hcount]
    exact h.count_le

theorem Attended.addThread (h : s.Attended) :
    ({ s with threads := s.threads ++ [PoolThread.locking] } : PoolSystem α).Attended := by
  refine ⟨fun t ht hwaits => ?_, fun hpos => ?_⟩
  · rcases List.mem_append.mp ht with hmem | hnew
    · exact h.open_of_waiting t hmem hwaits
    · obtain rfl := List.eq_of_mem_singleton hnew
      cases hwaits
  · rw [Census.count_concat] at hpos
    have hle := h.count_le hpos
    rw [Census.count_concat]
    exact Nat.le_add_right_of_le hle

/-- A sleeping thread is woken, and with it there may come a task. -/
theorem Attended.wakeOne (h : s.Attended) {i count : Nat} (hi : s.threads[i]? = some .waiting)
    (hcount : count ≤ s.pool.count + 1) :
    count ≤ Census.count isReady (s.threads.set i .woken) := by
  have hreadies := Census.count_set isReady hi .woken
  have hle := h.count_le (Census.count_pos_iff.mpr ⟨_, List.mem_of_getElem? hi, rfl⟩)
  simp only [isReady, Bool.toNat_true, Bool.toNat_false] at hreadies
  omega

theorem Attended.takeOne (h : s.Attended) {i : Nat} {task : α} (hi : s.threads[i]? = some .testing)
    (hsome : 0 < s.pool.count)
    (hpos : 0 < Census.count PoolThread.isWaiting (s.threads.set i (.running task))) :
    s.pool.count - 1 ≤ Census.count isReady (s.threads.set i (.running task)) := by
  have hreadies := Census.count_set isReady hi (.running task)
  have hwaiting := Census.count_set PoolThread.isWaiting hi (.running task)
  simp only [isReady, PoolThread.isWaiting, Bool.toNat_true, Bool.toNat_false] at hreadies hwaiting
  have hle := h.count_le (by omega)
  omega

theorem isReady_locked {t t' : PoolThread α} (h : t.locked = some t') :
    isReady t = true ∧ t.isWaiting = false ∧ t' = .testing := by
  cases t <;> simp_all [PoolThread.locked, isReady, PoolThread.isWaiting]

theorem Attended.stepped (h : s.Attended) (hstep : Stepped s a s') : s'.Attended := by
  cases hstep with
  | created hc => exact h.addThread.congr rfl rfl rfl
  | threadLocked _ _ hi ht =>
      obtain ⟨hready, hawake, rfl⟩ := isReady_locked ht
      exact (h.setThread hi hawake rfl (by rw [hready]; rfl)).congr rfl rfl rfl
  | addedWaking hc hroom hopen hi =>
      rename_i task
      refine ⟨fun _ _ _ => ?_, fun _ => h.wakeOne hi ?_⟩
      · exact (Threadpool.add_shutdown s.pool task).trans hopen
      · exact Nat.le_of_eq (congrArg Threadpool.count (Threadpool.add_of_room hroom hopen task))
  | added hc hroom hopen hnone => exact attended_of_awake hnone
  | shutDown hc hopen =>
      refine attended_of_awake fun t ht => ?_
      obtain ⟨old, _, rfl⟩ := List.mem_map.mp ht
      cases old <;> rfl
  | waits hi hempty hopen =>
      refine ⟨fun _ _ _ => hopen, fun _ => ?_⟩
      rw [show (s.setThread _ .waiting).unlock.pool.count = 0 from hempty]
      exact Nat.zero_le _
  | exits hi hshut =>
      refine attended_of_awake fun t ht => Bool.eq_false_of_not_eq_true fun hwaits => hshut ?_
      exact open_of_setThread h rfl t ht hwaits
  | takes hi hsome hnot =>
      exact ⟨open_of_setThread h rfl, h.takeOne hi hsome⟩
  | spurious hi =>
      have hopen := h.open_of_waiting _ (List.mem_of_getElem? hi) rfl
      exact ⟨fun _ _ _ => hopen, fun _ => h.wakeOne hi (Nat.le_succ _)⟩
  | finished hi => exact (h.setThread hi rfl rfl (Nat.zero_le _)).congr rfl rfl rfl
  | _ => exact h.congr rfl rfl rfl

theorem attended_of_reaches {args : PoolArgs} {queue : Nat → α} {others : Nat}
    (h : Reaches step anyAction (start args queue others) s) : s.Attended :=
  invariant_of_stepped h (fun hI hstep => hI.stepped hstep) (attended_start args queue others)

end PoolSystem

end InstructionParser
