import InstructionParser.Proof.CommandServer
import InstructionParser.Proof.PoolDrain
import Mathlib.Algebra.BigOperators.Group.Finset.Basic

/-!
# The server comes to rest

An event that `epoll_wait` reports makes for so many steps of the threads and no more. When they are
taken, in whatever order, every task has been run and every accepted command has been executed, unless a
thread stands where it would leave an object. The thread of `get_cmd` never blocks: its turns on an empty
queue, of which there is no end, are not counted.
-/

namespace InstructionParser

open CLib Runs PoolSystem

/-- How many steps a worker has left at most until `handle` returns, with the turn of `get_cmd` for what
it pushes. -/
def Worker.stage : Worker → Nat
  | .idle => 0
  | .reading _ => 3
  | .deleting _ => 2
  | .unlisting _ => 1
  | .parsing _ _ => 2

namespace PooledServer

variable {s s' : PooledServer} {a : PooledAction}

/-! ### What a step does -/

def pushes : ServerAction → Nat
  | .parse _ _ _ => 1
  | _ => 0

inductive Moves (s : PooledServer) : PooledAction → PooledServer → Prop where
  | reports {ready : List EpollEvent} (hloop : s.loop = .waiting) :
      Moves s (.server (.epollWait ready))
        { s with events := s.front.filled ready, loop := Server.loopAt ready.length 0 }
  | asks {accepted : Bool} {nfds i : Nat} (hloop : s.loop = .processing nfds i)
      (hc : s.system.callers[0]? = some .outside) (hpool : s.system.published = true)
      (hlive : s.system.freed = false) : Moves s (.server (.nextEvent accepted)) (s.asking i)
  | skips {accepted : Bool} {nfds i : Nat} {loop : ServerLoop} (hloop : s.loop = .processing nfds i)
      (hother : ¬ ((s.events i).fd ≠ s.listenfd ∧ (s.events i).epollIn = true))
      (hnext : loop = .returned ∨ loop = Server.loopAt nfds (i + 1)) :
      Moves s (.server (.nextEvent accepted)) { s with loop }
  | reuses {memory : Nat → EpollEvent} :
      Moves s (.server (.reuse memory)) { s with events := memory }
  | handles {b : ServerAction} {w : Nat} {n : Worker} {served : Served}
      (hrun : runningAt s.system.threads w = true) (hb : ofHandle b = true)
      (hlower : n.stage + 1 + pushes b ≤ (s.handling w).stage) :
      Moves s (.server b) { s with handling := Function.update s.handling w n, served }
  | adds {c : Nat} {woken : Option Nat} {system : PoolSystem Task}
      (hstep : Stepped s.system (.add c woken) system) :
      Moves s (.pool (.add c woken)) { s with system, loop := afterAdd s.loop }
  | tests {w : Nat} {system : PoolSystem Task} (hstep : Stepped s.system (.test w) system) :
      Moves s (.pool (.test w)) { s with system, handling := s.entered w system }
  | finishes {w : Nat} {system : PoolSystem Task} (hidle : s.handling w = .idle)
      (hstep : Stepped s.system (.finish w) system) : Moves s (.pool (.finish w)) { s with system }
  | unseen {b : PoolAction Task} {system : PoolSystem Task} (hcall : isCall b = false)
      (hb : seen b = false) (hstep : Stepped s.system b system) : Moves s (.pool b) { s with system }

theorem moves_of_handle {b : ServerAction} (hb : ofHandle b = true) (h : s.serverStep b = some s') :
    Moves s (.server b) s' := by
  cases b with
  | epollWait | nextEvent | reuse | dequeue => cases hb
  | read w result =>
      obtain ⟨hrun, t, ht, rfl⟩ := inHandle_eq_some h
      simp only [Server.read] at ht
      split at ht
      case h_2 => cases ht
      case h_1 task hworker =>
        obtain rfl := Option.some.inj ht
        have hworker : s.handling w = .reading task := hworker
        refine .handles (n := Server.afterRead task result) hrun rfl ?_
        rw [hworker]
        cases result <;> simp [Worker.stage, Server.afterRead, pushes]
  | opDeleteEvent w =>
      obtain ⟨hrun, t, ht, rfl⟩ := inHandle_eq_some h
      simp only [Server.opDeleteEvent] at ht
      split at ht
      case h_2 => cases ht
      case h_1 task hworker =>
        obtain rfl := Option.some.inj ht
        have hworker : s.handling w = .deleting task := hworker
        refine .handles (n := .unlisting task) hrun rfl ?_
        rw [hworker]
        exact Nat.le_refl _
  | delClilist w =>
      obtain ⟨hrun, t, ht, rfl⟩ := inHandle_eq_some h
      simp only [Server.delClilist] at ht
      split at ht
      case h_2 => cases ht
      case h_1 task hworker =>
        obtain rfl := Option.some.inj ht
        have hworker : s.handling w = .unlisting task := hworker
        refine .handles (n := .idle) hrun rfl ?_
        rw [hworker]
        exact Nat.le_refl _
  | parse w tmpStr residue =>
      obtain ⟨hrun, t, ht, rfl⟩ := inHandle_eq_some h
      simp only [Server.parse] at ht
      split at ht
      case h_2 => cases ht
      case h_1 task chunk hworker =>
        obtain ⟨command, _, rfl⟩ := Option.map_eq_some_iff.mp ht
        have hworker : s.handling w = .parsing task chunk := hworker
        refine .handles (n := .idle) hrun rfl ?_
        rw [hworker]
        exact Nat.le_refl _

theorem moves_of_step (h : s.step a = some s') : Moves s a s' := by
  cases a with
  | server b =>
      cases hb : ofHandle b with
      | true => exact moves_of_handle hb h
      | false =>
          cases b with
          | epollWait ready =>
              have h : s.serverStep (.epollWait ready) = some s' := h
              simp only [serverStep] at h
              split_ifs at h
              obtain ⟨t, ht, rfl⟩ := Option.map_eq_some_iff.mp h
              simp only [Server.epollWait] at ht
              split at ht
              · rename_i hloop
                split_ifs at ht
                obtain rfl := Option.some.inj ht
                exact .reports hloop
              · cases ht
          | nextEvent accepted =>
              obtain ⟨nfds, i, hloop, ⟨_, _, hc, hpool, hlive, rfl⟩ | ⟨hother, _, loop, hnext, rfl⟩⟩ :=
                nextEvent_cases h
              · exact .asks hloop hc hpool hlive
              · exact .skips hloop hother hnext
          | reuse memory =>
              obtain ⟨t, ht, rfl⟩ := Option.map_eq_some_iff.mp h
              simp only [Server.reuse] at ht
              split at ht
              · obtain rfl := Option.some.inj ht
                exact .reuses
              · cases ht
          | dequeue w => cases h
          | _ => cases hb
  | pool b =>
      cases b with
      | callAdd | callDestroy => cases h
      | add c woken =>
          obtain ⟨system, hmoved, rfl⟩ := Option.map_eq_some_iff.mp h
          exact .adds (stepped_of_step hmoved)
      | test w =>
          obtain ⟨system, hmoved, rfl⟩ := Option.map_eq_some_iff.mp h
          exact .tests (stepped_of_step hmoved)
      | finish w =>
          have h : s.poolStep (.finish w) = some s' := h
          simp only [poolStep] at h
          split at h
          case h_2 => cases h
          case h_1 hidle =>
            obtain ⟨system, hmoved, rfl⟩ := Option.map_eq_some_iff.mp h
            exact .finishes hidle (stepped_of_step hmoved)
      | _ =>
          obtain ⟨system, hmoved, rfl⟩ := Option.map_eq_some_iff.mp h
          exact .unseen rfl rfl (stepped_of_step hmoved)

/-! ### What holds between the steps -/

structure Steady (s : PooledServer) : Prop where
  linked : s.Linked
  attended : s.system.Attended
  owned : s.system.Owned
  held : s.system.Held
  inLoop : ∀ nfds i, s.loop = .processing nfds i → i < nfds
  engaged : ∀ w, s.handling w ≠ .idle → runningAt s.system.threads w = true

theorem steady_start (listenfd : Int) (events : Nat → EpollEvent) (queue : Nat → Task) :
    (start listenfd events queue).Steady where
  linked := linked_start listenfd events queue
  attended := attended_start serverPool queue 0
  owned := owned_start serverPool queue 0
  held := held_of_reaches (Reaches.refl (PoolSystem.start serverPool queue 0))
  inLoop _ _ h := by cases h
  engaged _ h := absurd rfl h

theorem lt_of_loopAt {nfds i m j : Nat} (h : Server.loopAt nfds i = .processing m j) : j < m := by
  rw [Server.loopAt] at h
  split_ifs at h with hlt
  obtain ⟨rfl, rfl⟩ := ServerLoop.processing.inj h
  exact hlt

theorem Moves.stepped_or_same (h : Moves s a s') :
    s'.system = s.system ∨ ∃ b, Stepped s.system b s'.system := by
  cases h with
  | reports | skips | reuses | handles => exact Or.inl rfl
  | @asks _ _ i _ hc hpool hlive =>
      exact Or.inr ⟨.callAdd 0 { slot := i, fd := (s.events i).fd }, .calledAdd hc hpool hlive⟩
  | adds hstep => exact Or.inr ⟨_, hstep⟩
  | tests hstep => exact Or.inr ⟨_, hstep⟩
  | finishes _ hstep => exact Or.inr ⟨_, hstep⟩
  | unseen _ _ hstep => exact Or.inr ⟨_, hstep⟩

theorem Steady.inLoop_moved (h : s.Steady) (hmoves : Moves s a s') :
    ∀ nfds i, s'.loop = .processing nfds i → i < nfds := by
  cases hmoves with
  | reports => exact fun _ _ => lt_of_loopAt
  | skips _ _ hnext =>
      rcases hnext with rfl | rfl
      · intro _ _ hloop
        cases hloop
      · exact fun _ _ => lt_of_loopAt
  | adds =>
      intro m j hloop
      change afterAdd s.loop = .processing m j at hloop
      cases hat : s.loop with
      | processing nfds i =>
          rw [hat] at hloop
          exact lt_of_loopAt hloop
      | waiting | returned =>
          rw [hat] at hloop
          cases hloop
  | asks | reuses | handles | tests | finishes | unseen => exact h.inLoop

/-- A worker that moves from one task to the next is not in `handle` between them. -/
theorem engaged_set {threads : List (PoolThread Task)} {handling : Nat → Worker} {w : Nat}
    {t : PoolThread Task} (h : ∀ v, handling v ≠ .idle → runningAt threads v = true)
    (hidle : handling w = .idle) :
    ∀ v, handling v ≠ .idle → runningAt (threads.set w t) v = true := by
  intro v hv
  have hne : v ≠ w := by
    rintro rfl
    exact hv hidle
  rw [runningAt_set_ne t hne]
  exact h v hv

theorem Steady.idle_of_testing (h : s.Steady) {w : Nat} (hw : s.system.threads[w]? = some .testing) :
    s.handling w = .idle := by
  by_contra hbusy
  have hrunning := h.engaged w hbusy
  rw [runningAt_of_some hw] at hrunning
  cases hrunning

theorem Steady.engaged_moved (h : s.Steady) (hmoves : Moves s a s') :
    ∀ w, s'.handling w ≠ .idle → runningAt s'.system.threads w = true := by
  cases hmoves with
  | @handles b w n served hrun =>
      intro v hv
      by_cases hvw : v = w
      · exact hvw ▸ hrun
      · exact h.engaged v (by simpa [Function.update_of_ne hvw] using hv)
  | @adds c woken system hstep =>
      obtain ⟨_, _, _, hrunning, _⟩ := add_fields h.linked hstep
      intro v hv
      exact (hrunning v).trans (h.engaged v hv)
  | @tests w system hstep =>
      obtain ⟨hw, hkind⟩ := test_fields h.linked.sound hstep
      have hidle := h.idle_of_testing hw
      have hself : ∀ {t}, system.threads = s.system.threads.set w t → system.threads[w]? = some t := by
        intro t hthreads
        rw [hthreads]
        exact List.getElem?_set_self (List.getElem?_eq_some_iff.mp hw).1
      obtain ⟨t, hthreads, hnone, _⟩ | ⟨task, hthreads, _⟩ := hkind
      · change ∀ v, s.entered w system v ≠ .idle → runningAt system.threads v = true
        rw [entered_idle (hself hthreads) hnone, hthreads]
        exact engaged_set h.engaged hidle
      · change ∀ v, s.entered w system v ≠ .idle → runningAt system.threads v = true
        intro v hv
        by_cases hvw : v = w
        · rw [hvw, runningAt_of_some (hself hthreads)]
          rfl
        · rw [entered_running (hself hthreads), Function.update_of_ne hvw] at hv
          rw [hthreads, runningAt_set_ne _ hvw]
          exact h.engaged v hv
  | @finishes w system hidle hstep =>
      obtain ⟨_, hthreads, _⟩ := finish_fields hstep
      change ∀ v, s.handling v ≠ .idle → runningAt system.threads v = true
      rw [hthreads]
      exact engaged_set h.engaged hidle
  | unseen _ hb hstep =>
      intro v hv
      exact ((unseen_fields hstep hb).2 v).trans (h.engaged v hv)
  | reports | asks | skips | reuses => exact h.engaged

theorem Steady.step (h : s.Steady) (hstep : s.step a = some s') : s'.Steady := by
  have hmoves := moves_of_step hstep
  have hlinked := (matches_step h.linked hstep).1
  have hinLoop := h.inLoop_moved hmoves
  have hengaged := h.engaged_moved hmoves
  obtain hsame | ⟨b, hstepped⟩ := hmoves.stepped_or_same
  · exact ⟨hlinked, hsame ▸ h.attended, hsame ▸ h.owned, hsame ▸ h.held, hinLoop, hengaged⟩
  · exact ⟨hlinked, h.attended.stepped hstepped, h.owned.stepped hstepped, h.held.stepped hstepped,
      hinLoop, hengaged⟩

theorem Steady.serving (h : s.Steady) (hpool : s.system.published = true) :
    Serving serverPool s.system :=
  ⟨h.linked.sound, h.attended, h.owned, h.held, hpool, (h.linked.serving hpool).1,
    (h.linked.serving hpool).2⟩

/-! ### The steps that an event makes for -/

/-- The loop has called `threadpool_add` and is not back. -/
def isAsking : PoolCaller Task → Bool
  | .addLocking _ => true
  | .adding _ => true
  | _ => false

def handleWork (handling : Nat → Worker) : Nat :=
  ∑ w ∈ Finset.range serverPool.threadCount, (handling w).stage

/-- The events that the loop has still to look at. -/
def loopWork (loop : ServerLoop) (callers : List (PoolCaller Task)) : Nat :=
  match loop with
  | .processing nfds i => 11 * (nfds - i - Census.count isAsking callers)
  | _ => 0

def work (s : PooledServer) : Nat :=
  s.system.work 3 + handleWork s.handling + loopWork s.loop s.system.callers

/-- What comes from outside: the events of a report, and a wake-up without a cause. -/
def cost : PooledAction → Nat
  | .server (.epollWait ready) => 11 * ready.length + 1
  | .pool (.wake _) => 3
  | _ => 0

def pushed : PooledAction → Nat
  | .server b => pushes b
  | .pool _ => 0

def isReuse : PooledAction → Bool
  | .server (.reuse _) => true
  | _ => false

theorem handleWork_update (handling : Nat → Worker) {w : Nat} (hw : w < serverPool.threadCount)
    (worker : Worker) : handleWork (Function.update handling w worker) + (handling w).stage
      = handleWork handling + worker.stage := by
  have hupdate : (fun v => (Function.update handling w worker v).stage)
      = Function.update (fun v => (handling v).stage) w worker.stage := by
    funext v
    by_cases hv : v = w <;> simp [hv]
  have hmem := Finset.mem_range.mpr hw
  have hsum := Finset.sum_erase_add (Finset.range serverPool.threadCount)
    (fun v => (handling v).stage) hmem
  calc handleWork (Function.update handling w worker) + (handling w).stage
      = worker.stage + ∑ v ∈ Finset.range serverPool.threadCount \ {w}, (handling v).stage
          + (handling w).stage := by
        rw [handleWork, hupdate, Finset.sum_update_of_mem hmem]
    _ = handleWork handling + worker.stage := by
        rw [handleWork, ← hsum, Finset.sdiff_singleton_eq_erase]
        omega

theorem Steady.lt_of_running (h : s.Steady) (hpool : s.system.published = true) {w : Nat}
    (hrun : runningAt s.system.threads w = true) : w < serverPool.threadCount := by
  rw [← h.linked.sound.threads_length hpool]
  by_contra hge
  rw [runningAt, List.getElem?_eq_none (Nat.le_of_not_lt hge)] at hrun
  cases hrun

theorem asking_le {callers : List (PoolCaller Task)} (h : callers.length = 1) :
    Census.count isAsking callers ≤ 1 := by
  have hcount := Census.count_add_count_not isAsking callers
  omega

theorem loopWork_processing (nfds i : Nat) (callers : List (PoolCaller Task)) :
    loopWork (.processing nfds i) callers = 11 * (nfds - i - Census.count isAsking callers) := rfl

theorem loopWork_loopAt (nfds i : Nat) (callers : List (PoolCaller Task)) :
    loopWork (Server.loopAt nfds i) callers ≤ 11 * (nfds - i) := by
  rw [Server.loopAt]
  split_ifs with hlt
  · exact Nat.mul_le_mul_left 11 (Nat.sub_le _ _)
  · exact Nat.zero_le _

/-- Only `start_server` asks for a task to be added, and only `threadpool_add` takes it on. -/
theorem asking_unseen {b : PoolAction Task} {system : PoolSystem Task}
    (h : Serving serverPool s.system) (hcall : isCall b = false) (hb : seen b = false)
    (hstep : Stepped s.system b system) :
    Census.count isAsking system.callers = Census.count isAsking s.system.callers
      ∧ system.log.taken = s.system.log.taken := by
  have hcaller : ∀ {c : Nat} {k : PoolCaller Task}, s.system.callers[c]? = some k →
      k = .outside ∨ (∃ task, k = .addLocking task) ∨ ∃ task, k = .adding task :=
    fun hc => h.caller_cases (List.mem_of_getElem? hc)
  cases hstep with
  | created hc | notCreated hc | counted hc | published hc | shutDown hc | abandoned hc | joined hc
  | allJoined hc | keptPool hc | freedArrays hc | freedPool hc =>
      obtain heq | ⟨_, heq⟩ | ⟨_, heq⟩ := hcaller hc <;> cases heq
  | calledAdd | calledDestroy => cases hcall
  | @callerLocked c k k' _ _ hc hk =>
      have hcount := Census.count_set isAsking hc k'
      have hsame : isAsking k = isAsking k' := by
        obtain rfl | ⟨_, rfl⟩ | ⟨_, rfl⟩ := hcaller hc <;> cases hk
        rfl
      rw [hsame] at hcount
      exact ⟨Nat.add_right_cancel hcount, rfl⟩
  | addedWaking | added | refused | waits | exits | takes | finished => cases hb
  | threadLocked | spurious => exact ⟨rfl, rfl⟩

theorem Steady.work_asks (h : s.Steady) (hpool : s.system.published = true) {nfds i : Nat}
    (hloop : s.loop = .processing nfds i) (hc : s.system.callers[0]? = some .outside)
    (hlive : s.system.freed = false) : (s.asking i).work + 1 ≤ s.work := by
  let task : Task := { slot := i, fd := (s.events i).fd }
  have hlt := h.inLoop nfds i hloop
  have hcalled : Stepped s.system (.callAdd 0 task) (s.system.setCaller 0 (.addLocking task)) :=
    .calledAdd hc hpool hlive
  have hsystem := (h.serving hpool).work_stepped (n := 3) rfl hcalled
  have hcount := Census.count_set isAsking hc (.addLocking task)
  have hone : Census.count isAsking (s.system.callers.set 0 (.addLocking task)) ≤ 1 :=
    asking_le (List.length_set.trans h.linked.single)
  have hwork : (s.asking i).work = (s.system.setCaller 0 (.addLocking task)).work 3
      + handleWork s.handling
      + loopWork s.loop (s.system.callers.set 0 (.addLocking task)) := rfl
  rw [hwork, work, hloop, loopWork_processing, loopWork_processing]
  simp only [PoolSystem.cost, PoolSystem.setCaller, isAsking, Bool.toNat_true, Bool.toNat_false]
    at hsystem hcount ⊢
  omega

theorem Steady.work_skips (h : s.Steady) {nfds i : Nat} {loop : ServerLoop}
    (hloop : s.loop = .processing nfds i)
    (hother : ¬ ((s.events i).fd ≠ s.listenfd ∧ (s.events i).epollIn = true))
    (hnext : loop = .returned ∨ loop = Server.loopAt nfds (i + 1)) :
    PooledServer.work { s with loop } + 1 ≤ s.work := by
  have hlt := h.inLoop nfds i hloop
  have hnone : Census.count isAsking s.system.callers = 0 := by
    apply Census.count_eq_zero_iff.mpr
    refine fun k hk => Bool.eq_false_of_not_eq_true fun hasking => hother ?_
    have hadding : ∃ task, .addLocking task ∈ s.system.callers ∨ .adding task ∈ s.system.callers := by
      cases k with
      | addLocking task => exact ⟨task, Or.inl hk⟩
      | adding task => exact ⟨task, Or.inr hk⟩
      | _ => cases hasking
    obtain ⟨task, hadding⟩ := hadding
    obtain ⟨nfds', j, hat, _, hclient⟩ := h.linked.adding task hadding
    obtain ⟨_, rfl⟩ := ServerLoop.processing.inj (hloop.symm.trans hat)
    exact hclient
  have hle : loopWork loop s.system.callers ≤ 11 * (nfds - (i + 1)) := by
    rcases hnext with rfl | rfl
    · exact Nat.zero_le _
    · exact loopWork_loopAt nfds (i + 1) s.system.callers
  have hwork : PooledServer.work { s with loop } = s.system.work 3 + handleWork s.handling
      + loopWork loop s.system.callers := rfl
  rw [hwork, work, hloop, loopWork_processing, hnone]
  omega

theorem Steady.work_adds (h : s.Steady) (hpool : s.system.published = true) {c : Nat}
    {woken : Option Nat} {system : PoolSystem Task} (hstep : Stepped s.system (.add c woken) system) :
    PooledServer.work { s with system, loop := afterAdd s.loop } + 1 ≤ s.work := by
  obtain ⟨task, hc, _, _, hcallers⟩ := add_fields h.linked hstep
  obtain ⟨nfds, i, hloop, _⟩ := h.linked.adding task (Or.inr (List.mem_of_getElem? hc))
  have hsystem := (h.serving hpool).work_stepped (n := 3) rfl hstep
  have htaken : system.log.taken = s.system.log.taken := by
    cases hstep <;> rfl
  have hcount := Census.count_set isAsking hc .outside
  have hone := asking_le h.linked.single
  have hle := loopWork_loopAt nfds (i + 1) system.callers
  have hwork : PooledServer.work { s with system, loop := afterAdd s.loop } = system.work 3
      + handleWork s.handling + loopWork (afterAdd s.loop) system.callers := rfl
  rw [hwork, work, hloop, loopWork_processing, afterAdd]
  rw [htaken] at hsystem
  simp only [PoolSystem.cost, isAsking, Bool.toNat_true, Bool.toNat_false] at hsystem hcount
  omega

theorem entered_work {w : Nat} {system : PoolSystem Task} (hlt : w < serverPool.threadCount)
    (hw : s.system.threads[w]? = some .testing) (hidle : s.handling w = .idle)
    (hstep : Stepped s.system (.test w) system) :
    handleWork (s.entered w system) + 3 * s.system.log.taken.length
      ≤ handleWork s.handling + 3 * system.log.taken.length := by
  have hself : ∀ t, (s.system.threads.set w t)[w]? = some t :=
    fun t => List.getElem?_set_self (List.getElem?_eq_some_iff.mp hw).1
  cases hstep with
  | waits =>
      rw [entered_idle (hself .waiting) rfl]
      exact Nat.le_refl _
  | exits =>
      rw [entered_idle (hself .exited) rfl]
      exact Nat.le_refl _
  | takes =>
      let task := s.system.pool.queue s.system.pool.head
      have hupdate := handleWork_update s.handling hlt (.reading task)
      have htaken : (s.system.log.taken ++ [task]).length = s.system.log.taken.length + 1 :=
        List.length_append
      rw [entered_running (hself (.running task))]
      change _ ≤ handleWork s.handling + 3 * (s.system.log.taken ++ [task]).length
      rw [htaken]
      simp only [hidle, Worker.stage] at hupdate
      omega

theorem Steady.work_tests (h : s.Steady) (hpool : s.system.published = true) {w : Nat}
    {system : PoolSystem Task} (hstep : Stepped s.system (.test w) system) :
    PooledServer.work { s with system, handling := s.entered w system } + 1 ≤ s.work := by
  have hw := (test_fields h.linked.sound hstep).1
  have hsystem := (h.serving hpool).work_stepped (n := 3) rfl hstep
  have hlt : w < serverPool.threadCount := by
    rw [← h.linked.sound.threads_length hpool]
    exact (List.getElem?_eq_some_iff.mp hw).1
  have hcallers : system.callers = s.system.callers := by
    cases hstep <;> rfl
  have hentered := entered_work hlt hw (h.idle_of_testing hw) hstep
  have hwork : PooledServer.work { s with system, handling := s.entered w system } = system.work 3
      + handleWork (s.entered w system) + loopWork s.loop system.callers := rfl
  rw [hwork, work, hcallers]
  simp only [PoolSystem.cost] at hsystem
  omega

theorem Steady.work_unseen (h : s.Steady) (hpool : s.system.published = true) {b : PoolAction Task}
    {system : PoolSystem Task} (hcall : isCall b = false)
    (hcount : Census.count isAsking system.callers = Census.count isAsking s.system.callers)
    (htaken : system.log.taken = s.system.log.taken) (hstep : Stepped s.system b system) :
    PooledServer.work { s with system } + 1 ≤ s.work + PooledServer.cost (.pool b) := by
  have hno : isDestroy b = false := by
    cases b <;> first | rfl | cases hcall
  have hcost : PoolSystem.cost 3 b = PooledServer.cost (.pool b) := by
    cases b <;> first | rfl | cases hcall
  have hsystem := (h.serving hpool).work_stepped (n := 3) hno hstep
  have hloop : loopWork s.loop system.callers = loopWork s.loop s.system.callers := by
    cases s.loop with
    | processing nfds i => rw [loopWork_processing, loopWork_processing, hcount]
    | waiting | returned => rfl
  have hwork : PooledServer.work { s with system } = system.work 3 + handleWork s.handling
      + loopWork s.loop system.callers := rfl
  rw [hwork, work, hloop]
  rw [htaken, hcost] at hsystem
  omega

/-- A step takes one from the work, and one more for what it pushes, but for what comes from outside. -/
theorem Steady.work_moved (h : s.Steady) (hpool : s.system.published = true)
    (hno : isReuse a = false) (hmoves : Moves s a s') :
    s'.work + 1 + pushed a ≤ s.work + cost a := by
  cases hmoves with
  | @reports ready hloop =>
      have hle := loopWork_loopAt ready.length 0 s.system.callers
      have hwork : PooledServer.work
          { s with events := s.front.filled ready, loop := Server.loopAt ready.length 0 }
          = s.system.work 3 + handleWork s.handling
            + loopWork (Server.loopAt ready.length 0) s.system.callers := rfl
      rw [hwork, work, hloop]
      simp only [pushed, pushes, cost, loopWork] at hle ⊢
      omega
  | asks hloop hc _ hlive =>
      simp only [pushed, pushes, cost, Nat.add_zero]
      exact h.work_asks hpool hloop hc hlive
  | skips hloop hother hnext =>
      simp only [pushed, pushes, cost, Nat.add_zero]
      exact h.work_skips hloop hother hnext
  | reuses => cases hno
  | @handles b w n served hrun hb hlower =>
      have hupdate := handleWork_update s.handling (h.lt_of_running hpool hrun) n
      have hwork : PooledServer.work { s with handling := Function.update s.handling w n, served }
          = s.system.work 3 + handleWork (Function.update s.handling w n)
            + loopWork s.loop s.system.callers := rfl
      rw [hwork, work]
      simp only [pushed]
      omega
  | adds hstep =>
      simp only [pushed, cost, Nat.add_zero]
      exact h.work_adds hpool hstep
  | tests hstep =>
      simp only [pushed, cost, Nat.add_zero]
      exact h.work_tests hpool hstep
  | @finishes w system _ hstep =>
      rw [pushed, Nat.add_zero]
      have hsame : system.callers = s.system.callers ∧ system.log.taken = s.system.log.taken := by
        cases hstep with
        | finished => exact ⟨rfl, rfl⟩
      exact h.work_unseen hpool rfl (congrArg _ hsame.1) hsame.2 hstep
  | unseen hcall hb hstep =>
      rw [pushed, Nat.add_zero]
      obtain ⟨hcount, htaken⟩ := asking_unseen (h.serving hpool) hcall hb hstep
      exact h.work_unseen hpool hcall hcount htaken hstep

end PooledServer

namespace Pipeline

variable {reply : Reply} {p p' : Pipeline} {held : List StCmdFrame}

theorem contents_handle (h : p.InOrder reply held) {tmpStr : Block 128} {residue : StCmdFrame} {fd : Int}
    {chunk : Bytes} (hstep : p.step (.handle tmpStr residue fd chunk) = some p') :
    p'.queue.contents.length ≤ p.queue.contents.length + 1 := by
  obtain ⟨command, _, rfl⟩ := Option.map_eq_some_iff.mp hstep
  cases command with
  | none => exact Nat.le_succ _
  | some cmd =>
      have hread : CircleQueue.Holds { p with reads := p.reads ++ [(fd, chunk)] }.queue held := h.holds
      obtain ⟨_, hsame⟩ | ⟨_, queue, hholds, hpushed⟩ := push_cases hread cmd
      · simp only [hsame]
        exact Nat.le_succ _
      · simp only [hpushed, hholds.contents_eq, h.holds.contents_eq, List.length_append,
          List.length_singleton]
        exact Nat.le_refl _

theorem contents_getCmd (h : p.InOrder reply held) {env : Env} (hne : p.queue.isQueueEmpty = false)
    (hstep : p.step (.getCmd env) = some p') :
    p'.queue.contents.length + 1 = p.queue.contents.length := by
  obtain ⟨hempty, _⟩ | ⟨cmd, rest, queue, thread, events, rfl, hholds, _, rfl⟩ :=
    serve_cases h.holds hstep
  · rw [h.holds.isQueueEmpty_iff.mpr hempty] at hne
    cases hne
  · rw [h.holds.contents_eq, hholds.contents_eq]
    rfl

end Pipeline

/-! ### The server -/

namespace CommandServer

variable {s s' : CommandServer} {a : CommandAction}

/-- How many steps the threads have left at most. -/
def work (s : CommandServer) : Nat := s.server.work + s.pipeline.queue.contents.length

def cost : CommandAction → Nat
  | .server a => PooledServer.cost a
  | .getCmd _ => 0

/-- The steps that do something: all but a turn of `get_cmd` that finds no command, and what others do
with the memory of `events` after `start_server` has returned. -/
def Goes (s : CommandServer) : CommandAction → Prop
  | .server a => PooledServer.isReuse a = false
  | .getCmd _ => s.pipeline.queue.isQueueEmpty = false

instance (s : CommandServer) : ∀ a, Decidable (s.Goes a)
  | .server a => inferInstanceAs (Decidable (PooledServer.isReuse a = false))
  | .getCmd _ => inferInstanceAs (Decidable (s.pipeline.queue.isQueueEmpty = false))

structure Ready (s : CommandServer) : Prop where
  steady : s.server.Steady
  published : s.server.system.published = true
  inOrder : ∃ reply held, s.pipeline.InOrder reply held

theorem steady_of_reaches {listenfd : Int} {events : Nat → EpollEvent} {queue : Nat → Task}
    {reply : Reply} (h : Reaches step anyAction (start listenfd events queue reply) s) : s.server.Steady := by
  refine h.invariant (I := fun s => s.server.Steady) (fun s a s' hI _ hstep => ?_)
    (PooledServer.steady_start listenfd events queue)
  cases a with
  | getCmd env =>
      obtain ⟨pipeline, _, rfl⟩ := Option.map_eq_some_iff.mp hstep
      exact hI
  | server b =>
      obtain ⟨server, pipeline, hserver, _, rfl⟩ := step_server hstep
      exact hI.step hserver

theorem published_stepped {t t' : PoolSystem Task} {b : PoolAction Task} (hstep : Stepped t b t')
    (h : t.published = true) : t'.published = true := by
  cases hstep <;> first | exact h | rfl

theorem parsed_contents (h : s.Ready) {b : PooledAction} {pipeline : Pipeline}
    (hparsed : s.parsed b = some pipeline) : pipeline.queue.contents.length
      ≤ s.pipeline.queue.contents.length + PooledServer.pushed b := by
  obtain ⟨reply, held, hinOrder⟩ := h.inOrder
  unfold parsed at hparsed
  split at hparsed
  · split at hparsed
    · exact Pipeline.contents_handle hinOrder hparsed
    · cases hparsed
  · obtain rfl := Option.some.inj hparsed
    exact Nat.le_add_right _ _

theorem Ready.step (h : s.Ready) (hstep : s.step a = some s') : s'.Ready := by
  obtain ⟨reply, held, hinOrder⟩ := h.inOrder
  cases a with
  | getCmd env =>
      obtain ⟨pipeline, hpipeline, rfl⟩ := Option.map_eq_some_iff.mp hstep
      exact ⟨h.steady, h.published, reply, hinOrder.step hpipeline⟩
  | server b =>
      obtain ⟨server, pipeline, hserver, hparsed, rfl⟩ := step_server hstep
      refine ⟨h.steady.step hserver, ?_, ?_⟩
      · obtain hsame | ⟨c, hstepped⟩ := (PooledServer.moves_of_step hserver).stepped_or_same
        · exact hsame ▸ h.published
        · exact published_stepped hstepped h.published
      · rcases parsed_cases hparsed with rfl | ⟨c, hc⟩
        · exact h.inOrder
        · exact ⟨reply, hinOrder.step hc⟩

theorem Ready.work_step (h : s.Ready) (hgoes : s.Goes a) (hstep : s.step a = some s') :
    s'.work + 1 ≤ s.work + cost a := by
  cases a with
  | getCmd env =>
      obtain ⟨reply, held, hinOrder⟩ := h.inOrder
      obtain ⟨pipeline, hpipeline, rfl⟩ := Option.map_eq_some_iff.mp hstep
      have hcontents := Pipeline.contents_getCmd hinOrder hgoes hpipeline
      simp only [work, cost]
      omega
  | server b =>
      obtain ⟨server, pipeline, hserver, hparsed, rfl⟩ := step_server hstep
      have hwork := h.steady.work_moved h.published hgoes (PooledServer.moves_of_step hserver)
      have hcontents := parsed_contents h hparsed
      simp only [work, cost]
      omega

/-! ### Somebody can go on -/

/-- Everything is done: the loop is in `epoll_wait` or has returned, every task has been run, and every
accepted command has been executed. -/
structure AtRest (s : CommandServer) : Prop where
  resting : s.server.system.Resting
  idle : ∀ w, s.server.handling w = .idle
  loop : ∀ nfds i, s.server.loop ≠ .processing nfds i
  finished : s.server.system.log.finished.Perm s.server.system.log.accepted
  executed : s.pipeline.accepted = s.pipeline.executed.map Prod.snd

/-- The next step of a thread leaves an object, whatever its locals hold and the system answers. -/
inductive Faulty (s : CommandServer) : Prop
  | worker (w : Nat) (task : Task) (chunk : Bytes) (hworker : s.server.handling w = .parsing task chunk)
      (hleaves : ∀ tmpStr residue, handle tmpStr residue (s.server.front.deref task) chunk = none)
  | getCmd (cmd : StCmdFrame) (hnext : s.pipeline.queue.contents.head? = some cmd)
      (hleaves : ∀ env, getCmd env s.pipeline.thread cmd = none)

/-- A step that nothing from outside is needed for. -/
def CanGo (s : CommandServer) : Prop := ∃ a, cost a = 0 ∧ s.Goes a ∧ (s.step a).isSome = true

theorem canGo_of_server {b : PooledAction} (hcost : PooledServer.cost b = 0)
    (hgoes : PooledServer.isReuse b = false) (hserver : (s.server.step b).isSome = true)
    (hparsed : (s.parsed b).isSome = true) : s.CanGo := by
  obtain ⟨server, hserver⟩ := Option.isSome_iff_exists.mp hserver
  obtain ⟨pipeline, hpipeline⟩ := Option.isSome_iff_exists.mp hparsed
  exact ⟨.server b, hcost, hgoes, by simp [step, hserver, hpipeline]⟩

/-- A worker in `handle` can go on. -/
theorem handle_progress {w : Nat} {task : Task}
    (hw : s.server.system.threads[w]? = some (.running task)) : s.CanGo ∨ s.Faulty := by
  have hrun : s.server.isRunning w = true := by
    rw [PooledServer.isRunning, hw]
    rfl
  cases hworker : s.server.handling w with
  | idle =>
      refine Or.inl (canGo_of_server (b := .pool (.finish w)) rfl rfl ?_ rfl)
      simp [PooledServer.step, PooledServer.poolStep, hworker, PoolSystem.step, PoolSystem.finish, hw]
  | reading job =>
      refine Or.inl (canGo_of_server (b := .server (.read w .again)) rfl rfl ?_ rfl)
      simp [PooledServer.step, PooledServer.serverStep, PooledServer.inHandle, hrun, Server.read,
        PooledServer.front, hworker]
  | deleting job =>
      refine Or.inl (canGo_of_server (b := .server (.opDeleteEvent w)) rfl rfl ?_ rfl)
      simp [PooledServer.step, PooledServer.serverStep, PooledServer.inHandle, hrun,
        Server.opDeleteEvent, PooledServer.front, hworker]
  | unlisting job =>
      refine Or.inl (canGo_of_server (b := .server (.delClilist w)) rfl rfl ?_ rfl)
      simp [PooledServer.step, PooledServer.serverStep, PooledServer.inHandle, hrun, Server.delClilist,
        PooledServer.front, hworker]
  | parsing job chunk =>
      by_cases hleaves : ∀ tmpStr residue,
          handle tmpStr residue (s.server.front.deref job) chunk = none
      · exact Or.inr (.worker w job chunk hworker hleaves)
      · push Not at hleaves
        obtain ⟨tmpStr, residue, hsome⟩ := hleaves
        obtain ⟨command, hcommand⟩ := Option.ne_none_iff_exists'.mp hsome
        have hfront : s.server.front.workers w = .parsing job chunk := hworker
        refine Or.inl (canGo_of_server (b := .server (.parse w tmpStr residue)) rfl rfl ?_ ?_)
        · simp [PooledServer.step, PooledServer.serverStep, PooledServer.inHandle, hrun, Server.parse,
            hfront, hcommand]
        · simp [parsed, hworker, Pipeline.step, Pipeline.receive, hcommand]

/-- The loop can go on when nobody else is inside the pool. -/
theorem Ready.loop_progress (h : s.Ready) (hrest : s.server.system.Resting) {nfds i : Nat}
    (hloop : s.server.loop = .processing nfds i) : s.CanGo := by
  obtain ⟨k, hk⟩ := List.length_eq_one_iff.mp h.steady.linked.single
  obtain rfl := hrest.alone k (by simp [hk])
  have hlive : s.server.system.freed = false := Bool.eq_false_of_not_eq_true fun hfreed =>
    ((h.steady.serving h.published).sound.ending.not_ending (h.steady.serving h.published).opened).2
      (Or.inr (Or.inr (Or.inr hfreed)))
  refine canGo_of_server (b := .server (.nextEvent true)) rfl rfl ?_ rfl
  simp only [PooledServer.step, PooledServer.serverStep, PooledServer.nextEvent, hloop]
  split_ifs with hclient
  · simp [PoolSystem.step, PoolSystem.call, hk, h.published, hlive]
  · simp only [PooledServer.front, Server.nextEvent, hloop]
    split_ifs <;> rfl

/-- The thread of `get_cmd` can go on when a command waits. -/
theorem Ready.getCmd_progress (h : s.Ready) :
    s.CanGo ∨ s.Faulty ∨ s.pipeline.accepted = s.pipeline.executed.map Prod.snd := by
  obtain ⟨reply, held, hinOrder⟩ := h.inOrder
  cases held with
  | nil => exact Or.inr (Or.inr (hinOrder.accepted_eq.trans (List.append_nil _)))
  | cons cmd rest =>
      by_cases hleaves : ∀ env, InstructionParser.getCmd env s.pipeline.thread cmd = none
      · refine Or.inr (Or.inl (.getCmd cmd ?_ hleaves))
        rw [hinOrder.holds.contents_eq]
        rfl
      · push Not at hleaves
        obtain ⟨env, hsome⟩ := hleaves
        have hempty : s.pipeline.queue.isQueueEmpty = false := by
          refine Bool.eq_false_of_not_eq_true fun hempty => ?_
          cases hinOrder.holds.isQueueEmpty_iff.mp hempty
        have hstep := Pipeline.getCmd_isSome hinOrder.holds (Option.isSome_iff_ne_none.mpr hsome)
        exact Or.inl ⟨.getCmd env, rfl, hempty, by simpa [CommandServer.step] using hstep⟩

theorem Ready.progress (h : s.Ready) : s.CanGo ∨ s.Faulty ∨ s.AtRest := by
  have hserving := h.steady.serving h.published
  obtain hrest | ⟨w, task, hw⟩ | ⟨b, hinside, hsome⟩ := hserving.progress
  · by_cases hloop : ∀ nfds i, s.server.loop ≠ .processing nfds i
    · have hidle : ∀ w, s.server.handling w = .idle := by
        intro w
        by_contra hbusy
        have hrun := h.steady.engaged w hbusy
        rw [PooledServer.runningAt] at hrun
        cases hw : s.server.system.threads[w]? with
        | none => simp [hw] at hrun
        | some t =>
            rw [hw, hrest.asleep t (List.mem_of_getElem? hw)] at hrun
            cases hrun
      obtain hgo | hfaulty | hexecuted := h.getCmd_progress
      · exact Or.inl hgo
      · exact Or.inr (Or.inl hfaulty)
      · exact Or.inr (Or.inr ⟨hrest, hidle, hloop, hrest.finished hserving.sound.accounted, hexecuted⟩)
    · push Not at hloop
      obtain ⟨nfds, i, hloop⟩ := hloop
      exact Or.inl (h.loop_progress hrest hloop)
  · exact (handle_progress hw).imp_right Or.inl
  · have hcost : PooledServer.cost (.pool b) = 0 := by
      cases b <;> first | rfl | cases hinside
    refine Or.inl (canGo_of_server hcost rfl ?_ rfl)
    cases b with
    | lockMutex | add | test => simpa [PooledServer.step, PooledServer.poolStep] using hsome
    | _ => cases hinside

/-- **The server comes to rest.** From every reachable state in which the pool is there, the threads take
only so many steps that do something, in whatever order: eleven at most for each event that `epoll_wait`
reports, one for the report, and three for each wake-up without a cause. They are stopped only when
everything is done, or when a thread would leave an object. -/
theorem comes_to_rest {listenfd : Int} {events : Nat → EpollEvent} {queue : Nat → Task} {reply : Reply}
    (h : Reaches step anyAction (start listenfd events queue reply) s)
    (hpool : s.server.system.published = true) {as : List CommandAction}
    (hgoes : Allowed step Goes s as) (hexec : exec step s as = some s') :
    as.length ≤ s.work + spent cost as ∧ (¬ s'.CanGo → s'.Faulty ∨ s'.AtRest) := by
  have hready : s.Ready :=
    ⟨steady_of_reaches h, hpool, reply, Pipeline.inOrder_of_reaches (reaches_pipeline h)⟩
  obtain ⟨hready', hlength⟩ := length_le_of_measure work cost
    (fun _ _ _ hI hok hstep => ⟨Ready.step hI hstep, Ready.work_step hI hok hstep⟩) hready hgoes hexec
  exact ⟨Nat.le_of_add_right_le hlength, fun hstopped => hready'.progress.resolve_left hstopped⟩

theorem comes_to_rest_serveLine :
    ∃ s s', exec step beforePool createPool = some s ∧ exec step s (untilRead ++ fromRead) = some s'
      ∧ (untilRead ++ fromRead).length ≤ s.work + spent cost (untilRead ++ fromRead) := by
  have hrun : (exec step beforePool createPool).map (fun s => (s.server.system.published,
      decide (Allowed step Goes s (untilRead ++ fromRead)),
      (exec step s (untilRead ++ fromRead)).isSome)) = some (true, true, true) := by decide +kernel
  obtain ⟨s, hcreate, hs⟩ := Option.map_eq_some_iff.mp hrun
  simp only [Prod.mk.injEq, decide_eq_true_eq] at hs
  obtain ⟨hpool, hgoes, hserve⟩ := hs
  obtain ⟨s', hexec⟩ := Option.isSome_iff_exists.mp hserve
  exact ⟨s, s', hcreate, hexec, (comes_to_rest (reaches_of_exec hcreate) hpool hgoes hexec).1⟩

end CommandServer

end InstructionParser
