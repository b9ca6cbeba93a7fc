import InstructionParser.PooledServer
import InstructionParser.Proof.PoolTermination

/-!
# The pool serves as a list of tasks

Seen from `start_server` and from `handle`, the ring, its mutex and its condition variable are a list of
tasks to which the loop appends and from which an idle worker takes the oldest one.
-/

namespace InstructionParser

open Runs PoolSystem

namespace PooledServer

variable {s s' : PooledServer} {system : PoolSystem Task} {w : Nat}

def runningAt (threads : List (PoolThread Task)) (w : Nat) : Bool :=
  threads[w]?.any fun t => t.task?.isSome

/-- The worker as the server sees it: idle between its tasks. -/
def busy (s : PooledServer) (w : Nat) : Worker :=
  if runningAt s.system.threads w then s.handling w else .idle

/-- The server over a list of tasks. -/
def toServer (s : PooledServer) : Server :=
  { s.front with queue := s.system.pool.tasks, workers := s.busy }

theorem runningAt_set {threads : List (PoolThread Task)} {i : Nat} {old t : PoolThread Task}
    (hi : threads[i]? = some old) (hsame : old.task?.isSome = t.task?.isSome) (w : Nat) :
    runningAt (threads.set i t) w = runningAt threads w := by
  unfold runningAt
  by_cases hw : i = w
  · subst hw
    rw [List.getElem?_set_self (List.getElem?_eq_some_iff.mp hi).1, hi]
    exact hsame.symm
  · rw [List.getElem?_set_ne hw]

theorem runningAt_set_ne {threads : List (PoolThread Task)} {v : Nat} (t : PoolThread Task)
    (hv : v ≠ w) : runningAt (threads.set w t) v = runningAt threads v := by
  rw [runningAt, List.getElem?_set_ne hv.symm, runningAt]

theorem runningAt_concat (threads : List (PoolThread Task)) (w : Nat) :
    runningAt (threads ++ [PoolThread.locking]) w = runningAt threads w := by
  unfold runningAt
  rw [List.getElem?_append]
  split_ifs with hlt
  · rfl
  · rw [List.getElem?_eq_none (Nat.le_of_not_lt hlt)]
    cases hw : [PoolThread.locking][w - threads.length]? with
    | none => rfl
    | some t =>
        obtain rfl := List.eq_of_mem_singleton (List.mem_of_getElem? hw)
        rfl

theorem runningAt_wake (threads : List (PoolThread Task)) (w : Nat) :
    runningAt (threads.map PoolThread.wake) w = runningAt threads w := by
  unfold runningAt
  rw [List.getElem?_map]
  cases threads[w]? with
  | none => rfl
  | some t => cases t <;> rfl

/-- A step of the pool that the server does not see. -/
theorem toServer_congr (htasks : system.pool.tasks = s.system.pool.tasks)
    (hrunning : ∀ w, runningAt system.threads w = runningAt s.system.threads w) :
    toServer { s with system } = s.toServer := by
  have hbusy : busy { s with system } = s.busy := by
    funext w
    simp only [busy, hrunning]
  simp only [toServer, hbusy, htasks]
  rfl

/-! ### What the server sees of a step of the pool -/

/-- Steps that the server takes part in. -/
def seen : PoolAction Task → Bool
  | .add _ _ => true
  | .test _ => true
  | .finish _ => true
  | _ => false

theorem unseen_fields {a : PoolAction Task} (hstep : Stepped s.system a system)
    (ha : seen a = false) : system.pool.tasks = s.system.pool.tasks
      ∧ ∀ w, runningAt system.threads w = runningAt s.system.threads w := by
  cases hstep with
  | created => exact ⟨rfl, runningAt_concat _⟩
  | threadLocked _ _ hi ht =>
      obtain ⟨hidle, rfl⟩ := task?_locked ht
      exact ⟨rfl, runningAt_set hi (by rw [hidle]; rfl)⟩
  | shutDown => exact ⟨rfl, runningAt_wake _⟩
  | spurious hi => exact ⟨rfl, runningAt_set hi rfl⟩
  | addedWaking | added | refused | waits | exits | takes | finished => cases ha
  | _ => exact ⟨rfl, fun _ => rfl⟩

theorem toServer_unseen {a : PoolAction Task} (hstep : Stepped s.system a system)
    (ha : seen a = false) : toServer { s with system } = s.toServer :=
  toServer_congr (unseen_fields hstep ha).1 (unseen_fields hstep ha).2

theorem busy_of_not_running (h : runningAt s.system.threads w = false) : s.busy w = .idle := by
  rw [busy, h, if_neg Bool.false_ne_true]

theorem busy_of_running (h : runningAt s.system.threads w = true) : s.busy w = s.handling w := by
  rw [busy, h, if_pos rfl]

theorem runningAt_of_some {threads : List (PoolThread Task)} {t : PoolThread Task}
    (h : threads[w]? = some t) : runningAt threads w = t.task?.isSome := by
  rw [runningAt, h, Option.any_some]

theorem busy_congr {t : PooledServer} (hrunning : runningAt t.system.threads w
    = runningAt s.system.threads w) (hhandling : t.handling w = s.handling w) :
    t.busy w = s.busy w := by
  rw [busy, hrunning, hhandling, busy]

theorem busy_finish {t t' : PoolThread Task} (hi : s.system.threads[w]? = some t)
    (hthreads : system.threads = s.system.threads.set w t') (ht' : t'.task? = none)
    (hidle : s.handling w = .idle) : busy { s with system } = s.busy := by
  have hself : system.threads[w]? = some t' := by
    rw [hthreads]
    exact List.getElem?_set_self (List.getElem?_eq_some_iff.mp hi).1
  funext v
  by_cases hv : v = w
  · subst hv
    have hbefore : s.busy v = .idle := by
      unfold busy
      split_ifs
      · exact hidle
      · rfl
    rw [hbefore]
    exact busy_of_not_running ((runningAt_of_some hself).trans (by rw [ht']; rfl))
  · exact busy_congr (hthreads ▸ runningAt_set_ne t' hv) rfl

theorem busy_take {t : PoolThread Task} {task : Task} (hi : s.system.threads[w]? = some t)
    (hthreads : system.threads = s.system.threads.set w (.running task)) :
    busy { s with system, handling := Function.update s.handling w (.reading task) }
      = Function.update s.busy w (.reading task) := by
  have hself : system.threads[w]? = some (.running task) := by
    rw [hthreads]
    exact List.getElem?_set_self (List.getElem?_eq_some_iff.mp hi).1
  funext v
  by_cases hv : v = w
  · subst hv
    rw [busy_of_running ((runningAt_of_some hself).trans rfl), Function.update_self]
    exact Function.update_self ..
  · rw [Function.update_of_ne hv]
    exact busy_congr (hthreads ▸ runningAt_set_ne _ hv) (Function.update_of_ne hv _ _)

theorem finish_fields (hstep : Stepped s.system (.finish w) system) :
    (∃ t, s.system.threads[w]? = some t) ∧ system.threads = s.system.threads.set w .locking
      ∧ system.pool = s.system.pool := by
  cases hstep with
  | finished hi => exact ⟨⟨_, hi⟩, rfl, rfl⟩

/-- A task returns when the worker is through with `handle`. -/
theorem toServer_finish (hstep : Stepped s.system (.finish w) system) (hidle : s.handling w = .idle) :
    toServer { s with system } = s.toServer := by
  obtain ⟨⟨t, hi⟩, hthreads, hpool⟩ := finish_fields hstep
  have hbusy := busy_finish hi hthreads rfl hidle
  simp only [toServer, hbusy, hpool]
  rfl

theorem test_fields (hsound : Sound serverPool s.system) (hstep : Stepped s.system (.test w) system) :
    s.system.threads[w]? = some .testing
      ∧ ((∃ t, system.threads = s.system.threads.set w t ∧ t.task? = none
          ∧ system.pool.tasks = s.system.pool.tasks)
        ∨ ∃ task, system.threads = s.system.threads.set w (.running task)
          ∧ s.system.pool.tasks = task :: system.pool.tasks) := by
  cases hstep with
  | waits hi => exact ⟨hi, Or.inl ⟨_, rfl, rfl, rfl⟩⟩
  | exits hi => exact ⟨hi, Or.inl ⟨_, rfl, rfl, rfl⟩⟩
  | takes hi hsome =>
      exact ⟨hi, Or.inr ⟨_, rfl, hsound.accounted.wellFormed.tasks_popped hsome⟩⟩

theorem entered_idle {t : PoolThread Task} (hw : system.threads[w]? = some t) (ht : t.task? = none) :
    s.entered w system = s.handling := by
  rw [entered, hw]
  cases t <;> first | rfl | cases ht

theorem entered_running {task : Task} (hw : system.threads[w]? = some (.running task)) :
    s.entered w system = Function.update s.handling w (.reading task) := by
  rw [entered, hw]

/-- A worker that tests the pool finds nothing, or it takes the oldest task of the list. -/
theorem toServer_test (hsound : Sound serverPool s.system)
    (hstep : Stepped s.system (.test w) system) :
    toServer { s with system, handling := s.entered w system } = s.toServer
      ∨ s.toServer.step (.dequeue w)
        = some (toServer { s with system, handling := s.entered w system }) := by
  obtain ⟨hi, hkind⟩ := test_fields hsound hstep
  have hself : ∀ {t}, system.threads = s.system.threads.set w t → system.threads[w]? = some t := by
    intro t hthreads
    rw [hthreads]
    exact List.getElem?_set_self (List.getElem?_eq_some_iff.mp hi).1
  rcases hkind with ⟨t, hthreads, hidle, htasks⟩ | ⟨task, hthreads, htasks⟩
  · left
    rw [entered_idle (hself hthreads) hidle]
    exact toServer_congr htasks (hthreads ▸ runningAt_set hi (by rw [hidle]; rfl))
  · right
    have hidle : s.busy w = .idle := busy_of_not_running (runningAt_of_some hi)
    rw [entered_running (hself hthreads)]
    simp only [Server.step, Server.dequeue, toServer, hidle, htasks, busy_take hi hthreads]
    rfl

/-! ### The link between the loop and its call of the pool -/

structure Linked (s : PooledServer) : Prop where
  sound : Sound serverPool s.system
  single : s.system.callers.length = 1
  serving : s.system.published = true →
    s.system.pool.shutdown = .none ∧ ∀ k ∈ s.system.callers, isDestroying k = false
  adding : ∀ task, .addLocking task ∈ s.system.callers ∨ .adding task ∈ s.system.callers →
    ∃ nfds i, s.loop = .processing nfds i ∧ task = { slot := i, fd := (s.events i).fd }
      ∧ (s.events i).fd ≠ s.listenfd ∧ (s.events i).epollIn = true

theorem add_fields (hlinked : s.Linked) {c : Nat} {woken : Option Nat}
    (hstep : Stepped s.system (.add c woken) system) :
    ∃ task, s.system.callers[c]? = some (.adding task)
      ∧ system.pool.tasks = Server.threadpoolAdd s.system.pool.tasks task
      ∧ (∀ w, runningAt system.threads w = runningAt s.system.threads w)
      ∧ system.callers = s.system.callers.set c .outside := by
  have hsize : s.system.pool.queueSize = poolCapacity := hlinked.sound.creation.queueSize_eq
  have hwell := hlinked.sound.accounted.wellFormed
  have hroom : ∀ task, s.system.pool.count ≠ s.system.pool.queueSize →
      Server.threadpoolAdd s.system.pool.tasks task = s.system.pool.tasks ++ [task] := by
    intro task hne
    rw [Server.threadpoolAdd, if_neg]
    rwa [Threadpool.tasks_length, ← hsize]
  cases hstep with
  | addedWaking hc hne hopen hi =>
      exact ⟨_, hc, (hwell.tasks_add hne hopen _).trans (hroom _ hne).symm,
        runningAt_set hi rfl, rfl⟩
  | added hc hne hopen =>
      exact ⟨_, hc, (hwell.tasks_add hne hopen _).trans (hroom _ hne).symm, fun _ => rfl, rfl⟩
  | refused hc hno =>
      refine ⟨_, hc, ?_, fun _ => rfl, rfl⟩
      have hopen := (hlinked.serving (hlinked.sound.creation.published_of_adding hc)).1
      have hfull := hno.resolve_right (by simp [hopen])
      rw [Server.threadpoolAdd, if_pos (by rw [Threadpool.tasks_length, hfull, hsize])]
      rfl

/-- `threadpool_add` is what the loop does with the event of a client. -/
theorem toServer_add (hlinked : s.Linked) {c : Nat} {woken : Option Nat}
    (hstep : Stepped s.system (.add c woken) system) :
    s.toServer.step (.nextEvent true)
      = some (toServer { s with system, loop := afterAdd s.loop }) := by
  obtain ⟨task, hc, htasks, hrunning, _⟩ := add_fields hlinked hstep
  obtain ⟨nfds, i, hloop, rfl, hfd, hin⟩ :=
    hlinked.adding task (Or.inr (List.mem_of_getElem? hc))
  have hbusy : ∀ loop, busy { s with system, loop } = s.busy := fun loop =>
    funext fun w => busy_congr (hrunning w) rfl
  simp only [Server.step, Server.nextEvent, toServer, front, hloop, if_neg hfd, if_pos hin, hbusy,
    htasks, afterAdd]

/-! ### Steps of the loop and of `handle` -/

theorem toServer_epollWait {ready : List EpollEvent}
    (h : (s.front.epollWait ready).map s.withFront = some s') :
    s.toServer.epollWait ready = some s'.toServer := by
  obtain ⟨t, ht, rfl⟩ := Option.map_eq_some_iff.mp h
  simp only [Server.epollWait, toServer, front] at ht ⊢
  cases hloop : s.loop with
  | waiting =>
      rw [hloop] at ht
      split_ifs at ht ⊢
      obtain rfl := Option.some.inj ht
      rfl
  | processing | returned =>
      rw [hloop] at ht
      cases ht

theorem toServer_reuse {memory : Nat → EpollEvent}
    (h : (s.front.reuse memory).map s.withFront = some s') :
    s.toServer.reuse memory = some s'.toServer := by
  obtain ⟨t, ht, rfl⟩ := Option.map_eq_some_iff.mp h
  simp only [Server.reuse, toServer, front] at ht ⊢
  cases hloop : s.loop with
  | returned =>
      rw [hloop] at ht
      obtain rfl := Option.some.inj ht
      rfl
  | waiting | processing =>
      rw [hloop] at ht
      cases ht

theorem busy_withFront (hrun : s.isRunning w = true) {t : Server} {worker : Worker}
    (ht : t.workers = Function.update s.handling w worker) :
    busy (s.withFront t) = Function.update s.busy w worker := by
  funext v
  by_cases hv : v = w
  · subst hv
    rw [Function.update_self]
    exact (busy_of_running (s := s.withFront t) hrun).trans
      ((congrFun ht v).trans (Function.update_self ..))
  · rw [Function.update_of_ne hv]
    exact busy_congr rfl ((congrFun ht v).trans (Function.update_of_ne hv _ _))

theorem toServer_read (hrun : s.isRunning w = true) {result : ReadResult} {t : Server}
    (ht : s.front.read w result = some t) : s.toServer.read w result = some (s.withFront t).toServer := by
  have hbusy : s.busy w = s.handling w := busy_of_running hrun
  simp only [Server.read, toServer, hbusy] at ht ⊢
  split at ht
  case h_2 => cases ht
  case h_1 task hworker =>
    obtain rfl := Option.some.inj ht
    have hworker : s.handling w = .reading task := hworker
    rw [hworker, busy_withFront hrun rfl]
    rfl

theorem toServer_opDeleteEvent (hrun : s.isRunning w = true) {t : Server}
    (ht : s.front.opDeleteEvent w = some t) :
    s.toServer.opDeleteEvent w = some (s.withFront t).toServer := by
  have hbusy : s.busy w = s.handling w := busy_of_running hrun
  simp only [Server.opDeleteEvent, toServer, hbusy] at ht ⊢
  split at ht
  case h_2 => cases ht
  case h_1 task hworker =>
    obtain rfl := Option.some.inj ht
    have hworker : s.handling w = .deleting task := hworker
    rw [hworker, busy_withFront hrun rfl]
    rfl

theorem toServer_delClilist (hrun : s.isRunning w = true) {t : Server}
    (ht : s.front.delClilist w = some t) :
    s.toServer.delClilist w = some (s.withFront t).toServer := by
  have hbusy : s.busy w = s.handling w := busy_of_running hrun
  simp only [Server.delClilist, toServer, hbusy] at ht ⊢
  split at ht
  case h_2 => cases ht
  case h_1 task hworker =>
    obtain rfl := Option.some.inj ht
    have hworker : s.handling w = .unlisting task := hworker
    rw [hworker, busy_withFront hrun rfl]
    rfl

theorem toServer_parse (hrun : s.isRunning w = true) {tmpStr : CLib.Block 128}
    {residue : StCmdFrame} {t : Server} (ht : s.front.parse w tmpStr residue = some t) :
    s.toServer.parse w tmpStr residue = some (s.withFront t).toServer := by
  have hbusy : s.busy w = s.handling w := busy_of_running hrun
  simp only [Server.parse, toServer, hbusy] at ht ⊢
  split at ht
  case h_2 => cases ht
  case h_1 task chunk hworker =>
    obtain ⟨command, hcommand, rfl⟩ := Option.map_eq_some_iff.mp ht
    have hworker : s.handling w = .parsing task chunk := hworker
    rw [hworker, busy_withFront hrun rfl]
    refine Option.map_eq_some_iff.mpr ⟨command, hcommand, rfl⟩

theorem inHandle_eq_some {moved : Option Server} (h : s.inHandle w moved = some s') :
    s.isRunning w = true ∧ ∃ t, moved = some t ∧ s' = s.withFront t := by
  rw [inHandle] at h
  split_ifs at h with hrun
  obtain ⟨t, ht, rfl⟩ := Option.map_eq_some_iff.mp h
  exact ⟨hrun, t, ht, rfl⟩

/-- The loop has called `threadpool_add` for its event. -/
def asking (s : PooledServer) (i : Nat) : PooledServer :=
  let task : Task := { slot := i, fd := (s.events i).fd }
  { s with system := s.system.setCaller 0 (.addLocking task) }

/-- The loop asks for a task to be added, which the server sees when it has been, or goes on. -/
theorem nextEvent_cases {accepted : Bool} (h : s.nextEvent accepted = some s') :
    ∃ nfds i, s.loop = .processing nfds i
      ∧ (((s.events i).fd ≠ s.listenfd ∧ (s.events i).epollIn = true
          ∧ s.system.callers[0]? = some .outside ∧ s.system.published = true
          ∧ s.system.freed = false ∧ s' = s.asking i)
        ∨ (¬ ((s.events i).fd ≠ s.listenfd ∧ (s.events i).epollIn = true)
          ∧ s.toServer.nextEvent accepted = some s'.toServer
          ∧ ∃ loop, (loop = .returned ∨ loop = Server.loopAt nfds (i + 1)) ∧ s' = { s with loop })) := by
  unfold nextEvent at h
  split at h
  case h_2 => cases h
  case h_1 nfds i hloop =>
    refine ⟨nfds, i, hloop, ?_⟩
    by_cases hclient : (s.events i).fd ≠ s.listenfd ∧ (s.events i).epollIn = true
    · rw [if_pos hclient] at h
      obtain ⟨system, hcall, rfl⟩ := Option.map_eq_some_iff.mp h
      obtain ⟨hc, hpool, hlive, rfl⟩ := call_eq_some hcall
      exact Or.inl ⟨hclient.1, hclient.2, hc, hpool, hlive, rfl⟩
    · rw [if_neg hclient] at h
      obtain ⟨t, ht, rfl⟩ := Option.map_eq_some_iff.mp h
      refine Or.inr ⟨hclient, ?_⟩
      simp only [Server.nextEvent, toServer, front, hloop] at ht ⊢
      by_cases hfd : (s.events i).fd = s.listenfd
      · rw [if_pos hfd] at ht ⊢
        obtain rfl := Option.some.inj ht
        refine ⟨rfl, _, ?_, rfl⟩
        cases accepted
        · exact Or.inl rfl
        · exact Or.inr rfl
      · have hin : ¬ (s.events i).epollIn = true := fun hin => hclient ⟨hfd, hin⟩
        rw [if_neg hfd, if_neg hin] at ht ⊢
        obtain rfl := Option.some.inj ht
        exact ⟨rfl, _, Or.inr rfl, rfl⟩

/-! ### Runs -/

theorem linked_start (listenfd : Int) (events : Nat → EpollEvent) (queue : Nat → Task) :
    (start listenfd events queue).Linked where
  sound := sound_of_reaches (Reaches.refl (PoolSystem.start serverPool queue 0))
  single := rfl
  serving h := by cases h
  adding task h := by
    rcases h with h | h
    · cases List.eq_of_mem_singleton h
    · cases List.eq_of_mem_singleton h

/-- Steps that change neither the pool nor what the loop has asked for. -/
theorem Linked.congr (h : s.Linked) (hsystem : s'.system = s.system)
    (hadding : ∀ task, .addLocking task ∈ s.system.callers ∨ .adding task ∈ s.system.callers →
      s'.loop = s.loop ∧ s'.events = s.events ∧ s'.listenfd = s.listenfd) : s'.Linked where
  sound := hsystem ▸ h.sound
  single := hsystem ▸ h.single
  serving := hsystem ▸ h.serving
  adding task htask := by
    rw [hsystem] at htask
    obtain ⟨hloop, hevents, hlistenfd⟩ := hadding task htask
    rw [hloop, hevents, hlistenfd]
    exact h.adding task htask

theorem Linked.asking (h : s.Linked) {nfds i : Nat} (hloop : s.loop = .processing nfds i)
    (hfd : (s.events i).fd ≠ s.listenfd) (hin : (s.events i).epollIn = true)
    (hc : s.system.callers[0]? = some .outside) (hpool : s.system.published = true)
    (hlive : s.system.freed = false) : (s.asking i).Linked where
  sound := h.sound.stepped (.calledAdd hc hpool hlive)
  single := by
    rw [PooledServer.asking, PoolSystem.setCaller, List.length_set]
    exact h.single
  serving _ := ⟨(h.serving hpool).1, single_setCaller (h.serving hpool).2 rfl⟩
  adding task htask := by
    refine ⟨nfds, i, hloop, ?_, hfd, hin⟩
    obtain ⟨k, hk⟩ := List.length_eq_one_iff.mp h.single
    have hcallers : (s.asking i).system.callers
        = [.addLocking { slot := i, fd := (s.events i).fd }] := by
      simp only [PooledServer.asking, PoolSystem.setCaller, hk, List.set_cons_zero]
    rw [hcallers] at htask
    rcases htask with htask | htask
    · exact PoolCaller.addLocking.inj (List.eq_of_mem_singleton htask)
    · cases List.eq_of_mem_singleton htask

/-- A task that is to be added has been asked for before. -/
theorem asked_of_stepped {a : PoolAction Task} (hcall : isCall a = false)
    (hstep : Stepped s.system a system) (task : Task)
    (h : .addLocking task ∈ system.callers ∨ .adding task ∈ system.callers) :
    .addLocking task ∈ s.system.callers ∨ .adding task ∈ s.system.callers := by
  have hset : ∀ (callers : List (PoolCaller Task)) (c : Nat) (k : PoolCaller Task),
      k ≠ .addLocking task → k ≠ .adding task →
      (.addLocking task ∈ callers.set c k ∨ .adding task ∈ callers.set c k) →
      .addLocking task ∈ callers ∨ .adding task ∈ callers := by
    intro callers c k hlocking hadding hmem
    rcases hmem with hmem | hmem
    · exact Or.inl ((Census.mem_set_cases hmem).resolve_left hlocking.symm)
    · exact Or.inr ((Census.mem_set_cases hmem).resolve_left hadding.symm)
  cases hstep with
  | calledAdd | calledDestroy => cases hcall
  | @callerLocked c k k' _ _ hc hk =>
      cases k with
      | addLocking asked =>
          obtain rfl := Option.some.inj hk
          rcases h with h | h
          · exact Or.inl ((Census.mem_set_cases h).resolve_left (by simp))
          · rcases Census.mem_set_cases h with heq | hmem
            · obtain rfl := PoolCaller.adding.inj heq
              exact Or.inl (List.mem_of_getElem? hc)
            · exact Or.inr hmem
      | destroyLocking =>
          obtain rfl := Option.some.inj hk
          exact hset _ _ _ (by simp) (by simp) h
      | _ => cases hk
  | threadLocked | waits | exits | takes | spurious | finished => exact h
  | _ => exact hset _ _ _ (by simp) (by simp) h

/-- The pool is served until the end: nobody shuts it down once it is there. -/
theorem Linked.serving_stepped (h : s.Linked) {a : PoolAction Task} (hcall : isCall a = false)
    (hstep : Stepped s.system a system) (hpool : system.published = true) :
    system.pool.shutdown = .none ∧ ∀ k ∈ system.callers, isDestroying k = false := by
  have hcreating : ∀ {c : Nat} {k : PoolCaller Task}, s.system.callers[c]? = some k →
      isCreating k = true → s.system.published ≠ true := by
    intro c k hc hk
    simp [(h.sound.creation.creating hc hk).1]
  have hdestroying : ∀ {c : Nat} {k : PoolCaller Task}, s.system.callers[c]? = some k →
      isDestroying k = true → s.system.published ≠ true := by
    intro c k hc hk hdone
    rw [(h.serving hdone).2 k (List.mem_of_getElem? hc)] at hk
    cases hk
  have hkeep : ∀ (hdone : s.system.published = true) (c : Nat) (k : PoolCaller Task),
      isDestroying k = false → ∀ k' ∈ s.system.callers.set c k, isDestroying k' = false :=
    fun hdone _ _ hk => single_setCaller (h.serving hdone).2 hk
  cases hstep with
  | created hc | notCreated hc | counted hc => exact absurd hpool (hcreating hc rfl)
  | @published c n hc =>
      obtain ⟨_, rfl, _, _, hopen⟩ := h.sound.creation.creating hc rfl
      obtain ⟨k, hk⟩ := List.length_eq_one_iff.mp h.single
      refine ⟨hopen, fun k' hk' => ?_⟩
      simp only [PoolSystem.setCaller, hk, List.set_cons_zero] at hk'
      obtain rfl := List.eq_of_mem_singleton hk'
      rfl
  | calledAdd | calledDestroy => cases hcall
  | @callerLocked c k k' _ _ hc hk =>
      cases k with
      | addLocking task =>
          obtain rfl := Option.some.inj hk
          exact ⟨(h.serving hpool).1, hkeep hpool c _ rfl⟩
      | destroyLocking => exact absurd hpool (hdestroying hc rfl)
      | _ => cases hk
  | @addedWaking c i task _ _ hopen | @added c task _ _ hopen =>
      exact ⟨(s.system.pool.add_shutdown task).trans hopen, hkeep hpool c _ rfl⟩
  | shutDown hc | abandoned hc => exact absurd hpool (hdestroying hc rfl)
  | @refused c | @joined c | @allJoined c | @keptPool c | @freedArrays c | @freedPool c =>
      exact ⟨(h.serving hpool).1, hkeep hpool c _ rfl⟩
  | threadLocked | waits | exits | takes | spurious | finished => exact h.serving hpool

theorem Linked.poolStepped (h : s.Linked) {a : PoolAction Task} (hcall : isCall a = false)
    (hstep : Stepped s.system a system) {loop : ServerLoop} {handling : Nat → Worker}
    (hloop : ∀ task, .addLocking task ∈ system.callers ∨ .adding task ∈ system.callers → loop = s.loop) :
    Linked { s with system, loop, handling } where
  sound := h.sound.stepped hstep
  single := by
    have hlength : system.callers.length = s.system.callers.length := by
      cases hstep <;> first | rfl | exact List.length_set
    exact hlength.trans h.single
  serving := h.serving_stepped hcall hstep
  adding task htask := by
    have hsame := hloop task htask
    subst hsame
    exact h.adding task (asked_of_stepped hcall hstep task htask)

/-! ### Refinement -/

/-- The step of the server over a list of tasks that a step over the pool can be: the loop goes on when
`threadpool_add` has its task, and a worker takes a task where it tests for one. -/
def counterpart : PooledAction → Option ServerAction
  | .server a => some a
  | .pool (.add _ _) => some (.nextEvent true)
  | .pool (.test w) => some (.dequeue w)
  | .pool _ => none

/-- What a step of the server over its pool is for the server over a list of tasks: nothing, or its
counterpart. -/
def Matches (s : PooledServer) (a : PooledAction) (s' : PooledServer) : Prop :=
  s'.toServer = s.toServer ∨ ∃ b ∈ counterpart a, s.toServer.step b = some s'.toServer

/-- Steps of a worker in `handle`. -/
def ofHandle : ServerAction → Bool
  | .read _ _ => true
  | .opDeleteEvent _ => true
  | .delClilist _ => true
  | .parse _ _ _ => true
  | _ => false

theorem frame_ofHandle {t t' : Server} {a : ServerAction} (ha : ofHandle a = true)
    (h : t.step a = some t') : t'.loop = t.loop ∧ t'.events = t.events := by
  cases a with
  | epollWait | nextEvent | reuse | dequeue => cases ha
  | read w result =>
      simp only [Server.step, Server.read] at h
      split at h
      case h_2 => cases h
      case h_1 =>
        obtain rfl := Option.some.inj h
        exact ⟨rfl, rfl⟩
  | opDeleteEvent w =>
      simp only [Server.step, Server.opDeleteEvent] at h
      split at h
      case h_2 => cases h
      case h_1 =>
        obtain rfl := Option.some.inj h
        exact ⟨rfl, rfl⟩
  | delClilist w =>
      simp only [Server.step, Server.delClilist] at h
      split at h
      case h_2 => cases h
      case h_1 =>
        obtain rfl := Option.some.inj h
        exact ⟨rfl, rfl⟩
  | parse w tmpStr residue =>
      simp only [Server.step, Server.parse] at h
      split at h
      case h_2 => cases h
      case h_1 =>
        obtain ⟨command, _, rfl⟩ := Option.map_eq_some_iff.mp h
        exact ⟨rfl, rfl⟩

/-- A worker in `handle` does what the worker of the list does. -/
theorem serverStep_ofHandle {a : ServerAction} (ha : ofHandle a = true)
    (h : s.serverStep a = some s') :
    s.toServer.step a = some s'.toServer ∧ ∃ t, s.front.step a = some t ∧ s' = s.withFront t := by
  cases a with
  | epollWait | nextEvent | reuse | dequeue => cases ha
  | read w result =>
      obtain ⟨hrun, t, ht, rfl⟩ := inHandle_eq_some h
      exact ⟨toServer_read hrun ht, t, ht, rfl⟩
  | opDeleteEvent w =>
      obtain ⟨hrun, t, ht, rfl⟩ := inHandle_eq_some h
      exact ⟨toServer_opDeleteEvent hrun ht, t, ht, rfl⟩
  | delClilist w =>
      obtain ⟨hrun, t, ht, rfl⟩ := inHandle_eq_some h
      exact ⟨toServer_delClilist hrun ht, t, ht, rfl⟩
  | parse w tmpStr residue =>
      obtain ⟨hrun, t, ht, rfl⟩ := inHandle_eq_some h
      exact ⟨toServer_parse hrun ht, t, ht, rfl⟩

theorem Linked.processing (h : s.Linked) (hloop : ∀ nfds i, s.loop ≠ .processing nfds i) (task : Task) :
    ¬ (.addLocking task ∈ s.system.callers ∨ .adding task ∈ s.system.callers) := by
  intro htask
  obtain ⟨nfds, i, hat, _⟩ := h.adding task htask
  exact hloop nfds i hat

theorem matches_epollWait (h : s.Linked) {ready : List EpollEvent}
    (hstep : s.serverStep (.epollWait ready) = some s') :
    s'.Linked ∧ s.toServer.step (.epollWait ready) = some s'.toServer := by
  simp only [serverStep] at hstep
  split_ifs at hstep
  have hserver := toServer_epollWait hstep
  obtain ⟨t, ht, rfl⟩ := Option.map_eq_some_iff.mp hstep
  refine ⟨h.congr rfl fun task htask => absurd htask (h.processing (fun nfds i hat => ?_) task), hserver⟩
  simp only [Server.epollWait, front, hat] at ht
  cases ht

theorem matches_reuse (h : s.Linked) {memory : Nat → EpollEvent}
    (hstep : s.serverStep (.reuse memory) = some s') :
    s'.Linked ∧ s.toServer.step (.reuse memory) = some s'.toServer := by
  have hserver := toServer_reuse hstep
  obtain ⟨t, ht, rfl⟩ := Option.map_eq_some_iff.mp hstep
  refine ⟨h.congr rfl fun task htask => absurd htask (h.processing (fun nfds i hat => ?_) task), hserver⟩
  simp only [Server.reuse, front, hat] at ht
  cases ht

theorem matches_nextEvent (h : s.Linked) {accepted : Bool}
    (hstep : s.serverStep (.nextEvent accepted) = some s') : s'.Linked
      ∧ (s.toServer.step (.nextEvent accepted) = some s'.toServer ∨ s'.toServer = s.toServer) := by
  obtain ⟨nfds, i, hloop, hasks | hskips⟩ := nextEvent_cases hstep
  · obtain ⟨hfd, hin, hc, hpool, hlive, rfl⟩ := hasks
    exact ⟨h.asking hloop hfd hin hc hpool hlive, Or.inr rfl⟩
  · obtain ⟨hother, hserver, loop, _, rfl⟩ := hskips
    refine ⟨h.congr rfl fun task htask => ?_, Or.inl hserver⟩
    obtain ⟨nfds', j, hat, _, hfd, hin⟩ := h.adding task htask
    obtain ⟨rfl, rfl⟩ := ServerLoop.processing.inj (hloop.symm.trans hat)
    exact absurd ⟨hfd, hin⟩ hother

/-- A step of the loop or of a worker in `handle` is the same step there, or the loop has asked for a
task to be added. -/
theorem matches_server (h : s.Linked) {a : ServerAction} (hstep : s.serverStep a = some s') :
    s'.Linked ∧ (s.toServer.step a = some s'.toServer
      ∨ ofHandle a = false ∧ s'.toServer = s.toServer) := by
  cases ha : ofHandle a with
  | true =>
      obtain ⟨hserver, t, ht, rfl⟩ := serverStep_ofHandle ha hstep
      obtain ⟨hloop, hevents⟩ := frame_ofHandle ha ht
      exact ⟨h.congr rfl fun _ _ => ⟨hloop, hevents, rfl⟩, Or.inl hserver⟩
  | false =>
      cases a with
      | epollWait ready => exact (matches_epollWait h hstep).imp_right Or.inl
      | nextEvent accepted =>
          obtain ⟨hlinked, hserver⟩ := matches_nextEvent h hstep
          exact ⟨hlinked, hserver.imp_right fun hsame => ⟨rfl, hsame⟩⟩
      | reuse memory => exact (matches_reuse h hstep).imp_right Or.inl
      | dequeue w => cases hstep
      | _ => cases ha

theorem matches_add (h : s.Linked) {c : Nat} {woken : Option Nat}
    (hstep : s.poolStep (.add c woken) = some s') :
    s'.Linked ∧ s.toServer.step (.nextEvent true) = some s'.toServer := by
  obtain ⟨system, hmoved, rfl⟩ := Option.map_eq_some_iff.mp hstep
  have hstepped := stepped_of_step hmoved
  refine ⟨h.poolStepped rfl hstepped fun task htask => ?_, toServer_add h hstepped⟩
  obtain ⟨_, _, _, _, hcallers⟩ := add_fields h hstepped
  obtain ⟨k, hk⟩ := List.length_eq_one_iff.mp h.single
  have hc : c = 0 := by
    obtain ⟨_, hc, _⟩ := add_fields h hstepped
    have hlt := (List.getElem?_eq_some_iff.mp hc).1
    rw [h.single] at hlt
    exact Nat.lt_one_iff.mp hlt
  rw [hcallers, hk, hc, List.set_cons_zero] at htask
  rcases htask with htask | htask
  · cases List.eq_of_mem_singleton htask
  · cases List.eq_of_mem_singleton htask

/-- What a step of the pool is there: nothing, or a task is added or taken. -/
def PoolMatches (s s' : PooledServer) : Prop :=
  s'.toServer = s.toServer ∨ s.toServer.step (.nextEvent true) = some s'.toServer
    ∨ ∃ w, s.toServer.step (.dequeue w) = some s'.toServer

theorem Matches.poolMatches {a : PoolAction Task} (h : s.Matches (.pool a) s') : s.PoolMatches s' := by
  obtain hsame | ⟨b, hb, hserver⟩ := h
  · exact Or.inl hsame
  · cases a with
    | add c woken =>
        obtain rfl := Option.some.inj hb
        exact Or.inr (Or.inl hserver)
    | test w =>
        obtain rfl := Option.some.inj hb
        exact Or.inr (Or.inr ⟨w, hserver⟩)
    | _ => cases hb

theorem matches_pool (h : s.Linked) {a : PoolAction Task} (hstep : s.poolStep a = some s') :
    s'.Linked ∧ s.Matches (.pool a) s' := by
  have hother : isCall a = false → seen a = false →
      (s.system.step a).map (fun system => { s with system }) = some s' →
      s'.Linked ∧ s.Matches (.pool a) s' := by
    intro hcall hseen hmoved
    obtain ⟨system, hsystem, rfl⟩ := Option.map_eq_some_iff.mp hmoved
    have hstepped := stepped_of_step hsystem
    exact ⟨h.poolStepped hcall hstepped fun _ _ => rfl, Or.inl (toServer_unseen hstepped hseen)⟩
  cases a with
  | callAdd | callDestroy => cases hstep
  | add c woken => exact (matches_add h hstep).imp_right fun hserver => Or.inr ⟨_, rfl, hserver⟩
  | test w =>
      obtain ⟨system, hmoved, rfl⟩ := Option.map_eq_some_iff.mp hstep
      have hstepped := stepped_of_step hmoved
      refine ⟨h.poolStepped rfl hstepped fun _ _ => rfl, ?_⟩
      exact (toServer_test h.sound hstepped).imp_right fun hserver => ⟨.dequeue w, rfl, hserver⟩
  | finish w =>
      simp only [poolStep] at hstep
      split at hstep
      case h_2 => cases hstep
      case h_1 hidle =>
        obtain ⟨system, hmoved, rfl⟩ := Option.map_eq_some_iff.mp hstep
        have hstepped := stepped_of_step hmoved
        exact ⟨h.poolStepped rfl hstepped fun _ _ => rfl, Or.inl (toServer_finish hstepped hidle)⟩
  | _ => exact hother rfl rfl hstep

theorem matches_step (h : s.Linked) {a : PooledAction} (hstep : s.step a = some s') :
    s'.Linked ∧ s.Matches a s' := by
  cases a with
  | server a =>
      refine (matches_server h hstep).imp_right fun hmoved => ?_
      exact hmoved.elim (fun hserver => Or.inr ⟨a, rfl, hserver⟩) fun hsame => Or.inl hsame.2
  | pool a => exact matches_pool h hstep

theorem linked_of_reaches {listenfd : Int} {events : Nat → EpollEvent} {queue : Nat → Task}
    (h : Reaches step anyAction (start listenfd events queue) s) : s.Linked :=
  h.invariant (fun _ _ _ hI _ hstep => (matches_step hI hstep).1)
    (linked_start listenfd events queue)

/-- **The pool is a list of tasks.** Every run of the server over the ring, the mutex and the condition
variable of `threadpool.c` is a run of the server over a list of tasks, with the same events, the same
tasks in the same order, the same workers in `handle` and the same effects. Each step is there its
counterpart, or nothing. -/
theorem refines_server {listenfd : Int} {events : Nat → EpollEvent} {queue : Nat → Task}
    (h : Reaches step anyAction (start listenfd events queue) s) :
    Reaches Server.step anyAction (Server.start listenfd events) s.toServer
      ∧ ∀ a s', s.step a = some s' → s.Matches a s' := by
  refine ⟨?_, fun a s' hstep => (matches_step (linked_of_reaches h) hstep).2⟩
  suffices hrun : s.Linked
      ∧ Reaches Server.step anyAction (Server.start listenfd events) s.toServer from hrun.2
  refine h.invariant (I := fun s => s.Linked ∧ Reaches Server.step anyAction
    (Server.start listenfd events) s.toServer) (fun s a s' hI _ hstep => ?_)
    ⟨linked_start listenfd events queue, Reaches.refl _⟩
  obtain ⟨hlinked, hrun⟩ := hI
  obtain ⟨hlinked', hmatches⟩ := matches_step hlinked hstep
  refine ⟨hlinked', ?_⟩
  rcases hmatches with hstutter | ⟨b, _, hserver⟩
  · rw [hstutter]
    exact hrun
  · exact hrun.tail trivial hserver

/-- The pool is created, a client sends something, and the first worker finds nothing to read. -/
def serveOne : List PooledAction :=
  (List.replicate 32 [PooledAction.pool (.pthreadCreate 0 true), .pool (.countThread 0)]).flatten ++
    [.server (.epollWait [{ fd := 5, epollIn := true }]), .server (.nextEvent true),
      .pool (.lockMutex (.caller 0)), .pool (.add 0 none), .pool (.lockMutex (.thread 7)),
      .pool (.test 7), .server (.read 7 .again), .pool (.finish 7)]

theorem refines_server_serveOne :
    ∃ s, exec step (start 3 (fun _ => { fd := 0, epollIn := false }) fun _ => { slot := 0, fd := 0 })
        serveOne = some s
      ∧ Reaches Server.step anyAction (Server.start 3 fun _ => { fd := 0, epollIn := false })
        s.toServer
      ∧ (∀ a s', s.step a = some s' → s.Matches a s') ∧ s.toServer.served.reads = [(5, 5)] := by
  have hserve : (exec step (start 3 (fun _ => { fd := 0, epollIn := false })
      fun _ => { slot := 0, fd := 0 }) serveOne).map (·.served.reads) = some [(5, 5)] := rfl
  obtain ⟨s, hexec, hs⟩ := Option.map_eq_some_iff.mp hserve
  have hrefines := refines_server (reaches_of_exec hexec)
  exact ⟨s, hexec, hrefines.1, hrefines.2, hs⟩

end PooledServer

end InstructionParser
