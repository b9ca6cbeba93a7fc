import InstructionParser.Proof.Parse
import InstructionParser.Proof.TextParse
import InstructionParser.Server
import InstructionParser.Runs

/-!
# Which client a task is for

A task that waits in the pool or runs in a worker is served for the client it was added for as long as
its slot keeps its file descriptor. `epoll_wait` fills the slots from the first one on without asking
whether a task still points at them.
-/

namespace InstructionParser

open CLib Runs

/-! ### The file descriptor of a pushed command -/

theorem htParse_fd {fd : Int} {cmd c : StCmdFrame} {buf : Bytes} (h : htParse fd cmd buf = some c) :
    c.fd = fd :=
  (htParse_eq_some_iff.mp h).fd_eq

theorem slParse_fd {fd : Int} {cmd c : StCmdFrame} {buf : Bytes} (h : slParse fd cmd buf = some c) :
    c.fd = fd := by
  obtain ⟨_, _, _, _, _, _, _, _, hparsed⟩ := slParse_eq_some_iff.mp h
  exact hparsed.fd_eq

theorem textParse_fd {fd : Int} {cmd c : StCmdFrame} {buf : Bytes}
    (h : textParse fd cmd buf = some c) : c.fd = fd := by
  simp only [textParse, Option.bind_eq_bind, Option.bind_eq_some_iff] at h
  obtain ⟨tokens, _, stored, _, hfinish⟩ := h
  obtain rfl := Option.some.inj hfinish
  rfl

theorem parse_fd : ∀ protocol ∈ protocolSupported, ∀ {fd : Int} {cmd c : StCmdFrame} {buf : Bytes},
    protocol.parse fd cmd buf = some c → c.fd = fd := by
  intro protocol hmem fd cmd c buf h
  simp only [protocolSupported, registerProtocol, List.nil_append, List.cons_append, List.mem_cons,
    List.not_mem_nil, or_false] at hmem
  rcases hmem with rfl | rfl | rfl
  · exact htParse_fd h
  · exact slParse_fd h
  · exact textParse_fd h

theorem doProtocolHandle_mem {tmpStr : Block 128} {buf : Bytes} {protocol : ProtocolSet} :
    ∀ {supported : List ProtocolSet},
      doProtocolHandle tmpStr supported buf = some (some protocol) → protocol ∈ supported := by
  intro supported
  induction supported with
  | nil => intro h; simp [doProtocolHandle] at h
  | cons first rest ih =>
      intro h
      obtain ⟨ret, _, hret⟩ := Option.bind_eq_some_iff.mp h
      split_ifs at hret with hzero
      · obtain rfl : first = protocol := by simpa using hret
        exact List.mem_cons_self
      · exact List.mem_cons_of_mem _ (ih hret)

theorem handle_fd {tmpStr : Block 128} {cmd c : StCmdFrame} {fd : Int} {chunk : Bytes}
    (h : handle tmpStr cmd fd chunk = some (some c)) : c.fd = fd := by
  obtain ⟨selected, hselected, hparse⟩ := Option.bind_eq_some_iff.mp h
  cases selected with
  | none => simp at hparse
  | some protocol =>
      obtain ⟨pushed, hpushed, heq⟩ := Option.map_eq_some_iff.mp hparse
      obtain rfl : pushed = c := by simpa using heq
      exact parse_fd protocol (doProtocolHandle_mem hselected) hpushed

/-- Everything was read from, closed for and pushed for the client whose event added the task. -/
structure Served.Faithful (log : Served) : Prop where
  reads : ∀ p ∈ log.reads, p.2 = p.1
  closes : ∀ p ∈ log.closes, p.2 = p.1
  pushed : ∀ p ∈ log.pushed, p.2.fd = p.1

theorem Served.faithful_nothing : Served.nothing.Faithful := by
  constructor <;> exact fun _ h => absurd h List.not_mem_nil

namespace Server

variable {s s' : Server} {w : Nat}

/-! ### Tasks that are still to be served -/

/-- The task waits in the pool or a worker runs it. -/
def Outstanding (s : Server) (task : Task) : Prop :=
  task ∈ s.queue ∨ ∃ w, (s.workers w).task = some task

/-- The contents of `events` leave the file descriptor of every slot that an outstanding task points
at as it is. -/
def LeavesOutstanding (s : Server) (events : Nat → EpollEvent) : Prop :=
  ∀ task, s.Outstanding task → (events task.slot).fd = (s.events task.slot).fd

/-- The condition on the steps of a run: it is about what is written into `events`. -/
def KeepsOutstanding (s : Server) : ServerAction → Prop
  | .epollWait ready => s.LeavesOutstanding (s.filled ready)
  | .reuse memory => s.LeavesOutstanding memory
  | _ => True

/-- The invariant: what was done is faithful, and what is outstanding will be. -/
structure Serves (s : Server) : Prop where
  outstanding : ∀ task, s.Outstanding task → s.deref task = task.fd
  faithful : s.served.Faithful

theorem outstanding_of_worker {task : Task} (h : (s.workers w).task = some task) :
    s.Outstanding task := Or.inr ⟨w, h⟩

theorem outstanding_setWorker {worker : Worker} {task : Task}
    (h : (s.setWorker w worker).Outstanding task) :
    s.Outstanding task ∨ worker.task = some task := by
  rcases h with hqueue | ⟨w', hw⟩
  · exact Or.inl (Or.inl hqueue)
  · rcases eq_or_ne w' w with rfl | hne
    · exact Or.inr (by simpa [setWorker] using hw)
    · refine Or.inl (Or.inr ⟨w', ?_⟩)
      simpa [setWorker, hne] using hw

theorem Serves.setWorker (h : s.Serves) {worker : Worker}
    (hworker : ∀ task, worker.task = some task → s.Outstanding task) :
    (s.setWorker w worker).Serves := by
  refine ⟨fun task htask => ?_, h.faithful⟩
  rcases outstanding_setWorker htask with hold | hnew
  · exact h.outstanding task hold
  · exact h.outstanding task (hworker task hnew)

theorem mem_threadpoolAdd {queue : List Task} {task new : Task}
    (h : task ∈ threadpoolAdd queue new) : task ∈ queue ∨ task = new := by
  rw [threadpoolAdd] at h
  split_ifs at h
  · exact Or.inl h
  · simpa using h

/-! ### The steps -/

theorem not_outstanding_start (listenfd : Int) (events : Nat → EpollEvent) (task : Task) :
    ¬ (start listenfd events).Outstanding task := by
  rintro (hqueue | ⟨w, hw⟩)
  · exact absurd hqueue List.not_mem_nil
  · exact absurd hw (by simp [start, Worker.task])

theorem Serves.start (listenfd : Int) (events : Nat → EpollEvent) :
    (Server.start listenfd events).Serves :=
  ⟨fun task htask => absurd htask (not_outstanding_start listenfd events task),
    Served.faithful_nothing⟩

theorem Serves.overwrite (h : s.Serves) {events : Nat → EpollEvent} {loop : ServerLoop}
    (hleaves : s.LeavesOutstanding events) : Serves { s with events, loop } := by
  refine ⟨fun task htask => ?_, h.faithful⟩
  exact (hleaves task htask).trans (h.outstanding task htask)

theorem Serves.epollWait (h : s.Serves) {ready : List EpollEvent}
    (hok : s.KeepsOutstanding (.epollWait ready)) (hstep : s.epollWait ready = some s') :
    s'.Serves := by
  unfold Server.epollWait at hstep
  split at hstep
  · split_ifs at hstep
    obtain rfl := Option.some.inj hstep
    exact h.overwrite hok
  · simp at hstep

theorem Serves.reuse (h : s.Serves) {memory : Nat → EpollEvent}
    (hok : s.KeepsOutstanding (.reuse memory)) (hstep : s.reuse memory = some s') : s'.Serves := by
  unfold Server.reuse at hstep
  split at hstep
  · obtain rfl := Option.some.inj hstep
    exact h.overwrite hok
  · simp at hstep

theorem Serves.setLoop (h : s.Serves) (loop : ServerLoop) : Serves { s with loop } :=
  ⟨h.outstanding, h.faithful⟩

theorem Serves.addTask (h : s.Serves) (slot : Nat) :
    Serves { s with queue := threadpoolAdd s.queue { slot, fd := (s.events slot).fd } } := by
  refine ⟨?_, h.faithful⟩
  rintro task (hqueue | hworker)
  · rcases mem_threadpoolAdd hqueue with hold | rfl
    · exact h.outstanding task (Or.inl hold)
    · rfl
  · exact h.outstanding task (Or.inr hworker)

theorem Serves.nextEvent (h : s.Serves) {accepted : Bool}
    (hstep : s.nextEvent accepted = some s') : s'.Serves := by
  unfold Server.nextEvent at hstep
  split at hstep
  case h_2 => simp at hstep
  case h_1 nfds i _ =>
    by_cases hlisten : (s.events i).fd = s.listenfd
    · rw [if_pos hlisten] at hstep
      obtain rfl := Option.some.inj hstep
      exact h.setLoop _
    · rw [if_neg hlisten] at hstep
      by_cases hin : (s.events i).epollIn
      · rw [if_pos hin] at hstep
        obtain rfl := Option.some.inj hstep
        exact (h.addTask i).setLoop _
      · rw [if_neg hin] at hstep
        obtain rfl := Option.some.inj hstep
        exact h.setLoop _

theorem Serves.dequeue (h : s.Serves) (hstep : s.dequeue w = some s') : s'.Serves := by
  unfold Server.dequeue at hstep
  split at hstep
  case h_2 => simp at hstep
  case h_1 task rest _ hqueue =>
    obtain rfl := Option.some.inj hstep
    have hserved : ∀ t ∈ s.queue, s.deref t = t.fd := fun t ht => h.outstanding t (Or.inl ht)
    rw [hqueue] at hserved
    refine ⟨fun t ht => ?_, h.faithful⟩
    rcases outstanding_setWorker ht with (hrest | hworker) | hnew
    · exact hserved t (List.mem_cons_of_mem _ hrest)
    · exact h.outstanding t (Or.inr hworker)
    · obtain rfl : task = t := by simpa [Worker.task] using hnew
      exact hserved task List.mem_cons_self

theorem Serves.append_entry (h : s.Serves) {task : Task} (hout : s.Outstanding task)
    {entries : List (Int × Int)} (hentries : ∀ p ∈ entries, p.2 = p.1) :
    ∀ p ∈ entries ++ [(task.fd, s.deref task)], p.2 = p.1 := by
  intro p hp
  rcases List.mem_append.mp hp with hold | hnew
  · exact hentries p hold
  · obtain rfl := List.mem_singleton.mp hnew
    exact h.outstanding task hout

theorem Serves.recordRead (h : s.Serves) {task : Task} (hout : s.Outstanding task) :
    (s.recordRead task.fd (s.deref task)).Serves :=
  ⟨h.outstanding, h.append_entry hout h.faithful.reads, h.faithful.closes, h.faithful.pushed⟩

theorem Serves.recordClose (h : s.Serves) {task : Task} (hout : s.Outstanding task) :
    (s.recordClose task.fd (s.deref task)).Serves :=
  ⟨h.outstanding, h.faithful.reads, h.append_entry hout h.faithful.closes, h.faithful.pushed⟩

theorem Serves.recordPushed (h : s.Serves) {task : Task} {command : Option StCmdFrame}
    (hcommand : ∀ c, command = some c → c.fd = task.fd) :
    (s.recordPushed task.fd command).Serves := by
  refine ⟨h.outstanding, h.faithful.reads, h.faithful.closes, ?_⟩
  intro p hp
  rcases List.mem_append.mp hp with hold | hnew
  · exact h.faithful.pushed p hold
  · obtain ⟨c, hc, rfl⟩ := List.mem_map.mp hnew
    exact hcommand c (Option.mem_toList.mp hc)

theorem Serves.read (h : s.Serves) {result : ReadResult} (hstep : s.read w result = some s') :
    s'.Serves := by
  unfold Server.read at hstep
  split at hstep
  case h_2 => simp at hstep
  case h_1 task hworker =>
    obtain rfl := Option.some.inj hstep
    have hout : s.Outstanding task := outstanding_of_worker (by rw [hworker]; rfl)
    apply (h.recordRead hout).setWorker
    intro t ht
    cases result <;> simp only [afterRead, Worker.task, Option.some.injEq, reduceCtorEq] at ht
    all_goals exact ht ▸ hout

theorem Serves.opDeleteEvent (h : s.Serves) (hstep : s.opDeleteEvent w = some s') :
    s'.Serves := by
  unfold Server.opDeleteEvent at hstep
  split at hstep
  case h_2 => simp at hstep
  case h_1 task hworker =>
    obtain rfl := Option.some.inj hstep
    have hout : s.Outstanding task := outstanding_of_worker (by rw [hworker]; rfl)
    apply (h.recordClose hout).setWorker
    intro t ht
    obtain rfl : task = t := by simpa [Worker.task] using ht
    exact hout

theorem Serves.delClilist (h : s.Serves) (hstep : s.delClilist w = some s') : s'.Serves := by
  unfold Server.delClilist at hstep
  split at hstep
  case h_2 => simp at hstep
  case h_1 task hworker =>
    obtain rfl := Option.some.inj hstep
    have hout : s.Outstanding task := outstanding_of_worker (by rw [hworker]; rfl)
    apply (h.recordClose hout).setWorker
    intro t ht
    exact absurd ht (by simp [Worker.task])

theorem Serves.parse (h : s.Serves) {tmpStr : Block 128} {residue : StCmdFrame}
    (hstep : s.parse w tmpStr residue = some s') : s'.Serves := by
  unfold Server.parse at hstep
  split at hstep
  case h_2 => simp at hstep
  case h_1 task chunk hworker =>
    obtain ⟨command, hcommand, rfl⟩ := Option.map_eq_some_iff.mp hstep
    have hout : s.Outstanding task := outstanding_of_worker (by rw [hworker]; rfl)
    have hpushed : (s.recordPushed task.fd command).Serves := by
      apply h.recordPushed
      rintro c rfl
      exact (handle_fd hcommand).trans (h.outstanding task hout)
    apply hpushed.setWorker
    intro t ht
    exact absurd ht (by simp [Worker.task])

theorem Serves.step (h : s.Serves) {a : ServerAction} (hok : s.KeepsOutstanding a)
    (hstep : s.step a = some s') : s'.Serves := by
  cases a with
  | epollWait ready => exact h.epollWait hok hstep
  | nextEvent accepted => exact h.nextEvent hstep
  | reuse memory => exact h.reuse hok hstep
  | dequeue w => exact h.dequeue hstep
  | read w result => exact h.read hstep
  | opDeleteEvent w => exact h.opDeleteEvent hstep
  | delClilist w => exact h.delClilist hstep
  | parse w tmpStr residue => exact h.parse hstep

/-- **Dispatch fidelity.** In every run in which nothing is written over the slot of an outstanding
task but the same file descriptor, every read, every close and every pushed command is for the client
whose event added the task. -/
theorem faithful_of_keepsOutstanding {listenfd : Int} {events : Nat → EpollEvent} {s : Server}
    (h : Reaches step KeepsOutstanding (start listenfd events) s) : s.served.Faithful :=
  (h.invariant (I := Serves) (fun _ _ _ hserves hok hstep => hserves.step hok hstep)
    (Serves.start listenfd events)).faithful

def noEvents : Nat → EpollEvent := fun _ => ⟨0, false⟩

def oneRound : List ServerAction :=
  [.epollWait [⟨7, true⟩], .nextEvent true, .dequeue 0, .read 0 (.data (ascii "[1] help")),
    .parse 0 (Block.zeroed 128) StCmdFrame.zeroed]

theorem faithful_of_keepsOutstanding_oneRound :
    ∃ s, exec step (start 3 noEvents) oneRound = some s
      ∧ s.served.pushed.length = 1 ∧ s.served.Faithful := by
  have hrun : (exec step (start 3 noEvents) oneRound).map
      (fun s => s.served.pushed.length) = some 1 := by decide +kernel
  obtain ⟨s, hexec, hlength⟩ := Option.map_eq_some_iff.mp hrun
  have hallowed : Allowed step KeepsOutstanding (start 3 noEvents) oneRound :=
    ⟨fun task htask => absurd htask (not_outstanding_start 3 noEvents task), fun _ _ =>
      ⟨trivial, fun _ _ => ⟨trivial, fun _ _ => ⟨trivial, fun _ _ => ⟨trivial, fun _ _ => trivial⟩⟩⟩⟩⟩
  exact ⟨s, hexec, hlength, faithful_of_keepsOutstanding (reaches_of_allowed hallowed hexec)⟩

/-- The next round fills the slot between the read and the parser. -/
def roundDuringRead : List ServerAction :=
  [.epollWait [⟨7, true⟩], .nextEvent true, .dequeue 0, .read 0 (.data (ascii "[1] help")),
    .epollWait [⟨8, true⟩], .parse 0 (Block.zeroed 128) StCmdFrame.zeroed]

/-- What client 7 sent becomes a command of client 8. -/
theorem command_for_wrong_client :
    ¬ ∀ (listenfd : Int) (events : Nat → EpollEvent) (s : Server),
      Reaches step anyAction (start listenfd events) s → s.served.Faithful := by
  intro h
  have hpushed : (exec step (start 3 noEvents) roundDuringRead).map
      (fun s => s.served.pushed.map fun p => (p.1, p.2.fd)) = some [(7, 8)] := by decide +kernel
  obtain ⟨s, hexec, hlog⟩ := Option.map_eq_some_iff.mp hpushed
  have hmem : (7, 8) ∈ s.served.pushed.map fun p => (p.1, p.2.fd) := by rw [hlog]; simp
  obtain ⟨p, hp, heq⟩ := List.mem_map.mp hmem
  have hsame := (h 3 noEvents s (reaches_of_exec hexec)).pushed p hp
  simp only [Prod.mk.injEq] at heq
  omega

end Server

end InstructionParser
