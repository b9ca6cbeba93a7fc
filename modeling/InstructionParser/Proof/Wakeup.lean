import InstructionParser.EdgeTriggered
import InstructionParser.Proof.EventSlots

/-!
# Wake-ups under edge triggering

The server accepts one connection for each event of the listening socket and reads once for each task.
Whatever that leaves behind is not reported again, so what matters is whether something is still to
come for a descriptor when its event or its task is used up.
-/

namespace InstructionParser

open CLib Runs

namespace Server

/-- The event is reported and the inner loop has yet to look at it. -/
def PendingEvent (s : Server) (fd : Int) : Prop :=
  ∃ nfds i j, s.loop = .processing nfds i ∧ i ≤ j ∧ j < nfds ∧ s.events j = ⟨fd, true⟩

/-- The task waits in the pool, or a worker that took it has yet to read. -/
def ToRead (s : Server) (task : Task) : Prop :=
  task ∈ s.queue ∨ ∃ w, s.workers w = .reading task

def PendingTask (s : Server) (fd : Int) : Prop := ∃ task, s.ToRead task ∧ s.deref task = fd

/-- The state without the event that the inner loop looks at. -/
def skipEvent (s : Server) : Server :=
  match s.loop with
  | .processing nfds i => { s with loop := loopAt nfds (i + 1) }
  | _ => s

/-- The state without the task of a worker. -/
def dropTask (s : Server) (w : Nat) : Server := s.setWorker w .idle

section Pending

variable {t t' : Server} {g : Int}

theorem PendingTask.mono (h : t.PendingTask g) (hread : ∀ task, t.ToRead task → t'.ToRead task)
    (hderef : ∀ task, t.ToRead task → t'.deref task = t.deref task) : t'.PendingTask g := by
  obtain ⟨task, htask, rfl⟩ := h
  exact ⟨task, hread task htask, hderef task htask⟩

theorem ToRead.outstanding {task : Task} (h : t.ToRead task) : t.Outstanding task := by
  apply h.imp_right
  rintro ⟨w, hw⟩
  exact ⟨w, by rw [hw]; rfl⟩

/-- `events` is written over, but not what outstanding tasks point at. -/
theorem PendingTask.overwrite (h : t.PendingTask g) {events : Nat → EpollEvent} {loop : ServerLoop}
    (hleaves : t.LeavesOutstanding events) : PendingTask { t with events, loop } g :=
  h.mono (fun _ htask => htask) fun task htask => hleaves task htask.outstanding

theorem PendingTask.setWorker {w : Nat} {worker : Worker} (h : t.PendingTask g)
    (hold : ∀ task, t.workers w ≠ .reading task) : (t.setWorker w worker).PendingTask g := by
  refine h.mono (fun task htask => htask.imp_right ?_) fun _ _ => rfl
  rintro ⟨w', hw'⟩
  have hne : w' ≠ w := fun heq => hold task (heq ▸ hw')
  exact ⟨w', (Function.update_of_ne hne ..).trans hw'⟩

theorem PendingTask.ofDropTask {w : Nat} {worker : Worker} (h : (t.dropTask w).PendingTask g) :
    (t.setWorker w worker).PendingTask g := by
  have hset : ((t.dropTask w).setWorker w worker).PendingTask g :=
    h.setWorker fun task => by simp [dropTask, Server.setWorker]
  rw [dropTask, Server.setWorker, Server.setWorker, Function.update_idem] at hset
  exact hset

theorem not_pendingEvent (h : ∀ nfds i, t.loop ≠ .processing nfds i) : ¬ t.PendingEvent g := by
  rintro ⟨nfds, i, _, hloop, _⟩
  exact h nfds i hloop

theorem loopAt_eq_processing {nfds i nfds' i' : Nat} (h : loopAt nfds i = .processing nfds' i') :
    nfds' = nfds ∧ i' = i ∧ i < nfds := by
  unfold loopAt at h
  split_ifs at h with hlt
  cases h
  exact ⟨rfl, rfl, hlt⟩

theorem skipEvent_eq {nfds i : Nat} (hloop : t.loop = .processing nfds i) :
    t.skipEvent = { t with loop := loopAt nfds (i + 1) } := by
  simp only [skipEvent, hloop]

/-- The only event that is skipped is the one that the inner loop looks at. -/
theorem PendingEvent.skip {nfds i : Nat} (hloop : t.loop = .processing nfds i)
    (h : t.PendingEvent g) : t.events i = ⟨g, true⟩ ∨ t.skipEvent.PendingEvent g := by
  obtain ⟨nfds', i', j, hloop', hi, hj, hevent⟩ := h
  rw [hloop] at hloop'
  obtain ⟨rfl, rfl⟩ := ServerLoop.processing.inj hloop'
  rcases Nat.eq_or_lt_of_le hi with rfl | hlt
  · exact Or.inl hevent
  · refine Or.inr ⟨nfds, i + 1, j, ?_, hlt, hj, ?_⟩
    · rw [skipEvent_eq hloop, loopAt, if_pos (by omega)]
    · rw [skipEvent_eq hloop]
      exact hevent

end Pending

end Server

def Socket.ended : Socket := ⟨[], true⟩

namespace EdgeServer

variable {s s' : EdgeServer} {fd g : Int} {w : Nat}

/-- The descriptor will be looked at again: its edge is unreported, or there is an event or a task
for it. -/
def Covered (s : EdgeServer) (fd : Int) : Prop :=
  fd ∈ s.edges ∨ s.server.PendingEvent fd ∨ s.server.PendingTask fd

def CoveredListener (s : EdgeServer) : Prop :=
  s.server.listenfd ∈ s.edges ∨ s.server.PendingEvent s.server.listenfd

/-- No wake-up is lost. -/
structure NoLostWakeup (s : EdgeServer) : Prop where
  clients : ∀ fd socket, s.sockets fd = some socket → socket.unread ≠ [] → s.Covered fd
  listener : 0 < s.backlog → s.CoveredListener

/-! ### The condition -/

/-- For an event of the listening socket: `accept` succeeds and empties the backlog, unless the
listening socket will be looked at again. -/
def AcceptsAll (s : EdgeServer) (accepted : Option (Int × Bytes)) : Prop :=
  accepted.isSome ∧ (s.backlog ≤ 1 ∨ { s with server := s.server.skipEvent }.CoveredListener)

/-- For an event of a client: the pool has room for the task, or the client needs none. -/
def FindsRoom (s : EdgeServer) (fd : Int) : Prop :=
  s.server.queue.length < poolCapacity ∨ { s with server := s.server.skipEvent }.Covered fd
    ∨ ∀ socket, s.sockets fd = some socket → socket.unread = []

/-- For a read: it takes all that there is, or the descriptor will be looked at again. -/
def ReadsAll (s : EdgeServer) (w : Nat) : Prop :=
  ∀ task socket, s.server.workers w = .reading task →
    s.sockets (s.server.deref task) = some socket →
      socket.unread.length ≤ lineSize
        ∨ { s with server := s.server.dropTask w }.Covered (s.server.deref task)

/-- The condition on the steps of a run. -/
def LeavesNothing (s : EdgeServer) : EdgeAction → Prop
  | .epollWait ready => s.server.KeepsOutstanding (.epollWait (ready.map (⟨·, true⟩)))
  | .reuse memory => s.server.KeepsOutstanding (.reuse memory)
  | .nextEvent accepted => ∀ event, s.event = some event →
      if event.fd = s.server.listenfd then s.AcceptsAll accepted else s.FindsRoom event.fd
  | .read w => s.ReadsAll w
  | _ => True

/-! ### The invariant -/

/-- The listening socket or a connected one. -/
def Known (s : EdgeServer) (fd : Int) : Prop :=
  fd = s.server.listenfd ∨ ∃ socket, s.sockets fd = some socket

/-- What is watched, reported, queued and deleted is the listening socket or a connected one. -/
structure Wired (s : EdgeServer) : Prop where
  serves : s.server.Serves
  listener_watched : s.server.listenfd ∈ s.interest
  listener_free : s.sockets s.server.listenfd = none
  watched : ∀ fd socket, s.sockets fd = some socket → fd ∈ s.interest ∨ socket = Socket.ended
  edges_known : ∀ fd ∈ s.edges, s.Known fd
  turn_lt : ∀ nfds i, s.server.loop = .processing nfds i → i < nfds
  events_known : ∀ nfds i j, s.server.loop = .processing nfds i → i ≤ j → j < nfds →
    s.Known (s.server.events j).fd
  tasks_known : ∀ task, s.server.Outstanding task → ∃ socket, s.sockets task.fd = some socket
  deleting_ended : ∀ w task, s.server.workers w = .deleting task →
    s.sockets task.fd = some Socket.ended

theorem Wired.start (listenfd : Int) (events : Nat → EpollEvent) :
    (EdgeServer.start listenfd events).Wired where
  serves := Server.Serves.start listenfd events
  listener_watched := List.mem_singleton_self listenfd
  listener_free := rfl
  watched _ _ h := by simp [EdgeServer.start] at h
  edges_known _ h := absurd h List.not_mem_nil
  turn_lt _ _ h := by simp [EdgeServer.start, Server.start] at h
  events_known _ _ _ h := by simp [EdgeServer.start, Server.start] at h
  tasks_known task h := absurd h (Server.not_outstanding_start listenfd events task)
  deleting_ended _ _ h := by simp [EdgeServer.start, Server.start] at h

theorem NoLostWakeup.start (listenfd : Int) (events : Nat → EpollEvent) :
    (EdgeServer.start listenfd events).NoLostWakeup where
  clients _ _ h := by simp [EdgeServer.start] at h
  listener h := absurd h (Nat.lt_irrefl 0)

/-! ### Arrivals -/

theorem mem_edge : g ∈ (s.edge fd).edges ↔ g ∈ s.edges ∨ g = fd ∧ fd ∈ s.interest := by
  unfold edge
  split_ifs with h
  · simp [h.1]
  · constructor
    · exact Or.inl
    · rintro (hg | ⟨rfl, hin⟩)
      · exact hg
      · exact not_not.mp fun hout => h ⟨hin, hout⟩

theorem Covered.edge (h : s.Covered g) (fd : Int) : (s.edge fd).Covered g := by
  rw [Covered, edge_server, mem_edge]
  exact h.imp_left Or.inl

theorem covered_edge (h : fd ∈ s.interest) : (s.edge fd).Covered fd :=
  Or.inl (mem_edge.mpr (Or.inr ⟨rfl, h⟩))

theorem CoveredListener.edge (h : s.CoveredListener) (fd : Int) : (s.edge fd).CoveredListener := by
  rw [CoveredListener, edge_server, mem_edge]
  exact h.imp_left Or.inl

theorem known_edge (s : EdgeServer) (fd g : Int) : (s.edge fd).Known g ↔ s.Known g := by
  rw [Known, Known, edge_server, edge_sockets]

theorem Wired.edge (h : s.Wired) (hknown : s.Known fd) : (s.edge fd).Wired where
  serves := by simpa using h.serves
  listener_watched := by simpa using h.listener_watched
  listener_free := by simpa using h.listener_free
  watched := by simpa using h.watched
  edges_known g hg := by
    rw [known_edge]
    rcases mem_edge.mp hg with hold | ⟨rfl, _⟩
    · exact h.edges_known g hold
    · exact hknown
  turn_lt := by simpa using h.turn_lt
  events_known := by simpa [known_edge] using h.events_known
  tasks_known := by simpa using h.tasks_known
  deleting_ended := by simpa using h.deleting_ended

theorem NoLostWakeup.connect (h : s.NoLostWakeup) (hwired : s.Wired) :
    s.connect.NoLostWakeup where
  clients g socket hsocket hne := by
    rw [EdgeServer.connect, edge_sockets] at hsocket
    exact Covered.edge (s := { s with backlog := s.backlog + 1 }) (h.clients g socket hsocket hne) _
  listener _ := by
    rw [EdgeServer.connect, CoveredListener, edge_server, mem_edge]
    exact Or.inl (Or.inr ⟨rfl, hwired.listener_watched⟩)

theorem Wired.connect (h : s.Wired) : s.connect.Wired := by
  have hmore : { s with backlog := s.backlog + 1 }.Wired := { h with }
  exact hmore.edge (Or.inl rfl)

section Live

variable {unread : Bytes} (hlive : s.sockets fd = some ⟨unread, false⟩)
include hlive

theorem Wired.mem_interest (h : s.Wired) : fd ∈ s.interest :=
  (h.watched fd _ hlive).resolve_right fun hended => by simp [Socket.ended] at hended

theorem Wired.setSocket (h : s.Wired) (socket : Socket) : (s.setSocket fd socket).Wired := by
  have hknown : ∀ g, s.Known g → (s.setSocket fd socket).Known g := by
    intro g hg
    apply hg.imp_right
    rintro ⟨old, hold⟩
    rcases eq_or_ne g fd with rfl | hne
    · exact ⟨socket, Function.update_self ..⟩
    · exact ⟨old, (Function.update_of_ne hne ..).trans hold⟩
  have hne : s.server.listenfd ≠ fd := fun heq => by
    rw [← heq, h.listener_free] at hlive
    cases hlive
  have hin : fd ∈ s.interest := h.mem_interest hlive
  exact {
    serves := h.serves
    listener_watched := h.listener_watched
    listener_free := (Function.update_of_ne hne ..).trans h.listener_free
    watched := by
      intro g old hold
      rcases eq_or_ne g fd with rfl | hg
      · exact Or.inl hin
      · exact h.watched g old ((Function.update_of_ne hg ..).symm.trans hold)
    edges_known := fun g hg => hknown g (h.edges_known g hg)
    turn_lt := h.turn_lt
    events_known := fun nfds i j hloop hi hj => hknown _ (h.events_known nfds i j hloop hi hj)
    tasks_known := by
      intro task htask
      obtain ⟨old, hold⟩ := h.tasks_known task htask
      rcases eq_or_ne task.fd fd with heq | hg
      · exact ⟨socket, by rw [heq]; exact Function.update_self ..⟩
      · exact ⟨old, (Function.update_of_ne hg ..).trans hold⟩
    deleting_ended := by
      intro w task hw
      have hended := h.deleting_ended w task hw
      have hg : task.fd ≠ fd := fun heq => by
        rw [heq, hlive] at hended
        simp [Socket.ended] at hended
      exact (Function.update_of_ne hg ..).trans hended }

theorem Wired.arrival (h : s.Wired) (socket : Socket) : ((s.setSocket fd socket).edge fd).Wired :=
  (h.setSocket hlive socket).edge (Or.inr ⟨socket, Function.update_self ..⟩)

theorem NoLostWakeup.arrival (h : s.NoLostWakeup) (hwired : s.Wired) (socket : Socket) :
    ((s.setSocket fd socket).edge fd).NoLostWakeup where
  clients g socket' hsocket hne := by
    have hin : fd ∈ s.interest := hwired.mem_interest hlive
    rcases eq_or_ne g fd with rfl | hg
    · exact covered_edge hin
    · rw [edge_sockets] at hsocket
      have hold := (Function.update_of_ne hg ..).symm.trans hsocket
      exact Covered.edge (s := s.setSocket fd socket) (h.clients g socket' hold hne) fd
  listener hpos := by
    rw [edge_backlog] at hpos
    exact CoveredListener.edge (s := s.setSocket fd socket) (h.listener hpos) fd

end Live

def Watches (s : EdgeServer) : Prop := s.Wired ∧ s.NoLostWakeup

theorem Watches.arrive {bytes : Bytes} (h : s.Watches) (hstep : s.arrive fd bytes = some s') :
    s'.Watches := by
  unfold EdgeServer.arrive at hstep
  split at hstep
  case h_2 => simp at hstep
  case h_1 unread hlive =>
    split_ifs at hstep
    obtain rfl := Option.some.inj hstep
    exact ⟨h.1.arrival hlive _, h.2.arrival hlive h.1 _⟩

theorem Watches.hangUp {reset : Bool} (h : s.Watches) (hstep : s.hangUp fd reset = some s') :
    s'.Watches := by
  unfold EdgeServer.hangUp at hstep
  split at hstep
  case h_2 => simp at hstep
  case h_1 unread hlive =>
    obtain rfl := Option.some.inj hstep
    exact ⟨h.1.arrival hlive _, h.2.arrival hlive h.1 _⟩

/-! ### Steps of the program -/

theorem Covered.mono (h : s.Covered g) (hedges : g ∈ s.edges → g ∈ s'.edges)
    (hevents : s.server.PendingEvent g → s'.Covered g)
    (htasks : s.server.PendingTask g → s'.Covered g) : s'.Covered g := by
  rcases h with hedge | hevent | htask
  · exact Or.inl (hedges hedge)
  · exact hevents hevent
  · exact htasks htask

theorem filled_ready {t : Server} {ready : List Int} {j : Nat} (hj : j < ready.length) :
    t.filled (ready.map (EpollEvent.mk · true)) j = ⟨ready[j], true⟩ := by
  simp [Server.filled, hj]

theorem Watches.epollWait {ready : List Int} (h : s.Watches)
    (hok : s.LeavesNothing (.epollWait ready)) (hstep : s.epollWait ready = some s') :
    s'.Watches := by
  obtain ⟨hwired, hkeeps⟩ := h
  rw [EdgeServer.epollWait] at hstep
  split_ifs at hstep with hready
  obtain ⟨server, hserver, rfl⟩ := Option.map_eq_some_iff.mp hstep
  have hserves := hwired.serves.epollWait hok hserver
  unfold Server.epollWait at hserver
  split at hserver
  case h_2 => simp at hserver
  case h_1 hloop =>
    split_ifs at hserver
    obtain rfl := Option.some.inj hserver
    have hnone : ∀ g, ¬ s.server.PendingEvent g := fun g =>
      Server.not_pendingEvent fun nfds i => by simp [hloop]
    have hreported : ∀ g ∈ ready, Server.PendingEvent
        { s.server with
          events := s.server.filled (ready.map (⟨·, true⟩))
          loop := Server.loopAt (ready.map (EpollEvent.mk · true)).length 0 } g := by
      intro g hg
      obtain ⟨j, hj, rfl⟩ := List.mem_iff_getElem.mp hg
      refine ⟨ready.length, 0, j, ?_, Nat.zero_le j, hj, filled_ready hj⟩
      rw [Server.loopAt, List.length_map, if_pos (Nat.zero_lt_of_lt hj)]
    have hedges : ∀ g ∈ s.edges, g ∉ ready → g ∈ s.edges.filter (· ∉ ready) := by
      intro g hg hout
      rw [List.mem_filter]
      exact ⟨hg, by simpa using hout⟩
    refine ⟨?_, ?_, ?_⟩
    · exact { hwired with
        serves := hserves
        edges_known := fun g hg => hwired.edges_known g (List.mem_of_mem_filter hg)
        turn_lt := by
          intro nfds i hprocessing
          obtain ⟨rfl, rfl, hlt⟩ := Server.loopAt_eq_processing hprocessing
          exact hlt
        events_known := by
          intro nfds i j hprocessing _ hj
          obtain ⟨rfl, _⟩ := Server.loopAt_eq_processing hprocessing
          rw [List.length_map] at hj
          simp only [filled_ready hj]
          exact hwired.edges_known _ (hready.2 _ (List.getElem_mem hj)) }
    · intro g socket hsocket hne
      rcases hkeeps.clients g socket hsocket hne with hedge | hevent | htask
      · by_cases hg : g ∈ ready
        · exact Or.inr (Or.inl (hreported g hg))
        · exact Or.inl (hedges g hedge hg)
      · exact absurd hevent (hnone g)
      · exact Or.inr (Or.inr (htask.overwrite hok))
    · intro hpos
      rcases hkeeps.listener hpos with hedge | hevent
      · by_cases hg : s.server.listenfd ∈ ready
        · exact Or.inr (hreported _ hg)
        · exact Or.inl (hedges _ hedge hg)
      · exact absurd hevent (hnone _)

theorem Watches.reuse {memory : Nat → EpollEvent} (h : s.Watches)
    (hok : s.LeavesNothing (.reuse memory)) (hstep : s.runServer (s.server.reuse memory) = some s') :
    s'.Watches := by
  obtain ⟨hwired, hkeeps⟩ := h
  obtain ⟨server, hserver, rfl⟩ := Option.map_eq_some_iff.mp hstep
  have hserves := hwired.serves.reuse hok hserver
  unfold Server.reuse at hserver
  split at hserver
  case h_2 => simp at hserver
  case h_1 hloop =>
    obtain rfl := Option.some.inj hserver
    have hnone : ∀ g, ¬ s.server.PendingEvent g := fun g =>
      Server.not_pendingEvent fun nfds i => by simp [hloop]
    refine ⟨?_, ?_, ?_⟩
    · exact { hwired with
        serves := hserves
        turn_lt := fun nfds i hprocessing => by simp [hloop] at hprocessing
        events_known := fun nfds i j hprocessing => by simp [hloop] at hprocessing }
    · intro g socket hsocket hne
      rcases hkeeps.clients g socket hsocket hne with hedge | hevent | htask
      · exact Or.inl hedge
      · exact absurd hevent (hnone g)
      · exact Or.inr (Or.inr (htask.overwrite hok))
    · intro hpos
      rcases hkeeps.listener hpos with hedge | hevent
      · exact Or.inl hedge
      · exact absurd hevent (hnone _)

/-! A turn of the inner loop. -/

section Turn

variable {nfds i : Nat} (hloop : s.server.loop = .processing nfds i)
include hloop

theorem Wired.skip (h : s.Wired) : { s with server := s.server.skipEvent }.Wired := by
  rw [Server.skipEvent_eq hloop]
  exact { h with
    serves := h.serves.setLoop _
    turn_lt := by
      intro nfds' i' hnext
      obtain ⟨rfl, rfl, hlt⟩ := Server.loopAt_eq_processing hnext
      exact hlt
    events_known := by
      intro nfds' i' j hnext hi hj
      obtain ⟨rfl, rfl, _⟩ := Server.loopAt_eq_processing hnext
      exact h.events_known _ i j hloop (by omega) hj }

theorem Covered.skip (h : s.Covered g) :
    s.server.events i = ⟨g, true⟩ ∨ { s with server := s.server.skipEvent }.Covered g := by
  rcases h with hedge | hevent | htask
  · exact Or.inr (Or.inl hedge)
  · exact (hevent.skip hloop).imp_right fun hnext => Or.inr (Or.inl hnext)
  · refine Or.inr (Or.inr (Or.inr ?_))
    rw [Server.skipEvent_eq hloop]
    exact htask

theorem CoveredListener.skip (h : s.CoveredListener)
    (hne : (s.server.events i).fd ≠ s.server.listenfd) :
    { s with server := s.server.skipEvent }.CoveredListener := by
  have hfd : s.server.skipEvent.listenfd = s.server.listenfd := by rw [Server.skipEvent_eq hloop]
  rw [CoveredListener, hfd]
  apply h.imp_right
  intro hevent
  refine (hevent.skip hloop).resolve_left fun hthis => hne ?_
  rw [hthis]

end Turn

theorem Wired.add {connfd : Int} {received : Bytes} (h : s.Wired) (hfree : s.sockets connfd = none)
    (hne : connfd ≠ s.server.listenfd) : (s.add connfd received).Wired := by
  have hother : ∀ {g socket}, s.sockets g = some socket →
      Function.update s.sockets connfd (some ⟨received, false⟩) g = some socket := by
    intro g socket hsocket
    rw [Function.update_of_ne, hsocket]
    rintro rfl
    rw [hfree] at hsocket
    cases hsocket
  have hadded : ({ s with interest := s.interest ++ [connfd] }.setSocket connfd
      ⟨received, false⟩).Wired := {
    serves := h.serves
    listener_watched := List.mem_append_left _ h.listener_watched
    listener_free := (Function.update_of_ne hne.symm ..).trans h.listener_free
    watched := by
      intro g socket hsocket
      rcases eq_or_ne g connfd with rfl | hg
      · exact Or.inl (List.mem_append_right _ (List.mem_singleton_self g))
      · have hold := (Function.update_of_ne hg ..).symm.trans hsocket
        exact (h.watched g socket hold).imp_left (List.mem_append_left _)
    edges_known := fun g hg =>
      (h.edges_known g hg).imp_right fun ⟨socket, hsocket⟩ => ⟨socket, hother hsocket⟩
    turn_lt := h.turn_lt
    events_known := fun nfds i j hloop hi hj =>
      (h.events_known nfds i j hloop hi hj).imp_right
        fun ⟨socket, hsocket⟩ => ⟨socket, hother hsocket⟩
    tasks_known := fun task htask =>
      (h.tasks_known task htask).imp fun _ hsocket => hother hsocket
    deleting_ended := fun w task hw => hother (h.deleting_ended w task hw) }
  rw [EdgeServer.add]
  split_ifs
  · exact hadded
  · exact hadded.edge (Or.inr ⟨_, Function.update_self ..⟩)

theorem NoLostWakeup.add {connfd : Int} {received : Bytes} (h : s.NoLostWakeup) :
    (s.add connfd received).NoLostWakeup := by
  set added := { s with interest := s.interest ++ [connfd] }.setSocket connfd ⟨received, false⟩
  have hold : ∀ g socket, added.sockets g = some socket → socket.unread ≠ [] →
      g = connfd ∧ received ≠ [] ∨ added.Covered g := by
    intro g socket hsocket hne
    rcases eq_or_ne g connfd with rfl | hg
    · have hnew : added.sockets g = some ⟨received, false⟩ := Function.update_self ..
      rw [hnew] at hsocket
      obtain rfl := Option.some.inj hsocket
      exact Or.inl ⟨rfl, hne⟩
    · exact Or.inr (h.clients g socket ((Function.update_of_ne hg ..).symm.trans hsocket) hne)
  rw [EdgeServer.add]
  split_ifs with hreceived
  · refine ⟨fun g socket hsocket hne => ?_, h.listener⟩
    exact (hold g socket hsocket hne).resolve_left fun hnew => hnew.2 hreceived
  · refine ⟨fun g socket hsocket hne => ?_, fun hpos => ?_⟩
    · rw [edge_sockets] at hsocket
      rcases hold g socket hsocket hne with ⟨rfl, _⟩ | hcovered
      · exact covered_edge (List.mem_append_right _ (List.mem_singleton_self g))
      · exact hcovered.edge connfd
    · rw [edge_backlog] at hpos
      exact CoveredListener.edge (s := added) (h.listener hpos) connfd

theorem Watches.accept {nfds i : Nat} {connfd : Int} {received : Bytes} (h : s.Watches)
    (hloop : s.server.loop = .processing nfds i)
    (hlisten : (s.server.events i).fd = s.server.listenfd)
    (hall : s.AcceptsAll (some (connfd, received))) (hacceptable : s.Acceptable connfd) :
    ({ s with server := s.server.skipEvent, backlog := s.backlog - 1 }.add connfd
      received).Watches := by
  obtain ⟨hwired, hkeeps⟩ := h
  have hskip : { s with server := s.server.skipEvent, backlog := s.backlog - 1 }.Wired :=
    { hwired.skip hloop with }
  refine ⟨hskip.add hacceptable.2.1 ?_, NoLostWakeup.add ⟨?_, ?_⟩⟩
  · rw [Server.skipEvent_eq hloop]
    exact hacceptable.2.2
  · intro g socket hsocket hne
    refine ((hkeeps.clients g socket hsocket hne).skip hloop).resolve_left fun hthis => ?_
    rw [hthis] at hlisten
    rw [show g = s.server.listenfd from hlisten, hwired.listener_free] at hsocket
    cases hsocket
  · intro hpos
    have hmore : 0 < s.backlog - 1 := hpos
    exact hall.2.resolve_left (by omega)

theorem Watches.addTask {nfds i : Nat} (h : s.Watches) (hloop : s.server.loop = .processing nfds i)
    (hclient : (s.server.events i).fd ≠ s.server.listenfd)
    (hroom : s.FindsRoom (s.server.events i).fd) :
    Watches { s with server := { s.server.skipEvent with
      queue := Server.threadpoolAdd s.server.queue ⟨i, (s.server.events i).fd⟩ } } := by
  obtain ⟨hwired, hkeeps⟩ := h
  have hlt := hwired.turn_lt nfds i hloop
  obtain ⟨socket, hsocket⟩ :=
    (hwired.events_known nfds i i hloop (Nat.le_refl i) hlt).resolve_left hclient
  have hskip := hwired.skip hloop
  have hserves := (hwired.serves.addTask i).setLoop (Server.loopAt nfds (i + 1))
  -- The pool keeps its tasks, so whatever covered a descriptor without the event still does.
  have hkept : ∀ g, { s with server := s.server.skipEvent }.Covered g →
      Covered { s with server := { s.server.skipEvent with
        queue := Server.threadpoolAdd s.server.queue ⟨i, (s.server.events i).fd⟩ } } g := by
    intro g hcovered
    refine hcovered.imp_right (Or.imp_right fun htask => htask.mono (fun task => ?_) fun _ _ => rfl)
    apply Or.imp_left
    intro hqueue
    rw [Server.skipEvent_eq hloop] at hqueue
    change task ∈ Server.threadpoolAdd s.server.queue _
    rw [Server.threadpoolAdd]
    split_ifs
    · exact hqueue
    · exact List.mem_append_left _ hqueue
  have hlistener := fun hpos => (hkeeps.listener hpos).skip hloop hclient
  rw [Server.skipEvent_eq hloop] at hskip hkept hlistener ⊢
  refine ⟨{ hskip with serves := hserves, tasks_known := ?_ }, ?_, hlistener⟩
  · rintro task (hqueue | hworker)
    · rcases Server.mem_threadpoolAdd hqueue with hold | rfl
      · exact hwired.tasks_known task (Or.inl hold)
      · exact ⟨socket, hsocket⟩
    · exact hwired.tasks_known task (Or.inr hworker)
  · intro g socket' hsocket' hne
    rcases (hkeeps.clients g socket' hsocket' hne).skip hloop with hthis | hcovered
    · have hfd : (s.server.events i).fd = g := by rw [hthis]
      rw [FindsRoom, Server.skipEvent_eq hloop, hfd] at hroom
      rcases hroom with hspace | hcovered | hempty
      · have hnew : Server.threadpoolAdd s.server.queue ⟨i, (s.server.events i).fd⟩
            = s.server.queue ++ [⟨i, (s.server.events i).fd⟩] := if_neg (by omega)
        refine Or.inr (Or.inr ⟨⟨i, (s.server.events i).fd⟩, Or.inl ?_, hfd⟩)
        exact hnew ▸ List.mem_append_right _ (List.mem_singleton_self _)
      · exact hkept g hcovered
      · exact absurd (hempty socket' hsocket') hne
    · rw [Server.skipEvent_eq hloop] at hcovered
      exact hkept g hcovered

theorem Watches.nextEvent {accepted : Option (Int × Bytes)} (h : s.Watches)
    (hok : s.LeavesNothing (.nextEvent accepted)) (hstep : s.nextEvent accepted = some s') :
    s'.Watches := by
  rw [EdgeServer.nextEvent] at hstep
  obtain ⟨server, hserver, hstep⟩ := Option.bind_eq_some_iff.mp hstep
  unfold Server.nextEvent at hserver
  split at hserver
  case h_2 => simp at hserver
  case h_1 nfds i hloop =>
    have hevent : s.event = some (s.server.events i) := by simp [EdgeServer.event, hloop]
    have hcond := hok _ hevent
    rw [hevent] at hstep
    by_cases hlisten : (s.server.events i).fd = s.server.listenfd
    · rw [if_pos hlisten] at hserver hcond
      rw [if_pos (by rw [Option.map_some, hlisten])] at hstep
      obtain rfl := Option.some.inj hserver
      obtain ⟨⟨connfd, received⟩, rfl⟩ := Option.isSome_iff_exists.mp hcond.1
      dsimp only at hstep
      by_cases hacceptable : s.Acceptable connfd
      · rw [if_pos hacceptable] at hstep
        obtain rfl := Option.some.inj hstep
        have hnext := h.accept hloop hlisten hcond hacceptable
        rw [Server.skipEvent_eq hloop] at hnext
        exact hnext
      · rw [if_neg hacceptable] at hstep
        cases hstep
    · rw [if_neg hlisten] at hserver hcond
      rw [if_neg (by simpa using hlisten)] at hstep
      obtain rfl := Option.some.inj hstep
      by_cases hin : (s.server.events i).epollIn
      · rw [if_pos hin] at hserver
        obtain rfl := Option.some.inj hserver
        have hnext := h.addTask hloop hlisten hcond
        rw [Server.skipEvent_eq hloop] at hnext
        exact hnext
      · rw [if_neg hin] at hserver
        obtain rfl := Option.some.inj hserver
        rw [← Server.skipEvent_eq hloop]
        refine ⟨h.1.skip hloop, fun g socket hsocket hne => ?_, fun hpos => ?_⟩
        · refine ((h.2.clients g socket hsocket hne).skip hloop).resolve_left fun hthis => hin ?_
          rw [hthis]
        · exact (h.2.listener hpos).skip hloop hlisten

/-! The steps of a worker. -/

theorem Watches.dequeue (h : s.Watches) (hstep : s.runServer (s.server.dequeue w) = some s') :
    s'.Watches := by
  obtain ⟨hwired, hkeeps⟩ := h
  obtain ⟨server, hserver, rfl⟩ := Option.map_eq_some_iff.mp hstep
  have hserves := hwired.serves.dequeue hserver
  unfold Server.dequeue at hserver
  split at hserver
  case h_2 => simp at hserver
  case h_1 task rest hidle hqueue =>
    obtain rfl := Option.some.inj hserver
    have houtstanding : ∀ t, Server.Outstanding
        ({ s.server with queue := rest }.setWorker w (.reading task)) t →
        s.server.Outstanding t := by
      intro t ht
      rcases Server.outstanding_setWorker ht with (hrest | hworker) | hnew
      · exact Or.inl (hqueue ▸ List.mem_cons_of_mem _ hrest)
      · exact Or.inr hworker
      · obtain rfl : task = t := by simpa [Worker.task] using hnew
        exact Or.inl (hqueue ▸ List.mem_cons_self)
    have hread : ∀ t, s.server.ToRead t →
        ({ s.server with queue := rest }.setWorker w (.reading task)).ToRead t := by
      rintro t (hold | ⟨w', hw'⟩)
      · rw [hqueue] at hold
        rcases List.mem_cons.mp hold with rfl | hrest
        · exact Or.inr ⟨w, Function.update_self ..⟩
        · exact Or.inl hrest
      · have hne : w' ≠ w := by
          rintro rfl
          rw [hidle] at hw'
          cases hw'
        exact Or.inr ⟨w', (Function.update_of_ne hne ..).trans hw'⟩
    refine ⟨{ hwired with serves := hserves, tasks_known := ?_, deleting_ended := ?_ }, ?_, ?_⟩
    · exact fun t ht => hwired.tasks_known t (houtstanding t ht)
    · intro w' t hw'
      apply hwired.deleting_ended w' t
      rcases eq_or_ne w' w with rfl | hne
      · have hnew := (Function.update_self ..).symm.trans hw'
        cases hnew
      · exact (Function.update_of_ne hne ..).symm.trans hw'
    · intro g socket hsocket hne
      exact (hkeeps.clients g socket hsocket hne).imp_right
        (Or.imp_right fun htask => htask.mono hread fun _ _ => rfl)
    · exact hkeeps.listener

/-- A worker that has read covers one descriptor less. -/
theorem Covered.dropTask {task : Task} (hw : s.server.workers w = .reading task)
    (h : s.Covered g) :
    g = s.server.deref task ∨ { s with server := s.server.dropTask w }.Covered g := by
  rcases h with hedge | hevent | ⟨t, ht, rfl⟩
  · exact Or.inr (Or.inl hedge)
  · exact Or.inr (Or.inr (Or.inl hevent))
  · rcases ht with hqueue | ⟨w', hw'⟩
    · exact Or.inr (Or.inr (Or.inr ⟨t, Or.inl hqueue, rfl⟩))
    · rcases eq_or_ne w' w with rfl | hne
      · rw [hw] at hw'
        cases hw'
        exact Or.inl rfl
      · refine Or.inr (Or.inr (Or.inr ⟨t, Or.inr ⟨w', ?_⟩, rfl⟩))
        exact (Function.update_of_ne hne ..).trans hw'

theorem readResult_closed {socket : Socket} (h : readResult (some socket) = .closed) :
    socket = Socket.ended := by
  obtain ⟨unread, hungUp⟩ := socket
  cases unread with
  | nil =>
      cases hungUp with
      | true => rfl
      | false => simp [readResult] at h
  | cons => simp [readResult] at h

theorem Wired.read {task : Task} {socket : Socket} (h : s.Wired)
    (hw : s.server.workers w = .reading task) (hsocket : s.sockets (s.server.deref task) = some socket)
    (hderef : s.server.deref task = task.fd) {server : Server}
    (hserver : s.server.read w (readResult (some socket)) = some server) :
    Wired { s with
      server
      sockets := Function.update s.sockets (s.server.deref task) (some socket.afterRead) } := by
  have hserves := h.serves.read hserver
  rw [Server.read, hw] at hserver
  obtain rfl := Option.some.inj hserver
  have hafter : ∀ g old, s.sockets g = some old →
      ∃ new, Function.update s.sockets (s.server.deref task) (some socket.afterRead) g = some new
        ∧ (old = Socket.ended → new = Socket.ended) := by
    intro g old hold
    rcases eq_or_ne g (s.server.deref task) with rfl | hne
    · refine ⟨socket.afterRead, Function.update_self .., ?_⟩
      rintro rfl
      rw [hold] at hsocket
      obtain rfl := Option.some.inj hsocket
      rfl
    · exact ⟨old, (Function.update_of_ne hne ..).trans hold, id⟩
  have hknown : ∀ g, s.Known g → Known { s with
      sockets := Function.update s.sockets (s.server.deref task) (some socket.afterRead) } g := by
    intro g hg
    apply hg.imp_right
    rintro ⟨old, hold⟩
    exact (hafter g old hold).imp fun _ hnew => hnew.1
  have hfree : s.server.listenfd ≠ s.server.deref task := fun heq => by
    rw [← heq, h.listener_free] at hsocket
    cases hsocket
  exact {
    serves := hserves
    listener_watched := h.listener_watched
    listener_free := (Function.update_of_ne hfree ..).trans h.listener_free
    watched := by
      intro g new hnew
      rcases eq_or_ne g (s.server.deref task) with rfl | hne
      · obtain ⟨new', hnew', hended⟩ := hafter _ _ hsocket
        obtain rfl := Option.some.inj (hnew.symm.trans hnew')
        exact (h.watched _ socket hsocket).imp_right hended
      · exact h.watched g new ((Function.update_of_ne hne ..).symm.trans hnew)
    edges_known := fun g hg => hknown g (h.edges_known g hg)
    turn_lt := h.turn_lt
    events_known := fun nfds i j hloop hi hj => hknown _ (h.events_known nfds i j hloop hi hj)
    tasks_known := by
      intro t ht
      have hold : ∃ old, s.sockets t.fd = some old := by
        rcases Server.outstanding_setWorker ht with hold | hnew
        · exact h.tasks_known t hold
        · obtain rfl : task = t := by
            cases hresult : readResult (some socket) <;>
              simp [hresult, Server.afterRead, Worker.task] at hnew <;> exact hnew
          exact ⟨socket, hderef ▸ hsocket⟩
      obtain ⟨old, hold⟩ := hold
      exact (hafter t.fd old hold).imp fun _ hnew => hnew.1
    deleting_ended := by
      intro w' t hw'
      have hold : s.sockets t.fd = some Socket.ended := by
        rcases eq_or_ne w' w with rfl | hne
        · have hdeleting : Server.afterRead task (readResult (some socket)) = .deleting t :=
            (Function.update_self ..).symm.trans hw'
          cases hresult : readResult (some socket) <;>
            simp only [hresult, Server.afterRead, reduceCtorEq, Worker.deleting.injEq] at hdeleting
          rw [← hdeleting, ← hderef, hsocket, readResult_closed hresult]
        · exact h.deleting_ended w' t ((Function.update_of_ne hne ..).symm.trans hw')
      obtain ⟨new, hnew, hended⟩ := hafter t.fd _ hold
      exact hended rfl ▸ hnew }

theorem Watches.read (h : s.Watches) (hok : s.LeavesNothing (.read w))
    (hstep : s.read w = some s') : s'.Watches := by
  obtain ⟨hwired, hkeeps⟩ := h
  unfold EdgeServer.read at hstep
  split at hstep
  case h_2 => simp at hstep
  case h_1 task hw =>
    have hout : s.server.Outstanding task := Server.outstanding_of_worker (by rw [hw]; rfl)
    have hderef := hwired.serves.outstanding task hout
    obtain ⟨socket, hsocket⟩ := hwired.tasks_known task hout
    rw [← hderef] at hsocket
    obtain ⟨server, hserver, rfl⟩ := Option.map_eq_some_iff.mp hstep
    rw [hsocket] at hserver ⊢
    refine ⟨hwired.read hw hsocket hderef hserver, ?_⟩
    rw [Server.read, hw] at hserver
    obtain rfl := Option.some.inj hserver
    have hrest : ∀ g, { s with server := s.server.dropTask w }.Covered g →
        g ∈ s.edges ∨ s.server.PendingEvent g ∨ Server.PendingTask
          ((s.server.recordRead task.fd (s.server.deref task)).setWorker w
            (Server.afterRead task (readResult (some socket)))) g :=
      fun g => Or.imp_right (Or.imp_right fun htask => htask.ofDropTask)
    refine ⟨fun g new hnew hne => ?_, hkeeps.listener⟩
    rcases eq_or_ne g (s.server.deref task) with rfl | hother
    · have hread : Function.update s.sockets (s.server.deref task) (some socket.afterRead)
          (s.server.deref task) = some new := hnew
      rw [Function.update_self] at hread
      obtain rfl := Option.some.inj hread
      have hlong : ¬ socket.unread.length ≤ lineSize := fun hle =>
        hne (List.drop_eq_nil_of_le hle)
      exact hrest _ ((hok task socket hw hsocket).resolve_left hlong)
    · have hold := (Function.update_of_ne hother ..).symm.trans hnew
      exact hrest g (((hkeeps.clients g new hold hne).dropTask hw).resolve_left hother)

theorem Watches.setWorker {worker : Worker} {log : Served} (h : s.Watches)
    (hold : ∀ task, s.server.workers w ≠ .reading task)
    (htask : ∀ task, worker.task = some task → s.server.Outstanding task)
    (hdeleting : ∀ task, worker ≠ .deleting task)
    (hserves : Server.Serves { s.server.setWorker w worker with served := log }) :
    Watches { s with server := { s.server.setWorker w worker with served := log } } := by
  obtain ⟨hwired, hkeeps⟩ := h
  refine ⟨{ hwired with serves := hserves, tasks_known := ?_, deleting_ended := ?_ }, ?_, ?_⟩
  · intro task hout
    rcases Server.outstanding_setWorker (s := s.server) hout with hout | hnew
    · exact hwired.tasks_known task hout
    · exact hwired.tasks_known task (htask task hnew)
  · intro w' task hw'
    rcases eq_or_ne w' w with rfl | hne
    · exact absurd ((Function.update_self ..).symm.trans hw') (hdeleting task)
    · exact hwired.deleting_ended w' task ((Function.update_of_ne hne ..).symm.trans hw')
  · intro g socket hsocket hne
    exact (hkeeps.clients g socket hsocket hne).imp_right
      (Or.imp_right fun hpending => hpending.setWorker hold)
  · exact hkeeps.listener

theorem Watches.delete (h : s.Watches) (hended : s.sockets fd = some Socket.ended) :
    (s.delete fd).Watches := by
  obtain ⟨hwired, hkeeps⟩ := h
  have hkept : ∀ {g} {list : List Int}, g ≠ fd → g ∈ list → g ∈ list.filter (· ≠ fd) :=
    fun hne hmem => List.mem_filter.mpr ⟨hmem, by simpa using hne⟩
  have hlisten : s.server.listenfd ≠ fd := fun heq => by
    rw [← heq, hwired.listener_free] at hended
    cases hended
  refine ⟨{ hwired with listener_watched := ?_, watched := ?_, edges_known := ?_ }, ?_, ?_⟩
  · exact hkept hlisten hwired.listener_watched
  · intro g socket hsocket
    rcases eq_or_ne g fd with rfl | hne
    · exact Or.inr (Option.some.inj (hsocket.symm.trans hended))
    · exact (hwired.watched g socket hsocket).imp_left (hkept hne)
  · exact fun g hg => hwired.edges_known g (List.mem_of_mem_filter hg)
  · intro g socket hsocket hne
    have hother : g ≠ fd := by
      rintro rfl
      obtain rfl := Option.some.inj (hsocket.symm.trans hended)
      exact hne rfl
    exact (hkeeps.clients g socket hsocket hne).imp_left (hkept hother)
  · exact fun hpos => (hkeeps.listener hpos).imp_left (hkept hlisten)

theorem Watches.opDeleteEvent (h : s.Watches) (hstep : s.opDeleteEvent w = some s') :
    s'.Watches := by
  unfold EdgeServer.opDeleteEvent at hstep
  split at hstep
  case h_2 => simp at hstep
  case h_1 task hw =>
    obtain ⟨server, hserver, rfl⟩ := Option.map_eq_some_iff.mp hstep
    have hserves := h.1.serves.opDeleteEvent hserver
    rw [Server.opDeleteEvent, hw] at hserver
    obtain rfl := Option.some.inj hserver
    have hout : s.server.Outstanding task := Server.outstanding_of_worker (by rw [hw]; rfl)
    have hended := h.1.deleting_ended w task hw
    rw [← h.1.serves.outstanding task hout] at hended
    have htask : ∀ t, (Worker.unlisting task).task = some t → s.server.Outstanding t := by
      intro t ht
      obtain rfl : task = t := by simpa [Worker.task] using ht
      exact hout
    have hset := h.setWorker (fun t => by simp [hw]) htask (fun t => by simp) hserves
    exact hset.delete hended

theorem Watches.delClilist (h : s.Watches)
    (hstep : s.runServer (s.server.delClilist w) = some s') : s'.Watches := by
  obtain ⟨server, hserver, rfl⟩ := Option.map_eq_some_iff.mp hstep
  have hserves := h.1.serves.delClilist hserver
  unfold Server.delClilist at hserver
  split at hserver
  case h_2 => simp at hserver
  case h_1 task hw =>
    obtain rfl := Option.some.inj hserver
    exact h.setWorker (fun t => by simp [hw]) (fun t ht => by simp [Worker.task] at ht)
      (fun t => by simp) hserves

theorem Watches.parse {tmpStr : Block 128} {residue : StCmdFrame} (h : s.Watches)
    (hstep : s.runServer (s.server.parse w tmpStr residue) = some s') : s'.Watches := by
  obtain ⟨server, hserver, rfl⟩ := Option.map_eq_some_iff.mp hstep
  have hserves := h.1.serves.parse hserver
  unfold Server.parse at hserver
  split at hserver
  case h_2 => simp at hserver
  case h_1 task chunk hw =>
    obtain ⟨command, _, rfl⟩ := Option.map_eq_some_iff.mp hserver
    exact h.setWorker (fun t => by simp [hw]) (fun t ht => by simp [Worker.task] at ht)
      (fun t => by simp) hserves

theorem Watches.step (h : s.Watches) {a : EdgeAction} (hok : s.LeavesNothing a)
    (hstep : s.step a = some s') : s'.Watches := by
  cases a with
  | connect =>
      obtain rfl := Option.some.inj hstep
      exact ⟨h.1.connect, h.2.connect h.1⟩
  | arrive fd bytes => exact h.arrive hstep
  | hangUp fd reset => exact h.hangUp hstep
  | epollWait ready => exact h.epollWait hok hstep
  | nextEvent accepted => exact h.nextEvent hok hstep
  | reuse memory => exact h.reuse hok hstep
  | dequeue w => exact h.dequeue hstep
  | read w => exact h.read hok hstep
  | opDeleteEvent w => exact h.opDeleteEvent hstep
  | delClilist w => exact h.delClilist hstep
  | parse w tmpStr residue => exact h.parse hstep

/-- **Wake-ups.** In every run in which `accept` empties the backlog, the pool has room, each read
takes all that there is, or else the descriptor will be looked at again, no wake-up is lost. -/
theorem noLostWakeup_of_leavesNothing {listenfd : Int} {events : Nat → EpollEvent} {s : EdgeServer}
    (h : Reaches step LeavesNothing (start listenfd events) s) : s.NoLostWakeup :=
  (h.invariant (I := Watches) (fun _ _ _ hwatches hok hstep => hwatches.step hok hstep)
    ⟨Wired.start listenfd events, NoLostWakeup.start listenfd events⟩).2

def oneRead (bytes : Bytes) : List EdgeAction :=
  [.connect, .epollWait [3], .nextEvent (some (7, [])), .arrive 7 bytes, .epollWait [7],
    .nextEvent none, .dequeue 0, .read 0]

theorem noLostWakeup_of_leavesNothing_oneRead :
    ∃ s, exec step (start 3 Server.noEvents) (oneRead (ascii "[1] help")) = some s
      ∧ s.NoLostWakeup := by
  have hidle : ∀ {t : Server}, t.queue = [] → (∀ w, t.workers w = .idle) →
      ∀ events, t.LeavesOutstanding events := by
    rintro t hqueue hworkers events task (hmem | ⟨w, hw⟩)
    · rw [hqueue] at hmem
      cases hmem
    · rw [hworkers w] at hw
      cases hw
  have hallowed : Allowed step LeavesNothing (start 3 Server.noEvents)
      (oneRead (ascii "[1] help")) := by
    refine ⟨trivial, fun s1 h1 => ?_⟩
    obtain rfl := Option.some.inj h1
    refine ⟨hidle rfl (fun _ => rfl) _, fun s2 h2 => ?_⟩
    obtain rfl := Option.some.inj h2
    refine ⟨?_, fun s3 h3 => ?_⟩
    · intro event hevent
      obtain rfl := Option.some.inj hevent
      exact ⟨rfl, Or.inl (Nat.le_refl 1)⟩
    obtain rfl := Option.some.inj h3
    refine ⟨trivial, fun s4 h4 => ?_⟩
    obtain rfl := Option.some.inj h4
    refine ⟨hidle rfl (fun _ => rfl) _, fun s5 h5 => ?_⟩
    obtain rfl := Option.some.inj h5
    refine ⟨?_, fun s6 h6 => ?_⟩
    · intro event hevent
      obtain rfl := Option.some.inj hevent
      exact Or.inl (Nat.zero_lt_succ 255)
    obtain rfl := Option.some.inj h6
    refine ⟨trivial, fun s7 h7 => ?_⟩
    obtain rfl := Option.some.inj h7
    refine ⟨?_, fun _ _ => trivial⟩
    intro task socket hworker hsocket
    obtain rfl := Worker.reading.inj hworker
    obtain rfl := Option.some.inj hsocket
    exact Or.inl (Nat.le_of_ble_eq_true rfl)
  exact ⟨_, rfl, noLostWakeup_of_leavesNothing (reaches_of_allowed hallowed rfl)⟩

/-- Of a request that is longer than the line the rest stays unread. -/
theorem unread_rest :
    ¬ ∀ (listenfd : Int) (events : Nat → EpollEvent) (s : EdgeServer),
      Reaches step anyAction (start listenfd events) s → s.NoLostWakeup := by
  intro h
  obtain ⟨s, hexec, hsocket, hedges, hloop, hqueue, hworkers⟩ :
      ∃ s, exec step (start 3 Server.noEvents) (oneRead (List.replicate 256 0x61)) = some s
        ∧ s.sockets 7 = some ⟨[0x61], false⟩ ∧ s.edges = [] ∧ s.server.loop = .waiting
        ∧ s.server.queue = [] ∧ ∀ w task, s.server.workers w ≠ .reading task := by
    refine ⟨_, rfl, rfl, rfl, rfl, rfl, fun w task hw => ?_⟩
    cases w with
    | zero => cases hw
    | succ w => cases hw
  have hcovered := (h 3 Server.noEvents s (reaches_of_exec hexec)).clients 7 _ hsocket (by simp)
  rcases hcovered with hedge | hevent | ⟨task, hmem | ⟨w, hw⟩, _⟩
  · rw [hedges] at hedge
    cases hedge
  · exact Server.not_pendingEvent (fun nfds i => by simp [hloop]) hevent
  · rw [hqueue] at hmem
    cases hmem
  · exact hworkers w task hw

end EdgeServer

end InstructionParser
