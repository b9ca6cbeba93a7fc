import InstructionParser.CommandOrder
import InstructionParser.Proof.Queue
import InstructionParser.Proof.EventSlots

/-!
# Commands in the order of their frames

The commands of a client keep their order as long as no worker pushes while another one still holds an
older frame of the same client, and as long as the parser finds the descriptor that was read from.
-/

namespace InstructionParser

open CLib Runs

namespace Server

variable {t t' : Server} {w w' : Nat}

/-- The worker has read a frame and has yet to push. -/
def HasFrame (t : Server) (w : Nat) : Prop := ∃ task chunk, t.workers w = .parsing task chunk

theorem HasFrame.congr (hworkers : t'.workers = t.workers) : t'.HasFrame w ↔ t.HasFrame w := by
  rw [HasFrame, HasFrame, hworkers]

theorem HasFrame.of_setWorker {worker : Worker} (hworker : ∀ task chunk, worker ≠ .parsing task chunk)
    (h : (t.setWorker w' worker).HasFrame w) : w ≠ w' ∧ t.HasFrame w := by
  obtain ⟨task, chunk, hparsing⟩ := h
  rcases eq_or_ne w w' with rfl | hne
  · exact absurd ((Function.update_self ..).symm.trans hparsing) (hworker task chunk)
  · exact ⟨hne, task, chunk, (Function.update_of_ne hne ..).symm.trans hparsing⟩

theorem epollWait_workers {ready : List EpollEvent} (h : t.epollWait ready = some t') :
    t'.workers = t.workers := by
  unfold epollWait at h
  split at h
  · split_ifs at h
    rw [← Option.some.inj h]
  · cases h

theorem nextEvent_workers {accepted : Bool} (h : t.nextEvent accepted = some t') :
    t'.workers = t.workers := by
  unfold nextEvent at h
  split at h
  · split_ifs at h <;> rw [← Option.some.inj h]
  · cases h

theorem reuse_workers {memory : Nat → EpollEvent} (h : t.reuse memory = some t') :
    t'.workers = t.workers := by
  unfold reuse at h
  split at h
  · rw [← Option.some.inj h]
  · cases h

theorem HasFrame.of_dequeue (hstep : t.dequeue w' = some t') (h : t'.HasFrame w) :
    t.HasFrame w := by
  unfold dequeue at hstep
  split at hstep
  · obtain rfl := Option.some.inj hstep
    exact (h.of_setWorker fun _ _ => by simp).2
  · cases hstep

theorem HasFrame.of_opDeleteEvent (hstep : t.opDeleteEvent w' = some t') (h : t'.HasFrame w) :
    t.HasFrame w := by
  unfold opDeleteEvent at hstep
  split at hstep
  · obtain rfl := Option.some.inj hstep
    exact (h.of_setWorker fun _ _ => by simp).2
  · cases hstep

theorem HasFrame.of_delClilist (hstep : t.delClilist w' = some t') (h : t'.HasFrame w) :
    t.HasFrame w := by
  unfold delClilist at hstep
  split at hstep
  · obtain rfl := Option.some.inj hstep
    exact (h.of_setWorker fun _ _ => by simp).2
  · cases hstep

theorem HasFrame.of_parse {tmpStr : Block 128} {residue : StCmdFrame}
    (hstep : t.parse w' tmpStr residue = some t') (h : t'.HasFrame w) :
    w ≠ w' ∧ t.HasFrame w := by
  unfold parse at hstep
  split at hstep
  · obtain ⟨command, _, rfl⟩ := Option.map_eq_some_iff.mp hstep
    exact h.of_setWorker fun _ _ => by simp
  · cases hstep

theorem read_workers {result : ReadResult} (hstep : t.read w' result = some t') (hne : w ≠ w') :
    t'.workers w = t.workers w := by
  unfold read at hstep
  split at hstep
  · rw [← Option.some.inj hstep]
    exact Function.update_of_ne hne ..
  · cases hstep

end Server

namespace EdgeServer

variable {s s' : EdgeServer} {w : Nat}

theorem hasFrame_of_step {a : EdgeAction} (hread : ∀ w, a ≠ .read w) (hstep : s.step a = some s')
    (h : s'.server.HasFrame w) : s.server.HasFrame w := by
  cases a with
  | connect =>
      obtain rfl := Option.some.inj hstep
      simpa [connect] using h
  | arrive fd bytes =>
      simp only [step, arrive] at hstep
      split at hstep
      · split_ifs at hstep
        obtain rfl := Option.some.inj hstep
        simpa [setSocket] using h
      · cases hstep
  | hangUp fd reset =>
      simp only [step, hangUp] at hstep
      split at hstep
      · obtain rfl := Option.some.inj hstep
        simpa [setSocket] using h
      · cases hstep
  | epollWait ready =>
      simp only [step, epollWait] at hstep
      split_ifs at hstep
      obtain ⟨server, hserver, rfl⟩ := Option.map_eq_some_iff.mp hstep
      exact (Server.HasFrame.congr (Server.epollWait_workers hserver)).mp h
  | nextEvent accepted =>
      obtain ⟨server, hserver, hnext⟩ := Option.bind_eq_some_iff.mp hstep
      have hsame : s'.server = server := by
        split_ifs at hnext
        · cases accepted with
          | none => rw [← Option.some.inj hnext]
          | some connection =>
              simp only at hnext
              split_ifs at hnext
              rw [← Option.some.inj hnext, add]
              split_ifs
              · rfl
              · rw [edge_server]
                rfl
        · rw [← Option.some.inj hnext]
      rw [hsame] at h
      exact (Server.HasFrame.congr (Server.nextEvent_workers hserver)).mp h
  | reuse memory =>
      obtain ⟨server, hserver, rfl⟩ := Option.map_eq_some_iff.mp hstep
      exact (Server.HasFrame.congr (Server.reuse_workers hserver)).mp h
  | dequeue w' =>
      obtain ⟨server, hserver, rfl⟩ := Option.map_eq_some_iff.mp hstep
      exact h.of_dequeue hserver
  | read w' => exact absurd rfl (hread w')
  | opDeleteEvent w' =>
      simp only [step, opDeleteEvent] at hstep
      split at hstep
      · obtain ⟨server, hserver, rfl⟩ := Option.map_eq_some_iff.mp hstep
        exact Server.HasFrame.of_opDeleteEvent hserver h
      · cases hstep
  | delClilist w' =>
      obtain ⟨server, hserver, rfl⟩ := Option.map_eq_some_iff.mp hstep
      exact h.of_delClilist hserver
  | parse w' tmpStr residue =>
      obtain ⟨server, hserver, rfl⟩ := Option.map_eq_some_iff.mp hstep
      exact (h.of_parse hserver).2

end EdgeServer

namespace CommandOrder

variable {s s' : CommandOrder} {w : Nat}

def HasFrame (s : CommandOrder) (w : Nat) : Prop := s.net.server.HasFrame w

/-- The commands of each client have been pushed in the order in which their frames were read from it,
and they come out of the queue in that order. -/
structure InOrder (s : CommandOrder) : Prop where
  read_from : ∀ p ∈ s.pushed, s.reads[p.number]? = some p.cmd.fd
  ordered : s.pushed.Pairwise fun p q => p.cmd.fd = q.cmd.fd → p.number < q.number
  queued : s.popped ++ s.queue.contents = s.pushed

/-- The condition on the steps of a run, which is about the pushes: the parser finds the descriptor
that the worker read from, and no other worker still holds an older frame from it. -/
def KeepsTurn (s : CommandOrder) : OrderAction → Prop
  | .net (.parse w _ _) => ∀ task chunk, s.net.server.workers w = .parsing task chunk →
      s.reads[s.current w]? = some (s.net.server.deref task)
        ∧ ∀ w', s.HasFrame w' → s.reads[s.current w']? = s.reads[s.current w]? →
          s.current w ≤ s.current w'
  | _ => True

/-- The invariant: the frames that workers hold are numbered apart, and each is younger than what has
been pushed for its client. -/
structure Queued (s : CommandOrder) : Prop extends s.InOrder where
  wellFormed : s.queue.WellFormed
  numbered : ∀ w, s.HasFrame w → s.current w < s.reads.length
  distinct : ∀ w w', s.HasFrame w → s.HasFrame w' → s.current w = s.current w' → w = w'
  younger : ∀ p ∈ s.pushed, ∀ w, s.HasFrame w → s.reads[s.current w]? = some p.cmd.fd →
    p.number < s.current w

theorem Queued.start (listenfd : Int) (events : Nat → EpollEvent) :
    (CommandOrder.start listenfd events).Queued := by
  have hnone : ∀ w, ¬ (CommandOrder.start listenfd events).HasFrame w := by
    rintro w ⟨_, _, hw⟩
    cases hw
  exact {
    read_from := fun _ hp => absurd hp List.not_mem_nil
    ordered := List.Pairwise.nil
    queued := (List.nil_append _).trans (CircleQueue.contents_zeroed _)
    wellFormed := CircleQueue.wellFormed_zeroed _
    numbered := fun w hw => absurd hw (hnone w)
    distinct := fun w _ hw => absurd hw (hnone w)
    younger := fun _ hp => absurd hp List.not_mem_nil }

theorem Queued.setNet {net : EdgeServer} (h : s.Queued)
    (hframes : ∀ w, net.server.HasFrame w → s.HasFrame w) : Queued { s with net } :=
  { h with
    numbered := fun w hw => h.numbered w (hframes w hw)
    distinct := fun w w' hw hw' => h.distinct w w' (hframes w hw) (hframes w' hw')
    younger := fun p hp w hw => h.younger p hp w (hframes w hw) }

theorem Queued.pop (h : s.Queued) : s.pop.Queued := by
  rw [CommandOrder.pop]
  cases hempty : s.queue.isQueueEmpty with
  | true =>
      rw [CircleQueue.popElement_empty hempty]
      exact { h with queued := by simpa using h.queued }
  | false =>
      rw [CircleQueue.popElement_notEmpty hempty]
      refine { h with queued := ?_, wellFormed := h.wellFormed.pop }
      have hcons := CircleQueue.contents_pop h.wellFormed hempty
      rw [← h.queued, hcons]
      simp

/-- A read takes the next number. -/
theorem Queued.recordRead {net : EdgeServer} (h : s.Queued) (fd : Int)
    (hframes : ∀ w', w' ≠ w → net.server.HasFrame w' → s.HasFrame w') :
    ({ s with net }.recordRead w fd).Queued := by
  have hcurrent : Function.update s.current w s.reads.length w = s.reads.length :=
    Function.update_self ..
  have hother : ∀ {w'}, w' ≠ w → Function.update s.current w s.reads.length w' = s.current w' :=
    fun hne => Function.update_of_ne hne ..
  have hlast : (s.reads ++ [fd])[s.reads.length]? = some fd := by simp
  have hold : ∀ {n}, n < s.reads.length → (s.reads ++ [fd])[n]? = s.reads[n]? :=
    fun hn => List.getElem?_append_left hn
  have hpushed : ∀ p ∈ s.pushed, p.number < s.reads.length := fun p hp =>
    (List.getElem?_eq_some_iff.mp (h.read_from p hp)).1
  refine { h with read_from := ?_, numbered := ?_, distinct := ?_, younger := ?_ }
  · intro p hp
    exact (hold (hpushed p hp)).trans (h.read_from p hp)
  · intro w' hw'
    rcases eq_or_ne w' w with rfl | hne
    · simp [CommandOrder.recordRead]
    · have hlt := h.numbered w' (hframes w' hne hw')
      simp only [CommandOrder.recordRead, hother hne, List.length_append]
      omega
  · intro w1 w2 h1 h2 heq
    simp only [CommandOrder.recordRead] at heq
    rcases eq_or_ne w1 w with rfl | hne1
    · rcases eq_or_ne w2 w1 with rfl | hne2
      · rfl
      · have hlt := h.numbered w2 (hframes w2 hne2 h2)
        rw [hcurrent, hother hne2] at heq
        omega
    · have hlt := h.numbered w1 (hframes w1 hne1 h1)
      rcases eq_or_ne w2 w with rfl | hne2
      · rw [hcurrent, hother hne1] at heq
        omega
      · rw [hother hne1, hother hne2] at heq
        exact h.distinct w1 w2 (hframes w1 hne1 h1) (hframes w2 hne2 h2) heq
  · intro p hp w' hw' hfd
    simp only [CommandOrder.recordRead] at hfd ⊢
    rcases eq_or_ne w' w with rfl | hne
    · rw [hcurrent]
      exact hpushed p hp
    · have hlt := h.numbered w' (hframes w' hne hw')
      rw [hother hne] at hfd ⊢
      rw [hold hlt] at hfd
      exact h.younger p hp w' (hframes w' hne hw') hfd

theorem Queued.read (h : s.Queued) (hstep : s.read w = some s') : s'.Queued := by
  unfold CommandOrder.read at hstep
  split at hstep
  case h_2 => simp at hstep
  case h_1 task hw =>
    obtain ⟨net, hnet, rfl⟩ := Option.map_eq_some_iff.mp hstep
    have hframes : ∀ w', w' ≠ w → net.server.HasFrame w' → s.HasFrame w' := by
      intro w' hne hw'
      simp only [EdgeServer.step, EdgeServer.read, hw] at hnet
      obtain ⟨server, hserver, rfl⟩ := Option.map_eq_some_iff.mp hnet
      rw [HasFrame, Server.HasFrame, ← Server.read_workers hserver hne]
      exact hw'
    split
    · exact h.recordRead _ hframes
    · rename_i hnone
      apply h.setNet
      intro w' hw'
      rcases eq_or_ne w' w with rfl | hne
      · obtain ⟨task', chunk, hparsing⟩ := hw'
        exact absurd hparsing (hnone task' chunk)
      · exact hframes w' hne hw'

theorem push_full {entry : NumberedCmd} (hfull : s.queue.isQueueFull = true) : s.push entry = s := by
  simp [CommandOrder.push, CircleQueue.pushCmdQueue, CircleQueue.pushElement_full hfull]

theorem push_notFull {entry : NumberedCmd} (hfull : s.queue.isQueueFull = false) :
    s.push entry = { s with
      queue := s.queue.advanceTail.writeSlot entry, pushed := s.pushed ++ [entry] } := by
  simp [CommandOrder.push, CircleQueue.pushCmdQueue, CircleQueue.pushElement_notFull hfull]

theorem Queued.push {net : EdgeServer} {entry : NumberedCmd} (h : s.Queued)
    (hframes : ∀ w, net.server.HasFrame w → s.HasFrame w)
    (hread : s.reads[entry.number]? = some entry.cmd.fd)
    (holder : ∀ p ∈ s.pushed, p.cmd.fd = entry.cmd.fd → p.number < entry.number)
    (hyounger : ∀ w, net.server.HasFrame w → s.reads[s.current w]? = some entry.cmd.fd →
      entry.number < s.current w) : ({ s with net }.push entry).Queued := by
  have hset := h.setNet hframes
  cases hfull : s.queue.isQueueFull with
  | true =>
      rw [push_full (s := { s with net }) hfull]
      exact hset
  | false =>
      rw [push_notFull (s := { s with net }) hfull]
      refine { hset with
        read_from := ?_, ordered := ?_, queued := ?_, wellFormed := h.wellFormed.push entry,
        younger := ?_ }
      · intro p hp
        rcases List.mem_append.mp hp with hold | hnew
        · exact h.read_from p hold
        · obtain rfl := List.mem_singleton.mp hnew
          exact hread
      · refine List.pairwise_append.mpr ⟨h.ordered, List.pairwise_singleton .., ?_⟩
        intro p hp q hq hfd
        obtain rfl := List.mem_singleton.mp hq
        exact holder p hp hfd
      · rw [CircleQueue.contents_push h.wellFormed hfull, ← List.append_assoc, h.queued]
      · intro p hp w hw hfd
        rcases List.mem_append.mp hp with hold | hnew
        · exact hset.younger p hold w hw hfd
        · obtain rfl := List.mem_singleton.mp hnew
          exact hyounger w hw hfd

theorem Queued.parse {tmpStr : Block 128} {residue : StCmdFrame} (h : s.Queued)
    (hok : s.KeepsTurn (.net (.parse w tmpStr residue)))
    (hstep : s.parse w tmpStr residue = some s') : s'.Queued := by
  unfold CommandOrder.parse at hstep
  split at hstep
  case h_2 => simp at hstep
  case h_1 task chunk hw =>
    obtain ⟨command, hcommand, hstep⟩ := Option.bind_eq_some_iff.mp hstep
    obtain ⟨net, hnet, rfl⟩ := Option.map_eq_some_iff.mp hstep
    obtain ⟨server, hserver, rfl⟩ := Option.map_eq_some_iff.mp hnet
    have hframes : ∀ w', server.HasFrame w' → w' ≠ w ∧ s.HasFrame w' :=
      fun w' hw' => hw'.of_parse hserver
    cases command with
    | none => exact h.setNet fun w' hw' => (hframes w' hw').2
    | some cmd =>
        obtain ⟨hread, hturn⟩ := hok task chunk hw
        have hframe : s.HasFrame w := ⟨task, chunk, hw⟩
        have hfd : cmd.fd = s.net.server.deref task := handle_fd hcommand
        refine h.push (fun w' hw' => (hframes w' hw').2) (hfd ▸ hread) ?_ ?_
        · intro p hp hsame
          exact h.younger p hp w hframe (by rw [hread, hsame, hfd])
        · intro w' hw' hread'
          obtain ⟨hne, hframe'⟩ := hframes w' hw'
          have hle : s.current w ≤ s.current w' := hturn w' hframe' (by rw [hread', hread, hfd])
          refine Nat.lt_of_le_of_ne hle fun heq => hne ?_
          exact h.distinct w' w hframe' hframe heq.symm

theorem Queued.step (h : s.Queued) {a : OrderAction} (hok : s.KeepsTurn a)
    (hstep : s.step a = some s') : s'.Queued := by
  cases a with
  | pop =>
      obtain rfl := Option.some.inj hstep
      exact h.pop
  | net a =>
      by_cases hread : ∃ w, a = .read w
      · obtain ⟨w, rfl⟩ := hread
        exact h.read hstep
      · by_cases hparse : ∃ w tmpStr residue, a = .parse w tmpStr residue
        · obtain ⟨w, tmpStr, residue, rfl⟩ := hparse
          exact h.parse hok hstep
        · have hnet : (s.net.step a).map (fun net => { s with net }) = some s' := by
            cases a <;> simp_all [CommandOrder.step]
          obtain ⟨net, hnext, rfl⟩ := Option.map_eq_some_iff.mp hnet
          exact h.setNet fun w hw =>
            EdgeServer.hasFrame_of_step (fun w heq => hread ⟨w, heq⟩) hnext hw

/-- **Command order.** In every run in which each push finds the descriptor that was read from, and
no other worker with an older frame from it, the commands of each client are queued in the order in
which their frames were read. -/
theorem inOrder_of_keepsTurn {listenfd : Int} {events : Nat → EpollEvent} {s : CommandOrder}
    (h : Reaches step KeepsTurn (start listenfd events) s) : s.InOrder :=
  (h.invariant (I := Queued) (fun _ _ _ hqueued hok hstep => hqueued.step hok hstep)
    (Queued.start listenfd events)).toInOrder

/-- A client connects and sends two lines, each in its own arrival, and two workers read one each. -/
def twoLines : List OrderAction :=
  [.net .connect, .net (.epollWait [3]), .net (.nextEvent (some (7, []))),
    .net (.arrive 7 (ascii "[1] start_record")), .net (.epollWait [7]), .net (.nextEvent none),
    .net (.dequeue 0), .net (.read 0),
    .net (.arrive 7 (ascii "[2] stop_record")), .net (.epollWait [7]), .net (.nextEvent none),
    .net (.dequeue 1), .net (.read 1)]

def pushOf (w : Nat) : OrderAction := .net (.parse w (Block.zeroed 128) StCmdFrame.zeroed)

theorem inOrder_of_keepsTurn_twoLines :
    ∃ s, exec step (start 3 Server.noEvents) (twoLines ++ [pushOf 0]) = some s
      ∧ s.pushed.length = 1 ∧ s.InOrder := by
  have hrun : (exec step (start 3 Server.noEvents) (twoLines ++ [pushOf 0])).map
      (fun s => s.pushed.length) = some 1 := by decide +kernel
  obtain ⟨s, hexec, hlength⟩ := Option.map_eq_some_iff.mp hrun
  have hreads : Allowed step KeepsTurn (start 3 Server.noEvents) twoLines :=
    allowed_of_forall (fun a ha s => by
      simp only [twoLines, List.mem_cons, List.not_mem_nil, or_false] at ha
      rcases ha with rfl | rfl | rfl | rfl | rfl | rfl | rfl | rfl | rfl | rfl | rfl | rfl | rfl <;>
        trivial) _
  have hmiddle : (exec step (start 3 Server.noEvents) twoLines).map
      (fun s => (s.current 0, s.reads[0]?, (s.net.server.workers 0).task.map s.net.server.deref))
        = some (0, some 7, some 7) := by decide +kernel
  obtain ⟨middle, htwoLines, hmiddle⟩ := Option.map_eq_some_iff.mp hmiddle
  simp only [Prod.mk.injEq] at hmiddle
  obtain ⟨hcurrent, hread, hfd⟩ := hmiddle
  have hturn : middle.KeepsTurn (pushOf 0) := by
    intro task chunk hworker
    rw [hworker] at hfd
    rw [hcurrent, hread]
    exact ⟨hfd.symm, fun w' _ _ => Nat.zero_le _⟩
  have hallowed : Allowed step KeepsTurn (start 3 Server.noEvents) (twoLines ++ [pushOf 0]) :=
    allowed_append hreads htwoLines ⟨hturn, fun _ _ => trivial⟩
  exact ⟨s, hexec, hlength, inOrder_of_keepsTurn (reaches_of_allowed hallowed hexec)⟩

/-- The worker that read second pushes first. -/
theorem later_command_first :
    ¬ ∀ (listenfd : Int) (events : Nat → EpollEvent) (s : CommandOrder),
      Reaches step anyAction (start listenfd events) s → s.InOrder := by
  intro h
  have hrun : (exec step (start 3 Server.noEvents) (twoLines ++ [pushOf 1, pushOf 0])).map
      (fun s => s.pushed.map fun p => (p.number, p.cmd.fd)) = some [(1, 7), (0, 7)] := by
    decide +kernel
  obtain ⟨s, hexec, hlog⟩ := Option.map_eq_some_iff.mp hrun
  have hordered := (h 3 Server.noEvents s (reaches_of_exec hexec)).ordered
  have hmap : (s.pushed.map fun p => (p.number, p.cmd.fd)).Pairwise
      fun p q => p.2 = q.2 → p.1 < q.1 := List.pairwise_map.mpr hordered
  rw [hlog] at hmap
  exact absurd hmap (by decide)

end CommandOrder

end InstructionParser
