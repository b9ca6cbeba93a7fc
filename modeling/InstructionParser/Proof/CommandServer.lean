import InstructionParser.CommandServer
import InstructionParser.Proof.Pipeline
import InstructionParser.Proof.PooledServer
import InstructionParser.UnderWay

/-!
# From a client's bytes to its answers

Between `op_read` and the push a chunk is under way in one worker. As long as no slot of `events` is
written over while a task points at it, what is pushed for a client was read from that client, so that
all it ever gets are answers to commands in its own bytes.
-/

namespace InstructionParser

open CLib Runs UnderWay

/-! ### The bytes of one client -/

theorem bytesFrom_append (fd : Int) (reads more : List (Int × Bytes)) :
    bytesFrom fd (reads ++ more) = bytesFrom fd reads ++ bytesFrom fd more := List.filterMap_append

theorem bytesFrom_singleton (fd fd' : Int) (chunk : Bytes) :
    bytesFrom fd [(fd', chunk)] = if fd' = fd then [chunk] else [] := by
  by_cases hfd : fd' = fd
  · simp [bytesFrom, hfd]
  · simp [bytesFrom, hfd]

namespace Pipeline

variable {p p' : Pipeline}

/-- The accepted commands of the client, each with the read that it was parsed from. -/
def FromReads (fd : Int) (p : Pipeline) : Prop :=
  ∃ chunks, chunks.Sublist (bytesFrom fd p.reads)
    ∧ List.Forall₂ (ParsedFrom fd) chunks (ofClient fd p.accepted)

theorem fromReads_start (fd : Int) (reply : Reply) : FromReads fd (start reply) :=
  ⟨[], List.Sublist.refl _, List.Forall₂.nil⟩

theorem reads_of_getCmd {env : Env} (hstep : p.step (.getCmd env) = some p') :
    p'.reads = p.reads ∧ p'.accepted = p.accepted := by
  simp only [step, serve] at hstep
  split at hstep
  · obtain rfl := Option.some.inj hstep
    exact ⟨rfl, rfl⟩
  · obtain ⟨_, _, rfl⟩ := Option.map_eq_some_iff.mp hstep
    exact ⟨rfl, rfl⟩

/-- What a read adds: the read itself, and its command unless it has none or is dropped. -/
theorem handle_cases {tmpStr : Block 128} {residue : StCmdFrame} {fd : Int} {chunk : Bytes}
    (hstep : p.step (.handle tmpStr residue fd chunk) = some p') :
    p'.reads = p.reads ++ [(fd, chunk)]
      ∧ (p'.accepted = p.accepted
        ∨ ∃ cmd, handle tmpStr residue fd chunk = some (some cmd)
          ∧ p'.accepted = p.accepted ++ [cmd]) := by
  obtain ⟨command, hhandle, rfl⟩ := Option.map_eq_some_iff.mp hstep
  cases command with
  | none => exact ⟨rfl, Or.inl rfl⟩
  | some cmd =>
      obtain ⟨hreads, haccepted⟩ := push_accepted { p with reads := p.reads ++ [(fd, chunk)] } cmd
      exact ⟨hreads, haccepted.imp_right fun h => ⟨cmd, hhandle, h⟩⟩

theorem FromReads.step {fd : Int} (h : FromReads fd p) {a : PipelineAction}
    (hstep : p.step a = some p') : FromReads fd p' := by
  obtain ⟨chunks, hsub, hparsed⟩ := h
  cases a with
  | getCmd env =>
      obtain ⟨hreads, haccepted⟩ := reads_of_getCmd hstep
      exact ⟨chunks, hreads ▸ hsub, haccepted ▸ hparsed⟩
  | handle tmpStr residue fd' chunk =>
      obtain ⟨hreads, haccepted⟩ := handle_cases hstep
      have hmore : (bytesFrom fd p.reads).Sublist (bytesFrom fd p'.reads) := by
        rw [hreads, bytesFrom_append]
        exact List.sublist_append_left _ _
      rcases haccepted with hsame | ⟨cmd, hhandle, hnew⟩
      · exact ⟨chunks, hsub.trans hmore, hsame ▸ hparsed⟩
      · rw [FromReads, hnew, ofClient_append, ofClient_cons, handle_fd hhandle]
        by_cases hfd : fd' = fd
        · subst hfd
          refine ⟨chunks ++ [chunk], ?_, ?_⟩
          · rw [hreads, bytesFrom_append, bytesFrom_singleton, if_pos rfl]
            exact hsub.append (List.Sublist.refl _)
          · rw [if_pos rfl]
            exact List.rel_append hparsed (List.Forall₂.cons ⟨tmpStr, residue, hhandle⟩ List.Forall₂.nil)
        · rw [if_neg hfd]
          exact ⟨chunks, hsub.trans hmore, by simpa [ofClient] using hparsed⟩

theorem fromReads_of_reaches {reply : Reply} (fd : Int)
    (h : Reaches step anyAction (start reply) p) : FromReads fd p :=
  h.invariant (fun _ _ _ hI _ hstep => hI.step hstep) (fromReads_start fd reply)

end Pipeline

/-! ### What a step of the server does to the chunks under way -/

namespace Server

variable {t t' : Server} {fd : Int} {w : Nat}

/-- The chunk of the client that a worker has read and not parsed. -/
def chunkOf (fd : Int) : Worker → Option Bytes
  | .parsing task chunk => if task.fd = fd then some chunk else none
  | _ => none

def underWay (fd : Int) (t : Server) (w : Nat) : Option Bytes := chunkOf fd (t.workers w)

theorem underWay_congr (h : t'.workers = t.workers) : t'.underWay fd = t.underWay fd := by
  funext v
  rw [underWay, underWay, h]

theorem underWay_update (worker : Worker) (hworkers : t'.workers = Function.update t.workers w worker) :
    t'.underWay fd = Function.update (t.underWay fd) w (chunkOf fd worker) := by
  funext v
  rw [underWay, hworkers]
  by_cases hv : v = w
  · subst hv
    rw [Function.update_self, Function.update_self]
  · rw [Function.update_of_ne hv, Function.update_of_ne hv]
    rfl

theorem underWay_same {worker : Worker} (hworkers : t'.workers = Function.update t.workers w worker)
    (hchunk : chunkOf fd worker = t.underWay fd w) : t'.underWay fd = t.underWay fd := by
  rw [underWay_update worker hworkers, hchunk, Function.update_eq_self]

/-- A read begins a chunk of the client that the task is for. -/
theorem underWay_read (fd : Int) {chunk : Bytes} (hstep : t.step (.read w (.data chunk)) = some t') :
    ∃ task, t.workers w = .reading task ∧ t.underWay fd w = none
      ∧ t'.underWay fd = if task.fd = fd then Function.update (t.underWay fd) w (some chunk)
        else t.underWay fd := by
  simp only [step, read] at hstep
  split at hstep
  case h_2 => cases hstep
  case h_1 task hworker =>
    obtain rfl := Option.some.inj hstep
    have hnone : t.underWay fd w = none := by
      rw [underWay, hworker]
      rfl
    have hchunk : underWay fd ((t.recordRead task.fd (t.deref task)).setWorker w (.parsing task chunk))
        = Function.update (t.underWay fd) w (if task.fd = fd then some chunk else none) :=
      underWay_update (t := t) (.parsing task chunk) rfl
    refine ⟨task, hworker, hnone, hchunk.trans ?_⟩
    split_ifs with hfd
    · rfl
    · rw [← hnone, Function.update_eq_self]

/-- The parser ends it. -/
theorem underWay_parse (fd : Int) {tmpStr : Block 128} {residue : StCmdFrame}
    (hstep : t.step (.parse w tmpStr residue) = some t') :
    ∃ task chunk, t.workers w = .parsing task chunk
      ∧ t.underWay fd w = (if task.fd = fd then some chunk else none)
      ∧ t'.underWay fd = if task.fd = fd then Function.update (t.underWay fd) w none
        else t.underWay fd := by
  simp only [step, parse] at hstep
  split at hstep
  case h_2 => cases hstep
  case h_1 task chunk hworker =>
    obtain ⟨command, _, rfl⟩ := Option.map_eq_some_iff.mp hstep
    have hchunk : t.underWay fd w = if task.fd = fd then some chunk else none := by
      rw [underWay, hworker]
      rfl
    have hidle : underWay fd ((t.recordPushed task.fd command).setWorker w .idle)
        = Function.update (t.underWay fd) w none :=
      underWay_update (t := t) .idle rfl
    refine ⟨task, chunk, hworker, hchunk, hidle.trans ?_⟩
    split_ifs with hfd
    · rfl
    · rw [← hchunk.trans (if_neg hfd), Function.update_eq_self]

/-- No other step reads or parses. -/
theorem underWay_other {a : ServerAction} (hread : ∀ w chunk, a ≠ .read w (.data chunk))
    (hparse : ∀ w tmpStr residue, a ≠ .parse w tmpStr residue) (hstep : t.step a = some t') :
    t'.underWay fd = t.underWay fd := by
  cases a with
  | epollWait ready =>
      simp only [step, epollWait] at hstep
      split at hstep
      · split_ifs at hstep
        obtain rfl := Option.some.inj hstep
        exact underWay_congr rfl
      · cases hstep
  | nextEvent accepted =>
      simp only [step, nextEvent] at hstep
      split at hstep
      case h_2 => cases hstep
      case h_1 =>
        split_ifs at hstep
        all_goals
          obtain rfl := Option.some.inj hstep
          exact underWay_congr rfl
  | reuse memory =>
      simp only [step, reuse] at hstep
      split at hstep
      · obtain rfl := Option.some.inj hstep
        exact underWay_congr rfl
      · cases hstep
  | dequeue v =>
      simp only [step, dequeue] at hstep
      split at hstep
      case h_2 => cases hstep
      case h_1 task rest hworker _ =>
        obtain rfl := Option.some.inj hstep
        exact underWay_same rfl (by rw [underWay, hworker]; rfl)
  | read v result =>
      simp only [step, read] at hstep
      split at hstep
      case h_2 => cases hstep
      case h_1 task hworker =>
        obtain rfl := Option.some.inj hstep
        cases result with
        | data chunk => exact absurd rfl (hread v chunk)
        | again => exact underWay_same rfl (by rw [underWay, hworker]; rfl)
        | closed => exact underWay_same rfl (by rw [underWay, hworker]; rfl)
  | opDeleteEvent v =>
      simp only [step, opDeleteEvent] at hstep
      split at hstep
      case h_2 => cases hstep
      case h_1 task hworker =>
        obtain rfl := Option.some.inj hstep
        exact underWay_same rfl (by rw [underWay, hworker]; rfl)
  | delClilist v =>
      simp only [step, delClilist] at hstep
      split at hstep
      case h_2 => cases hstep
      case h_1 task hworker =>
        obtain rfl := Option.some.inj hstep
        exact underWay_same rfl (by rw [underWay, hworker]; rfl)
  | parse v tmpStr residue => exact absurd rfl (hparse v tmpStr residue)

end Server

namespace CommandServer

variable {s s' : CommandServer} {fd : Int}

/-- No slot is written over while a task points at it, as far as its file descriptor goes. -/
def SlotsKept (s : CommandServer) : CommandAction → Prop
  | .server (.server a) => s.server.toServer.KeepsOutstanding a
  | _ => True

/-- A worker reads from the client only while no other worker has a chunk of it under way. -/
def ReadsInTurn (fd : Int) (s : CommandServer) : CommandAction → Prop
  | .server (.server (.read w (.data _))) =>
      ∀ task, s.server.handling w = .reading task → task.fd = fd →
        ∀ v, s.server.toServer.underWay fd v = none
  | _ => True

/-- The tasks are for the clients that they were added for. -/
structure Routed (s : CommandServer) : Prop where
  linked : s.server.Linked
  serves : s.server.toServer.Serves

theorem routed_start (listenfd : Int) (events : Nat → EpollEvent) (queue : Nat → Task) (reply : Reply) :
    (start listenfd events queue reply).Routed where
  linked := PooledServer.linked_start listenfd events queue
  serves := Server.Serves.start listenfd events

/-- A step of the server over its pool: the same step over a list of tasks, or one that neither reads nor
parses. -/
theorem server_cases (h : s.server.Linked) {a : PooledAction} {server : PooledServer}
    (hstep : s.server.step a = some server) : server.Linked
      ∧ ((∃ b, a = .server b ∧ s.server.toServer.step b = some server.toServer)
        ∨ (∀ b, a = .server b → PooledServer.ofHandle b = false) ∧ s.server.PoolMatches server) := by
  cases a with
  | server b =>
      obtain ⟨hlinked, hserver | ⟨hother, hsame⟩⟩ := PooledServer.matches_server h hstep
      · exact ⟨hlinked, Or.inl ⟨b, rfl, hserver⟩⟩
      · refine ⟨hlinked, Or.inr ⟨fun b' heq => ?_, Or.inl hsame⟩⟩
        obtain rfl := PooledAction.server.inj heq
        exact hother
  | pool b =>
      obtain ⟨hlinked, hmatches⟩ := PooledServer.matches_pool h hstep
      exact ⟨hlinked, Or.inr ⟨fun _ => nofun, hmatches.poolMatches⟩⟩

theorem serves_of_poolMatches {server : PooledServer} (h : s.server.toServer.Serves)
    (hmatches : s.server.PoolMatches server) : server.toServer.Serves := by
  rcases hmatches with hsame | hadded | ⟨w, htaken⟩
  · rw [hsame]
    exact h
  · exact h.nextEvent hadded
  · exact h.dequeue htaken

theorem underWay_of_poolMatches {server : PooledServer} (hmatches : s.server.PoolMatches server) :
    server.toServer.underWay fd = s.server.toServer.underWay fd := by
  rcases hmatches with hsame | hadded | ⟨w, htaken⟩
  · rw [hsame]
  · exact Server.underWay_other (a := .nextEvent true) (fun _ _ => nofun) (fun _ _ _ => nofun) hadded
  · exact Server.underWay_other (a := .dequeue w) (fun _ _ => nofun) (fun _ _ _ => nofun) htaken

/-- What a step does to the chunks of a client: nothing, a worker reads one, or it parses one. -/
inductive Moved (fd : Int) (s : CommandServer) (a : CommandAction) (s' : CommandServer) : Prop
  | quiet (hunder : s'.server.toServer.underWay fd = s.server.toServer.underWay fd)
      (hreceived : bytesFrom fd s'.received = bytesFrom fd s.received)
      (hreads : bytesFrom fd s'.pipeline.reads = bytesFrom fd s.pipeline.reads)
  | read (w : Nat) (chunk : Bytes) (task : Task)
      (haction : a = .server (.server (.read w (.data chunk))))
      (htask : s.server.handling w = .reading task) (hfd : task.fd = fd)
      (hnone : s.server.toServer.underWay fd w = none)
      (hunder : s'.server.toServer.underWay fd
        = Function.update (s.server.toServer.underWay fd) w (some chunk))
      (hreceived : bytesFrom fd s'.received = bytesFrom fd s.received ++ [chunk])
      (hreads : bytesFrom fd s'.pipeline.reads = bytesFrom fd s.pipeline.reads)
  | parse (w : Nat) (chunk : Bytes) (hsome : s.server.toServer.underWay fd w = some chunk)
      (hunder : s'.server.toServer.underWay fd
        = Function.update (s.server.toServer.underWay fd) w none)
      (hreceived : bytesFrom fd s'.received = bytesFrom fd s.received)
      (hreads : bytesFrom fd s'.pipeline.reads = bytesFrom fd s.pipeline.reads ++ [chunk])

theorem step_server {a : PooledAction} (hstep : s.step (.server a) = some s') :
    ∃ server pipeline, s.server.step a = some server ∧ s.parsed a = some pipeline
      ∧ s' = { server, pipeline, received := s.received ++ taken s.server a } := by
  obtain ⟨server, hserver, hstep⟩ := Option.bind_eq_some_iff.mp hstep
  obtain ⟨pipeline, hpipeline, hpure⟩ := Option.bind_eq_some_iff.mp hstep
  exact ⟨server, pipeline, hserver, hpipeline, (Option.some.inj hpure).symm⟩

theorem parsed_cases {a : PooledAction} {pipeline : Pipeline} (h : s.parsed a = some pipeline) :
    pipeline = s.pipeline ∨ ∃ b, s.pipeline.step b = some pipeline := by
  unfold parsed at h
  split at h
  · split at h
    · exact Or.inr ⟨_, h⟩
    · cases h
  · exact Or.inl (Option.some.inj h).symm

theorem handling_of_workers {w : Nat} {worker : Worker} (h : s.server.toServer.workers w = worker)
    (hbusy : worker ≠ .idle) : s.server.handling w = worker := by
  have hworker : s.server.busy w = worker := h
  rw [PooledServer.busy] at hworker
  split_ifs at hworker
  · exact hworker
  · exact absurd hworker.symm hbusy

/-- A step that neither reads nor parses. -/
theorem moved_quiet {a : PooledAction} (hstep : s.step (.server a) = some s')
    (htaken : taken s.server a = []) (hparsed : s.parsed a = some s.pipeline)
    (hunder : ∀ server, s.server.step a = some server →
      server.toServer.underWay fd = s.server.toServer.underWay fd) : Moved fd s (.server a) s' := by
  obtain ⟨server, pipeline, hserver, hpipeline, rfl⟩ := step_server hstep
  obtain rfl := Option.some.inj (hpipeline.symm.trans hparsed)
  refine .quiet (hunder server hserver) ?_ rfl
  rw [htaken, List.append_nil]

theorem moved_read (h : s.Routed) {w : Nat} {chunk : Bytes}
    (hstep : s.step (.server (.server (.read w (.data chunk)))) = some s')
    (hserver : s.server.toServer.step (.read w (.data chunk)) = some s'.server.toServer) :
    Moved fd s (.server (.server (.read w (.data chunk)))) s' := by
  obtain ⟨server, pipeline, _, hpipeline, rfl⟩ := step_server hstep
  obtain ⟨task, hworker, hnone, hunder⟩ := Server.underWay_read fd hserver
  have hhandling := handling_of_workers hworker nofun
  have hderef : s.server.front.deref task = task.fd :=
    h.serves.outstanding task (Server.outstanding_of_worker (by rw [hworker]; rfl))
  obtain rfl := Option.some.inj hpipeline
  have hreceived : bytesFrom fd (s.received ++ taken s.server (.server (.read w (.data chunk))))
      = bytesFrom fd s.received ++ if task.fd = fd then [chunk] else [] := by
    rw [bytesFrom_append, taken, hhandling, ← hderef, ← bytesFrom_singleton]
  by_cases hfd : task.fd = fd
  · rw [if_pos hfd] at hunder hreceived
    exact .read w chunk task rfl hhandling hfd hnone hunder hreceived rfl
  · rw [if_neg hfd] at hunder
    rw [if_neg hfd, List.append_nil] at hreceived
    exact .quiet hunder hreceived rfl

theorem moved_parse (h : s.Routed) {w : Nat} {tmpStr : Block 128} {residue : StCmdFrame}
    (hstep : s.step (.server (.server (.parse w tmpStr residue))) = some s')
    (hserver : s.server.toServer.step (.parse w tmpStr residue) = some s'.server.toServer) :
    Moved fd s (.server (.server (.parse w tmpStr residue))) s' := by
  obtain ⟨server, pipeline, _, hpipeline, rfl⟩ := step_server hstep
  obtain ⟨task, chunk, hworker, hchunk, hunder⟩ := Server.underWay_parse fd hserver
  have hderef : s.server.front.deref task = task.fd :=
    h.serves.outstanding task (Server.outstanding_of_worker (by rw [hworker]; rfl))
  simp only [parsed, handling_of_workers hworker nofun, hderef] at hpipeline
  have hreads : bytesFrom fd pipeline.reads
      = bytesFrom fd s.pipeline.reads ++ if task.fd = fd then [chunk] else [] := by
    rw [(Pipeline.handle_cases hpipeline).1, bytesFrom_append, bytesFrom_singleton]
  have hreceived : bytesFrom fd (s.received ++ taken s.server (.server (.parse w tmpStr residue)))
      = bytesFrom fd s.received := congrArg (bytesFrom fd) (List.append_nil _)
  by_cases hfd : task.fd = fd
  · rw [if_pos hfd] at hchunk hunder hreads
    exact .parse w chunk hchunk hunder hreceived hreads
  · rw [if_neg hfd] at hunder
    rw [if_neg hfd, List.append_nil] at hreads
    exact .quiet hunder hreceived hreads

theorem moved_of_step (fd : Int) (h : s.Routed) {a : CommandAction} (hstep : s.step a = some s') :
    Moved fd s a s' := by
  cases a with
  | getCmd env =>
      obtain ⟨pipeline, hpipeline, rfl⟩ := Option.map_eq_some_iff.mp hstep
      exact .quiet rfl rfl (by rw [(Pipeline.reads_of_getCmd hpipeline).1])
  | server a =>
      obtain ⟨server, pipeline, hserver, hpipeline, hs'⟩ := step_server hstep
      have hsame : s'.server = server := by rw [hs']
      obtain ⟨b, rfl, hmoved⟩ | ⟨hother, hmatches⟩ := (server_cases h.linked hserver).2
      · rw [← hsame] at hmoved
        have hquiet : (∀ w chunk, b ≠ .read w (.data chunk)) →
            (∀ w tmpStr residue, b ≠ .parse w tmpStr residue) → ∀ server',
            s.server.step (.server b) = some server' →
            server'.toServer.underWay fd = s.server.toServer.underWay fd := by
          intro hread hparse server' hserver'
          obtain rfl := Option.some.inj (hserver.symm.trans hserver')
          rw [← hsame]
          exact Server.underWay_other hread hparse hmoved
        cases b with
        | read w result =>
            cases result with
            | data chunk => exact moved_read h hstep hmoved
            | again => exact moved_quiet hstep rfl rfl (hquiet (fun _ _ => nofun) fun _ _ _ => nofun)
            | closed => exact moved_quiet hstep rfl rfl (hquiet (fun _ _ => nofun) fun _ _ _ => nofun)
        | parse w tmpStr residue => exact moved_parse h hstep hmoved
        | _ => exact moved_quiet hstep rfl rfl (hquiet (fun _ _ => nofun) fun _ _ _ => nofun)
      · have hunder : ∀ server', s.server.step a = some server' →
            server'.toServer.underWay fd = s.server.toServer.underWay fd := by
          intro server' hserver'
          obtain rfl := Option.some.inj (hserver.symm.trans hserver')
          exact underWay_of_poolMatches hmatches
        cases a with
        | pool b => exact moved_quiet hstep rfl rfl hunder
        | server b =>
            have hb := hother b rfl
            cases b with
            | read | parse => cases hb
            | _ => exact moved_quiet hstep rfl rfl hunder

theorem Routed.step (h : s.Routed) {a : CommandAction} (hok : s.SlotsKept a)
    (hstep : s.step a = some s') : s'.Routed := by
  cases a with
  | getCmd env =>
      obtain ⟨pipeline, _, rfl⟩ := Option.map_eq_some_iff.mp hstep
      exact ⟨h.linked, h.serves⟩
  | server a =>
      obtain ⟨server, pipeline, hserver, _, rfl⟩ := step_server hstep
      obtain ⟨hlinked, ⟨b, rfl, hmoved⟩ | ⟨_, hmatches⟩⟩ := server_cases h.linked hserver
      · exact ⟨hlinked, h.serves.step hok hmoved⟩
      · exact ⟨hlinked, serves_of_poolMatches h.serves hmatches⟩

/-! ### Runs -/

/-- The command path of a run is a run of the command path alone. -/
theorem reaches_pipeline {listenfd : Int} {events : Nat → EpollEvent} {queue : Nat → Task}
    {reply : Reply} (h : Reaches step anyAction (start listenfd events queue reply) s) :
    Reaches Pipeline.step anyAction (Pipeline.start reply) s.pipeline := by
  refine h.invariant (I := fun s => Reaches Pipeline.step anyAction (Pipeline.start reply) s.pipeline)
    (fun s a s' hI _ hstep => ?_) (Reaches.refl _)
  cases a with
  | getCmd env =>
      obtain ⟨pipeline, hpipeline, rfl⟩ := Option.map_eq_some_iff.mp hstep
      exact hI.tail trivial hpipeline
  | server a =>
      obtain ⟨server, pipeline, _, hpipeline, rfl⟩ := step_server hstep
      rcases parsed_cases hpipeline with rfl | ⟨b, hb⟩
      · exact hI
      · exact hI.tail trivial hb

theorem underWay_start (fd : Int) (listenfd : Int) (events : Nat → EpollEvent) (queue : Nat → Task)
    (reply : Reply) : (start listenfd events queue reply).server.toServer.underWay fd = fun _ => none := by
  funext w
  have hidle : (PooledServer.start listenfd events queue).busy w = .idle := by
    rw [PooledServer.busy]
    split_ifs <;> rfl
  exact congrArg (Server.chunkOf fd) hidle

theorem Moved.accounted {a : CommandAction} (h : Moved fd s a s')
    (haccounted : Accounted (s.server.toServer.underWay fd) (bytesFrom fd s.received)
      (bytesFrom fd s.pipeline.reads)) :
    Accounted (s'.server.toServer.underWay fd) (bytesFrom fd s'.received)
      (bytesFrom fd s'.pipeline.reads) := by
  cases h with
  | quiet hunder hreceived hreads =>
      rw [hunder, hreceived, hreads]
      exact haccounted
  | read w chunk task _ _ _ hnone hunder hreceived hreads =>
      rw [hunder, hreceived, hreads]
      exact haccounted.begin hnone chunk
  | parse w chunk hsome hunder hreceived hreads =>
      rw [hunder, hreceived, hreads]
      exact haccounted.finish hsome

theorem Moved.inTurn {a : CommandAction} (h : Moved fd s a s') (hturn : s.ReadsInTurn fd a)
    (hinTurn : InTurn (s.server.toServer.underWay fd) (bytesFrom fd s.received)
      (bytesFrom fd s.pipeline.reads)) :
    InTurn (s'.server.toServer.underWay fd) (bytesFrom fd s'.received)
      (bytesFrom fd s'.pipeline.reads) := by
  cases h with
  | quiet hunder hreceived hreads =>
      rw [hunder, hreceived, hreads]
      exact hinTurn
  | read w chunk task haction htask hfd hnone hunder hreceived hreads =>
      rw [haction] at hturn
      rw [hunder, hreceived, hreads]
      exact hinTurn.begin (hturn task htask hfd) w chunk
  | parse w chunk hsome hunder hreceived hreads =>
      rw [hunder, hreceived, hreads]
      exact hinTurn.finish hsome

/-- The answered and the waiting commands of a client, and what they were parsed from. -/
structure ServedFrom (fd : Int) (s : CommandServer) (chunks : List Bytes)
    (answered waiting : List StCmdFrame) (groups : List (List Bytes)) : Prop where
  parsed : List.Forall₂ (ParsedFrom fd) chunks (answered ++ waiting)
  answers : List.Forall₂ Answers answered groups
  written : writesTo fd s.pipeline.events = groups.flatten

theorem exists_servedFrom {reply : Reply} (fd : Int)
    (h : Reaches Pipeline.step anyAction (Pipeline.start reply) s.pipeline) :
    ∃ chunks answered waiting groups, ServedFrom fd s chunks answered waiting groups
      ∧ chunks.Sublist (bytesFrom fd s.pipeline.reads) := by
  obtain ⟨held, hinOrder⟩ := Pipeline.inOrder_of_reaches h
  obtain ⟨groups, hall, hflat⟩ := runCommands_answers hinOrder.executed_eq fd
  obtain ⟨chunks, hsub, hparsed⟩ := Pipeline.fromReads_of_reaches fd h
  refine ⟨chunks, _, ofClient fd held, groups, ⟨?_, hall, hflat⟩, hsub⟩
  rw [← ofClient_append, ← hinOrder.accepted_eq]
  exact hparsed

theorem accounted_of_reaches {listenfd : Int} {events : Nat → EpollEvent} {queue : Nat → Task}
    {reply : Reply} (h : Reaches step SlotsKept (start listenfd events queue reply) s) (fd : Int) :
    Accounted (s.server.toServer.underWay fd) (bytesFrom fd s.received)
      (bytesFrom fd s.pipeline.reads) := by
  suffices hrun : s.Routed ∧ Accounted (s.server.toServer.underWay fd) (bytesFrom fd s.received)
      (bytesFrom fd s.pipeline.reads) from hrun.2
  refine h.invariant (I := fun s => s.Routed ∧ Accounted (s.server.toServer.underWay fd)
    (bytesFrom fd s.received) (bytesFrom fd s.pipeline.reads)) (fun s a s' hI hok hstep => ?_) ?_
  · exact ⟨hI.1.step hok hstep, (moved_of_step fd hI.1 hstep).accounted hI.2⟩
  · refine ⟨routed_start listenfd events queue reply, ?_⟩
    rw [underWay_start]
    exact accounted_nil

/-- The slots are kept, and the reads from one client are in turn. -/
def KeptInTurn (fd : Int) (s : CommandServer) (a : CommandAction) : Prop :=
  s.SlotsKept a ∧ s.ReadsInTurn fd a

theorem inTurn_of_reaches {listenfd : Int} {events : Nat → EpollEvent} {queue : Nat → Task}
    {reply : Reply} (h : Reaches step (KeptInTurn fd) (start listenfd events queue reply) s) :
    InTurn (s.server.toServer.underWay fd) (bytesFrom fd s.received)
      (bytesFrom fd s.pipeline.reads) := by
  suffices hrun : s.Routed ∧ InTurn (s.server.toServer.underWay fd) (bytesFrom fd s.received)
      (bytesFrom fd s.pipeline.reads) from hrun.2
  refine h.invariant (I := fun s => s.Routed ∧ InTurn (s.server.toServer.underWay fd)
    (bytesFrom fd s.received) (bytesFrom fd s.pipeline.reads)) (fun s a s' hI hok hstep => ?_) ?_
  · exact ⟨hI.1.step hok.1 hstep, (moved_of_step fd hI.1 hstep).inTurn hok.2 hI.2⟩
  · refine ⟨routed_start listenfd events queue reply, ?_⟩
    rw [underWay_start]
    exact inTurn_nil

/-- **From a client's bytes to its answers.** In every run in which no slot is written over while a task
points at it, all that is written to a client is one answer after the other to commands parsed from reads
of this client, and no read is parsed twice. -/
theorem client_served {listenfd : Int} {events : Nat → EpollEvent} {queue : Nat → Task}
    {reply : Reply} (h : Reaches step SlotsKept (start listenfd events queue reply) s) (fd : Int) :
    ∃ chunks answered waiting groups, ServedFrom fd s chunks answered waiting groups
      ∧ chunks.Subperm (bytesFrom fd s.received) := by
  obtain ⟨chunks, answered, waiting, groups, hserved, hsub⟩ :=
    exists_servedFrom fd (reaches_pipeline h.any)
  exact ⟨chunks, answered, waiting, groups, hserved,
    hsub.subperm.trans (accounted_of_reaches h fd).subperm⟩

/-! A run in which the pool is created and a client sends one line. -/

def beforePool : CommandServer :=
  start 3 (fun _ => { fd := 0, epollIn := false }) (fun _ => { slot := 0, fd := 0 }) (Block.zeroed 512)

def createPool : List CommandAction :=
  (List.replicate 32
    [.server (.pool (.pthreadCreate 0 true)), .server (.pool (.countThread 0))]).flatten

def untilRead : List CommandAction :=
  [.server (.server (.epollWait [{ fd := 5, epollIn := true }])), .server (.server (.nextEvent true)),
    .server (.pool (.lockMutex (.caller 0))), .server (.pool (.add 0 none)),
    .server (.pool (.lockMutex (.thread 7))), .server (.pool (.test 7))]

def fromRead : List CommandAction :=
  [.server (.server (.read 7 (.data (ascii "[1] sys_info")))),
    .server (.server (.parse 7 (Block.zeroed 128) StCmdFrame.zeroed)), .server (.pool (.finish 7)),
    .getCmd Env.succeeding]

theorem not_outstanding_of_idle (hqueue : s.server.system.pool.tasks = [])
    (hthreads : (s.server.system.threads.all fun t => t.task?.isNone) = true) (task : Task) :
    ¬ s.server.toServer.Outstanding task := by
  rintro (hmem | ⟨w, hw⟩)
  · rw [show s.server.toServer.queue = [] from hqueue] at hmem
    exact absurd hmem List.not_mem_nil
  · have hidle : PooledServer.runningAt s.server.system.threads w = false := by
      rw [PooledServer.runningAt]
      cases hthread : s.server.system.threads[w]? with
      | none => rfl
      | some t =>
          have hnone := List.all_eq_true.mp hthreads t (List.mem_of_getElem? hthread)
          rw [Option.any_some, ← Option.not_isNone, hnone]
          rfl
    have hbusy : s.server.busy w = .idle := PooledServer.busy_of_not_running hidle
    rw [show s.server.toServer.workers w = .idle from hbusy] at hw
    cases hw

theorem exists_serveLine : ∃ s, Reaches step (KeptInTurn 5) beforePool s
    ∧ (writesTo 5 s.pipeline.events).length = 1 := by
  have hrun : ((exec step beforePool createPool).bind fun s₁ => (exec step s₁ untilRead).bind fun s₂ =>
      (exec step s₂ fromRead).map fun s₃ => (s₁.server.system.pool.tasks.isEmpty,
        s₁.server.system.threads.all fun t => t.task?.isNone, s₂.received.isEmpty,
        (writesTo 5 s₃.pipeline.events).length)) = some (true, true, true, 1) := by
    decide +kernel
  obtain ⟨s₁, hcreate, hrun⟩ := Option.bind_eq_some_iff.mp hrun
  obtain ⟨s₂, huntil, hrun⟩ := Option.bind_eq_some_iff.mp hrun
  obtain ⟨s₃, hfrom, hrun⟩ := Option.map_eq_some_iff.mp hrun
  simp only [Prod.mk.injEq, List.isEmpty_iff] at hrun
  obtain ⟨htasks, hthreads, hreceived, hlength⟩ := hrun
  have hfirst : Allowed step (KeptInTurn 5) beforePool createPool := by
    refine allowed_of_forall (fun a ha s => ?_) _
    obtain ⟨pair, hpair, hmem⟩ := List.mem_flatten.mp ha
    rw [List.eq_of_mem_replicate hpair] at hmem
    simp only [List.mem_cons, List.not_mem_nil, or_false] at hmem
    rcases hmem with rfl | rfl <;> exact ⟨trivial, trivial⟩
  have hsecond : Allowed step (KeptInTurn 5) s₁ untilRead := by
    refine ⟨⟨fun task htask => ?_, trivial⟩, fun s' _ => allowed_of_forall (fun a ha s => ?_) s'⟩
    · exact absurd htask (not_outstanding_of_idle htasks hthreads task)
    · simp only [List.mem_cons, List.not_mem_nil, or_false] at ha
      rcases ha with rfl | rfl | rfl | rfl | rfl <;> exact ⟨trivial, trivial⟩
  have hbefore : Reaches step (KeptInTurn 5) beforePool s₂ :=
    (reaches_of_allowed hfirst hcreate).trans (reaches_of_allowed hsecond huntil)
  have hthird : Allowed step (KeptInTurn 5) s₂ fromRead := by
    refine ⟨⟨trivial, fun task _ _ v => ?_⟩, fun s' _ => allowed_of_forall (fun a ha s => ?_) s'⟩
    · have hinTurn := inTurn_of_reaches hbefore
      rw [hreceived] at hinTurn
      exact hinTurn.none_of_nil v
    · simp only [List.mem_cons, List.not_mem_nil, or_false] at ha
      rcases ha with rfl | rfl | rfl <;> exact ⟨trivial, trivial⟩
  exact ⟨s₃, hbefore.trans (reaches_of_allowed hthird hfrom), hlength⟩

theorem slotsKept_of_inTurn {s₀ : CommandServer} (h : Reaches step (KeptInTurn fd) s₀ s) :
    Reaches step SlotsKept s₀ s :=
  h.invariant (fun _ _ _ hrun hok hstep => hrun.tail hok.1 hstep) (Reaches.refl _)

theorem client_served_serveLine :
    ∃ s, (writesTo 5 s.pipeline.events).length = 1
      ∧ ∃ chunks answered waiting groups, ServedFrom 5 s chunks answered waiting groups
        ∧ chunks.Subperm (bytesFrom 5 s.received) := by
  obtain ⟨s, hreaches, hlength⟩ := exists_serveLine
  exact ⟨s, hlength, client_served (slotsKept_of_inTurn hreaches) 5⟩

/-- **In the order of its reads.** When moreover a worker reads from the client only while no other has
a chunk of it under way, the answers come in the order in which the client's bytes were read. -/
theorem client_served_inOrder {listenfd : Int} {events : Nat → EpollEvent} {queue : Nat → Task}
    {reply : Reply} (h : Reaches step (KeptInTurn fd) (start listenfd events queue reply) s) :
    ∃ chunks answered waiting groups, ServedFrom fd s chunks answered waiting groups
      ∧ chunks.Sublist (bytesFrom fd s.received) := by
  obtain ⟨chunks, answered, waiting, groups, hserved, hsub⟩ :=
    exists_servedFrom fd (reaches_pipeline h.any)
  exact ⟨chunks, answered, waiting, groups, hserved,
    hsub.trans (inTurn_of_reaches h).isPrefix.sublist⟩

theorem client_served_inOrder_serveLine :
    ∃ s, (writesTo 5 s.pipeline.events).length = 1
      ∧ ∃ chunks answered waiting groups, ServedFrom 5 s chunks answered waiting groups
        ∧ chunks.Sublist (bytesFrom 5 s.received) := by
  obtain ⟨s, hreaches, hlength⟩ := exists_serveLine
  exact ⟨s, hlength, client_served_inOrder hreaches⟩

end CommandServer

end InstructionParser
