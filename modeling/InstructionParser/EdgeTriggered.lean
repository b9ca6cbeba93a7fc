import InstructionParser.Server

/-!
# Edge-triggered arrivals

`Server` together with what the kernel keeps for it: the interest list of the `epoll` instance, the
descriptors whose edge `epoll_wait` has yet to report, the receive buffers and the backlog of the
listening socket. Every descriptor is registered with `EPOLLIN | EPOLLET`, so an arrival makes it
ready once. Nothing calls `close`, so a descriptor is never used a second time.
-/

namespace InstructionParser

open CLib

/-- A descriptor that `accept` has returned: its receive buffer, and whether the peer is gone. -/
structure Socket where
  unread : Bytes
  hungUp : Bool
deriving DecidableEq

/-- The size of `line`, of which `handle` fills as much as one `read` gives. -/
def lineSize : Nat := 255

/-- What `read` gives for a descriptor: not more than fits the line. The listening socket is not
connected, which is an error. -/
def readResult : Option Socket → ReadResult
  | none => .closed
  | some ⟨[], hungUp⟩ => if hungUp then .closed else .again
  | some ⟨unread, _⟩ => .data (unread.take lineSize)

def Socket.afterRead (socket : Socket) : Socket :=
  { socket with unread := socket.unread.drop lineSize }

structure EdgeServer where
  server : Server
  interest : List Int
  edges : List Int
  sockets : Int → Option Socket
  backlog : Nat

inductive EdgeAction where
  /-- A connection enters the backlog. -/
  | connect
  | arrive (fd : Int) (bytes : Bytes)
  /-- The peer closes its end, or resets the connection, which drops what was not read. -/
  | hangUp (fd : Int) (reset : Bool)
  | epollWait (ready : List Int)
  /-- One turn of the inner loop. When it accepts: the descriptor, and what has arrived on it before
  it is added to the interest list; `none` when `accept` fails. -/
  | nextEvent (accepted : Option (Int × Bytes))
  | reuse (memory : Nat → EpollEvent)
  | dequeue (w : Nat)
  | read (w : Nat)
  | opDeleteEvent (w : Nat)
  | delClilist (w : Nat)
  | parse (w : Nat) (tmpStr : Block 128) (residue : StCmdFrame)

namespace EdgeServer

def start (listenfd : Int) (events : Nat → EpollEvent) : EdgeServer where
  server := Server.start listenfd events
  interest := [listenfd]
  edges := []
  sockets _ := none
  backlog := 0

def edge (s : EdgeServer) (fd : Int) : EdgeServer :=
  if fd ∈ s.interest ∧ fd ∉ s.edges then { s with edges := s.edges ++ [fd] } else s

@[simp]
theorem edge_server (s : EdgeServer) (fd : Int) : (s.edge fd).server = s.server := by
  unfold edge
  split <;> rfl

@[simp]
theorem edge_sockets (s : EdgeServer) (fd : Int) : (s.edge fd).sockets = s.sockets := by
  unfold edge
  split <;> rfl

@[simp]
theorem edge_interest (s : EdgeServer) (fd : Int) : (s.edge fd).interest = s.interest := by
  unfold edge
  split <;> rfl

@[simp]
theorem edge_backlog (s : EdgeServer) (fd : Int) : (s.edge fd).backlog = s.backlog := by
  unfold edge
  split <;> rfl

def setSocket (s : EdgeServer) (fd : Int) (socket : Socket) : EdgeServer :=
  { s with sockets := Function.update s.sockets fd (some socket) }

/-- `EPOLL_CTL_ADD`, which finds a descriptor ready when bytes have arrived. -/
def add (s : EdgeServer) (fd : Int) (received : Bytes) : EdgeServer :=
  let s := { s with interest := s.interest ++ [fd] }.setSocket fd ⟨received, false⟩
  if received = [] then s else s.edge fd

def delete (s : EdgeServer) (fd : Int) : EdgeServer :=
  { s with interest := s.interest.filter (· ≠ fd), edges := s.edges.filter (· ≠ fd) }

def connect (s : EdgeServer) : EdgeServer :=
  { s with backlog := s.backlog + 1 }.edge s.server.listenfd

/-- At least one byte arrives. -/
def arrive (s : EdgeServer) (fd : Int) (bytes : Bytes) : Option EdgeServer :=
  match s.sockets fd with
  | some ⟨unread, false⟩ =>
      if bytes = [] then none else some ((s.setSocket fd ⟨unread ++ bytes, false⟩).edge fd)
  | _ => none

def hangUp (s : EdgeServer) (fd : Int) (reset : Bool) : Option EdgeServer :=
  match s.sockets fd with
  | some ⟨unread, false⟩ =>
      some ((s.setSocket fd ⟨if reset then [] else unread, true⟩).edge fd)
  | _ => none

/-- Some of the ready descriptors are reported, each once. -/
def epollWait (s : EdgeServer) (ready : List Int) : Option EdgeServer :=
  if ready.Nodup ∧ ∀ fd ∈ ready, fd ∈ s.edges then
    (s.server.epollWait (ready.map (⟨·, true⟩))).map fun server =>
      { s with server, edges := s.edges.filter (· ∉ ready) }
  else none

def event (s : EdgeServer) : Option EpollEvent :=
  match s.server.loop with
  | .processing _ i => some (s.server.events i)
  | _ => none

/-- The descriptor of a new connection is not in use. -/
def Acceptable (s : EdgeServer) (connfd : Int) : Prop :=
  0 < s.backlog ∧ s.sockets connfd = none ∧ connfd ≠ s.server.listenfd

instance (s : EdgeServer) (connfd : Int) : Decidable (s.Acceptable connfd) :=
  inferInstanceAs (Decidable (_ ∧ _ ∧ _))

def nextEvent (s : EdgeServer) (accepted : Option (Int × Bytes)) : Option EdgeServer :=
  (s.server.nextEvent accepted.isSome).bind fun server =>
    if s.event.map (·.fd) = some s.server.listenfd then
      match accepted with
      | some (connfd, received) =>
          if s.Acceptable connfd then
            some ({ s with server, backlog := s.backlog - 1 }.add connfd received)
          else none
      | none => some { s with server }
    else some { s with server }

/-- The read of a worker, on the descriptor that it finds behind its task. -/
def read (s : EdgeServer) (w : Nat) : Option EdgeServer :=
  match s.server.workers w with
  | .reading task =>
      let fd := s.server.deref task
      (s.server.read w (readResult (s.sockets fd))).map fun server =>
        { s with
          server
          sockets := Function.update s.sockets fd ((s.sockets fd).map Socket.afterRead) }
  | _ => none

def opDeleteEvent (s : EdgeServer) (w : Nat) : Option EdgeServer :=
  match s.server.workers w with
  | .deleting task =>
      (s.server.opDeleteEvent w).map fun server =>
        { s with server }.delete (s.server.deref task)
  | _ => none

/-- A step of the program that the kernel has no part in. -/
def runServer (s : EdgeServer) (server : Option Server) : Option EdgeServer :=
  server.map fun server => { s with server }

def step (s : EdgeServer) : EdgeAction → Option EdgeServer
  | .connect => some s.connect
  | .arrive fd bytes => s.arrive fd bytes
  | .hangUp fd reset => s.hangUp fd reset
  | .epollWait ready => s.epollWait ready
  | .nextEvent accepted => s.nextEvent accepted
  | .reuse memory => s.runServer (s.server.reuse memory)
  | .dequeue w => s.runServer (s.server.dequeue w)
  | .read w => s.read w
  | .opDeleteEvent w => s.opDeleteEvent w
  | .delClilist w => s.runServer (s.server.delClilist w)
  | .parse w tmpStr residue => s.runServer (s.server.parse w tmpStr residue)

end EdgeServer

end InstructionParser
