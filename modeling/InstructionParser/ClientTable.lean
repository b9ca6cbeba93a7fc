import InstructionParser.Server

/-!
# The client table

`clilist` of `op_epoll.c`, which `start_server` adds every accepted client to and from which `op_read`
and `op_write` take a client when an operation on it fails. An access outside the array is `none`.
-/

namespace InstructionParser

open CLib

structure ClientMember where
  fd : Int
  ip : Bytes
deriving DecidableEq

structure Clilist where
  clilist : Nat → ClientMember
  tailindex : Int

namespace Clilist

/-- Static storage. -/
def zeroed : Clilist := { clilist := fun _ => ⟨0, []⟩, tailindex := 0 }

/-- `add_clilist`: the return value and the table. -/
def addClilist (t : Clilist) (cli : ClientMember) : Option (Int × Clilist) :=
  if 0 ≤ t.tailindex ∧ t.tailindex < maxConnect then
    some (t.tailindex + 1,
      { clilist := Function.update t.clilist t.tailindex.toNat cli
        tailindex := t.tailindex + 1 })
  else none

/-- `k` turns of the inner loop of `del_clilist`, from index `j` on. -/
def shiftLoop (clilist : Nat → ClientMember) (j : Nat) : Nat → Nat → ClientMember
  | 0 => clilist
  | k + 1 => shiftLoop (Function.update clilist j (clilist (j + 1))) (j + 1) k

/-- `k` turns of the outer loop, from index `i` on. The table is scanned on while it is shifted. -/
def scanLoop (fd : Int) (tailindex : Nat) (clilist : Nat → ClientMember) (i : Nat) :
    Nat → Nat → ClientMember
  | 0 => clilist
  | k + 1 =>
      if (clilist i).fd = fd then
        scanLoop fd tailindex (shiftLoop clilist i (tailindex - 1 - i)) (i + 1) k
      else scanLoop fd tailindex clilist (i + 1) k

/-- `del_clilist`, which looks at the descriptor only. -/
def delClilist (t : Clilist) (fd : Int) : Int × Clilist :=
  (t.tailindex - 1,
    { clilist := scanLoop fd t.tailindex.toNat t.clilist 0 t.tailindex.toNat
      tailindex := t.tailindex - 1 })

end Clilist

/-- What `read` or `write` returns: a positive count, -1 with `EAGAIN`, 0, or -1 with another error. -/
inductive IoOutcome where
  | count (n : Nat) (pos : 0 < n)
  | again
  | zero
  | error

def IoOutcome.fails : IoOutcome → Bool
  | count _ _ => false
  | again => false
  | zero => true
  | error => true

/-- What `op_read` and `op_write` return. -/
def IoOutcome.ret : IoOutcome → Int
  | count n _ => n
  | again => -1
  | zero => -2
  | error => -3

/-- The accept loop and the operations on its clients. `live` is for the statements only: what the
table is for. -/
structure Connections where
  /-- `none` after an access outside the array. -/
  table : Option Clilist
  interest : List Int
  accepted : List Int
  live : List ClientMember

inductive ConnectionAction where
  | accept (cli : ClientMember)
  | opRead (fd : Int) (outcome : IoOutcome)
  | opWrite (fd : Int) (outcome : IoOutcome)

namespace Connections

def start : Connections where
  table := some Clilist.zeroed
  interest := []
  accepted := []
  live := []

def inTable (s : Connections) (fd : Int) : Bool :=
  s.table.any fun t => (List.range t.tailindex.toNat).any fun i => (t.clilist i).fd = fd

/-- `add_clilist` and `EPOLL_CTL_ADD` for a descriptor that `accept` has returned. A table that is full
should stay as it is. -/
def accept (s : Connections) (cli : ClientMember) : Option Connections :=
  if s.inTable cli.fd then none
  else some {
    table := (s.table.bind (·.addClilist cli)).map (·.2)
    interest := s.interest ++ [cli.fd]
    accepted := s.accepted ++ [cli.fd]
    live := if s.live.length < maxConnect then s.live ++ [cli] else s.live }

/-- `op_delete_event` and `del_clilist`, which every failure branch calls. -/
def drop (s : Connections) (fd : Int) : Connections :=
  { s with
    table := s.table.map fun t => (t.delClilist fd).2
    interest := s.interest.filter (· ≠ fd)
    live := s.live.filter (·.fd ≠ fd) }

/-- The body that `op_read` and `op_write` share: the return value and the state. -/
def afterIo (s : Connections) (fd : Int) : IoOutcome → Int × Connections
  | .again => (-1, s)
  | .zero => (-2, s.drop fd)
  | .error => (-3, s.drop fd)
  | .count n _ => (n, s)

def opRead (s : Connections) (fd : Int) (outcome : IoOutcome) : Int × Connections :=
  s.afterIo fd outcome

def opWrite (s : Connections) (fd : Int) (outcome : IoOutcome) : Int × Connections :=
  s.afterIo fd outcome

/-- Operations are called on accepted descriptors. -/
def step (s : Connections) : ConnectionAction → Option Connections
  | .accept cli => s.accept cli
  | .opRead fd outcome => if fd ∈ s.accepted then some (s.opRead fd outcome).2 else none
  | .opWrite fd outcome => if fd ∈ s.accepted then some (s.opWrite fd outcome).2 else none

end Connections

/-- The descriptors of the process. `limit` is how many it may have open beside the server's own, with
which the sockets count that `get_ip` opens and never closes.
`clients` and `peak` are for the statements only: the clients that have not failed, and the greatest
number of them at one time. -/
structure Descriptors where
  limit : Nat
  connections : Connections
  /-- What `accept` has returned and nothing has closed. -/
  opened : List Int
  /-- `start_server` is in its loop. -/
  serving : Bool
  clients : List Int
  peak : Nat

namespace Descriptors

def start (limit : Nat) : Descriptors where
  limit := limit
  connections := Connections.start
  opened := []
  serving := true
  clients := []
  peak := 0

def arrival (s : Descriptors) : Descriptors := { s with peak := max s.peak (s.clients.length + 1) }

/-- `accept` returns a descriptor that is not open. Of the ways in which it can fail only one is here:
there is no descriptor left, and `start_server` returns. -/
def accept (s : Descriptors) (cli : ClientMember) : Option Descriptors :=
  if s.serving then
    if s.opened.length < s.limit then
      if cli.fd ∈ s.opened then none
      else (s.connections.accept cli).map fun connections =>
        { s.arrival with
          connections, opened := s.opened ++ [cli.fd], clients := s.clients ++ [cli.fd] }
    else some { s.arrival with serving := false }
  else none

/-- No operation closes a descriptor: `op_delete_event` is an `EPOLL_CTL_DEL`. -/
def afterIo (s : Descriptors) (fd : Int) (outcome : IoOutcome) (connections : Connections) :
    Descriptors :=
  { s with
    connections
    clients := if outcome.fails then s.clients.filter (· ≠ fd) else s.clients }

def step (s : Descriptors) : ConnectionAction → Option Descriptors
  | .accept cli => s.accept cli
  | .opRead fd outcome =>
      (s.connections.step (.opRead fd outcome)).map (s.afterIo fd outcome)
  | .opWrite fd outcome =>
      (s.connections.step (.opWrite fd outcome)).map (s.afterIo fd outcome)

end Descriptors

end InstructionParser
