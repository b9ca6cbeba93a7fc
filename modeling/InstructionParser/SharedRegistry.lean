import InstructionParser.Functions.Manager
import InstructionParser.Protocol.Registry
import Mathlib.Logic.Function.Basic

/-!
# A registry between its threads

`registerCmd` and `registerProtocol` have one body, and `do_cmd_list`, `do_text_cmd` and
`do_protocol_handle` walk their list in one way. `main` registers while the workers and the command
thread look up, and nothing is locked. Each access to `ptNext` or to the head is one step; what a node
is compared with is fixed, so a comparison goes with the access after it.
-/

namespace InstructionParser

open CLib

/-- Where `main` stands in the registration of `node`. -/
inductive Registrar (ι : Type) where
  | idle
  | testHead (node : ι)
  | setHead (node : ι)
  | readHead (node : ι)
  | testNext (node ptTmp : ι)
  | advance (node ptTmp : ι)
  | link (node ptTmp : ι)
  | endList (node : ι)

/-- Where a lookup stands: `ptTmp` is the node it compares next. -/
inductive Lookup (ι : Type) where
  | before
  | visiting (ptTmp : ι)
  | returned (found : Option ι)

/-- What has happened, for the statements only: the nodes linked, those whose registration has
returned, and for each lookup those that it has visited. -/
structure RegistryLog (ι κ : Type) where
  linked : List ι
  completed : List ι
  visited : κ → List ι

/-- `calls` are the registrations that `main` has still to make. -/
structure SharedRegistry (ι κ : Type) where
  head : Option ι
  next : ι → Option ι
  calls : List ι
  registrar : Registrar ι
  lookups : κ → Lookup ι
  log : RegistryLog ι κ

inductive RegistryAction (κ : Type) where
  | register
  | lookup (w : κ)
deriving DecidableEq

/-- The comparison of `do_cmd_list` and of `do_text_cmd`. -/
def selectsCmd {ι κ : Type} (entry : ι → CmdList) (cmd : κ → StCmdFrame) (w : κ) (n : ι) : Bool :=
  strcmpEq (entry n).name (cmd w).cmdName

/-- The comparison of `do_protocol_handle`. -/
def selectsProtocol {ι κ : Type} (protocol : ι → ProtocolSet) (tmpStr : κ → Block 128)
    (pucBufHead : κ → Bytes) (w : κ) (n : ι) : Bool :=
  (protocol n).checkData (tmpStr w) (pucBufHead w) = some 0

namespace SharedRegistry

variable {ι κ : Type} [DecidableEq ι] [DecidableEq κ]

omit [DecidableEq ι] [DecidableEq κ] in
def start (calls : List ι) : SharedRegistry ι κ where
  head := none
  next _ := none
  calls := calls
  registrar := .idle
  lookups _ := .before
  log := { linked := [], completed := [], visited := fun _ => [] }

omit [DecidableEq ι] [DecidableEq κ] in
def setHead (s : SharedRegistry ι κ) (node : ι) : SharedRegistry ι κ :=
  { s with
    head := some node
    registrar := .endList node
    log := { s.log with linked := s.log.linked ++ [node] } }

omit [DecidableEq κ] in
/-- `ptTmp->ptNext = ptCmd;` -/
def link (s : SharedRegistry ι κ) (node ptTmp : ι) : SharedRegistry ι κ :=
  { s with
    next := Function.update s.next ptTmp (some node)
    registrar := .endList node
    log := { s.log with linked := s.log.linked ++ [node] } }

omit [DecidableEq κ] in
/-- `ptCmd->ptNext = NULL;` and the return. -/
def endList (s : SharedRegistry ι κ) (node : ι) : SharedRegistry ι κ :=
  { s with
    next := Function.update s.next node none
    registrar := .idle
    log := { s.log with completed := s.log.completed ++ [node] } }

omit [DecidableEq κ] in
/-- The next access of `main`. -/
def register (s : SharedRegistry ι κ) : Option (SharedRegistry ι κ) :=
  match s.registrar with
  | .idle =>
      match s.calls with
      | [] => none
      | node :: calls => some { s with calls := calls, registrar := .testHead node }
  | .testHead node =>
      if s.head.isNone then some { s with registrar := .setHead node }
      else some { s with registrar := .readHead node }
  | .setHead node => some (s.setHead node)
  | .readHead node => s.head.map fun ptTmp => { s with registrar := .testNext node ptTmp }
  | .testNext node ptTmp =>
      if (s.next ptTmp).isSome then some { s with registrar := .advance node ptTmp }
      else some { s with registrar := .link node ptTmp }
  | .advance node ptTmp =>
      (s.next ptTmp).map fun ptTmp => { s with registrar := .testNext node ptTmp }
  | .link node ptTmp => some (s.link node ptTmp)
  | .endList node => some (s.endList node)

omit [DecidableEq ι] in
def setLookup (s : SharedRegistry ι κ) (w : κ) (lookup : Lookup ι) : SharedRegistry ι κ :=
  { s with lookups := Function.update s.lookups w lookup }

omit [DecidableEq ι] in
/-- The loop test on the pointer just read. -/
def arrive (s : SharedRegistry ι κ) (w : κ) : Option ι → SharedRegistry ι κ
  | none => s.setLookup w (.returned none)
  | some n =>
      { s with
        log := { s.log with
          visited := Function.update s.log.visited w (s.log.visited w ++ [n]) } }.setLookup w
        (.visiting n)

omit [DecidableEq ι] in
/-- The next access of a lookup. -/
def lookup (accepts : κ → ι → Bool) (s : SharedRegistry ι κ) (w : κ) :
    Option (SharedRegistry ι κ) :=
  match s.lookups w with
  | .before => some (s.arrive w s.head)
  | .visiting ptTmp =>
      if accepts w ptTmp then some (s.setLookup w (.returned (some ptTmp)))
      else some (s.arrive w (s.next ptTmp))
  | .returned _ => none

def step (accepts : κ → ι → Bool) (s : SharedRegistry ι κ) :
    RegistryAction κ → Option (SharedRegistry ι κ)
  | .register => s.register
  | .lookup w => s.lookup accepts w

end SharedRegistry

end InstructionParser
