import InstructionParser.CLib.SharedStrtok
import InstructionParser.Functions.Network
import InstructionParser.Handle

/-!
# The users of `strtok`

The workers run `text_check_data` and `text_parse`, the command thread `ip_to_hex_str` and
`check_right_ip`, all of them on the one saved position of `strtok`. A step is one call of `strtok`
with what its thread then does alone.
-/

namespace InstructionParser

open CLib

/-- The strings that are handed to `strtok`: the copy that the check of a worker makes, the line of a
worker, and the address that the command thread works on. -/
inductive StringId where
  | tmpStr (w : Nat)
  | line (w : Nat)
  | ip
deriving DecidableEq

/-- One line that a worker has read, and what the locals of the check and the parser hold before. -/
structure TextJob where
  fd : Int
  line : Bytes
  tmpStr : Block 128
  residue : StCmdFrame

/-- Where a worker stands. The words that the parser has been given are kept as `seen`, for the
statements only. -/
inductive TextWorker where
  | idle
  | received (job : TextJob)
  | checked (job : TextJob)
  | parsing (job : TextJob) (seen : List Bytes) (cmd : StCmdFrame) (i : Nat)

/-- Where the command thread stands: outside, or behind a call of `strtok` in one of the two loops. -/
inductive IpThread where
  | outside
  | ipToHexStr (newIp : Block 10) (i : Nat)
  | checkRightIp (i : Int)

structure PushedText where
  job : TextJob
  seen : List Bytes
  cmd : StCmdFrame

structure TextThreads where
  strtok : StrtokState StringId
  workers : Nat → TextWorker
  ipThread : IpThread
  pushed : List PushedText

inductive TextAction where
  /-- `handle` has read a chunk that is not a binary frame. -/
  | receive (w : Nat) (fd : Int) (chunk : Bytes) (tmpStr : Block 128) (residue : StCmdFrame)
  | check (w : Nat)
  | firstToken (w : Nat)
  | nextToken (w : Nat)
  | ipToHexStr (ip : Bytes) (newIp : Block 10)
  | checkRightIp (ip : Bytes)
  | nextOctet

namespace TextThreads

def start (memory : StringId → Bytes) : TextThreads where
  strtok := { strings := memory, saved := none }
  workers _ := .idle
  ipThread := .outside
  pushed := []

def setWorker (s : TextThreads) (w : Nat) (worker : TextWorker) : TextThreads :=
  { s with workers := Function.update s.workers w worker }

/-- The checks of the binary protocols, which come first, refuse the line. -/
def binaryRefused (line : Bytes) : Bool :=
  (htCheckData line).any (· ≠ 0) && (slCheckData line).any (· ≠ 0)

def receive (s : TextThreads) (w : Nat) (fd : Int) (chunk : Bytes) (tmpStr : Block 128)
    (residue : StCmdFrame) : Option TextThreads :=
  match s.workers w with
  | .idle =>
      if 0 < chunk.length ∧ chunk.length ≤ 255 ∧ binaryRefused (readLine chunk) then
        let line := readLine chunk
        some ({ s with strtok := s.strtok.setString (.line w) line }.setWorker w
          (.received { fd, line, tmpStr, residue }))
      else none
  | _ => none

def afterCheck (job : TextJob) : Option Bytes → TextWorker
  | none => .idle
  | some pStr => if textPattern.rmatch pStr then .checked job else .idle

def check (s : TextThreads) (w : Nat) : Option TextThreads :=
  match s.workers w with
  | .received job => do
      let line ← cstr (s.strtok.strings (.line w))
      let tmpStr ← job.tmpStr.write 0 line
      let (pStr, strtok) ← (s.strtok.setString (.tmpStr w) tmpStr.bytes).first 0x20 (.tmpStr w)
      pure ({ s with strtok }.setWorker w (afterCheck job pStr))
  | _ => none

/-- The worker goes on behind a call of `strtok` in `text_parse`: with the loop body, or with what
stands behind the loop. -/
def parsed (s : TextThreads) (w : Nat) (job : TextJob) (seen : List Bytes) (cmd : StCmdFrame)
    (i : Nat) : Option Bytes × StrtokState StringId → Option TextThreads
  | (none, strtok) =>
      let pushed := s.pushed ++ [{ job, seen, cmd := finishText job.fd cmd i }]
      some ({ s with strtok, pushed }.setWorker w .idle)
  | (some pStr, strtok) =>
      (storeToken cmd i pStr).map fun cmd =>
        { s with strtok }.setWorker w (.parsing job (seen ++ [pStr]) cmd (i + 1))

def firstToken (s : TextThreads) (w : Nat) : Option TextThreads :=
  match s.workers w with
  | .checked job => (s.strtok.first 0x20 (.line w)).bind (s.parsed w job [] job.residue 0)
  | _ => none

def nextToken (s : TextThreads) (w : Nat) : Option TextThreads :=
  match s.workers w with
  | .parsing job seen cmd i => (s.strtok.next 0x20).bind (s.parsed w job seen cmd i)
  | _ => none

/-- The loop body of the command thread, and its next place. -/
def octet (ip : Bytes) (tok : Bytes) : IpThread → Option IpThread
  | .outside => none
  | .ipToHexStr newIp i =>
      (atoi tok).bind fun octet => (newIp.write (ipaddrOff + i) [UInt8.ofInt octet]).map fun newIp =>
        .ipToHexStr newIp (i + 1)
  | .checkRightIp i =>
      (atoi (strBytes ip)).map fun value =>
        if 255 < value ∨ value < 0 then .outside else .checkRightIp (i - 1)

def afterOctet (s : TextThreads) (place : IpThread) :
    Option Bytes × StrtokState StringId → Option TextThreads
  | (none, strtok) => some { s with strtok, ipThread := .outside }
  | (some tok, strtok) =>
      (octet (strtok.strings .ip) tok place).map fun ipThread => { s with strtok, ipThread }

/-- The call of one of the two functions up to behind its first `strtok`. -/
def startIp (s : TextThreads) (ip : Bytes) (place : IpThread) : Option TextThreads :=
  match s.ipThread with
  | .outside => ((s.strtok.setString .ip ip).first 0x2e .ip).bind (s.afterOctet place)
  | _ => none

def nextOctet (s : TextThreads) : Option TextThreads :=
  match s.ipThread with
  | .outside => none
  | place => (s.strtok.next 0x2e).bind (s.afterOctet place)

def step (s : TextThreads) : TextAction → Option TextThreads
  | .receive w fd chunk tmpStr residue => s.receive w fd chunk tmpStr residue
  | .check w => s.check w
  | .firstToken w => s.firstToken w
  | .nextToken w => s.nextToken w
  | .ipToHexStr ip newIp => s.startIp ip (.ipToHexStr newIp 0)
  | .checkRightIp ip => s.startIp ip (.checkRightIp 4)
  | .nextOctet => s.nextOctet

end TextThreads

end InstructionParser
