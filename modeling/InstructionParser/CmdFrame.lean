import InstructionParser.CLib.CString

/-!
# The command frame

`st_cmd_frame` of `include/handle.h`. Its three byte arrays lie behind one another without padding,
so they are kept as one block: a copy that is too long for its array lands in the next one, and only
a copy that leaves the whole struct is out of bounds.
-/

namespace InstructionParser

open CLib

def cmdNameSize : Nat := 16
def dataSize : Nat := 1024
def cmdDataRowSize : Nat := 64
def cmdDataRows : Nat := 5

def dataOff : Nat := cmdNameSize

def cmdDataOff : Nat := dataOff + dataSize

def arraysSize : Nat := cmdDataOff + cmdDataRows * cmdDataRowSize

structure StCmdFrame where
  fd : Int
  len : UInt16
  frameId : UInt16
  cmdId : UInt16
  cmdLen : UInt16
  deviceId : UInt32
  /-- `cmd_name[16]`, `data[1024]`, `cmd_data[5][64]`. -/
  arrays : Block arraysSize
deriving DecidableEq

namespace StCmdFrame

def cmdName (c : StCmdFrame) : Bytes := c.arrays.bytes

def data (c : StCmdFrame) : Bytes := c.arrays.bytes.drop dataOff

def cmdData (c : StCmdFrame) : Bytes := c.arrays.bytes.drop cmdDataOff

/-- The first `cmd_len` bytes of `data`. -/
def payload (c : StCmdFrame) : Bytes := c.data.take c.cmdLen.toNat

def store (c : StCmdFrame) (off : Nat) (src : Bytes) : Option StCmdFrame :=
  (c.arrays.write off src).map fun arrays => { c with arrays }

theorem store_eq_some_iff {c c' : StCmdFrame} {off : Nat} {src : Bytes} :
    c.store off src = some c' ↔
      ∃ arrays, c.arrays.write off src = some arrays ∧ c' = { c with arrays } := by
  rw [store, Option.map_eq_some_iff]
  exact exists_congr fun arrays => and_congr_right fun _ => eq_comm

theorem store_eq_none_iff {c : StCmdFrame} {off : Nat} {src : Bytes} :
    c.store off src = none ↔ arraysSize < off + src.length := by
  simp [store, Block.write_eq_none_iff]

theorem data_length (c : StCmdFrame) : c.data.length = arraysSize - dataOff := by
  simp [data, c.arrays.size_eq]

theorem data_ne_nil (c : StCmdFrame) : c.data ≠ [] := by
  intro hnil
  have hlength := c.data_length
  rw [hnil] at hlength
  cases hlength

end StCmdFrame

/-- A frame of zeros, as static storage holds it before the first command. -/
def StCmdFrame.zeroed : StCmdFrame :=
  { fd := 0, len := 0, frameId := 0, cmdId := 0, cmdLen := 0, deviceId := 0,
    arrays := Block.zeroed arraysSize }

def StCmdFrame.ofName (name : Bytes) (hfits : name.length ≤ arraysSize) : StCmdFrame :=
  { StCmdFrame.zeroed with
    arrays := ⟨name ++ List.replicate (arraysSize - name.length) 0, by simp; omega⟩ }

end InstructionParser
