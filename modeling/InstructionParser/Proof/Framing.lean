import InstructionParser.Proof.Codec
import Mathlib.Data.List.Forall2

/-!
# Frames and reads

`handle` keeps nothing from one read to the next and looks at the first bytes of a read only: a read
is a command. There is no reassembly, so frames come through one by one as long as the client's
segments do, and of several frames in one read the first is taken.
-/

namespace InstructionParser

open CLib

/-- A request frame of a binary client. -/
inductive WireFrame where
  | ht (frameId cmdId : UInt16) (p : Bytes)
  | sl (frameId cmdId : UInt16) (dir : UInt8) (deviceId : UInt32) (p : Bytes)

namespace WireFrame

def encode : WireFrame → Bytes
  | ht frameId cmdId p => htFrame frameId cmdId p
  | sl frameId cmdId dir deviceId p => slFrame frameId cmdId dir deviceId p

def protocol : WireFrame → ProtocolSet
  | ht .. => htProtocol
  | sl .. => slProtocol

/-- The command `c`, pushed for the client `fd`, is that of the frame. -/
def Carried (fd : Int) : WireFrame → StCmdFrame → Prop
  | ht frameId cmdId p, c => Recovered htCmdList fd frameId cmdId (8 + p.length) p c
  | sl frameId cmdId _ deviceId p, c =>
      Recovered slCmdList fd frameId cmdId (13 + p.length) p c ∧ c.deviceId = deviceId

end WireFrame

/-- One call of `handle` for a client: the bytes read, and what the locals hold before. -/
structure ReadCall where
  tmpStr : Block 128
  residue : StCmdFrame
  chunk : Bytes

/-- The commands pushed by successive calls of `handle` for one client. -/
def handleReads (fd : Int) : List ReadCall → Option (List StCmdFrame)
  | [] => some []
  | call :: calls => do
      let pushed ← handle call.tmpStr call.residue fd call.chunk
      let rest ← handleReads fd calls
      pure (pushed.toList ++ rest)

/-- The read begins with the frame; what stands behind it is arbitrary. -/
def BeginsWith (call : ReadCall) (frame : WireFrame) : Prop :=
  ∃ rest, call.chunk = frame.encode ++ rest ∧ call.chunk.length ≤ 255

/-- The read holds these whole frames, at least one, and nothing else. -/
def HoldsFrames (call : ReadCall) (frames : List WireFrame) : Prop :=
  frames ≠ [] ∧ call.chunk = (frames.map WireFrame.encode).flatten ∧ call.chunk.length ≤ 255

/-! ### One read -/

theorem WireFrame.taken (frame : WireFrame) (tail : Bytes) (fd : Int)
    (hline : frame.encode.length ≤ 255) :
    TakenBy frame.protocol (frame.encode ++ tail) fd (frame.Carried fd) := by
  cases frame with
  | ht frameId cmdId p =>
      rw [encode, htFrame, withCrc_length, htBody_length] at hline
      exact htFrame_taken frameId cmdId (line_fits (by omega)) fd tail
  | sl frameId cmdId dir deviceId p =>
      rw [encode, slFrame, withCrc_length, slBody_length] at hline
      exact slFrame_taken frameId cmdId dir deviceId (line_fits (by omega)) fd tail

theorem handle_of_beginsWith {call : ReadCall} {frame : WireFrame} (h : BeginsWith call frame)
    (fd : Int) : ∃ c, handle call.tmpStr call.residue fd call.chunk = some (some c)
      ∧ frame.Carried fd c := by
  obtain ⟨rest, hchunk, hline⟩ := h
  have hframe : frame.encode.length ≤ 255 := by
    rw [hchunk, List.length_append] at hline
    omega
  have hbuf : readLine call.chunk
      = frame.encode ++ (rest ++ List.replicate (255 - call.chunk.length) 0) := by
    rw [readLine, hchunk, List.append_assoc]
  obtain ⟨hselect, c, hparse, hcarried⟩ := frame.taken
    (rest ++ List.replicate (255 - call.chunk.length) 0) fd hframe call.tmpStr call.residue
  refine ⟨c, ?_, hcarried⟩
  rw [handle, hbuf, hselect]
  simp [hparse]

theorem beginsWith_of_holdsFrames {call : ReadCall} {frames : List WireFrame}
    (h : HoldsFrames call frames) : ∃ frame rest, frames = frame :: rest ∧ BeginsWith call frame := by
  obtain ⟨hne, hchunk, hline⟩ := h
  obtain ⟨frame, rest, rfl⟩ := List.exists_cons_of_ne_nil hne
  exact ⟨frame, rest, rfl, _, by rw [hchunk, List.map_cons, List.flatten_cons], hline⟩

/-! ### The reads of a client -/

/-- Over any sequence of reads, each beginning with a frame, these frames come through in order. -/
theorem handleReads_of_beginsWith {calls : List ReadCall} {frames : List WireFrame}
    (h : List.Forall₂ BeginsWith calls frames) (fd : Int) :
    ∃ pushed, handleReads fd calls = some pushed
      ∧ List.Forall₂ (WireFrame.Carried fd) frames pushed := by
  induction h with
  | nil => exact ⟨[], rfl, List.Forall₂.nil⟩
  | cons hfirst _ ih =>
      obtain ⟨c, hhandle, hcarried⟩ := handle_of_beginsWith hfirst fd
      obtain ⟨pushed, hreads, hall⟩ := ih
      refine ⟨c :: pushed, ?_, List.Forall₂.cons hcarried hall⟩
      simp [handleReads, hhandle, hreads]

theorem exists_first_frames {calls : List ReadCall} {groups : List (List WireFrame)}
    (h : List.Forall₂ HoldsFrames calls groups) :
    ∃ frames, List.Forall₂ BeginsWith calls frames
      ∧ List.Forall₂ (fun group frame => group.head? = some frame) groups frames := by
  induction h with
  | nil => exact ⟨[], List.Forall₂.nil, List.Forall₂.nil⟩
  | cons hfirst _ ih =>
      obtain ⟨frame, rest, rfl, hbegins⟩ := beginsWith_of_holdsFrames hfirst
      obtain ⟨frames, hall, hheads⟩ := ih
      exact ⟨frame :: frames, List.Forall₂.cons hbegins hall, List.Forall₂.cons rfl hheads⟩

theorem groups_ne_nil {calls : List ReadCall} {groups : List (List WireFrame)}
    (h : List.Forall₂ HoldsFrames calls groups) : ∀ group ∈ groups, group ≠ [] := by
  induction h with
  | nil => simp
  | cons hfirst _ ih =>
      intro group hgroup
      rcases List.mem_cons.mp hgroup with rfl | htail
      · exact hfirst.1
      · exact ih group htail

/-! ### How many frames a list of groups has -/

section Groups

variable {α : Type}

theorem length_le_length_flatten {groups : List (List α)} (h : ∀ group ∈ groups, group ≠ []) :
    groups.length ≤ groups.flatten.length := by
  induction groups with
  | nil => exact le_refl _
  | cons group groups ih =>
      have hgroup := List.length_pos_of_ne_nil (h group (by simp))
      have hrest := ih fun other hother => h other (by simp [hother])
      rw [List.flatten_cons, List.length_append, List.length_cons]
      omega

theorem length_eq_one_of_flatten {groups : List (List α)} (h : ∀ group ∈ groups, group ≠ [])
    (hlen : groups.flatten.length = groups.length) : ∀ group ∈ groups, group.length = 1 := by
  induction groups with
  | nil => simp
  | cons group groups ih =>
      have hrest : ∀ other ∈ groups, other ≠ [] := fun other hother => h other (by simp [hother])
      have hgroup := List.length_pos_of_ne_nil (h group (by simp))
      have hle := length_le_length_flatten hrest
      rw [List.flatten_cons, List.length_append, List.length_cons] at hlen
      intro other hother
      rcases List.mem_cons.mp hother with rfl | htail
      · omega
      · exact ih hrest (by omega) other htail

theorem flatten_of_singletons {groups : List (List α)} {heads : List α}
    (hheads : List.Forall₂ (fun group head => group.head? = some head) groups heads)
    (hone : ∀ group ∈ groups, group.length = 1) : groups.flatten = heads := by
  induction hheads with
  | nil => rfl
  | @cons group head groups heads hfirst _ ih =>
      have hgroup : group = [head] := by
        obtain ⟨a, rfl⟩ := List.length_eq_one_iff.mp (hone group (by simp))
        simpa using hfirst
      rw [List.flatten_cons, hgroup, ih fun other hother => hone other (by simp [hother])]
      rfl

end Groups

/-- **One command per read.** Reads that begin with a frame push the commands of these frames, in
order, and nothing else; where every read holds whole frames, these are all the frames of the stream
exactly when every read holds one. -/
theorem one_command_per_read (fd : Int) (calls : List ReadCall) :
    (∀ frames, List.Forall₂ BeginsWith calls frames →
      ∃ pushed, handleReads fd calls = some pushed
        ∧ List.Forall₂ (WireFrame.Carried fd) frames pushed)
    ∧ ∀ groups, List.Forall₂ HoldsFrames calls groups →
      ∃ pushed, handleReads fd calls = some pushed
        ∧ (List.Forall₂ (WireFrame.Carried fd) groups.flatten pushed
          ↔ ∀ group ∈ groups, group.length = 1) := by
  refine ⟨fun frames h => handleReads_of_beginsWith h fd, fun groups h => ?_⟩
  obtain ⟨frames, hbegins, hheads⟩ := exists_first_frames h
  obtain ⟨pushed, hreads, hcarried⟩ := handleReads_of_beginsWith hbegins fd
  refine ⟨pushed, hreads, fun hall => ?_, fun hone => ?_⟩
  · refine length_eq_one_of_flatten (groups_ne_nil h) ?_
    rw [hall.length_eq, ← hcarried.length_eq, ← hheads.length_eq]
  · rwa [flatten_of_singletons hheads hone]

/-- A frame, then a frame with another behind it in the same read. -/
theorem one_command_per_read_two :
    ∃ pushed, handleReads 5
        [⟨Block.zeroed 128, StCmdFrame.zeroed, htFrame 1 0x0109 []⟩,
          ⟨Block.zeroed 128, StCmdFrame.zeroed, htFrame 2 0x0109 [] ++ htFrame 3 0x0109 []⟩]
        = some pushed
      ∧ List.Forall₂ (WireFrame.Carried 5) [.ht 1 0x0109 [], .ht 2 0x0109 []] pushed :=
  (one_command_per_read 5 _).1 [.ht 1 0x0109 [], .ht 2 0x0109 []]
    (List.Forall₂.cons ⟨[], by simp [WireFrame.encode], by decide⟩
      (List.Forall₂.cons ⟨htFrame 3 0x0109 [], rfl, by decide⟩ List.Forall₂.nil))

/-- Two frames in one read: the second is lost. -/
theorem framing_depends_on_reads :
    ¬ ∀ (fd : Int) (frames : List WireFrame) (calls : List ReadCall),
      (∀ frame ∈ frames, frame.encode.length ≤ 255) →
      (∀ call ∈ calls, call.chunk ≠ [] ∧ call.chunk.length ≤ 255) →
      (calls.map ReadCall.chunk).flatten = (frames.map WireFrame.encode).flatten →
      ∃ pushed, handleReads fd calls = some pushed
        ∧ List.Forall₂ (WireFrame.Carried fd) frames pushed := by
  intro h
  let first : WireFrame := .ht 1 0x0109 []
  let second : WireFrame := .ht 2 0x0109 []
  let call : ReadCall := ⟨Block.zeroed 128, StCmdFrame.zeroed, first.encode ++ second.encode⟩
  have hbegins : List.Forall₂ BeginsWith [call] [first] :=
    List.Forall₂.cons ⟨second.encode, rfl, by decide⟩ List.Forall₂.nil
  obtain ⟨pushed, hreads, hboth⟩ := h 5 [first, second] [call] (by decide) (by decide)
    (by simp [call])
  obtain ⟨pushed', hreads', hone⟩ := handleReads_of_beginsWith hbegins 5
  obtain rfl := Option.some.inj (hreads.symm.trans hreads')
  have hlen := hboth.length_eq.trans hone.length_eq.symm
  simp at hlen

end InstructionParser
