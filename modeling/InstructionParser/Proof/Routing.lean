import InstructionParser.Proof.Codec
import InstructionParser.Proof.Queue
import InstructionParser.Proof.TextParse

/-!
# From the protocol to the dispatcher

A queued frame does not say which protocol it came from: `get_cmd` takes it for a binary command when
its `cmd_id` is not 0. `text_parse` does not write that field, and the binary parsers take it from the
wire as it is, so the route depends on a leftover for the one and on the sender for the others.
-/

namespace InstructionParser

open CLib

variable {fd : Int} {residue c : StCmdFrame} {q : CircleQueue StCmdFrame} {buf : Bytes}

/-- The command is pushed, and `get_cmd` pops it after everything that was in the queue before. -/
def Delivered (q : CircleQueue StCmdFrame) (c : StCmdFrame) : Prop :=
  ∃ q', q.pushElement c = (0, q') ∧ q'.drain queueSize = q.drain queueSize ++ [c]

/-- What `text_parse` makes of the line is delivered, and executed by `do_text_cmd`. -/
def ExecutedAsText (fd : Int) (residue : StCmdFrame) (q : CircleQueue StCmdFrame)
    (buf : Bytes) : Prop :=
  ∃ c, textParse fd residue buf = some c ∧ Delivered q c ∧ c.isBinary = false

/-- What a binary parser makes of the frame is refused by the queue, or delivered and executed by
`do_cmd_list`. -/
def KeptBinary (protocol : ProtocolSet) (fd : Int) (residue : StCmdFrame)
    (q : CircleQueue StCmdFrame) (buf : Bytes) : Prop :=
  ∃ c, protocol.parse fd residue buf = some c
    ∧ (q.pushElement c = (-1, q) ∨ Delivered q c ∧ c.isBinary = true)

def TextRouted (residue : StCmdFrame) (q : CircleQueue StCmdFrame) (buf : Bytes) : Prop :=
  residue.cmdId = 0 ∧ TokensFit (words 0x20 (strBytes buf)) ∧ q.isQueueFull = false

/-- The condition for a binary frame: its payload fits and its command id is not 0, unless the queue
refuses it. -/
def BinaryRouted (headerLen : UInt16) (q : CircleQueue StCmdFrame) (buf : Bytes) : Prop :=
  ∃ len cmdId, readBe16 buf 2 = some len ∧ readBe16 buf 6 = some cmdId ∧ PayloadFits headerLen len
    ∧ (q.isQueueFull = true ∨ cmdId ≠ 0)

/-! ### The queue -/

theorem delivered_iff (h : q.WellFormed) (c : StCmdFrame) :
    Delivered q c ↔ q.isQueueFull = false := by
  constructor
  · rintro ⟨q', hpush, _⟩
    by_contra hfull
    rw [CircleQueue.pushElement_full (by simpa using hfull)] at hpush
    simp at hpush
  · intro hfull
    refine ⟨_, CircleQueue.pushElement_notFull hfull c, ?_⟩
    rw [CircleQueue.drain_eq_contents _ _ (h.push c) (h.push c).size_lt,
      CircleQueue.drain_eq_contents _ _ h h.size_lt, CircleQueue.contents_push h hfull]

theorem refused_iff (c : StCmdFrame) : q.pushElement c = (-1, q) ↔ q.isQueueFull = true := by
  constructor
  · intro hpush
    by_contra hfull
    rw [CircleQueue.pushElement_notFull (by simpa using hfull)] at hpush
    simp at hpush
  · exact fun hfull => CircleQueue.pushElement_full hfull c

/-! ### Text lines -/

theorem executedAsText_iff (hq : q.WellFormed) (hzero : 0 ∈ buf) :
    ExecutedAsText fd residue q buf ↔ TextRouted residue q buf := by
  constructor
  · rintro ⟨c, hparse, hdelivered, htext⟩
    refine ⟨?_, (exists_textParse_iff hzero).mp ⟨c, hparse⟩, (delivered_iff hq c).mp hdelivered⟩
    rw [← textParse_cmdId hzero hparse]
    simpa [StCmdFrame.isBinary] using htext
  · rintro ⟨hid, hfit, hfull⟩
    obtain ⟨c, hparse⟩ := (exists_textParse_iff hzero).mpr hfit
    refine ⟨c, hparse, (delivered_iff hq c).mpr hfull, ?_⟩
    rw [StCmdFrame.isBinary, textParse_cmdId hzero hparse, hid]
    rfl

/-! ### Binary frames -/

theorem isBinary_iff (c : StCmdFrame) : c.isBinary = true ↔ c.cmdId ≠ 0 := by
  simp [StCmdFrame.isBinary]

theorem pushed_iff (hq : q.WellFormed) (c : StCmdFrame) :
    (q.pushElement c = (-1, q) ∨ Delivered q c ∧ c.isBinary = true)
      ↔ (q.isQueueFull = true ∨ c.cmdId ≠ 0) := by
  rw [refused_iff, delivered_iff hq, isBinary_iff]
  cases q.isQueueFull <;> simp

theorem htKeptBinary_iff (hq : q.WellFormed) (hcheck : htCheckData buf = some 0) :
    KeptBinary htProtocol fd residue q buf ↔ BinaryRouted 8 q buf := by
  constructor
  · rintro ⟨c, hparse, hpushed⟩
    have hparsed := htParse_eq_some_iff.mp hparse
    exact ⟨c.len, c.cmdId, hparsed.len_read, hparsed.cmdId_read, hparsed.fits (by decide),
      (pushed_iff hq c).mp hpushed⟩
  · rintro ⟨len, cmdId, hlen, hcmd, hfits, hroute⟩
    obtain ⟨c, hparsed⟩ := exists_parsed_of_fits properTable_ht hcheck hlen hcmd hfits
      residue.deviceId fd residue
    have hid : c.cmdId = cmdId := Option.some.inj (hparsed.cmdId_read.symm.trans hcmd)
    exact ⟨c, htParse_eq_some_iff.mpr hparsed, (pushed_iff hq c).mpr (hid ▸ hroute)⟩

theorem slKeptBinary_iff (hq : q.WellFormed) (hcheck : slCheckData buf = some 0) :
    KeptBinary slProtocol fd residue q buf ↔ BinaryRouted 13 q buf := by
  constructor
  · rintro ⟨c, hparse, hpushed⟩
    obtain ⟨_, _, _, _, _, _, _, _, hparsed⟩ := slParse_eq_some_iff.mp hparse
    exact ⟨c.len, c.cmdId, hparsed.len_read, hparsed.cmdId_read, hparsed.fits (by decide),
      (pushed_iff hq c).mp hpushed⟩
  · rintro ⟨len, cmdId, hlen, hcmd, hfits, hroute⟩
    obtain ⟨b9, b10, b11, b12, h9, h10, h11, h12⟩ := exists_deviceId hcheck hlen hfits
    obtain ⟨c, hparsed⟩ := exists_parsed_of_fits properTable_sl hcheck hlen hcmd hfits
      (be32 b9 b10 b11 b12) fd residue
    have hid : c.cmdId = cmdId := Option.some.inj (hparsed.cmdId_read.symm.trans hcmd)
    exact ⟨c, slParse_eq_some_iff.mpr ⟨b9, b10, b11, b12, h9, h10, h11, h12, hparsed⟩,
      (pushed_iff hq c).mpr (hid ▸ hroute)⟩

/-- **Which commands keep to their protocol.** With any leftover and any queue, a text line is
executed as text, and a binary frame as binary or not at all, exactly under these conditions. -/
theorem routing_iff (fd : Int) (residue : StCmdFrame) (hq : q.WellFormed) (buf : Bytes) :
    (∀ tmpStr, textCheckData tmpStr buf = some 0 →
      (ExecutedAsText fd residue q buf ↔ TextRouted residue q buf))
    ∧ (htCheckData buf = some 0 →
      (KeptBinary htProtocol fd residue q buf ↔ BinaryRouted 8 q buf))
    ∧ (slCheckData buf = some 0 →
      (KeptBinary slProtocol fd residue q buf ↔ BinaryRouted 13 q buf)) :=
  ⟨fun _ hcheck => executedAsText_iff hq (zero_mem_of_textCheckData hcheck),
    htKeptBinary_iff hq, slKeptBinary_iff hq⟩

theorem help_checked : textCheckData (Block.zeroed 128) (readLine (ascii "[1] help")) = some 0 := by
  decide +kernel

theorem routing_iff_help :
    (ExecutedAsText 5 StCmdFrame.zeroed (CircleQueue.zeroed StCmdFrame.zeroed)
        (readLine (ascii "[1] help"))
      ↔ TextRouted StCmdFrame.zeroed (CircleQueue.zeroed StCmdFrame.zeroed)
        (readLine (ascii "[1] help")))
    ∧ (KeptBinary htProtocol 5 StCmdFrame.zeroed (CircleQueue.zeroed StCmdFrame.zeroed)
        (readLine (htFrame 1 0x0109 []))
      ↔ BinaryRouted 8 (CircleQueue.zeroed StCmdFrame.zeroed) (readLine (htFrame 1 0x0109 [])))
    ∧ (KeptBinary slProtocol 5 StCmdFrame.zeroed (CircleQueue.zeroed StCmdFrame.zeroed)
        (readLine (slFrame 1 0 0 0 []))
      ↔ BinaryRouted 13 (CircleQueue.zeroed StCmdFrame.zeroed) (readLine (slFrame 1 0 0 0 []))) :=
  ⟨(routing_iff 5 StCmdFrame.zeroed (CircleQueue.wellFormed_zeroed _) _).1 (Block.zeroed 128)
      help_checked,
    (routing_iff 5 StCmdFrame.zeroed (CircleQueue.wellFormed_zeroed _) _).2.1
      (htFrame_checked 1 0x0109 (by decide) _),
    (routing_iff 5 StCmdFrame.zeroed (CircleQueue.wellFormed_zeroed _) _).2.2
      (slFrame_checked 1 0 0 0 (by decide) _)⟩

/-- The line `[1] help`, parsed over a local frame with the command id 0x0109, is executed as a binary
command. -/
theorem text_routed_by_leftover :
    ¬ ∀ (fd : Int) (residue : StCmdFrame) (q : CircleQueue StCmdFrame) (tmpStr : Block 128)
      (buf : Bytes), q.WellFormed → q.isQueueFull = false →
      (textCheckData tmpStr buf = some 0 → ExecutedAsText fd residue q buf)
      ∧ (htCheckData buf = some 0 → KeptBinary htProtocol fd residue q buf)
      ∧ (slCheckData buf = some 0 → KeptBinary slProtocol fd residue q buf) := by
  intro h
  have hexecuted := (h 5 { StCmdFrame.zeroed with cmdId := 0x0109 }
    (CircleQueue.zeroed StCmdFrame.zeroed) (Block.zeroed 128) (readLine (ascii "[1] help"))
    (CircleQueue.wellFormed_zeroed _) rfl).1 help_checked
  obtain ⟨hid, _⟩ := (executedAsText_iff (CircleQueue.wellFormed_zeroed _)
    (zero_mem_of_textCheckData help_checked)).mp hexecuted
  exact absurd hid (by decide)

end InstructionParser
