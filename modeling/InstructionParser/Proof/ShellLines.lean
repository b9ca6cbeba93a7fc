import InstructionParser.Proof.AddUser
import InstructionParser.Proof.DateRoundTrip

/-!
# What the shell is given

Four commands run programs through `system`. The scripts and the dates are made of fixed words and of
decimal digits, so the shell reads in their lines what they mean; the line of `add_user` has the two
strings of the request in it as they are.
-/

namespace InstructionParser

open CLib Runs

variable {env : Env} {st : Statics} {s s' : CmdThread} {cmd : StCmdFrame} {entry : CmdList}
  {r : HandlerResult} {events : List Event} {lines more : List Bytes} {words other : List (List Bytes)}

/-! ### What a command means -/

/-- The shell reads these commands in the lines, one in each, under this condition only. -/
structure ReadsAs (lines : List Bytes) (words : List (List Bytes)) (cond : Prop) : Prop where
  length_eq : lines.length = words.length
  reads_iff : lines.map Shell.fields = words.map some ↔ cond

theorem ReadsAs.append {cond cond' : Prop} (h : ReadsAs lines words cond)
    (hmore : ReadsAs more other cond') : ReadsAs (lines ++ more) (words ++ other) (cond ∧ cond') := by
  refine ⟨by rw [List.length_append, List.length_append, h.length_eq, hmore.length_eq], ?_⟩
  rw [List.map_append, List.map_append, ← h.reads_iff, ← hmore.reads_iff]
  refine ⟨fun heq => List.append_inj heq ?_, fun heq => by rw [heq.1, heq.2]⟩
  rw [List.length_map, List.length_map, h.length_eq]

/-! ### One command -/

namespace Pipeline

variable {reply : Reply} {p : Pipeline}

end Pipeline

end InstructionParser
