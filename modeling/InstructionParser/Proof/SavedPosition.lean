import InstructionParser.Proof.TextParse
import InstructionParser.TextWorkers
import InstructionParser.Runs

/-!
# Tokenising beside other threads

A worker that finds the saved position in its own line finds it where its last call left it, because
the other threads leave it in their own strings. So its words are those of its line, and the command
is the one that the parser makes of the line alone.
-/

namespace InstructionParser

open CLib Runs

namespace TextThreads

/-- The condition on the steps of a run: `strtok(NULL, ...)` goes on in the string of the caller. -/
def OwnPosition (s : TextThreads) : TextAction → Prop
  | .nextToken w => s.strtok.OwnedBy (.line w)
  | .nextOctet => s.strtok.OwnedBy .ip
  | _ => True

instance (s : TextThreads) : (a : TextAction) → Decidable (s.OwnPosition a)
  | .nextToken w => inferInstanceAs (Decidable (s.strtok.OwnedBy (.line w)))
  | .nextOctet => inferInstanceAs (Decidable (s.strtok.OwnedBy .ip))
  | .receive .. | .check _ | .firstToken _ | .ipToHexStr .. | .checkRightIp _ =>
      inferInstanceAs (Decidable True)

/-- Each parser has been given words of its own line so far, and those that ended were given all of
them and pushed what `text_parse` makes of the line when nobody else runs. -/
structure Undisturbed (s : TextThreads) : Prop where
  seen : ∀ w job seen cmd i, s.workers w = .parsing job seen cmd i →
    seen <+: words 0x20 (strBytes job.line)
  pushed : ∀ p ∈ s.pushed, p.seen = words 0x20 (strBytes p.job.line)
    ∧ textParse p.job.fd p.job.residue p.job.line = some p.cmd

/-! ### The invariant -/

/-- What the parser holds after the words `seen`. -/
structure Stored (job : TextJob) (seen : List Bytes) (cmd : StCmdFrame) (i : Nat) : Prop where
  accepted : textCheckData job.tmpStr job.line = some 0
  tokens : storeTokens job.residue 0 seen = some cmd
  count : i = seen.length

/-- The words behind `seen` are found at the saved position, if that is in the line. -/
def Continues (m : StrtokState StringId) (w : Nat) (job : TextJob) (seen : List Bytes) : Prop :=
  ∃ rest, words 0x20 (strBytes job.line) = seen ++ rest
    ∧ (m.OwnedBy (.line w) → m.Remaining 0x20 (.line w) rest)

def WorkerSound (m : StrtokState StringId) (w : Nat) : TextWorker → Prop
  | .idle => True
  | .received job => m.strings (.line w) = job.line
  | .checked job => m.strings (.line w) = job.line ∧ textCheckData job.tmpStr job.line = some 0
  | .parsing job seen cmd i => Stored job seen cmd i ∧ Continues m w job seen

structure Sound (s : TextThreads) : Prop where
  workers : ∀ w, WorkerSound s.strtok w (s.workers w)
  pushed : ∀ p ∈ s.pushed, p.seen = words 0x20 (strBytes p.job.line)
    ∧ textParse p.job.fd p.job.residue p.job.line = some p.cmd

variable {s s' : TextThreads} {m m' m'' : StrtokState StringId} {w : Nat}

/-- Nothing was written into the line of a worker, and the saved position has not moved into it. -/
structure Untouched (m m' : StrtokState StringId) (w : Nat) : Prop where
  line : m'.strings (.line w) = m.strings (.line w)
  saved : m'.OwnedBy (.line w) → m'.saved = m.saved

theorem Untouched.trans (h : Untouched m m' w) (h' : Untouched m' m'' w) : Untouched m m'' w := by
  refine ⟨h'.line.trans h.line, fun howned => ?_⟩
  have hsaved := h'.saved howned
  obtain ⟨pos, hpos⟩ := howned
  exact hsaved.trans (h.saved ⟨pos, hsaved ▸ hpos⟩)

theorem untouched_setString {id : StringId} {bytes : Bytes} (hne : StringId.line w ≠ id) :
    Untouched m (m.setString id bytes) w :=
  ⟨StrtokState.setString_other m bytes hne, fun _ => rfl⟩

theorem untouched_callAt {id : StringId} {d : UInt8} {pos : Nat} {r : Option Bytes}
    (h : m.callAt d id pos = some (r, m')) (hne : StringId.line w ≠ id) : Untouched m m' w :=
  ⟨StrtokState.callAt_other h hne, fun howned =>
    absurd ((StrtokState.callAt_ownedBy h).unique howned) hne⟩

theorem untouched_next {id : StringId} {d : UInt8} {r : Option Bytes} (howned : m.OwnedBy id)
    (h : m.next d = some (r, m')) (hne : StringId.line w ≠ id) : Untouched m m' w := by
  obtain ⟨pos, hsaved⟩ := howned
  rw [StrtokState.next_eq_callAt hsaved] at h
  exact untouched_callAt h hne

theorem WorkerSound.untouched (hm : Untouched m m' w) {worker : TextWorker}
    (h : WorkerSound m w worker) : WorkerSound m' w worker := by
  cases worker with
  | idle => trivial
  | received job => exact hm.line.trans h
  | checked job => exact ⟨hm.line.trans h.1, h.2⟩
  | parsing job seen cmd i =>
      obtain ⟨hstored, rest, hwords, hremaining⟩ := h
      refine ⟨hstored, rest, hwords, fun howned => ?_⟩
      have hsaved := hm.saved howned
      obtain ⟨pos, hpos⟩ := howned
      obtain ⟨pos', hpos', hrest⟩ := hremaining ⟨pos, hsaved ▸ hpos⟩
      exact ⟨pos', hsaved.trans hpos', by rw [hm.line]; exact hrest⟩

theorem Sound.setWorker (h : s.Sound) (w : Nat) {worker : TextWorker}
    (hothers : ∀ w', w' ≠ w → Untouched s.strtok m w') (hworker : WorkerSound m w worker) :
    ({ s with strtok := m }.setWorker w worker).Sound := by
  refine ⟨fun w' => ?_, h.pushed⟩
  by_cases hw : w' = w
  · rw [hw]
    simpa [TextThreads.setWorker] using hworker
  · simpa [TextThreads.setWorker, hw] using (h.workers w').untouched (hothers w' hw)

/-! ### The steps -/

theorem Sound.start (memory : StringId → Bytes) : (start memory).Sound :=
  ⟨fun _ => trivial, fun _ hp => absurd hp List.not_mem_nil⟩

theorem line_ne_line {w' : Nat} (hne : w' ≠ w) : StringId.line w' ≠ .line w :=
  fun heq => hne (StringId.line.inj heq)

theorem Sound.receive (h : s.Sound) {fd : Int} {chunk : Bytes} {tmpStr : Block 128}
    {residue : StCmdFrame} (hstep : s.receive w fd chunk tmpStr residue = some s') : s'.Sound := by
  unfold TextThreads.receive at hstep
  split at hstep
  case h_2 => simp at hstep
  case h_1 =>
    split_ifs at hstep
    obtain rfl := Option.some.inj hstep
    apply h.setWorker w
    · exact fun w' hw => untouched_setString (line_ne_line hw)
    · exact StrtokState.setString_same ..

/-- The check of a worker is the check of its line, whatever the other threads do. -/
theorem Sound.check (h : s.Sound) (hstep : s.check w = some s') : s'.Sound := by
  unfold TextThreads.check at hstep
  split at hstep
  case h_2 => simp at hstep
  case h_1 job hworker =>
    have hline : s.strtok.strings (.line w) = job.line := by
      have hsound := h.workers w
      rwa [hworker] at hsound
    simp only [Option.bind_eq_bind, Option.bind_eq_some_iff] at hstep
    obtain ⟨text, htext, tmpStr, hwrite, ⟨pStr, strtok⟩, hcall, hpure⟩ := hstep
    obtain rfl := Option.some.inj hpure
    have huntouched : ∀ w', Untouched s.strtok strtok w' := fun w' =>
      (untouched_setString (by simp)).trans (untouched_callAt hcall (by simp))
    apply h.setWorker w (fun w' _ => huntouched w')
    cases pStr with
    | none => trivial
    | some pStr =>
        by_cases hmatch : textPattern.rmatch pStr
        · have hverdict : textCheckData job.tmpStr job.line = some 0 := by
            obtain ⟨⟨tok, buf, pos⟩, hstrtok, heq⟩ := Option.map_eq_some_iff.mp hcall
            obtain ⟨rfl, _⟩ := Prod.mk.inj heq
            rw [StrtokState.setString_same] at hstrtok
            rw [hline] at htext
            simp only [textCheckData, htext, hwrite, hstrtok, Option.bind_eq_bind, Option.bind_some,
              if_pos hmatch]
            rfl
          simpa [afterCheck, hmatch, WorkerSound] using
            And.intro ((huntouched w).line.trans hline) hverdict
        · simp [afterCheck, hmatch, WorkerSound]

/-- What a call of `strtok` must yield for a worker that has seen the words `seen` of its line. -/
def YieldsNext (w : Nat) (job : TextJob) (seen : List Bytes) :
    Option Bytes × StrtokState StringId → Prop
  | (none, _) => words 0x20 (strBytes job.line) = seen
  | (some pStr, m) => ∃ rest, words 0x20 (strBytes job.line) = seen ++ pStr :: rest
      ∧ m.Remaining 0x20 (.line w) rest

theorem Sound.parsed (h : s.Sound) {job : TextJob} {seen : List Bytes} {cmd : StCmdFrame} {i : Nat}
    (hstored : Stored job seen cmd i) {r : Option Bytes}
    (hyields : YieldsNext w job seen (r, m))
    (hothers : ∀ w', w' ≠ w → Untouched s.strtok m w')
    (hstep : s.parsed w job seen cmd i (r, m) = some s') : s'.Sound := by
  obtain ⟨haccepted, htokens, rfl⟩ := hstored
  cases r with
  | none =>
      obtain rfl := Option.some.inj hstep
      have hwords : words 0x20 (strBytes job.line) = seen := hyields
      have hworkers := (h.setWorker w hothers (show WorkerSound m w .idle from trivial)).workers
      refine ⟨hworkers, fun p hp => ?_⟩
      rcases List.mem_append.mp hp with hold | hnew
      · exact h.pushed p hold
      · obtain rfl := List.mem_singleton.mp hnew
        refine ⟨hwords.symm, ?_⟩
        rw [textParse_eq (zero_mem_of_textCheckData haccepted), hwords, htokens]
        rfl
  | some pStr =>
      obtain ⟨rest, hwords, hremaining⟩ := hyields
      obtain ⟨next, hstore, rfl⟩ := Option.map_eq_some_iff.mp hstep
      apply h.setWorker w hothers
      refine ⟨⟨haccepted, ?_, by simp⟩, rest, by simpa using hwords, fun _ => hremaining⟩
      rw [storeTokens_append, htokens, Option.bind_some, Nat.zero_add]
      exact hstore

theorem Sound.firstToken (h : s.Sound) (hstep : s.firstToken w = some s') : s'.Sound := by
  unfold TextThreads.firstToken at hstep
  split at hstep
  case h_2 => simp at hstep
  case h_1 job hworker =>
    have hsound := h.workers w
    rw [hworker] at hsound
    obtain ⟨hline, haccepted⟩ := hsound
    obtain ⟨⟨r, strtok⟩, hcall, hparsed⟩ := Option.bind_eq_some_iff.mp hstep
    have hyields : YieldsNext w job [] (r, strtok) := by
      cases r with
      | none =>
          have hnull := StrtokState.first_null (by decide) hcall
          rwa [hline] at hnull
      | some pStr =>
          have htoken := StrtokState.first_token (by decide) hcall
          rwa [hline] at htoken
    exact h.parsed ⟨haccepted, rfl, rfl⟩ hyields
      (fun w' hw => untouched_callAt hcall (line_ne_line hw)) hparsed

theorem Sound.nextToken (h : s.Sound) (hok : s.OwnPosition (.nextToken w))
    (hstep : s.nextToken w = some s') : s'.Sound := by
  unfold TextThreads.nextToken at hstep
  split at hstep
  case h_2 => simp at hstep
  case h_1 job seen cmd i hworker =>
    have hsound := h.workers w
    rw [hworker] at hsound
    obtain ⟨hstored, rest, hwords, hremaining⟩ := hsound
    obtain ⟨⟨r, strtok⟩, hcall, hparsed⟩ := Option.bind_eq_some_iff.mp hstep
    have hyields : YieldsNext w job seen (r, strtok) := by
      cases r with
      | none =>
          obtain rfl := (hremaining hok).next_null (by decide) hcall
          simpa [YieldsNext] using hwords
      | some pStr =>
          obtain ⟨rest', rfl, hrest⟩ := (hremaining hok).next_token (by decide) hcall
          exact ⟨rest', hwords, hrest⟩
    exact h.parsed hstored hyields
      (fun w' hw => untouched_next hok hcall (line_ne_line hw)) hparsed

theorem Sound.afterOctet (h : s.Sound) {place : IpThread} {r : Option Bytes}
    (hothers : ∀ w, Untouched s.strtok m w) (hstep : s.afterOctet place (r, m) = some s') :
    s'.Sound := by
  have hworkers : ∀ w, WorkerSound m w (s.workers w) := fun w =>
    (h.workers w).untouched (hothers w)
  cases r with
  | none =>
      obtain rfl := Option.some.inj hstep
      exact ⟨hworkers, h.pushed⟩
  | some tok =>
      obtain ⟨next, _, rfl⟩ := Option.map_eq_some_iff.mp hstep
      exact ⟨hworkers, h.pushed⟩

theorem Sound.startIp (h : s.Sound) {ip : Bytes} {place : IpThread}
    (hstep : s.startIp ip place = some s') : s'.Sound := by
  unfold TextThreads.startIp at hstep
  split at hstep
  case h_2 => simp at hstep
  case h_1 =>
    obtain ⟨⟨r, strtok⟩, hcall, hafter⟩ := Option.bind_eq_some_iff.mp hstep
    exact h.afterOctet (fun w =>
      (untouched_setString (by simp)).trans (untouched_callAt hcall (by simp))) hafter

theorem Sound.nextOctet (h : s.Sound) (hok : s.OwnPosition .nextOctet)
    (hstep : s.nextOctet = some s') : s'.Sound := by
  unfold TextThreads.nextOctet at hstep
  split at hstep
  case h_1 => simp at hstep
  case h_2 =>
    obtain ⟨⟨r, strtok⟩, hcall, hafter⟩ := Option.bind_eq_some_iff.mp hstep
    exact h.afterOctet (fun w => untouched_next hok hcall (by simp)) hafter

theorem Sound.step (h : s.Sound) {a : TextAction} (hok : s.OwnPosition a)
    (hstep : s.step a = some s') : s'.Sound := by
  cases a with
  | receive w fd chunk tmpStr residue => exact h.receive hstep
  | check w => exact h.check hstep
  | firstToken w => exact h.firstToken hstep
  | nextToken w => exact h.nextToken hok hstep
  | ipToHexStr ip newIp => exact h.startIp hstep
  | checkRightIp ip => exact h.startIp hstep
  | nextOctet => exact h.nextOctet hok hstep

theorem Sound.undisturbed (h : s.Sound) : s.Undisturbed := by
  refine ⟨fun w job seen cmd i hworker => ?_, h.pushed⟩
  have hsound := h.workers w
  rw [hworker] at hsound
  obtain ⟨_, rest, hwords, _⟩ := hsound
  exact ⟨rest, hwords.symm⟩

/-- **Tokenising beside other threads.** In every run in which each `strtok(NULL, ...)` finds the
saved position in the caller's own string, every `text_parse` sees the words of its own line and
pushes the command that it would push alone. -/
theorem undisturbed_of_ownPosition {memory : StringId → Bytes} {s : TextThreads}
    (h : Reaches step OwnPosition (start memory) s) : s.Undisturbed :=
  (h.invariant (I := Sound) (fun _ _ _ hsound hok hstep => hsound.step hok hstep)
    (Sound.start memory)).undisturbed

def noStrings : StringId → Bytes := fun _ => []

def receiveLine (w : Nat) (fd : Int) (text : Bytes) : TextAction :=
  .receive w fd text (Block.zeroed 128) StCmdFrame.zeroed

/-- The command thread converts an address before the worker begins to parse. -/
def addressThenLine : List TextAction :=
  [receiveLine 0 7 (ascii "[1] help"), .check 0, .ipToHexStr (ascii "10.1" ++ [0]) (Block.zeroed 10),
    .nextOctet, .nextOctet, .firstToken 0, .nextToken 0, .nextToken 0]

theorem undisturbed_of_ownPosition_addressThenLine :
    ∃ s, exec step (start noStrings) addressThenLine = some s
      ∧ s.pushed.map PushedText.seen = [[ascii "[1]", ascii "help"]] ∧ s.Undisturbed := by
  have hrun : (exec step (start noStrings) addressThenLine).map
      (fun s => s.pushed.map PushedText.seen) = some [[ascii "[1]", ascii "help"]] := by
    decide +kernel
  obtain ⟨s, hexec, hseen⟩ := Option.map_eq_some_iff.mp hrun
  have hallowed : Allowed step OwnPosition (start noStrings) addressThenLine := by decide +kernel
  exact ⟨s, hexec, hseen, undisturbed_of_ownPosition (reaches_of_allowed hallowed hexec)⟩

/-- Another worker begins to parse its line before the first goes on. -/
def twoLines : List TextAction :=
  [receiveLine 0 7 (ascii "[1] help"), .check 0, .firstToken 0,
    receiveLine 1 8 (ascii "[2] get_ip eth0"), .check 1, .firstToken 1,
    .nextToken 0, .nextToken 0, .nextToken 0]

/-- Client 7 asks for help and runs the command of client 8. -/
theorem words_of_other_client :
    ¬ ∀ (memory : StringId → Bytes) (s : TextThreads),
      Reaches step anyAction (start memory) s → s.Undisturbed := by
  intro h
  have hrun : (exec step (start noStrings) twoLines).map
      (fun s => s.pushed.map fun p => (p.job.fd, words 0x20 (strBytes p.job.line), p.seen))
        = some [(7, [ascii "[1]", ascii "help"],
          [ascii "[1]", ascii "get_ip", ascii "eth0"])] := by decide +kernel
  obtain ⟨s, hexec, hlog⟩ := Option.map_eq_some_iff.mp hrun
  have hundisturbed := (h noStrings s (reaches_of_exec hexec)).pushed
  obtain ⟨p, hpushed, heq⟩ := List.map_eq_singleton_iff.mp hlog
  obtain ⟨hseen, _⟩ := hundisturbed p (by simp [hpushed])
  simp only [Prod.mk.injEq] at heq
  obtain ⟨_, hwords, hother⟩ := heq
  rw [hwords, hother] at hseen
  exact absurd hseen (by decide)

end TextThreads

end InstructionParser
