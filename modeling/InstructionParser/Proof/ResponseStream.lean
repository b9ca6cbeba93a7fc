import InstructionParser.ResponseStream

/-!
# Response streams

What a client has got up to the first failure is the beginning of its responses if and only if the
socket takes nothing any more once it has taken less than it was handed.
-/

namespace InstructionParser

open CLib PartialStream

variable {kernel : Nat → IoOutcome} {ret : Nat → Int}

theorem IoOutcome.ret_lt_iff (outcome : IoOutcome) : outcome.ret < -1 ↔ outcome.fails = true := by
  cases outcome with
  | count n _ =>
      simp only [ret, fails, Bool.false_eq_true, iff_false]
      omega
  | again => simp [ret, fails]
  | zero => simp [ret, fails]
  | error => simp [ret, fails]

/-- The calls of `write` before the first failure, when the buffers are handed over one after the
other from call `k` on. -/
def untilFailure (kernel : Nat → IoOutcome) (k : Nat) : List Bytes → List (Write UInt8)
  | [] => []
  | buf :: bufs =>
      if (kernel k).fails then [] else ⟨buf, (kernel k).room⟩ :: untilFailure kernel (k + 1) bufs

/-- What the client has got is the beginning of the complete responses: the bytes, and each of them at
its own place, so that none before it is missing. -/
structure StreamIntact (s : Wire) (complete : List Bytes) : Prop where
  bytes : accepted s.log <+: complete.flatten
  places : placed 0 s.log <+: complete.flatten.zipIdx

theorem exists_offered_untilFailure (kernel : Nat → IoOutcome) (k : Nat) (bufs : List Bytes) :
    ∃ rest, bufs.flatten = offered (untilFailure kernel k bufs) ++ rest := by
  induction bufs generalizing k with
  | nil => exact ⟨[], rfl⟩
  | cons buf bufs ih =>
      rw [untilFailure]
      split_ifs
      · exact ⟨(buf :: bufs).flatten, rfl⟩
      · obtain ⟨rest, hrest⟩ := ih (k + 1)
        refine ⟨rest, ?_⟩
        rw [List.flatten_cons, hrest, offered, offered, List.flatMap_cons, List.append_assoc]

/-! ### One response -/

/-- Up to a call that fails, or all. -/
def CutAtFailure (ret : Nat → Int) (bufs complete : List Bytes) : Prop :=
  bufs = complete ∨ ∃ j, j < complete.length ∧ ret j < -1 ∧ bufs = complete.take (j + 1)

theorem CutAtFailure.cons {bufs complete : List Bytes} (buf : Bytes)
    (h : CutAtFailure (fun k => ret (k + 1)) bufs complete) :
    CutAtFailure ret (buf :: bufs) (buf :: complete) := by
  rcases h with rfl | ⟨j, hj, hret, rfl⟩
  · exact Or.inl rfl
  · exact Or.inr ⟨j + 1, Nat.succ_lt_succ hj, hret, rfl⟩

theorem textDoHelpLoop_buffers (fd : Int) (ret : Nat → Int) : ∀ (cmds : List CmdList) (k : Nat)
    {events : List Event},
    textDoHelpLoop { Env.succeeding with opWrite := fun _ => 0 } fd k cmds = some events →
      ∃ events', textDoHelpLoop { Env.succeeding with opWrite := ret } fd k cmds = some events'
        ∧ CutAtFailure (fun j => ret (k + j)) (events'.filterMap writtenBy)
          (events.filterMap writtenBy) := by
  intro cmds
  induction cmds with
  | nil =>
      intro k events h
      obtain rfl := Option.some.inj h
      exact ⟨[], rfl, Or.inl rfl⟩
  | cons entry rest ih =>
      intro k events h
      simp only [textDoHelpLoop, Option.bind_eq_bind, Option.bind_eq_some_iff] at h ⊢
      obtain ⟨line, hline, hrest⟩ := h
      rw [if_neg (by decide)] at hrest
      obtain ⟨more, hmore, heq⟩ := Option.bind_eq_some_iff.mp hrest
      obtain rfl := Option.some.inj heq
      by_cases hfail : ret k < -1
      · refine ⟨[.opWrite fd (entry.usage ++ ascii "\t\t" ++ entry.helpInfo ++ ascii "\n")],
          ⟨line, hline, if_pos hfail⟩, Or.inr ⟨0, ?_, hfail, ?_⟩⟩
        · simp [writtenBy]
        · simp [writtenBy]
      · obtain ⟨more', hmore', hcut⟩ := ih (k + 1) hmore
        refine ⟨.opWrite fd (entry.usage ++ ascii "\t\t" ++ entry.helpInfo ++ ascii "\n") :: more',
          ⟨line, hline, ?_⟩, ?_⟩
        · rw [if_neg hfail]
          exact Option.bind_eq_some_iff.mpr ⟨more', hmore', rfl⟩
        · apply CutAtFailure.cons
          simpa only [Nat.add_right_comm, Nat.add_assoc, Nat.add_comm 1] using hcut

theorem exists_buffers {r : Response} {complete : List Bytes} (h : r.complete = some complete)
    (ret : Nat → Int) : ∃ bufs, r.buffers ret = some bufs ∧ CutAtFailure ret bufs complete := by
  cases r with
  | response cmd reply len => exact ⟨complete, h, Or.inl rfl⟩
  | textResponse cmd reply len => exact ⟨complete, h, Or.inl rfl⟩
  | textResponseError cmd code => exact ⟨complete, h, Or.inl rfl⟩
  | help cmd cmds =>
      simp only [Response.complete, Response.buffers, textDoHelp, Option.bind_eq_bind,
        Option.map_bind, Option.bind_eq_some_iff] at h ⊢
      obtain ⟨events, hevents, hcomplete⟩ := h
      obtain rfl := Option.some.inj hcomplete
      obtain ⟨events', hevents', hcut⟩ := textDoHelpLoop_buffers cmd.fd ret cmds 0 hevents
      refine ⟨_, ⟨events', hevents', rfl⟩, ?_⟩
      simpa only [Nat.zero_add] using hcut

/-! ### The calls of `write` -/

theorem untilFailure_append (k : Nat) (bufs rest : List Bytes)
    (h : ∀ j < bufs.length, (kernel (k + j)).fails = false) :
    untilFailure kernel k (bufs ++ rest)
      = untilFailure kernel k bufs ++ untilFailure kernel (k + bufs.length) rest := by
  induction bufs generalizing k with
  | nil => rfl
  | cons buf bufs ih =>
      have hfirst : (kernel k).fails = false := h 0 (Nat.zero_lt_succ _)
      have hrest : ∀ j < bufs.length, (kernel (k + 1 + j)).fails = false := fun j hj => by
        have hnext := h (j + 1) (Nat.succ_lt_succ hj)
        rwa [show k + 1 + j = k + (j + 1) by omega]
      rw [List.cons_append, untilFailure, untilFailure, hfirst, ih (k + 1) hrest, List.length_cons,
        show k + (bufs.length + 1) = k + 1 + bufs.length by omega]
      rfl

theorem untilFailure_take (k j : Nat) (bufs : List Bytes) (hj : j < bufs.length)
    (hfail : (kernel (k + j)).fails = true) :
    untilFailure kernel k (bufs.take (j + 1)) = untilFailure kernel k bufs := by
  induction bufs generalizing k j with
  | nil => exact absurd hj (Nat.not_lt_zero j)
  | cons buf bufs ih =>
      rw [List.take_succ_cons, untilFailure, untilFailure]
      cases j with
      | zero =>
          rw [Nat.add_zero] at hfail
          rw [if_pos hfail, if_pos hfail]
      | succ j =>
          rw [ih (k + 1) j (Nat.lt_of_succ_lt_succ hj) (by rwa [Nat.add_right_comm, Nat.add_assoc])]

theorem opWrite_failed {s : Wire} (h : s.failed = true) (buf : Bytes) :
    (s.opWrite kernel buf).failed = true ∧ (s.opWrite kernel buf).log = s.log := by
  rw [Wire.opWrite, h, Bool.true_or, if_pos rfl]
  exact ⟨rfl, rfl⟩

theorem foldl_opWrite_failed {s : Wire} (h : s.failed = true) (bufs : List Bytes) :
    (bufs.foldl (Wire.opWrite kernel) s).failed = true
      ∧ (bufs.foldl (Wire.opWrite kernel) s).log = s.log := by
  induction bufs generalizing s with
  | nil => exact ⟨h, rfl⟩
  | cons buf bufs ih =>
      obtain ⟨hfailed, hlog⟩ := opWrite_failed h buf
      exact ⟨(ih hfailed).1, (ih hfailed).2.trans hlog⟩

theorem foldl_opWrite {s : Wire} (h : s.failed = false) (bufs : List Bytes) :
    (bufs.foldl (Wire.opWrite kernel) s).log = s.log ++ untilFailure kernel s.calls bufs
      ∧ ((bufs.foldl (Wire.opWrite kernel) s).failed = false →
        (bufs.foldl (Wire.opWrite kernel) s).calls = s.calls + bufs.length
          ∧ ∀ j < bufs.length, (kernel (s.calls + j)).fails = false)
      ∧ ((bufs.foldl (Wire.opWrite kernel) s).failed = true →
        ∃ j < bufs.length, (kernel (s.calls + j)).fails = true) := by
  induction bufs generalizing s with
  | nil => exact ⟨by simp [untilFailure], fun _ => ⟨rfl, by simp⟩, fun hfailed => by simp [h] at hfailed⟩
  | cons buf bufs ih =>
      rw [List.foldl_cons, untilFailure]
      cases hfirst : (kernel s.calls).fails with
      | true =>
          have hfailed : (s.opWrite kernel buf).failed = true := by
            simp [Wire.opWrite, hfirst]
          have hlog : (s.opWrite kernel buf).log = s.log := by
            simp [Wire.opWrite, hfirst]
          obtain ⟨hstill, hsame⟩ := foldl_opWrite_failed hfailed bufs
          refine ⟨?_, fun hnot => ?_, fun _ => ⟨0, Nat.zero_lt_succ _, hfirst⟩⟩
          · rw [hsame, hlog, if_pos rfl, List.append_nil]
          · rw [hstill] at hnot
            cases hnot
      | false =>
          have hnext : s.opWrite kernel buf = {
              calls := s.calls + 1
              failed := false
              log := s.log ++ [⟨buf, (kernel s.calls).room⟩] } := by
            simp [Wire.opWrite, h, hfirst]
          obtain ⟨hlog, hgood, hbad⟩ := ih (s := s.opWrite kernel buf) (by rw [hnext])
          rw [hnext] at hlog hgood hbad ⊢
          refine ⟨?_, fun hnot => ?_, fun hfailed => ?_⟩
          · rw [hlog, List.append_assoc]
            rfl
          · obtain ⟨hcalls, hall⟩ := hgood hnot
            refine ⟨hcalls.trans (Nat.add_right_comm s.calls 1 bufs.length), fun j hj => ?_⟩
            cases j with
            | zero => exact hfirst
            | succ j =>
                have hlater := hall j (Nat.lt_of_succ_lt_succ hj)
                rwa [Nat.add_right_comm, Nat.add_assoc] at hlater
          · obtain ⟨j, hj, hfail⟩ := hbad hfailed
            refine ⟨j + 1, Nat.succ_lt_succ hj, ?_⟩
            rwa [Nat.add_right_comm, Nat.add_assoc] at hfail

theorem sendAll_failed {rs : List Response} {css : List (List Bytes)}
    (hcomplete : rs.mapM Response.complete = some css) {s : Wire} (h : s.failed = true) :
    ∃ s', sendAll kernel s rs = some s' ∧ s'.log = s.log := by
  induction rs generalizing s css with
  | nil => exact ⟨s, rfl, rfl⟩
  | cons r rs ih =>
      simp only [List.mapM_cons, Option.bind_eq_bind, Option.bind_eq_some_iff] at hcomplete
      obtain ⟨complete, hr, rest, hrest, _⟩ := hcomplete
      obtain ⟨bufs, hbufs, _⟩ := exists_buffers hr fun k => (kernel (s.calls + k)).ret
      obtain ⟨hfailed, hlog⟩ := foldl_opWrite_failed h bufs
      obtain ⟨s', hs', hsame⟩ := ih hrest hfailed
      refine ⟨s', ?_, hsame.trans hlog⟩
      rw [sendAll, send, hbufs, Option.map_some, Option.bind_some, hs']

theorem sendAll_log {rs : List Response} {css : List (List Bytes)}
    (hcomplete : rs.mapM Response.complete = some css) {s : Wire} (h : s.failed = false) :
    ∃ s', sendAll kernel s rs = some s'
      ∧ s'.log = s.log ++ untilFailure kernel s.calls css.flatten := by
  induction rs generalizing s css with
  | nil =>
      obtain rfl := Option.some.inj hcomplete
      exact ⟨s, rfl, (List.append_nil _).symm⟩
  | cons r rs ih =>
      simp only [List.mapM_cons, Option.bind_eq_bind, Option.bind_eq_some_iff] at hcomplete
      obtain ⟨complete, hr, rest, hrest, hcss⟩ := hcomplete
      obtain rfl := Option.some.inj hcss
      obtain ⟨bufs, hbufs, hcut⟩ := exists_buffers hr fun k => (kernel (s.calls + k)).ret
      obtain ⟨hlog, hgood, hbad⟩ := foldl_opWrite h bufs
      rw [sendAll, send, hbufs, Option.map_some, Option.bind_some]
      cases hfailed : (bufs.foldl (Wire.opWrite kernel) s).failed with
      | false =>
          obtain ⟨hcalls, hall⟩ := hgood hfailed
          -- No call failed, so the sender did not stop early.
          obtain rfl : bufs = complete := by
            refine hcut.resolve_right ?_
            rintro ⟨j, hj, hret, rfl⟩
            have hnot := hall j (by rw [List.length_take]; omega)
            rw [IoOutcome.ret_lt_iff, hnot] at hret
            cases hret
          obtain ⟨s', hs', hrestlog⟩ := ih hrest hfailed
          refine ⟨s', hs', ?_⟩
          rw [hrestlog, hlog, hcalls, List.flatten_cons, untilFailure_append _ _ _ hall,
            List.append_assoc]
      | true =>
          obtain ⟨j, hj, hfail⟩ := hbad hfailed
          obtain ⟨s', hs', hsame⟩ := sendAll_failed hrest hfailed
          refine ⟨s', hs', ?_⟩
          have hwhole : ∀ more : List Bytes, j < more.length → more.take (j + 1) = bufs.take (j + 1) →
              untilFailure kernel s.calls more = untilFailure kernel s.calls bufs := by
            intro more hlt htake
            rw [← untilFailure_take s.calls j more hlt hfail, htake,
              untilFailure_take s.calls j bufs hj hfail]
          rw [hsame, hlog, List.flatten_cons]
          congr 1
          have hprefix : bufs <+: complete := by
            rcases hcut with rfl | ⟨i, _, _, rfl⟩
            · exact List.prefix_rfl
            · exact List.take_prefix _ _
          obtain ⟨left, rfl⟩ := hprefix
          refine (hwhole _ ?_ ?_).symm
          · rw [List.append_assoc, List.length_append]
            omega
          · rw [List.append_assoc, List.take_append_of_le_length hj]

/-- **Response streams.** For all responses that fit their buffers and every behaviour of `write`:
what the client has got up to the first failure is the beginning of the complete responses if and only
if no byte is taken after a call that took less than its buffer. -/
theorem streamIntact_iff {rs : List Response} {css : List (List Bytes)}
    (hcomplete : rs.mapM Response.complete = some css) (kernel : Nat → IoOutcome) :
    ∃ s, sendAll kernel Wire.start rs = some s
      ∧ (StreamIntact s css.flatten ↔ StopsShort (untilFailure kernel 0 css.flatten)) := by
  obtain ⟨s, hs, hlog⟩ : ∃ s, sendAll kernel Wire.start rs = some s
      ∧ s.log = Wire.start.log ++ untilFailure kernel Wire.start.calls css.flatten :=
    sendAll_log hcomplete rfl
  refine ⟨s, hs, ?_⟩
  have hlog' : s.log = untilFailure kernel 0 css.flatten := hlog
  obtain ⟨rest, hrest⟩ := exists_offered_untilFailure kernel 0 css.flatten
  have hiff := placed_prefix_iff 0 (untilFailure kernel 0 css.flatten) rest
  rw [← hrest, ← hlog'] at hiff
  rw [← hlog', ← hiff]
  exact ⟨fun hintact => hintact.places, fun hplaces => ⟨accepted_prefix_of_placed hplaces, hplaces⟩⟩

/-- Two error responses to the same client. -/
def twoErrors : List Response :=
  [.textResponseError StCmdFrame.zeroed (-1), .textResponseError StCmdFrame.zeroed (-22)]

def takesAll : Nat → IoOutcome := fun _ => .count 100 (by decide)

def takesThree : Nat → IoOutcome
  | 0 => .count 3 (by decide)
  | _ => .count 100 (by decide)

theorem twoErrors_complete : twoErrors.mapM Response.complete
    = some [[ascii "[0] ERROR [-1]\n"], [ascii "[0] ERROR [-22]\n"]] := by decide +kernel

theorem streamIntact_iff_twoErrors :
    ∃ s, sendAll takesAll Wire.start twoErrors = some s
      ∧ StreamIntact s [ascii "[0] ERROR [-1]\n", ascii "[0] ERROR [-22]\n"] := by
  obtain ⟨s, hs, hiff⟩ := streamIntact_iff twoErrors_complete takesAll
  exact ⟨s, hs, hiff.mpr (by decide +kernel)⟩

/-- The first response is cut after three bytes and the second follows. -/
theorem response_cut_short :
    ¬ ∀ (rs : List Response) (css : List (List Bytes)) (kernel : Nat → IoOutcome) (s : Wire),
      rs.mapM Response.complete = some css → sendAll kernel Wire.start rs = some s →
        StreamIntact s css.flatten := by
  intro h
  have hrun : (sendAll takesThree Wire.start twoErrors).map (fun s => accepted s.log)
      = some (ascii "[0][0] ERROR [-22]\n") := by decide +kernel
  obtain ⟨s, hs, haccepted⟩ := Option.map_eq_some_iff.mp hrun
  have hprefix := (h twoErrors _ takesThree s twoErrors_complete hs).bytes
  rw [haccepted] at hprefix
  exact absurd hprefix (by decide +kernel)

end InstructionParser
