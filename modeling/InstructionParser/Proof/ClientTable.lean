import InstructionParser.ClientTable
import InstructionParser.Runs
import Mathlib.Data.List.Nodup

/-!
# What the client table holds

A removal takes one entry out and counts down by one. It does the second whether or not it did the
first, so the table stays in step with the clients as long as each removal finds its entry.
-/

namespace InstructionParser

open CLib Runs

namespace Clilist

variable {t : Clilist} {live : List ClientMember} {clilist : Nat → ClientMember}

/-- The first `tailindex` entries are the list. -/
structure Holds (t : Clilist) (live : List ClientMember) : Prop where
  tailindex_eq : t.tailindex = live.length
  entry_eq : ∀ i, i < live.length → live[i]? = some (t.clilist i)

theorem holds_zeroed : zeroed.Holds [] := ⟨rfl, fun _ h => absurd h (Nat.not_lt_zero _)⟩

theorem Holds.add (h : t.Holds live) (hroom : live.length < maxConnect) (cli : ClientMember) :
    ∃ t', t.addClilist cli = some ((live.length : Int) + 1, t') ∧ t'.Holds (live ++ [cli]) := by
  have hbound : 0 ≤ t.tailindex ∧ t.tailindex < maxConnect := by
    rw [h.tailindex_eq]
    omega
  have hslot : t.tailindex.toNat = live.length := by rw [h.tailindex_eq, Int.toNat_natCast]
  refine ⟨⟨Function.update t.clilist live.length cli, (live.length : Int) + 1⟩, ?_, ?_, fun i hi => ?_⟩
  · rw [addClilist, if_pos hbound, hslot, h.tailindex_eq]
  · simp
  · rw [List.length_append, List.length_singleton] at hi
    rcases Nat.eq_or_lt_of_le (Nat.le_of_lt_succ hi) with rfl | hlt
    · simp
    · rw [List.getElem?_append_left hlt, h.entry_eq i hlt]
      exact congrArg some (Function.update_of_ne (Nat.ne_of_lt hlt) ..).symm

theorem shiftLoop_apply (clilist : Nat → ClientMember) (j k i : Nat) :
    shiftLoop clilist j k i = if j ≤ i ∧ i < j + k then clilist (i + 1) else clilist i := by
  induction k generalizing clilist j with
  | zero => rw [shiftLoop, if_neg (by omega)]
  | succ k ih =>
      rw [shiftLoop, ih]
      by_cases hrest : j + 1 ≤ i ∧ i < j + 1 + k
      · rw [if_pos hrest, if_pos (by omega), Function.update_of_ne (by omega)]
      · rw [if_neg hrest]
        rcases eq_or_ne i j with rfl | hne
        · rw [if_pos (by omega), Function.update_self]
        · rw [if_neg (by omega), Function.update_of_ne hne]

theorem scanLoop_of_absent {fd : Int} {n i k : Nat}
    (h : ∀ j, i ≤ j → j < i + k → (clilist j).fd ≠ fd) : scanLoop fd n clilist i k = clilist := by
  induction k generalizing i with
  | zero => rfl
  | succ k ih =>
      rw [scanLoop, if_neg (h i (Nat.le_refl i) (by omega))]
      exact ih fun j hj hlt => h j (by omega) (by omega)

theorem scanLoop_of_found {fd : Int} {n p i : Nat} (hp : (clilist p).fd = fd) (hi : i ≤ p)
    (hpn : p < n) (hother : ∀ j, i ≤ j → j < n → j ≠ p → (clilist j).fd ≠ fd) :
    scanLoop fd n clilist i (n - i) = shiftLoop clilist p (n - 1 - p) := by
  obtain ⟨k, hk⟩ : ∃ k, n - i = k + 1 := ⟨n - i - 1, by omega⟩
  induction hd : p - i generalizing i k with
  | zero =>
      obtain rfl : i = p := by omega
      rw [hk, scanLoop, if_pos hp]
      apply scanLoop_of_absent
      intro j hj hlt
      rw [shiftLoop_apply]
      split_ifs with hin
      · exact hother (j + 1) (by omega) (by omega) (by omega)
      · exact hother j (by omega) (by omega) (by omega)
  | succ d ih =>
      rw [hk, scanLoop, if_neg (hother i (Nat.le_refl i) (by omega) (by omega))]
      rw [show k = n - (i + 1) by omega]
      exact ih (by omega) (fun j hj => hother j (by omega)) (n - (i + 1) - 1) (by omega) (by omega)

theorem Holds.del {pre post : List ClientMember} {cli : ClientMember}
    (h : t.Holds (pre ++ cli :: post)) (hother : ∀ m ∈ pre ++ post, m.fd ≠ cli.fd) :
    (t.delClilist cli.fd).2.Holds (pre ++ post) := by
  have hentry := h.entry_eq
  simp only [List.length_append, List.length_cons] at hentry
  have hn : t.tailindex.toNat = pre.length + post.length + 1 := by
    rw [h.tailindex_eq, Int.toNat_natCast]
    simp
    omega
  have hfound : t.clilist pre.length = cli := by
    have := hentry pre.length (by omega)
    rw [List.getElem?_append_right (Nat.le_refl _)] at this
    simpa using this.symm
  have hbefore : ∀ i, i < pre.length → (pre ++ post)[i]? = some (t.clilist i) := fun i hi => by
    rw [← hentry i (by omega), List.getElem?_append_left hi, List.getElem?_append_left hi]
  have hbehind : ∀ i, pre.length ≤ i → i < pre.length + post.length →
      (pre ++ post)[i]? = some (t.clilist (i + 1)) := fun i hi hlt => by
    rw [← hentry (i + 1) (by omega), List.getElem?_append_right hi,
      List.getElem?_append_right (by omega), show i + 1 - pre.length = i - pre.length + 1 by omega,
      List.getElem?_cons_succ]
  have hscan : scanLoop cli.fd t.tailindex.toNat t.clilist 0 t.tailindex.toNat
      = shiftLoop t.clilist pre.length (t.tailindex.toNat - 1 - pre.length) := by
    refine scanLoop_of_found (i := 0) (by rw [hfound]) (Nat.zero_le _) (by omega) ?_
    intro j _ hj hne
    apply hother
    rcases Nat.lt_or_gt_of_ne hne with hlt | hgt
    · exact List.mem_of_getElem? (hbefore j hlt)
    · obtain ⟨i, rfl⟩ : ∃ i, j = i + 1 := ⟨j - 1, by omega⟩
      exact List.mem_of_getElem? (hbehind i (by omega) (by omega))
  refine ⟨?_, fun i hi => ?_⟩
  · simp only [delClilist, h.tailindex_eq, List.length_append, List.length_cons]
    omega
  · rw [List.length_append] at hi
    rw [delClilist, hscan]
    dsimp only
    rw [shiftLoop_apply, hn]
    split_ifs with hin
    · exact hbehind i hin.1 hi
    · exact hbefore i (by omega)

end Clilist

namespace Connections

variable {s s' : Connections} {fd : Int}

/-- The table holds, in the order of their acceptance and without duplicates, the accepted clients for
which no operation has failed. -/
structure Tracks (s : Connections) : Prop where
  holds : ∃ t, s.table = some t ∧ t.Holds s.live
  length_le : s.live.length ≤ maxConnect
  distinct : (s.live.map (·.fd)).Nodup

/-- The condition on the steps of a run: a client that is accepted finds room in the table, and an
operation that fails finds its client there. -/
def FindsEntry (s : Connections) : ConnectionAction → Prop
  | .accept _ => ∀ t ∈ s.table, t.tailindex < maxConnect
  | .opRead fd outcome => outcome.fails → s.inTable fd
  | .opWrite fd outcome => outcome.fails → s.inTable fd

theorem Tracks.start : Connections.start.Tracks where
  holds := ⟨_, rfl, Clilist.holds_zeroed⟩
  length_le := Nat.zero_le _
  distinct := List.nodup_nil

theorem Tracks.inTable_iff (h : s.Tracks) : s.inTable fd = true ↔ ∃ m ∈ s.live, m.fd = fd := by
  obtain ⟨t, htable, hholds⟩ := h.holds
  have hn : t.tailindex.toNat = s.live.length := by rw [hholds.tailindex_eq, Int.toNat_natCast]
  rw [inTable, htable, Option.any_some, List.any_eq_true, hn]
  constructor
  · rintro ⟨i, hi, heq⟩
    rw [List.mem_range] at hi
    exact ⟨_, List.mem_of_getElem? (hholds.entry_eq i hi), of_decide_eq_true heq⟩
  · rintro ⟨m, hm, rfl⟩
    obtain ⟨i, hi, rfl⟩ := List.mem_iff_getElem.mp hm
    refine ⟨i, List.mem_range.mpr hi, decide_eq_true ?_⟩
    have hentry := hholds.entry_eq i hi
    rw [List.getElem?_eq_getElem hi] at hentry
    rw [Option.some.inj hentry]

theorem Tracks.accept {cli : ClientMember} (h : s.Tracks) (hok : s.FindsEntry (.accept cli))
    (hstep : s.accept cli = some s') : s'.Tracks := by
  have habsent : ¬ s.inTable cli.fd = true := fun hin => by simp [Connections.accept, hin] at hstep
  rw [Connections.accept, if_neg habsent] at hstep
  obtain rfl := Option.some.inj hstep
  obtain ⟨t, htable, hholds⟩ := h.holds
  have hroom : s.live.length < maxConnect := by
    have hlt := hok t htable
    rw [hholds.tailindex_eq] at hlt
    exact_mod_cast hlt
  have hnew : ∀ m ∈ s.live, m.fd ≠ cli.fd := fun m hm heq =>
    habsent (h.inTable_iff.mpr ⟨m, hm, heq⟩)
  obtain ⟨t', hadd, hadded⟩ := hholds.add hroom cli
  simp only [if_pos hroom, htable, Option.bind_some, hadd, Option.map_some]
  refine ⟨⟨t', rfl, hadded⟩, ?_, ?_⟩
  · rw [List.length_append, List.length_singleton]
    omega
  · rw [List.map_append, List.map_singleton, List.nodup_append]
    refine ⟨h.distinct, List.nodup_singleton _, ?_⟩
    rintro _ hm _ hcli rfl
    obtain ⟨m, hm, heq⟩ := List.mem_map.mp hm
    exact hnew m hm (heq.trans (List.mem_singleton.mp hcli))

theorem Tracks.drop (h : s.Tracks) (hfound : s.inTable fd = true) : (s.drop fd).Tracks := by
  obtain ⟨t, htable, hholds⟩ := h.holds
  obtain ⟨cli, hcli, rfl⟩ := h.inTable_iff.mp hfound
  obtain ⟨pre, post, hsplit⟩ := List.append_of_mem hcli
  have hdistinct := h.distinct
  rw [hsplit] at hholds hdistinct
  have hother : ∀ m ∈ pre ++ post, m.fd ≠ cli.fd := by
    rw [List.map_append, List.map_cons, List.nodup_middle, List.nodup_cons] at hdistinct
    intro m hm heq
    apply hdistinct.1
    rw [← List.map_append, ← heq]
    exact List.mem_map_of_mem hm
  have hkept : s.live.filter (·.fd ≠ cli.fd) = pre ++ post := by
    have hall : (pre ++ post).filter (·.fd ≠ cli.fd) = pre ++ post :=
      List.filter_eq_self.mpr fun m hm => by simpa using hother m hm
    rw [hsplit, List.filter_append, List.filter_cons_of_neg (by simp), ← List.filter_append, hall]
  refine ⟨⟨(t.delClilist cli.fd).2, ?_, ?_⟩, ?_, ?_⟩
  · rw [Connections.drop, htable, Option.map_some]
  · rw [Connections.drop, hkept]
    exact hholds.del hother
  · exact (List.length_filter_le _ _).trans h.length_le
  · exact (List.filter_sublist.map _).nodup h.distinct

theorem Tracks.afterIo {outcome : IoOutcome} (h : s.Tracks)
    (hok : outcome.fails → s.inTable fd) : (s.afterIo fd outcome).2.Tracks := by
  cases outcome with
  | count n pos => exact h
  | again => exact h
  | zero => exact h.drop (hok rfl)
  | error => exact h.drop (hok rfl)

theorem Tracks.step (h : s.Tracks) {a : ConnectionAction} (hok : s.FindsEntry a)
    (hstep : s.step a = some s') : s'.Tracks := by
  cases a with
  | accept cli => exact h.accept hok hstep
  | opRead fd outcome =>
      rw [Connections.step] at hstep
      split_ifs at hstep
      obtain rfl := Option.some.inj hstep
      exact h.afterIo hok
  | opWrite fd outcome =>
      rw [Connections.step] at hstep
      split_ifs at hstep
      obtain rfl := Option.some.inj hstep
      exact h.afterIo hok

/-- **The client table.** In every run in which no client is accepted while the table is full and
every failing operation is the first on its client, the table holds the live clients. -/
theorem tracks_of_findsEntry {s : Connections} (h : Reaches step FindsEntry start s) : s.Tracks :=
  h.invariant (fun _ _ _ htracks hok hstep => htracks.step hok hstep) Tracks.start

instance : ∀ (s : Connections) (a : ConnectionAction), Decidable (s.FindsEntry a)
  | s, .accept _ => inferInstanceAs (Decidable (∀ t ∈ s.table, t.tailindex < maxConnect))
  | s, .opRead fd outcome => inferInstanceAs (Decidable (outcome.fails → s.inTable fd))
  | s, .opWrite fd outcome => inferInstanceAs (Decidable (outcome.fails → s.inTable fd))

def twoClients : List ConnectionAction :=
  [.accept ⟨7, ascii "10.0.0.7"⟩, .accept ⟨8, ascii "10.0.0.8"⟩, .opRead 7 .zero]

theorem tracks_of_findsEntry_twoClients :
    ∃ s, exec step start twoClients = some s ∧ s.live.map (·.fd) = [8] ∧ s.Tracks := by
  have hrun : (exec step start twoClients).map (fun s => s.live.map (·.fd)) = some [8] := by
    decide +kernel
  obtain ⟨s, hexec, hlive⟩ := Option.map_eq_some_iff.mp hrun
  have hallowed : Allowed step FindsEntry start twoClients := by decide +kernel
  exact ⟨s, hexec, hlive, tracks_of_findsEntry (reaches_of_allowed hallowed hexec)⟩

/-- A write to a client whose read has failed takes another client out of the table. -/
theorem live_client_dropped :
    ¬ ∀ s : Connections, Reaches step anyAction start s → s.Tracks := by
  intro h
  have hrun : (exec step start (twoClients ++ [.opWrite 7 .error])).map
      (fun s => (s.live.length, s.table.map (·.tailindex))) = some (1, some 0) := by decide +kernel
  obtain ⟨s, hexec, hlog⟩ := Option.map_eq_some_iff.mp hrun
  obtain ⟨t, htable, hholds⟩ := (h s (reaches_of_exec hexec)).holds
  have htail := hholds.tailindex_eq
  simp only [htable, Option.map_some, Prod.mk.injEq, Option.some.injEq] at hlog
  omega

end Connections

/-! ### Descriptors -/

namespace Descriptors

variable {s s' : Descriptors}

/-- The open descriptors are those of the clients that have not failed; and `start_server` stays in its
loop when the process may open one for each client connected at one time. -/
structure Released (s : Descriptors) : Prop where
  opened_eq : s.opened = s.clients
  serving : s.peak ≤ s.limit → s.serving = true

/-- The condition on the steps of a run: no operation fails, and a client that is accepted finds room
in the table. -/
def NoFailure (s : Descriptors) : ConnectionAction → Prop
  | .accept _ => ∀ t ∈ s.connections.table, t.tailindex < maxConnect
  | .opRead _ outcome => outcome.fails = false
  | .opWrite _ outcome => outcome.fails = false

theorem Released.start (limit : Nat) : (Descriptors.start limit).Released := ⟨rfl, fun _ => rfl⟩

theorem Released.accept {cli : ClientMember} (h : s.Released) (hstep : s.accept cli = some s') :
    s'.Released := by
  rw [Descriptors.accept] at hstep
  split_ifs at hstep with hserving hroom hused
  · obtain ⟨connections, _, rfl⟩ := Option.map_eq_some_iff.mp hstep
    exact ⟨congrArg (· ++ [cli.fd]) h.opened_eq, fun _ => hserving⟩
  · obtain rfl := Option.some.inj hstep
    refine ⟨h.opened_eq, fun hpeak => absurd hroom (not_not.mpr ?_)⟩
    have hmax : s.clients.length + 1 ≤ s.arrival.peak := Nat.le_max_right _ _
    have hlimit : s.arrival.peak ≤ s.limit := hpeak
    rw [h.opened_eq]
    omega

theorem Released.afterIo {fd : Int} {outcome : IoOutcome} {connections : Connections}
    (h : s.Released) (hok : outcome.fails = false) :
    (s.afterIo fd outcome connections).Released := by
  rw [Descriptors.afterIo, hok, if_neg Bool.false_ne_true]
  exact ⟨h.opened_eq, h.serving⟩

theorem Released.step (h : s.Released) {a : ConnectionAction} (hok : s.NoFailure a)
    (hstep : s.step a = some s') : s'.Released := by
  cases a with
  | accept cli => exact h.accept hstep
  | opRead fd outcome =>
      obtain ⟨connections, _, rfl⟩ := Option.map_eq_some_iff.mp hstep
      exact h.afterIo hok
  | opWrite fd outcome =>
      obtain ⟨connections, _, rfl⟩ := Option.map_eq_some_iff.mp hstep
      exact h.afterIo hok

/-- **Descriptors.** In every run in which no client disconnects and no operation fails, the open
descriptors are those of the clients. -/
theorem released_of_noFailure {limit : Nat} {s : Descriptors}
    (h : Reaches step NoFailure (start limit) s) : s.Released :=
  h.invariant (fun _ _ _ hreleased hok hstep => hreleased.step hok hstep) (Released.start limit)

instance : ∀ (s : Descriptors) (a : ConnectionAction), Decidable (s.NoFailure a)
  | s, .accept _ => inferInstanceAs (Decidable (∀ t ∈ s.connections.table, t.tailindex < maxConnect))
  | _, .opRead _ outcome => inferInstanceAs (Decidable (outcome.fails = false))
  | _, .opWrite _ outcome => inferInstanceAs (Decidable (outcome.fails = false))

def oneWrite : List ConnectionAction :=
  [.accept ⟨7, ascii "10.0.0.7"⟩, .opWrite 7 .again, .accept ⟨8, ascii "10.0.0.8"⟩]

theorem released_of_noFailure_oneWrite :
    ∃ s, exec step (start 2) oneWrite = some s ∧ s.opened = [7, 8] ∧ s.Released := by
  have hrun : (exec step (start 2) oneWrite).map (·.opened) = some [7, 8] := by decide +kernel
  obtain ⟨s, hexec, hopened⟩ := Option.map_eq_some_iff.mp hrun
  have hallowed : Allowed step NoFailure (start 2) oneWrite := by decide +kernel
  exact ⟨s, hexec, hopened, released_of_noFailure (reaches_of_allowed hallowed hexec)⟩

/-- With room for two clients at one time, the third of three that come one after the other ends the
server. -/
theorem server_ends :
    ¬ ∀ (limit : Nat) (s : Descriptors), Reaches step anyAction (start limit) s → s.Released := by
  intro h
  have hrun : (exec step (start 2) [.accept ⟨7, []⟩, .opRead 7 .zero, .accept ⟨8, []⟩, .opRead 8 .zero,
      .accept ⟨9, []⟩]).map (fun s => (s.peak, s.limit, s.serving)) = some (1, 2, false) := by
    decide +kernel
  obtain ⟨s, hexec, hlog⟩ := Option.map_eq_some_iff.mp hrun
  have hserving := (h 2 s (reaches_of_exec hexec)).serving
  simp only [Prod.mk.injEq] at hlog
  rw [hlog.1, hlog.2.1, hlog.2.2] at hserving
  exact absurd (hserving (by decide)) Bool.false_ne_true

end Descriptors

end InstructionParser
