import InstructionParser.Proof.ThreadPool

/-!
# Starting the thread pool

`threadpool_create` counts the threads without the mutex while they run already. It returns the pool
with all threads, or the null pointer after every thread that was started has ended.
-/

namespace InstructionParser

open Runs

namespace PoolSystem

variable {α : Type} {s s' : PoolSystem α} {a : PoolAction α} {args : PoolArgs}

def isCreating : PoolCaller α → Bool
  | .creating _ => true
  | .counting _ => true
  | _ => false

def isCounting : PoolCaller α → Bool
  | .counting _ => true
  | _ => false

/-- Where the first caller can be as long as `threadpool_create` has not returned the pool. -/
def CreatorAt (args : PoolArgs) (s : PoolSystem α) : PoolCaller α → Prop
  | .creating n => n = args.threadCount ∧ s.pool.threadCount < n ∧ s.pool.shutdown = .none
  | .counting n => n = args.threadCount ∧ s.pool.threadCount < n ∧ s.pool.shutdown = .none
  | .destroyLocking graceful => graceful = false ∧ s.pool.shutdown = .none
  | .destroying graceful => graceful = false ∧ s.pool.shutdown = .none
  | .joining _ => s.pool.shutdown = .immediate
  | .freeing => s.pool.shutdown = .immediate
  | .relocking => s.pool.shutdown = .immediate
  | .outside => s.freed = true
  | .addLocking _ => False
  | .adding _ => False

/-- Who acts before the pool is returned, and who after. -/
structure Creation (args : PoolArgs) (s : PoolSystem α) : Prop where
  creator : s.published = false → ∀ k, s.callers[0]? = some k → CreatorAt args s k
  alone : s.published = false → ∀ c k, s.callers[c]? = some k → c ≠ 0 → k = .outside
  settled : s.published = true → ∀ k ∈ s.callers, isCreating k = false
  threadCount_eq : s.published = true → s.pool.threadCount = args.threadCount
  graceful_published : s.pool.shutdown = .graceful → s.published = true
  queueSize_eq : s.pool.queueSize = args.queueSize
  nothing : s.published = false → s.log.accepted = []

theorem creation_start (args : PoolArgs) (queue : Nat → α) (others : Nat) :
    Creation args (start args queue others) where
  creator _ k hk := by
    obtain rfl := Option.some.inj hk
    exact ⟨rfl, args.threadCount_pos, rfl⟩
  alone _ c k hk hc := by
    obtain ⟨c, rfl⟩ := Nat.exists_eq_succ_of_ne_zero hc
    exact List.eq_of_mem_replicate (List.mem_of_getElem? hk)
  settled h := by cases h
  threadCount_eq h := by cases h
  graceful_published h := by cases h
  queueSize_eq := rfl
  nothing _ := rfl

/-- A caller that is not outside is the first one as long as the pool is not returned. -/
theorem Creation.first (h : Creation args s) {c : Nat} {k : PoolCaller α}
    (hnew : s.published = false) (hc : s.callers[c]? = some k) (hk : k ≠ .outside) :
    c = 0 ∧ CreatorAt args s k := by
  by_cases hzero : c = 0
  · subst hzero
    exact ⟨rfl, h.creator hnew k hc⟩
  · exact absurd (h.alone hnew c k hc hzero) hk

/-- A caller that creates threads is the first one. -/
theorem Creation.creating (h : Creation args s) {c : Nat} {k : PoolCaller α}
    (hc : s.callers[c]? = some k) (hk : isCreating k = true) :
    s.published = false ∧ c = 0 ∧ CreatorAt args s k := by
  cases hnew : s.published with
  | true =>
      rw [h.settled hnew k (List.mem_of_getElem? hc)] at hk
      cases hk
  | false =>
      refine ⟨rfl, h.first hnew hc fun hout => ?_⟩
      rw [hout] at hk
      cases hk

/-- A caller moves on. -/
theorem Creation.setCaller (h : Creation args s) {c : Nat} {old k : PoolCaller α}
    (hc : s.callers[c]? = some old) (hold : s.published = false → old ≠ .outside)
    (hk : s.published = false → CreatorAt args s k)
    (hcreating : s.published = true → isCreating k = false) :
    Creation args (s.setCaller c k) where
  creator hnew k' hk' := by
    obtain ⟨rfl, _⟩ := h.first hnew hc (hold hnew)
    rcases Census.getElem?_set_cases hk' with ⟨_, rfl⟩ | ⟨hne, _⟩
    · exact hk hnew
    · exact absurd rfl hne
  alone hnew d k' hd hne := by
    obtain ⟨rfl, _⟩ := h.first hnew hc (hold hnew)
    rcases Census.getElem?_set_cases hd with ⟨heq, _⟩ | ⟨_, hd⟩
    · exact absurd heq hne
    · exact h.alone hnew d k' hd hne
  settled hdone k' hk' := by
    rcases Census.mem_set_cases hk' with rfl | hmem
    · exact hcreating hdone
    · exact h.settled hdone k' hmem
  threadCount_eq := h.threadCount_eq
  graceful_published := h.graceful_published
  queueSize_eq := h.queueSize_eq
  nothing := h.nothing

/-- What matters of the pool. -/
structure SameCreation (s s' : PoolSystem α) : Prop where
  callers : s'.callers = s.callers
  published : s'.published = s.published
  threadCount : s'.pool.threadCount = s.pool.threadCount
  queueSize : s'.pool.queueSize = s.pool.queueSize
  shutdown : s'.pool.shutdown = s.pool.shutdown
  freed : s'.freed = s.freed
  nothing : s.published = false → s'.log.accepted = s.log.accepted

theorem CreatorAt.congr (h : SameCreation s s') {k : PoolCaller α} (hk : CreatorAt args s k) :
    CreatorAt args s' k := by
  have hsame : CreatorAt args s' k = CreatorAt args s k := by
    cases k <;> simp only [CreatorAt, h.threadCount, h.shutdown, h.freed]
  exact hsame ▸ hk

theorem Creation.congr (h : Creation args s) (hsame : SameCreation s s') : Creation args s' where
  creator hnew k hk := (h.creator (hsame.published ▸ hnew) k (hsame.callers ▸ hk)).congr hsame
  alone hnew c k hc := h.alone (hsame.published ▸ hnew) c k (hsame.callers ▸ hc)
  settled hdone k hk := h.settled (hsame.published ▸ hdone) k (hsame.callers ▸ hk)
  threadCount_eq hdone := hsame.threadCount.trans (h.threadCount_eq (hsame.published ▸ hdone))
  graceful_published hmode :=
    hsame.published.trans (h.graceful_published (hsame.shutdown ▸ hmode))
  queueSize_eq := hsame.queueSize.trans h.queueSize_eq
  nothing hnew := by
    have hold : s.published = false := hsame.published ▸ hnew
    rw [hsame.nothing hold, h.nothing hold]

theorem Creation.published_of_adding (h : Creation args s) {c : Nat} {task : α}
    (hc : s.callers[c]? = some (.adding task)) : s.published = true := by
  cases hnew : s.published with
  | true => rfl
  | false => exact (h.first hnew hc (by simp)).2.elim

theorem sameCreation_accept (hpool : s.published = true) (task : α) :
    SameCreation s (s.accept task) :=
  ⟨rfl, rfl, s.pool.add_threadCount task, s.pool.add_queueSize task, s.pool.add_shutdown task, rfl,
    fun hnew => absurd hnew (by simp [hpool])⟩

theorem Creation.accept (h : Creation args s) {c : Nat} {task : α}
    (hc : s.callers[c]? = some (.adding task)) :
    Creation args ((s.accept task).setCaller c .outside) := by
  have hpool := h.published_of_adding hc
  have hnot : (s.accept task).published ≠ false := by simp [PoolSystem.accept, hpool]
  exact (h.congr (sameCreation_accept hpool task)).setCaller hc (absurd · hnot) (absurd · hnot)
    fun _ => rfl

/-- A thread is counted: the loop goes on, or the pool is returned. -/
theorem Creation.count (h : Creation args s) {c n : Nat} (hc : s.callers[c]? = some (.counting n))
    (hmore : s.pool.threadCount + 1 < n) :
    Creation args ({ s with pool := { s.pool with
      threadCount := s.pool.threadCount + 1
      started := s.pool.started + 1 } }.setCaller c (.creating n)) := by
  obtain ⟨hnew, rfl, hn, _, hopen⟩ := h.creating hc rfl
  refine ⟨fun _ k hk => ?_, fun _ d k hd hne => ?_, fun hdone => ?_, fun hdone => ?_,
    h.graceful_published, h.queueSize_eq, h.nothing⟩
  · rcases Census.getElem?_set_cases hk with ⟨_, rfl⟩ | ⟨hne, _⟩
    · exact ⟨hn, hmore, hopen⟩
    · exact absurd rfl hne
  · rcases Census.getElem?_set_cases hd with ⟨heq, _⟩ | ⟨_, hd⟩
    · exact absurd heq hne
    · exact h.alone hnew d k hd hne
  · exact absurd (hnew.symm.trans hdone) Bool.false_ne_true
  · exact absurd (hnew.symm.trans hdone) Bool.false_ne_true

theorem Creation.publish (h : Creation args s) {c n : Nat} (hc : s.callers[c]? = some (.counting n))
    (hlast : n ≤ s.pool.threadCount + 1) :
    Creation args ({ s with
      pool := { s.pool with
        threadCount := s.pool.threadCount + 1
        started := s.pool.started + 1 }
      published := true }.setCaller c .outside) := by
  obtain ⟨hnew, rfl, hn, hlt, _⟩ := h.creating hc rfl
  refine ⟨fun hno => ?_, fun hno => ?_, fun _ k hk => ?_, fun _ => ?_, fun _ => rfl, h.queueSize_eq,
    fun hno => ?_⟩
  · cases hno
  · cases hno
  · obtain ⟨d, hd⟩ := List.mem_iff_getElem?.mp hk
    rcases Census.getElem?_set_cases hd with ⟨_, rfl⟩ | ⟨hne, hd⟩
    · rfl
    · rw [h.alone hnew d k hd hne]
      rfl
  · exact hn ▸ Nat.le_antisymm hlt hlast
  · cases hno

theorem Creation.shutDown (h : Creation args s) {c : Nat} {graceful : Bool}
    (hc : s.callers[c]? = some (.destroying graceful)) :
    Creation args ({ s with
      pool := { s.pool with shutdown := if graceful then .graceful else .immediate }
      threads := s.threads.map PoolThread.wake }.setCaller c (.joining 0)).unlock := by
  have hfirst := fun hnew => h.first hnew hc (by simp)
  refine ⟨fun hnew k hk => ?_, fun hnew d k hd hne => ?_, fun hdone k hk => ?_, h.threadCount_eq,
    fun hmode => ?_, h.queueSize_eq, h.nothing⟩
  · obtain ⟨rfl, rfl, _⟩ := hfirst hnew
    rcases Census.getElem?_set_cases hk with ⟨_, rfl⟩ | ⟨hne, _⟩
    · rfl
    · exact absurd rfl hne
  · obtain ⟨rfl, _⟩ := hfirst hnew
    rcases Census.getElem?_set_cases hd with ⟨heq, _⟩ | ⟨_, hd⟩
    · exact absurd heq hne
    · exact h.alone hnew d k hd hne
  · rcases Census.mem_set_cases hk with rfl | hmem
    · rfl
    · exact h.settled hdone k hmem
  · cases hpool : s.published with
    | true => rfl
    | false =>
        obtain ⟨_, rfl, _⟩ := hfirst hpool
        cases hmode

theorem Creation.freePool (h : Creation args s) {c : Nat} (hc : s.callers[c]? = some .relocking) :
    Creation args ({ s with freed := true }.setCaller c .outside) := by
  refine ⟨fun hnew k hk => ?_, fun hnew d k hd hne => ?_, fun hdone k hk => ?_, h.threadCount_eq,
    h.graceful_published, h.queueSize_eq, h.nothing⟩
  · obtain ⟨rfl, _⟩ := h.first hnew hc (by simp)
    rcases Census.getElem?_set_cases hk with ⟨_, rfl⟩ | ⟨hne, _⟩
    · rfl
    · exact absurd rfl hne
  · obtain ⟨rfl, _⟩ := h.first hnew hc (by simp)
    rcases Census.getElem?_set_cases hd with ⟨heq, _⟩ | ⟨_, hd⟩
    · exact absurd heq hne
    · exact h.alone hnew d k hd hne
  · rcases Census.mem_set_cases hk with rfl | hmem
    · rfl
    · exact h.settled hdone k hmem

theorem Creation.lockCaller (h : Creation args s) {c : Nat} {k k' : PoolCaller α}
    (hc : s.callers[c]? = some k) (hk : k.locked = some k') :
    Creation args (s.setCaller c k') := by
  cases k with
  | addLocking task =>
      obtain rfl := Option.some.inj hk
      exact h.setCaller hc (by simp) (fun hnew => (h.first hnew hc (by simp)).2) fun _ => rfl
  | destroyLocking graceful =>
      obtain rfl := Option.some.inj hk
      exact h.setCaller hc (by simp) (fun hnew => (h.first hnew hc (by simp)).2) fun _ => rfl
  | _ => cases hk

theorem Creation.stepped (h : Creation args s)
    (hdone : .freeing ∈ s.callers → s.pool.started = 0) (hstep : Stepped s a s') :
    Creation args s' := by
  cases hstep with
  | created hc =>
      obtain ⟨hnew, _, hat⟩ := h.creating hc rfl
      refine (h.setCaller (k := .counting _) hc (by simp) (fun _ => hat) fun hpool => ?_).congr
        ⟨rfl, rfl, rfl, rfl, rfl, rfl, fun _ => rfl⟩
      exact absurd (hnew.symm.trans hpool) Bool.false_ne_true
  | notCreated hc =>
      obtain ⟨_, _, hat⟩ := h.creating hc rfl
      exact h.setCaller hc (by simp) (fun _ => ⟨rfl, hat.2.2⟩) fun _ => rfl
  | counted hc hmore => exact h.count hc hmore
  | published hc hlast => exact h.publish hc hlast
  | calledAdd hc hpool | calledDestroy hc hpool =>
      have hnot : s.published ≠ false := by simp [hpool]
      exact h.setCaller hc (absurd · hnot) (absurd · hnot) fun _ => rfl
  | callerLocked _ _ hc hk =>
      exact (h.lockCaller hc hk).congr ⟨rfl, rfl, rfl, rfl, rfl, rfl, fun _ => rfl⟩
  | addedWaking hc | added hc =>
      exact (h.accept hc).congr ⟨rfl, rfl, rfl, rfl, rfl, rfl, fun _ => rfl⟩
  | refused hc =>
      have hnot : s.published ≠ false := by simp [h.published_of_adding hc]
      refine (h.setCaller (k := .outside) hc (by simp) (absurd · hnot) fun _ => rfl).congr ?_
      exact ⟨rfl, rfl, rfl, rfl, rfl, rfl, fun _ => rfl⟩
  | shutDown hc => exact h.shutDown hc
  | abandoned hc hshut =>
      refine h.setCaller hc (by simp) (fun hnew => ?_) fun _ => rfl
      exact absurd (h.first hnew hc (by simp)).2.2 hshut
  | joined hc =>
      exact h.setCaller hc (by simp) (fun hnew => (h.first hnew hc (by simp)).2) fun _ => rfl
  | allJoined hc =>
      exact h.setCaller hc (by simp) (fun hnew => (h.first hnew hc (by simp)).2) fun _ => rfl
  | keptPool hc hleft => exact absurd (hdone (List.mem_of_getElem? hc)) (Nat.ne_of_gt hleft)
  | freedArrays hc =>
      refine (h.setCaller (k := .relocking) hc (by simp)
        (fun hnew => (h.first hnew hc (by simp)).2) fun _ => rfl).congr ?_
      exact ⟨rfl, rfl, rfl, rfl, rfl, rfl, fun _ => rfl⟩
  | freedPool hc => exact h.freePool hc
  | threadLocked | waits | exits | takes | spurious | finished =>
      exact h.congr ⟨rfl, rfl, rfl, rfl, rfl, rfl, fun _ => rfl⟩

end PoolSystem

end InstructionParser
