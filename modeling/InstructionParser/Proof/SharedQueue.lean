import InstructionParser.Proof.Queue
import InstructionParser.SharedQueue
import InstructionParser.CmdFrame
import InstructionParser.Runs
import Mathlib.Data.Fintype.Basic

/-!
# Pushing and popping without a lock

`push_element` publishes the new tail before it writes the slot and looks the tail up again for the
write, and its full test is not repeated when the tail advances. Where no two pushes overlap between
advance and write, no advance overruns the front, and no slot is read before it is written, the pops
return the pushed commands in the order of their tail positions and lose none.
-/

namespace InstructionParser

open Runs

def Producer.isAdvanced {α : Type} : Producer α → Bool
  | advanced _ => true
  | _ => false

namespace SharedQueue

variable {ι α : Type}

/-- Some push has advanced the tail and not yet written its slot. -/
def Writing (s : SharedQueue ι α) : Prop := ∃ p push, s.producers p = .advanced push

instance [Fintype ι] (s : SharedQueue ι α) : Decidable s.Writing :=
  decidable_of_iff (∃ p, (s.producers p).isAdvanced = true) (exists_congr fun p => by
    cases s.producers p <;> simp [Producer.isAdvanced])

def NoOverlap (s : SharedQueue ι α) : QueueAction ι α → Prop
  | .advanceTail _ => ¬ s.Writing ∧ s.queue.isQueueFull = false
  | .readSlot => s.queue.front = s.queue.tail → ¬ s.Writing
  | _ => True

instance [Fintype ι] (s : SharedQueue ι α) : (a : QueueAction ι α) → Decidable (s.NoOverlap a)
  | .advanceTail _ => inferInstanceAs (Decidable (¬ s.Writing ∧ s.queue.isQueueFull = false))
  | .readSlot => inferInstanceAs (Decidable (s.queue.front = s.queue.tail → ¬ s.Writing))
  | .fullTest .. | .writeSlot _ | .emptyTest | .advanceFront => inferInstanceAs (Decidable True)

/-- What the threads rely on. The values popped are those of the pushes in the order in which they
took their tail positions, each position is taken once and by a push that passed its full test, and
what passed its full test is popped by the time the queue is found empty, unless its thread has yet
to advance the tail. -/
structure Faithful (s : SharedQueue ι α) : Prop where
  popped : s.log.popped <+: s.log.taken.map Push.value
  drained : s.consumer = .outside → s.queue.isQueueEmpty = true →
    s.log.popped = s.log.taken.map Push.value
  ids : (s.log.accepted.map Push.id).Nodup
  once : s.log.taken.Nodup
  taken : ∀ push ∈ s.log.taken, push ∈ s.log.accepted
  accepted : ∀ push ∈ s.log.accepted, push ∈ s.log.taken ∨ ∃ p, s.producers p = .tested push
  returned : ∀ push ∈ s.log.returned, push ∈ s.log.taken

variable {s s' : SharedQueue ι α}

/-! ### What a step can do -/

theorem emptyTest_cases (h : s.emptyTest = some s') :
    s.consumer = .outside ∧ (s' = s ∨ s.queue.isQueueEmpty = false
      ∧ s' = { s with consumer := .tested }) := by
  unfold emptyTest at h
  split at h
  case h_2 => simp at h
  case h_1 hconsumer =>
    refine ⟨hconsumer, ?_⟩
    split_ifs at h with hempty
    · exact Or.inl (Option.some.inj h).symm
    · exact Or.inr ⟨by simpa using hempty, (Option.some.inj h).symm⟩

theorem advanceFront_cases (h : s.advanceFront = some s') :
    s.consumer = .tested
      ∧ s' = { s with queue := s.queue.advanceFront, consumer := .advanced } := by
  unfold advanceFront at h
  split at h
  · exact ⟨‹_›, (Option.some.inj h).symm⟩
  · simp at h

theorem readSlot_cases (h : s.readSlot = some s') : s.consumer = .advanced ∧ s' = s.popped := by
  unfold readSlot at h
  split at h
  · exact ⟨‹_›, (Option.some.inj h).symm⟩
  · simp at h

section Producers

variable [DecidableEq ι] {p : ι}

theorem update_eq_iff {producers : ι → Producer α} {producer x : Producer α} (p' : ι) :
    Function.update producers p producer p' = x ↔
      p' = p ∧ producer = x ∨ p' ≠ p ∧ producers p' = x := by
  by_cases hp : p' = p <;> simp [hp]

theorem fullTest_cases {value : α} (h : s.fullTest p value = some s') :
    s' = s ∨ s.producers p = .outside
      ∧ s' = s.accept p { id := s.log.accepted.length, value } := by
  unfold fullTest at h
  split at h
  case h_2 => simp at h
  case h_1 hproducer =>
    split_ifs at h
    · exact Or.inl (Option.some.inj h).symm
    · exact Or.inr ⟨hproducer, (Option.some.inj h).symm⟩

theorem advanceTail_cases (h : s.advanceTail p = some s') :
    ∃ push, s.producers p = .tested push ∧ s' = s.take p push := by
  unfold advanceTail at h
  split at h
  · exact ⟨_, ‹_›, (Option.some.inj h).symm⟩
  · simp at h

theorem writeSlot_cases (h : s.writeSlot p = some s') :
    ∃ push, s.producers p = .advanced push ∧ s' = s.finish p push := by
  unfold writeSlot at h
  split at h
  · exact ⟨_, ‹_›, (Option.some.inj h).symm⟩
  · simp at h

end Producers

/-! ### The ring -/

def fronts (s : SharedQueue ι α) : Nat :=
  s.log.popped.length + if s.consumer = .advanced then 1 else 0

/-- The slots from the next one to be read up to the last one taken hold the pushed values; the last
one does so once it is written. -/
structure Ring (s : SharedQueue ι α) : Prop where
  front_eq : s.queue.front = s.fronts % queueSize
  tail_eq : s.queue.tail = s.log.taken.length % queueSize
  fronts_le : s.fronts ≤ s.log.taken.length
  room : s.log.taken.length < s.fronts + queueSize
  tested : s.consumer = .tested → s.fronts < s.log.taken.length
  popped : s.log.popped <+: s.log.taken.map Push.value
  slots : ∀ j push, s.log.popped.length ≤ j → s.log.taken[j]? = some push →
    (j + 1 = s.log.taken.length → ¬ s.Writing) →
    s.queue.data ((j + 1) % queueSize) = push.value
  writing : ∀ p push, s.producers p = .advanced push →
    ∃ before, s.log.taken = before ++ [push]
  alone : ∀ p p' push push', s.producers p = .advanced push → s.producers p' = .advanced push' →
    p = p'

theorem fronts_le_popped (s : SharedQueue ι α) : s.fronts ≤ s.log.popped.length + 1 := by
  unfold fronts
  split_ifs <;> omega

theorem slot_ne {i j : Nat} (hlt : i < j) (hturn : j < i + queueSize) :
    i % queueSize ≠ j % queueSize := by
  simp only [queueSize] at *
  omega

theorem Ring.start (zero : α) : (start zero : SharedQueue ι α).Ring where
  front_eq := rfl
  tail_eq := rfl
  fronts_le := Nat.le_refl 0
  room := Nat.zero_lt_succ 99
  tested h := by simp [SharedQueue.start] at h
  popped := List.prefix_rfl
  slots j push _ h := by simp [SharedQueue.start] at h
  writing p push h := by simp [SharedQueue.start] at h
  alone p p' push push' h := by simp [SharedQueue.start] at h

theorem Ring.of_same (h : s.Ring) (hqueue : s'.queue = s.queue) (hconsumer : s'.consumer = s.consumer)
    (htaken : s'.log.taken = s.log.taken) (hpopped : s'.log.popped = s.log.popped)
    (hwriting : ∀ p push, s'.producers p = .advanced push ↔ s.producers p = .advanced push) :
    s'.Ring := by
  have hfronts : s'.fronts = s.fronts := by rw [fronts, fronts, hpopped, hconsumer]
  have hboth : s'.Writing ↔ s.Writing :=
    exists_congr fun p => exists_congr fun push => hwriting p push
  constructor
  · rw [hqueue, hfronts, h.front_eq]
  · rw [hqueue, htaken, h.tail_eq]
  · rw [hfronts, htaken]
    exact h.fronts_le
  · rw [hfronts, htaken]
    exact h.room
  · rw [hconsumer, hfronts, htaken]
    exact h.tested
  · rw [hpopped, htaken]
    exact h.popped
  · rw [hpopped, htaken, hqueue, hboth]
    exact h.slots
  · intro p push hp
    rw [htaken]
    exact h.writing p push ((hwriting p push).mp hp)
  · intro p p' push push' hp hp'
    exact h.alone p p' push push' ((hwriting p push).mp hp) ((hwriting p' push').mp hp')

theorem Ring.tested_of_ne (h : s.Ring) (hconsumer : s.consumer = .outside)
    (hempty : s.queue.isQueueEmpty = false) : Ring { s with consumer := .tested } := by
  have hne : s.queue.front ≠ s.queue.tail := by simpa [CircleQueue.isQueueEmpty] using hempty
  have hlt : s.fronts < s.log.taken.length := by
    apply Nat.lt_of_le_of_ne h.fronts_le
    intro heq
    exact hne (by rw [h.front_eq, h.tail_eq, heq])
  have hsame : fronts { s with consumer := .tested } = s.fronts := by simp [fronts, hconsumer]
  exact ⟨hsame ▸ h.front_eq, h.tail_eq, hsame ▸ h.fronts_le, hsame ▸ h.room, fun _ => hsame ▸ hlt,
    h.popped, h.slots, h.writing, h.alone⟩

theorem Ring.emptyTest (h : s.Ring) (hstep : s.emptyTest = some s') : s'.Ring := by
  obtain ⟨hconsumer, rfl | ⟨hempty, rfl⟩⟩ := emptyTest_cases hstep
  · exact h
  · exact h.tested_of_ne hconsumer hempty

theorem Ring.advanceFront (h : s.Ring) (hstep : s.advanceFront = some s') : s'.Ring := by
  obtain ⟨hconsumer, rfl⟩ := advanceFront_cases hstep
  have hlt := h.tested hconsumer
  have hroom := h.room
  have hnext : fronts { s with queue := s.queue.advanceFront, consumer := .advanced }
      = s.fronts + 1 := by simp [fronts, hconsumer]
  refine ⟨?_, h.tail_eq, ?_, ?_, fun htested => by simp at htested, h.popped, h.slots, h.writing,
    h.alone⟩
  · rw [hnext, CircleQueue.advanceFront, h.front_eq]
    simp only [queueSize]
    omega
  · rw [hnext]
    exact hlt
  · rw [hnext]
    change s.log.taken.length < s.fronts + 1 + queueSize
    omega

theorem Ring.readSlot_eq (h : s.Ring) (hok : s.NoOverlap .readSlot)
    (hconsumer : s.consumer = .advanced) :
    (s.log.taken.map Push.value)[s.log.popped.length]? = some s.queue.readSlot := by
  have hfronts : s.fronts = s.log.popped.length + 1 := by simp [fronts, hconsumer]
  have hlt : s.log.popped.length < s.log.taken.length := by
    have hle := h.fronts_le
    omega
  rw [List.getElem?_map, List.getElem?_eq_getElem hlt, Option.map_some, CircleQueue.readSlot,
    h.front_eq, hfronts]
  apply congrArg some
  symm
  apply h.slots s.log.popped.length _ (Nat.le_refl _) (List.getElem?_eq_getElem hlt)
  intro hlast
  apply hok
  rw [h.front_eq, h.tail_eq, hfronts, hlast]

theorem prefix_append_of_getElem? {xs ys : List α} {x : α} (h : xs <+: ys)
    (hget : ys[xs.length]? = some x) : xs ++ [x] <+: ys := by
  obtain ⟨rest, rfl⟩ := h
  rw [List.getElem?_append_right (Nat.le_refl _), Nat.sub_self] at hget
  cases rest with
  | nil => simp at hget
  | cons y rest =>
      obtain rfl : y = x := by simpa using hget
      exact ⟨rest, by simp⟩

theorem Ring.readSlot (h : s.Ring) (hok : s.NoOverlap .readSlot) (hstep : s.readSlot = some s') :
    s'.Ring := by
  obtain ⟨hconsumer, rfl⟩ := readSlot_cases hstep
  have hsame : s.popped.fronts = s.fronts := by simp [SharedQueue.popped, fronts, hconsumer]
  refine ⟨hsame ▸ h.front_eq, h.tail_eq, hsame ▸ h.fronts_le, hsame ▸ h.room,
    fun htested => by simp [SharedQueue.popped] at htested,
    prefix_append_of_getElem? h.popped (h.readSlot_eq hok hconsumer), ?_, h.writing, h.alone⟩
  intro j push hj
  apply h.slots j push
  simp only [SharedQueue.popped, List.length_append, List.length_singleton] at hj
  omega

section Producers

variable [DecidableEq ι] {p : ι} {push : Push α}

theorem Ring.fullTest (h : s.Ring) {value : α} (hstep : s.fullTest p value = some s') :
    s'.Ring := by
  rcases fullTest_cases hstep with rfl | ⟨hproducer, rfl⟩
  · exact h
  · refine h.of_same rfl rfl rfl rfl fun p' push => ?_
    refine (update_eq_iff p').trans ⟨?_, fun hp' => Or.inr ⟨?_, hp'⟩⟩
    · rintro (⟨_, heq⟩ | ⟨_, hp'⟩)
      · simp at heq
      · exact hp'
    · rintro rfl
      simp [hproducer] at hp'

theorem Ring.take (h : s.Ring) (hwriting : ¬ s.Writing) (hfull : s.queue.isQueueFull = false) :
    (s.take p push).Ring := by
  have hroom := h.room
  have hnotFull : (s.queue.tail + 1) % queueSize ≠ s.queue.front := by
    simpa [CircleQueue.isQueueFull] using hfull
  rw [h.tail_eq, h.front_eq] at hnotFull
  have hlength : (s.take p push).log.taken.length = s.log.taken.length + 1 := by
    simp [SharedQueue.take, SharedQueue.setProducer]
  have honly : ∀ p' push', (s.take p push).producers p' = .advanced push' →
      p' = p ∧ push' = push := by
    intro p' push' hp'
    rcases (update_eq_iff p').mp hp' with ⟨hp, heq⟩ | ⟨_, hold⟩
    · exact ⟨hp, (Producer.advanced.inj heq).symm⟩
    · exact absurd ⟨p', push', hold⟩ hwriting
  constructor
  · exact h.front_eq
  · rw [hlength]
    change (s.queue.tail + 1) % queueSize = _
    rw [h.tail_eq, Nat.mod_add_mod]
  · rw [hlength]
    exact Nat.le_succ_of_le h.fronts_le
  · rw [hlength]
    change s.log.taken.length + 1 < s.fronts + queueSize
    simp only [queueSize] at *
    omega
  · intro htested
    rw [hlength]
    exact Nat.lt_succ_of_lt (h.tested htested)
  · change s.log.popped <+: (s.log.taken ++ [push]).map Push.value
    rw [List.map_append]
    exact h.popped.trans (List.prefix_append _ _)
  · intro j push' hj hget hlast
    have hget' : (s.log.taken ++ [push])[j]? = some push' := hget
    have hlt : j < s.log.taken.length := by
      have hle := (List.getElem?_eq_some_iff.mp hget).1
      rw [hlength] at hle hlast
      refine Nat.lt_of_le_of_ne (Nat.le_of_lt_succ hle) fun heq => ?_
      -- The last one taken is not written yet.
      exact hlast (congrArg Nat.succ heq) ⟨p, push, Function.update_self ..⟩
    rw [List.getElem?_append_left hlt] at hget'
    exact h.slots j push' hj hget' fun _ => hwriting
  · intro p' push' hp'
    obtain ⟨_, rfl⟩ := honly p' push' hp'
    exact ⟨s.log.taken, rfl⟩
  · intro p' p'' push' push'' hp' hp''
    exact (honly p' push' hp').1.trans (honly p'' push'' hp'').1.symm

theorem Ring.finish (h : s.Ring) (hproducer : s.producers p = .advanced push) :
    (s.finish p push).Ring := by
  obtain ⟨before, htaken⟩ := h.writing p push hproducer
  have hnone : ∀ p' push', (s.finish p push).producers p' ≠ .advanced push' := by
    intro p' push' hp'
    rcases (update_eq_iff p').mp hp' with ⟨_, heq⟩ | ⟨hne, hold⟩
    · simp at heq
    · exact hne (h.alone p' p push' push hold hproducer)
  refine ⟨h.front_eq, h.tail_eq, h.fronts_le, h.room, h.tested, h.popped, ?_,
    fun p' push' hp' => absurd hp' (hnone p' push'),
    fun p' _ push' _ hp' => absurd hp' (hnone p' push')⟩
  intro j push' hj hget _
  change s.log.popped.length ≤ j at hj
  change s.log.taken[j]? = some push' at hget
  change Function.update s.queue.data s.queue.tail push.value ((j + 1) % queueSize) = push'.value
  have hlt : j < s.log.taken.length := (List.getElem?_eq_some_iff.mp hget).1
  by_cases hlast : j + 1 = s.log.taken.length
  · rw [h.tail_eq, ← hlast, Function.update_self]
    rw [htaken, List.length_append, List.length_singleton] at hlast
    rw [htaken, List.getElem?_append_right (by omega), show j - before.length = 0 by omega] at hget
    exact congrArg Push.value (Option.some.inj hget)
  · have hroom := h.room
    have hfronts := fronts_le_popped s
    rw [h.tail_eq, Function.update_of_ne]
    · exact h.slots j push' hj hget fun heq => absurd heq hlast
    · exact slot_ne (by omega) (by simp only [queueSize] at *; omega)

theorem Ring.step (h : s.Ring) {a : QueueAction ι α} (hok : s.NoOverlap a)
    (hstep : s.step a = some s') : s'.Ring := by
  cases a with
  | fullTest p value => exact h.fullTest hstep
  | advanceTail p =>
      obtain ⟨push, _, rfl⟩ := advanceTail_cases hstep
      exact h.take hok.1 hok.2
  | writeSlot p =>
      obtain ⟨push, hproducer, rfl⟩ := writeSlot_cases hstep
      exact h.finish hproducer
  | emptyTest => exact h.emptyTest hstep
  | advanceFront => exact h.advanceFront hstep
  | readSlot => exact h.readSlot hok hstep

/-! ### The calls -/

/-- Where every call that passed its full test is, whatever the order of the steps. -/
structure Accounts (s : SharedQueue ι α) : Prop where
  ids : s.log.accepted.map Push.id = List.range s.log.accepted.length
  pending : ∀ p push, s.producers p = .tested push → push ∈ s.log.accepted ∧ push ∉ s.log.taken
  pending_unique : ∀ p p' push, s.producers p = .tested push → s.producers p' = .tested push → p = p'
  writing : ∀ p push, s.producers p = .advanced push → push ∈ s.log.taken
  once : s.log.taken.Nodup
  taken : ∀ push ∈ s.log.taken, push ∈ s.log.accepted
  accepted : ∀ push ∈ s.log.accepted, push ∈ s.log.taken ∨ ∃ p, s.producers p = .tested push
  returned : ∀ push ∈ s.log.returned, push ∈ s.log.taken

omit [DecidableEq ι] in
theorem Accounts.start (zero : α) : (start zero : SharedQueue ι α).Accounts := by
  constructor <;> simp [SharedQueue.start]

omit [DecidableEq ι] in
theorem Accounts.of_same (h : s.Accounts) (hproducers : s'.producers = s.producers)
    (haccepted : s'.log.accepted = s.log.accepted) (htaken : s'.log.taken = s.log.taken)
    (hreturned : s'.log.returned = s.log.returned) : s'.Accounts := by
  constructor
  · rw [haccepted]
    exact h.ids
  · rw [hproducers, haccepted, htaken]
    exact h.pending
  · rw [hproducers]
    exact h.pending_unique
  · rw [hproducers, htaken]
    exact h.writing
  · rw [htaken]
    exact h.once
  · rw [htaken, haccepted]
    exact h.taken
  · rw [haccepted, htaken, hproducers]
    exact h.accepted
  · rw [hreturned, htaken]
    exact h.returned

omit [DecidableEq ι] in
theorem Accounts.id_lt (h : s.Accounts) {push : Push α} (hmem : push ∈ s.log.accepted) :
    push.id < s.log.accepted.length := by
  have hid := List.mem_map_of_mem (f := Push.id) hmem
  rwa [h.ids, List.mem_range] at hid

theorem Accounts.accept (h : s.Accounts) (hproducer : s.producers p = .outside) {value : α} :
    (s.accept p { id := s.log.accepted.length, value }).Accounts := by
  have hnew : (⟨s.log.accepted.length, value⟩ : Push α) ∉ s.log.accepted := fun hmem =>
    absurd (h.id_lt hmem) (Nat.lt_irrefl _)
  constructor
  · simp [SharedQueue.accept, SharedQueue.setProducer, h.ids, List.range_succ]
  · intro p' push hp'
    rcases (update_eq_iff p').mp hp' with ⟨_, heq⟩ | ⟨_, hold⟩
    · obtain rfl := Producer.tested.inj heq
      exact ⟨List.mem_append_right _ List.mem_cons_self, fun hmem => hnew (h.taken _ hmem)⟩
    · obtain ⟨haccepted, htaken⟩ := h.pending p' push hold
      exact ⟨List.mem_append_left _ haccepted, htaken⟩
  · intro p' p'' push hp' hp''
    rcases (update_eq_iff p').mp hp' with ⟨rfl, heq⟩ | ⟨_, hold⟩ <;>
      rcases (update_eq_iff p'').mp hp'' with ⟨rfl, heq'⟩ | ⟨_, hold'⟩
    · rfl
    · obtain rfl := Producer.tested.inj heq
      exact absurd (h.pending p'' _ hold').1 hnew
    · obtain rfl := Producer.tested.inj heq'
      exact absurd (h.pending p' _ hold).1 hnew
    · exact h.pending_unique p' p'' push hold hold'
  · intro p' push hp'
    rcases (update_eq_iff p').mp hp' with ⟨_, heq⟩ | ⟨_, hold⟩
    · simp at heq
    · exact h.writing p' push hold
  · exact h.once
  · intro push hmem
    exact List.mem_append_left _ (h.taken push hmem)
  · intro push hmem
    rcases List.mem_append.mp hmem with hold | hlast
    · rcases h.accepted push hold with htaken | ⟨p', hp'⟩
      · exact Or.inl htaken
      · refine Or.inr ⟨p', (update_eq_iff p').mpr (Or.inr ⟨?_, hp'⟩)⟩
        rintro rfl
        simp [hproducer] at hp'
    · obtain rfl := List.mem_singleton.mp hlast
      exact Or.inr ⟨p, Function.update_self ..⟩
  · exact h.returned

theorem Accounts.take (h : s.Accounts) (hproducer : s.producers p = .tested push) :
    (s.take p push).Accounts := by
  obtain ⟨hmem, hfresh⟩ := h.pending p push hproducer
  have hold : ∀ {p' push'}, (s.take p push).producers p' = .tested push' →
      p' ≠ p ∧ s.producers p' = .tested push' := by
    intro p' push' hp'
    rcases (update_eq_iff p').mp hp' with ⟨_, heq⟩ | hsame
    · simp at heq
    · exact hsame
  constructor
  · exact h.ids
  · intro p' push' hp'
    obtain ⟨hne, hsame⟩ := hold hp'
    obtain ⟨haccepted, htaken⟩ := h.pending p' push' hsame
    refine ⟨haccepted, fun hin => ?_⟩
    rcases List.mem_append.mp hin with hin | hlast
    · exact htaken hin
    · obtain rfl := List.mem_singleton.mp hlast
      exact hne (h.pending_unique p' p _ hsame hproducer)
  · intro p' p'' push' hp' hp''
    exact h.pending_unique p' p'' push' (hold hp').2 (hold hp'').2
  · intro p' push' hp'
    rcases (update_eq_iff p').mp hp' with ⟨_, heq⟩ | ⟨_, hsame⟩
    · obtain rfl := Producer.advanced.inj heq
      exact List.mem_append_right _ List.mem_cons_self
    · exact List.mem_append_left _ (h.writing p' push' hsame)
  · refine List.nodup_append.mpr ⟨h.once, by simp, fun push' hin last hlast heq => hfresh ?_⟩
    rwa [← List.mem_singleton.mp hlast, ← heq]
  · intro push' hin
    rcases List.mem_append.mp hin with hin | hlast
    · exact h.taken push' hin
    · obtain rfl := List.mem_singleton.mp hlast
      exact hmem
  · intro push' hin
    rcases h.accepted push' hin with htaken | ⟨p', hp'⟩
    · exact Or.inl (List.mem_append_left _ htaken)
    · by_cases hp : p' = p
      · obtain rfl : push = push' := by
          rw [hp, hproducer] at hp'
          exact Producer.tested.inj hp'
        exact Or.inl (List.mem_append_right _ List.mem_cons_self)
      · exact Or.inr ⟨p', (update_eq_iff p').mpr (Or.inr ⟨hp, hp'⟩)⟩
  · intro push' hin
    exact List.mem_append_left _ (h.returned push' hin)

theorem Accounts.finish (h : s.Accounts) (hproducer : s.producers p = .advanced push) :
    (s.finish p push).Accounts := by
  have hold : ∀ {p' : ι} {x : Producer α}, x ≠ .outside →
      (s.finish p push).producers p' = x → s.producers p' = x := by
    intro p' x hx hp'
    rcases (update_eq_iff p').mp hp' with ⟨_, heq⟩ | ⟨_, hsame⟩
    · exact absurd heq.symm hx
    · exact hsame
  constructor
  · exact h.ids
  · intro p' push' hp'
    exact h.pending p' push' (hold (by simp) hp')
  · intro p' p'' push' hp' hp''
    exact h.pending_unique p' p'' push' (hold (by simp) hp') (hold (by simp) hp'')
  · intro p' push' hp'
    exact h.writing p' push' (hold (by simp) hp')
  · exact h.once
  · exact h.taken
  · intro push' hin
    rcases h.accepted push' hin with htaken | ⟨p', hp'⟩
    · exact Or.inl htaken
    · refine Or.inr ⟨p', (update_eq_iff p').mpr (Or.inr ⟨?_, hp'⟩)⟩
      rintro rfl
      simp [hproducer] at hp'
  · intro push' hin
    rcases List.mem_append.mp hin with hin | hlast
    · exact h.returned push' hin
    · obtain rfl := List.mem_singleton.mp hlast
      exact h.writing p push' hproducer

theorem Accounts.step (h : s.Accounts) {a : QueueAction ι α} (hstep : s.step a = some s') :
    s'.Accounts := by
  cases a with
  | fullTest p value =>
      rcases fullTest_cases hstep with rfl | ⟨hproducer, rfl⟩
      · exact h
      · exact h.accept hproducer
  | advanceTail p =>
      obtain ⟨push, hproducer, rfl⟩ := advanceTail_cases hstep
      exact h.take hproducer
  | writeSlot p =>
      obtain ⟨push, hproducer, rfl⟩ := writeSlot_cases hstep
      exact h.finish hproducer
  | emptyTest =>
      obtain ⟨_, rfl | ⟨_, rfl⟩⟩ := emptyTest_cases hstep
      · exact h
      · exact h.of_same rfl rfl rfl rfl
  | advanceFront =>
      obtain ⟨_, rfl⟩ := advanceFront_cases hstep
      exact h.of_same rfl rfl rfl rfl
  | readSlot =>
      obtain ⟨_, rfl⟩ := readSlot_cases hstep
      exact h.of_same rfl rfl rfl rfl

/-! ### Runs -/

omit [DecidableEq ι] in
theorem Ring.drained (h : s.Ring) (hconsumer : s.consumer = .outside)
    (hempty : s.queue.isQueueEmpty = true) : s.log.popped = s.log.taken.map Push.value := by
  have hfronts : s.fronts = s.log.popped.length := by simp [fronts, hconsumer]
  have hsame : s.queue.front = s.queue.tail := by simpa [CircleQueue.isQueueEmpty] using hempty
  rw [h.front_eq, h.tail_eq, hfronts] at hsame
  have hle := h.fronts_le
  have hroom := h.room
  rw [hfronts] at hle hroom
  apply h.popped.eq_of_length
  rw [List.length_map]
  simp only [queueSize] at *
  omega

omit [DecidableEq ι] in
theorem faithful_of_ring (hring : s.Ring) (haccounts : s.Accounts) : s.Faithful where
  popped := hring.popped
  drained := hring.drained
  ids := haccounts.ids ▸ List.nodup_range
  once := haccounts.once
  taken := haccounts.taken
  accepted := haccounts.accepted
  returned := haccounts.returned

/-- **The command queue under its users.** In every run in which no tail advances while a push has yet
to write or over the front, and no slot is read that a push has yet to write, the pops are faithful to
the pushes. -/
theorem faithful_of_noOverlap {zero : α} {s : SharedQueue ι α}
    (h : Reaches step NoOverlap (start zero) s) : s.Faithful := by
  have hboth : s.Ring ∧ s.Accounts := by
    refine h.invariant (I := fun s => s.Ring ∧ s.Accounts) ?_ ⟨Ring.start zero, Accounts.start zero⟩
    intro s a s' hboth hok hstep
    exact ⟨hboth.1.step hok hstep, hboth.2.step hstep⟩
  exact faithful_of_ring hboth.1 hboth.2

def ofCmdId (cmdId : UInt16) : StCmdFrame := { StCmdFrame.zeroed with cmdId }

/-- Both workers pass their full test, and the first command is popped while the second is being
written. -/
def twoPushes : List (QueueAction (Fin 2) StCmdFrame) :=
  [.fullTest 0 (ofCmdId 0x0109), .fullTest 1 (ofCmdId 0x0100), .advanceTail 0, .writeSlot 0,
    .emptyTest, .advanceTail 1, .advanceFront, .readSlot, .writeSlot 1]

theorem faithful_of_noOverlap_two :
    ∃ s, exec step (start StCmdFrame.zeroed) twoPushes = some s
      ∧ s.log.popped.map StCmdFrame.cmdId = [0x0109] ∧ s.Faithful := by
  have hrun : (exec step (start StCmdFrame.zeroed) twoPushes).map
      (fun s => s.log.popped.map StCmdFrame.cmdId) = some [0x0109] := by decide +kernel
  obtain ⟨s, hexec, hpopped⟩ := Option.map_eq_some_iff.mp hrun
  have hallowed : Allowed step NoOverlap (start StCmdFrame.zeroed) twoPushes := by decide +kernel
  exact ⟨s, hexec, hpopped, faithful_of_noOverlap (reaches_of_allowed hallowed hexec)⟩

/-- The slot is read between the advance of the tail and the write. -/
def popBeforeWrite : List (QueueAction (Fin 1) StCmdFrame) :=
  [.fullTest 0 (ofCmdId 0x0109), .advanceTail 0, .emptyTest, .advanceFront, .readSlot]

/-- The zeroed slot is popped, and the command that was pushed is lost. -/
theorem stale_command_popped :
    ¬ ∀ s : SharedQueue (Fin 1) StCmdFrame,
      Reaches step anyAction (start StCmdFrame.zeroed) s → s.Faithful := by
  intro h
  have hrun : (exec step (start StCmdFrame.zeroed) popBeforeWrite).map
      (fun s => (s.log.popped.map StCmdFrame.cmdId, s.log.taken.map fun push => push.value.cmdId))
        = some ([0], [0x0109]) := by decide +kernel
  obtain ⟨s, hexec, hlog⟩ := Option.map_eq_some_iff.mp hrun
  obtain ⟨hpopped, htaken⟩ := Prod.mk.inj hlog
  have hprefix := (h s (reaches_of_exec hexec)).popped.map StCmdFrame.cmdId
  rw [List.map_map, hpopped] at hprefix
  have hsame : [(0 : UInt16)] <+: [0x0109] := htaken ▸ hprefix
  exact absurd hsame (by decide)

/-! ### One thread at a time -/

/-- A push that nobody interrupts is `push_element`. -/
theorem exec_push (hproducer : s.producers p = .outside) (hfull : s.queue.isQueueFull = false)
    (value : α) : ∃ s', exec step s [.fullTest p value, .advanceTail p, .writeSlot p] = some s'
      ∧ s'.queue = (s.queue.pushElement value).2 := by
  rw [CircleQueue.pushElement_notFull hfull]
  simp [exec, SharedQueue.step, SharedQueue.fullTest, SharedQueue.advanceTail,
    SharedQueue.writeSlot, SharedQueue.accept, SharedQueue.take, SharedQueue.finish,
    SharedQueue.setProducer, hproducer, hfull]

/-- A pop that nobody interrupts is `pop_element`. -/
theorem exec_pop (hconsumer : s.consumer = .outside) (hempty : s.queue.isQueueEmpty = false) :
    ∃ s', exec step s [.emptyTest, .advanceFront, .readSlot] = some s'
      ∧ s'.queue = s.queue.popElement.2
      ∧ s'.log.popped = s.log.popped ++ s.queue.popElement.1.toList := by
  rw [CircleQueue.popElement_notEmpty hempty]
  simp [exec, SharedQueue.step, SharedQueue.emptyTest, SharedQueue.advanceFront,
    SharedQueue.readSlot, SharedQueue.popped, hconsumer, hempty]

end Producers

end SharedQueue

end InstructionParser
