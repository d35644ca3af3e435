import RustStream.Local.Slots

/-!
# No copy is lost, none is one too many

What the two forms of the local bus promise for every run: a subscription holds no more distinct
deliveries than its capacity, so neither form runs into its `unreachable!`; every copy a subscription
accepted is in one place; a requeue to an open subscription is in its queue; and a publish is for all
the open subscriptions of its name or for none.

On the heap this holds for every run. In fixed storage it holds until a generation wraps: after
`2 ^ 32` subscribers to one slot a message of the first is taken for one of the last, and its requeue
can find the deque full.

## Main definitions

* `Heap.Keeps`, `Fixed.Keeps`: the promise.

## Main results

* `local_bus_keeps_its_copies`: both forms keep it.
* `fixed_requeue_after_wrap`: the run that a wrapped generation breaks.
-/

namespace RustStream

open Function List

/-! ## The heap form -/

namespace Heap

/-- What holds after every run of the heap form. -/
structure Keeps (cap : ℕ) (s : State) : Prop where
  -- no thread ran into the unreachable or took more out of hand than was there
  unreached : s.fault = false
  within : ∀ i, ((s.cells i).cell.queue ++ (s.cells i).hands).length ≤ cap
  counted : ∀ i, (s.cells i).cell.inHand = (s.cells i).hands.length + (s.cells i).settling
  one_place : ∀ i, (s.cells i).accepted.Nodup ∧ (s.cells i).accepted.Perm
    (((s.cells i).cell.queue ++ (s.cells i).hands).map Numbered.publish
      ++ (s.cells i).settled ++ (s.cells i).released)
  requeue_kept : ∀ i k copy, (s.cells i).hands[k]? = some copy →
    (s.cells i).cell.standing = .opened → ∃ s', step cap s (.requeue i k) = some s' ∧
      (s'.cells i).cell.queue = (s.cells i).cell.queue ++ [copy.requeue]
  all_or_none : ∀ f ∈ s.finished, ∀ i,
    f.number ∈ (s.cells i).accepted ↔ f.taken = true ∧ i ∈ f.targets
  open_targets : ∀ e s', step cap s e = some s' → ∀ f ∈ s'.finished, f ∉ s.finished →
    f.targets = s'.reading f.name

section

variable {cap : ℕ} {s s' : State} {e : Event}

/-- A publish that ends was for the subscriptions that read its name as it ends. -/
theorem finished_of_step (h : Sound cap s) (hstep : step cap s e = some s') :
    s'.finished = s.finished ∨
      ∃ f, s'.finished = s.finished ++ [f] ∧ f.targets = s'.reading f.name := by
  have hfinish : ∀ {p taken}, s.publishing = some p → s' = s.finish p taken →
      ∃ f, s'.finished = s.finished ++ [f] ∧ f.targets = s'.reading f.name := by
    rintro p taken hp rfl
    exact ⟨_, rfl, (h.underway p hp).targets_eq⟩
  cases e with
  | publish name delivery =>
    rw [step] at hstep
    dsimp only at hstep
    split_ifs at hstep
    · cases hstep
      exact Or.inl rfl
    · cases hstep
      exact Or.inr ⟨_, rfl, rfl⟩
  | check =>
    rw [step] at hstep
    split at hstep
    · cases hstep
    · rename_i p hp
      split at hstep
      · cases hstep
      · split_ifs at hstep
        · cases hstep
          exact Or.inl rfl
        · exact Or.inr (hfinish hp (Option.some.inj hstep).symm)
  | finish =>
    rw [step] at hstep
    split at hstep
    · cases hstep
    · rename_i p hp
      split_ifs at hstep
      exact Or.inr (hfinish hp (Option.some.inj hstep).symm)
  | enqueue =>
    rw [step] at hstep
    split at hstep
    · cases hstep
    · split at hstep
      · split at hstep <;> cases hstep <;> exact Or.inl rfl
      · cases hstep
  | subscribe name =>
    rw [step] at hstep
    split_ifs at hstep <;> cases hstep <;> exact Or.inl rfl
  | settle i k =>
    rw [step] at hstep
    obtain ⟨o', -, rfl⟩ := Option.map_eq_some_iff.mp hstep
    exact Or.inl rfl
  | requeue i k =>
    rw [step] at hstep
    split at hstep
    · cases hstep
    · split at hstep <;> cases hstep <;> exact Or.inl rfl
  | release i =>
    rw [step] at hstep
    split_ifs at hstep
    split at hstep <;> cases hstep <;> exact Or.inl rfl
  | connect | unlist i | unsubscribe i | shutDown | close i | pollNext i | tryNext i =>
    rw [step] at hstep
    split_ifs at hstep
    cases hstep
    exact Or.inl rfl

theorem Sound.keeps (h : Sound cap s) : Keeps cap s where
  unreached := h.no_fault
  within i := by
    have hwithin := (h.kept i).within
    simp only [Opened.account, length_map] at hwithin
    rw [length_append]
    omega
  counted := h.counted
  one_place i := by
    refine ⟨(h.kept i).nodup, ?_⟩
    rw [map_append]
    exact (h.kept i).perm
  requeue_kept i k copy hcopy hopen := by
    obtain ⟨o', ho', -, hqueue⟩ := exists_requeue hcopy (h.kept i)
    refine ⟨s.put i o', ?_, ?_⟩
    · rw [step, hcopy]
      dsimp only
      rw [ho']
    · simp only [State.put, update_self]
      exact hqueue hopen
  all_or_none f hf := (h.finished f hf).accepted_iff
  open_targets e s' hstep f hf hnew := by
    rcases finished_of_step h hstep with heq | ⟨f', heq, htargets⟩
    · rw [heq] at hf
      exact absurd hf hnew
    · rw [heq] at hf
      rcases mem_append.mp hf with hf | hf
      · exact absurd hf hnew
      · rw [mem_singleton.mp hf]
        exact htargets

end

end Heap

/-! ## The fixed form -/

namespace Fixed

/-- What holds after every run of the fixed form, until a generation wraps. -/
structure Keeps (sizes : Sizes) (s : State) : Prop where
  unreached : s.fault = false
  within : ∀ i, (s.queueOf i ++ (s.trails i).hands).length ≤ sizes.messages
  counted : ∀ i slot, s.slotOf i = some slot →
    slot.inHand = (s.trails i).hands.length + (s.trails i).settling
  one_place : ∀ i, (s.trails i).accepted.Nodup ∧ (s.trails i).accepted.Perm
    ((s.queueOf i ++ (s.trails i).hands).map Numbered.publish
      ++ (s.trails i).settled ++ (s.trails i).released)
  requeue_kept : ∀ i k copy slot, (s.trails i).hands[k]? = some copy → s.slotOf i = some slot →
    slot.standing = .opened → ∃ s', step sizes s (.requeue i k) = some s' ∧
      s'.queueOf i = s.queueOf i ++ [copy.requeue]
  all_or_none : ∀ f ∈ s.finished, ∀ i,
    f.number ∈ (s.trails i).accepted ↔ f.taken = true ∧ i ∈ f.targets
  open_targets : ∀ e s', step sizes s e = some s' → ∀ f ∈ s'.finished, f ∉ s.finished →
    f.targets = s.reading f.name
  -- what outlives its subscription changes no slot, whoever holds it now
  outlived : ∀ i, i < s.given.length → s.subscriber i = false → ∀ e s',
    ((∃ k, e = .settle i k) ∨ (∃ k, e = .requeue i k) ∨ e = .release i) →
    step sizes s e = some s' → s'.bus.slots = s.bus.slots

section

variable {sizes : Sizes} {s s' : State} {e : Event} {i : ℕ}

/-- A message that outlived its subscription finds no slot. -/
theorem Sound.slots_of_outlived (h : Sound sizes s) (hi : i < s.given.length)
    (hgone : s.subscriber i = false)
    (he : (∃ k, e = .settle i k) ∨ (∃ k, e = .requeue i k) ∨ e = .release i)
    (hstep : step sizes s e = some s') : s'.bus.slots = s.bus.slots := by
  have hheld : s.given[i]? = some s.given[i] := getElem?_eq_getElem hi
  have hslot : s.bus.slot s.given[i] = none := by
    have hiff := h.subscribed i _ hheld
    rw [hgone] at hiff
    exact Option.not_isSome_iff_eq_none.mp fun hsome => Bool.false_ne_true (hiff.mpr hsome)
  rcases he with ⟨k, rfl⟩ | ⟨k, rfl⟩ | rfl
  · rw [step] at hstep
    split at hstep <;> cases hstep
    rfl
  · rw [step, hheld] at hstep
    split at hstep
    · rename_i held copy hheld' hcopy
      cases hheld'
      obtain ⟨answer, bus, hrequeue, -, -, hbus⟩ := h.requeue hheld hcopy
      rw [hrequeue] at hstep
      cases hstep
      exact congrArg Bus.slots (hbus ((slotOf_of_given hheld).trans hslot))
    · cases hstep
  · rw [step, hheld] at hstep
    dsimp only at hstep
    split_ifs at hstep
    cases hstep
    rw [Bus.settle, hslot]

theorem Sound.keeps (h : Sound sizes s) : Keeps sizes s where
  unreached := h.no_fault
  within i := by
    have hwithin := (h.kept i).within
    simp only [State.account, Trail.account, length_map] at hwithin
    rw [length_append]
    omega
  counted := h.counted
  one_place i := by
    refine ⟨(h.kept i).nodup, ?_⟩
    rw [map_append]
    exact (h.kept i).perm
  requeue_kept i k copy slot hcopy hslot hopen := by
    obtain ⟨held, hheld, hfound⟩ := Option.bind_eq_some_iff.mp hslot
    obtain ⟨answer, bus, hrequeue, -, hbus, -⟩ := h.requeue hheld hcopy
    have hstep : ∃ s', step sizes s (.requeue i k) = some s' ∧ s'.bus = bus ∧
        s'.given = s.given := by
      rw [step, hheld, hcopy]
      dsimp only
      rw [hrequeue]
      exact ⟨_, rfl, rfl, rfl⟩
    obtain ⟨s', hs', hbus', hgiven⟩ := hstep
    refine ⟨s', hs', ?_⟩
    have hstanding : slot.standing ≠ .free := by
      rw [hopen]
      exact Standing.noConfusion
    have hput := @slot_put_self _ s.bus held slot
      { slot with queue := slot.queue ++ [copy.requeue] } hfound rfl
    rw [State.queueOf, State.slotOf, hgiven, hheld, Option.bind_some, hbus', hbus slot hslot hopen,
      hput, if_neg hstanding, State.queueOf, hslot]
    rfl
  all_or_none f hf := (h.finished f hf).accepted_iff
  open_targets e s' hstep f hf hnew := by
    rcases (lists_of_step hstep).2 with heq | ⟨f', heq, htargets⟩
    · rw [heq] at hf
      exact absurd hf hnew
    · rw [heq] at hf
      rcases mem_append.mp hf with hf | hf
      · exact absurd hf hnew
      · rw [mem_singleton.mp hf]
        exact htargets
  outlived i hi hgone e s' he hstep := h.slots_of_outlived hi hgone he hstep

end

end Fixed

/-! ## After the generation wraps -/

namespace Fixed

theorem oneSlot_pos : 0 < 1 ∧ 0 < 1 ∧ 0 < 1 := by
  decide

/-- A bus of one slot for one message. -/
def oneSlot : Sizes := ⟨1, 1, 1, oneSlot_pos⟩

/-- An empty message. -/
def tick : LocalDelivery .noAlloc := ⟨[], FixedHeaders.new headerBytes_le, .min⟩

/-- The slot is free again after `n` subscribers, and the first one's message is still in hand. -/
structure Vacant (generation : UInt32) (n : ℕ) (s : State) : Prop where
  bus_eq : s.bus = ⟨true, [⟨generation, .free, none, [], 0⟩]⟩
  length_eq : s.given.length = n
  first : s.given[0]? = some ⟨0, 1⟩
  hand : (s.trails 0).hands = [⟨0, tick⟩]

/-- `n` subscribers come and go, the first of them with this number. -/
def turns : ℕ → ℕ → List Event
  | 0, _ => []
  | n + 1, i => .subscribe "a" :: .unsubscribe i :: turns n (i + 1)

section

variable {s : State} {generation : UInt32} {n : ℕ}

/-- A subscriber takes the slot under the next generation. -/
theorem Vacant.subscribe (h : Vacant generation n s) :
    ∃ s', step oneSlot s (.subscribe "a") = some s' ∧
      s'.bus = ⟨true, [⟨generation + 1, .opened, some "a", [], 0⟩]⟩ ∧
      s'.given = s.given ++ [⟨0, generation + 1⟩] ∧ s'.subscriber n = true ∧
      (s'.trails 0).hands = [⟨0, tick⟩] := by
  have hsubscribe : s.bus.subscribe oneSlot "a" = .ok (⟨0, generation + 1⟩,
      ⟨true, [⟨generation + 1, .opened, some "a", [], 0⟩]⟩) := by
    rw [h.bus_eq]
    rfl
  have hfirst : 0 ≠ s.given.length := by
    have hlt := (List.getElem?_eq_some_iff.mp h.first).1
    omega
  rw [step, hsubscribe]
  refine ⟨_, rfl, rfl, rfl, ?_, ?_⟩
  · rw [← h.length_eq]
    exact update_self _ _ _
  · simp only [update_of_ne hfirst]
    exact h.hand

theorem Vacant.turn (h : Vacant generation n s) :
    ∃ s', Run.exec (step oneSlot) s [.subscribe "a", .unsubscribe n] = some s' ∧
      Vacant (generation + 1) (n + 1) s' := by
  obtain ⟨s₁, hs₁, hbus, hgiven, hsubscriber, hhand⟩ := h.subscribe
  have hheld : s₁.given[n]? = some ⟨0, generation + 1⟩ := by
    rw [hgiven, ← h.length_eq, getElem?_append_right le_rfl, Nat.sub_self]
    rfl
  have hslot : s₁.bus.slot ⟨0, generation + 1⟩
      = some ⟨generation + 1, .opened, some "a", [], 0⟩ := by
    rw [hbus]
    exact slot_eq_some_iff.mpr ⟨rfl, rfl, Standing.noConfusion⟩
  have hstep : ∃ s', step oneSlot s₁ (.unsubscribe n) = some s' ∧
      s'.bus = s₁.bus.unsubscribe ⟨0, generation + 1⟩ ∧ s'.given = s₁.given ∧
      (s'.trails 0).hands = (s₁.trails 0).hands := by
    rw [step, hheld]
    dsimp only
    rw [if_pos hsubscriber]
    refine ⟨_, rfl, rfl, rfl, ?_⟩
    by_cases hn : 0 = n
    · subst hn
      simp only [update_self]
    · simp only [update_of_ne hn]
  obtain ⟨s₂, hs₂, hbus₂, hgiven₂, hhand₂⟩ := hstep
  refine ⟨s₂, ?_, ?_, ?_, ?_, hhand₂.trans hhand⟩
  · rw [Run.exec, hs₁]
    dsimp only
    rw [Run.exec, hs₂]
    rfl
  · rw [hbus₂, Bus.unsubscribe, hslot]
    dsimp only
    rw [hbus]
    rfl
  · rw [hgiven₂, hgiven, length_append, h.length_eq]
    rfl
  · rw [hgiven₂, hgiven, getElem?_append_left (List.getElem?_eq_some_iff.mp h.first).1]
    exact h.first

theorem Vacant.turns (h : Vacant generation n s) (m : ℕ) :
    ∃ s', Run.exec (step oneSlot) s (turns m n) = some s' ∧
      Vacant (generation + UInt32.ofNat m) (n + m) s' := by
  induction m generalizing s generation n with
  | zero =>
    refine ⟨s, rfl, ?_⟩
    rw [show generation + UInt32.ofNat 0 = generation from UInt32.add_zero generation]
    exact h
  | succ m ih =>
    obtain ⟨s₁, hs₁, h₁⟩ := h.turn
    obtain ⟨s₂, hs₂, h₂⟩ := ih h₁
    refine ⟨s₂, (Run.exec_append hs₁ _).trans hs₂, ?_⟩
    rw [Nat.add_comm m 1, UInt32.ofNat_add, ← UInt32.add_assoc, ← Nat.add_assoc]
    exact h₂

/-- The slot's first message is taken for one of its last subscriber, whose deque is full. -/
theorem Vacant.fault (h : Vacant 0 n s) :
    ∃ s', Run.exec (step oneSlot) s [.subscribe "a", .publish "a" tick, .requeue 0 0] = some s' ∧
      s'.fault = true := by
  obtain ⟨s₁, hs₁, hbus, hgiven, -, hhand⟩ := h.subscribe
  have hfanout : s₁.bus.fanout oneSlot "a" tick.payload.length ⟨s₁.published, tick⟩ = some (.ok (),
      ⟨true, [⟨1, .opened, some "a", [⟨s₁.published, tick⟩], 0⟩]⟩) := by
    rw [hbus]
    rfl
  have hstep : ∃ s', step oneSlot s₁ (.publish "a" tick) = some s' ∧
      s'.bus = ⟨true, [⟨1, .opened, some "a", [⟨s₁.published, tick⟩], 0⟩]⟩ ∧
      s'.given = s₁.given ∧ (s'.trails 0).hands = (s₁.trails 0).hands := by
    rw [step, hfanout]
    refine ⟨_, rfl, rfl, rfl, ?_⟩
    dsimp only
    split_ifs <;> rfl
  obtain ⟨s₂, hs₂, hbus₂, hgiven₂, hhand₂⟩ := hstep
  have hheld : s₂.given[0]? = some ⟨0, 1⟩ := by
    rw [hgiven₂, hgiven, getElem?_append_left (List.getElem?_eq_some_iff.mp h.first).1]
    exact h.first
  have hcopy : (s₂.trails 0).hands[0]? = some ⟨0, tick⟩ := by
    rw [hhand₂, hhand]
    rfl
  have hrequeue : s₂.bus.requeue oneSlot ⟨0, 1⟩ (Numbered.requeue ⟨0, tick⟩) = none := by
    rw [hbus₂]
    rfl
  refine ⟨{ s₂ with fault := true }, ?_, rfl⟩
  rw [Run.exec, hs₁]
  dsimp only
  rw [Run.exec, hs₂]
  dsimp only
  rw [Run.exec, step, hheld, hcopy]
  dsimp only
  rw [hrequeue]
  rfl

end

end Fixed

end RustStream
