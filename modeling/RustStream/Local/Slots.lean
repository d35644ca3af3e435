import RustStream.Local.Threads
import RustStream.Local.Fixed

/-!
# Slots of the fixed bus

The slots keep the accounts of the heap bus, as long as a message finds its own slot or none. That
is what the generation is for: it tells the subscribers of a slot apart until it wraps, so with at
most `2 ^ 32` subscribers to a slot no two of them were given the same.

## Main definitions

* `Fixed.Bounded`: no slot has had more subscribers than a generation can tell apart.
* `Fixed.Sound`: the invariant of a run.

## Main results

* `Fixed.step_sound`, `Fixed.run_sound`: every call keeps it, so every run does.
-/

namespace RustStream.Fixed

open Function List Places

/-- How many subscribers the slot has had. -/
def subscribersOf (given : List Held) (index : ℕ) : ℕ :=
  given.countP fun held => held.index = index

/-- A generation tells the subscribers of every slot apart. -/
def Bounded (s : State) : Prop :=
  ∀ index, subscribersOf s.given index ≤ 2 ^ 32

/-- Where the copies of a subscription are, of which some wait. -/
def Trail.account (trail : Trail) (waiting : List Copy) : Account ℕ where
  waiting := waiting.map Numbered.publish
  inHand := trail.hands.map Numbered.publish
  done := trail.settled
  released := trail.released
  accepted := trail.accepted
  idle := trail.settling
  reserved := 0

def State.account (s : State) (i : ℕ) : Account ℕ :=
  (s.trails i).account (s.queueOf i)

/-- A publish that ended was accepted by all the subscriptions it was for, once each, or by none. -/
structure AllOrNone (s : State) (f : Finished) : Prop where
  number_lt : f.number < s.published
  target_lt : ∀ i ∈ f.targets, i < s.given.length
  accepted_iff : ∀ i, f.number ∈ (s.trails i).accepted ↔ f.taken = true ∧ i ∈ f.targets

structure Sound (sizes : Sizes) (s : State) : Prop where
  no_fault : s.fault = false
  nodup : s.given.Nodup
  generation : ∀ held ∈ s.given, ∃ m, 1 ≤ m ∧ m ≤ subscribersOf s.given held.index ∧
    held.generation = UInt32.ofNat m
  current : ∀ index slot, s.bus.slots[index]? = some slot →
    slot.generation = UInt32.ofNat (subscribersOf s.given index)
  cleared : ∀ slot ∈ s.bus.slots, slot.standing = .free → slot.queue = [] ∧ slot.inHand = 0
  subscribed : ∀ i held, s.given[i]? = some held →
    (s.subscriber i = true ↔ (s.bus.slot held).isSome = true)
  kept : ∀ i, (s.account i).Kept sizes.messages
  counted : ∀ i slot, s.slotOf i = some slot →
    slot.inHand = (s.trails i).hands.length + (s.trails i).settling
  accepted_lt : ∀ i, ∀ n ∈ (s.trails i).accepted, n < s.published
  finished : ∀ f ∈ s.finished, AllOrNone s f

/-! ## Finding a slot -/

section Slot

variable {α : Type} {bus : Bus α} {held held' : Held} {slot slot' : Slot α}

theorem slot_eq_some_iff : bus.slot held = some slot ↔ bus.slots[held.index]? = some slot ∧
      slot.generation = held.generation ∧ slot.standing ≠ .free := by
  rw [Bus.slot, Option.filter_eq_some_iff]
  simp

theorem slot_eq_none_iff : bus.slot held = none ↔ ∀ slot, bus.slots[held.index]? = some slot →
      slot.generation = held.generation → slot.standing = .free := by
  rw [Bus.slot, Option.filter_eq_none_iff]
  simp

/-- What is put into a slot that was free, or its holder's, is found by the holder, unless it frees the
slot. Nobody else notices: another index is untouched, another generation was not found before. -/
theorem slot_put (hget : bus.slots[held.index]? = some slot)
    (hbefore : slot.generation = held.generation ∨ slot.standing = .free)
    (hgeneration : slot'.generation = held.generation) : (bus.put held.index slot').slot held'
      = if held' = held then (if slot'.standing = .free then none else some slot')
        else bus.slot held' := by
  have hself : (bus.slots.set held.index slot')[held.index]? = some slot' :=
    getElem?_set_self (List.getElem?_eq_some_iff.mp hget).1
  by_cases hsame : held' = held
  · subst hsame
    rw [if_pos rfl]
    split_ifs with hfree
    · refine slot_eq_none_iff.mpr fun other hother _ => ?_
      rw [Bus.put, hself] at hother
      cases hother
      exact hfree
    · exact slot_eq_some_iff.mpr ⟨hself, hgeneration, hfree⟩
  rw [if_neg hsame]
  by_cases hindex : held'.index = held.index
  · have hother : held.generation ≠ held'.generation := by
      intro hgenerations
      apply hsame
      cases held
      cases held'
      cases hindex
      cases hgenerations
      rfl
    have hnone : bus.slot held' = none := by
      refine slot_eq_none_iff.mpr fun other hfound hfinds => ?_
      rw [hindex, hget] at hfound
      cases hfound
      exact hbefore.resolve_left fun heq => hother (heq.symm.trans hfinds)
    rw [hnone]
    refine slot_eq_none_iff.mpr fun other hfound hfinds => ?_
    rw [hindex, Bus.put, hself] at hfound
    cases hfound
    exact absurd (hgeneration.symm.trans hfinds) hother
  · unfold Bus.slot Bus.put
    rw [getElem?_set_ne (Ne.symm hindex)]

theorem slot_put_self (hslot : bus.slot held = some slot)
    (hgeneration : slot'.generation = slot.generation) : (bus.put held.index slot').slot held
      = if slot'.standing = .free then none else some slot' := by
  obtain ⟨hget, heq, -⟩ := slot_eq_some_iff.mp hslot
  rw [slot_put hget (Or.inl heq) (hgeneration.trans heq), if_pos rfl]

/-- What is done to every slot is done to the slot a subscriber finds. -/
theorem slot_map {f : Slot α → Slot α} {slots : List (Slot α)} (live : Bool)
    (hf : ∀ slot, (f slot).generation = slot.generation ∧
      ((f slot).standing = .free ↔ slot.standing = .free)) :
    Bus.slot ⟨live, slots.map f⟩ held = (Bus.slot ⟨live, slots⟩ held).map f := by
  unfold Bus.slot
  rw [getElem?_map]
  cases hget : slots[held.index]? with
  | none => rfl
  | some slot =>
    have hfound : (decide ((f slot).generation = held.generation) &&
        decide ((f slot).standing ≠ .free))
        = (decide (slot.generation = held.generation) && decide (slot.standing ≠ .free)) := by
      simp only [(hf slot).1, ne_eq, (hf slot).2]
    simp only [Option.map_some, Option.filter_some, hfound]
    split_ifs <;> rfl

end Slot

section Subscriptions

variable {s : State} {i j : ℕ} {held : Held} {slot slot' : Slot Copy}

theorem slotOf_of_given (hheld : s.given[i]? = some held) : s.slotOf i = s.bus.slot held := by
  rw [State.slotOf, hheld, Option.bind_some]

theorem held_ne (hnodup : s.given.Nodup) {held' : Held} (hheld : s.given[i]? = some held)
    (hheld' : s.given[j]? = some held') (hj : j ≠ i) : held' ≠ held := by
  rintro rfl
  obtain ⟨hi, rfl⟩ := List.getElem?_eq_some_iff.mp hheld
  obtain ⟨hj', hsame⟩ := List.getElem?_eq_some_iff.mp hheld'
  exact hj (hnodup.getElem_inj_iff.mp hsame)

/-- What a subscription finds after one of them changed its own slot. -/
theorem slotOf_put (hnodup : s.given.Nodup) (hheld : s.given[i]? = some held)
    (hslot : s.bus.slot held = some slot) (hgeneration : slot'.generation = slot.generation)
    (trails : ℕ → Trail) (subscriber : ℕ → Bool) (j : ℕ) :
    State.slotOf { s with
        bus := s.bus.put held.index slot', trails := trails, subscriber := subscriber } j
      = if j = i then (if slot'.standing = .free then none else some slot') else s.slotOf j := by
  obtain ⟨hget, heq, -⟩ := slot_eq_some_iff.mp hslot
  unfold State.slotOf
  dsimp only
  by_cases hj : j = i
  · subst hj
    rw [hheld, Option.bind_some, slot_put_self hslot hgeneration, if_pos rfl]
  · rw [if_neg hj]
    cases hheld' : s.given[j]? with
    | none => rfl
    | some held' =>
      rw [Option.bind_some, Option.bind_some, slot_put hget (Or.inl heq) (hgeneration.trans heq),
        if_neg (held_ne hnodup hheld hheld' hj)]

/-- What is done to every slot is done to the slot of every subscription. -/
theorem slotOf_map {f : Slot Copy → Slot Copy} {s' : State}
    (hf : ∀ slot, (f slot).generation = slot.generation ∧
      ((f slot).standing = .free ↔ slot.standing = .free))
    (hgiven : s'.given = s.given) (hslots : s'.bus.slots = s.bus.slots.map f) (i : ℕ) :
    s'.slotOf i = (s.slotOf i).map f := by
  unfold State.slotOf
  rw [hgiven]
  cases s.given[i]? with
  | none => rfl
  | some held =>
    rw [Option.bind_some, Option.bind_some, Bus.slot, hslots]
    exact slot_map s.bus.live hf

end Subscriptions

/-! ## The calls of a subscription -/

section Calls

variable {sizes : Sizes} {s s' : State} {i : ℕ} {held : Held} {slot slot' : Slot Copy}
  {trail' : Trail}

theorem sound_new (sizes : Sizes) : Sound sizes (State.new sizes) where
  no_fault := rfl
  nodup := nodup_nil
  generation _ h := absurd h not_mem_nil
  current index slot hslot := by
    rw [(mem_replicate.mp (mem_of_getElem? hslot)).2]
    rfl
  cleared slot hslot _ := by
    rw [(mem_replicate.mp hslot).2]
    exact ⟨rfl, rfl⟩
  subscribed i held h := by cases h
  kept _ := Account.kept_empty _
  counted i slot h := by cases h
  accepted_lt _ _ h := absurd h not_mem_nil
  finished _ h := absurd h not_mem_nil

theorem accepted_update (haccepted : trail'.accepted = (s.trails i).accepted) (j : ℕ) :
    (update s.trails i trail' j).accepted = (s.trails j).accepted := by
  by_cases hj : j = i
  · subst hj
    rw [update_self, haccepted]
  · rw [update_of_ne hj]

theorem AllOrNone.retrail {f : Finished} (h : AllOrNone s f)
    (haccepted : trail'.accepted = (s.trails i).accepted) (bus : Bus Copy)
    (subscriber : ℕ → Bool) :
    AllOrNone { s with
      bus := bus, subscriber := subscriber, trails := update s.trails i trail' } f := by
  refine ⟨h.number_lt, h.target_lt, fun j => ?_⟩
  dsimp only
  rw [accepted_update haccepted]
  exact h.accepted_iff j

section

variable (h : Sound sizes s)
include h

/-- A subscription changes its slot, which it may free, and moves its copies. -/
theorem Sound.change (hheld : s.given[i]? = some held)
    (hslot : s.bus.slot held = some slot) (hgeneration : slot'.generation = slot.generation)
    (hcleared : slot'.standing = .free → slot'.queue = [] ∧ slot'.inHand = 0)
    {subscriber : ℕ → Bool} (hself : subscriber i = true ↔ slot'.standing ≠ .free)
    (hothers : ∀ j, j ≠ i → subscriber j = s.subscriber j)
    (haccepted : trail'.accepted = (s.trails i).accepted)
    (hmove : Account.Move sizes.messages ((s.trails i).account slot.queue)
      (trail'.account slot'.queue))
    (hcounted : slot'.standing ≠ .free → slot'.inHand = trail'.hands.length + trail'.settling) :
    Sound sizes { s with
      bus := s.bus.put held.index slot', subscriber := subscriber
      trails := update s.trails i trail' } := by
  obtain ⟨hget, -⟩ := slot_eq_some_iff.mp hslot
  have hslotOf := slotOf_put h.nodup hheld hslot hgeneration
    (update s.trails i trail') subscriber
  refine ⟨h.no_fault, h.nodup, h.generation, ?_, ?_, ?_, ?_, ?_, ?_, fun f hf =>
    (h.finished f hf).retrail haccepted _ _⟩
  · intro index other hother
    by_cases hindex : held.index = index
    · subst hindex
      have hlt := (List.getElem?_eq_some_iff.mp hget).1
      rw [Bus.put, getElem?_set_self hlt] at hother
      cases hother
      exact hgeneration.trans (h.current held.index slot hget)
    · rw [Bus.put, getElem?_set_ne hindex] at hother
      exact h.current index other hother
  · intro other hother hfree
    rcases mem_or_eq_of_mem_set hother with hother | rfl
    · exact h.cleared other hother hfree
    · exact hcleared hfree
  · intro j held' hheld'
    have hafter := hslotOf j
    rw [slotOf_of_given hheld'] at hafter
    rw [hafter]
    by_cases hj : j = i
    · subst hj
      rw [if_pos rfl]
      split_ifs with hfree
      · simp [hself, hfree]
      · simp [hself, hfree]
    · have hbefore : s.slotOf j = s.bus.slot held' := slotOf_of_given hheld'
      rw [if_neg hj, hbefore]
      dsimp only
      rw [hothers j hj]
      exact h.subscribed j held' hheld'
  · intro j
    unfold State.account State.queueOf
    rw [hslotOf j]
    by_cases hj : j = i
    · subst hj
      have hkept := h.kept j
      rw [State.account, State.queueOf, slotOf_of_given hheld, hslot] at hkept
      have hqueue : (if slot'.standing = .free then none else some slot').elim [] Slot.queue
          = slot'.queue := by
        split_ifs with hfree
        · exact (hcleared hfree).1.symm
        · rfl
      simp only [if_true, update_self, hqueue]
      exact hkept.move hmove
    · simp only [if_neg hj, update_of_ne hj]
      exact h.kept j
  · intro j other hother
    rw [hslotOf j] at hother
    by_cases hj : j = i
    · subst hj
      rw [if_pos rfl] at hother
      split_ifs at hother with hfree
      cases hother
      simp only [update_self]
      exact hcounted hfree
    · rw [if_neg hj] at hother
      simp only [update_of_ne hj]
      exact h.counted j other hother
  · intro j n hn
    dsimp only at hn
    rw [accepted_update haccepted] at hn
    exact h.accepted_lt j n hn

/-- A call of a subscription: it changes its slot, but not who holds it, and moves one of its
copies. -/
theorem Sound.put (hheld : s.given[i]? = some held)
    (hslot : s.bus.slot held = some slot) (hgeneration : slot'.generation = slot.generation)
    (hstanding : slot'.standing = slot.standing)
    (haccepted : trail'.accepted = (s.trails i).accepted)
    (hmove : Account.Move sizes.messages ((s.trails i).account slot.queue)
      (trail'.account slot'.queue))
    (hcounted : slot'.inHand = trail'.hands.length + trail'.settling) :
    Sound sizes { s with
      bus := s.bus.put held.index slot', trails := update s.trails i trail' } := by
  have hopen : slot'.standing ≠ .free := hstanding ▸ (slot_eq_some_iff.mp hslot).2.2
  have hsubscriber : s.subscriber i = true := by
    rw [h.subscribed i held hheld, hslot]
    rfl
  exact h.change hheld hslot hgeneration (fun hfree => absurd hfree hopen)
    (iff_of_true hsubscriber hopen) (fun _ _ => rfl) haccepted hmove fun _ => hcounted

/-- A step of a message that touches no slot. -/
theorem Sound.retrail
    (haccepted : trail'.accepted = (s.trails i).accepted)
    (hmove : ∀ waiting, Account.Move sizes.messages ((s.trails i).account waiting)
      (trail'.account waiting))
    (hcounted : s.slotOf i = none ∨
      trail'.hands.length + trail'.settling = (s.trails i).hands.length + (s.trails i).settling) :
    Sound sizes { s with trails := update s.trails i trail' } := by
  refine ⟨h.no_fault, h.nodup, h.generation, h.current, h.cleared, h.subscribed, ?_, ?_, ?_,
    fun f hf => (h.finished f hf).retrail haccepted _ _⟩
  · intro j
    unfold State.account
    by_cases hj : j = i
    · subst hj
      simp only [update_self]
      exact (h.kept j).move (hmove _)
    · simp only [update_of_ne hj]
      exact h.kept j
  · intro j slot hslot
    have hslot' : s.slotOf j = some slot := hslot
    by_cases hj : j = i
    · subst hj
      simp only [update_self]
      rcases hcounted with hnone | heq
      · rw [hnone] at hslot'
        cases hslot'
      · exact (h.counted j slot hslot').trans heq.symm
    · simp only [update_of_ne hj]
      exact h.counted j slot hslot'
  · intro j n hn
    dsimp only at hn
    rw [accepted_update haccepted] at hn
    exact h.accepted_lt j n hn

/-- Both ways to read a subscription hand out the head of the queue, if there is one. -/
theorem Sound.handOut (hheld : s.given[i]? = some held)
    {next : Option Copy × Bus Copy}
    (hnext : next = (none, s.bus) ∨ ∃ slot copy queue, s.bus.slot held = some slot ∧
      slot.queue = copy :: queue ∧
      next = (some copy, s.bus.put held.index
        { slot with queue := queue, inHand := slot.inHand + 1 })) :
    Sound sizes (s.handOut i next) := by
  rcases hnext with rfl | ⟨slot, copy, queue, hslot, hqueue, rfl⟩
  · exact h
  · refine h.put hheld hslot rfl rfl rfl ?_ ?_
    · have hwaiting : ((s.trails i).account slot.queue).waiting
          = copy.publish :: queue.map Numbered.publish := by
        change slot.queue.map Numbered.publish = _
        rw [hqueue, map_cons]
      have hhands : ((s.trails i).hands ++ [copy]).map Numbered.publish
          = ((s.trails i).account slot.queue).inHand ++ [copy.publish] := by
        rw [map_append]
        rfl
      dsimp only [Trail.account]
      rw [hhands]
      exact .take _ _ hwaiting
    · have hcounted := h.counted i slot ((slotOf_of_given hheld).trans hslot)
      simp only [length_append, length_singleton]
      omega

theorem Sound.pollNext (hheld : s.given[i]? = some held) :
    Sound sizes (s.handOut i ((s.bus.pollNext held).map Poll.delivered id)) := by
  apply h.handOut hheld
  unfold Bus.pollNext
  cases hslot : s.bus.slot held with
  | none => exact Or.inl rfl
  | some slot =>
    dsimp only
    cases hqueue : slot.queue with
    | nil =>
      left
      dsimp only
      split_ifs <;> rfl
    | cons copy queue => exact Or.inr ⟨slot, copy, queue, rfl, hqueue, rfl⟩

theorem Sound.tryNext (hheld : s.given[i]? = some held) :
    Sound sizes (s.handOut i (s.bus.tryNext held)) := by
  apply h.handOut hheld
  unfold Bus.tryNext
  cases hslot : s.bus.slot held with
  | none => exact Or.inl rfl
  | some slot =>
    dsimp only
    cases hqueue : slot.queue with
    | nil => exact Or.inl rfl
    | cons copy queue => exact Or.inr ⟨slot, copy, queue, rfl, hqueue, rfl⟩

end

section Messages

variable {k : ℕ} {copy : Copy} {trail : Trail}

theorem perm_hands (hcopy : trail.hands[k]? = some copy) (waiting : List Copy) :
    (trail.account waiting).inHand.Perm
      (copy.publish :: (trail.hands.eraseIdx k).map Numbered.publish) :=
  (Heap.perm_eraseIdx hcopy).map Numbered.publish

/-- A message that leaves its handler's hands is counted on as one that settles. -/
theorem length_drop (hcopy : trail.hands[k]? = some copy) :
    (trail.drop k).hands.length + (trail.drop k).settling
      = trail.hands.length + trail.settling := by
  have hlength := (Heap.perm_eraseIdx hcopy).length_eq
  rw [length_cons] at hlength
  dsimp only [Trail.drop]
  omega

theorem Sound.settle (h : Sound sizes s) (hcopy : (s.trails i).hands[k]? = some copy) :
    Sound sizes { s with trails := update s.trails i { (s.trails i).drop k with
      settled := (s.trails i).settled ++ [copy.publish] } } :=
  h.retrail rfl (fun waiting => .settle _ _ (perm_hands hcopy waiting))
    (Or.inr (length_drop hcopy))

/-- A requeue goes through. To an open subscription it is not lost, and a message that outlived its
subscription changes no slot. -/
theorem Sound.requeue (h : Sound sizes s) (hheld : s.given[i]? = some held)
    (hcopy : (s.trails i).hands[k]? = some copy) :
    ∃ answer bus, s.bus.requeue sizes held copy.requeue = some (answer, bus) ∧
      Sound sizes { s with
        bus := bus
        trails := update s.trails i { (s.trails i).drop k with
          released :=
            if (s.slotOf i).any fun slot => slot.standing = .opened then (s.trails i).released
            else (s.trails i).released ++ [copy.publish] } } ∧
      (∀ slot, s.slotOf i = some slot → slot.standing = .opened →
        bus = s.bus.put held.index { slot with queue := slot.queue ++ [copy.requeue] }) ∧
      (s.slotOf i = none → bus = s.bus) := by
  have hslotOf := slotOf_of_given hheld
  have hlose : ((s.slotOf i).any fun slot => slot.standing = .opened) = false →
      Sound sizes { s with trails := update s.trails i { (s.trails i).drop k with
        released :=
          if (s.slotOf i).any fun slot => slot.standing = .opened then (s.trails i).released
          else (s.trails i).released ++ [copy.publish] } } := by
    intro hclosed
    rw [hclosed]
    refine h.retrail rfl (fun waiting => ?_) (Or.inr (length_drop hcopy))
    exact .lose _ _ (perm_hands hcopy waiting)
  unfold Bus.requeue
  cases hslot : s.bus.slot held with
  | none =>
    rw [hslot] at hslotOf
    have hclosed : ((s.slotOf i).any fun slot => slot.standing = .opened) = false := by
      rw [hslotOf]
      rfl
    have hsome : ∀ slot, s.slotOf i = some slot → slot.standing = .opened →
        s.bus = s.bus.put held.index { slot with queue := slot.queue ++ [copy.requeue] } := by
      intro slot hsome
      rw [hslotOf] at hsome
      cases hsome
    by_cases hlive : s.bus.live = true
    · exact ⟨.ok (), s.bus, if_pos hlive, hlose hclosed, hsome, fun _ => rfl⟩
    · exact ⟨.error .shutDown, s.bus, if_neg hlive, hlose hclosed, hsome, fun _ => rfl⟩
  | some slot =>
    rw [hslot] at hslotOf
    dsimp only
    by_cases hopen : slot.standing = .opened
    · have hkept := h.kept i
      rw [State.account, State.queueOf, hslotOf] at hkept
      have hroom := hkept.room_to_give_back (perm_hands hcopy slot.queue)
      rw [Trail.account, length_map] at hroom
      have henqueue : slot.enqueue sizes copy.requeue
          = some { slot with queue := slot.queue ++ [copy.requeue] } := if_pos hroom
      rw [if_pos hopen, henqueue]
      refine ⟨_, _, rfl, ?_, ?_, ?_⟩
      · have hany : ((s.slotOf i).any fun slot => slot.standing = .opened) = true := by
          rw [hslotOf]
          exact decide_eq_true hopen
        rw [hany]
        refine h.put hheld hslot rfl rfl rfl ?_ ?_
        · have hqueue : (slot.queue ++ [copy.requeue]).map Numbered.publish
              = ((s.trails i).account slot.queue).waiting ++ [copy.publish] := by
            rw [map_append]
            rfl
          dsimp only [Trail.account]
          rw [hqueue]
          exact .giveBack _ _ (perm_hands hcopy slot.queue)
        · exact (h.counted i slot hslotOf).trans (length_drop hcopy).symm
      · intro slot' hslot' _
        rw [hslotOf] at hslot'
        cases hslot'
        rfl
      · intro hnone
        rw [hslotOf] at hnone
        cases hnone
    · refine ⟨_, _, if_neg hopen, hlose ?_, ?_, fun _ => rfl⟩
      · rw [hslotOf]
        exact decide_eq_false hopen
      · intro slot' hslot' hopen'
        rw [hslotOf] at hslot'
        cases hslot'
        exact absurd hopen' hopen

/-- A message that is settled has a place to release, in its own slot or in none. -/
theorem Sound.release (h : Sound sizes s) (hheld : s.given[i]? = some held)
    (hsettling : (s.trails i).settling ≠ 0) :
    Sound sizes { s with
      bus := s.bus.settle held
      trails := update s.trails i
        { s.trails i with settling := (s.trails i).settling - 1 } } := by
  have hslotOf := slotOf_of_given hheld
  unfold Bus.settle
  cases hslot : s.bus.slot held with
  | none =>
    rw [hslot] at hslotOf
    exact h.retrail rfl (fun _ => .leave) (Or.inl hslotOf)
  | some slot =>
    rw [hslot] at hslotOf
    refine h.put hheld hslot rfl rfl rfl .leave ?_
    have hcounted := h.counted i slot hslotOf
    dsimp only
    omega

end Messages

/-- The subscriber leaves, and what waits is released with its subscription. -/
theorem Sound.unsubscribe (h : Sound sizes s) (hheld : s.given[i]? = some held)
    (hsubscriber : s.subscriber i = true) :
    Sound sizes { s with
      bus := s.bus.unsubscribe held
      subscriber := update s.subscriber i false
      trails := update s.trails i { s.trails i with
        released := (s.trails i).released ++ (s.queueOf i).map Numbered.publish } } := by
  obtain ⟨slot, hslot⟩ := Option.isSome_iff_exists.mp ((h.subscribed i held hheld).mp hsubscriber)
  have hbus : s.bus.unsubscribe held = s.bus.put held.index slot.freed := by
    rw [Bus.unsubscribe, hslot]
  have hqueue : s.queueOf i = slot.queue := by
    rw [State.queueOf, slotOf_of_given hheld, hslot]
    rfl
  have hself : update s.subscriber i false i = true ↔ slot.freed.standing ≠ .free := by
    rw [update_self]
    exact iff_of_false Bool.false_ne_true fun hopen => hopen rfl
  have hgeneration : slot.freed.generation = slot.generation := rfl
  have hfreed : slot.freed.standing = .free := rfl
  rw [hbus, hqueue]
  exact h.change hheld hslot hgeneration (fun _ => ⟨rfl, rfl⟩) hself
    (fun j hj => update_of_ne hj _ _) rfl .drain fun hopen => absurd hfreed hopen

theorem closed_generation (slot : Slot Copy) : slot.closed.generation = slot.generation ∧
      (slot.closed.standing = .free ↔ slot.standing = .free) := by
  unfold Slot.closed
  split_ifs with hopen
  · exact ⟨rfl, by simp [hopen]⟩
  · exact ⟨rfl, Iff.rfl⟩

/-- A shutdown moves no copy. -/
theorem Sound.shutDown (h : Sound sizes s) : Sound sizes { s with bus := s.bus.shutDown.2 } := by
  have hkeeps : ∀ slot : Slot Copy,
      slot.closed.queue = slot.queue ∧ slot.closed.inHand = slot.inHand := by
    intro slot
    unfold Slot.closed
    split_ifs <;> exact ⟨rfl, rfl⟩
  have hslot : ∀ held, s.bus.shutDown.2.slot held = (s.bus.slot held).map Slot.closed :=
    fun held => slot_map false closed_generation
  have hslotOf : ∀ i, State.slotOf { s with bus := s.bus.shutDown.2 } i
      = (s.slotOf i).map Slot.closed :=
    slotOf_map closed_generation rfl rfl
  refine ⟨h.no_fault, h.nodup, h.generation, ?_, ?_, ?_, ?_, ?_, h.accepted_lt, ?_⟩
  · intro index slot hget
    change (s.bus.slots.map Slot.closed)[index]? = some slot at hget
    rw [getElem?_map] at hget
    obtain ⟨before, hbefore, rfl⟩ := Option.map_eq_some_iff.mp hget
    exact (closed_generation before).1.trans (h.current index before hbefore)
  · intro slot hmem hfree
    obtain ⟨before, hbefore, rfl⟩ := mem_map.mp hmem
    rw [(hkeeps before).1, (hkeeps before).2]
    exact h.cleared before hbefore ((closed_generation before).2.mp hfree)
  · intro i held hheld
    rw [h.subscribed i held hheld, hslot held, Option.isSome_map]
  · intro i
    have hqueue : State.queueOf { s with bus := s.bus.shutDown.2 } i = s.queueOf i := by
      unfold State.queueOf
      rw [hslotOf i]
      cases s.slotOf i with
      | none => rfl
      | some slot => exact (hkeeps slot).1
    rw [State.account, hqueue]
    exact h.kept i
  · intro i slot hslot
    rw [hslotOf i] at hslot
    obtain ⟨before, hbefore, rfl⟩ := Option.map_eq_some_iff.mp hslot
    rw [(hkeeps before).2]
    exact h.counted i before hbefore
  · intro f hf
    obtain ⟨hnumber, htarget, hiff⟩ := h.finished f hf
    exact ⟨hnumber, htarget, hiff⟩

theorem Sound.connect (h : Sound sizes s) : Sound sizes { s with bus := s.bus.connect } where
  no_fault := h.no_fault
  nodup := h.nodup
  generation := h.generation
  current := h.current
  cleared := h.cleared
  subscribed := h.subscribed
  kept := h.kept
  counted := h.counted
  accepted_lt := h.accepted_lt
  finished f hf :=
    have hfinished := h.finished f hf
    ⟨hfinished.number_lt, hfinished.target_lt, hfinished.accepted_iff⟩

end Calls

/-! ## A new subscriber -/

section Subscribe

variable {sizes : Sizes} {s : State} {bus' : Bus Copy} {held : Held} {name : String}

/-- A subscription opens in a free slot, under the slot's next generation. -/
theorem exists_of_subscribe {α : Type} {bus bus' : Bus α}
    (h : bus.subscribe sizes name = .ok (held, bus')) :
    ∃ slot, bus.slots[held.index]? = some slot ∧ slot.standing = .free ∧
      held.generation = slot.generation + 1 ∧
      bus' = bus.put held.index { slot with
        generation := slot.generation + 1, standing := .opened, name := some name } := by
  unfold Bus.subscribe at h
  split_ifs at h
  split at h
  · cases h
  · rename_i slot index hfind
    have hmem := mem_of_find?_eq_some hfind
    have hfree := find?_some hfind
    cases h
    exact ⟨slot, mk_mem_zipIdx_iff_getElem?.mp hmem, of_decide_eq_true hfree, rfl, rfl⟩

theorem subscribersOf_snoc (given : List Held) (held : Held) (index : ℕ) :
    subscribersOf (given ++ [held]) index
      = subscribersOf given index + if held.index = index then 1 else 0 := by
  rw [subscribersOf, countP_append, countP_singleton]
  simp only [decide_eq_true_eq, subscribersOf]

/-- The generations of up to `2 ^ 32` subscribers are different. -/
theorem ofNat_ne {m n : ℕ} (hm : 1 ≤ m) (hmn : m < n) (hn : n ≤ 2 ^ 32) :
    UInt32.ofNat m ≠ UInt32.ofNat n := by
  intro heq
  have hnat := congrArg UInt32.toNat heq
  rw [UInt32.toNat_ofNat', UInt32.toNat_ofNat'] at hnat
  omega

/-- The next generation of a slot was given to nobody yet. -/
theorem Sound.held_fresh (h : Sound sizes s) (hbound : Bounded { s with given := s.given ++ [held] })
    {slot : Slot Copy} (hget : s.bus.slots[held.index]? = some slot)
    (hgeneration : held.generation = slot.generation + 1) : held ∉ s.given := by
  intro hmem
  obtain ⟨m, hm, hle, heq⟩ := h.generation held hmem
  have hcount := hbound held.index
  rw [subscribersOf_snoc, if_pos rfl] at hcount
  have hnext : held.generation = UInt32.ofNat (subscribersOf s.given held.index + 1) := by
    rw [hgeneration, h.current held.index slot hget, UInt32.ofNat_add]
    rfl
  exact ofNat_ne hm (Nat.lt_succ_of_le hle) hcount (heq.symm.trans hnext)

/-- What a subscription finds after a new one took a free slot. -/
theorem slotOf_subscribe {slot slot' : Slot Copy} {s' : State} (hfresh : held ∉ s.given)
    (hget : s.bus.slots[held.index]? = some slot) (hfree : slot.standing = .free)
    (hgeneration : slot'.generation = held.generation) (hopen : slot'.standing ≠ .free)
    (hbus : s'.bus = s.bus.put held.index slot') (hgiven : s'.given = s.given ++ [held]) (j : ℕ) :
    s'.slotOf j = if j = s.given.length then some slot' else s.slotOf j := by
  have hslot : ∀ held', s'.bus.slot held' = if held' = held then some slot' else s.bus.slot held' := by
    intro held'
    rw [hbus, slot_put hget (Or.inr hfree) hgeneration, if_neg hopen]
  unfold State.slotOf
  rw [hgiven]
  split_ifs with hj
  · rw [hj, getElem?_append_right le_rfl, Nat.sub_self, getElem?_cons_zero,
      Option.bind_some, hslot, if_pos rfl]
  · cases hheld' : s.given[j]? with
    | some held' =>
      have hlt := (List.getElem?_eq_some_iff.mp hheld').1
      have hne : held' ≠ held := fun heq => hfresh (heq ▸ mem_of_getElem? hheld')
      rw [getElem?_append_left hlt, hheld', Option.bind_some, Option.bind_some, hslot,
        if_neg hne]
    | none =>
      have hge := getElem?_eq_none_iff.mp hheld'
      have hnone : (s.given ++ [held])[j]? = none := by
        rw [getElem?_eq_none_iff, length_append, length_singleton]
        omega
      rw [hnone]
      rfl

/-- A subscriber takes a free slot. -/
theorem Sound.subscribe (h : Sound sizes s)
    (hbound : Bounded { s with given := s.given ++ [held] })
    (hsubscribe : s.bus.subscribe sizes name = .ok (held, bus')) :
    Sound sizes { s with
      bus := bus', given := s.given ++ [held]
      subscriber := update s.subscriber s.given.length true
      trails := update s.trails s.given.length .new } := by
  obtain ⟨slot, hget, hfree, hgeneration, rfl⟩ := exists_of_subscribe hsubscribe
  have hfresh := h.held_fresh hbound hget hgeneration
  obtain ⟨hempty, hnobody⟩ := h.cleared slot (mem_of_getElem? hget) hfree
  generalize hslot' : Slot.mk (slot.generation + 1) .opened (some name) slot.queue slot.inHand
    = slot'
  have hopen : slot'.standing ≠ .free := by
    rw [← hslot']
    exact Standing.noConfusion
  have hslotOf : ∀ j, State.slotOf { s with
      bus := s.bus.put held.index slot', given := s.given ++ [held]
      subscriber := update s.subscriber s.given.length true
      trails := update s.trails s.given.length .new } j
      = if j = s.given.length then some slot' else s.slotOf j :=
    slotOf_subscribe hfresh hget hfree (by rw [← hslot', hgeneration]) hopen rfl rfl
  refine ⟨h.no_fault, ?_, ?_, ?_, ?_, ?_, ?_, ?_, ?_, ?_⟩
  · exact nodup_append.mpr ⟨h.nodup, nodup_singleton held, fun a ha b hb heq =>
      hfresh (by rwa [← mem_singleton.mp hb, ← heq])⟩
  · intro held' hmem
    dsimp only at hmem ⊢
    rw [subscribersOf_snoc]
    rcases mem_append.mp hmem with hmem | hmem
    · obtain ⟨m, hm, hle, heq⟩ := h.generation held' hmem
      exact ⟨m, hm, Nat.le_add_right_of_le hle, heq⟩
    · rw [mem_singleton.mp hmem, if_pos rfl]
      refine ⟨subscribersOf s.given held.index + 1, Nat.le_add_left 1 _, le_rfl, ?_⟩
      rw [hgeneration, h.current held.index slot hget, UInt32.ofNat_add]
      rfl
  · intro index other hother
    dsimp only
    rw [subscribersOf_snoc]
    by_cases hindex : held.index = index
    · subst hindex
      have hlt := (List.getElem?_eq_some_iff.mp hget).1
      rw [Bus.put, getElem?_set_self hlt] at hother
      cases hother
      rw [if_pos rfl, ← hslot', h.current held.index slot hget, UInt32.ofNat_add]
      rfl
    · rw [Bus.put, getElem?_set_ne hindex] at hother
      rw [if_neg hindex]
      exact h.current index other hother
  · intro other hother hfree'
    rcases mem_or_eq_of_mem_set hother with hother | rfl
    · exact h.cleared other hother hfree'
    · exact absurd hfree' hopen
  · intro j held' hj
    rw [← slotOf_of_given hj, hslotOf]
    by_cases hlast : j = s.given.length
    · rw [if_pos hlast, hlast]
      exact iff_of_true (update_self ..) rfl
    · have hlt := (List.getElem?_eq_some_iff.mp hj).1
      rw [length_append, length_singleton] at hlt
      have hbefore : s.given[j]? = some held' := (getElem?_append_left (by omega)).symm.trans hj
      rw [if_neg hlast, slotOf_of_given hbefore]
      exact (Bool.eq_iff_iff.mp (update_of_ne hlast ..)).trans (h.subscribed j held' hbefore)
  · intro j
    unfold State.account State.queueOf
    rw [hslotOf j]
    by_cases hj : j = s.given.length
    · have hwaiting : slot'.queue = [] := by
        rw [← hslot']
        exact hempty
      rw [if_pos hj]
      simp only [hj, update_self, Option.elim_some, hwaiting]
      exact Account.kept_empty _
    · simp only [if_neg hj, update_of_ne hj]
      exact h.kept j
  · intro j other hother
    rw [hslotOf j] at hother
    by_cases hj : j = s.given.length
    · rw [if_pos hj] at hother
      cases hother
      simp only [hj, update_self]
      rw [← hslot']
      exact hnobody
    · rw [if_neg hj] at hother
      simp only [update_of_ne hj]
      exact h.counted j other hother
  · intro j n hn
    by_cases hj : j = s.given.length
    · subst hj
      simp only [update_self] at hn
      exact absurd hn not_mem_nil
    · simp only [update_of_ne hj] at hn
      exact h.accepted_lt j n hn
  · intro f hf
    obtain ⟨hnumber, htarget, hiff⟩ := h.finished f hf
    refine ⟨hnumber, fun j hj => ?_, fun j => ?_⟩
    · rw [length_append]
      exact Nat.lt_add_right _ (htarget j hj)
    · by_cases hj : j = s.given.length
      · -- nobody published to a subscription that was not there
        subst hj
        simp only [update_self]
        refine ⟨fun hn => absurd hn not_mem_nil, fun hn => ?_⟩
        exact absurd (htarget s.given.length hn.2) (lt_irrefl _)
      · simp only [update_of_ne hj]
        exact hiff j

end Subscribe

/-! ## A publish -/

section Publish

variable {sizes : Sizes} {s : State} {name : String} {delivery : Copy} {size : ℕ}

/-- A slot after a publish to `name` was taken. -/
def received (name : String) (delivery : Copy) (slot : Slot Copy) : Slot Copy :=
  if slot.reads name then { slot with queue := slot.queue ++ [delivery] } else slot

theorem mapM_receive {slots : List (Slot Copy)}
    (hroom : ∀ slot ∈ slots, slot.reads name = true → slot.hasRoom sizes = true) :
    slots.mapM (Slot.receive sizes name delivery) = some (slots.map (received name delivery)) := by
  induction slots with
  | nil => rfl
  | cons slot slots ih =>
    have hhead : slot.receive sizes name delivery = some (received name delivery slot) := by
      unfold Slot.receive received
      split_ifs with hreads
      · have hlt := hroom slot mem_cons_self hreads
        simp only [Slot.hasRoom, decide_eq_true_eq] at hlt
        exact if_pos (Nat.lt_of_le_of_lt (Nat.le_add_right _ _) hlt)
      · rfl
    rw [mapM_cons, hhead, ih fun slot hslot => hroom slot (mem_cons_of_mem _ hslot)]
    rfl

/-- A publish that every reader has room for is taken. -/
theorem fanout_taken {bus : Bus Copy} (hlive : bus.live = true)
    (hroom : ∀ slot ∈ bus.slots, slot.reads name = true → slot.hasRoom sizes = true)
    (hsize : (bus.slots.countP fun slot => slot.reads name) = 0 ∨ size ≤ sizes.payload) :
    bus.fanout sizes name size delivery
      = some (.ok (), { bus with slots := bus.slots.map (received name delivery) }) := by
  have hlive' : ¬bus.live = false := by simp [hlive]
  have hfull : ¬(bus.slots.any fun slot => slot.reads name && !slot.hasRoom sizes) = true := by
    intro hany
    obtain ⟨slot, hslot, hboth⟩ := any_eq_true.mp hany
    rw [Bool.and_eq_true] at hboth
    rw [hroom slot hslot hboth.1] at hboth
    exact Bool.noConfusion hboth.2
  by_cases hnobody : (bus.slots.countP fun slot => slot.reads name) = 0
  · have hsame : bus.slots.map (received name delivery) = bus.slots := by
      conv_rhs => rw [← map_id bus.slots]
      refine map_congr_left fun slot hslot => ?_
      exact if_neg (countP_eq_zero.mp hnobody slot hslot)
    rw [Bus.fanout, if_neg hlive', if_neg hfull, if_pos hnobody, hsame]
  · have hsize' := Nat.not_lt.mpr (hsize.resolve_left hnobody)
    rw [Bus.fanout, if_neg hlive', if_neg hfull, if_neg hnobody, if_neg hsize', mapM_receive hroom]
    rfl

theorem room_of_not_full {slots : List (Slot Copy)}
    (hfull : ¬(slots.any fun slot => slot.reads name && !slot.hasRoom sizes) = true) :
    ∀ slot ∈ slots, slot.reads name = true → slot.hasRoom sizes = true := by
  intro slot hslot hreads
  by_contra hroom
  refine hfull (any_eq_true.mpr ⟨slot, hslot, ?_⟩)
  rw [hreads, Bool.of_not_eq_true hroom]
  rfl

/-- A publish is refused and changes nothing, or every slot that reads its name has room and receives
it. -/
theorem exists_fanout (bus : Bus Copy) :
    (∃ error, bus.fanout sizes name size delivery = some (.error error, bus)) ∨
    (bus.fanout sizes name size delivery
        = some (.ok (), { bus with slots := bus.slots.map (received name delivery) }) ∧
      ∀ slot ∈ bus.slots, slot.reads name = true → slot.hasRoom sizes = true) := by
  by_cases hlive : bus.live = false
  · exact Or.inl ⟨.shutDown, by rw [Bus.fanout, if_pos hlive]⟩
  by_cases hfull : (bus.slots.any fun slot => slot.reads name && !slot.hasRoom sizes) = true
  · exact Or.inl ⟨.full sizes.messages, by rw [Bus.fanout, if_neg hlive, if_pos hfull]⟩
  have hroom := room_of_not_full hfull
  by_cases hsize : (bus.slots.countP fun slot => slot.reads name) = 0 ∨ size ≤ sizes.payload
  · exact Or.inr ⟨fanout_taken (Bool.of_not_eq_false hlive) hroom hsize, hroom⟩
  · rw [not_or, Nat.not_le] at hsize
    refine Or.inl ⟨.payloadTooLarge size sizes.payload, ?_⟩
    rw [Bus.fanout, if_neg hlive, if_neg hfull, if_neg hsize.1, if_pos hsize.2]

theorem received_generation (slot : Slot Copy) :
    (received name delivery slot).generation = slot.generation ∧
      ((received name delivery slot).standing = .free ↔ slot.standing = .free) := by
  unfold received
  split_ifs <;> exact ⟨rfl, Iff.rfl⟩

theorem received_inHand (slot : Slot Copy) :
    (received name delivery slot).inHand = slot.inHand := by
  unfold received
  split_ifs <;> rfl

theorem mem_reading_iff {i : ℕ} :
    i ∈ s.reading name ↔ ∃ slot, s.slotOf i = some slot ∧ slot.reads name = true := by
  rw [State.reading, mem_filter, mem_range, Option.any_eq_true]
  refine ⟨fun h => h.2, fun h => ⟨?_, h⟩⟩
  obtain ⟨slot, hslot, -⟩ := h
  obtain ⟨held, hheld, -⟩ := Option.bind_eq_some_iff.mp hslot
  exact (List.getElem?_eq_some_iff.mp hheld).1

/-- A publish that is refused reaches nobody. -/
theorem Sound.refuse (h : Sound sizes s) (name : String) : Sound sizes (s.finish name false) where
  no_fault := h.no_fault
  nodup := h.nodup
  generation := h.generation
  current := h.current
  cleared := h.cleared
  subscribed := h.subscribed
  kept := h.kept
  counted := h.counted
  accepted_lt i n hn := Nat.lt_succ_of_lt (h.accepted_lt i n hn)
  finished f hf := by
    rcases mem_append.mp hf with hf | hf
    · obtain ⟨hnumber, htarget, hiff⟩ := h.finished f hf
      exact ⟨Nat.lt_succ_of_lt hnumber, htarget, hiff⟩
    · rw [mem_singleton.mp hf]
      refine ⟨Nat.lt_succ_self _, fun i hi => ?_, fun i => ?_⟩
      · exact mem_range.mp (mem_of_mem_filter hi)
      · exact ⟨fun hmem => absurd (h.accepted_lt i _ hmem) (lt_irrefl _),
          fun htaken => by cases htaken.1⟩

/-- A publish is taken: the bus and the copies it made. -/
def State.spread (s : State) (name : String) (delivery : LocalDelivery .noAlloc) : State :=
  { s.finish name true with
    bus := { s.bus with slots := s.bus.slots.map (received name ⟨s.published, delivery⟩) }
    trails := fun i =>
      if i ∈ s.reading name then
        { s.trails i with accepted := (s.trails i).accepted ++ [s.published] }
      else s.trails i }

theorem slotOf_spread (s : State) (delivery : LocalDelivery .noAlloc) (i : ℕ) :
    (s.spread name delivery).slotOf i = (s.slotOf i).map (received name ⟨s.published, delivery⟩) := by
  refine slotOf_map received_generation ?_ ?_ i <;> rfl

/-- A publish that is taken reaches every open subscription of its name. -/
theorem Sound.publish (h : Sound sizes s) {delivery : LocalDelivery .noAlloc}
    (hroom : ∀ slot ∈ s.bus.slots, slot.reads name = true → slot.hasRoom sizes = true) :
    Sound sizes (s.spread name delivery) := by
  have hfresh : ∀ i, s.published ∉ (s.trails i).accepted := fun i hmem =>
    lt_irrefl _ (h.accepted_lt i _ hmem)
  refine ⟨h.no_fault, h.nodup, h.generation, ?_, ?_, ?_, ?_, ?_, ?_, ?_⟩
  · intro index slot hget
    change (s.bus.slots.map (received name _))[index]? = some slot at hget
    rw [getElem?_map] at hget
    obtain ⟨before, hbefore, rfl⟩ := Option.map_eq_some_iff.mp hget
    exact (received_generation before).1.trans (h.current index before hbefore)
  · intro slot hmem hfree
    obtain ⟨before, hbefore, rfl⟩ := mem_map.mp hmem
    have hfree' := (received_generation before).2.mp hfree
    have hsame : received name ⟨s.published, delivery⟩ before = before := by
      refine if_neg ?_
      simp [Slot.reads, hfree']
    rw [hsame]
    exact h.cleared before hbefore hfree'
  · intro i held hheld
    have hbefore : s.given[i]? = some held := hheld
    rw [← slotOf_of_given hheld, slotOf_spread, Option.isSome_map, slotOf_of_given hbefore]
    exact h.subscribed i held hheld
  · intro i
    unfold State.account State.queueOf
    rw [slotOf_spread]
    dsimp only [State.spread]
    have hkept := h.kept i
    unfold State.account State.queueOf at hkept
    by_cases hreading : i ∈ s.reading name
    · obtain ⟨slot, hslot, hreads⟩ := mem_reading_iff.mp hreading
      obtain ⟨held, -, hfound⟩ := Option.bind_eq_some_iff.mp hslot
      have hmem := mem_of_getElem? (slot_eq_some_iff.mp hfound).1
      have hfree := hroom slot hmem hreads
      have hcounted := h.counted i slot hslot
      rw [hslot] at hkept ⊢
      rw [if_pos hreading, Option.map_some, Option.elim_some, received, if_pos hreads]
      rw [Option.elim_some] at hkept
      have hreserved : ((s.trails i).account slot.queue).waiting.length
          + ((s.trails i).account slot.queue).held < sizes.messages := by
        simp only [Slot.hasRoom, decide_eq_true_eq] at hfree
        simp only [Trail.account, Account.held, length_map]
        omega
      have hfilled := (hkept.move (.reserve rfl hreserved)).move
        (.fill s.published rfl (hfresh i))
      have hqueue : (slot.queue ++ [(⟨s.published, delivery⟩ : Copy)]).map Numbered.publish
          = ((s.trails i).account slot.queue).waiting ++ [s.published] := by
        rw [map_append]
        rfl
      dsimp only [Trail.account]
      rw [hqueue]
      exact hfilled
    · rw [if_neg hreading]
      cases hslot : s.slotOf i with
      | none =>
        rw [hslot] at hkept
        exact hkept
      | some slot =>
        have hnot : ¬slot.reads name = true := fun hreads =>
          hreading (mem_reading_iff.mpr ⟨slot, hslot, hreads⟩)
        rw [hslot] at hkept
        rw [Option.map_some, received, if_neg hnot]
        exact hkept
  · intro i slot hslot
    rw [slotOf_spread] at hslot
    obtain ⟨before, hbefore, rfl⟩ := Option.map_eq_some_iff.mp hslot
    rw [received_inHand, h.counted i before hbefore]
    dsimp only [State.spread]
    split_ifs <;> rfl
  · intro i n hn
    dsimp only [State.spread] at hn
    split_ifs at hn
    · rcases mem_append.mp hn with hn | hn
      · exact Nat.lt_succ_of_lt (h.accepted_lt i n hn)
      · rw [mem_singleton.mp hn]
        exact Nat.lt_succ_self _
    · exact Nat.lt_succ_of_lt (h.accepted_lt i n hn)
  · intro f hf
    rcases mem_append.mp hf with hf | hf
    · obtain ⟨hnumber, htarget, hiff⟩ := h.finished f hf
      refine ⟨Nat.lt_succ_of_lt hnumber, htarget, fun i => ?_⟩
      dsimp only [State.spread]
      split_ifs
      · rw [← hiff i, mem_append, mem_singleton]
        exact or_iff_left hnumber.ne
      · exact hiff i
    · rw [mem_singleton.mp hf]
      refine ⟨Nat.lt_succ_self _, fun i hi => ?_, fun i => ?_⟩
      · exact mem_range.mp (mem_of_mem_filter hi)
      · dsimp only [State.spread]
        split_ifs with hreading
        · exact iff_of_true (mem_append_right _ (mem_singleton_self _)) ⟨rfl, hreading⟩
        · exact iff_of_false (hfresh i) fun h => hreading h.2

end Publish

/-! ## Runs -/

section Runs

variable {sizes : Sizes} {s s' : State} {e : Event}

theorem lists_handOut (s : State) (i : ℕ) (next : Option Copy × Bus Copy) :
    (s.handOut i next).given = s.given ∧ (s.handOut i next).finished = s.finished := by
  obtain ⟨copy, bus⟩ := next
  cases copy <;> exact ⟨rfl, rfl⟩

/-- Subscribers come one at a time, and so do the publishes that end. -/
theorem lists_of_step (hstep : step sizes s e = some s') :
    (s'.given = s.given ∨ ∃ held, s'.given = s.given ++ [held]) ∧ (s'.finished = s.finished ∨
        ∃ f, s'.finished = s.finished ++ [f] ∧ f.targets = s.reading f.name) := by
  cases e with
  | subscribe name =>
    rw [step] at hstep
    split at hstep
    · cases hstep
      exact ⟨Or.inr ⟨_, rfl⟩, Or.inl rfl⟩
    · cases hstep
      exact ⟨Or.inl rfl, Or.inl rfl⟩
  | publish name delivery =>
    rw [step] at hstep
    split at hstep
    · cases hstep
      exact ⟨Or.inl rfl, Or.inr ⟨_, rfl, rfl⟩⟩
    · cases hstep
      exact ⟨Or.inl rfl, Or.inr ⟨_, rfl, rfl⟩⟩
    · cases hstep
      exact ⟨Or.inl rfl, Or.inl rfl⟩
  | connect | shutDown =>
    cases hstep
    exact ⟨Or.inl rfl, Or.inl rfl⟩
  | unsubscribe i | release i =>
    rw [step] at hstep
    split at hstep
    · cases hstep
    · split_ifs at hstep
      cases hstep
      exact ⟨Or.inl rfl, Or.inl rfl⟩
  | pollNext i | tryNext i =>
    rw [step] at hstep
    split at hstep
    · cases hstep
    · split_ifs at hstep
      cases hstep
      exact (lists_handOut s i _).imp Or.inl Or.inl
  | settle i k =>
    rw [step] at hstep
    split at hstep <;> cases hstep
    exact ⟨Or.inl rfl, Or.inl rfl⟩
  | requeue i k =>
    rw [step] at hstep
    split at hstep
    · split at hstep <;> cases hstep <;> exact ⟨Or.inl rfl, Or.inl rfl⟩
    · cases hstep

theorem bounded_of_step (hstep : step sizes s e = some s') (hbound : Bounded s') : Bounded s := by
  intro index
  have hcount := hbound index
  rcases (lists_of_step hstep).1 with heq | ⟨held, heq⟩
  · rwa [heq] at hcount
  · rw [heq, subscribersOf_snoc] at hcount
    exact Nat.le_of_add_right_le hcount

/-- Every call keeps the invariant, until a generation wraps. -/
theorem step_sound (h : Sound sizes s) (hbound : Bounded s') (hstep : step sizes s e = some s') :
    Sound sizes s' := by
  cases e with
  | connect =>
    cases hstep
    exact h.connect
  | shutDown =>
    cases hstep
    exact h.shutDown
  | subscribe name =>
    rw [step] at hstep
    split at hstep
    · rename_i held bus' hsubscribe
      cases hstep
      exact h.subscribe hbound hsubscribe
    · cases hstep
      exact h
  | unsubscribe i =>
    rw [step] at hstep
    split at hstep
    · cases hstep
    · rename_i held hheld
      split_ifs at hstep with hsubscriber
      cases hstep
      exact h.unsubscribe hheld hsubscriber
  | publish name delivery =>
    rw [step] at hstep
    rcases @exists_fanout sizes name ⟨s.published, delivery⟩ delivery.payload.length s.bus with
      ⟨error, hfanout⟩ | ⟨hfanout, hroom⟩
    · rw [hfanout] at hstep
      cases hstep
      exact h.refuse name
    · rw [hfanout] at hstep
      cases hstep
      exact h.publish hroom
  | pollNext i =>
    rw [step] at hstep
    split at hstep
    · cases hstep
    · rename_i held hheld
      split_ifs at hstep
      cases hstep
      exact h.pollNext hheld
  | tryNext i =>
    rw [step] at hstep
    split at hstep
    · cases hstep
    · rename_i held hheld
      split_ifs at hstep
      cases hstep
      exact h.tryNext hheld
  | settle i k =>
    rw [step] at hstep
    split at hstep
    · cases hstep
    · rename_i copy hcopy
      cases hstep
      exact h.settle hcopy
  | requeue i k =>
    rw [step] at hstep
    split at hstep
    · rename_i held copy hheld hcopy
      obtain ⟨answer, bus, hrequeue, hsound, -⟩ := h.requeue hheld hcopy
      rw [hrequeue] at hstep
      cases hstep
      exact hsound
    · cases hstep
  | release i =>
    rw [step] at hstep
    split at hstep
    · cases hstep
    · rename_i held hheld
      split_ifs at hstep with hsettling
      cases hstep
      exact h.release hheld hsettling

theorem Sound.exec {es : List Event} (h : Sound sizes s)
    (hexec : Run.exec (step sizes) s es = some s') (hbound : Bounded s') : Sound sizes s' := by
  refine Run.exec_always (P := fun s => Bounded s → Sound sizes s) ?_ (fun _ => h) hexec hbound
  intro s e s' h hstep hbound
  exact step_sound (h (bounded_of_step hstep hbound)) hbound hstep

end Runs

end RustStream.Fixed
