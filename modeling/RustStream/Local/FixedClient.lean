import RustStream.Local.Client
import RustStream.Local.Slots

/-!
# A client of the fixed bus

Every call of a client is one section, or two where a message is dropped. Between the calls every slot
that is taken is the slot of some subscriber, and a client that stays within the limits of the bus
sees what `Client.View.perform` says.

## Main definitions

* `Fixed.State.perform`: a call and its answer.
* `Fixed.State.view`: what a client knows of the bus.
* `Fixed.Within`: the limits of the bus.
* `Fixed.Quiet`: the bus between the calls of a client.

## Main results

* `Fixed.perform_follows`: within the limits, the calls do to the view what `Client.View.perform`
  says.
-/

namespace RustStream.Fixed

open Function List Client Lockstep

/-! ## The calls -/

def LocalMemoryError.kind : LocalMemoryError → ErrorKind
  | .shutDown => .shutDown
  | .full _ => .full
  | .payloadTooLarge _ _ => .payloadTooLarge
  | .noFreeSubscription _ => .noFreeSubscription
  | .nameTooLong _ => .nameTooLong

/-- The longest name the bus copies, in bytes. -/
def nameBytes : ℕ := 64

namespace State

/-- What an attempt to subscribe is answered. A literal is held whole; any other name has to fit. -/
def subscribeAnswer (sizes : Sizes) (s : State) (name : String) (literal : Bool) :
    Except LocalMemoryError Unit :=
  if literal = false ∧ nameBytes < name.utf8ByteSize then .error (.nameTooLong nameBytes)
  else (s.bus.subscribe sizes name).map fun _ => ()

/-- What a publish is answered. -/
def fanoutAnswer (sizes : Sizes) (s : State) (name : String) (delivery : LocalDelivery .noAlloc) :
    Reply :=
  match s.bus.fanout sizes name delivery.payload.length ⟨s.published, delivery⟩ with
  | some (answer, _) => .result (answer.mapError LocalMemoryError.kind)
  | none => .panicked

/-- What the requeue of a message is answered. -/
def requeueAnswer (sizes : Sizes) (s : State) (held : Held) (copy : Copy) : Reply :=
  match s.bus.requeue sizes held copy.requeue with
  | some (answer, _) => .result (answer.mapError LocalMemoryError.kind)
  | none => .panicked

/-- The sections of a call run one after the other. -/
def call (sizes : Sizes) (s : State) (sections : List Event) (reply : Reply) :
    Option (Reply × State) :=
  (Run.exec (step sizes) s sections).map (reply, ·)

/-- A call and its answer, where a client can make it. -/
def perform (sizes : Sizes) (s : State) : Operation → Option (Reply × State)
  | .connect => s.call sizes [.connect] .done
  | .subscribe name literal =>
    s.call sizes
      (if literal = false ∧ nameBytes < name.utf8ByteSize then [] else [.subscribe name])
      (.result ((s.subscribeAnswer sizes name literal).mapError LocalMemoryError.kind))
  | .publish name payload pairs =>
    match headersOf .noAlloc pairs with
    | .error _ => none
    | .ok headers =>
      s.call sizes [.publish name (deliveryOf payload headers)]
        (s.fanoutAnswer sizes name (deliveryOf payload headers))
  | .poll i =>
    match s.given[i]? with
    | none => none
    | some held => s.call sizes [.pollNext i] (.polled (shown (s.bus.pollNext held).1))
  | .ack i k => s.call sizes [.settle i k, .release i] (.result (.ok ()))
  | .nack i k false => s.call sizes [.settle i k, .release i] (.result (.ok ()))
  | .nack i k true =>
    match s.given[i]?, (s.trails i).hands[k]? with
    | some held, some copy =>
      s.call sizes [.requeue i k, .release i] (s.requeueAnswer sizes held copy)
    | _, _ => none
  | .drop i k => s.call sizes [.requeue i k, .release i] .done
  | .leave i => s.call sizes [.unsubscribe i] .done
  | .shutDown => s.call sizes [.shutDown] (.closed s.bus.shutDown.1)

end State

/-! ## The view -/

def Slot.reader (slot : Slot Copy) : Reader :=
  ⟨slot.name.getD "", slot.queue.map seenCopy, slot.inHand, slot.standing = .shutDown⟩

/-- What a client knows of the bus. -/
def State.view (s : State) : View where
  live := s.bus.live
  opened := s.given.length
  readers := fun i => (s.slotOf i).map Slot.reader
  hands := fun i => (s.trails i).hands.map seenCopy

/-- Whether the bus refuses what comes back to a subscription whose subscriber left: the slot is gone,
so it goes by whether the bus is live now. -/
def State.refuses (s : State) (_ : ℕ) : Bool :=
  !s.bus.live

/-- Whether the slot a subscriber would take has had fewer than `2 ^ 32` subscribers. -/
def State.countable (sizes : Sizes) (s : State) (name : String) : Bool :=
  match s.bus.subscribe sizes name with
  | .ok (held, _) => subscribersOf s.given held.index < 2 ^ 32
  | .error _ => true

/-- The limits of the bus: names, headers and payloads fit, a subscriber finds a free slot, and the
slot's generation does not wrap. -/
def Within (sizes : Sizes) (s : State) : Operation → Prop
  | .subscribe name literal =>
    (literal = true ∨ name.utf8ByteSize ≤ nameBytes) ∧
    (s.bus.live = true → ∃ slot ∈ s.bus.slots, slot.standing = .free) ∧
    s.countable sizes name = true
  | .publish _ payload pairs =>
    payload.length ≤ sizes.payload ∧ (headersOf .noAlloc pairs).isOk = true
  | _ => True

instance (sizes : Sizes) (s : State) : DecidablePred (Within sizes s)
  | .subscribe name literal =>
    inferInstanceAs (Decidable ((literal = true ∨ name.utf8ByteSize ≤ nameBytes) ∧
      (s.bus.live = true → ∃ slot ∈ s.bus.slots, slot.standing = .free) ∧
      s.countable sizes name = true))
  | .publish _ payload pairs =>
    inferInstanceAs (Decidable (payload.length ≤ sizes.payload ∧
      (headersOf .noAlloc pairs).isOk = true))
  | .connect => isTrue trivial
  | .poll _ => isTrue trivial
  | .ack _ _ => isTrue trivial
  | .nack _ _ _ => isTrue trivial
  | .drop _ _ => isTrue trivial
  | .leave _ => isTrue trivial
  | .shutDown => isTrue trivial

/-- The bus between the calls of a client. -/
structure Quiet (s : State) : Prop where
  none_settling : ∀ i, (s.trails i).settling = 0
  owned : ∀ index slot, s.bus.slots[index]? = some slot → slot.standing ≠ .free →
    ∃ i : ℕ, s.given[i]? = some ⟨index, slot.generation⟩
  named : ∀ slot ∈ s.bus.slots, slot.standing ≠ .free → slot.name.isSome = true
  unopened : ∀ i, s.given.length ≤ i → (s.trails i).hands = []

section

variable {sizes : Sizes} {i k : ℕ} {s s' : State} {held : Held} {copy : Copy}

theorem quiet_new (sizes : Sizes) : Quiet (State.new sizes) where
  none_settling _ := rfl
  owned index slot hget hopen := by
    rw [(mem_replicate.mp (mem_of_getElem? hget)).2] at hopen
    exact absurd rfl hopen
  named slot hslot hopen := by
    rw [(mem_replicate.mp hslot).2] at hopen
    exact absurd rfl hopen
  unopened _ _ := rfl

/-! ## One subscription changes -/

/-- Changes the slot of a subscriber, if it still has one. -/
def Bus.change (bus : Bus Copy) (held : Held) (f : Slot Copy → Slot Copy) : Bus Copy :=
  (bus.slot held).elim bus fun slot => bus.put held.index (f slot)

/-- A change that leaves a slot with its holder. -/
structure Stays (f : Slot Copy → Slot Copy) : Prop where
  generation : ∀ slot, (f slot).generation = slot.generation
  standing : ∀ slot, (f slot).standing = slot.standing
  name : ∀ slot, (f slot).name = slot.name

variable {bus : Bus Copy}

theorem change_change {f g : Slot Copy → Slot Copy} (hf : Stays f) :
    (bus.change held f).change held g = bus.change held (g ∘ f) := by
  unfold Bus.change
  cases hslot : bus.slot held with
  | none => simp [hslot]
  | some slot =>
    have hopen : (f slot).standing ≠ .free := by
      rw [hf.standing]
      exact (slot_eq_some_iff.mp hslot).2.2
    simp only [Option.elim_some, slot_put_self hslot (hf.generation slot), if_neg hopen]
    unfold Bus.put
    rw [set_set]
    rfl

variable {f : Slot Copy → Slot Copy}

theorem slotOf_change (hf : Stays f) (hnodup : s.given.Nodup)
    (hheld : s.given[i]? = some held) (trails : ℕ → Trail) (j : ℕ) :
    State.slotOf { s with bus := s.bus.change held f, trails := trails } j
      = if j = i then (s.slotOf i).map f else s.slotOf j := by
  have hslotOf := slotOf_of_given hheld
  unfold Bus.change
  cases hslot : s.bus.slot held with
  | none =>
    rw [hslot] at hslotOf
    rw [hslotOf]
    split_ifs with hj
    · subst hj
      exact hslotOf
    · rfl
  | some slot =>
    have hopen : (f slot).standing ≠ .free := by
      rw [hf.standing]
      exact (slot_eq_some_iff.mp hslot).2.2
    rw [hslotOf, hslot]
    refine (slotOf_put hnodup hheld hslot (hf.generation slot) trails s.subscriber j).trans ?_
    rw [if_neg hopen]
    rfl

theorem Quiet.change (h : Quiet s) (hf : Stays f) {trail : Trail}
    (hheld : s.given[i]? = some held) (hsettling : trail.settling = 0) : Quiet { s with
      bus := s.bus.change held f, trails := update s.trails i trail } := by
  have hlt := (List.getElem?_eq_some_iff.mp hheld).1
  have hslots : ∀ (index : ℕ) slot, (s.bus.change held f).slots[index]? = some slot →
      ∃ before, s.bus.slots[index]? = some before ∧ slot.generation = before.generation ∧
        slot.standing = before.standing ∧ slot.name = before.name := by
    intro index slot hget
    unfold Bus.change at hget
    cases hslot : s.bus.slot held with
    | none =>
      rw [hslot] at hget
      exact ⟨slot, hget, rfl, rfl, rfl⟩
    | some found =>
      obtain ⟨hfound, -⟩ := slot_eq_some_iff.mp hslot
      rw [hslot, Option.elim_some, Bus.put] at hget
      by_cases hindex : held.index = index
      · subst hindex
        rw [getElem?_set_self (List.getElem?_eq_some_iff.mp hfound).1] at hget
        cases hget
        exact ⟨found, hfound, hf.generation found, hf.standing found, hf.name found⟩
      · rw [getElem?_set_ne hindex] at hget
        exact ⟨slot, hget, rfl, rfl, rfl⟩
  refine ⟨fun j => ?_, fun index slot hget hopen => ?_, fun slot hslot hopen => ?_, fun j hle => ?_⟩
  · by_cases hj : j = i
    · subst hj
      simp only [update_self, hsettling]
    · simp only [update_of_ne hj, h.none_settling]
  · obtain ⟨before, hbefore, hgeneration, hstanding, -⟩ := hslots index slot hget
    rw [hgeneration]
    exact h.owned index before hbefore (hstanding ▸ hopen)
  · obtain ⟨index, hget⟩ := mem_iff_getElem?.mp hslot
    obtain ⟨before, hbefore, -, hstanding, hname⟩ := hslots index slot hget
    rw [hname]
    exact h.named before (mem_of_getElem? hbefore) (hstanding ▸ hopen)
  · have hle' : s.given.length ≤ j := hle
    simp only [update_of_ne (show j ≠ i by omega)]
    exact h.unopened j hle'

theorem view_change (hf : Stays f) {g : Reader → Reader} (trail : Trail)
    (hnodup : s.given.Nodup) (hheld : s.given[i]? = some held)
    (hreader : ∀ slot, s.slotOf i = some slot → (f slot).reader = g slot.reader) :
    State.view { s with bus := s.bus.change held f, trails := update s.trails i trail }
      = { s.view with
        readers := update s.view.readers i ((s.view.readers i).map g)
        hands := update s.view.hands i (trail.hands.map seenCopy) } := by
  have hslotOf := slotOf_change hf hnodup hheld (update s.trails i trail)
  ext1
  · unfold Bus.change State.view
    cases s.bus.slot held <;> rfl
  · rfl
  · funext j
    change (State.slotOf _ j).map Slot.reader = _
    rw [hslotOf]
    by_cases hj : j = i
    · subst hj
      simp only [update_self, if_true]
      dsimp only [State.view]
      cases hslot : s.slotOf j with
      | none => rfl
      | some slot => simp only [Option.map_some, hreader slot hslot]
    · simp only [update_of_ne hj, if_neg hj]
      rfl
  · exact funext (apply_update (fun _ trail => trail.hands.map seenCopy) s.trails i trail)

/-- A message leaves and its subscription changes with it. -/
theorem view_change_letGo (hf : Stays f) {g : Reader → Reader}
    {trail : Trail} (hnodup : s.given.Nodup) (hheld : s.given[i]? = some held)
    (hreader : ∀ slot, s.slotOf i = some slot → (f slot).reader = g slot.reader)
    (hhands : trail.hands = (s.trails i).hands.eraseIdx k) : State.view { s with
      bus := s.bus.change held f, trails := update s.trails i trail }
      = (s.view.letGo i k).change i g := by
  rw [view_change hf trail hnodup hheld hreader, hhands, ← eraseIdx_map]
  rfl

/-! ## Messages -/

/-- What every client within the limits can rely on between its calls. -/
def AtRest (sizes : Sizes) (s : State) : Prop :=
  Sound sizes s ∧ Bounded s ∧ Quiet s

/-- A call that ran to its end, with what it does to the view. -/
theorem together_of_exec {es : List Event} {v : View} (h : Sound sizes s)
    (hexec : Run.exec (step sizes) s es = some s') (hview : s'.view = v) (hbound : Bounded s')
    (hquiet : Quiet s') (reply : Reply) :
    Together (fun s v => s.view = v ∧ AtRest sizes s) True (s.call sizes es reply)
      (some (reply, v)) := by
  rw [State.call, hexec]
  exact .taken ⟨hview, h.exec hexec hbound, hbound, hquiet⟩ (iff_of_true rfl trivial)

theorem exists_held (hquiet : Quiet s) (hcopy : (s.trails i).hands[k]? = some copy) :
    ∃ held, s.given[i]? = some held := by
  by_contra hnone
  rw [not_exists, ← Option.eq_none_iff_forall_ne_some, getElem?_eq_none_iff] at hnone
  rw [hquiet.unopened i hnone] at hcopy
  cases hcopy

def Slot.release (slot : Slot Copy) : Slot Copy :=
  { slot with inHand := slot.inHand - 1 }

def Slot.giveBack (copy : Copy) (slot : Slot Copy) : Slot Copy :=
  if slot.standing = .opened then { slot with queue := slot.queue ++ [copy] } else slot

theorem stays_release : Stays Slot.release :=
  ⟨fun _ => rfl, fun _ => rfl, fun _ => rfl⟩

theorem stays_giveBack (copy : Copy) : Stays (Slot.giveBack copy) := by
  refine ⟨fun slot => ?_, fun slot => ?_, fun slot => ?_⟩
  all_goals
    unfold Slot.giveBack
    split_ifs <;> rfl

theorem Stays.comp {f g : Slot Copy → Slot Copy} (hg : Stays g) (hf : Stays f) : Stays (g ∘ f) where
  generation slot := (hg.generation _).trans (hf.generation slot)
  standing slot := (hg.standing _).trans (hf.standing slot)
  name slot := (hg.name _).trans (hf.name slot)

theorem settle_eq (bus : Bus Copy) (held : Held) :
    bus.settle held = bus.change held Slot.release := by
  unfold Bus.settle Bus.change
  cases bus.slot held <;> rfl

/-- The end of a message's drop. -/
theorem exec_release {e : Event} {trail : Trail} (hstep : step sizes s e = some { s with
      bus := bus, trails := update s.trails i trail })
    (hheld : s.given[i]? = some held) (hsettling : trail.settling = 1) :
    Run.exec (step sizes) s [e, .release i] = some { s with
      bus := bus.change held Slot.release, trails := update s.trails i { trail with settling := 0 } } := by
  rw [Run.exec, hstep]
  dsimp only
  rw [Run.exec, step]
  dsimp only
  rw [hheld]
  simp only [update_self, hsettling, settle_eq, update_idem]
  rfl

theorem exec_settle (h : Sound sizes s) (hcopy : (s.trails i).hands[k]? = some copy)
    (hbound : Bounded s) (hquiet : Quiet s) :
    ∃ s', Run.exec (step sizes) s [.settle i k, .release i] = some s' ∧
      s'.view = s.view.settled i k ∧ Bounded s' ∧ Quiet s' := by
  obtain ⟨held, hheld⟩ := exists_held hquiet hcopy
  have hsettling := hquiet.none_settling i
  have hstep : step sizes s (.settle i k) = some { s with
      bus := s.bus
      trails := update s.trails i { (s.trails i).drop k with
        settled := (s.trails i).settled ++ [copy.publish] } } := by
    rw [step, hcopy]
  refine ⟨_, exec_release hstep hheld ?_, ?_, hbound, hquiet.change stays_release hheld rfl⟩
  · dsimp only [Trail.drop]
    omega
  · exact view_change_letGo stays_release h.nodup hheld (fun _ _ => rfl) rfl

/-- Whether a requeue is refused: the slot says it, or, where that has gone, the bus. -/
def State.refusal (s : State) (i : ℕ) : Bool :=
  (s.slotOf i).elim (!s.bus.live) fun slot => slot.standing = .shutDown

theorem requeue_eq (h : Sound sizes s) (hheld : s.given[i]? = some held)
    (hcopy : (s.trails i).hands[k]? = some copy) : s.bus.requeue sizes held copy.requeue = some
      (if s.refusal i then .error .shutDown else .ok (),
        s.bus.change held (Slot.giveBack copy.requeue)) := by
  have hslotOf := slotOf_of_given hheld
  unfold Bus.requeue Bus.change
  cases hslot : s.bus.slot held with
  | none =>
    rw [hslot] at hslotOf
    have hrefusal : s.refusal i = !s.bus.live := by
      rw [State.refusal, hslotOf, Option.elim_none]
    rw [hrefusal]
    cases s.bus.live <;> rfl
  | some slot =>
    rw [hslot] at hslotOf
    have hrefusal : s.refusal i = decide (slot.standing = .shutDown) := by
      rw [State.refusal, hslotOf, Option.elim_some]
    have hkept := h.kept i
    rw [State.account, State.queueOf, hslotOf, Option.elim_some] at hkept
    have hroom := hkept.room_to_give_back (perm_hands hcopy slot.queue)
    rw [Trail.account, length_map] at hroom
    rw [hrefusal, Option.elim_some]
    dsimp only
    by_cases hopen : slot.standing = .opened
    · have hnot : slot.standing ≠ .shutDown := by
        rw [hopen]
        exact Standing.noConfusion
      rw [if_pos hopen, Slot.enqueue, if_pos hroom, Slot.giveBack, if_pos hopen,
        decide_eq_false hnot]
      rfl
    · have hclosed : slot.standing = .shutDown := by
        cases hstanding : slot.standing with
        | free => exact absurd hstanding (slot_eq_some_iff.mp hslot).2.2
        | opened => exact absurd hstanding hopen
        | shutDown => rfl
      have hsame : s.bus.put held.index slot = s.bus := by
        obtain ⟨hlt, hget⟩ := List.getElem?_eq_some_iff.mp (slot_eq_some_iff.mp hslot).1
        unfold Bus.put
        rw [← hget, set_getElem_self]
      rw [if_neg hopen, Slot.giveBack, if_neg hopen, decide_eq_true hclosed, hsame]
      rfl

theorem reader_giveBack {slot : Slot Copy} (hopen : slot.standing ≠ .free) :
    (slot.giveBack copy.requeue).reader = slot.reader.giveBack (seenCopy copy) := by
  unfold Slot.giveBack Reader.giveBack
  cases hstanding : slot.standing with
  | free => exact absurd hstanding hopen
  | opened =>
    have hclosed : slot.reader.closed = false := by
      rw [Slot.reader, hstanding]
      rfl
    rw [if_pos rfl, hclosed, Slot.reader, Slot.reader, map_append, hstanding]
    rfl
  | shutDown =>
    have hclosed : slot.reader.closed = true := by
      rw [Slot.reader, hstanding]
      rfl
    rw [if_neg Standing.noConfusion, hclosed]
    rfl

theorem exec_requeue (h : Sound sizes s) (hcopy : (s.trails i).hands[k]? = some copy)
    (hbound : Bounded s) (hquiet : Quiet s) :
    ∃ s', Run.exec (step sizes) s [.requeue i k, .release i] = some s' ∧
      s'.view = s.view.requeued i k (seenCopy copy) ∧ Bounded s' ∧ Quiet s' := by
  obtain ⟨held, hheld⟩ := exists_held hquiet hcopy
  have hsettling := hquiet.none_settling i
  have hstays := stays_release.comp (stays_giveBack copy.requeue)
  have hstep : ∃ released, step sizes s (.requeue i k) = some { s with
      bus := s.bus.change held (Slot.giveBack copy.requeue)
      trails := update s.trails i { (s.trails i).drop k with released := released } } := by
    rw [step, hheld, hcopy]
    dsimp only
    rw [requeue_eq h hheld hcopy]
    exact ⟨_, rfl⟩
  obtain ⟨released, hstep⟩ := hstep
  refine ⟨_, exec_release hstep hheld ?_, ?_, hbound, ?_⟩
  · dsimp only [Trail.drop]
    omega
  · rw [change_change (stays_giveBack copy.requeue)]
    refine view_change_letGo hstays h.nodup hheld (fun slot hslot => ?_) rfl
    have hopen : slot.standing ≠ .free := by
      rw [slotOf_of_given hheld] at hslot
      exact (slot_eq_some_iff.mp hslot).2.2
    rw [← reader_giveBack hopen]
    rfl
  · rw [change_change (stays_giveBack copy.requeue)]
    exact hquiet.change hstays hheld rfl

theorem requeueAnswer_eq (h : Sound sizes s) (hheld : s.given[i]? = some held)
    (hcopy : (s.trails i).hands[k]? = some copy) :
    s.requeueAnswer sizes held copy = .result (s.view.requeueAnswer s.refuses i) := by
  have helim : (s.view.readers i).elim (s.refuses i) Reader.closed = s.refusal i := by
    unfold State.view State.refusal
    dsimp only
    cases s.slotOf i <;> rfl
  unfold State.requeueAnswer View.requeueAnswer
  rw [requeue_eq h hheld hcopy, helim]
  cases s.refusal i <;> rfl

theorem exec_poll (sizes : Sizes) (h : Sound sizes s) (hbound : Bounded s) (hquiet : Quiet s)
    (hheld : s.given[i]? = some held) (hi : s.subscriber i = true) :
    ∃ s', Run.exec (step sizes) s [.pollNext i] = some s' ∧ Bounded s' ∧ Quiet s' ∧
      s.view.perform sizes.messages s.refuses (.poll i)
        = some (.polled (shown (s.bus.pollNext held).1), s'.view) := by
  obtain ⟨slot, hslot⟩ := Option.isSome_iff_exists.mp ((h.subscribed i held hheld).mp hi)
  have hslotOf := slotOf_of_given hheld
  rw [hslot] at hslotOf
  have hopen := (slot_eq_some_iff.mp hslot).2.2
  have hreader : s.view.readers i = some slot.reader := by
    exact congrArg (Option.map Slot.reader) hslotOf
  have hexec : ∀ {next}, (s.bus.pollNext held).map Poll.delivered id = next →
      Run.exec (step sizes) s [.pollNext i] = some (s.handOut i next) := by
    rintro next rfl
    rw [Run.exec, step, hheld]
    dsimp only
    rw [if_pos hi]
    rfl
  rw [View.perform, hreader]
  cases hqueue : slot.queue with
  | cons copy queue =>
    let take : Slot Copy → Slot Copy := fun slot =>
      { slot with queue := slot.queue.tail, inHand := slot.inHand + 1 }
    have hstays : Stays take := ⟨fun _ => rfl, fun _ => rfl, fun _ => rfl⟩
    have hnext : s.bus.pollNext held = (.ready (some copy), s.bus.change held take) := by
      rw [Bus.pollNext, Bus.change, hslot]
      dsimp only [Option.elim_some, take]
      rw [hqueue]
      rfl
    rw [hnext] at hexec
    refine ⟨_, hexec rfl, hbound, hquiet.change hstays hheld (hquiet.none_settling i), ?_⟩
    have hview := view_change hstays (g := fun reader =>
      { reader with queue := reader.queue.tail, inHand := reader.inHand + 1 })
      { s.trails i with hands := (s.trails i).hands ++ [copy] } h.nodup hheld (fun slot _ => ?_)
    · change _ = some (_, State.view _)
      rw [hnext]
      dsimp only [State.handOut, Prod.map, Poll.delivered, id]
      rw [hview, hreader]
      unfold Slot.reader
      rw [hqueue, map_append]
      rfl
    · unfold Slot.reader
      rw [map_tail]
  | nil =>
    have hnext : s.bus.pollNext held
        = (if slot.standing = .shutDown then .ready none else .pending, s.bus) := by
      rw [Bus.pollNext, hslot]
      dsimp only
      rw [hqueue]
      dsimp only
      split_ifs <;> rfl
    have hnone : (s.bus.pollNext held).map Poll.delivered id = (none, s.bus) := by
      rw [hnext]
      dsimp only [Prod.map]
      split_ifs <;> rfl
    refine ⟨s, hexec hnone, hbound, hquiet, ?_⟩
    unfold Slot.reader
    rw [hnext, hqueue]
    dsimp only [map_nil]
    by_cases hclosed : slot.standing = .shutDown
    · rw [if_pos hclosed, if_pos (decide_eq_true hclosed)]
      rfl
    · rw [if_neg hclosed, if_neg (by simpa using hclosed)]
      rfl

/-! ## Subscribers -/

theorem exists_subscribe (hlive : s.bus.live = true)
    (hfree : ∃ slot ∈ s.bus.slots, slot.standing = .free) (name : String) :
    ∃ held bus, s.bus.subscribe sizes name = .ok (held, bus) := by
  unfold Bus.subscribe
  rw [if_neg (by simp [hlive])]
  cases hfind : s.bus.slots.zipIdx.find? fun p => p.1.standing = .free with
  | some p => exact ⟨_, _, rfl⟩
  | none =>
    obtain ⟨slot, hslot, hstanding⟩ := hfree
    obtain ⟨index, hget⟩ := mem_iff_getElem?.mp hslot
    have hnot := find?_eq_none.mp hfind (slot, index) (mk_mem_zipIdx_iff_getElem?.mpr hget)
    exact absurd (decide_eq_true hstanding) hnot

theorem exec_subscribe (h : Sound sizes s) (hbound : Bounded s) (hquiet : Quiet s)
    {name : String} (hsubscribe : s.bus.subscribe sizes name = .ok (held, bus))
    (hlimit : subscribersOf s.given held.index < 2 ^ 32) :
    ∃ s', Run.exec (step sizes) s [.subscribe name] = some s' ∧ Bounded s' ∧ Quiet s' ∧
      s'.view = { s.view with
        opened := s.given.length + 1
        readers := update s.view.readers s.given.length (some ⟨name, [], 0, false⟩) } := by
  have hexec : Run.exec (step sizes) s [.subscribe name] = some { s with
      bus := bus, given := s.given ++ [held]
      subscriber := update s.subscriber s.given.length true
      trails := update s.trails s.given.length .new } := by
    rw [Run.exec, step, hsubscribe]
    rfl
  obtain ⟨slot, hget, hfree, hgeneration, rfl⟩ := exists_of_subscribe hsubscribe
  have hbound' : Bounded { s with given := s.given ++ [held] } := by
    intro index
    rw [subscribersOf_snoc]
    split_ifs with hindex
    · subst hindex
      exact hlimit
    · exact hbound index
  let slot' : Slot Copy := { slot with
    generation := slot.generation + 1, standing := .opened, name := some name }
  have hopen' : slot'.standing ≠ .free := Standing.noConfusion
  have hfresh := h.held_fresh hbound' hget hgeneration
  obtain ⟨hempty, hnobody⟩ := h.cleared slot (mem_of_getElem? hget) hfree
  refine ⟨_, hexec, hbound', ⟨fun j => ?_, fun index other hother hopen => ?_,
    fun other hother hopen => ?_, fun j hle => ?_⟩, ?_⟩
  · by_cases hj : j = s.given.length
    · subst hj
      simp only [update_self]
      rfl
    · simp only [update_of_ne hj]
      exact hquiet.none_settling j
  · by_cases hindex : held.index = index
    · subst hindex
      rw [Bus.put, getElem?_set_self (List.getElem?_eq_some_iff.mp hget).1] at hother
      cases hother
      refine ⟨s.given.length, ?_⟩
      rw [getElem?_append_right le_rfl, Nat.sub_self, getElem?_cons_zero, ← hgeneration]
    · rw [Bus.put, getElem?_set_ne hindex] at hother
      obtain ⟨j, hj⟩ := hquiet.owned index other hother hopen
      refine ⟨j, ?_⟩
      rw [getElem?_append_left (List.getElem?_eq_some_iff.mp hj).1, hj]
  · rcases mem_or_eq_of_mem_set hother with hother | rfl
    · exact hquiet.named other hother hopen
    · rfl
  · rw [length_append, length_singleton] at hle
    simp only [update_of_ne (show j ≠ s.given.length by omega)]
    exact hquiet.unopened j (by omega)
  · ext1
    · rfl
    · exact length_append
    · funext j
      change (State.slotOf _ j).map Slot.reader = _
      rw [slotOf_subscribe hfresh hget hfree hgeneration.symm hopen' rfl rfl]
      by_cases hj : j = s.given.length
      · subst hj
        simp only [if_true, update_self, Option.map_some, Slot.reader, slot', hempty,
          hnobody]
        rfl
      · simp only [if_neg hj, update_of_ne hj]
        rfl
    · funext j
      by_cases hj : j = s.given.length
      · subst hj
        simp only [State.view, update_self, hquiet.unopened _ le_rfl]
        rfl
      · simp only [State.view, update_of_ne hj]

theorem exec_leave (h : Sound sizes s) (hbound : Bounded s) (hquiet : Quiet s)
    (hheld : s.given[i]? = some held) (hi : s.subscriber i = true) :
    ∃ s', Run.exec (step sizes) s [.unsubscribe i] = some s' ∧ Bounded s' ∧ Quiet s' ∧
      s'.view = { s.view with readers := update s.view.readers i none } := by
  obtain ⟨slot, hslot⟩ := Option.isSome_iff_exists.mp ((h.subscribed i held hheld).mp hi)
  obtain ⟨hget, hgeneration, -⟩ := slot_eq_some_iff.mp hslot
  have hexec : Run.exec (step sizes) s [.unsubscribe i] = some { s with
      bus := s.bus.put held.index slot.freed
      subscriber := update s.subscriber i false
      trails := update s.trails i { s.trails i with
        released := (s.trails i).released ++ (s.queueOf i).map Numbered.publish } } := by
    rw [Run.exec, step, hheld]
    dsimp only
    rw [if_pos hi, Bus.unsubscribe, hslot]
    rfl
  have hfreed : slot.freed.generation = slot.generation := rfl
  have hslotOf := slotOf_put h.nodup hheld hslot hfreed
  have hlt := (List.getElem?_eq_some_iff.mp hget).1
  refine ⟨_, hexec, hbound, ⟨fun j => ?_, fun index other hother hopen => ?_,
    fun other hother hopen => ?_, fun j hle => ?_⟩, ?_⟩
  · by_cases hj : j = i
    · subst hj
      simp only [update_self, hquiet.none_settling]
    · simp only [update_of_ne hj, hquiet.none_settling]
  · by_cases hindex : held.index = index
    · subst hindex
      rw [Bus.put, getElem?_set_self hlt] at hother
      cases hother
      exact absurd rfl hopen
    · rw [Bus.put, getElem?_set_ne hindex] at hother
      exact hquiet.owned index other hother hopen
  · rcases mem_or_eq_of_mem_set hother with hother | rfl
    · exact hquiet.named other hother hopen
    · exact absurd rfl hopen
  · by_cases hj : j = i
    · subst hj
      simp only [update_self, hquiet.unopened j hle]
    · simp only [update_of_ne hj, hquiet.unopened j hle]
  · ext1
    · rfl
    · rfl
    · funext j
      change (State.slotOf _ j).map Slot.reader = _
      rw [hslotOf]
      by_cases hj : j = i
      · subst hj
        simp only [if_true, update_self]
        rfl
      · simp only [if_neg hj, update_of_ne hj]
        rfl
    · funext j
      by_cases hj : j = i
      · subst hj
        simp only [State.view, update_self]
      · simp only [State.view, update_of_ne hj]

/-! ## All slots -/

/-- A slot that is taken is the slot of some subscription. -/
theorem exists_slot_iff (hquiet : Quiet s) {P : Slot Copy → Prop}
    (hP : ∀ slot, P slot → slot.standing ≠ .free) :
    (∃ slot ∈ s.bus.slots, P slot) ↔ ∃ i slot, s.slotOf i = some slot ∧ P slot := by
  constructor
  · rintro ⟨slot, hslot, hslotP⟩
    obtain ⟨index, hget⟩ := mem_iff_getElem?.mp hslot
    obtain ⟨i, hi⟩ := hquiet.owned index slot hget (hP slot hslotP)
    refine ⟨i, slot, ?_, hslotP⟩
    rw [slotOf_of_given hi]
    exact slot_eq_some_iff.mpr ⟨hget, rfl, hP slot hslotP⟩
  · rintro ⟨i, slot, hslot, hslotP⟩
    obtain ⟨held, -, hfound⟩ := Option.bind_eq_some_iff.mp hslot
    exact ⟨slot, mem_of_getElem? (slot_eq_some_iff.mp hfound).1, hslotP⟩

/-- A subscriber's slot is open to a name exactly if the subscription it stands for is. -/
theorem reads_reader (hquiet : Quiet s) {slot : Slot Copy} (hslot : s.slotOf i = some slot)
    (name : String) : slot.reader.reads name = slot.reads name := by
  obtain ⟨held, -, hfound⟩ := Option.bind_eq_some_iff.mp hslot
  obtain ⟨hget, -, hopen⟩ := slot_eq_some_iff.mp hfound
  obtain ⟨own, hown⟩ := Option.isSome_iff_exists.mp
    (hquiet.named slot (mem_of_getElem? hget) hopen)
  unfold Slot.reader Reader.reads Slot.reads
  rw [hown]
  cases hstanding : slot.standing with
  | free => exact absurd hstanding hopen
  | opened => simp
  | shutDown => simp

theorem full_eq (hquiet : Quiet s) (name : String) : s.view.full sizes.messages name
      = s.bus.slots.any fun slot => slot.reads name && !slot.hasRoom sizes := by
  have hroom : ∀ slot : Slot Copy, slot.reader.hasRoom sizes.messages = slot.hasRoom sizes := by
    intro slot
    unfold Slot.reader Reader.hasRoom Slot.hasRoom
    rw [length_map]
  have hexists := exists_slot_iff hquiet
    (P := fun slot => (slot.reads name && !slot.hasRoom sizes) = true) fun slot hslot hfree => by
      simp [Slot.reads, hfree] at hslot
  rw [Bool.eq_iff_iff, View.full, any_eq_true, any_eq_true, hexists]
  refine exists_congr fun i => ?_
  constructor
  · rintro ⟨-, hany⟩
    rw [Option.any_eq_true] at hany
    obtain ⟨reader, hreader, hboth⟩ := hany
    obtain ⟨slot, hslot, rfl⟩ := Option.map_eq_some_iff.mp hreader
    rw [reads_reader hquiet hslot, hroom] at hboth
    exact ⟨slot, hslot, hboth⟩
  · rintro ⟨slot, hslot, hboth⟩
    obtain ⟨held, hheld, -⟩ := Option.bind_eq_some_iff.mp hslot
    refine ⟨mem_range.mpr (List.getElem?_eq_some_iff.mp hheld).1, ?_⟩
    rw [Option.any_eq_true]
    refine ⟨slot.reader, congrArg (Option.map Slot.reader) hslot, ?_⟩
    rw [reads_reader hquiet hslot, hroom]
    exact hboth

theorem mem_openReaders_iff :
    i ∈ s.view.openReaders ↔ ∃ slot, s.slotOf i = some slot ∧ slot.standing = .opened := by
  rw [View.openReaders, mem_filter, mem_range, Option.any_eq_true]
  constructor
  · rintro ⟨-, reader, hreader, hopen⟩
    obtain ⟨slot, hslot, rfl⟩ := Option.map_eq_some_iff.mp hreader
    obtain ⟨held, -, hfound⟩ := Option.bind_eq_some_iff.mp hslot
    refine ⟨slot, hslot, ?_⟩
    cases hstanding : slot.standing with
    | free => exact absurd hstanding (slot_eq_some_iff.mp hfound).2.2
    | opened => rfl
    | shutDown => simp [Slot.reader, hstanding] at hopen
  · rintro ⟨slot, hslot, hstanding⟩
    obtain ⟨held, hheld, -⟩ := Option.bind_eq_some_iff.mp hslot
    refine ⟨(List.getElem?_eq_some_iff.mp hheld).1, slot.reader,
      congrArg (Option.map Slot.reader) hslot, ?_⟩
    simp [Slot.reader, hstanding]

theorem countP_eq_length_filter_range {α : Type*} (l : List α) (p : α → Bool) :
    l.countP p = ((List.range l.length).filter fun x => (l[x]?).any p).length := by
  have hmap : (List.range l.length).map (fun x => l[x]?) = l.map some := by
    refine ext_getElem (by simp) fun n hn hn' => ?_
    rw [length_map] at hn'
    rw [getElem_map, getElem_map, getElem_range, getElem?_eq_getElem hn']
  have hcount := congrArg (List.countP fun o => o.any p) hmap
  rw [countP_map, countP_map] at hcount
  rw [← countP_eq_length_filter]
  exact hcount.symm

/-- A shutdown counts the slots, a client the subscriptions it knows to be open. -/
theorem length_openReaders (h : Sound sizes s) (hquiet : Quiet s) :
    s.view.openReaders.length = s.bus.slots.countP fun slot => slot.standing = .opened := by
  let indexOf : ℕ → ℕ := fun i => (s.given[i]?).elim 0 Held.index
  have hfound : ∀ i ∈ s.view.openReaders, ∃ slot, s.given[i]? = some ⟨indexOf i, slot.generation⟩ ∧
      s.bus.slots[indexOf i]? = some slot ∧ slot.standing = .opened := by
    intro i hi
    obtain ⟨slot, hslot, hopen⟩ := mem_openReaders_iff.mp hi
    obtain ⟨held, hheld, hfound⟩ := Option.bind_eq_some_iff.mp hslot
    obtain ⟨hget, hgeneration, -⟩ := slot_eq_some_iff.mp hfound
    have hindex : indexOf i = held.index := by
      simp only [indexOf, hheld, Option.elim_some]
    refine ⟨slot, ?_, ?_, hopen⟩
    · rw [hheld, hindex, hgeneration]
    · rw [hindex]
      exact hget
  have hnodup : (s.view.openReaders.map indexOf).Nodup := by
    refine List.Nodup.map_on (fun i hi j hj hsame => ?_) (nodup_range.filter _)
    obtain ⟨slot, hheld, hget, -⟩ := hfound i hi
    obtain ⟨slot', hheld', hget', -⟩ := hfound j hj
    rw [hsame, hget'] at hget
    cases hget
    by_contra hne
    rw [hsame] at hheld
    exact held_ne h.nodup hheld hheld' (Ne.symm hne) rfl
  rw [countP_eq_length_filter_range, ← length_map (f := indexOf)]
  apply List.Perm.length_eq
  rw [perm_ext_iff_of_nodup hnodup (nodup_range.filter _)]
  intro index
  rw [mem_map, mem_filter, mem_range, Option.any_eq_true]
  constructor
  · rintro ⟨i, hi, rfl⟩
    obtain ⟨slot, -, hget, hopen⟩ := hfound i hi
    exact ⟨(List.getElem?_eq_some_iff.mp hget).1, slot, hget, decide_eq_true hopen⟩
  · rintro ⟨-, slot, hget, hopen⟩
    have hstanding := of_decide_eq_true hopen
    have hnotFree : slot.standing ≠ .free := by
      rw [hstanding]
      exact Standing.noConfusion
    obtain ⟨i, hi⟩ := hquiet.owned index slot hget hnotFree
    refine ⟨i, mem_openReaders_iff.mpr ⟨slot, ?_, hstanding⟩, ?_⟩
    · rw [slotOf_of_given hi]
      exact slot_eq_some_iff.mpr ⟨hget, rfl, hnotFree⟩
    · simp only [indexOf, hi, Option.elim_some]

/-- What is done to every slot, if it keeps the holders and their names, leaves the bus quiet. -/
theorem Quiet.map (hquiet : Quiet s) (hf : ∀ slot, (f slot).generation = slot.generation ∧
      ((f slot).standing = .free ↔ slot.standing = .free))
    (hname : ∀ slot, (f slot).name = slot.name) (hgiven : s'.given = s.given)
    (hslots : s'.bus.slots = s.bus.slots.map f)
    (htrails : ∀ i, (s'.trails i).settling = (s.trails i).settling ∧
      (s'.trails i).hands = (s.trails i).hands) : Quiet s' := by
  refine ⟨fun i => ?_, fun index slot hget hopen => ?_, fun slot hslot hopen => ?_, fun i hle => ?_⟩
  · rw [(htrails i).1]
    exact hquiet.none_settling i
  · rw [hslots, getElem?_map] at hget
    obtain ⟨before, hbefore, rfl⟩ := Option.map_eq_some_iff.mp hget
    rw [hgiven, (hf before).1]
    exact hquiet.owned index before hbefore (mt (hf before).2.mpr hopen)
  · rw [hslots] at hslot
    obtain ⟨before, hbefore, rfl⟩ := mem_map.mp hslot
    rw [hname]
    exact hquiet.named before hbefore (mt (hf before).2.mpr hopen)
  · rw [hgiven] at hle
    rw [(htrails i).2]
    exact hquiet.unopened i hle

theorem exec_shutDown (sizes : Sizes) (hbound : Bounded s) (hquiet : Quiet s) :
    ∃ s', Run.exec (step sizes) s [.shutDown] = some s' ∧ Bounded s' ∧ Quiet s' ∧
      s'.view = { s.view with
        live := false, readers := fun i => (s.view.readers i).map Reader.close } := by
  have hname : ∀ slot : Slot Copy, slot.closed.name = slot.name := by
    intro slot
    unfold Slot.closed
    split_ifs <;> rfl
  refine ⟨{ s with bus := s.bus.shutDown.2 }, rfl, hbound,
    hquiet.map closed_generation hname rfl rfl fun _ => ⟨rfl, rfl⟩, ?_⟩
  ext1
  · rfl
  · rfl
  · funext i
    have hslotOf : ∀ j, State.slotOf { s with bus := s.bus.shutDown.2 } j
        = (s.slotOf j).map Slot.closed :=
      slotOf_map closed_generation rfl rfl
    change (State.slotOf _ i).map Slot.reader = ((s.slotOf i).map Slot.reader).map Reader.close
    rw [hslotOf]
    cases hslot : s.slotOf i with
    | none => rfl
    | some slot =>
      obtain ⟨held, -, hfound⟩ := Option.bind_eq_some_iff.mp hslot
      have hopen := (slot_eq_some_iff.mp hfound).2.2
      simp only [Option.map_some, Option.some.injEq]
      unfold Slot.closed Slot.reader Reader.close
      split_ifs with hstanding
      · rfl
      · have hclosed : slot.standing = .shutDown := by
          cases hstanding' : slot.standing with
          | free => exact absurd hstanding' hopen
          | opened => exact absurd hstanding' hstanding
          | shutDown => rfl
        rw [hclosed]
        rfl
  · rfl

theorem publish_follows (h : Sound sizes s) (hbound : Bounded s) (hquiet : Quiet s) {name : String}
    {payload : Bytes} {pairs : List (Bytes × Bytes)}
    (hwithin : Within sizes s (.publish name payload pairs)) :
    Together (fun s v => s.view = v ∧ AtRest sizes s) True
      (s.perform sizes (.publish name payload pairs))
      (s.view.perform sizes.messages s.refuses (.publish name payload pairs)) := by
  obtain ⟨hsize, hfits⟩ := hwithin
  obtain ⟨headers, hheaders⟩ : ∃ headers, headersOf .noAlloc pairs = .ok headers := by
    cases hheaders : headersOf .noAlloc pairs with
    | ok headers => exact ⟨headers, rfl⟩
    | error _ =>
      rw [hheaders] at hfits
      cases hfits
  rw [State.perform, hheaders, View.perform, full_eq hquiet, ← seen_deliveryOf hheaders]
  dsimp only
  generalize hdelivery : deliveryOf payload headers = delivery
  have hsize' : delivery.payload.length ≤ sizes.payload := by
    rw [← hdelivery]
    exact hsize
  -- a refused publish changes only the count of publishes, which no client sees
  have hrefused : ∀ {error}, s.bus.fanout sizes name delivery.payload.length ⟨s.published, delivery⟩
      = some (.error error, s.bus) →
      Together (fun s v => s.view = v ∧ AtRest sizes s) True
        (s.call sizes [.publish name delivery] (s.fanoutAnswer sizes name delivery))
        (some (.result (.error error.kind), s.view)) := by
    intro error hfanout
    have hexec : Run.exec (step sizes) s [.publish name delivery]
        = some { s.finish name false with bus := s.bus } := by
      rw [Run.exec, step, hfanout]
      rfl
    rw [State.fanoutAnswer, hfanout]
    refine together_of_exec h hexec rfl hbound ?_ _
    exact ⟨hquiet.none_settling, hquiet.owned, hquiet.named, hquiet.unopened⟩
  by_cases hlive : s.bus.live = false
  · rw [if_pos (show s.view.live = false from hlive)]
    exact hrefused (if_pos hlive)
  rw [if_neg (show ¬s.view.live = false from hlive)]
  split_ifs with hfull
  · have hfanout : s.bus.fanout sizes name delivery.payload.length ⟨s.published, delivery⟩
        = some (.error (.full sizes.messages), s.bus) := by
      rw [Bus.fanout, if_neg hlive, if_pos hfull]
    exact hrefused hfanout
  · have hroom := room_of_not_full hfull
    have hfanout : s.bus.fanout sizes name delivery.payload.length ⟨s.published, delivery⟩
        = some (.ok (), { s.bus with
          slots := s.bus.slots.map (received name ⟨s.published, delivery⟩) }) :=
      fanout_taken (Bool.of_not_eq_false hlive) hroom (Or.inr hsize')
    have hexec : Run.exec (step sizes) s [.publish name delivery] = some (s.spread name delivery) := by
      rw [Run.exec, step, hfanout]
      rfl
    rw [State.fanoutAnswer, hfanout]
    refine together_of_exec h hexec ?_ hbound ?_ _
    · ext1
      · rfl
      · rfl
      · funext i
        change ((s.spread name delivery).slotOf i).map Slot.reader = ((s.slotOf i).map Slot.reader).map _
        rw [slotOf_spread]
        cases hslot : s.slotOf i with
        | none => rfl
        | some slot =>
          simp only [Option.map_some, Option.some.injEq, received, Reader.receive,
            reads_reader hquiet hslot]
          split_ifs
          · unfold Slot.reader
            rw [map_append]
            rfl
          · rfl
      · funext i
        dsimp only [State.view, State.spread]
        split_ifs <;> rfl
    · refine hquiet.map received_generation (fun slot => ?_) rfl rfl fun i => ?_
      · unfold received
        split_ifs <;> rfl
      · dsimp only [State.spread]
        split_ifs <;> exact ⟨rfl, rfl⟩

/-- **A client of the fixed bus.** Within the limits every call does to the view what it is to do. -/
theorem perform_follows (h : AtRest sizes s) {op : Operation} (hwithin : Within sizes s op) :
    Together (fun s v => s.view = v ∧ AtRest sizes s) True (s.perform sizes op)
      (s.view.perform sizes.messages s.refuses op) := by
  obtain ⟨hsound, hbound, hquiet⟩ := h
  have hhands : ∀ i k, (s.view.hands i)[k]? = (s.trails i).hands[k]?.map seenCopy :=
    fun i k => getElem?_map ..
  have hreader : ∀ {i held}, s.given[i]? = some held →
      ((s.view.readers i).isSome = true ↔ s.subscriber i = true) := by
    intro i held hheld
    rw [hsound.subscribed i held hheld, ← slotOf_of_given hheld]
    exact Bool.eq_iff_iff.mp Option.isSome_map
  have hunopened : ∀ {i}, s.given[i]? = none → s.view.readers i = none := by
    intro i hnone
    dsimp only [State.view]
    rw [State.slotOf, hnone]
    rfl
  have hsettle : ∀ i k, Together (fun s v => s.view = v ∧ AtRest sizes s) True
      (s.call sizes [.settle i k, .release i] (.result (.ok ())))
      ((s.view.hands i)[k]?.map fun _ => (.result (.ok ()), s.view.settled i k)) := by
    intro i k
    rw [hhands]
    cases hcopy : (s.trails i).hands[k]? with
    | none =>
      rw [State.call, Run.exec, step, hcopy]
      exact .stuck trivial
    | some copy =>
      obtain ⟨s', hexec, hview, hbound', hquiet'⟩ := exec_settle hsound hcopy hbound hquiet
      exact together_of_exec hsound hexec hview hbound' hquiet' _
  cases op with
  | connect =>
    have hexec : Run.exec (step sizes) s [.connect] = some { s with bus := s.bus.connect } := rfl
    refine together_of_exec hsound hexec rfl hbound ?_ .done
    exact ⟨hquiet.none_settling, hquiet.owned, hquiet.named, hquiet.unopened⟩
  | subscribe name literal =>
    obtain ⟨hname, hfree, hlimit⟩ := hwithin
    have hfits : ¬(literal = false ∧ nameBytes < name.utf8ByteSize) := by
      rintro ⟨hbuilt, hlong⟩
      rcases hname with hliteral | hshort
      · rw [hliteral] at hbuilt
        cases hbuilt
      · exact absurd hlong (Nat.not_lt.mpr hshort)
    rw [State.perform, View.perform, State.subscribeAnswer, if_neg hfits, if_neg hfits]
    by_cases hlive : s.bus.live = true
    · obtain ⟨held, bus, hsubscribe⟩ := exists_subscribe hlive (hfree hlive) name
      rw [State.countable, hsubscribe] at hlimit
      obtain ⟨s', hexec, hbound', hquiet', hview⟩ := exec_subscribe hsound hbound hquiet hsubscribe
        (of_decide_eq_true hlimit)
      rw [if_pos (show s.view.live = true from hlive), hsubscribe]
      exact together_of_exec hsound hexec hview hbound' hquiet' _
    · have hdown : s.bus.subscribe sizes name = .error .shutDown :=
        if_pos (Bool.of_not_eq_true hlive)
      have hexec : Run.exec (step sizes) s [.subscribe name] = some s := by
        rw [Run.exec, step, hdown]
        rfl
      rw [if_neg (show ¬s.view.live = true from hlive), hdown]
      exact together_of_exec hsound hexec rfl hbound hquiet _
  | publish name payload pairs => exact publish_follows hsound hbound hquiet hwithin
  | poll i =>
    rw [State.perform]
    cases hheld : s.given[i]? with
    | none =>
      rw [View.perform, hunopened hheld]
      exact .stuck trivial
    | some held =>
      by_cases hi : s.subscriber i = true
      · obtain ⟨s', hexec, hbound', hquiet', hview⟩ := exec_poll sizes hsound hbound hquiet hheld hi
        rw [hview]
        exact together_of_exec hsound hexec rfl hbound' hquiet' _
      · have hnone : s.view.readers i = none :=
          Option.not_isSome_iff_eq_none.mp (mt (hreader hheld).mp hi)
        unfold State.call
        rw [View.perform, hnone, Run.exec, step, hheld]
        dsimp only
        rw [if_neg hi]
        exact .stuck trivial
  | ack i k => exact hsettle i k
  | nack i k requeue =>
    cases requeue with
    | false => exact hsettle i k
    | true =>
      rw [State.perform, View.perform, hhands]
      cases hcopy : (s.trails i).hands[k]? with
      | none =>
        cases s.given[i]? <;> exact .stuck trivial
      | some copy =>
        obtain ⟨held, hheld⟩ := exists_held hquiet hcopy
        obtain ⟨s', hexec, hview, hbound', hquiet'⟩ := exec_requeue hsound hcopy hbound hquiet
        rw [hheld]
        dsimp only [Option.map_some]
        rw [requeueAnswer_eq hsound hheld hcopy]
        exact together_of_exec hsound hexec hview hbound' hquiet' _
  | drop i k =>
    rw [State.perform, View.perform, hhands]
    cases hcopy : (s.trails i).hands[k]? with
    | none =>
      rw [State.call, Run.exec, step, hcopy]
      cases s.given[i]? <;> exact .stuck trivial
    | some copy =>
      obtain ⟨s', hexec, hview, hbound', hquiet'⟩ := exec_requeue hsound hcopy hbound hquiet
      exact together_of_exec hsound hexec hview hbound' hquiet' _
  | leave i =>
    rw [State.perform, View.perform]
    cases hheld : s.given[i]? with
    | none =>
      unfold State.call
      rw [hunopened hheld, Run.exec, step, hheld]
      exact .stuck trivial
    | some held =>
      by_cases hi : s.subscriber i = true
      · obtain ⟨s', hexec, hbound', hquiet', hview⟩ := exec_leave hsound hbound hquiet hheld hi
        rw [if_pos ((hreader hheld).mpr hi)]
        exact together_of_exec hsound hexec hview hbound' hquiet' _
      · unfold State.call
        rw [if_neg (mt (hreader hheld).mp hi), Run.exec, step, hheld]
        dsimp only
        rw [if_neg hi]
        exact .stuck trivial
  | shutDown =>
    obtain ⟨s', hexec, hbound', hquiet', hview⟩ := exec_shutDown sizes hbound hquiet
    rw [State.perform, View.perform, length_openReaders hsound hquiet]
    exact together_of_exec hsound hexec hview hbound' hquiet' _

end

end RustStream.Fixed
