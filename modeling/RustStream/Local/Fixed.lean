import RustStream.Local.Heap

/-!
# The local bus in fixed storage

Without an allocator the bus is one value behind one critical section: an array of slots, each a
bounded deque and a count of the deliveries in hand. A subscriber holds a slot by its index and its
generation, the number of subscribers the slot has had in 32 bits. A message refers to its slot the
same way, so one that outlives its subscriber finds the slot free or of another generation.

Every function of the bus is one section; the drop of a message runs two of them.

## Main definitions

* `Fixed.Bus`: the functions of the bus.
* `Fixed.State`, `Fixed.step`: any interleaving of their calls.
-/

namespace RustStream.Fixed

inductive LocalMemoryError where
  | shutDown
  | full (capacity : ℕ)
  | payloadTooLarge (size capacity : ℕ)
  | noFreeSubscription (capacity : ℕ)
  | nameTooLong (capacity : ℕ)
  deriving DecidableEq, Repr

/-- Where a subscription stands. -/
inductive Standing where
  -- no subscriber holds the slot
  | free
  | opened
  -- the slot stays held until its subscriber is dropped
  | shutDown
  deriving DecidableEq, Repr

/-- The sizes a bus is declared with; one that holds nothing does not build. -/
structure Sizes where
  messages : ℕ
  payload : ℕ
  subscriptions : ℕ
  pos : 0 < messages ∧ 0 < payload ∧ 0 < subscriptions

/-! ## Slots -/

/-- The deque the deliveries wait in and the count of those in hand. -/
structure Slot (α : Type) where
  generation : UInt32
  standing : Standing
  name : Option String
  queue : List α
  inHand : ℕ

namespace Slot

variable {α : Type}

def new : Slot α := ⟨0, .free, none, [], 0⟩

def reads (slot : Slot α) (name : String) : Bool :=
  slot.standing = .opened && slot.name = some name

def hasRoom (sizes : Sizes) (slot : Slot α) : Bool :=
  slot.queue.length + slot.inHand < sizes.messages

/-- Puts a delivery in the deque; there is no answer where the deque is full, which the source takes
for unreachable. -/
def enqueue (sizes : Sizes) (slot : Slot α) (delivery : α) : Option (Slot α) :=
  if slot.queue.length < sizes.messages then
    some { slot with queue := slot.queue ++ [delivery] }
  else none

/-- A slot whose subscriber left. -/
def freed (slot : Slot α) : Slot α :=
  { slot with queue := [], inHand := 0, name := none, standing := .free }

/-- A slot as a shutdown leaves it. -/
def closed (slot : Slot α) : Slot α :=
  if slot.standing = .opened then { slot with standing := .shutDown } else slot

/-- A slot that reads the name receives a copy. -/
def receive (sizes : Sizes) (name : String) (delivery : α) (slot : Slot α) : Option (Slot α) :=
  if slot.reads name then slot.enqueue sizes delivery else some slot

end Slot

/-- Which slot a subscriber holds, and which of the slot's subscribers it was. -/
structure Held where
  index : ℕ
  generation : UInt32
  deriving DecidableEq, Repr

/-! ## The bus -/

structure Bus (α : Type) where
  live : Bool
  slots : List (Slot α)

namespace Bus

variable {α : Type}

/-- An empty bus. -/
def new (sizes : Sizes) : Bus α := ⟨false, List.replicate sizes.subscriptions .new⟩

/-- The slot `held` names, unless its subscriber has gone. -/
def slot (bus : Bus α) (held : Held) : Option (Slot α) :=
  bus.slots[held.index]?.filter fun slot =>
    slot.generation = held.generation && slot.standing ≠ .free

/-- Replaces a slot. -/
def put (bus : Bus α) (index : ℕ) (slot : Slot α) : Bus α :=
  { bus with slots := bus.slots.set index slot }

def connect (bus : Bus α) : Bus α := { bus with live := true }

/-- Opens a subscription in the first free slot. -/
def subscribe (sizes : Sizes) (bus : Bus α) (name : String) :
    Except LocalMemoryError (Held × Bus α) :=
  if bus.live = false then .error .shutDown
  else
    match bus.slots.zipIdx.find? fun p => p.1.standing = .free with
    | none => .error (.noFreeSubscription sizes.subscriptions)
    | some (slot, index) =>
      let slot := { slot with
        generation := slot.generation + 1, standing := .opened, name := some name }
      .ok (⟨index, slot.generation⟩, bus.put index slot)

/-- Frees the slot of a subscriber that left and releases what waits in it. -/
def unsubscribe (bus : Bus α) (held : Held) : Bus α :=
  match bus.slot held with
  | none => bus
  | some slot => bus.put held.index slot.freed

/-- Closes every subscription; answers how many. -/
def shutDown (bus : Bus α) : ℕ × Bus α :=
  (bus.slots.countP fun slot => slot.standing = .opened,
    { bus with live := false, slots := bus.slots.map Slot.closed })

/-- The next delivery, or the end once the bus shut down and the queue is drained. -/
def pollNext (bus : Bus α) (held : Held) : Poll (Option α) × Bus α :=
  match bus.slot held with
  | none => (.ready none, bus)
  | some slot =>
    match slot.queue with
    | delivery :: queue =>
      (.ready (some delivery),
        bus.put held.index { slot with queue := queue, inHand := slot.inHand + 1 })
    | [] => if slot.standing = .shutDown then (.ready none, bus) else (.pending, bus)

/-- The next delivery already waiting. -/
def tryNext (bus : Bus α) (held : Held) : Option α × Bus α :=
  match bus.slot held with
  | none => (none, bus)
  | some slot =>
    match slot.queue with
    | delivery :: queue =>
      (some delivery, bus.put held.index { slot with queue := queue, inHand := slot.inHand + 1 })
    | [] => (none, bus)

/-- Releases the place of a delivery that left its handler's hands. -/
def settle (bus : Bus α) (held : Held) : Bus α :=
  match bus.slot held with
  | none => bus
  | some slot => bus.put held.index { slot with inHand := slot.inHand - 1 }

/-- Puts a delivery in hand back at the end of the queue. A bus that is down refuses it even where
the subscriber has left. -/
def requeue (sizes : Sizes) (bus : Bus α) (held : Held) (delivery : α) :
    Option (Except LocalMemoryError Unit × Bus α) :=
  match bus.slot held with
  | some slot =>
    if slot.standing = .opened then
      (slot.enqueue sizes delivery).map fun slot => (.ok (), bus.put held.index slot)
    else some (.error .shutDown, bus)
  | none => if bus.live then some (.ok (), bus) else some (.error .shutDown, bus)

/-- Hands a publish to every subscription of `name`, or to none of them. -/
def fanout (sizes : Sizes) (bus : Bus α) (name : String) (size : ℕ) (delivery : α) :
    Option (Except LocalMemoryError Unit × Bus α) :=
  if bus.live = false then some (.error .shutDown, bus)
  else if bus.slots.any fun slot => slot.reads name && !slot.hasRoom sizes then
    some (.error (.full sizes.messages), bus)
  else if bus.slots.countP (fun slot => slot.reads name) = 0 then some (.ok (), bus)
  else if sizes.payload < size then some (.error (.payloadTooLarge size sizes.payload), bus)
  else
    (bus.slots.mapM (Slot.receive sizes name delivery)).map fun slots =>
      (.ok (), { bus with slots := slots })

end Bus

/-! ## The calls on a bus -/

abbrev Copy := Numbered .noAlloc

/-- The messages a subscription handed out, and the account of its copies. -/
structure Trail where
  -- the messages nobody has settled yet
  hands : List Copy
  -- the messages that are settled, or given back, and have yet to release their place
  settling : ℕ
  -- the publishes whose copy was accepted, settled, and let go of
  accepted : List ℕ
  settled : List ℕ
  released : List ℕ

def Trail.new : Trail := ⟨[], 0, [], [], []⟩

structure State where
  bus : Bus Copy
  -- what each subscriber was given, by the number of the subscription
  given : List Held
  subscriber : ℕ → Bool
  trails : ℕ → Trail
  published : ℕ
  finished : List Finished
  -- whether a call ran into the unreachable
  fault : Bool

namespace State

def new (sizes : Sizes) : State where
  bus := .new sizes
  given := []
  subscriber := fun _ => false
  trails := fun _ => .new
  published := 0
  finished := []
  fault := false

/-- The slot of a subscription, while its subscriber is there. -/
def slotOf (s : State) (i : ℕ) : Option (Slot Copy) :=
  s.given[i]?.bind s.bus.slot

/-- What waits in the slot of a subscription. -/
def queueOf (s : State) (i : ℕ) : List Copy :=
  (s.slotOf i).elim [] Slot.queue

/-- The open subscriptions of a name. -/
def reading (s : State) (name : String) : List ℕ :=
  (List.range s.given.length).filter fun i => (s.slotOf i).any fun slot => slot.reads name

/-- A publish comes to its end. -/
def finish (s : State) (name : String) (taken : Bool) : State :=
  { s with
    published := s.published + 1
    finished := s.finished ++ [⟨s.published, name, s.reading name, taken⟩] }

end State

inductive Event where
  | connect
  | subscribe (name : String)
  | unsubscribe (i : ℕ)
  | shutDown
  | publish (name : String) (delivery : LocalDelivery .noAlloc)
  | pollNext (i : ℕ)
  | tryNext (i : ℕ)
  -- the message at this place among the unsettled ones of its subscription: an `ack` or a
  -- `nack(false)`, and the requeue of a `nack(true)` or of an unsettled drop
  | settle (i k : ℕ)
  | requeue (i k : ℕ)
  -- the end of a message's drop
  | release (i : ℕ)

/-- A message leaves its handler's hands. -/
def Trail.drop (trail : Trail) (k : ℕ) : Trail :=
  { trail with hands := trail.hands.eraseIdx k, settling := trail.settling + 1 }

/-- What a subscription handed out joins its messages. -/
def State.handOut (s : State) (i : ℕ) : Option Copy × Bus Copy → State
  | (some copy, bus) =>
    { s with
      bus := bus
      trails := Function.update s.trails i
        { s.trails i with hands := (s.trails i).hands ++ [copy] } }
  | (none, bus) => { s with bus := bus }

/-- One call, where it can be made now. -/
def step (sizes : Sizes) (s : State) : Event → Option State
  | .connect => some { s with bus := s.bus.connect }
  | .subscribe name =>
    match s.bus.subscribe sizes name with
    | .ok (held, bus) =>
      some { s with
        bus := bus, given := s.given ++ [held]
        subscriber := Function.update s.subscriber s.given.length true
        trails := Function.update s.trails s.given.length .new }
    | .error _ => some s
  | .unsubscribe i =>
    match s.given[i]? with
    | none => none
    | some held =>
      if s.subscriber i then
        some { s with
          bus := s.bus.unsubscribe held
          subscriber := Function.update s.subscriber i false
          trails := Function.update s.trails i { s.trails i with
            released := (s.trails i).released ++ (s.queueOf i).map Numbered.publish } }
      else none
  | .shutDown => some { s with bus := s.bus.shutDown.2 }
  | .publish name delivery =>
    match s.bus.fanout sizes name delivery.payload.length ⟨s.published, delivery⟩ with
    | some (.ok (), bus) =>
      some { s.finish name true with
        bus := bus
        trails := fun i =>
          if i ∈ s.reading name then
            { s.trails i with accepted := (s.trails i).accepted ++ [s.published] }
          else s.trails i }
    | some (.error _, bus) => some { s.finish name false with bus := bus }
    | none => some { s with fault := true }
  | .pollNext i =>
    match s.given[i]? with
    | none => none
    | some held =>
      if s.subscriber i then
        some (s.handOut i ((s.bus.pollNext held).map Poll.delivered id))
      else none
  | .tryNext i =>
    match s.given[i]? with
    | none => none
    | some held => if s.subscriber i then some (s.handOut i (s.bus.tryNext held)) else none
  | .settle i k =>
    match (s.trails i).hands[k]? with
    | none => none
    | some copy =>
      some { s with trails := Function.update s.trails i { (s.trails i).drop k with
        settled := (s.trails i).settled ++ [copy.publish] } }
  | .requeue i k =>
    match s.given[i]?, (s.trails i).hands[k]? with
    | some held, some copy =>
      match s.bus.requeue sizes held copy.requeue with
      | some (_, bus) =>
        some { s with
          bus := bus
          trails := Function.update s.trails i { (s.trails i).drop k with
            released :=
              if (s.slotOf i).any fun slot => slot.standing = .opened then (s.trails i).released
              else (s.trails i).released ++ [copy.publish] } }
      | none => some { s with fault := true }
    | _, _ => none
  | .release i =>
    match s.given[i]? with
    | none => none
    | some held =>
      if (s.trails i).settling = 0 then none
      else
        some { s with
          bus := s.bus.settle held
          trails := Function.update s.trails i
            { s.trails i with settling := (s.trails i).settling - 1 } }

end RustStream.Fixed
