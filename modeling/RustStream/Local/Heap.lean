import RustStream.Lib.Places
import RustStream.Lib.Run
import RustStream.Memory.LocalBus

/-!
# The local bus on the heap

A subscription is a channel of fixed capacity and a count of the deliveries in its handlers' hands.
A publish is taken by every subscription of its name or by none of them: the bus asks each for room
first and enqueues afterwards. A delivery in hand keeps its place, so a requeue finds room.

The subscriptions are shared by pointer; here a pointer is a number. Each guarded cell, the bus's
list and the state of each subscription, is one lock, and what runs under it is one step of a run.
So a publish, an unsubscribe, a shutdown and the drop of a message take several steps, and any steps
of other threads that do not need the lock it holds come between.

## Main definitions

* `Heap.Subscription`: the functions of a subscription.
* `Heap.State`, `Heap.step`: any number of threads at work on one bus.
-/

namespace RustStream

/-- What a poll answers. -/
inductive Poll (α : Type) where
  | ready (value : α)
  | pending
  deriving DecidableEq, Repr

/-- What a poll hands out. -/
def Poll.delivered {α : Type} : Poll (Option α) → Option α
  | .ready delivery => delivery
  | .pending => none

/-- A delivery, with the number of the publish it is a copy of. -/
structure Numbered (b : Build) where
  publish : ℕ
  delivery : LocalDelivery b

/-- The copy back at the end of its queue, counted as one more delivery. -/
def Numbered.requeue {b : Build} (copy : Numbered b) : Numbered b :=
  { copy with delivery := copy.delivery.requeue }

/-- A publish that came to its end: the subscriptions it was for, and whether they took it. -/
structure Finished where
  number : ℕ
  name : String
  targets : List ℕ
  taken : Bool

namespace Heap

inductive LocalMemoryError where
  | shutDown
  | full (name : String) (capacity : ℕ)
  deriving DecidableEq, Repr

/-- Where a subscription stands. -/
inductive Standing where
  -- its subscriber reads it
  | opened
  -- its subscriber was dropped: a requeue lands nowhere
  | unsubscribed
  -- the stream ends once the queue is drained, and a requeue is refused
  | shutDown
  deriving DecidableEq, Repr

/-! ## A subscription -/

/-- The channel the deliveries wait in and the count of those in hand. -/
structure Subscription (α : Type) where
  name : String
  queue : List α
  inHand : ℕ
  standing : Standing

namespace Subscription

variable {α : Type} (cap : ℕ)

/-- A subscription as the bus opens it. -/
def new (name : String) : Subscription α := ⟨name, [], 0, .opened⟩

def hasRoom (sub : Subscription α) : Bool :=
  sub.queue.length + sub.inHand < cap

/-- Puts a delivery in the channel; there is no answer where the channel is full, which the source
takes for unreachable. -/
def enqueue (sub : Subscription α) (delivery : α) : Option (Subscription α) :=
  if sub.queue.length < cap then some { sub with queue := sub.queue ++ [delivery] } else none

/-- The next delivery, or the end once the bus shut down and the queue is drained. -/
def pollNext (sub : Subscription α) : Poll (Option α) × Subscription α :=
  match sub.queue with
  | delivery :: queue =>
    (.ready (some delivery), { sub with queue := queue, inHand := sub.inHand + 1 })
  | [] => if sub.standing = .shutDown then (.ready none, sub) else (.pending, sub)

/-- The next delivery already waiting. -/
def tryNext (sub : Subscription α) : Option α × Subscription α :=
  match sub.queue with
  | delivery :: queue => (some delivery, { sub with queue := queue, inHand := sub.inHand + 1 })
  | [] => (none, sub)

/-- Releases the place of a delivery; there is no answer where none is in hand. -/
def settle (sub : Subscription α) : Option (Subscription α) :=
  if sub.inHand = 0 then none else some { sub with inHand := sub.inHand - 1 }

/-- Puts a delivery in hand back at the end of the queue. -/
def requeue (sub : Subscription α) (delivery : α) :
    Option (Except LocalMemoryError Unit × Subscription α) :=
  match sub.standing with
  | .opened => (sub.enqueue cap delivery).map fun sub => (.ok (), sub)
  | .unsubscribed => some (.ok (), sub)
  | .shutDown => some (.error .shutDown, sub)

/-- Marks the subscription as left and releases what waits. -/
def unsubscribe (sub : Subscription α) : Subscription α :=
  { sub with
    standing := if sub.standing = .opened then .unsubscribed else sub.standing
    queue := [] }

def shutDown (sub : Subscription α) : Subscription α :=
  { sub with standing := .shutDown }

end Subscription

/-! ## The threads at work on a bus -/

/-- A copy of a message as the heap bus holds it. -/
abbrev Copy := Numbered .alloc

/-- A subscription with the messages it handed out, and the account of its copies. -/
structure Opened where
  cell : Subscription Copy
  -- the messages nobody has settled yet
  hands : List Copy
  -- the messages that are settled, or given back, and have yet to release their place
  settling : ℕ
  -- the publishes whose copy was accepted, settled, and let go of
  accepted : List ℕ
  settled : List ℕ
  released : List ℕ

/-- A subscription just opened. -/
def Opened.new (name : String) : Opened := ⟨.new name, [], 0, [], [], []⟩

/-- A publish under way. It holds the lock of the bus's list. -/
structure Publishing where
  number : ℕ
  name : String
  delivery : LocalDelivery .alloc
  targets : List ℕ
  -- the subscriptions yet to be asked for room
  unchecked : List ℕ
  -- the subscriptions that have room and have yet to receive their copy
  pending : List ℕ

structure State where
  live : Bool
  subscriptions : List ℕ
  cells : ℕ → Opened
  -- how many subscriptions were opened
  opened : ℕ
  -- whether the subscriber is still there
  subscriber : ℕ → Bool
  -- the subscriptions that left the bus's list and have yet to be closed, by their subscriber's drop
  -- and by a shutdown
  leaving : ℕ → Bool
  closing : ℕ → Bool
  publishing : Option Publishing
  published : ℕ
  finished : List Finished
  -- whether a thread ran into the unreachable or took a delivery too many out of hand
  fault : Bool

/-- A bus nobody has connected yet. -/
def State.new : State where
  live := false
  subscriptions := []
  cells := fun _ => .new ""
  opened := 0
  subscriber := fun _ => false
  leaving := fun _ => false
  closing := fun _ => false
  publishing := none
  published := 0
  finished := []
  fault := false

namespace State

/-- The subscriptions on the bus's list that read the name. -/
def reading (s : State) (name : String) : List ℕ :=
  s.subscriptions.filter fun i => (s.cells i).cell.name = name

/-- Replaces a subscription. -/
def put (s : State) (i : ℕ) (o : Opened) : State :=
  { s with cells := Function.update s.cells i o }

/-- The publish comes to its end and lets go of the lock. -/
def finish (s : State) (p : Publishing) (taken : Bool) : State :=
  { s with
    publishing := none
    finished := s.finished ++ [⟨p.number, p.name, p.targets, taken⟩] }

end State

inductive Event where
  | connect
  | subscribe (name : String)
  -- the two sections of a subscriber's drop
  | unlist (i : ℕ)
  | unsubscribe (i : ℕ)
  -- the sections of a shutdown
  | shutDown
  | close (i : ℕ)
  -- the steps of a publish
  | publish (name : String) (delivery : LocalDelivery .alloc)
  | check
  | enqueue
  | finish
  | pollNext (i : ℕ)
  | tryNext (i : ℕ)
  -- the message at this place among the unsettled ones of its subscription: an `ack` or a
  -- `nack(false)`, and the requeue of a `nack(true)` or of an unsettled drop
  | settle (i k : ℕ)
  | requeue (i k : ℕ)
  -- the end of a message's drop
  | release (i : ℕ)

/-- The messages of a subscription after it handed one out. -/
def Opened.handOut (o : Opened) : Option Copy × Subscription Copy → Opened
  | (some copy, cell) => { o with cell := cell, hands := o.hands ++ [copy] }
  | (none, cell) => { o with cell := cell }

/-- A message is settled: its drop has only its place left to release. -/
def Opened.settle (o : Opened) (k : ℕ) : Option Opened :=
  o.hands[k]?.map fun copy =>
    { o with
      hands := o.hands.eraseIdx k, settling := o.settling + 1
      settled := o.settled ++ [copy.publish] }

/-- A message is given back, or let go of where its subscription takes nothing back. -/
def Opened.requeue (cap : ℕ) (o : Opened) (copy : Copy) (k : ℕ) : Option Opened :=
  (o.cell.requeue cap copy.requeue).map fun answered =>
    { o with
      cell := answered.2, hands := o.hands.eraseIdx k, settling := o.settling + 1
      released :=
        if o.cell.standing = .opened then o.released else o.released ++ [copy.publish] }

/-- What waits in the queue is released with the subscription. -/
def Opened.unsubscribe (o : Opened) : Opened :=
  { o with
    cell := o.cell.unsubscribe
    released := o.released ++ o.cell.queue.map Numbered.publish }

/-- One section of one thread, where it can run now. -/
def step (cap : ℕ) (s : State) : Event → Option State
  | .connect => if s.publishing.isSome then none else some { s with live := true }
  | .subscribe name =>
    if s.publishing.isSome then none
    else if s.live then
      some { s.put s.opened (.new name) with
        subscriptions := s.subscriptions ++ [s.opened]
        subscriber := Function.update s.subscriber s.opened true
        opened := s.opened + 1 }
    else some s
  | .unlist i =>
    if s.publishing.isSome ∨ s.subscriber i = false then none
    else some { s with
      subscriptions := s.subscriptions.filter (· ≠ i)
      subscriber := Function.update s.subscriber i false
      leaving := Function.update s.leaving i true }
  | .unsubscribe i =>
    if s.leaving i then
      some { s.put i (s.cells i).unsubscribe with leaving := Function.update s.leaving i false }
    else none
  | .shutDown =>
    if s.publishing.isSome then none
    else some { s with
      live := false, subscriptions := []
      closing := fun i => s.closing i || s.subscriptions.contains i }
  | .close i =>
    if s.closing i then
      some { s.put i { s.cells i with cell := (s.cells i).cell.shutDown } with
        closing := Function.update s.closing i false }
    else none
  | .publish name delivery =>
    if s.publishing.isSome then none
    else
      let p : Publishing := ⟨s.published, name, delivery, s.reading name, s.reading name, []⟩
      if s.live then some { s with publishing := some p, published := s.published + 1 }
      else some { s.finish p false with published := s.published + 1 }
  | .check =>
    match s.publishing with
    | none => none
    | some p =>
      match p.unchecked with
      | [] => none
      | i :: unchecked =>
        if (s.cells i).cell.hasRoom cap then
          some { s with
            publishing := some { p with unchecked := unchecked, pending := p.pending ++ [i] } }
        else some (s.finish p false)
  | .enqueue =>
    match s.publishing with
    | none => none
    | some p =>
      match p.unchecked, p.pending with
      | [], i :: pending =>
        match (s.cells i).cell.enqueue cap ⟨p.number, p.delivery⟩ with
        | some cell =>
          some { s.put i { s.cells i with
              cell := cell, accepted := (s.cells i).accepted ++ [p.number] } with
            publishing := some { p with pending := pending } }
        | none => some { s with fault := true }
      | _, _ => none
  | .finish =>
    match s.publishing with
    | none => none
    | some p => if p.unchecked = [] ∧ p.pending = [] then some (s.finish p true) else none
  | .pollNext i =>
    if s.subscriber i then
      some (s.put i ((s.cells i).handOut ((s.cells i).cell.pollNext.map Poll.delivered id)))
    else none
  | .tryNext i =>
    if s.subscriber i then some (s.put i ((s.cells i).handOut (s.cells i).cell.tryNext)) else none
  | .settle i k => ((s.cells i).settle k).map (s.put i)
  | .requeue i k =>
    match (s.cells i).hands[k]? with
    | none => none
    | some copy =>
      match (s.cells i).requeue cap copy k with
      | some o => some (s.put i o)
      | none => some { s with fault := true }
  | .release i =>
    if (s.cells i).settling = 0 then none
    else
      match (s.cells i).cell.settle with
      | some cell =>
        some (s.put i { s.cells i with cell := cell, settling := (s.cells i).settling - 1 })
      | none => some { s with fault := true }

end Heap

end RustStream
