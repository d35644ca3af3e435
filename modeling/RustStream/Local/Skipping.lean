import RustStream.Dispatch.Coop
import RustStream.Dispatch.Turn
import RustStream.Local.Fixed

/-!
# A local subscription under the gate

A subscription of the local bus is read through three layers, and each of them may answer `Pending` without asking
the one below: the gate above the loop skips a loop that recorded it was idle, the turn of the loop skips a stream
it found pending, and the bound skips a stream that was ready too often. Gate and turn skip only while the probe
says that nothing is ready and the stop signal is not given.

One task drives the loop. Others publish, requeue, settle and shut the bus down, and give the stop signal, at any
point of a poll: a step below is one read or one section of the source, and what the others do comes between any
two of them. A registered waker that is used sets the wake of the task, which the next poll uses up. On the
heap a subscription has two wakers, the channel's and one for the shutdown, and its probe and its poll are two
sections each; in fixed storage it has one waker, and each of them is one section.

## Main definitions

* `Line`: a subscription of either bus with its wakers.
* `State`, `step`: the task among the others.
* `State.Parked`: the loop waits in a turn and the task is not being polled.
-/

namespace RustStream

namespace Skipping

variable {α : Type}

/-! ## The subscription and its wakers -/

/-- A subscription, with the wakers registered at it. -/
inductive Line (α : Type) where
  /-- The channel wakes `receiver` when a delivery arrives; `closing` is woken by the shutdown. -/
  | heap (cap : ℕ) (sub : Heap.Subscription α) (receiver closing : Bool)
  | fixed (sizes : Fixed.Sizes) (slot : Fixed.Slot α) (reader : Bool)

/-- What others do to the subscription. -/
inductive Outside (α : Type) where
  | publish (delivery : α)
  | requeue (delivery : α)
  | settle
  | shutDown

namespace Line

def queue : Line α → List α
  | .heap _ sub _ _ => sub.queue
  | .fixed _ slot _ => slot.queue

def isOpen : Line α → Bool
  | .heap _ sub _ _ => sub.standing = .opened
  | .fixed _ slot _ => slot.standing = .opened

def isShutDown : Line α → Bool
  | .heap _ sub _ _ => sub.standing = .shutDown
  | .fixed _ slot _ => slot.standing = .shutDown

/-- A waker is registered that a delivery uses. -/
def hears : Line α → Bool
  | .heap _ _ receiver _ => receiver
  | .fixed _ _ reader => reader

/-- A waker is registered that the shutdown uses. -/
def hearsEnd : Line α → Bool
  | .heap _ _ _ closing => closing
  | .fixed _ _ reader => reader

def hasRoom : Line α → Bool
  | .heap cap sub _ _ => sub.hasRoom cap
  | .fixed sizes slot _ => slot.hasRoom sizes

/-- Puts a delivery in the queue and uses the waker that waits for one. -/
def enqueue (line : Line α) (delivery : α) : Line α × Bool :=
  match line with
  | .heap cap sub receiver closing =>
    match sub.enqueue cap delivery with
    | some sub => (.heap cap sub false closing, receiver)
    | none => (line, false)
  | .fixed sizes slot reader =>
    match slot.enqueue sizes delivery with
    | some slot => (.fixed sizes slot false, reader)
    | none => (line, false)

def settle : Line α → Line α
  | .heap cap sub receiver closing => .heap cap (sub.settle.getD sub) receiver closing
  | .fixed sizes slot reader => .fixed sizes { slot with inHand := slot.inHand - 1 } reader

def shutDown (line : Line α) : Line α × Bool :=
  match line with
  | .heap cap sub receiver closing => (.heap cap sub.shutDown receiver false, closing)
  | .fixed sizes slot reader =>
    if slot.standing = .opened then (.fixed sizes slot.closed false, reader) else (line, false)

/-- The subscription after what others did, and whether the task was woken. A publish reaches an open subscription
that has room, a requeue an open one. -/
def outside (line : Line α) : Outside α → Line α × Bool
  | .publish delivery =>
    if line.isOpen && line.hasRoom then line.enqueue delivery else (line, false)
  | .requeue delivery => if line.isOpen then line.enqueue delivery else (line, false)
  | .settle => (line.settle, false)
  | .shutDown => line.shutDown

/-- Whether the next poll could be ready. -/
def mayBeReady (line : Line α) : Bool :=
  !line.queue.isEmpty || line.isShutDown

end Line

/-- What the first read of the probe comes to. -/
inductive Asked where
  | answer (ready : Bool)
  /-- On the heap an empty queue leaves the standing to be read. -/
  | again

/-- What a section of a poll comes to. -/
inductive Received (α : Type) where
  | next (item : Option α)
  | again
  | pending

namespace Line

def ask : Line α → Asked
  | .heap _ sub _ _ => if sub.queue.isEmpty then .again else .answer true
  | .fixed _ slot _ => .answer (!slot.queue.isEmpty || slot.standing = .shutDown)

/-- The first section of a poll: the channel's own, or the whole poll in fixed storage. -/
def receive : Line α → Received α × Line α
  | .heap cap sub receiver closing =>
    match sub.queue with
    | delivery :: queue =>
      (.next (some delivery),
        .heap cap { sub with queue := queue, inHand := sub.inHand + 1 } receiver closing)
    | [] => (.again, .heap cap sub true closing)
  | .fixed sizes slot reader =>
    match slot.queue with
    | delivery :: queue =>
      (.next (some delivery), .fixed sizes { slot with queue := queue, inHand := slot.inHand + 1 } reader)
    | [] =>
      if slot.standing = .shutDown then (.next none, .fixed sizes slot reader)
      else (.pending, .fixed sizes slot true)

/-- The second section of a poll on the heap, which the channel left pending. In fixed storage there is none. -/
def close : Line α → Received α × Line α
  | .heap cap sub receiver closing =>
    if sub.standing = .shutDown then (.next none, .heap cap sub receiver closing)
    else (.pending, .heap cap sub receiver true)
  | .fixed sizes slot reader =>
    if slot.standing = .shutDown then (.next none, .fixed sizes slot reader)
    else (.pending, .fixed sizes slot true)

end Line

/-! ## The task -/

/-- What the loop is at. -/
inductive Loop where
  /-- About to begin a turn. -/
  | head
  /-- In a turn: whether the stop signal was given when it began, and whether a poll of it found the stream and
  the signal pending. -/
  | turn (shutdown parked : Bool)
  | handling
  | ended
  deriving DecidableEq, Repr

/-- What is read next to tell whether a poll may be skipped. -/
inductive Read where
  | queue
  | standing
  | signal
  deriving DecidableEq, Repr

/-- Where a poll of the task is. -/
inductive At where
  | asleep
  /-- The gate asks whether the loop is idle. -/
  | gate (next : Read)
  /-- The loop is resumed. -/
  | enter
  /-- The turn asks whether the stream is idle. -/
  | skip (next : Read)
  /-- The bound looks at its count; at its limit it asks the probe. -/
  | count
  | probe (again : Bool)
  /-- The stream is polled; `again` in the second section. -/
  | poll (again : Bool)
  /-- The stop signal is asked. -/
  | wait
  deriving DecidableEq, Repr

structure State (α : Type) where
  line : Line α
  /-- The stop signal, and whether the task's waker is registered with it. -/
  cancelled : Bool
  waiter : Bool
  /-- A wake of the task is pending. -/
  woken : Bool
  /-- Where the loop records for the gate that it is idle. -/
  flag : Bool
  loop : Loop
  /-- The count of the bound. -/
  ready : ℕ
  place : At
  /-- The deliveries that entered the queue, and those the loop was handed. -/
  entered : List α
  handed : List α

/-- What happens next. -/
inductive Event (α : Type) where
  | outside (change : Outside α)
  | stop
  /-- The task is woken by something else. -/
  | wake
  /-- The executor polls the task. -/
  | poll
  /-- The poll goes on; `finished` if it polls a handler and that finishes. -/
  | step (finished : Bool)

/-- An open subscription nobody has polled, with deliveries waiting in it. -/
def start (line : Line α) : State α where
  line := line
  cancelled := false
  waiter := false
  woken := true
  flag := false
  loop := .head
  ready := 0
  place := .asleep
  entered := line.queue
  handed := []

namespace State

/-- What others do to the subscription. -/
def change (s : State α) (made : Outside α) : State α :=
  let after := s.line.outside made
  { s with
    line := after.1
    woken := s.woken || after.2
    entered := s.entered ++ after.1.queue.drop s.line.queue.length }

/-- The stop signal is given: it wakes whoever registered with it. -/
def stop (s : State α) : State α :=
  { s with cancelled := true, woken := s.woken || s.waiter, waiter := false }

/-- One read of the test whether a poll may be skipped: to the next read, to `resumed` where it may not, or to
sleep. -/
def maySkip (s : State α) (place : Read → At) (resumed : State α) : Read → State α
  | .queue =>
    match s.line.ask with
    | .answer true => resumed
    | .answer false => { s with place := place .signal }
    | .again => { s with place := place .standing }
  | .standing => if s.line.isShutDown then resumed else { s with place := place .signal }
  | .signal => if s.cancelled then resumed else { s with place := .asleep }

/-- The loop is resumed. -/
def enter (s : State α) (finished : Bool) : State α :=
  match s.loop with
  | .head => { s with loop := .turn s.cancelled false }
  | .turn true _ => { s with loop := .ended, place := .asleep }
  | .turn false true => { s with place := .skip .queue }
  | .turn false false => { s with flag := false, place := .count }
  | .handling => if finished then { s with loop := .head } else { s with place := .asleep }
  | .ended => { s with place := .asleep }

/-- The bound answers in the stream's place. -/
def giveWay (s : State α) : State α :=
  { s with woken := true, place := .wait }

/-- The stream answered. -/
def answer (s : State α) (line : Line α) : Received α → State α
  | .next (some delivery) =>
    { s with
      line := line, ready := s.ready + 1, handed := s.handed ++ [delivery]
      loop := .handling, place := .enter }
  | .next none => { s with line := line, ready := s.ready + 1, loop := .ended, place := .asleep }
  | .pending => { s with line := line, ready := 0, place := .wait }
  | .again => { s with line := line, place := .poll true }

/-- One step of the poll under way. -/
def go (s : State α) (limit : ℕ) (finished : Bool) : State α :=
  match s.place with
  | .asleep => s
  | .gate next => s.maySkip .gate { s with place := .enter } next
  | .enter => s.enter finished
  | .skip next => s.maySkip .skip { s with flag := false, place := .count } next
  | .count =>
    if limit ≤ s.ready then { s with ready := 0, place := .probe false }
    else { s with place := .poll false }
  | .probe false =>
    match s.line.ask with
    | .answer true => s.giveWay
    | .answer false => { s with place := .poll false }
    | .again => { s with place := .probe true }
  | .probe true => if s.line.isShutDown then s.giveWay else { s with place := .poll false }
  | .poll false => s.answer s.line.receive.2 s.line.receive.1
  | .poll true => s.answer s.line.close.2 s.line.close.1
  | .wait =>
    if s.cancelled then { s with loop := .ended, place := .asleep }
    else { s with waiter := true, flag := true, loop := .turn false true, place := .asleep }

/-- The executor polls the task, which uses up its wake. -/
def beginPoll (s : State α) : State α :=
  { s with woken := false, place := if s.flag then .gate .queue else .enter }

end State

/-- One step of the task or of the others. -/
def step (limit : ℕ) (s : State α) : Event α → Option (State α)
  | .outside made => some (s.change made)
  | .stop => some s.stop
  | .wake => some { s with woken := true }
  | .poll => if s.place = .asleep then some s.beginPoll else none
  | .step finished => if s.place = .asleep then none else some (s.go limit finished)

/-- The loop waits in a turn, and the task is not being polled. -/
def State.Parked (s : State α) : Prop :=
  s.place = .asleep ∧ ∃ shutdown parked, s.loop = .turn shutdown parked

end Skipping

end RustStream
