import RustStream.Lib.Parking
import RustStream.Lib.Run

/-!
# The ring hand-off

A subscription that runs on threads of its own has a loop that reads the stream and a bounded ring for
each thread. The loop puts every delivery it reads into one of the rings, and each thread drains its
ring through the handler. A pool takes the next ring in turn that has room, before it reads; with keys
a delivery is read first and goes to the ring of its key, which the loop waits for when it is full.

A thread that finds its ring empty looks for a while and then parks, and a loop that finds no room
waits, so each side has to wake the other. Every load and store the two make on shared memory is a step
of its own here, in the order of the source, and the steps of all parties interleave at will. The rings
themselves are queues with one writer and one reader.

## Main definitions

* `Rings.Lane.act`: the steps of a thread, `Drain::work`.
* `Rings.State.feed`: the steps of the loop, `open`, `Feed::read` and `Feed::let_go`.
* `Rings.step`: the system.

## Main results

* `Rings.works_of_act`, `Rings.feeds_of_feed`: what a step of a thread and of the loop can be.
-/

namespace RustStream

namespace Rings

open Parking (Waker)

variable {n : ℕ} {α : Type*}

/-! ## Signals -/

/-- The entries of a ring. -/
def ringSize : ℕ := 8

/-- Deliveries handed over in a row before the loop gives the executor a turn. -/
def turnLength : ℕ := 128

/-- What the loop's flag says: it reads, or it waits for room in one ring or in any. -/
inductive Waiting (n : ℕ) where
  | reading
  | one (index : Fin n)
  | any
  deriving DecidableEq, Repr

/-- Whether a slot freed in ring `index`, which now holds `held`, is worth a wake. -/
def Waiting.wakes (waiting : Waiting n) (index : Fin n) (held : ℕ) : Bool :=
  match waiting with
  | .reading => false
  | .any => held ≤ ringSize / 2
  | .one waited => waited = index

/-- Which ring the loop wants room in: this one, or the first with room from here on. -/
inductive Which (n : ℕ) where
  | one (index : Fin n)
  | next (start : Fin n)
  deriving DecidableEq, Repr

namespace Which

def waiting : Which n → Waiting n
  | .one index => .one index
  | .next _ => .any

/-- How many rings are asked for room. -/
def count : Which n → ℕ
  | .one _ => 1
  | .next _ => n

/-- The ring asked at an offset. -/
def ring [NeZero n] (which : Which n) (offset : ℕ) : Fin n :=
  match which with
  | .one index => index
  | .next start => start + Fin.ofNat n offset

end Which

/-- The thread a key belongs to: the same key always maps to the same one. -/
def keyIndex [NeZero n] (hash : List UInt8 → UInt64) (key : List UInt8) : Fin n :=
  Fin.ofNat n (hash key).toNat

/-- How a subscription spreads its deliveries. -/
structure Setup (α : Type*) where
  keyed : Bool
  key : α → Option (List UInt8)
  hash : List UInt8 → UInt64

/-! ## A thread -/

/-- Where a thread is in its work. -/
inductive Draining (n : ℕ) where
  | unborn
  -- about to pop; about to ask how much is left; about to look at the loop's flag
  | top
  | popped
  | freed (held : ℕ)
  -- about to take down the flag it saw; about to wake the loop
  | exchanging (waiting : Waiting n)
  | waking
  | handling
  -- the ring was empty: about to ask whether the loop let go, and whether it is empty still
  | empty
  | closed
  -- spinning: about to ask for a delivery, and whether the loop let go
  | spinning
  | spinningOn
  -- about to leave its waker; to raise its flag; to ask for a delivery, and whether the loop let go
  | registering
  | flagging
  | checking
  | checkingOn
  | unflagging
  | suspended
  -- about to drop its end of the ring; to take down the loop's flag; to wake the loop
  | ending
  | dropped
  | leaving
  | gone
  deriving DecidableEq, Repr

/-- A ring with the thread that drains it. -/
structure Lane (n : ℕ) (α : Type*) where
  ring : List α
  -- whether the loop and the thread still hold their ends
  producer : Bool
  consumer : Bool
  parked : Bool
  waker : Waker
  phase : Draining n
  -- the delivery popped and not handled to its end
  hand : Option α
  -- all that was pushed to the ring, and all that was handled off it
  pushed : List α
  handled : List α

def Lane.new : Lane n α := ⟨[], true, true, false, .new, .unborn, none, [], []⟩

/-- What a thread does to the loop: it takes down its flag, or wakes it. -/
inductive Signal where
  | quiet
  | clear
  | wake
  deriving DecidableEq, Repr

/-- What a thread does next: a step of its own, or what the clock, the handler, the executor or the end
of the thread make it do. -/
inductive Act where
  | step
  -- the spinning has taken long enough
  | giveUp
  | handle
  | resume
  -- its work is dropped while it waits, or the handler panics
  | leave
  deriving DecidableEq, Repr

def Lane.work (index : Fin n) (waiting : Waiting n) (l : Lane n α) : Option (Lane n α × Signal) :=
  match l.phase with
  | .top =>
    match l.ring with
    | delivery :: rest =>
      some ({ l with ring := rest, hand := some delivery, phase := .popped }, .quiet)
    | [] => some ({ l with phase := .empty }, .quiet)
  | .popped => some ({ l with phase := .freed l.ring.length }, .quiet)
  | .freed held =>
    if waiting.wakes index held then some ({ l with phase := .exchanging waiting }, .quiet)
    else some ({ l with phase := .handling }, .quiet)
  | .exchanging seen =>
    if waiting = seen then some ({ l with phase := .waking }, .clear)
    else some ({ l with phase := .handling }, .quiet)
  | .waking => some ({ l with phase := .handling }, .wake)
  | .empty =>
    if l.producer then some ({ l with phase := .spinning }, .quiet)
    else some ({ l with phase := .closed }, .quiet)
  | .closed =>
    if l.ring.isEmpty then some ({ l with phase := .ending }, .quiet)
    else some ({ l with phase := .top }, .quiet)
  | .spinning =>
    if l.ring.isEmpty then some ({ l with phase := .spinningOn }, .quiet)
    else some ({ l with phase := .top }, .quiet)
  | .spinningOn =>
    if l.producer then some ({ l with phase := .spinning }, .quiet)
    else some ({ l with phase := .top }, .quiet)
  | .registering => some ({ l with waker := l.waker.register, phase := .flagging }, .quiet)
  | .flagging => some ({ l with parked := true, phase := .checking }, .quiet)
  | .checking =>
    if l.ring.isEmpty then some ({ l with phase := .checkingOn }, .quiet)
    else some ({ l with phase := .unflagging }, .quiet)
  | .checkingOn =>
    if l.producer then some ({ l with phase := .suspended }, .quiet)
    else some ({ l with phase := .unflagging }, .quiet)
  | .unflagging => some ({ l with parked := false, phase := .top }, .quiet)
  | .ending => some ({ l with consumer := false, phase := .dropped }, .quiet)
  | .dropped => some ({ l with phase := .leaving }, .clear)
  | .leaving => some ({ l with phase := .gone }, .wake)
  | .unborn => none
  | .handling => none
  | .suspended => none
  | .gone => none

def Lane.act (index : Fin n) (waiting : Waiting n) (l : Lane n α) :
    Act → Option (Lane n α × Signal)
  | .step => l.work index waiting
  | .giveUp =>
    match l.phase with
    | .spinningOn =>
      if l.producer then some ({ l with phase := .registering }, .quiet)
      else some ({ l with phase := .top }, .quiet)
    | _ => none
  | .handle =>
    match l.phase with
    | .handling =>
      let handled := l.handled ++ l.hand.toList
      some ({ l with hand := none, handled := handled, phase := .top }, .quiet)
    | _ => none
  | .resume =>
    match l.phase with
    | .suspended => some ({ l with waker := l.waker.poll, phase := .registering }, .quiet)
    -- the task runs again while its handler waits
    | .handling => some ({ l with waker := l.waker.poll }, .quiet)
    | _ => none
  | .leave =>
    match l.phase with
    | .handling => some ({ l with phase := .ending }, .quiet)
    | .suspended => some ({ l with phase := .ending }, .quiet)
    | _ => none

/-! ## The loop -/

/-- Where the loop is. -/
inductive Feeding (n : ℕ) where
  -- `started` threads have started
  | opening (started : ℕ)
  | head
  -- a look for room, the first or the one after the flag: about to ask whether a ring's thread is gone,
  -- and whether the ring is full
  | looking (which : Which n) (again : Bool) (offset : ℕ)
  | measuring (which : Which n) (again : Bool) (offset : ℕ)
  -- about to leave its waker; to raise its flag; to take it down
  | registering (which : Which n)
  | flagging (which : Which n)
  | clearing (which : Which n) (found : Except (Fin n) (Fin n))
  -- about to ask for the shutdown
  | cancelling (start : Fin n)
  | waiting (which : Which n)
  -- about to poll the stream, or waiting for it
  | pulling (picked : Option (Fin n))
  | pullWaiting (picked : Option (Fin n))
  -- about to ask whether the thread of the delivery is gone; to push it; to push it once there is room
  | routing
  | pushing
  | handingOver
  -- about to look at the thread's flag; to take it down; to wake the thread
  | pushed (index : Fin n) (counted : Bool)
  | swapping (index : Fin n) (counted : Bool)
  | wakingThread (index : Fin n) (counted : Bool)
  | yielding
  | yieldWaiting
  -- about to drop its end of a ring; to wake the thread of a ring
  | lettingGo (index : ℕ)
  | closing (index : ℕ)
  | done
  deriving DecidableEq

/-- The loop, the rings, and the flag and the waker of the loop. -/
structure State (n : ℕ) (α : Type*) where
  lanes : Fin n → Lane n α
  phase : Feeding n
  waiting : Waiting n
  waker : Waker
  turn : Fin n
  handed : ℕ
  -- the delivery read and not handed over, with its ring
  due : Option (Fin n × α)
  shutdown : Bool
  -- all that was read, with the ring each delivery was meant for
  reads : List (α × Fin n)

/-- What the stream answers. -/
inductive Pulled (α : Type*) where
  | delivery (delivery : α)
  | error
  | ended
  | pending

/-- What the loop does next: a step of its own, or what the start of a thread, the stream or the
executor make it do. -/
inductive Turn (α : Type*) where
  | start (ok : Bool)
  | step
  | pull (pulled : Pulled α)
  | resume

inductive Event (n : ℕ) (α : Type*) where
  | drain (index : Fin n) (act : Act)
  | feed (turn : Turn α)
  | shutdown

namespace State

def setLane (s : State n α) (index : Fin n) (l : Lane n α) : State n α :=
  { s with lanes := Function.update s.lanes index l }

/-- What a thread does to the loop. -/
def signal (s : State n α) : Signal → State n α
  | .quiet => s
  | .clear => { s with waiting := .reading }
  | .wake => { s with waker := s.waker.wake }

/-- The look for room ends: with a ring, or with a thread that is gone. -/
def found (s : State n α) (which : Which n) : Except (Fin n) (Fin n) → State n α
  | .ok index =>
    match which with
    | .next _ => { s with phase := .pulling (some index) }
    | .one _ => { s with phase := .handingOver }
  | .error _ => { s with phase := .lettingGo 0 }

/-- After a push. Those made at once count towards the loop's turn. -/
def handedOver (s : State n α) (counted : Bool) : State n α :=
  if counted then
    if turnLength ≤ s.handed + 1 then { s with handed := 0, phase := .yielding }
    else { s with handed := s.handed + 1, phase := .head }
  else { s with phase := .head }

/-- A delivery is pushed to a ring that has room. -/
def push (s : State n α) (index : Fin n) (delivery : α) (counted : Bool) : State n α :=
  let l := s.lanes index
  { s.setLane index { l with ring := l.ring ++ [delivery], pushed := l.pushed ++ [delivery] } with
    due := none
    phase := .pushed index counted }

/-- A thread's waker is used. -/
def wakeThread (s : State n α) (index : Fin n) : State n α :=
  s.setLane index { s.lanes index with waker := (s.lanes index).waker.wake }

section

variable [NeZero n]

def start (n : ℕ) [NeZero n] (α : Type*) : State n α :=
  ⟨fun _ => .new, .opening 0, .reading, .new, 0, 0, none, false, []⟩

/-- The next step of the loop's own. -/
def advance (setup : Setup α) (s : State n α) : Option (State n α) :=
  match s.phase with
  | .head =>
    if s.shutdown then some { s with phase := .lettingGo 0 }
    else if setup.keyed then some { s with phase := .pulling none }
    else some { s with phase := .looking (.next s.turn) false 0 }
  | .looking which again offset =>
    if (s.lanes (which.ring offset)).consumer then
      some { s with phase := .measuring which again offset }
    else if again then some { s with phase := .clearing which (.error (which.ring offset)) }
    else some (s.found which (.error (which.ring offset)))
  | .measuring which again offset =>
    if (s.lanes (which.ring offset)).ring.length < ringSize then
      if again then some { s with phase := .clearing which (.ok (which.ring offset)) }
      else some (s.found which (.ok (which.ring offset)))
    else if offset + 1 < which.count then
      some { s with phase := .looking which again (offset + 1) }
    else if again then
      match which with
      | .next start => some { s with phase := .cancelling start }
      -- a delivery in hand is handed over in spite of a shutdown
      | .one _ => some { s with phase := .waiting which }
    else some { s with phase := .registering which }
  | .registering which => some { s with waker := s.waker.register, phase := .flagging which }
  | .flagging which => some { s with waiting := which.waiting, phase := .looking which true 0 }
  | .clearing which found => some ({ s with waiting := .reading }.found which found)
  | .cancelling start =>
    if s.shutdown then some { s with phase := .lettingGo 0 }
    else some { s with phase := .waiting (.next start) }
  | .routing =>
    match s.due with
    | some (index, _) =>
      if (s.lanes index).consumer then some { s with phase := .pushing }
      else some { s with phase := .lettingGo 0 }
    | none => none
  | .pushing =>
    match s.due with
    | some (index, delivery) =>
      if (s.lanes index).ring.length < ringSize then some (s.push index delivery true)
      else some { s with phase := .handingOver }
    | none => none
  | .handingOver =>
    match s.due with
    | some (index, delivery) =>
      if (s.lanes index).ring.length < ringSize then some (s.push index delivery false)
      else some { s with phase := .looking (.one index) false 0 }
    | none => none
  | .pushed index counted =>
    if (s.lanes index).parked then some { s with phase := .swapping index counted }
    else some (s.handedOver counted)
  | .swapping index counted =>
    if (s.lanes index).parked then
      some { s.setLane index { s.lanes index with parked := false } with
        phase := .wakingThread index counted }
    else some (s.handedOver counted)
  | .wakingThread index counted => some ((s.wakeThread index).handedOver counted)
  | .yielding => some { s with waker := { s.waker with woken := true }, phase := .yieldWaiting }
  | .lettingGo index =>
    if h : index < n then
      some { s.setLane ⟨index, h⟩ { s.lanes ⟨index, h⟩ with producer := false } with
        phase := .lettingGo (index + 1) }
    else some { s with phase := .closing 0 }
  | .closing index =>
    if h : index < n then some { s.wakeThread ⟨index, h⟩ with phase := .closing (index + 1) }
    else some { s with phase := .done }
  | .opening _ => none
  | .waiting _ => none
  | .pulling _ => none
  | .pullWaiting _ => none
  | .yieldWaiting => none
  | .done => none

/-- The ring a delivery is meant for: the one picked before, that of its key, or the next in turn. -/
def route (setup : Setup α) (s : State n α) (picked : Option (Fin n)) (delivery : α) : Fin n :=
  match picked with
  | some index => index
  | none =>
    match setup.key delivery with
    | some key => keyIndex setup.hash key
    | none => s.turn

/-- A delivery comes off the stream. -/
def read (setup : Setup α) (s : State n α) (picked : Option (Fin n)) (delivery : α) : State n α :=
  let index := s.route setup picked delivery
  { s with
    turn := if picked.isSome || (setup.key delivery).isNone then index + 1 else s.turn
    due := some (index, delivery)
    reads := s.reads ++ [(delivery, index)]
    phase := if picked.isSome then .pushing else .routing }

def feed (setup : Setup α) (s : State n α) : Turn α → Option (State n α)
  | .start ok =>
    match s.phase with
    | .opening started =>
      if h : started < n then
        if ok then
          let next := if started + 1 < n then .opening (started + 1) else .head
          some { s.setLane ⟨started, h⟩ { s.lanes ⟨started, h⟩ with phase := .top } with
            phase := next }
        else
          -- the thread's end of the ring goes with the thread
          some { s.setLane ⟨started, h⟩ { s.lanes ⟨started, h⟩ with
              consumer := false, phase := .gone } with
            phase := .lettingGo 0 }
      else none
    | _ => none
  | .step => s.advance setup
  | .pull pulled =>
    match s.phase with
    | .pulling picked =>
      match pulled with
      | .delivery delivery => some (s.read setup picked delivery)
      | .error => some { s with phase := .yielding }
      | .ended => some { s with phase := .lettingGo 0 }
      | .pending =>
        if s.shutdown then some { s with phase := .lettingGo 0 }
        else some { s with phase := .pullWaiting picked }
    | _ => none
  | .resume =>
    match s.phase with
    | .waiting which => some { s with waker := s.waker.poll, phase := .looking which false 0 }
    | .pullWaiting picked => some { s with waker := s.waker.poll, phase := .pulling picked }
    | .yieldWaiting => some { s with waker := s.waker.poll, phase := .head }
    | _ => none

end

end State

/-- The system: a step of a thread or of the loop, or the shutdown. -/
def step [NeZero n] (setup : Setup α) (s : State n α) : Event n α → Option (State n α)
  | .drain index act =>
    match (s.lanes index).act index s.waiting act with
    | some (l, signal) => some ((s.setLane index l).signal signal)
    | none => none
  | .feed turn => s.feed setup turn
  | .shutdown => some { s with shutdown := true }

section Lanes

variable {s : State n α} {i j : Fin n} {l : Lane n α}

theorem lanes_setLane_self (s : State n α) (i : Fin n) (l : Lane n α) :
    (s.setLane i l).lanes i = l := by
  simp [State.setLane]

theorem lanes_setLane_of_ne (s : State n α) (h : j ≠ i) (l : Lane n α) :
    (s.setLane i l).lanes j = s.lanes j := by
  simp [State.setLane, h]

/-- A property of every lane, where one of them changes. -/
theorem forall_setLane {p : Fin n → Lane n α → Prop} (h : ∀ j, p j (s.lanes j)) (hi : p i l)
    (j : Fin n) : p j ((s.setLane i l).lanes j) := by
  rcases eq_or_ne j i with rfl | hne
  · rwa [lanes_setLane_self]
  · rw [lanes_setLane_of_ne s hne]
    exact h j

/-- The look for room changes nothing but where the loop is. -/
theorem found_eq (s : State n α) (which : Which n) (result : Except (Fin n) (Fin n)) :
    s.found which result = { s with phase := (s.found which result).phase } := by
  rcases result with _ | _
  · rfl
  · rcases which with _ | _ <;> rfl

/-- Nor does the end of a push, but for the count of pushes. -/
theorem exists_handedOver_eq (s : State n α) (counted : Bool) :
    ∃ handed phase, s.handedOver counted = { s with handed := handed, phase := phase } ∧
      (phase = .head ∨ phase = .yielding) := by
  unfold State.handedOver
  split_ifs
  · exact ⟨_, _, rfl, Or.inr rfl⟩
  · exact ⟨_, _, rfl, Or.inl rfl⟩
  · exact ⟨_, _, rfl, Or.inl rfl⟩

end Lanes

/-! ## What the steps do -/

/-- The steps of a thread, one constructor for each way a step can go. -/
inductive Works (index : Fin n) (waiting : Waiting n) (l : Lane n α) :
    Act → Lane n α → Signal → Prop
  | pop (delivery : α) (rest : List α) (hphase : l.phase = .top) (hring : l.ring = delivery :: rest) :
      Works index waiting l .step
        { l with ring := rest, hand := some delivery, phase := .popped } .quiet
  | popEmpty (hphase : l.phase = .top) (hring : l.ring = []) :
      Works index waiting l .step { l with phase := .empty } .quiet
  | measure (hphase : l.phase = .popped) :
      Works index waiting l .step { l with phase := .freed l.ring.length } .quiet
  | seen (held : ℕ) (hphase : l.phase = .freed held) (hwakes : waiting.wakes index held = true) :
      Works index waiting l .step { l with phase := .exchanging waiting } .quiet
  | unseen (held : ℕ) (hphase : l.phase = .freed held) (hwakes : waiting.wakes index held = false) :
      Works index waiting l .step { l with phase := .handling } .quiet
  | exchange (hphase : l.phase = .exchanging waiting) :
      Works index waiting l .step { l with phase := .waking } .clear
  | exchangeLost (seen : Waiting n) (hphase : l.phase = .exchanging seen) (hseen : waiting ≠ seen) :
      Works index waiting l .step { l with phase := .handling } .quiet
  | wake (hphase : l.phase = .waking) : Works index waiting l .step { l with phase := .handling } .wake
  | abandoned (hphase : l.phase = .empty) (hproducer : l.producer = false) :
      Works index waiting l .step { l with phase := .closed } .quiet
  | spin (hphase : l.phase = .empty) :
      Works index waiting l .step { l with phase := .spinning } .quiet
  | drained (hphase : l.phase = .closed) (hring : l.ring = []) :
      Works index waiting l .step { l with phase := .ending } .quiet
  | again (act : Act)
      (hphase : l.phase = .closed ∨ l.phase = .spinning ∨ l.phase = .spinningOn) :
      Works index waiting l act { l with phase := .top } .quiet
  | spinOn (hphase : l.phase = .spinning) :
      Works index waiting l .step { l with phase := .spinningOn } .quiet
  | spinAgain (hphase : l.phase = .spinningOn) :
      Works index waiting l .step { l with phase := .spinning } .quiet
  | giveUp (hphase : l.phase = .spinningOn) :
      Works index waiting l .giveUp { l with phase := .registering } .quiet
  | register (hphase : l.phase = .registering) :
      Works index waiting l .step { l with waker := l.waker.register, phase := .flagging } .quiet
  | flag (hphase : l.phase = .flagging) :
      Works index waiting l .step { l with parked := true, phase := .checking } .quiet
  | checkEmpty (hphase : l.phase = .checking) (hring : l.ring = []) :
      Works index waiting l .step { l with phase := .checkingOn } .quiet
  | sleep (hphase : l.phase = .checkingOn) (hproducer : l.producer = true) :
      Works index waiting l .step { l with phase := .suspended } .quiet
  | found (hphase : l.phase = .checking ∨ l.phase = .checkingOn) :
      Works index waiting l .step { l with phase := .unflagging } .quiet
  | unflag (hphase : l.phase = .unflagging) :
      Works index waiting l .step { l with parked := false, phase := .top } .quiet
  | handle (hphase : l.phase = .handling) :
      Works index waiting l .handle
        { l with hand := none, handled := l.handled ++ l.hand.toList, phase := .top } .quiet
  | resume (hphase : l.phase = .suspended) :
      Works index waiting l .resume { l with waker := l.waker.poll, phase := .registering } .quiet
  | pollHandler (hphase : l.phase = .handling) :
      Works index waiting l .resume { l with waker := l.waker.poll } .quiet
  | leave (hphase : l.phase = .handling ∨ l.phase = .suspended) :
      Works index waiting l .leave { l with phase := .ending } .quiet
  | drop (hphase : l.phase = .ending) :
      Works index waiting l .step { l with consumer := false, phase := .dropped } .quiet
  | leavingClear (hphase : l.phase = .dropped) :
      Works index waiting l .step { l with phase := .leaving } .clear
  | leavingWake (hphase : l.phase = .leaving) :
      Works index waiting l .step { l with phase := .gone } .wake

section Works

variable {index : Fin n} {waiting : Waiting n} {l l' : Lane n α} {signal : Signal} {act : Act}

theorem works_of_work (h : l.work index waiting = some (l', signal)) :
    Works index waiting l .step l' signal := by
  unfold Lane.work at h
  split at h
  · rename_i hphase
    split at h
    · rename_i delivery rest hring
      cases h
      exact Works.pop delivery rest hphase hring
    · rename_i hring
      cases h
      exact Works.popEmpty hphase hring
  · rename_i hphase
    cases h
    exact Works.measure hphase
  · rename_i held hphase
    split_ifs at h with hwakes
    · cases h
      exact Works.seen held hphase hwakes
    · cases h
      exact Works.unseen held hphase (Bool.eq_false_iff.mpr hwakes)
  · rename_i seen hphase
    split_ifs at h with hseen
    · cases h
      exact Works.exchange (hseen ▸ hphase)
    · cases h
      exact Works.exchangeLost seen hphase hseen
  · rename_i hphase
    cases h
    exact Works.wake hphase
  · rename_i hphase
    split_ifs at h with hproducer
    · cases h
      exact Works.spin hphase
    · cases h
      exact Works.abandoned hphase (Bool.eq_false_iff.mpr hproducer)
  · rename_i hphase
    split_ifs at h with hring
    · cases h
      exact Works.drained hphase (List.isEmpty_iff.mp hring)
    · cases h
      exact Works.again _ (Or.inl hphase)
  · rename_i hphase
    split_ifs at h with hring
    · cases h
      exact Works.spinOn hphase
    · cases h
      exact Works.again _ (Or.inr (Or.inl hphase))
  · rename_i hphase
    split_ifs at h with hproducer
    · cases h
      exact Works.spinAgain hphase
    · cases h
      exact Works.again _ (Or.inr (Or.inr hphase))
  · rename_i hphase
    cases h
    exact Works.register hphase
  · rename_i hphase
    cases h
    exact Works.flag hphase
  · rename_i hphase
    split_ifs at h with hring
    · cases h
      exact Works.checkEmpty hphase (List.isEmpty_iff.mp hring)
    · cases h
      exact Works.found (Or.inl hphase)
  · rename_i hphase
    split_ifs at h with hproducer
    · cases h
      exact Works.sleep hphase hproducer
    · cases h
      exact Works.found (Or.inr hphase)
  · rename_i hphase
    cases h
    exact Works.unflag hphase
  · rename_i hphase
    cases h
    exact Works.drop hphase
  · rename_i hphase
    cases h
    exact Works.leavingClear hphase
  · rename_i hphase
    cases h
    exact Works.leavingWake hphase
  all_goals cases h

theorem works_of_act (h : l.act index waiting act = some (l', signal)) :
    Works index waiting l act l' signal := by
  rcases act with _ | _ | _ | _ | _
  · exact works_of_work h
  · rw [Lane.act] at h
    split at h
    · rename_i hphase
      split_ifs at h
      · cases h
        exact Works.giveUp hphase
      · cases h
        exact Works.again _ (Or.inr (Or.inr hphase))
    · cases h
  · rw [Lane.act] at h
    split at h
    · rename_i hphase
      cases h
      exact Works.handle hphase
    · cases h
  · rw [Lane.act] at h
    split at h
    · rename_i hphase
      cases h
      exact Works.resume hphase
    · rename_i hphase
      cases h
      exact Works.pollHandler hphase
    · cases h
  · rw [Lane.act] at h
    split at h
    · rename_i hphase
      cases h
      exact Works.leave (Or.inl hphase)
    · rename_i hphase
      cases h
      exact Works.leave (Or.inr hphase)
    · cases h

end Works

section Feeds

variable [NeZero n]

/-- The steps of the loop. -/
inductive Feeds (setup : Setup α) (s : State n α) : State n α → Prop
  | started (index : Fin n) (phase : Feeding n) (hphase : s.phase = .opening index)
      (hnext : phase = .head ∨ phase = .opening (index + 1)) :
      Feeds setup s
        { s.setLane index { s.lanes index with phase := .top } with phase := phase }
  | startFailed (index : Fin n) (hphase : s.phase = .opening index) :
      Feeds setup s
        { s.setLane index { s.lanes index with consumer := false, phase := .gone } with
          phase := .lettingGo 0 }
  -- a shutdown, or the end of the stream
  | stop (hphase : s.phase = .head ∨ (∃ start, s.phase = .cancelling start) ∨
        ∃ picked, s.phase = .pulling picked) :
      Feeds setup s { s with phase := .lettingGo 0 }
  | pullKeyed (hphase : s.phase = .head) (hkeyed : setup.keyed = true) :
      Feeds setup s { s with phase := .pulling none }
  | lookPool (hphase : s.phase = .head) (hkeyed : setup.keyed = false) :
      Feeds setup s { s with phase := .looking (.next s.turn) false 0 }
  | ask (which : Which n) (again : Bool) (offset : ℕ)
      (hphase : s.phase = .looking which again offset)
      (hconsumer : (s.lanes (which.ring offset)).consumer = true) :
      Feeds setup s { s with phase := .measuring which again offset }
  | threadGone (index : Fin n) (hconsumer : (s.lanes index).consumer = false)
      (hphase : (∃ which offset, s.phase = .looking which false offset) ∨ s.phase = .routing) :
      Feeds setup s { s with phase := .lettingGo 0 }
  | threadGoneAgain (which : Which n) (offset : ℕ) (hphase : s.phase = .looking which true offset)
      (hconsumer : (s.lanes (which.ring offset)).consumer = false) :
      Feeds setup s { s with phase := .clearing which (.error (which.ring offset)) }
  | room (which : Which n) (offset : ℕ) (hphase : s.phase = .measuring which false offset)
      (hroom : (s.lanes (which.ring offset)).ring.length < ringSize) :
      Feeds setup s (s.found which (.ok (which.ring offset)))
  | roomAgain (which : Which n) (offset : ℕ) (hphase : s.phase = .measuring which true offset)
      (hroom : (s.lanes (which.ring offset)).ring.length < ringSize) :
      Feeds setup s { s with phase := .clearing which (.ok (which.ring offset)) }
  | full (which : Which n) (again : Bool) (offset : ℕ)
      (hphase : s.phase = .measuring which again offset)
      (hfull : ringSize ≤ (s.lanes (which.ring offset)).ring.length) :
      Feeds setup s { s with phase := .looking which again (offset + 1) }
  | fullLast (which : Which n) (offset : ℕ) (hphase : s.phase = .measuring which false offset) :
      Feeds setup s { s with phase := .registering which }
  | register (which : Which n) (hphase : s.phase = .registering which) :
      Feeds setup s { s with waker := s.waker.register, phase := .flagging which }
  | flag (which : Which n) (hphase : s.phase = .flagging which) :
      Feeds setup s { s with waiting := which.waiting, phase := .looking which true 0 }
  | clear (which : Which n) (result : Except (Fin n) (Fin n))
      (hphase : s.phase = .clearing which result) :
      Feeds setup s ({ s with waiting := .reading }.found which result)
  | cancel (start : Fin n) (offset : ℕ) (hphase : s.phase = .measuring (.next start) true offset)
      (hfull : ringSize ≤ (s.lanes ((Which.next start).ring offset)).ring.length)
      (hlast : n ≤ offset + 1) :
      Feeds setup s { s with phase := .cancelling start }
  | waitOne (index : Fin n) (offset : ℕ) (hphase : s.phase = .measuring (.one index) true offset)
      (hfull : ringSize ≤ (s.lanes index).ring.length) :
      Feeds setup s { s with phase := .waiting (.one index) }
  | waitNext (start : Fin n) (hphase : s.phase = .cancelling start) :
      Feeds setup s { s with phase := .waiting (.next start) }
  | routed (index : Fin n) (delivery : α) (hphase : s.phase = .routing)
      (hdue : s.due = some (index, delivery)) : Feeds setup s { s with phase := .pushing }
  | push (index : Fin n) (delivery : α) (counted : Bool)
      (hphase : s.phase = .pushing ∨ s.phase = .handingOver) (hdue : s.due = some (index, delivery))
      (hroom : (s.lanes index).ring.length < ringSize) :
      Feeds setup s (s.push index delivery counted)
  | noRoom (index : Fin n) (delivery : α) (hphase : s.phase = .pushing)
      (hdue : s.due = some (index, delivery)) (hfull : ringSize ≤ (s.lanes index).ring.length) :
      Feeds setup s { s with phase := .handingOver }
  | noRoomAgain (index : Fin n) (delivery : α) (hphase : s.phase = .handingOver)
      (hdue : s.due = some (index, delivery)) :
      Feeds setup s { s with phase := .looking (.one index) false 0 }
  | parked (index : Fin n) (counted : Bool) (hphase : s.phase = .pushed index counted) :
      Feeds setup s { s with phase := .swapping index counted }
  | unparked (index : Fin n) (counted : Bool)
      (hphase : s.phase = .pushed index counted ∨ s.phase = .swapping index counted)
      (hparked : (s.lanes index).parked = false) : Feeds setup s (s.handedOver counted)
  | swap (index : Fin n) (counted : Bool) (hphase : s.phase = .swapping index counted) :
      Feeds setup s
        { s.setLane index { s.lanes index with parked := false } with
          phase := .wakingThread index counted }
  | wakeThread (index : Fin n) (counted : Bool) (hphase : s.phase = .wakingThread index counted) :
      Feeds setup s ((s.wakeThread index).handedOver counted)
  | yield (hphase : s.phase = .yielding) :
      Feeds setup s { s with waker := { s.waker with woken := true }, phase := .yieldWaiting }
  | read (picked : Option (Fin n)) (delivery : α) (hphase : s.phase = .pulling picked) :
      Feeds setup s (s.read setup picked delivery)
  | error (picked : Option (Fin n)) (hphase : s.phase = .pulling picked) :
      Feeds setup s { s with phase := .yielding }
  | pending (picked : Option (Fin n)) (hphase : s.phase = .pulling picked) :
      Feeds setup s { s with phase := .pullWaiting picked }
  | resume (which : Which n) (hphase : s.phase = .waiting which) :
      Feeds setup s { s with waker := s.waker.poll, phase := .looking which false 0 }
  | resumePull (picked : Option (Fin n)) (hphase : s.phase = .pullWaiting picked) :
      Feeds setup s { s with waker := s.waker.poll, phase := .pulling picked }
  | resumeYield (hphase : s.phase = .yieldWaiting) :
      Feeds setup s { s with waker := s.waker.poll, phase := .head }
  | letGo (index : Fin n) (hphase : s.phase = .lettingGo index) :
      Feeds setup s
        { s.setLane index { s.lanes index with producer := false } with
          phase := .lettingGo (index + 1) }
  | letGoEnd (index : ℕ) (hphase : s.phase = .lettingGo index) :
      Feeds setup s { s with phase := .closing 0 }
  | close (index : Fin n) (hphase : s.phase = .closing index) :
      Feeds setup s { s.wakeThread index with phase := .closing (index + 1) }
  | closeEnd (index : ℕ) (hphase : s.phase = .closing index) (hindex : n ≤ index) :
      Feeds setup s { s with phase := .done }

variable {setup : Setup α} {s s' : State n α} {e : Event n α}

theorem feeds_of_advance (h : s.advance setup = some s') : Feeds setup s s' := by
  unfold State.advance at h
  split at h
  · rename_i hphase
    split_ifs at h with hshutdown hkeyed
    · cases h
      exact Feeds.stop (Or.inl hphase)
    · cases h
      exact Feeds.pullKeyed hphase hkeyed
    · cases h
      exact Feeds.lookPool hphase (Bool.eq_false_iff.mpr hkeyed)
  · rename_i which again offset hphase
    split_ifs at h with hconsumer hagain
    · cases h
      exact Feeds.ask which again offset hphase hconsumer
    · cases h
      subst hagain
      exact Feeds.threadGoneAgain which offset hphase (Bool.eq_false_iff.mpr hconsumer)
    · cases h
      rw [Bool.eq_false_iff.mpr hagain] at hphase
      exact Feeds.threadGone _ (Bool.eq_false_iff.mpr hconsumer) (Or.inl ⟨which, offset, hphase⟩)
  · rename_i which again offset hphase
    split_ifs at h with hroom hagain hmore hagain
    · cases h
      subst hagain
      exact Feeds.roomAgain which offset hphase hroom
    · cases h
      rw [Bool.eq_false_iff.mpr hagain] at hphase
      exact Feeds.room which offset hphase hroom
    · cases h
      exact Feeds.full which again offset hphase (Nat.not_lt.mp hroom)
    · subst hagain
      rcases which with index | start
      · cases h
        exact Feeds.waitOne index offset hphase (Nat.not_lt.mp hroom)
      · cases h
        exact Feeds.cancel start offset hphase (Nat.not_lt.mp hroom) (Nat.not_lt.mp hmore)
    · cases h
      rw [Bool.eq_false_iff.mpr hagain] at hphase
      exact Feeds.fullLast which offset hphase
  · rename_i which hphase
    cases h
    exact Feeds.register which hphase
  · rename_i which hphase
    cases h
    exact Feeds.flag which hphase
  · rename_i which result hphase
    cases h
    exact Feeds.clear which result hphase
  · rename_i start hphase
    split_ifs at h
    · cases h
      exact Feeds.stop (Or.inr (Or.inl ⟨start, hphase⟩))
    · cases h
      exact Feeds.waitNext start hphase
  · rename_i hphase
    split at h
    · rename_i index delivery hdue
      split_ifs at h with hconsumer
      · cases h
        exact Feeds.routed index delivery hphase hdue
      · cases h
        exact Feeds.threadGone index (Bool.eq_false_iff.mpr hconsumer) (Or.inr hphase)
    · cases h
  · rename_i hphase
    split at h
    · rename_i index delivery hdue
      split_ifs at h with hroom
      · cases h
        exact Feeds.push index delivery true (Or.inl hphase) hdue hroom
      · cases h
        exact Feeds.noRoom index delivery hphase hdue (Nat.not_lt.mp hroom)
    · cases h
  · rename_i hphase
    split at h
    · rename_i index delivery hdue
      split_ifs at h with hroom
      · cases h
        exact Feeds.push index delivery false (Or.inr hphase) hdue hroom
      · cases h
        exact Feeds.noRoomAgain index delivery hphase hdue
    · cases h
  · rename_i index counted hphase
    split_ifs at h with hparked
    · cases h
      exact Feeds.parked index counted hphase
    · cases h
      exact Feeds.unparked index counted (Or.inl hphase) (Bool.eq_false_iff.mpr hparked)
  · rename_i index counted hphase
    split_ifs at h with hparked
    · cases h
      exact Feeds.swap index counted hphase
    · cases h
      exact Feeds.unparked index counted (Or.inr hphase) (Bool.eq_false_iff.mpr hparked)
  · rename_i index counted hphase
    cases h
    exact Feeds.wakeThread index counted hphase
  · rename_i hphase
    cases h
    exact Feeds.yield hphase
  · rename_i index hphase
    split_ifs at h with hindex
    · cases h
      exact Feeds.letGo ⟨index, hindex⟩ hphase
    · cases h
      exact Feeds.letGoEnd index hphase
  · rename_i index hphase
    split_ifs at h with hindex
    · cases h
      exact Feeds.close ⟨index, hindex⟩ hphase
    · cases h
      exact Feeds.closeEnd index hphase (Nat.not_lt.mp hindex)
  all_goals cases h

theorem feeds_of_feed {turn : Turn α} (h : s.feed setup turn = some s') : Feeds setup s s' := by
  rcases turn with ok | _ | pulled | _
  · rw [State.feed] at h
    split at h
    · rename_i started hphase
      split_ifs at h with hstarted hok hmore
      · cases h
        exact Feeds.started ⟨started, hstarted⟩ _ hphase (Or.inr rfl)
      · cases h
        exact Feeds.started ⟨started, hstarted⟩ _ hphase (Or.inl rfl)
      · cases h
        exact Feeds.startFailed ⟨started, hstarted⟩ hphase
    · cases h
  · exact feeds_of_advance h
  · rw [State.feed] at h
    split at h
    · rename_i picked hphase
      rcases pulled with delivery | _ | _ | _
      · cases h
        exact Feeds.read picked delivery hphase
      · cases h
        exact Feeds.error picked hphase
      · cases h
        exact Feeds.stop (Or.inr (Or.inr ⟨picked, hphase⟩))
      · dsimp only at h
        split_ifs at h
        · cases h
          exact Feeds.stop (Or.inr (Or.inr ⟨picked, hphase⟩))
        · cases h
          exact Feeds.pending picked hphase
    · cases h
  · rw [State.feed] at h
    split at h
    · rename_i which hphase
      cases h
      exact Feeds.resume which hphase
    · rename_i picked hphase
      cases h
      exact Feeds.resumePull picked hphase
    · rename_i hphase
      cases h
      exact Feeds.resumeYield hphase
    · cases h

/-- A step is one of a thread, one of the loop, or the shutdown. -/
inductive Effect (setup : Setup α) (s : State n α) : Event n α → State n α → Prop
  | drain (index : Fin n) (act : Act) (l : Lane n α) (signal : Signal)
      (hworks : Works index s.waiting (s.lanes index) act l signal) :
      Effect setup s (.drain index act) ((s.setLane index l).signal signal)
  | feed (turn : Turn α) (s' : State n α) (hfeeds : Feeds setup s s') : Effect setup s (.feed turn) s'
  | shutdown : Effect setup s .shutdown { s with shutdown := true }

theorem effect_of_step (h : step setup s e = some s') : Effect setup s e s' := by
  rcases e with ⟨index, act⟩ | turn | _
  · rw [step] at h
    split at h
    · rename_i l signal hact
      cases h
      exact Effect.drain index act l signal (works_of_act hact)
    · cases h
  · exact Effect.feed turn s' (feeds_of_feed h)
  · cases h
    exact Effect.shutdown

end Feeds

end Rings

end RustStream
