import RustStream.Dispatch.Turn
import RustStream.Headers.Map
import RustStream.Lib.Lanes
import RustStream.Lib.Run

/-!
# The worker pool of an embedded registration

A registration with several workers is one task: the loop that reads the subscription, joined with a constant
set of workers, each reading a mailbox of one slot. A pool keeps the indices of its free workers in a queue;
its loop takes one before it reads, holds it through errors and skipped polls, and hands it the next delivery.
Keyed workers have no such queue: the loop picks the worker a delivery's key hashes to, or the next in turn, and
waits while that worker's slot is full. A worker that waits on an empty slot parks, and the join skips it until
the loop fills the slot.

The parts of the task run one after the other and each runs until it waits. A step below is what one of them
does between two points at which it may wait, and the steps come in any order: the order in which the join
polls its parts is one of them. The handler of a delivery may take any number of polls, and the stop signal may
be given between any two steps.

## Main definitions

* `Mailbox.send`, `Mailbox.receive`: the slot and the flag of a parked worker.
* `keyIndex`: the worker of a key.
* `State`, `step`: the loop and its workers.
* `State.queue`: what was read for a worker and not yet dispatched.

## Main results

* `moves_of_step`: what a step does.
-/

namespace RustStream

namespace Workers

variable {n : ℕ} {M : Type*}

/-! ## Keys -/

/-- 32-bit FNV-1a over the bytes of a key. -/
def fnv (key : Bytes) : UInt32 :=
  key.foldl (fun state byte => (state ^^^ byte.toUInt32) * 0x01000193) 0x811c9dc5

/-- The worker a key hashes to. -/
def keyIndex [NeZero n] (key : Bytes) : Fin n :=
  Fin.ofNat n (fnv key).toNat

/-- How a registration spreads its deliveries. -/
structure Setup (M : Type*) where
  keyed : Bool
  /-- The partition key of a delivery. -/
  key : M → Option Bytes
  /-- Whether the subscription has a probe that says when nothing is ready. -/
  gated : Bool

/-! ## Mailboxes -/

/-- What the loop hands one worker: the next delivery, or the end mark. -/
structure Mailbox (M : Type*) where
  slot : Option (Option M)
  /-- Set while the worker waits on an empty slot; cleared when the loop fills it. -/
  parked : Bool

namespace Mailbox

def new : Mailbox M where
  slot := none
  parked := false

/-- Hands the worker an item; `none` while the slot still holds the previous one. -/
def send (mailbox : Mailbox M) (item : Option M) : Option (Mailbox M) :=
  match mailbox.slot with
  | none => some ⟨some item, false⟩
  | some _ => none

/-- The next item. The worker parks while the slot is empty, unless it holds work of its own that a timer
wakes the task for. -/
def receive (mailbox : Mailbox M) (holding : Bool) : Mailbox M × Option (Option M) :=
  (⟨none, mailbox.slot.isNone && !holding⟩, mailbox.slot)

end Mailbox

/-! ## The workers and the loop -/

/-- What a worker is at. -/
inductive Phase (M : Type*) where
  | waiting
  | dispatching (msg : M)
  | ended

structure Worker (M : Type*) where
  mailbox : Mailbox M
  phase : Phase M

/-- Where the loop is. -/
inductive Feed (n : ℕ) (M : Type*) where
  | head
  /-- It waits for a free worker. -/
  | choosing
  /-- It reads the stream; `parked` once a poll found both the stream and the stop signal pending. -/
  | reading (parked : Bool)
  /-- It hands a delivery to a worker. -/
  | handing (worker : Fin n) (msg : M)
  /-- It is past its reads and marks the end for the workers from `next` on. -/
  | ending (next : ℕ)
  | done

/-- The loop, its workers, and what became of the deliveries. -/
structure State (n : ℕ) (M : Type*) where
  workers : Fin n → Worker M
  /-- The queue of free workers. -/
  free : List (Fin n)
  /-- A pool's free worker, held until a delivery goes to it. -/
  held : Option (Fin n)
  rotation : Fin n
  feed : Feed n M
  /-- Set while the loop's last poll found the stream and the stop signal pending. -/
  feedIdle : Bool
  /-- The stop signal. -/
  cancelled : Bool
  /-- The deliveries read off the stream, each with the worker picked for it. -/
  pulled : List (M × Fin n)
  /-- The deliveries dispatched, each with the worker that did. -/
  dispatched : List (M × Fin n)
  /-- Set once the queue of free workers had no room for an index. -/
  refused : Bool

/-- What the stream answers. -/
inductive Answer (M : Type*) where
  | delivery (msg : M)
  | error
  | ended
  | pending

/-- What happens next. -/
inductive Event (n : ℕ) (M : Type*) where
  | stop
  /-- The loop goes on where it is not reading. -/
  | loop
  /-- The loop is polled where it reads: what the probe says, and what the stream answers if it is asked. -/
  | read (mayBeReady : Bool) (answer : Answer M)
  /-- The join polls a worker: whether it holds work of its own, and whether the handler of the delivery it
  dispatches finishes. -/
  | work (worker : Fin n) (holding finished : Bool)

/-- The task as it starts. -/
def start (setup : Setup M) [NeZero n] : State n M where
  workers _ := ⟨.new, .waiting⟩
  free := if setup.keyed then [] else List.finRange n
  held := none
  rotation := 0
  feed := .head
  feedIdle := false
  cancelled := false
  pulled := []
  dispatched := []
  refused := false

namespace State

def setWorker (s : State n M) (index : Fin n) (worker : Worker M) : State n M :=
  { s with workers := Function.update s.workers index worker }

/-- The head of the loop. -/
def top (s : State n M) (setup : Setup M) : State n M :=
  if s.cancelled then { s with feed := .ending 0 }
  else if !setup.keyed && s.held.isNone then { s with feed := .choosing }
  else { s with feed := .reading false }

/-- Waits for a free worker, or for the stop signal where there is none. -/
def choose (s : State n M) : State n M :=
  match s.free with
  | index :: rest => { s with free := rest, held := some index, feed := .reading false }
  | [] => if s.cancelled then { s with feed := .ending 0 } else s

/-- The worker for a delivery, and the worker the next without a key comes after. -/
def route (s : State n M) (setup : Setup M) [NeZero n] (msg : M) : Fin n × Fin n :=
  match s.held with
  | some index => (index, s.rotation)
  | none =>
    match setup.key msg with
    | some key => (keyIndex key, s.rotation)
    | none => (s.rotation + 1, s.rotation + 1)

/-- One poll of the loop where it reads. -/
def read (s : State n M) (setup : Setup M) [NeZero n] (parked mayBeReady : Bool) :
    Answer M → State n M
  | answer =>
    if idle setup.gated parked mayBeReady s.cancelled then s
    else
      match answer with
      | .delivery msg =>
        { s with
          feedIdle := false, held := none, rotation := (s.route setup msg).2
          feed := .handing (s.route setup msg).1 msg
          pulled := s.pulled ++ [(msg, (s.route setup msg).1)] }
      | .error => { s with feedIdle := false, feed := .head }
      | .ended => { s with feedIdle := false, feed := .ending 0 }
      | .pending =>
        -- the stop signal is asked only where the stream is pending
        if s.cancelled then { s with feedIdle := false, feed := .ending 0 }
        else { s with feedIdle := true, feed := .reading true }

/-- Hands a delivery over, or waits while the slot is full. -/
def hand (s : State n M) (index : Fin n) (msg : M) : State n M :=
  match (s.workers index).mailbox.send (some msg) with
  | some mailbox =>
    { s.setWorker index { s.workers index with mailbox := mailbox } with feed := .head }
  | none => s

/-- Marks the end for a worker, or waits while its slot is full. -/
def finish (s : State n M) (next : ℕ) : State n M :=
  if h : next < n then
    match (s.workers ⟨next, h⟩).mailbox.send none with
    | some mailbox =>
      { s.setWorker ⟨next, h⟩ { s.workers ⟨next, h⟩ with mailbox := mailbox } with
        feed := .ending (next + 1) }
    | none => s
  else { s with feed := .done }

/-- Returns the index of a worker to the queue, which has room for `n`. -/
def giveBack (s : State n M) (index : Fin n) : State n M :=
  if s.free.length < n then { s with free := s.free ++ [index] } else { s with refused := true }

/-- The join polls a worker. -/
def work (s : State n M) (setup : Setup M) (index : Fin n) (holding finished : Bool) : State n M :=
  let worker := s.workers index
  -- a parked worker is skipped
  if worker.mailbox.parked then s
  else
    match worker.phase with
    | .waiting =>
      let received := worker.mailbox.receive holding
      match received.2 with
      | none => s.setWorker index ⟨received.1, .waiting⟩
      | some none => s.setWorker index ⟨received.1, .ended⟩
      | some (some msg) =>
        { s.setWorker index ⟨received.1, .dispatching msg⟩ with
          dispatched := s.dispatched ++ [(msg, index)] }
    | .dispatching _ =>
      if finished then
        let freed := s.setWorker index ⟨worker.mailbox, .waiting⟩
        if setup.keyed then freed else freed.giveBack index
      else s
    | .ended => s

end State

/-- One step of the task. -/
def step (setup : Setup M) [NeZero n] (s : State n M) : Event n M → Option (State n M)
  | .stop => some { s with cancelled := true }
  | .loop =>
    match s.feed with
    | .head => some (s.top setup)
    | .choosing => some s.choose
    | .handing index msg => some (s.hand index msg)
    | .ending next => some (s.finish next)
    | .reading _ => none
    | .done => none
  | .read mayBeReady answer =>
    match s.feed with
    | .reading parked => some (s.read setup parked mayBeReady answer)
    | _ => none
  | .work index holding finished => some (s.work setup index holding finished)

/-! ## What a delivery waits in -/

/-- The delivery in a slot. -/
def Mailbox.waiting (mailbox : Mailbox M) : List M :=
  (mailbox.slot.getD none).toList

/-- The delivery on its way to a worker. -/
def Feed.handingTo : Feed n M → Fin n → List M
  | .handing worker msg, index => if worker = index then [msg] else []
  | _, _ => []

/-- What was read for a worker and not dispatched, in order. -/
def State.queue (s : State n M) (index : Fin n) : List M :=
  (s.workers index).mailbox.waiting ++ s.feed.handingTo index

/-- The loop has marked the end for the worker. -/
def Feed.past : Feed n M → Fin n → Bool
  | .ending next, index => index.val < next
  | .done, _ => true
  | _, _ => false

/-- The loop reads no more. -/
def Feed.isOver : Feed n M → Bool
  | .ending _ => true
  | .done => true
  | _ => false

def Phase.isDispatching : Phase M → Bool
  | .dispatching _ => true
  | _ => false

/-- How often the index of a worker is in the loop's hand, held or on its way with a delivery. -/
def State.inHand (s : State n M) (index : Fin n) : ℕ :=
  (if s.held = some index then 1 else 0) + (s.feed.handingTo index).length

/-- How often a worker is busy: a delivery waits in its slot or is dispatched. -/
def Worker.busy (worker : Worker M) : ℕ :=
  worker.mailbox.waiting.length + worker.phase.isDispatching.toNat

/-- The whole group is idle: the loop waits for the stream and every worker is parked. -/
def State.isIdle (s : State n M) : Bool :=
  s.feedIdle && (List.finRange n).all fun index => (s.workers index).mailbox.parked

/-! ## What a step does -/

section Moves

variable [NeZero n]

/-- What a step of the task does. -/
inductive Moves (setup : Setup M) (s : State n M) : Event n M → State n M → Prop
  | stay {event : Event n M} : Moves setup s event s
  | stop : Moves setup s .stop { s with cancelled := true }
  | quit (hfeed : s.feed = .head ∨ s.feed = .choosing) (hcancelled : s.cancelled = true) :
    Moves setup s .loop { s with feed := .ending 0 }
  | want (hfeed : s.feed = .head) (hcancelled : s.cancelled = false) (hkeyed : setup.keyed = false)
      (hheld : s.held = none) : Moves setup s .loop { s with feed := .choosing }
  | begin (hfeed : s.feed = .head) (hcancelled : s.cancelled = false)
      (hheld : setup.keyed = true ∨ s.held.isSome = true) :
    Moves setup s .loop { s with feed := .reading false }
  | choose {index : Fin n} {rest : List (Fin n)} (hfeed : s.feed = .choosing)
      (hfree : s.free = index :: rest) :
    Moves setup s .loop { s with free := rest, held := some index, feed := .reading false }
  | pull {parked mayBeReady : Bool} {msg : M} (hfeed : s.feed = .reading parked) :
    Moves setup s (.read mayBeReady (.delivery msg))
      { s with
        feedIdle := false, held := none, rotation := (s.route setup msg).2
        feed := .handing (s.route setup msg).1 msg
        pulled := s.pulled ++ [(msg, (s.route setup msg).1)] }
  | fail {parked mayBeReady : Bool} (hfeed : s.feed = .reading parked) :
    Moves setup s (.read mayBeReady .error) { s with feedIdle := false, feed := .head }
  | quitRead {parked mayBeReady : Bool} {answer : Answer M} (hfeed : s.feed = .reading parked) :
    Moves setup s (.read mayBeReady answer) { s with feedIdle := false, feed := .ending 0 }
  | wait {parked mayBeReady : Bool} (hfeed : s.feed = .reading parked) (hcancelled : s.cancelled = false) :
    Moves setup s (.read mayBeReady .pending) { s with feedIdle := true, feed := .reading true }
  | hand {index : Fin n} {msg : M} (hfeed : s.feed = .handing index msg)
      (hslot : (s.workers index).mailbox.slot = none) :
    Moves setup s .loop
      { s.setWorker index { s.workers index with mailbox := ⟨some (some msg), false⟩ } with
        feed := .head }
  | mark {index : Fin n} (hfeed : s.feed = .ending index.val)
      (hslot : (s.workers index).mailbox.slot = none) :
    Moves setup s .loop
      { s.setWorker index { s.workers index with mailbox := ⟨some none, false⟩ } with
        feed := .ending (index.val + 1) }
  | close {next : ℕ} (hfeed : s.feed = .ending next) (hnext : n ≤ next) :
    Moves setup s .loop { s with feed := .done }
  | park {index : Fin n} {holding finished : Bool} (hparked : (s.workers index).mailbox.parked = false)
      (hphase : (s.workers index).phase = .waiting) (hslot : (s.workers index).mailbox.slot = none) :
    Moves setup s (.work index holding finished) (s.setWorker index ⟨⟨none, !holding⟩, .waiting⟩)
  | leave {index : Fin n} {holding finished : Bool} (hparked : (s.workers index).mailbox.parked = false)
      (hphase : (s.workers index).phase = .waiting)
      (hslot : (s.workers index).mailbox.slot = some none) :
    Moves setup s (.work index holding finished) (s.setWorker index ⟨⟨none, false⟩, .ended⟩)
  | dispatch {index : Fin n} {holding finished : Bool} {msg : M} (hparked : (s.workers index).mailbox.parked = false)
      (hphase : (s.workers index).phase = .waiting)
      (hslot : (s.workers index).mailbox.slot = some (some msg)) :
    Moves setup s (.work index holding finished)
      { s.setWorker index ⟨⟨none, false⟩, .dispatching msg⟩ with
        dispatched := s.dispatched ++ [(msg, index)] }
  | release {index : Fin n} {holding : Bool} {msg : M} (hparked : (s.workers index).mailbox.parked = false)
      (hphase : (s.workers index).phase = .dispatching msg) (hkeyed : setup.keyed = true) :
    Moves setup s (.work index holding true) (s.setWorker index ⟨(s.workers index).mailbox, .waiting⟩)
  | giveBack {index : Fin n} {holding : Bool} {msg : M} (hparked : (s.workers index).mailbox.parked = false)
      (hphase : (s.workers index).phase = .dispatching msg) (hkeyed : setup.keyed = false)
      (hroom : s.free.length < n) :
    Moves setup s (.work index holding true)
      { s.setWorker index ⟨(s.workers index).mailbox, .waiting⟩ with free := s.free ++ [index] }
  | refuse {index : Fin n} {holding : Bool} {msg : M} (hparked : (s.workers index).mailbox.parked = false)
      (hphase : (s.workers index).phase = .dispatching msg) (hkeyed : setup.keyed = false)
      (hroom : ¬ s.free.length < n) :
    Moves setup s (.work index holding true)
      { s.setWorker index ⟨(s.workers index).mailbox, .waiting⟩ with refused := true }

variable {setup : Setup M} {s t : State n M}

theorem moves_top (hfeed : s.feed = .head) : Moves setup s .loop (s.top setup) := by
  unfold State.top
  by_cases hcancelled : s.cancelled = true
  · rw [if_pos hcancelled]
    exact .quit (Or.inl hfeed) hcancelled
  · rw [if_neg hcancelled]
    have hgoing := eq_false_of_ne_true hcancelled
    by_cases hwants : (!setup.keyed && s.held.isNone) = true
    · rw [if_pos hwants]
      obtain ⟨hkeyed, hheld⟩ := (Bool.and_eq_true _ _).mp hwants
      exact .want hfeed hgoing ((Bool.not_eq_true' _).mp hkeyed) (Option.isNone_iff_eq_none.mp hheld)
    · rw [if_neg hwants]
      refine .begin hfeed hgoing ?_
      cases hkeyed : setup.keyed with
      | true => exact Or.inl rfl
      | false =>
        rw [hkeyed, Bool.not_false, Bool.true_and, Option.isNone_iff_eq_none] at hwants
        exact Or.inr (Option.isSome_iff_ne_none.mpr hwants)

theorem moves_choose (hfeed : s.feed = .choosing) : Moves setup s .loop s.choose := by
  unfold State.choose
  split
  next index rest hfree => exact .choose hfeed hfree
  next hfree =>
    by_cases hcancelled : s.cancelled = true
    · rw [if_pos hcancelled]
      exact .quit (Or.inr hfeed) hcancelled
    · rw [if_neg hcancelled]
      exact .stay

theorem moves_read {parked : Bool} (hfeed : s.feed = .reading parked) (mayBeReady : Bool)
    (answer : Answer M) : Moves setup s (.read mayBeReady answer) (s.read setup parked mayBeReady answer) := by
  unfold State.read
  by_cases hidle : idle setup.gated parked mayBeReady s.cancelled = true
  · rw [if_pos hidle]
    exact .stay
  · rw [if_neg hidle]
    cases answer with
    | delivery msg => exact .pull hfeed
    | error => exact .fail hfeed
    | ended => exact .quitRead hfeed
    | pending =>
      dsimp only
      by_cases hcancelled : s.cancelled = true
      · rw [if_pos hcancelled]
        exact .quitRead hfeed
      · rw [if_neg hcancelled]
        exact .wait hfeed (eq_false_of_ne_true hcancelled)

theorem send_of_none {mailbox : Mailbox M} (hslot : mailbox.slot = none) (item : Option M) :
    mailbox.send item = some ⟨some item, false⟩ := by
  rw [Mailbox.send, hslot]

theorem send_of_some {mailbox : Mailbox M} {old : Option M} (hslot : mailbox.slot = some old)
    (item : Option M) : mailbox.send item = none := by
  rw [Mailbox.send, hslot]

theorem moves_hand {index : Fin n} {msg : M} (hfeed : s.feed = .handing index msg) :
    Moves setup s .loop (s.hand index msg) := by
  unfold State.hand
  cases hslot : (s.workers index).mailbox.slot with
  | none =>
    rw [send_of_none hslot]
    exact .hand hfeed hslot
  | some item =>
    rw [send_of_some hslot]
    exact .stay

theorem moves_finish {next : ℕ} (hfeed : s.feed = .ending next) : Moves setup s .loop (s.finish next) := by
  unfold State.finish
  by_cases hnext : next < n
  · rw [dif_pos hnext]
    cases hslot : (s.workers ⟨next, hnext⟩).mailbox.slot with
    | none =>
      rw [send_of_none hslot]
      exact .mark hfeed hslot
    | some item =>
      rw [send_of_some hslot]
      exact .stay
  · rw [dif_neg hnext]
    exact .close hfeed (Nat.le_of_not_lt hnext)

theorem moves_work (index : Fin n) (holding finished : Bool) :
    Moves setup s (.work index holding finished) (s.work setup index holding finished) := by
  unfold State.work
  by_cases hparked : (s.workers index).mailbox.parked = true
  · rw [if_pos hparked]
    exact .stay
  · rw [if_neg hparked]
    have hawake := eq_false_of_ne_true hparked
    split
    next hphase =>
      cases hslot : (s.workers index).mailbox.slot with
      | none =>
        simp only [Mailbox.receive, hslot]
        exact .park hawake hphase hslot
      | some item =>
        cases item with
        | none =>
          simp only [Mailbox.receive, hslot]
          exact .leave hawake hphase hslot
        | some msg =>
          simp only [Mailbox.receive, hslot]
          exact .dispatch hawake hphase hslot
    next msg hphase =>
      cases finished with
      | false => exact .stay
      | true =>
        by_cases hkeyed : setup.keyed = true
        · rw [if_pos rfl, if_pos hkeyed]
          exact .release hawake hphase hkeyed
        · rw [if_pos rfl, if_neg hkeyed, State.giveBack]
          have hpool := eq_false_of_ne_true hkeyed
          by_cases hroom : s.free.length < n
          · exact (if_pos hroom).symm ▸ .giveBack hawake hphase hpool hroom
          · exact (if_neg hroom).symm ▸ .refuse hawake hphase hpool hroom
    next hphase => exact .stay

theorem moves_of_step {event : Event n M} (hstep : step setup s event = some t) :
    Moves setup s event t := by
  cases event with
  | stop =>
    cases hstep
    exact .stop
  | loop =>
    cases hfeed : s.feed with
    | head =>
      simp only [step, hfeed, Option.some.injEq] at hstep
      exact hstep ▸ moves_top hfeed
    | choosing =>
      simp only [step, hfeed, Option.some.injEq] at hstep
      exact hstep ▸ moves_choose hfeed
    | handing index msg =>
      simp only [step, hfeed, Option.some.injEq] at hstep
      exact hstep ▸ moves_hand hfeed
    | ending next =>
      simp only [step, hfeed, Option.some.injEq] at hstep
      exact hstep ▸ moves_finish hfeed
    | reading parked => simp only [step, hfeed, reduceCtorEq] at hstep
    | done => simp only [step, hfeed, reduceCtorEq] at hstep
  | read mayBeReady answer =>
    cases hfeed : s.feed with
    | reading parked =>
      simp only [step, hfeed, Option.some.injEq] at hstep
      exact hstep ▸ moves_read hfeed mayBeReady answer
    | head | choosing | handing index msg | ending next | done =>
      simp only [step, hfeed, reduceCtorEq] at hstep
  | work index holding finished =>
    cases hstep
    exact moves_work index holding finished

end Moves

end Workers

end RustStream
