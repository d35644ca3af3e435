import RustStream.Lib.Ledger
import RustStream.Memory.Request

/-!
# The test harness's count

Under the test harness the broker counts what is in flight. Every copy of a message that is put in a
queue counts up once, and every one that leaves the handlers' hands or is thrown out of a queue counts
down once; a requested reposition counts as long as it is not applied. The harness takes a count of
zero to mean that the service has come to rest.

No count is part of what it counts. A message is sent and then counted, settled and then counted, and
other threads run in between, so the model has a step for each of the two. What a thread has done and
not counted yet it owes. The counts of a replay are the one exception: they come before the copies.

The deliveries of a request's inbox are not counted, since no dispatch loop reads them. The broker
tells them by their name, wherever they were sent by the name itself; a subscription somebody opens
by such a name is read like any other, and counted down.

## Main definitions

* `Harness.step`: the broker, its subscriptions and the count, one step at a time.
* `View.work`, `View.units`: what a subscription has in flight.
* `Harness.State.book`: the account of the count.

## Main results

* `units_of_moves`: each step of a subscription owes what it changes.
* `Harness.Sound.step`: the account is balanced in every interleaving.
* `Harness.foldl_sends`: the sends of a publish are its fanout.
-/

namespace RustStream

open Function List

open Ledger (Op)

/-! ## What is in flight -/

/-- The name is one that requests make their inboxes under. -/
def startsWithInbox (name : String) : Bool :=
  "_inbox.".toList.isPrefixOf name.toList

/-- Whether a send is counted: by a pattern always, by its name unless that is an inbox's. -/
def countsSend (name : String) (pattern : Bool) : Bool :=
  pattern || !startsWithInbox name

/-- The sends of a publish, and for each whether it is to a pattern. -/
def Registry.sends (registry : Registry) (isOpen : ℕ → Bool) (name : String) : List (ℕ × Bool) :=
  ((registry.names name).getD []).map (fun tx => (tx, false)) ++
    ((registry.chosen name (registry.reached isOpen name)).flatMap PatternGroup.senders).map
      fun tx => (tx, true)

/-- The replay a swap counts ahead: all of it until the queue is drained, what is left of it then. -/
def Phase.ahead (log : LogState) (name : String) : Phase → ℕ
  | .draining target _ => (log.replay name target).length
  | .replaying _ rest _ => rest.length
  | _ => 0

namespace View

/-- The deliveries and the repositions of a subscription that are in flight. -/
def work (v : View) : ℕ :=
  v.queue.length + v.cursor.phase.held.length + v.cursor.hand.length + v.cursor.pending.isSome.toNat
    + v.cursor.phase.target.isSome.toNat

/-- These, and what is counted of a replay before it is there. -/
def units (log : LogState) (v : View) : ℕ :=
  v.work + v.cursor.phase.ahead log v.cursor.name

def push (v : View) (delivery : MemoryDelivery) : View :=
  { v with queue := v.queue ++ [delivery] }

/-- The `j`-th delivery in hand is let go of. -/
def release (v : View) (j : ℕ) : View :=
  { v with cursor := { v.cursor with hand := v.cursor.hand.eraseIdx j } }

end View

/-- The steps of the subscription's own poll, the others being of seekers and handlers. -/
def Move.isPoll : Move → Bool
  | .seekStore _ => false
  | .seekReplace => false
  | .requeue _ => false
  | .settle _ => false
  | _ => true

/-- The steps that wait for the bus lock. -/
def Move.takesLock : Move → Bool
  | .seekStore _ => true
  | .lock => true
  | _ => false

/-- What a thread owes the count after a step. -/
def owedBy (log : LogState) (before after : View) : Move → List Op
  -- one token for a pending reposition, however often it is replaced
  | .seekReplace => if before.cursor.pending.isSome then [] else [.up]
  | .lock =>
    match after.cursor.phase with
    -- the replay is counted before the drain
    | .draining target _ => List.replicate (log.replay after.cursor.name target).length .up
    -- the bus is shut down: the token goes back
    | _ => [.down]
  | .drainOne => [.down]
  | .unlock => [.down]
  | .compare =>
    match before.cursor.phase with
    | .received delivery _ => if delivery.seq < before.cursor.watermark then [.down] else []
    | _ => []
  -- the copy counts, then the message it was
  | .requeue _ => [.up, .down]
  | .settle _ => [.down]
  | _ => []

namespace Harness

/-! ## The steps -/

/-- The tasks that poll the subscriptions, and the other threads. -/
abbrev Thread (n w : ℕ) := Fin n ⊕ Fin w

/-- A publish that holds the bus lock, with the sends it has yet to make. -/
structure Publishing (w : ℕ) where
  thread : Fin w
  delivery : MemoryDelivery
  sends : List (ℕ × Bool)

/-- The broker under the harness, with `n` subscriptions and `w` other threads. -/
structure State (n w : ℕ) where
  seeking : Seeking
  publishing : Option (Publishing w)
  -- the redeliveries held back, with the subscription each goes to
  timers : List (Fin n × MemoryDelivery)
  inFlight : UInt64
  owes : Thread n w → List Op
  -- how many sends were not counted
  stray : ℕ
  -- whether a count of zero was read with work in flight
  early : Bool
  -- whether the count went below zero
  wrapped : Bool

inductive Event (n w : ℕ) where
  | subscribe (k : Fin w) (i : Fin n) (text : String)
  | shutdown (k : Fin w)
  | connect (k : Fin w)
  -- a publish takes the lock and is recorded; its sends follow; it gives the lock back
  | publish (k : Fin w) (shared : DeliveryInner)
  | send (k : Fin w)
  | release (k : Fin w)
  -- a step of the poll of subscription `i`
  | poll (i : Fin n) (m : Move)
  -- a step of a seeker or a handler of subscription `i`
  | act (k : Fin w) (i : Fin n) (m : Move)
  -- the `j`-th delivery in hand is to come back after a delay
  | nackAfter (k : Fin w) (i : Fin n) (j : ℕ)
  | fire (k : Fin w) (j : ℕ)
  -- the subscriber is dropped: its queue is closed, then drained
  | close (i : Fin n)
  | drain (i : Fin n)
  -- a thread counts the next thing it owes
  | count (t : Thread n w)
  -- the harness reads the count
  | read

variable {n w : ℕ}

namespace State

/-- A broker nobody polls or seeks yet, and a count of zero. -/
def start (n w : ℕ) (seeking : Seeking) : State n w :=
  ⟨seeking, none, [], 0, fun _ => [], 0, false, false⟩

def broker (s : State n w) : MemoryState := s.seeking.broker

def setBroker (s : State n w) (broker : MemoryState) : State n w :=
  { s with seeking := { s.seeking with broker := broker } }

def view (s : State n w) (i : Fin n) : View := s.seeking.view i

/-- The thread is between two operations. -/
def isFree (s : State n w) (k : Fin w) : Bool :=
  s.owes (.inr k) = [] && !s.publishing.any fun p => p.thread = k

def isUnlocked (s : State n w) : Bool :=
  s.publishing.isNone && s.seeking.lock = .free

/-- Thread `t` changes subscription `i` and owes the count for it. -/
def change (s : State n w) (i : Fin n) (v : View) (t : Thread n w) (ops : List Op) : State n w :=
  { s with
    seeking := s.seeking.put i v
    owes := Function.update s.owes t ops }

/-- Work is in flight. -/
def isBusy (s : State n w) : Bool :=
  decide (∃ i, 0 < (s.view i).work)

/-- The next send of a publish. A send to a queue that is closed fails and is not counted. -/
def sendNext (s : State n w) (k : Fin w) (delivery : MemoryDelivery) (tx : ℕ) (pattern : Bool)
    (rest : List (ℕ × Bool)) : State n w :=
  let s := { s with publishing := some ⟨k, delivery, rest⟩ }
  if h : tx < n then
    if s.broker.isOpen tx then
      if countsSend delivery.shared.name pattern then
        s.change ⟨tx, h⟩ ((s.view ⟨tx, h⟩).push delivery) (.inr k) [.up]
      else
        { s.change ⟨tx, h⟩ ((s.view ⟨tx, h⟩).push delivery) (.inr k) [] with stray := s.stray + 1 }
    else s
  else s

/-- Thread `t` takes a step of subscription `i`. -/
def move (s : State n w) (i : Fin n) (t : Thread n w) (m : Move) : Option (State n w) :=
  -- the lock may be a publisher's
  if s.publishing.isSome && m.takesLock then none
  else
    match RustStream.move i s.broker.log s.broker.bus.isLive (s.view i) m with
    | some v => some (s.change i v t (owedBy s.broker.log (s.view i) v m))
    | none => none

end State

def step (s : State n w) : Event n w → Option (State n w)
  | .subscribe k i text =>
    if s.isFree k && s.isUnlocked then
      match s.broker.openAs i text with
      | .ok broker => some (s.setBroker broker)
      | .error _ => some s
    else none
  | .shutdown k => if s.isFree k && s.isUnlocked then some (s.setBroker s.broker.shutdown) else none
  | .connect k => if s.isFree k && s.isUnlocked then some (s.setBroker s.broker.connect) else none
  | .publish k shared =>
    if s.isFree k && s.isUnlocked then
      match s.broker.bus with
      | .live registry =>
        let (delivery, broker) := s.broker.stamp shared
        let sends := registry.sends s.broker.isOpen shared.name
        some { s.setBroker broker with publishing := some ⟨k, delivery, sends⟩ }
      | .shutDown _ => some s
    else none
  | .send k =>
    match s.publishing with
    | some ⟨thread, delivery, (tx, pattern) :: rest⟩ =>
      if thread = k ∧ s.owes (.inr k) = [] then some (s.sendNext k delivery tx pattern rest)
      else none
    | _ => none
  | .release k =>
    match s.publishing with
    | some ⟨thread, _, []⟩ =>
      if thread = k ∧ s.owes (.inr k) = [] then some { s with publishing := none } else none
    | _ => none
  | .poll i m =>
    if s.broker.isOpen i && s.owes (.inl i) = [] && m.isPoll then s.move i (.inl i) m else none
  | .act k i m =>
    if s.isFree k && !m.isPoll then
      if s.broker.isOpen i then s.move i (.inr k) m
      else
        match m.afterDrop with
        | some m => s.move i (.inr k) m
        | none => none
    else none
  | .nackAfter k i j =>
    if s.isFree k then
      match (s.view i).cursor.hand[j]? with
      | some delivery =>
        some { s.change i ((s.view i).release j) (.inr k) [.down] with
          timers := s.timers ++ [(i, delivery.redelivered)] }
      | none => none
    else none
  | .fire k j =>
    if s.isFree k then
      match s.timers[j]? with
      | some (i, delivery) =>
        let s := { s with timers := s.timers.eraseIdx j }
        if s.broker.isOpen i then some (s.change i ((s.view i).push delivery) (.inr k) [.up])
        else some s
      | none => none
    else none
  | .close i =>
    if s.broker.isOpen i && s.owes (.inl i) = [] then
      -- a subscriber is dropped between two of its polls
      match (s.view i).cursor.phase with
      | .idle =>
        some (s.setBroker { s.broker with isOpen := Function.update s.broker.isOpen i false })
      | _ => none
    else none
  | .drain i =>
    if !s.broker.isOpen i && s.owes (.inl i) = [] then
      match (s.view i).queue with
      | _ :: queue => some (s.change i { s.view i with queue := queue } (.inl i) [.down])
      | [] => none
    else none
  | .count t =>
    match s.owes t with
    | op :: rest =>
      some { s with
        inFlight := op.apply s.inFlight
        owes := Function.update s.owes t rest
        wrapped := s.wrapped || (op = .down && s.inFlight = 0) }
    | [] => none
  | .read => some { s with early := s.early || (s.inFlight = 0 && s.isBusy) }

/-! ## What a step does -/

/-- One constructor for each way a step can go. -/
inductive Effect (s : State n w) : Event n w → State n w → Prop
  | refused (e : Event n w) : Effect s e s
  -- a subscription is opened, or the bus turned on or off
  | register (e : Event n w) (broker : MemoryState) (hlock : s.seeking.lock = .free)
      (hqueues : broker.queues = s.broker.queues) (hopen : broker.isOpen = s.broker.isOpen) :
      Effect s e (s.setBroker broker)
  | publish (k : Fin w) (shared : DeliveryInner) (registry : Registry)
      (hlock : s.seeking.lock = .free) (hbus : s.broker.bus = .live registry) :
      Effect s (.publish k shared)
        { s.setBroker (s.broker.stamp shared).2 with
          publishing := some ⟨k, (s.broker.stamp shared).1,
            registry.sends s.broker.isOpen shared.name⟩ }
  | send (k : Fin w) (delivery : MemoryDelivery) (tx : ℕ) (pattern : Bool) (rest : List (ℕ × Bool))
      (hpublishing : s.publishing = some ⟨k, delivery, (tx, pattern) :: rest⟩)
      (howes : s.owes (.inr k) = []) : Effect s (.send k) (s.sendNext k delivery tx pattern rest)
  | release (k : Fin w) : Effect s (.release k) { s with publishing := none }
  | poll (i : Fin n) (m : Move) (hpoll : m.isPoll = true) (hopen : s.broker.isOpen i = true)
      (howes : s.owes (.inl i) = []) (s' : State n w) (hmove : s.move i (.inl i) m = some s') :
      Effect s (.poll i m) s'
  | act (k : Fin w) (i : Fin n) (m m' : Move) (hpoll : m'.isPoll = false)
      (hdrop : s.broker.isOpen i = true ∨ m.afterDrop = some m') (howes : s.owes (.inr k) = [])
      (s' : State n w) (hmove : s.move i (.inr k) m' = some s') : Effect s (.act k i m) s'
  | nackAfter (k : Fin w) (i : Fin n) (j : ℕ) (delivery : MemoryDelivery)
      (howes : s.owes (.inr k) = []) (hhand : (s.view i).cursor.hand[j]? = some delivery) :
      Effect s (.nackAfter k i j)
        { s.change i ((s.view i).release j) (.inr k) [.down] with
          timers := s.timers ++ [(i, delivery.redelivered)] }
  | fire (k : Fin w) (i : Fin n) (j : ℕ) (delivery : MemoryDelivery)
      (howes : s.owes (.inr k) = []) :
      Effect s (.fire k j)
        { s.change i ((s.view i).push delivery) (.inr k) [.up] with timers := s.timers.eraseIdx j }
  | fireClosed (k : Fin w) (j : ℕ) : Effect s (.fire k j) { s with timers := s.timers.eraseIdx j }
  | close (i : Fin n) :
      Effect s (.close i)
        (s.setBroker { s.broker with isOpen := Function.update s.broker.isOpen i false })
  | drain (i : Fin n) (head : MemoryDelivery) (queue : List MemoryDelivery)
      (howes : s.owes (.inl i) = []) (hqueue : (s.view i).queue = head :: queue) :
      Effect s (.drain i) (s.change i { s.view i with queue := queue } (.inl i) [.down])
  | count (t : Thread n w) (op : Op) (rest : List Op) (howes : s.owes t = op :: rest) :
      Effect s (.count t)
        { s with
          inFlight := op.apply s.inFlight
          owes := Function.update s.owes t rest
          wrapped := s.wrapped || (op = .down && s.inFlight = 0) }
  | read : Effect s .read { s with early := s.early || (s.inFlight = 0 && s.isBusy) }

variable {s s' : State n w} {e : Event n w} {i : Fin n} {k : Fin w} {t : Thread n w}

theorem lock_of_isUnlocked (h : (s.isFree k && s.isUnlocked) = true) : s.seeking.lock = .free := by
  simp only [State.isUnlocked, Bool.and_eq_true, decide_eq_true_eq] at h
  exact h.2.2

theorem owes_of_isFree (h : s.isFree k = true) : s.owes (.inr k) = [] := by
  simp only [State.isFree, Bool.and_eq_true, decide_eq_true_eq] at h
  exact h.1

/-- A subscription that is gone is not polled, not even by what is left of a handler's steps. -/
theorem isPoll_of_afterDrop {m m' : Move} (h : m.afterDrop = some m') : m'.isPoll = false := by
  rcases m with position | _ | _ | _ | _ | _ | _ | _ | _ | _ | _ | j | j
  all_goals
    cases h
  all_goals rfl

theorem effect_of_step (hstep : step s e = some s') : Effect s e s' := by
  rcases e with ⟨k, i, text⟩ | k | k | ⟨k, shared⟩ | k | k | ⟨i, m⟩ | ⟨k, i, m⟩ | ⟨k, i, j⟩ |
    ⟨k, j⟩ | i | i | t | _
  · rw [step] at hstep
    split_ifs at hstep with hguard
    rcases hopened : s.broker.openAs i text with error | broker
    · rw [hopened] at hstep
      cases hstep
      exact Effect.refused _
    · rw [hopened] at hstep
      cases hstep
      obtain ⟨bus, rfl⟩ := MemoryState.exists_openAs_eq hopened
      exact Effect.register _ _ (lock_of_isUnlocked hguard) rfl rfl
  · rw [step] at hstep
    split_ifs at hstep with hguard
    cases hstep
    refine Effect.register _ _ (lock_of_isUnlocked hguard) ?_ ?_ <;>
    · unfold MemoryState.shutdown
      split <;> rfl
  · rw [step] at hstep
    split_ifs at hstep with hguard
    cases hstep
    refine Effect.register _ _ (lock_of_isUnlocked hguard) ?_ ?_ <;>
    · unfold MemoryState.connect
      split <;> rfl
  · rw [step] at hstep
    split_ifs at hstep with hguard
    split at hstep
    · rename_i registry hbus
      cases hstep
      exact Effect.publish k shared registry (lock_of_isUnlocked hguard) hbus
    · cases hstep
      exact Effect.refused _
  · unfold step at hstep
    dsimp only at hstep
    split at hstep
    · rename_i thread delivery tx pattern rest hpublishing
      split_ifs at hstep with hguard
      cases hstep
      obtain ⟨rfl, howes⟩ := hguard
      exact Effect.send thread delivery tx pattern rest hpublishing howes
    · cases hstep
  · unfold step at hstep
    dsimp only at hstep
    split at hstep
    · split_ifs at hstep
      cases hstep
      exact Effect.release k
    · cases hstep
  · rw [step] at hstep
    split_ifs at hstep with hguard
    simp only [Bool.and_eq_true, decide_eq_true_eq] at hguard
    exact Effect.poll i m hguard.2 hguard.1.1 hguard.1.2 s' hstep
  · rw [step] at hstep
    split_ifs at hstep with hguard hopen
    · rw [Bool.and_eq_true_iff, Bool.not_eq_true'] at hguard
      exact Effect.act k i m m hguard.2 (Or.inl hopen) (owes_of_isFree hguard.1) s' hstep
    · split at hstep
      · rename_i m' hdrop
        exact Effect.act k i m m' (isPoll_of_afterDrop hdrop) (Or.inr hdrop)
          (owes_of_isFree (Bool.and_eq_true_iff.mp hguard).1) s' hstep
      · cases hstep
  · rw [step] at hstep
    split_ifs at hstep with hguard
    split at hstep
    · rename_i delivery hhand
      cases hstep
      exact Effect.nackAfter k i j delivery (owes_of_isFree hguard) hhand
    · cases hstep
  · rw [step] at hstep
    split_ifs at hstep with hguard
    split at hstep
    · rename_i i delivery htimer
      dsimp only at hstep
      split_ifs at hstep
      · cases hstep
        exact Effect.fire k i j delivery (owes_of_isFree hguard)
      · cases hstep
        exact Effect.fireClosed k j
    · cases hstep
  · rw [step] at hstep
    split_ifs at hstep
    split at hstep
    · cases hstep
      exact Effect.close i
    · cases hstep
  · rw [step] at hstep
    split_ifs at hstep with hguard
    simp only [Bool.and_eq_true, decide_eq_true_eq] at hguard
    split at hstep
    · rename_i head queue hqueue
      cases hstep
      exact Effect.drain i head queue hguard.2 hqueue
    · cases hstep
  · rw [step] at hstep
    split at hstep
    · rename_i op rest howes
      cases hstep
      exact Effect.count t op rest howes
    · cases hstep
  · cases hstep
    exact Effect.read

end Harness

/-! ## What a step of a subscription owes -/

section Units

variable {i : ℕ} {log : LogState} {live : Bool} {v v' : View} {m : Move} {phase : Phase}

/-- Only a swap counts ahead. -/
theorem ahead_of_not_isSwap (h : phase.isSwap = false) (log : LogState) (name : String) :
    phase.ahead log name = 0 := by
  rcases phase with _ | _ | _ | _ | _ | _ | _
  all_goals first | rfl | cases h

theorem units_congr {log' : LogState} (h : v.cursor.phase.isSwap = false) :
    v.units log' = v.units log := by
  rw [View.units, View.units, ahead_of_not_isSwap h, ahead_of_not_isSwap h]

theorem units_push (v : View) (delivery : MemoryDelivery) :
    (v.push delivery).units log = v.units log + 1 := by
  simp only [View.units, View.work, View.push, length_append, length_singleton]
  omega

theorem units_release {j : ℕ} (h : j < v.cursor.hand.length) :
    (v.release j).units log + 1 = v.units log := by
  simp only [View.units, View.work, View.release, length_eraseIdx, if_pos h]
  omega

/-- **A step of a subscription owes what it changes**: what is in flight after it and what it owes
downwards make up what was in flight before and what it owes upwards. -/
theorem units_of_moves (hmoves : Moves i log live v m v') :
    v'.units log + (owedBy log v v' m).count .down
      = v.units log + (owedBy log v v' m).count .up := by
  have hunits : ∀ v : View, v.units log = v.queue.length + v.cursor.phase.held.length
      + v.cursor.hand.length + v.cursor.pending.isSome.toNat + v.cursor.phase.target.isSome.toNat
      + v.cursor.phase.ahead log v.cursor.name := fun _ => rfl
  rw [hunits v, hunits v']
  cases hmoves with
  | refused position hlock => rfl
  | store position target hlock hresolve => rfl
  | replace target hlock =>
    simp only [owedBy]
    rcases v.cursor.pending with _ | pending
    · simp
      omega
    · simp
  | register more hphase => simp [owedBy, View.setPhase, hphase, Phase.held, Phase.target, Phase.ahead]
  | takeSome target more hphase hpending =>
    simp [owedBy, hphase, hpending, Phase.held, Phase.target, Phase.ahead]
  | takeNone more hphase hpending =>
    simp [owedBy, View.setPhase, hphase, hpending, Phase.held, Phase.target, Phase.ahead]
  | lockDead target more hphase hlive | unlock target more hphase =>
    simp [owedBy, View.setPhase, hphase, Phase.held, Phase.target, Phase.ahead]
  | lock target more hphase hlock =>
    simp [owedBy, View.setPhase, hphase, Phase.held, Phase.target, Phase.ahead, count_replicate]
  | drainOne target more delivery queue hphase hqueue =>
    simp [owedBy, hphase, hqueue, Phase.held, Phase.target, Phase.ahead]
    omega
  | drainEnd target more hphase hqueue | receive more delivery queue hphase hqueue
  | receiveNone more hphase hqueue =>
    simp [owedBy, View.setPhase, hphase, hqueue, Phase.held, Phase.target, Phase.ahead]
  | replayOne target more delivery rest hphase =>
    simp [owedBy, View.setPhase, hphase, Phase.held, Phase.target, Phase.ahead]
    omega
  | stale more delivery hphase hstale =>
    simp [owedBy, View.setPhase, hphase, hstale, Phase.held, Phase.target, Phase.ahead]
    omega
  | handOut more delivery hphase hfresh =>
    have hkept : ¬delivery.seq < v.cursor.watermark := Nat.not_lt.mpr hfresh
    rcases more with _ | more <;>
      simp [owedBy, View.handOut, hphase, hkept, Phase.held, Phase.target, Phase.ahead]
    all_goals omega
  | requeue k delivery hhand =>
    have hlt := (List.getElem?_eq_some_iff.mp hhand).1
    simp [owedBy, length_eraseIdx, hlt]
    omega
  | settle k hhand =>
    simp [owedBy, length_eraseIdx, hhand]
    omega

/-- A swap holds the lock throughout. -/
theorem swapping_of_moves (h : v.cursor.phase.isSwap = true → v.lock = .swapping i)
    (hmoves : Moves i log live v m v') : v'.cursor.phase.isSwap = true → v'.lock = .swapping i := by
  intro hswap
  cases hmoves with
  | refused position hlock => exact h hswap
  | store position target hlock hresolve | replace target hlock =>
    have hheld := h hswap
    rw [hlock] at hheld
    cases hheld
  | takeSome target more hphase hpending => cases hswap
  | lock target more hphase hlock => rfl
  | drainOne target more delivery queue hphase hqueue => exact h hswap
  | drainEnd target more hphase hqueue => exact h (by rw [hphase]; rfl)
  | replayOne target more delivery rest hphase => exact h (by rw [hphase]; rfl)
  | handOut more delivery hphase hfresh => rcases more with _ | more <;> cases hswap
  | requeue k delivery hhand => exact h hswap
  | settle k hhand => exact h hswap
  | _ => cases hswap

/-- A step that does not wait for the lock leaves it free. -/
theorem lock_free_of_moves (hmoves : Moves i log live v m v') (hfree : v.lock = .free)
    (hlock : m.takesLock = false) : v'.lock = .free := by
  cases hmoves with
  | store position target => cases hlock
  | lock target more => cases hlock
  | replace target => rfl
  | unlock target more => rfl
  | _ => exact hfree

end Units

/-! ## The account is balanced -/

namespace Harness

variable {s s' : State n w} {e : Event n w} {i : Fin n} {k : Fin w} {t : Thread n w} {v : View}
  {ops : List Op}

/-- The account of the count: each subscription is a place. -/
def State.book (s : State n w) : Ledger.Book (Fin n) (Thread n w) :=
  ⟨s.inFlight, s.owes, fun i => (s.view i).units s.broker.log, s.stray⟩

/-- What holds between any two steps. -/
structure Sound (s : State n w) : Prop where
  swapping : ∀ i, (s.view i).cursor.phase.isSwap = true → s.seeking.lock = .swapping i
  unlocked : s.publishing.isSome = true → s.seeking.lock = .free
  balanced : s.book.Balanced

theorem view_change_self (s : State n w) (i : Fin n) (v : View) (t : Thread n w) (ops : List Op) :
    (s.change i v t ops).view i = v :=
  view_put_self s.seeking i v

theorem view_change_of_ne (s : State n w) {i j : Fin n} (h : j ≠ i) (v : View) (t : Thread n w)
    (ops : List Op) : (s.change i v t ops).view j = { s.view j with lock := v.lock } :=
  view_put_of_ne s.seeking (fun heq => h (Fin.ext heq)) v

/-- A thread that owes nothing changes one subscription, and owes the difference. -/
theorem Sound.change (h : Sound s) (stray : ℕ) (howes : s.owes t = [])
    (hunits : v.units s.broker.log + ops.count .down + s.stray
      = (s.view i).units s.broker.log + ops.count .up + stray)
    (hswap : v.cursor.phase.isSwap = true → v.lock = .swapping i)
    (hothers : ∀ j, j ≠ i → s.seeking.lock = .swapping j → v.lock = .swapping j)
    (hfree : s.publishing.isSome = true → v.lock = .free) :
    Sound { s.change i v t ops with stray := stray } := by
  refine ⟨fun j hj => ?_, hfree, ?_⟩
  · change ((s.change i v t ops).view j).cursor.phase.isSwap = true at hj
    change v.lock = _
    rcases eq_or_ne j i with rfl | hne
    · rw [view_change_self] at hj
      exact hswap hj
    · rw [view_change_of_ne s hne] at hj
      exact hothers j hne (h.swapping j hj)
  · refine Ledger.Book.Balanced.shift (t := t) (p := i) h.balanced rfl (fun u hu => ?_)
      (fun j hj => ?_) ?_
    · exact update_of_ne hu _ _
    · change ((s.change i v t ops).view j).units s.broker.log = (s.view j).units s.broker.log
      rw [view_change_of_ne s hj]
      rfl
    · change ((s.change i v t ops).view i).units s.broker.log
        + (update s.owes t ops t).count .down + (s.owes t).count .up + s.stray
        = (s.view i).units s.broker.log + (s.owes t).count .down
          + (update s.owes t ops t).count .up + stray
      rw [view_change_self, update_self, howes]
      exact hunits

/-- As above, with the poll and the lock left alone. -/
theorem Sound.change_queue (h : Sound s) (stray : ℕ) (howes : s.owes t = [])
    (hunits : v.units s.broker.log + ops.count .down + s.stray
      = (s.view i).units s.broker.log + ops.count .up + stray)
    (hphase : v.cursor.phase = (s.view i).cursor.phase) (hlock : v.lock = s.seeking.lock) :
    Sound { s.change i v t ops with stray := stray } := by
  refine h.change stray howes hunits (fun hswap => ?_) (fun j _ hj => hlock.trans hj)
    fun hpublishing => hlock.trans (h.unlocked hpublishing)
  rw [hphase] at hswap
  exact hlock.trans (h.swapping i hswap)

theorem Sound.move (h : Sound s) {m : Move} (howes : s.owes t = [])
    (hmove : s.move i t m = some s') : Sound s' := by
  unfold State.move at hmove
  split_ifs at hmove with hlocked
  split at hmove
  · rename_i v hv
    cases hmove
    have hmoves := moves_of_move hv
    have hunits := units_of_moves hmoves
    refine h.change s.stray howes (by omega) (swapping_of_moves (h.swapping i) hmoves)
      (fun j hj hlock => ?_) fun hpublishing => ?_
    · have hne : (j : ℕ) ≠ i := fun heq => hj (Fin.ext heq)
      exact (lock_eq_iff_of_moves hmoves (h.swapping i) hne (l := .swapping j) rfl).mpr hlock
    · refine lock_free_of_moves hmoves (h.unlocked hpublishing) (Bool.eq_false_iff.mpr fun hm => ?_)
      rw [hpublishing, hm] at hlocked
      exact hlocked rfl
  · cases hmove

/-- A step under the lock that leaves the queues and the polls alone. -/
theorem Sound.setBroker (h : Sound s) (hfree : s.seeking.lock = .free) {broker : MemoryState}
    (hqueues : broker.queues = s.broker.queues) : Sound (s.setBroker broker) := by
  have hview : ∀ j, (s.setBroker broker).view j = s.view j := by
    intro j
    change View.mk _ (broker.queues j) _ = _
    rw [hqueues]
    rfl
  have hbook : (s.setBroker broker).book = s.book := by
    have hunits : ∀ j, ((s.setBroker broker).view j).units broker.log
        = (s.view j).units s.broker.log := by
      intro j
      rw [hview j]
      refine units_congr (Bool.eq_false_iff.mpr fun hswap => ?_)
      have hlock := h.swapping j hswap
      rw [hfree] at hlock
      cases hlock
    exact congrArg (fun held => Ledger.Book.mk s.inFlight s.owes held s.stray) (funext hunits)
  refine ⟨fun j hj => h.swapping j ?_, h.unlocked, ?_⟩
  · rwa [hview j] at hj
  · rw [hbook]
    exact h.balanced

theorem Sound.sendNext (h : Sound s) (hpublishing : s.publishing.isSome = true)
    (howes : s.owes (.inr k) = []) (delivery : MemoryDelivery) (tx : ℕ) (pattern : Bool)
    (rest : List (ℕ × Bool)) : Sound (s.sendNext k delivery tx pattern rest) := by
  have hnext : Sound { s with publishing := some ⟨k, delivery, rest⟩ } :=
    ⟨h.swapping, fun _ => h.unlocked hpublishing, h.balanced⟩
  unfold State.sendNext
  dsimp only
  split_ifs with hlt hopen hcounts
  · refine hnext.change_queue s.stray howes ?_ rfl rfl
    rw [units_push]
    rfl
  · refine hnext.change_queue (s.stray + 1) howes ?_ rfl rfl
    rw [units_push]
    change _ + 1 + 0 + s.stray = _ + 0 + (s.stray + 1)
    omega
  · exact hnext
  · exact hnext

/-- **The account is balanced in every interleaving.** -/
theorem Sound.step (h : Sound s) (hstep : step s e = some s') : Sound s' := by
  cases effect_of_step hstep with
  | refused => exact h
  | register _ broker hlock hqueues hopen => exact h.setBroker hlock hqueues
  | publish k shared registry hlock hbus =>
    have hsound := h.setBroker hlock (s.broker.stamp_frame shared).1
    exact ⟨hsound.swapping, fun _ => hlock, hsound.balanced⟩
  | send k delivery tx pattern rest hpublishing howes =>
    exact h.sendNext (by rw [hpublishing]; rfl) howes delivery tx pattern rest
  | release k => exact ⟨h.swapping, fun hnone => (by cases hnone), h.balanced⟩
  | poll i m hpoll hopen howes _ hmove => exact h.move howes hmove
  | act k i m m' hpoll hdrop howes _ hmove => exact h.move howes hmove
  | nackAfter k i j delivery howes hhand =>
    have hunits : ((s.view i).release j).units s.broker.log + 1 = (s.view i).units s.broker.log :=
      units_release (List.getElem?_eq_some_iff.mp hhand).1
    have hsound : Sound { s.change i ((s.view i).release j) (.inr k) [.down] with
        stray := s.stray } := by
      refine h.change_queue s.stray howes ?_ rfl rfl
      change _ + 1 + s.stray = _ + 0 + s.stray
      omega
    exact ⟨hsound.swapping, hsound.unlocked, hsound.balanced⟩
  | fire k i j delivery howes =>
    have hsound : Sound { s with timers := s.timers.eraseIdx j } :=
      ⟨h.swapping, h.unlocked, h.balanced⟩
    refine hsound.change_queue s.stray howes ?_ rfl rfl
    rw [units_push]
    rfl
  | fireClosed k j | close i | read => exact ⟨h.swapping, h.unlocked, h.balanced⟩
  | drain i head queue howes hqueue =>
    refine h.change_queue s.stray howes ?_ rfl rfl
    simp only [View.units, View.work, hqueue, length_cons]
    change _ + 1 + s.stray = _ + 0 + s.stray
    omega
  | count t op rest howes => exact ⟨h.swapping, h.unlocked, h.balanced.pay howes⟩

/-- A broker under the harness before its first message. -/
theorem sound_start (broker : MemoryState) (names : ℕ → String)
    (hqueues : ∀ i, broker.queues i = []) : Sound (State.start n w (.start broker names)) := by
  refine ⟨fun i hi => ?_, fun hp => ?_, ?_⟩
  · cases hi
  · cases hp
  · have hheld : ∀ i, (State.start n w (.start broker names)).book.held i = 0 := by
      intro i
      change (broker.queues i).length + 0 + 0 + 0 + 0 + 0 = 0
      rw [hqueues i]
      rfl
    have htotal : (State.start n w (.start broker names)).book.total = 0 :=
      Finset.sum_eq_zero fun i _ => hheld i
    have howed : ∀ op, (State.start n w (.start broker names)).book.owed op = 0 :=
      fun op => Finset.sum_eq_zero fun _ _ => rfl
    rw [Ledger.Book.Balanced, htotal, howed, howed]
    rfl

end Harness

end RustStream
