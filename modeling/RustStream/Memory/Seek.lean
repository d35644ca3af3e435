import RustStream.Lib.Run
import RustStream.Memory.Routes

/-!
# Seeking on a retaining broker

A seek is a handoff. The seeker resolves the position against the log, stores it as the watermark
below which deliveries are stale, and then as the pending target, all under the bus lock. The
subscription applies the target inside its own poll: it takes it, takes the lock, drains its queue,
and enqueues the retained messages from the target on. Publishes stamp and send under the same lock.
Requeues do not: they go straight to the queue, in the middle of a swap if need be.

The model follows the polls and the seeks through their single steps, so that the steps of any number
of seekers, handlers and polls interleave as they may. A subscription's own steps read and write its
`View`: its cursor, its queue, and the lock.

## Main definitions

* `MemoryPosition.resolve`: positions.
* `Cursor`, `Phase`: a subscription, and where its poll stands.
* `move`, `step`: the steps of one subscription, and of the broker.

## Main results

* `moves_of_move`: what a step can do, one case for each way it can go.
* `view_put_self`, `view_put_of_ne`: a subscription's steps touch no other.
* `lock_eq_iff_of_moves`: and no lock another holds.
-/

namespace RustStream

/-! ## Positions -/

/-- A position in the log of a name: its start, its end, or a sequence number. -/
inductive MemoryPosition where
  | start
  | tip
  | sequence (n : ℕ)
  deriving DecidableEq, Repr

/-- The log position named in a log that holds `oldest` up to `tip`. Past the tip the subscription
waits at the tip. -/
def MemoryPosition.resolve (oldest tip : ℕ) : MemoryPosition → Except MemoryError ℕ
  | .start => .ok oldest
  | .tip => .ok tip
  | .sequence n =>
    if oldest ≤ n then .ok (min n tip) else .error (.positionEvicted n oldest)

namespace LogState

/-- The oldest retained position of a name and the one its next publish takes. -/
def bounds (log : LogState) (name : String) : ℕ × ℕ :=
  match log.name name with
  | some log => (log.firstSeq, log.nextSeq)
  | none => (0, 0)

/-- What a swap to `target` enqueues: the retained messages from there on, each a fresh delivery. -/
def replay (log : LogState) (name : String) (target : ℕ) : List MemoryDelivery :=
  match log.name name with
  | some log => (log.replayFrom target).map fun p => ⟨p.2, p.1, .min⟩
  | none => []

end LogState

/-! ## One subscription -/

/-- Where a subscription's poll stands; `more` is how many deliveries it may hand out after the next
one. -/
inductive Phase where
  | idle
  -- the waker is registered, the pending target not yet looked at
  | registered (more : ℕ)
  -- a target is taken, the lock not yet
  | taken (target more : ℕ)
  -- the swap, under the lock: draining the queue, then enqueueing what is left of the replay
  | draining (target more : ℕ)
  | replaying (target : ℕ) (rest : List MemoryDelivery) (more : ℕ)
  | receiving (more : ℕ)
  -- a delivery is off the queue, not yet compared with the watermark
  | received (delivery : MemoryDelivery) (more : ℕ)

/-- The target a poll has taken and not yet applied. -/
def Phase.target : Phase → Option ℕ
  | .taken target _ => some target
  | .draining target _ => some target
  | .replaying target _ _ => some target
  | _ => none

/-- The poll is in its swap, from the lock to the end of the replay. -/
def Phase.isSwap : Phase → Bool
  | .draining _ _ => true
  | .replaying _ _ _ => true
  | _ => false

/-- The delivery a poll holds and has not yet compared. -/
def Phase.held : Phase → List MemoryDelivery
  | .received delivery _ => [delivery]
  | _ => []

/-- A subscription beside its queue. -/
structure Cursor where
  name : String
  -- deliveries below this log position are stale
  watermark : ℕ
  pending : Option ℕ
  phase : Phase
  -- what the stream has handed out, and what of it no handler has settled
  yielded : List MemoryDelivery
  hand : List MemoryDelivery

/-- Who holds the bus lock. -/
inductive Lock where
  | free
  -- a seeker that has stored the watermark and not yet the pending target
  | seeking (i target : ℕ)
  -- a poll in its swap
  | swapping (i : ℕ)
  deriving DecidableEq, Repr

/-- What the steps of one subscription read and write. -/
structure View where
  cursor : Cursor
  queue : List MemoryDelivery
  lock : Lock

namespace View

def setPhase (v : View) (phase : Phase) : View :=
  { v with cursor := { v.cursor with phase := phase } }

/-- Hands a delivery out, and ends the poll unless it may hand out more. -/
def handOut (v : View) (delivery : MemoryDelivery) (more : ℕ) : View :=
  { v with cursor := { v.cursor with
    yielded := v.cursor.yielded ++ [delivery]
    hand := v.cursor.hand ++ [delivery]
    phase := match more with
      | 0 => .idle
      | more + 1 => .receiving more } }

end View

/-- A step of a seeker, a poll or a handler of one subscription. -/
inductive Move where
  -- the seeker, under the bus lock
  | seekStore (position : MemoryPosition)
  | seekReplace
  -- the poll
  | register (more : ℕ)
  | take
  | lock
  | drainOne
  | drainEnd
  | replayOne
  | unlock
  | receive
  | compare
  -- the handler of the `k`-th delivery in hand
  | requeue (k : ℕ)
  | settle (k : ℕ)
  deriving DecidableEq, Repr

/-- One step of subscription `i`, given the log and whether the bus is live. -/
def move (i : ℕ) (log : LogState) (live : Bool) (v : View) : Move → Option View
  | .seekStore position =>
    if v.lock ≠ .free then none
    -- refused on a shut-down bus, and below for an evicted position
    else if live = false then some v
    else
      -- the watermark first, so that a poll that takes the target sees it
      match position.resolve (log.bounds v.cursor.name).1 (log.bounds v.cursor.name).2 with
      | .ok target =>
        some { v with
          cursor := { v.cursor with watermark := target }, lock := .seeking i target }
      | .error _ => some v
  | .seekReplace =>
    match v.lock with
    | .seeking j target =>
      if j = i then
        some { v with cursor := { v.cursor with pending := some target }, lock := .free }
      else none
    | _ => none
  | .register more =>
    match v.cursor.phase with
    | .idle => some (v.setPhase (.registered more))
    | _ => none
  | .take =>
    match v.cursor.phase, v.cursor.pending with
    | .registered more, some target =>
      some { v with cursor := { v.cursor with pending := none, phase := .taken target more } }
    | .registered more, none => some (v.setPhase (.receiving more))
    | _, _ => none
  | .lock =>
    match v.cursor.phase with
    | .taken target more =>
      if v.lock ≠ .free then none
      -- a seek that raced shutdown: the target is dropped and nothing replayed
      else if live = false then some (v.setPhase (.receiving more))
      else some { v.setPhase (.draining target more) with lock := .swapping i }
    | _ => none
  | .drainOne =>
    match v.cursor.phase, v.queue with
    | .draining _ _, _ :: queue => some { v with queue := queue }
    | _, _ => none
  | .drainEnd =>
    match v.cursor.phase, v.queue with
    | .draining target more, [] =>
      some (v.setPhase (.replaying target (log.replay v.cursor.name target) more))
    | _, _ => none
  | .replayOne =>
    match v.cursor.phase with
    | .replaying target (delivery :: rest) more =>
      some { v.setPhase (.replaying target rest more) with queue := v.queue ++ [delivery] }
    | _ => none
  | .unlock =>
    match v.cursor.phase with
    | .replaying _ [] more => some { v.setPhase (.receiving more) with lock := .free }
    | _ => none
  | .receive =>
    match v.cursor.phase, v.queue with
    | .receiving more, delivery :: queue =>
      some { v.setPhase (.received delivery more) with queue := queue }
    -- pending: the poll returns, with a batch if it has one
    | .receiving _, [] => some (v.setPhase .idle)
    | _, _ => none
  | .compare =>
    match v.cursor.phase with
    | .received delivery more =>
      -- a stale copy is dropped and the loop goes round
      if delivery.seq < v.cursor.watermark then some (v.setPhase (.receiving more))
      else some (v.handOut delivery more)
    | _ => none
  | .requeue k =>
    match v.cursor.hand[k]? with
    | some delivery =>
      some { v with
        cursor := { v.cursor with hand := v.cursor.hand.eraseIdx k }
        queue := v.queue ++ [delivery.redelivered] }
    | none => none
  | .settle k =>
    if k < v.cursor.hand.length then
      some { v with cursor := { v.cursor with hand := v.cursor.hand.eraseIdx k } }
    else none

/-! ## The broker -/

/-- The broker with the seek state of its subscriptions. -/
structure Seeking where
  broker : MemoryState
  lock : Lock
  cursors : ℕ → Cursor

namespace Seeking

/-- What the steps of subscription `i` see. -/
def view (s : Seeking) (i : ℕ) : View :=
  ⟨s.cursors i, s.broker.queues i, s.lock⟩

/-- The broker after a step of subscription `i`. -/
def put (s : Seeking) (i : ℕ) (v : View) : Seeking where
  broker := { s.broker with queues := Function.update s.broker.queues i v.queue }
  lock := v.lock
  cursors := Function.update s.cursors i v.cursor

/-- A broker nobody polls or seeks yet. -/
def start (broker : MemoryState) (names : ℕ → String) : Seeking where
  broker := broker
  lock := .free
  cursors := fun i => ⟨names i, 0, none, .idle, [], []⟩

end Seeking

def Bus.isLive : Bus → Bool
  | .live _ => true
  | .shutDown _ => false

/-- A publish, which holds the bus lock from the stamp to the last send, or a step of one
subscription. -/
inductive Event where
  | publish (shared : DeliveryInner)
  | sub (i : ℕ) (m : Move)

def step (s : Seeking) : Event → Option Seeking
  | .publish shared =>
    if s.lock ≠ .free then none
    else
      match s.broker.fanoutUnsent shared.name shared.payload shared.headers with
      | .ok broker => some { s with broker := broker }
      | .error _ => some s
  | .sub i m => (move i s.broker.log s.broker.bus.isLive (s.view i) m).map (s.put i)

/-! ## What a step does -/

/-- The steps of subscription `i`, one constructor for each way a step can go. -/
inductive Moves (i : ℕ) (log : LogState) (live : Bool) (v : View) : Move → View → Prop
  | refused (position : MemoryPosition) (hlock : v.lock = .free) :
      Moves i log live v (.seekStore position) v
  | store (position : MemoryPosition) (target : ℕ) (hlock : v.lock = .free)
      (hresolve : position.resolve (log.bounds v.cursor.name).1 (log.bounds v.cursor.name).2
        = .ok target) :
      Moves i log live v (.seekStore position)
        { v with cursor := { v.cursor with watermark := target }, lock := .seeking i target }
  | replace (target : ℕ) (hlock : v.lock = .seeking i target) :
      Moves i log live v .seekReplace
        { v with cursor := { v.cursor with pending := some target }, lock := .free }
  | register (more : ℕ) (hphase : v.cursor.phase = .idle) :
      Moves i log live v (.register more) (v.setPhase (.registered more))
  | takeSome (target more : ℕ) (hphase : v.cursor.phase = .registered more)
      (hpending : v.cursor.pending = some target) :
      Moves i log live v .take
        { v with cursor := { v.cursor with pending := none, phase := .taken target more } }
  | takeNone (more : ℕ) (hphase : v.cursor.phase = .registered more)
      (hpending : v.cursor.pending = none) :
      Moves i log live v .take (v.setPhase (.receiving more))
  | lockDead (target more : ℕ) (hphase : v.cursor.phase = .taken target more)
      (hlive : live = false) : Moves i log live v .lock (v.setPhase (.receiving more))
  | lock (target more : ℕ) (hphase : v.cursor.phase = .taken target more)
      (hlock : v.lock = .free) :
      Moves i log live v .lock { v.setPhase (.draining target more) with lock := .swapping i }
  | drainOne (target more : ℕ) (delivery : MemoryDelivery) (queue : List MemoryDelivery)
      (hphase : v.cursor.phase = .draining target more) (hqueue : v.queue = delivery :: queue) :
      Moves i log live v .drainOne { v with queue := queue }
  | drainEnd (target more : ℕ) (hphase : v.cursor.phase = .draining target more)
      (hqueue : v.queue = []) :
      Moves i log live v .drainEnd
        (v.setPhase (.replaying target (log.replay v.cursor.name target) more))
  | replayOne (target more : ℕ) (delivery : MemoryDelivery) (rest : List MemoryDelivery)
      (hphase : v.cursor.phase = .replaying target (delivery :: rest) more) :
      Moves i log live v .replayOne
        { v.setPhase (.replaying target rest more) with queue := v.queue ++ [delivery] }
  | unlock (target more : ℕ) (hphase : v.cursor.phase = .replaying target [] more) :
      Moves i log live v .unlock { v.setPhase (.receiving more) with lock := .free }
  | receive (more : ℕ) (delivery : MemoryDelivery) (queue : List MemoryDelivery)
      (hphase : v.cursor.phase = .receiving more) (hqueue : v.queue = delivery :: queue) :
      Moves i log live v .receive { v.setPhase (.received delivery more) with queue := queue }
  | receiveNone (more : ℕ) (hphase : v.cursor.phase = .receiving more) (hqueue : v.queue = []) :
      Moves i log live v .receive (v.setPhase .idle)
  | stale (more : ℕ) (delivery : MemoryDelivery)
      (hphase : v.cursor.phase = .received delivery more)
      (hstale : delivery.seq < v.cursor.watermark) :
      Moves i log live v .compare (v.setPhase (.receiving more))
  | handOut (more : ℕ) (delivery : MemoryDelivery)
      (hphase : v.cursor.phase = .received delivery more)
      (hfresh : v.cursor.watermark ≤ delivery.seq) :
      Moves i log live v .compare (v.handOut delivery more)
  | requeue (k : ℕ) (delivery : MemoryDelivery) (hhand : v.cursor.hand[k]? = some delivery) :
      Moves i log live v (.requeue k)
        { v with
          cursor := { v.cursor with hand := v.cursor.hand.eraseIdx k }
          queue := v.queue ++ [delivery.redelivered] }
  | settle (k : ℕ) (hhand : k < v.cursor.hand.length) :
      Moves i log live v (.settle k)
        { v with cursor := { v.cursor with hand := v.cursor.hand.eraseIdx k } }

section Moves

variable {i : ℕ} {log : LogState} {live : Bool} {v v' : View} {m : Move}

theorem moves_of_move (h : move i log live v m = some v') : Moves i log live v m v' := by
  cases m with
  | seekStore position =>
    rw [move] at h
    split_ifs at h with hlock hlive
    · cases h
      exact .refused position (not_not.mp hlock)
    · cases hresolve : position.resolve (log.bounds v.cursor.name).1
          (log.bounds v.cursor.name).2 with
      | ok target =>
        rw [hresolve] at h
        cases h
        exact .store position target (not_not.mp hlock) hresolve
      | error e =>
        rw [hresolve] at h
        cases h
        exact .refused position (not_not.mp hlock)
  | seekReplace =>
    rw [move] at h
    split at h
    · rename_i j target hlock
      split_ifs at h with hj
      cases h
      subst hj
      exact .replace target hlock
    · cases h
  | register more =>
    rw [move] at h
    split at h
    · rename_i hphase
      cases h
      exact .register more hphase
    · cases h
  | take =>
    rw [move] at h
    split at h
    · rename_i more target hphase hpending
      cases h
      exact .takeSome target more hphase hpending
    · rename_i more hphase hpending
      cases h
      exact .takeNone more hphase hpending
    · cases h
  | lock =>
    rw [move] at h
    split at h
    · rename_i target more hphase
      split_ifs at h with hlock hlive
      · cases h
        exact .lockDead target more hphase hlive
      · cases h
        exact .lock target more hphase (not_not.mp hlock)
    · cases h
  | drainOne =>
    rw [move] at h
    split at h
    · rename_i target more delivery queue hphase hqueue
      cases h
      exact .drainOne target more delivery queue hphase hqueue
    · cases h
  | drainEnd =>
    rw [move] at h
    split at h
    · rename_i target more hphase hqueue
      cases h
      exact .drainEnd target more hphase hqueue
    · cases h
  | replayOne =>
    rw [move] at h
    split at h
    · rename_i target delivery rest more hphase
      cases h
      exact .replayOne target more delivery rest hphase
    · cases h
  | unlock =>
    rw [move] at h
    split at h
    · rename_i target more hphase
      cases h
      exact .unlock target more hphase
    · cases h
  | receive =>
    rw [move] at h
    split at h
    · rename_i more delivery queue hphase hqueue
      cases h
      exact .receive more delivery queue hphase hqueue
    · rename_i more hphase hqueue
      cases h
      exact .receiveNone more hphase hqueue
    · cases h
  | compare =>
    rw [move] at h
    split at h
    · rename_i delivery more hphase
      split_ifs at h with hstale
      · cases h
        exact .stale more delivery hphase hstale
      · cases h
        exact .handOut more delivery hphase (Nat.le_of_not_lt hstale)
    · cases h
  | requeue k =>
    rw [move] at h
    split at h
    · rename_i delivery hhand
      cases h
      exact .requeue k delivery hhand
    · cases h
  | settle k =>
    rw [move] at h
    split_ifs at h with hhand
    cases h
    exact .settle k hhand

end Moves

/-! ## Locality -/

theorem exists_of_step_sub {s s' : Seeking} {i : ℕ} {m : Move} (h : step s (.sub i m) = some s') :
    ∃ v, Moves i s.broker.log s.broker.bus.isLive (s.view i) m v ∧ s' = s.put i v := by
  obtain ⟨v, hv, hput⟩ := Option.map_eq_some_iff.mp h
  exact ⟨v, moves_of_move hv, hput.symm⟩

variable (s : Seeking)

theorem view_put_self (i : ℕ) (v : View) : (s.put i v).view i = v := by
  simp [Seeking.view, Seeking.put]

theorem cursors_put (i : ℕ) (v : View) : (s.put i v).cursors i = v.cursor :=
  congrArg View.cursor (view_put_self s i v)

theorem put_view (i : ℕ) : s.put i (s.view i) = s := by
  simp [Seeking.put, Seeking.view]

theorem put_put (i : ℕ) (v v' : View) : (s.put i v).put i v' = s.put i v' := by
  simp [Seeking.put]

theorem view_put_of_ne {i j : ℕ} (h : j ≠ i) (v : View) :
    (s.put i v).view j = { s.view j with lock := v.lock } := by
  simp [Seeking.view, Seeking.put, h]

/-- The subscription that holds the lock. -/
def Lock.holder : Lock → Option ℕ
  | .free => none
  | .seeking i _ => some i
  | .swapping i => some i

/-- A subscription takes the lock when it is free and gives back only its own. -/
theorem lock_eq_iff_of_moves {i j : ℕ} {log : LogState} {live : Bool} {v v' : View} {m : Move}
    (hmoves : Moves i log live v m v') (hswap : v.cursor.phase.isSwap = true → v.lock = .swapping i)
    (hij : j ≠ i) {l : Lock} (hl : l.holder = some j) : v'.lock = l ↔ v.lock = l := by
  have hfree : Lock.free ≠ l := by
    rintro rfl
    cases hl
  have hown : ∀ l', l'.holder = some i → l' ≠ l := by
    rintro l' hl' rfl
    rw [hl'] at hl
    exact hij (Option.some.inj hl).symm
  cases hmoves with
  | store position target hlock =>
    rw [hlock]
    exact iff_of_false (hown (.seeking i target) rfl) hfree
  | replace target hlock =>
    rw [hlock]
    exact iff_of_false hfree (hown (.seeking i target) rfl)
  | lock target more hphase hlock =>
    rw [hlock]
    exact iff_of_false (hown (.swapping i) rfl) hfree
  | unlock target more hphase =>
    rw [hswap (by rw [hphase]; rfl)]
    exact iff_of_false hfree (hown (.swapping i) rfl)
  | _ => exact Iff.rfl

end RustStream
