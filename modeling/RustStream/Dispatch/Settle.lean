import RustStream.Dispatch.CopyStore

/-!
# Settling one delivery

The settlement of one delivery by the handler's outcome, as the dispatch loop makes it: the
broker's own requeue or delay, a copy published through the registration's retry publisher, a copy
kept in a record of the host's store, a dead letter, or a rejection. The functions follow the source
one by one; what they do to the world (the settle calls made, the copies that leave, the records and
reservations taken, the work handed on and the warnings) is threaded through them explicitly.

## Main definitions

* `Host`, `CopyPath`, `copyPath`: what the runner offers a settlement.
* `World`: what a settlement reads and writes.
* `settleRetry`, `settleNackAfter`, `settleReacting`: the settlement.
-/

namespace RustStream

variable {b : Build} {Options : Type}

/-! ## The host -/

/-- The retry path of one subscription: the publisher a copy leaves through, which is given the
headers of the delivery it copies, and where a copy meant for the subscription itself goes. -/
structure RetryRoute (Options : Type) where
  publishCopy : Headers .alloc → Copy .alloc Options → Sent
  destination : Option String
  subscription : String

/-- What carries a mount's copies: nothing where the broker moves its deliveries itself, a retry
publisher (never without an allocator), or a store of kept copies. -/
inductive Mount (Options : Type) : Build → Type where
  | plain {b : Build} : Mount Options b
  | copying (route : Option (RetryRoute Options)) : Mount Options .alloc
  | keeping {b : Build} (kept : CopyPublisher b Options) : Mount Options b

structure Host (b : Build) (Options : Type) where
  mount : Mount Options b
  -- whether the runner keeps a mount's copies in a store the mount sizes itself
  storesCopies : Bool
  -- what the runner answers when room for a delayed copy is reserved
  reserve : Bool

/-- The way a copy of a failed delivery leaves. -/
inductive CopyPath (Options : Type) : Build → Type where
  | published (route : RetryRoute Options) : CopyPath Options .alloc
  | kept {b : Build} (path : CopyPublisher b Options) : CopyPath Options b

/-- The copy path of this delivery; `none` where the broker moves the delivery itself. -/
def copyPath (host : Host b Options) : Option (CopyPath Options b) :=
  match host.mount with
  | .plain => none
  | .copying (some route) => some (.published route)
  | .copying none => none
  | .keeping kept => some (.kept kept)

/-- The test harness watching a delivery, and whether it times its redeliveries itself. -/
structure Coordinator where
  timesOnTokio : Bool

/-- What the registration and the harness say about a delivery. -/
structure Delivery where
  declaration : RetryDeclaration
  coordinator : Option Coordinator

/-! ## The world of a settlement -/

/-- Where one copy goes. -/
inductive Target where
  | subscription
  | deadLetter (destination : String)
  deriving DecidableEq, Repr

/-- Who holds a delayed copy. -/
inductive Timer where
  | coordinator
  | host
  | record (index : ℕ)
  deriving DecidableEq, Repr

/-- What became of a copy once the original was dropped. -/
inductive Fate where
  | published
  | scheduled (delay : Duration) (timer : Timer)
  | failed (cause : PublishError)

/-- The fate of a copy whose publish has answered. -/
def Fate.ofSent : Sent → Fate
  | .ok _ => .published
  | .error cause => .failed cause

/-- A copy that left. The target is what the copy is for; a publisher sees only its destination. -/
structure Departure (b : Build) (Options : Type) where
  target : Target
  copy : Copy b Options
  fate : Fate

inductive Warning where
  -- "ack / nack failed"
  | ackFailed (error : AckError)
  -- "the outcome carries an `.error` continuation, but the runtime publishes no copy ..."
  | continuationNeverRuns
  -- "retry attempts exhausted ...": to the dead-letter destination, or rejected without one
  | attemptsExhausted (attempt : UInt64) (destination : Option String)
  -- "retry_after on a mount with no store of copies; requeuing immediately ..."
  | noStoreOfCopies
  -- "retry_after on a broker with neither native delayed redelivery nor a copy path ..."
  | delayDropped
  -- "the store of delayed retries is full; requeuing the delivery now"
  | reservationsFull
  -- "publishing the message failed; message lost"
  | messageLost (destination : String) (cause : PublishError)

/-- What a settlement reads and writes outside the delivery. -/
structure World (b : Build) (Options : Type) where
  -- the settle calls made, with their answers
  calls : List (SettleCall × Answer)
  -- what the outcome carries and no publish has taken yet
  reaction : Option (Reaction b)
  store : CopyStore b Options
  -- reservations of delayed work held and not used
  reserved : ℕ
  departures : List (Departure b Options)
  -- work handed on to run beside the delivery
  continuations : List Continuation
  -- reports to the fan of a batch
  reports : List (ℕ × Sent)
  -- delays of the native redeliveries the harness was told to expect
  expected : List Duration
  warnings : List Warning

namespace World

/-- The world at the start of a settlement: nothing is done yet. -/
def start (reaction : Option (Reaction b)) (store : CopyStore b Options) : World b Options where
  calls := []
  reaction := reaction
  store := store
  reserved := 0
  departures := []
  continuations := []
  reports := []
  expected := []
  warnings := []

def warn (w : World b Options) (warning : Warning) : World b Options :=
  { w with warnings := w.warnings ++ [warning] }

/-- Settles the delivery with one call, which consumes it. -/
def settle (w : World b Options) (msg : Message b) (call : SettleCall) :
    Answer × World b Options :=
  (msg.answer call, { w with calls := w.calls ++ [(call, msg.answer call)] })

/-- Takes the reaction for a copy. -/
def takeReaction (w : World b Options) : Option (Reaction b) × World b Options :=
  (w.reaction, { w with reaction := none })

/-- Reports a batch element to the fan of the store, where there is one. -/
def report (w : World b Options) (index : ℕ) (sent : Sent) : World b Options :=
  if w.store.fan then { w with reports := w.reports ++ [(index, sent)] } else w

/-- What follows a publish, handed on. -/
def follow (w : World b Options) (destination : String) : Aftermath → World b Options
  | .follow work => { w with continuations := w.continuations ++ work.toList }
  | .report index sent => w.report index sent
  | .lost cause => w.warn (.messageLost destination cause)

def depart (w : World b Options) (departure : Departure b Options) : World b Options :=
  { w with departures := w.departures ++ [departure] }

/-- Holds one more reservation of delayed work. -/
def hold (w : World b Options) (reserved : Bool) : World b Options :=
  if reserved then { w with reserved := w.reserved + 1 } else w

/-- Lets one reservation go: given back, or taken along by the scheduled work. -/
def letGo (w : World b Options) (reserved : Bool) : World b Options :=
  if reserved then { w with reserved := w.reserved - 1 } else w

/-- A publish of `copy` that has answered: the copy left or failed, and what follows is handed
on. -/
def afterPublish (w : World b Options) (target : Target) (copy : Copy b Options) (sent : Sent)
    (reaction : Option (Reaction b)) : World b Options :=
  (w.depart ⟨target, copy, .ofSent sent⟩).follow copy.destination (copySent sent reaction)

end World

/-- A zero delay is no delay. -/
def nonzero (delay : Option Duration) : Option Duration :=
  delay.filter fun delay => delay ≠ 0

/-! ## Copies kept in the host's store -/

/-- Drops the original: a transport with no settlement has nothing to drop, and any other settle
failure leaves the delivery with the broker. -/
def dropOriginal (msg : Message b) (w : World b Options) : Answer × World b Options :=
  match w.settle msg (.nack false) with
  | (.ok _, w) => (.ok (), w)
  | (.error .unsupported, w) => (.ok (), w)
  | (.error err, w) => (.error err, w)

/-- The destination of a copy, `none` for the subscription. -/
def Target.destination : Target → Option String
  | .subscription => none
  | .deadLetter destination => some destination

/-- Sends the copy without a record, because the store has none free. A copy that would wait for
its delay has nowhere to wait: it is the failure of a publish that never started. -/
def spillCopy (target : Target) (delay : Option Duration) (path : CopyPublisher b Options)
    (headers : Headers b) (msg : Message b) (w : World b Options) : Answer × World b Options :=
  if target.destination.isNone && delay.isSome then
    match dropOriginal msg w with
    | (.error err, w) => (.error err, w)
    | (.ok _, w) =>
      let (reaction, w) := w.takeReaction
      (.ok (), w.afterPublish target ⟨path.address, msg.payload, headers, none⟩
        (.error (.noFreeRecord w.store.records.length)) reaction)
  else
    let spilled := spill path msg.payload headers target.destination msg
    match dropOriginal msg w with
    | (.error err, w) => (.error err, w)
    | (.ok _, w) =>
      let (reaction, w) := w.takeReaction
      (.ok (), w.afterPublish target spilled.copy (spilled.send path) reaction)

/-- The record holding a copy armed or sent, once the original is dropped. -/
def leaveRecord (target : Target) (delay : Option Duration) (path : CopyPublisher b Options)
    (index : ℕ) (w : World b Options) : World b Options :=
  let (reaction, w) := w.takeReaction
  match delay with
  | some delay =>
    -- only a copy back to the subscription carries a delay
    let armed := { w with store := w.store.arm index delay reaction }
    match w.store.records[index]? with
    | some record =>
      armed.depart ⟨target, record.copy path.address, .scheduled delay (.record index)⟩
    | none => armed
  | none =>
    match w.store.sendNow path index target.destination reaction with
    | some (copy, sent, store) => { w with store := store }.afterPublish target copy sent reaction
    | none => w

/-- Drops the original delivery and sends a copy of it to `target` through a record of the host's
store. The record is taken, filled and prepared before the original is dropped, and freed again if
that fails. -/
def keepCopy (target : Target) (delay : Option Duration) (path : CopyPublisher b Options)
    (msg : Message b) (w : World b Options) : Answer × World b Options :=
  let delay := nonzero delay
  match counted msg.headers with
  | none => w.settle msg (.nack true)
  | some headers =>
    match w.store.takeRecord with
    | none => spillCopy target delay path headers msg w
    | some (index, store) =>
      let filled := store.fill index msg.payload headers
      let w := { w with store := filled.prepare path index target.destination msg }
      match dropOriginal msg w with
      | (.error err, w) => (.error err, { w with store := w.store.free index })
      | (.ok _, w) => (.ok (), leaveRecord target delay path index w)

/-! ## Copies published through the retry publisher -/

/-- Whether the harness, rather than the runner, keeps this delivery's delayed copy. -/
def harnessSchedules (delivery : Delivery) : Bool :=
  delivery.coordinator.isSome

/-- Who holds the delayed copy: the harness where it times its own, the runner otherwise. -/
def timerOf (delivery : Delivery) : Timer :=
  match delivery.coordinator with
  | some coordinator => if coordinator.timesOnTokio then .coordinator else .host
  | none => .host

/-- The copy published now, or left with its timer, once the original is dropped. -/
def republish (target : Target) (copy : Copy .alloc Options) (delay : Option Duration)
    (reserved : Bool) (route : RetryRoute Options) (delivery : Delivery) (msg : Message .alloc)
    (w : World .alloc Options) : World .alloc Options :=
  let (reaction, w) := w.takeReaction
  match delay with
  | none => w.afterPublish target copy (route.publishCopy msg.headers copy) reaction
  | some delay =>
    -- the scheduled work takes the reservation with it
    (w.letGo reserved).depart ⟨target, copy, .scheduled delay (timerOf delivery)⟩

/-- Drops the original delivery and sends a copy of it to `destination`, now or after `delay`. Room
for a delayed copy is reserved before the original is dropped. -/
def publishCopy (target : Target) (destination : Option String) (delay : Option Duration)
    (route : RetryRoute Options) (delivery : Delivery) (host : Host .alloc Options)
    (msg : Message .alloc) (w : World .alloc Options) : Answer × World .alloc Options :=
  let name := destination.getD route.subscription
  let nextCount := currentRetryCount msg.headers + 1
  let headers := HeaderMap.insert msg.headers retryCountHeader (countText nextCount)
  let delay := nonzero delay
  let reserved := delay.isSome && !harnessSchedules delivery
  if reserved && !host.reserve then
    (w.warn .reservationsFull).settle msg (.nack true)
  else
    match dropOriginal msg (w.hold reserved) with
    | (.error err, w) => (.error err, w.letGo reserved)
    | (.ok _, w) =>
      (.ok (), republish target ⟨name, msg.payload, headers, none⟩ delay reserved route delivery msg w)

/-- Sends a copy of the delivery to `target` along `path`, now or after `delay`. -/
def sendCopy (target : Target) (delay : Option Duration) (path : CopyPath Options b)
    (delivery : Delivery) (host : Host b Options) (msg : Message b) (w : World b Options) :
    Answer × World b Options :=
  match path with
  | .published route =>
    let destination := match target with
      | .subscription => route.destination
      | .deadLetter destination => some destination
    publishCopy target destination delay route delivery host msg w
  | .kept path => keepCopy target delay path msg w

/-! ## The settlement -/

/-- Sends the delivery to the declared dead-letter destination at once. -/
def deadLetter (destination : String) (atCap : Bool) (path : CopyPath Options b)
    (delivery : Delivery) (host : Host b Options) (msg : Message b) (w : World b Options) :
    Answer × World b Options :=
  let w := if atCap then w.warn (.attemptsExhausted (attemptOf msg) (some destination)) else w
  sendCopy (.deadLetter destination) none path delivery host msg w

/-- Rejects a delivery whose attempts are spent and which has nowhere declared to go. -/
def rejectSpent (msg : Message b) (w : World b Options) : Answer × World b Options :=
  (w.warn (.attemptsExhausted (attemptOf msg) none)).settle msg (.nack false)

/-- Settles an immediate retry. -/
def settleRetry (delivery : Delivery) (host : Host b Options) (msg : Message b)
    (w : World b Options) : Answer × World b Options :=
  if delivery.declaration.declaresNothing then w.settle msg (.nack true)
  else
    match copyPath host with
    | none => w.settle msg (.nack true)
    | some path =>
      match redeliveryOf msg delivery.declaration with
      | .subscription =>
        -- a broker that counts its own redeliveries carries the count forward with its requeue
        if msg.redeliveryCount.isSome then w.settle msg (.nack true)
        else sendCopy .subscription none path delivery host msg w
      | .deadLetter destination atCap => deadLetter destination atCap path delivery host msg w
      | .reject => rejectSpent msg w

/-- Requeues a delayed retry at once, where nothing can hold it back. -/
def requeueNow (delivery : Delivery) (host : Host b Options) (msg : Message b)
    (w : World b Options) : Answer × World b Options :=
  let w :=
    if redeliveryOf msg delivery.declaration = .subscription then
      w.warn (if host.storesCopies then .noStoreOfCopies else .delayDropped)
    else w
  w.settle msg (.nack true)

/-- Leaves the delayed redelivery to the broker. -/
def nackAfterNatively (delay : Duration) (delivery : Delivery) (msg : Message b)
    (w : World b Options) : Answer × World b Options :=
  match w.settle msg (.nackAfter delay) with
  | (.ok _, w) =>
    (.ok (), if delivery.coordinator.isSome then { w with expected := w.expected ++ [delay] } else w)
  | (.error err, w) => (.error err, w)

/-- Settles a delayed retry, choosing native delayed redelivery or the copy the runtime publishes. -/
def settleNackAfter (delay : Duration) (delivery : Delivery) (host : Host b Options)
    (msg : Message b) (w : World b Options) : Answer × World b Options :=
  if msg.supportsNackAfter then
    match delivery.declaration.maxAttempts, copyPath host with
    | some _, some path =>
      match redeliveryOf msg delivery.declaration with
      | .deadLetter destination _ => deadLetter destination true path delivery host msg w
      | .reject => rejectSpent msg w
      | .subscription => nackAfterNatively delay delivery msg w
    | _, _ => nackAfterNatively delay delivery msg w
  else
    match copyPath host with
    | none => requeueNow delivery host msg w
    | some path =>
      match redeliveryOf msg delivery.declaration with
      | .subscription => sendCopy .subscription (some delay) path delivery host msg w
      | .deadLetter destination atCap => deadLetter destination atCap path delivery host msg w
      | .reject => rejectSpent msg w

/-- The settlement by outcome, without what surrounds it. -/
def settleBy (outcome : HandlerResult) (delivery : Delivery) (host : Host b Options)
    (msg : Message b) (w : World b Options) : Answer × World b Options :=
  match outcome with
  | .ack => w.settle msg .ack
  | .nack false => w.settle msg (.nack false)
  | .nack true => settleRetry delivery host msg w
  | .nackAfter delay => settleNackAfter delay delivery host msg w

/-- What a delivery that made no publish owes the reaction nobody took: its follow-up runs now, and
an element of a batch reports to the fan that no publish of it failed. -/
def settleUnpublished (host : Host b Options) (w : World b Options) : World b Options :=
  match w.reaction.map Reaction.intoUnpublished with
  | none => w
  | some (.follow hook) =>
    { w with reaction := none, continuations := w.continuations ++ (hook.map .follow).toList }
  | some (.part index) =>
    if (copyPath host).isSome then { w with reaction := none }.report index (.ok ())
    else { w with reaction := none }

/-- Settles one delivery by an outcome that may carry the handler's continuation. -/
def settleReacting (outcome : HandlerResult) (delivery : Delivery) (host : Host b Options)
    (msg : Message b) (w : World b Options) : World b Options :=
  let w :=
    if w.reaction.isSome && (copyPath host).isNone then w.warn .continuationNeverRuns else w
  match settleBy outcome delivery host msg w with
  | (.ok _, w) => settleUnpublished host w
  | (.error err, w) => settleUnpublished host (w.warn (.ackFailed err))

end RustStream
