import RustStream.Lib.Lockstep
import RustStream.Local.Heap

/-!
# What a client sees of a local bus

A client connects, subscribes, publishes, polls, settles what it received, drops its subscribers and
shuts the bus down. What it sees is the answer of each call, and in each message the payload, the
value under each header name and the count of deliveries.

The view is the bus as a client can know it: whether it is live, the subscriptions whose subscriber
is there, and the messages in hand. It tells the answer of every call but one. A requeue of a message
whose subscriber has left lands nowhere on either form, and whether it is refused is not in the view:
`refused` stands for what a form of the bus knows of the subscription.

## Main definitions

* `Client.Operation`, `Client.Reply`: the calls and their answers.
* `Client.View`, `Client.View.perform`: the bus as a client knows it.

## Main results

* `Client.get_headersOf`: the two header maps built from the same pairs answer alike.
* `Client.View.perform_together`: two forms with one view answer differently only to a requeue whose
  subscriber has left.
-/

namespace RustStream.Client

open Lockstep

/-! ## Calls and answers -/

/-- What a client does. A message is named by its subscription and its place among the unsettled
messages of it. -/
inductive Operation where
  | connect
  -- the name is a literal of the program or was built at run time
  | subscribe (name : String) (literal : Bool)
  -- the headers are inserted in this order
  | publish (name : String) (payload : Bytes) (headers : List (Bytes × Bytes))
  | poll (i : ℕ)
  | ack (i k : ℕ)
  | nack (i k : ℕ) (requeue : Bool)
  -- the drop of a message nobody settled
  | drop (i k : ℕ)
  -- the drop of a subscriber
  | leave (i : ℕ)
  | shutDown

inductive ErrorKind where
  | shutDown
  | full
  | payloadTooLarge
  | noFreeSubscription
  | nameTooLong
  deriving DecidableEq, Repr

/-- A message as its handler reads it. -/
structure Seen where
  payload : Bytes
  header : Bytes → Option Bytes
  deliveries : NonZeroU64

inductive Reply where
  | done
  | result (answer : Except ErrorKind Unit)
  | polled (next : Poll (Option Seen))
  -- how many subscriptions a shutdown closed
  | closed (subscriptions : ℕ)
  | panicked

/-- What a handler reads of a delivery. -/
def seen {b : Build} (delivery : LocalDelivery b) : Seen :=
  ⟨delivery.payload, delivery.headers.get, delivery.deliveries⟩

def Seen.requeue (message : Seen) : Seen :=
  { message with deliveries := message.deliveries.saturatingAdd 1 }

/-! ## Headers from pairs -/

section Headers

variable {b : Build}

/-- The empty header map. -/
def noHeaders : (b : Build) → Headers b
  | .alloc => HeaderMap.new
  | .noAlloc => FixedHeaders.new headerBytes_le

/-- The header map of a message, where it takes all the pairs. -/
def headersOf (b : Build) (pairs : List (Bytes × Bytes)) : Except HeadersFull (Headers b) :=
  pairs.foldlM (fun headers pair => headers.insert pair.1 pair.2) (noHeaders b)

/-- The delivery a bus makes of a publish. -/
def deliveryOf (payload : Bytes) (headers : Headers b) : LocalDelivery b :=
  ⟨payload, headers, deliveryCountOf headers⟩

/-- The value after the pairs, the last of a name counting. -/
def valueAfter (pairs : List (Bytes × Bytes)) (name : Bytes) (found : Option Bytes) :
    Option Bytes :=
  pairs.foldl (fun found pair => if eqIgnoreAsciiCase name pair.1 then some pair.2 else found) found

theorem get_noHeaders (name : Bytes) : (noHeaders b).get name = none := by
  cases b with
  | alloc => rfl
  | noAlloc => rfl

theorem get_insert {headers headers' : Headers b} {name value : Bytes}
    (h : headers.insert name value = .ok headers') (other : Bytes) : headers'.get other
      = if eqIgnoreAsciiCase other name then some value else headers.get other := by
  have hsame : eqIgnoreAsciiCase other name = true ↔ lowercase other = lowercase name := beq_iff_eq
  split_ifs with heq
  · rw [headers'.get_congr (hsame.mp heq)]
    exact Headers.get_insert_self h
  · exact Headers.get_insert_of_ne h fun hlower => heq (hsame.mpr hlower)

variable {pairs : List (Bytes × Bytes)}

theorem get_foldlM {headers headers' : Headers b}
    (h : pairs.foldlM (fun headers pair => headers.insert pair.1 pair.2) headers = .ok headers')
    (name : Bytes) : headers'.get name = valueAfter pairs name (headers.get name) := by
  induction pairs generalizing headers with
  | nil =>
    cases h
    rfl
  | cons pair pairs ih =>
    rw [List.foldlM_cons] at h
    cases hinsert : headers.insert pair.1 pair.2 with
    | error _ =>
      rw [hinsert] at h
      cases h
    | ok next =>
      rw [hinsert] at h
      rw [ih h, get_insert hinsert, valueAfter, valueAfter, List.foldl_cons]

/-- Whatever map it is, the last of the pairs with a name gives the value. -/
theorem get_headersOf {headers : Headers b}
    (h : headersOf b pairs = .ok headers) : headers.get = fun name => valueAfter pairs name none := by
  funext name
  rw [get_foldlM h, get_noHeaders]

/-- The message a publish shows, on either form of the bus. -/
def publishedAs (payload : Bytes) (pairs : List (Bytes × Bytes)) : Seen where
  payload := payload
  header := fun name => valueAfter pairs name none
  deliveries :=
    match valueAfter pairs retryCountHeader none with
    | none => .min
    | some value => NonZeroU64.min.saturatingAdd (countOf value)

theorem seen_deliveryOf {headers : Headers b}
    (h : headersOf b pairs = .ok headers) (payload : Bytes) :
    seen (deliveryOf payload headers) = publishedAs payload pairs := by
  unfold seen deliveryOf publishedAs
  rw [deliveryCountOf_eq, currentRetryCount, get_headersOf h]
  dsimp only
  cases valueAfter pairs retryCountHeader none with
  | none => rfl
  | some value => rfl

theorem headersOf_alloc (pairs : List (Bytes × Bytes)) :
    ∃ headers, headersOf .alloc pairs = .ok headers := by
  unfold headersOf
  generalize noHeaders .alloc = headers
  induction pairs generalizing headers with
  | nil => exact ⟨headers, rfl⟩
  | cons pair pairs ih => exact ih (HeaderMap.insert headers pair.1 pair.2)

end Headers

/-- What a handler reads of a copy. -/
def seenCopy {b : Build} (copy : Numbered b) : Seen :=
  seen copy.delivery

/-- What a poll shows. -/
def shown {b : Build} : Poll (Option (Numbered b)) → Poll (Option Seen)
  | .ready next => .ready (next.map seenCopy)
  | .pending => .pending

/-! ## The view -/

/-- A subscription whose subscriber is there. -/
structure Reader where
  name : String
  queue : List Seen
  inHand : ℕ
  closed : Bool

namespace Reader

def reads (reader : Reader) (name : String) : Bool :=
  !reader.closed && reader.name = name

def hasRoom (cap : ℕ) (reader : Reader) : Bool :=
  reader.queue.length + reader.inHand < cap

def receive (name : String) (message : Seen) (reader : Reader) : Reader :=
  if reader.reads name then { reader with queue := reader.queue ++ [message] } else reader

def giveBack (message : Seen) (reader : Reader) : Reader :=
  if reader.closed then reader else { reader with queue := reader.queue ++ [message.requeue] }

def release (reader : Reader) : Reader :=
  { reader with inHand := reader.inHand - 1 }

def close (reader : Reader) : Reader :=
  { reader with closed := true }

end Reader

/-- The bus as its clients know it. -/
@[ext]
structure View where
  live : Bool
  -- how many subscriptions were opened
  opened : ℕ
  readers : ℕ → Option Reader
  -- the unsettled messages
  hands : ℕ → List Seen

namespace View

/-- A bus nobody has connected yet. -/
def new : View := ⟨false, 0, fun _ => none, fun _ => []⟩

/-- Changes a subscription, where its subscriber is there. -/
def change (v : View) (i : ℕ) (f : Reader → Reader) : View :=
  { v with readers := Function.update v.readers i ((v.readers i).map f) }

/-- A message leaves its handler's hands. -/
def letGo (v : View) (i k : ℕ) : View :=
  { v with hands := Function.update v.hands i ((v.hands i).eraseIdx k) }

/-- Whether some subscription of the name has no room. -/
def full (cap : ℕ) (v : View) (name : String) : Bool :=
  (List.range v.opened).any fun i =>
    (v.readers i).any fun reader => reader.reads name && !reader.hasRoom cap

/-- The subscriptions a shutdown closes. -/
def openReaders (v : View) : List ℕ :=
  (List.range v.opened).filter fun i => (v.readers i).any fun reader => !reader.closed

/-- What a requeue is answered: it is for the subscription to say, or, where that has gone, for the
form of the bus. -/
def requeueAnswer (v : View) (refused : ℕ → Bool) (i : ℕ) : Except ErrorKind Unit :=
  if (v.readers i).elim (refused i) Reader.closed then .error .shutDown else .ok ()

/-- The bus after a message was settled, and after it was given back. -/
def settled (v : View) (i k : ℕ) : View :=
  (v.letGo i k).change i Reader.release

@[inherit_doc settled]
def requeued (v : View) (i k : ℕ) (message : Seen) : View :=
  (v.letGo i k).change i fun reader => (reader.giveBack message).release

/-- A call and its answer, where a client can make it. -/
def perform (cap : ℕ) (refused : ℕ → Bool) (v : View) : Operation → Option (Reply × View)
  | .connect => some (.done, { v with live := true })
  | .subscribe name _ =>
    if v.live then
      some (.result (.ok ()), { v with
        opened := v.opened + 1
        readers := Function.update v.readers v.opened (some ⟨name, [], 0, false⟩) })
    else some (.result (.error .shutDown), v)
  | .publish name payload headers =>
    if v.live = false then some (.result (.error .shutDown), v)
    else if v.full cap name then some (.result (.error .full), v)
    else
      some (.result (.ok ()), { v with
        readers := fun i => (v.readers i).map (Reader.receive name (publishedAs payload headers)) })
  | .poll i =>
    match v.readers i with
    | none => none
    | some reader =>
      match reader.queue with
      | message :: queue =>
        some (.polled (.ready (some message)), { v with
          readers := Function.update v.readers i
            (some { reader with queue := queue, inHand := reader.inHand + 1 })
          hands := Function.update v.hands i (v.hands i ++ [message]) })
      | [] => some (.polled (if reader.closed then .ready none else .pending), v)
  | .ack i k => (v.hands i)[k]?.map fun _ => (.result (.ok ()), v.settled i k)
  | .nack i k false => (v.hands i)[k]?.map fun _ => (.result (.ok ()), v.settled i k)
  | .nack i k true =>
    (v.hands i)[k]?.map fun message =>
      (.result (v.requeueAnswer refused i), v.requeued i k message)
  | .drop i k => (v.hands i)[k]?.map fun message => (.done, v.requeued i k message)
  | .leave i =>
    if (v.readers i).isSome then
      some (.done, { v with readers := Function.update v.readers i none })
    else none
  | .shutDown =>
    some (.closed v.openReaders.length,
      { v with live := false, readers := fun i => (v.readers i).map Reader.close })

section

variable {cap : ℕ} {refused refused' : ℕ → Bool}

/-- Where the two forms may answer differently. -/
def SameAnswer (v : View) (refused refused' : ℕ → Bool) (op : Operation) : Prop :=
  ∀ i k, op = .nack i k true → (v.hands i)[k]?.isSome = true → v.readers i = none →
    refused i = refused' i

theorem requeueAnswer_eq_iff (v : View) (i : ℕ) :
    v.requeueAnswer refused i = v.requeueAnswer refused' i ↔
      (v.readers i = none → refused i = refused' i) := by
  unfold requeueAnswer
  cases v.readers i with
  | some reader => exact iff_of_true rfl fun h => by cases h
  | none =>
    simp only [Option.elim_none, forall_const]
    generalize refused i = r
    generalize refused' i = r'
    revert r r'
    decide

/-- The view moves on whatever the forms answer. -/
theorem perform_together (v : View) (op : Operation) :
    Together Eq (v.SameAnswer refused refused' op) (v.perform cap refused op)
      (v.perform cap refused' op) := by
  -- every call but one does not look at what the forms know
  have hsame : (∀ i k, op ≠ .nack i k true) →
      Together Eq (v.SameAnswer refused refused' op) (v.perform cap refused op)
        (v.perform cap refused op) := by
    intro hop
    have hgood : v.SameAnswer refused refused' op := fun i k heq => absurd heq (hop i k)
    cases v.perform cap refused op with
    | none => exact .stuck hgood
    | some p => exact .taken rfl (iff_of_true rfl hgood)
  cases op with
  | nack i k requeue =>
    cases requeue with
    | false => exact hsame fun i k => by simp
    | true =>
      have hiff : v.SameAnswer refused refused' (.nack i k true) ↔
          ((v.hands i)[k]?.isSome = true → v.readers i = none → refused i = refused' i) := by
        constructor
        · exact fun h => h i k rfl
        · rintro h i' k' heq
          cases heq
          exact h
      rw [hiff, perform, perform]
      cases (v.hands i)[k]? with
      | none => exact .stuck fun h => by cases h
      | some message =>
        refine .taken rfl ?_
        rw [Reply.result.injEq, requeueAnswer_eq_iff]
        simp
  | connect | subscribe name literal | publish name payload headers | poll i | ack i k | drop i k
  | leave i | shutDown => exact hsame fun i k => by simp

end

end View

end RustStream.Client
