import RustStream.Dispatch.Redelivery

/-!
# Settling a batch

A batch of deliveries is read element by element. What cannot be read is settled by the decode policy
and never reaches the handler; the values of the rest reach its body as one slice, and the result the body
returns settles the deliveries behind them, by one outcome for all or by one for each.

The two adapters do this in different orders. The one that decodes with a codec settles its rejects
before the body runs and puts the accepted deliveries back into the batch. The one whose values borrow
their deliveries keeps the batch as it is, remembers the rejects by their index and settles everything
in one pass after the body. Both keep the rejects as a list of indices beside a walk over the batch.

What they do is collected as a list of effects.

## Main definitions

* `HandlerOutcome`, `BatchResult`: what a body returns for a delivery, and for a batch.
* `UniformFan`, `Settlements`: outcomes handed out element by element.
* `settleRejected`, `settleSplit`, `settleBatch`: the walks over a batch.
* `typedBatch`, `deserializedBatch`: the two adapters.

## Main results

* `UniformFan.slot_status`, `UniformFan.begin_status`: every share of a uniform outcome has its status.
-/

namespace RustStream

namespace Batch

/-! ## Outcomes -/

/-- The `.error` of an outcome: the handler's closure, marked when a uniform batch outcome shares it
between its elements, or the share of one element. -/
inductive Hook where
  | own (closure : ℕ) (shared : Bool)
  | part (index : ℕ)
  deriving DecidableEq, Repr

/-- What runs after a settlement: the handler's future, or the report of one element's success. -/
inductive FollowUp where
  | own (future : ℕ)
  | sentPart
  deriving DecidableEq, Repr

/-- What a handler returns for a delivery. -/
structure HandlerOutcome where
  status : HandlerResult
  after : Option FollowUp := none
  error : Option Hook := none
  deriving DecidableEq, Repr

/-- The outcome that asks for the delivery again. -/
def HandlerOutcome.retry : HandlerOutcome := ⟨.retry, none, none⟩

/-- Takes the `.error` and the follow-up a uniform batch outcome shares between its elements off the
last of them. -/
def HandlerOutcome.takeShared (outcome : HandlerOutcome) :
    Option (Hook × Option FollowUp) × HandlerOutcome :=
  match outcome.error with
  | some (.own closure true) => (some (.own closure true, outcome.after), ⟨outcome.status, none, none⟩)
  | _ => (none, outcome)

/-- What a body returns for a batch. -/
inductive BatchResult where
  | uniform (outcome : HandlerOutcome)
  | perElement (outcomes : List HandlerOutcome)

/-- The outcome of the `k`-th element. -/
def BatchResult.kth : BatchResult → ℕ → HandlerOutcome
  | .uniform outcome, _ => outcome
  | .perElement outcomes, k => outcomes.getD k .retry

/-- What one element is settled by: an outcome of its own, or the status and its index in the outcome
the mount's fan gathers. -/
inductive Element where
  | whole (outcome : HandlerOutcome)
  | part (status : HandlerResult) (index : ℕ)
  deriving DecidableEq, Repr

namespace Element

/-- The status the element settles by. -/
def status : Element → HandlerResult
  | .whole outcome => outcome.status
  | .part status _ => status

/-- The share of the next element: a part when the fan's elements are counted, the outcome itself
otherwise. -/
def of (outcome : HandlerOutcome) : Option ℕ → Element × Option ℕ
  | some next => (.part outcome.status next, some (next + 1))
  | none => (.whole outcome, none)

@[simp] theorem status_of (outcome : HandlerOutcome) (parts : Option ℕ) :
    (of outcome parts).1.status = outcome.status := by
  cases parts <;> rfl

end Element

/-! ## Reading -/

/-- How a subscription treats a delivery that cannot be read. -/
inductive FailurePolicy where
  | failFast
  | drop
  | retry
  | retryAfter (delay : Duration)
  | skip
  deriving DecidableEq, Repr

/-- The settlement of a delivery the handler never sees. Failing fast drops it, so that it does not come
back into the failure. -/
def FailurePolicy.rejection : FailurePolicy → HandlerResult
  | .failFast => .nack false
  | .drop => .nack false
  | .retry => .retry
  | .retryAfter delay => .retryAfter delay
  | .skip => .ack

/-- Reading a delivery: the broker may report it as undecodable, and the codec or the construction may
fail on it. -/
structure Reader (M V E : Type) where
  decodeError : M → Option E
  decode : M → Except E V
  /-- What the adapter says of a failed `decode`. -/
  reason : String
  policy : FailurePolicy

/-- What handling a batch does, in order. -/
inductive Effect (M V E : Type) where
  /-- The service is torn down by a fail-fast policy. -/
  | tearDown (reason : String) (error : E)
  | body (values : List V)
  | settle (msg : M) (element : Element)
  /-- A follow-up is handed to the tracked set. -/
  | detach (after : FollowUp)
  /-- The `.error` and the follow-up of an outcome are handed to a fan for so many elements. -/
  | gather (error : Hook) (after : Option FollowUp) (elements : ℕ)

variable {M V E : Type}

namespace Reader

variable (reader : Reader M V E)

/-- The value of a delivery, or why it has none. -/
def read (msg : M) : Except (String × E) V :=
  match reader.decodeError msg with
  | some error => .error ("batch decode failed", error)
  | none =>
    match reader.decode msg with
    | .ok value => .ok value
    | .error error => .error (reader.reason, error)

/-- The value of a delivery that can be read. -/
def value? (msg : M) : Option V :=
  (reader.read msg).toOption

/-- The deliveries that can be read. -/
def accepts (msg : M) : Bool :=
  (reader.value? msg).isSome

/-- What a reject does besides being remembered. -/
def torn (reason : String) (error : E) : List (Effect M V E) :=
  if reader.policy = .failFast then [.tearDown reason error] else []

/-- Reads a batch: the values, the index and the settlement of each reject, and what that did. -/
def decodeElements : ℕ → List M → List V × List (ℕ × HandlerResult) × List (Effect M V E)
  | _, [] => ([], [], [])
  | index, msg :: rest =>
    let (values, rejected, effects) := decodeElements (index + 1) rest
    match reader.read msg with
    | .ok value => (value :: values, rejected, effects)
    | .error (reason, error) =>
      (values, (index, reader.policy.rejection) :: rejected, reader.torn reason error ++ effects)

end Reader

/-! ## One element -/

/-- Settles one element; the follow-up of an outcome without an `.error` is detached afterwards. -/
def settleSlot (msg : M) (element : Element) : List (Effect M V E) :=
  .settle msg element ::
    match element with
    | .whole outcome => if outcome.error = none then outcome.after.toList.map .detach else []
    | .part _ _ => []

/-- Settles one delivery by a status alone. -/
def settleOutcome (msg : M) (status : HandlerResult) : Effect M V E :=
  .settle msg (.whole ⟨status, none, none⟩)

/-! ## A uniform outcome -/

/-- Where a uniform outcome's `.error` and follow-up are: shared by all elements of a heap build, riding
its last element where there is no `.error`, or, without an allocator, with the last element or with the
mount's fan, which counts the parts it handed out. -/
inductive Share where
  | gathered (next : ℕ)
  | last (after : Option FollowUp)
  | tail (rest : Option (Option FollowUp × Option Hook)) (parts : Option ℕ)

/-- A uniform outcome handed out element by element. -/
structure UniformFan where
  status : HandlerResult
  share : Share

namespace UniformFan

/-- Opens the fan of an outcome for so many elements. `fanned` says whether the mount gathers. -/
def begin (b : Build) (fanned : Bool) (outcome : HandlerOutcome) (elements : ℕ) :
    List (Effect M V E) × UniformFan :=
  match b, outcome.error with
  | .alloc, some error =>
    ([.gather error outcome.after elements], ⟨outcome.status, .gathered 0⟩)
  | .alloc, none => ([], ⟨outcome.status, .last outcome.after⟩)
  | .noAlloc, some error =>
    if fanned then
      ([.gather error outcome.after elements], ⟨outcome.status, .tail none (some 0)⟩)
    else ([], ⟨outcome.status, .tail (some (outcome.after, some error)) none⟩)
  | .noAlloc, none => ([], ⟨outcome.status, .tail (some (outcome.after, none)) none⟩)

/-- The hook as the one a uniform outcome shares between its elements. -/
def shared : Hook → Hook
  | .own closure _ => .own closure true
  | .part index => .part index

/-- The share of the next element. -/
def slot (fan : UniformFan) (isLast : Bool) : Element × UniformFan :=
  match fan.share with
  | .gathered next =>
    (.whole ⟨fan.status, some .sentPart, some (.part next)⟩, ⟨fan.status, .gathered (next + 1)⟩)
  | .last after =>
    if isLast then (.whole ⟨fan.status, after, none⟩, ⟨fan.status, .last none⟩)
    else (.whole ⟨fan.status, none, none⟩, fan)
  | .tail rest (some next) => (.part fan.status next, ⟨fan.status, .tail rest (some (next + 1))⟩)
  | .tail none none => (.whole ⟨fan.status, none, none⟩, fan)
  | .tail (some (after, error)) none =>
    if isLast then
      (.whole ⟨fan.status, after, error.map shared⟩, ⟨fan.status, .tail none none⟩)
    else (.whole ⟨fan.status, none, none⟩, fan)

theorem slot_status (fan : UniformFan) (isLast : Bool) :
    (fan.slot isLast).1.status = fan.status ∧ (fan.slot isLast).2.status = fan.status := by
  unfold slot
  split
  · exact ⟨rfl, rfl⟩
  · split_ifs <;> exact ⟨rfl, rfl⟩
  · exact ⟨rfl, rfl⟩
  · exact ⟨rfl, rfl⟩
  · split_ifs <;> exact ⟨rfl, rfl⟩

theorem begin_status (b : Build) (fanned : Bool) (outcome : HandlerOutcome) (elements : ℕ) :
    (begin (M := M) (V := V) (E := E) b fanned outcome elements).2.status = outcome.status := by
  unfold begin
  split
  · rfl
  · rfl
  · split_ifs <;> rfl
  · rfl

/-- Settles the deliveries by the fan, the last of them by its last share. -/
def settleAll : UniformFan → List M → List (Effect M V E)
  | _, [] => []
  | fan, msg :: rest =>
    let (element, fan) := fan.slot rest.isEmpty
    settleSlot msg element ++ fan.settleAll rest

end UniformFan

/-! ## Outcomes of their own -/

/-- Hands the `.error` a uniform outcome shares between its elements, which the last of them carries, to
the mount's fan. Only a build without an allocator has one. -/
def shareError (b : Build) (fanned : Bool) (outcomes : List HandlerOutcome) (elements : ℕ) :
    List (Effect M V E) × Option ℕ × List HandlerOutcome :=
  match b, fanned, outcomes.getLast? with
  | .noAlloc, true, some last =>
    match last.takeShared with
    | (some (error, after), stripped) =>
      ([.gather error after elements], some 0, outcomes.dropLast ++ [stripped])
    | (none, _) => ([], none, outcomes)
  | _, _, _ => ([], none, outcomes)

/-- Settles each delivery by the next outcome; one that has none is retried. -/
def settleEach : Option ℕ → List HandlerOutcome → List M → List (Effect M V E)
  | _, _, [] => []
  | parts, outcomes, msg :: rest =>
    let (element, parts) := Element.of (outcomes.headD .retry) parts
    settleSlot msg element ++ settleEach parts outcomes.tail rest

/-- Applies a result to the deliveries behind it. -/
def settleBatch (b : Build) (fanned : Bool) (accepted : List M) :
    BatchResult → List (Effect M V E)
  | .uniform outcome =>
    match outcome.error with
    | some _ =>
      let (begun, fan) := UniformFan.begin b fanned outcome accepted.length
      begun ++ fan.settleAll accepted
    | none =>
      accepted.map (fun msg => settleOutcome msg outcome.status) ++ outcome.after.toList.map .detach
  | .perElement outcomes =>
    let (begun, parts, outcomes) := shareError b fanned outcomes accepted.length
    begun ++ settleEach parts outcomes accepted

/-! ## A batch with its rejects still in it -/

/-- The outcomes of the accepted elements, in order. -/
inductive Settlements where
  | uniform (fan : UniformFan) (left : ℕ)
  | each (outcomes : List HandlerOutcome) (parts : Option ℕ)

namespace Settlements

/-- Opens the outcomes of a result for so many elements. -/
def begin (b : Build) (fanned : Bool) (elements : ℕ) :
    BatchResult → List (Effect M V E) × Settlements
  | .uniform outcome =>
    let (begun, fan) := UniformFan.begin b fanned outcome elements
    (begun, .uniform fan elements)
  | .perElement outcomes =>
    let (begun, parts, outcomes) := shareError b fanned outcomes elements
    (begun, .each outcomes parts)

/-- The next element's settlement, if there is one. -/
def next : Settlements → Option Element × Settlements
  | .uniform fan 0 => (none, .uniform fan 0)
  | .uniform fan (left + 1) =>
    let (element, fan) := fan.slot (left = 0)
    (some element, .uniform fan left)
  | .each [] parts => (none, .each [] parts)
  | .each (outcome :: outcomes) parts =>
    let (element, parts) := Element.of outcome parts
    (some element, .each outcomes parts)

end Settlements

/-- Settles the rejects a walk over the batch comes to, and keeps the rest. -/
def settleRejected : ℕ → List (ℕ × HandlerResult) → List M → List (Effect M V E) × List M
  | _, _, [] => ([], [])
  | index, rejected, msg :: rest =>
    match rejected.head?.filter fun peeked => peeked.1 = index with
    | some (_, outcome) =>
      let (effects, kept) := settleRejected (index + 1) rejected.tail rest
      (settleOutcome msg outcome :: effects, kept)
    | none =>
      let (effects, kept) := settleRejected (index + 1) rejected rest
      (effects, msg :: kept)

/-- Settles the batch in one walk: each reject by what was remembered of it, the rest by the outcomes. -/
def settleSplit : Settlements → ℕ → List (ℕ × HandlerResult) → List M → List (Effect M V E)
  | _, _, _, [] => []
  | outcomes, index, rejected, msg :: rest =>
    match rejected.head?.filter fun peeked => peeked.1 = index with
    | some (_, outcome) =>
      settleOutcome msg outcome :: settleSplit outcomes (index + 1) rejected.tail rest
    | none =>
      let (element, outcomes) := outcomes.next
      settleSlot msg (element.getD (.whole .retry)) ++ settleSplit outcomes (index + 1) rejected rest

/-! ## The two adapters -/

/-- The adapter that decodes with a codec. Its rejects are settled before the body runs. -/
def typedBatch (b : Build) (fanned : Bool) (reader : Reader M V E) (body : List V → BatchResult)
    (batch : List M) : List (Effect M V E) :=
  let (values, rejected, torn) := reader.decodeElements 0 batch
  let (settled, accepted) := if rejected = [] then ([], batch) else settleRejected 0 rejected batch
  torn ++ settled ++
    if accepted = [] then []
    else .body values :: settleBatch b fanned accepted (body values)

/-- The adapter whose values borrow their deliveries. Its rejects are settled after the body ran. -/
def deserializedBatch (b : Build) (fanned : Bool) (reader : Reader M V E)
    (body : List V → BatchResult) (batch : List M) : List (Effect M V E) :=
  if batch = [] then []
  else
    let (values, rejected, torn) := reader.decodeElements 0 batch
    let called := if values = [] then [] else [Effect.body values]
    let result := if values = [] then .perElement [] else body values
    torn ++ called ++
      if rejected = [] then settleBatch b fanned batch result
      else
        let (begun, outcomes) := Settlements.begin b fanned (batch.length - rejected.length) result
        begun ++ settleSplit outcomes 0 rejected batch

end Batch

end RustStream
