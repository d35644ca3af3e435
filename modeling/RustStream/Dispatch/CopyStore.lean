import RustStream.Dispatch.Redelivery

/-!
# The store of kept retry copies

A host that keeps its retry copies in place has a fixed number of records. A failing delivery takes
a free one, fills it with the copy, lets the mount's transforms prepare it, and then either arms it
for a later instant, sends it at once, or frees it because the settle it was taken for failed.
Without an allocator a record's buffers are fixed: a payload or destination that does not fit is
remembered, and the copy is refused when its turn comes.

## Main definitions

* `Reaction`, `Continuation`: what a handler registered beside its outcome and what runs of it.
* `Copy`: a copy as it is handed to a publisher.
* `CopyPublisher`: where the copies of a store leave and which transforms prepare them.
* `CopyStore`: the records, with `takeRecord`, `fill`, `prepare`, `arm`, `sendNow` and `free`.

## Main results

* `CopyStore.takeRecord_isSome_iff`: a record is taken exactly when one is free.
* `CopyStore.held_free_of_takeRecord`: a record taken, filled, prepared and freed leaves every
  record where it was.
-/

namespace RustStream

open List

/-! ## Publishing a copy -/

/-- Why a copy was not published. -/
inductive PublishError where
  /-- The publisher refused it. -/
  | refused (error : String)
  /-- Its bytes or its destination did not fit the fixed buffers. -/
  | bufferFull
  /-- It had to wait for its delay and every record was taken. -/
  | noFreeRecord (capacity : ℕ)
  deriving DecidableEq, Repr

/-- The result of a publish. -/
abbrev Sent := Except PublishError Unit

/-- What an outcome carries beside its result: the handler's own closure for a failed publish with
the follow-up registered beside it, or, for an element of a batch without an allocator, the index it
reports to the fan of the batch. -/
inductive Reaction : Build → Type where
  | whole {b : Build} (error : ℕ) (follow : Option ℕ) : Reaction b
  | part (index : ℕ) : Reaction .noAlloc

/-- What a delivery that made no publish owes its reaction. -/
inductive Unpublished where
  | follow (hook : Option ℕ)
  | part (index : ℕ)
  deriving DecidableEq, Repr

def Reaction.intoUnpublished : {b : Build} → Reaction b → Unpublished
  | _, .whole _ follow => .follow follow
  | _, .part index => .part index

/-- Work a settlement hands on: the handler's closure told of the failure, or its follow-up. -/
inductive Continuation where
  | error (hook : ℕ) (cause : PublishError)
  | follow (hook : ℕ)
  deriving DecidableEq, Repr

/-- What follows a publish. -/
inductive Aftermath where
  /-- Work to run beside the delivery, if any. -/
  | follow (work : Option Continuation)
  /-- The report of a batch element to its fan. -/
  | report (index : ℕ) (sent : Sent)
  /-- A warning that the message is lost. -/
  | lost (cause : PublishError)

variable {b : Build} {Options : Type}

/-- What a copy's publish makes of its result: the follow-up of a success, and for a failure the
handler's closure, or a log line and the loss of the message without one. -/
def copySent : Sent → Option (Reaction b) → Aftermath
  | sent, some (.part index) => .report index sent
  | .ok _, some (.whole _ follow) => .follow (follow.map .follow)
  | .ok _, none => .follow none
  | .error cause, some (.whole error _) => .follow (some (.error error cause))
  | .error cause, none => .lost cause

/-- A copy as it is handed to a publisher. -/
structure Copy (b : Build) (Options : Type) where
  destination : String
  payload : Bytes
  headers : Headers b
  options : Option Options

/-- The publisher of a store's copies: the address of a copy back to the subscription, the mount
site's transforms over a copy of a delivery, and the publish itself. -/
structure CopyPublisher (b : Build) (Options : Type) where
  address : String
  prepare : Message b → Copy b Options → Copy b Options
  publishCopy : Copy b Options → Sent

namespace CopyPublisher

/-- Runs the transforms over a copy. They read its destination and may change the rest. -/
def prepared (path : CopyPublisher b Options) (msg : Message b) (copy : Copy b Options) :
    Copy b Options :=
  { path.prepare msg copy with destination := copy.destination }

end CopyPublisher

/-! ## Records -/

/-- Where one record is in its life. -/
inductive Held where
  | free
  | taken
  | due (instant : ℕ)
  | sending
  deriving DecidableEq, Repr

/-- One copy: its bytes, headers and settings, where it is bound, and the reaction a failed publish
of it is handed to. -/
structure Record (b : Build) (Options : Type) where
  held : Held
  payload : Bytes
  headers : Headers b
  options : Option Options
  /-- Whether the bytes or the destination did not fit: the copy cannot leave. -/
  oversize : Bool
  destination : String
  toDestination : Bool
  reaction : Option (Reaction b)

/-- The room for a payload without an allocator. -/
def payloadCapacity : ℕ := 256

/-- The room for a destination without an allocator. -/
def destinationCapacity : ℕ := 64

/-- Whether a payload fits the buffer of the build. -/
def payloadFits : Build → Bytes → Bool
  | .alloc, _ => true
  | .noAlloc, payload => payload.length ≤ payloadCapacity

/-- Whether a destination fits the buffer of the build. -/
def destinationFits : Build → String → Bool
  | .alloc, _ => true
  | .noAlloc, destination => destination.utf8ByteSize ≤ destinationCapacity

/-- The empty header map. -/
def Headers.empty : {b : Build} → Headers b
  | .alloc => HeaderMap.new
  | .noAlloc => (FixedHeaders.new headerBytes_le : FixedHeaders headerEntries headerBytes)

namespace Record

/-- The record as `fill` leaves it. A payload past the buffer is not held at all. -/
def fill (record : Record b Options) (payload : Bytes) (headers : Headers b) : Record b Options :=
  { record with
    payload := if payloadFits b payload then payload else []
    oversize := !payloadFits b payload
    headers := headers
    options := none }

/-- The copy the record holds, bound for `destination`. -/
def copy (record : Record b Options) (destination : String) : Copy b Options :=
  ⟨destination, record.payload, record.headers, record.options⟩

/-- The record with the copy the transforms made of it. -/
def prepare (record : Record b Options) (path : CopyPublisher b Options) (msg : Message b)
    (destination : String) : Record b Options :=
  let copy := path.prepared msg (record.copy destination)
  { record with payload := copy.payload, headers := copy.headers, options := copy.options }

/-- The record bound for `destination`, or for the subscription without one. -/
def bind (record : Record b Options) (destination : Option String)
    (reaction : Option (Reaction b)) : Record b Options :=
  let bound := { record with reaction := reaction, toDestination := destination.isSome }
  match destination with
  | none => bound
  | some destination =>
    -- a destination past the room leaves the buffer empty
    { bound with
      destination := if destinationFits b destination then destination else ""
      oversize := bound.oversize || !destinationFits b destination }

/-- The record given back: its buffers emptied, free for the next copy. -/
def giveBack (record : Record b Options) : Record b Options :=
  { record with payload := [], toDestination := false, held := .free }

/-- The record after its copy was taken out to be sent, and given back. -/
def sent (record : Record b Options) : Record b Options :=
  { record with
    headers := Headers.empty, options := none, reaction := none, oversize := false }.giveBack

end Record

/-! ## The store -/

/-- The records of one registration. -/
structure CopyStore (b : Build) (Options : Type) where
  records : List (Record b Options)
  -- the reading of the clock
  now : ℕ
  -- whether the elements of a batch report to a fan of the mount
  fan : Bool

namespace CopyStore

/-- Where every record is. -/
def held (store : CopyStore b Options) : List Held :=
  store.records.map Record.held

/-- Changes the record at `index`. -/
def record (store : CopyStore b Options) (index : ℕ)
    (change : Record b Options → Record b Options) : CopyStore b Options :=
  { store with records := store.records.modify index change }

/-- Takes a free record for one copy; `none` when every record holds one. -/
def takeRecord (store : CopyStore b Options) : Option (ℕ × CopyStore b Options) :=
  match store.records.findIdx? fun record => record.held = .free with
  | some index => some (index, store.record index fun record => { record with held := .taken })
  | none => none

/-- Writes the copy into a taken record. -/
def fill (store : CopyStore b Options) (index : ℕ) (payload : Bytes) (headers : Headers b) :
    CopyStore b Options :=
  store.record index fun record => record.fill payload headers

/-- Runs the mount site's transforms over a filled record. -/
def prepare (store : CopyStore b Options) (path : CopyPublisher b Options) (index : ℕ)
    (destination : Option String) (msg : Message b) : CopyStore b Options :=
  store.record index fun record => record.prepare path msg (destination.getD path.address)

/-- Holds the copy until `delay` has passed. -/
def arm (store : CopyStore b Options) (index : ℕ) (delay : Duration)
    (reaction : Option (Reaction b)) : CopyStore b Options :=
  store.record index fun record =>
    { record with reaction := reaction, held := .due (store.now + delay) }

/-- Frees a record without publishing what it holds. -/
def free (store : CopyStore b Options) (index : ℕ) : CopyStore b Options :=
  store.record index fun record => { record with reaction := none, oversize := false }.giveBack

/-- Sends the copy a bound record holds: the copy, the result of the publish, and the store with
the record given back. A copy that did not fit is refused without reaching the publisher. -/
def send (store : CopyStore b Options) (path : CopyPublisher b Options) (index : ℕ) :
    Option (Copy b Options × Sent × CopyStore b Options) :=
  store.records[index]?.map fun record =>
    let copy := record.copy (if record.toDestination then record.destination else path.address)
    let sent := if record.oversize then .error .bufferFull else path.publishCopy copy
    (copy, sent, store.record index Record.sent)

/-- Publishes the copy in a record now, to `destination` or, without one, to the subscription. -/
def sendNow (store : CopyStore b Options) (path : CopyPublisher b Options) (index : ℕ)
    (destination : Option String) (reaction : Option (Reaction b)) :
    Option (Copy b Options × Sent × CopyStore b Options) :=
  (store.record index fun record => record.bind destination reaction).send path index

/-! Every operation changes one record, so what it does to the rest is said once, about `record`. -/

variable (store : CopyStore b Options)

theorem held_record (index : ℕ) {change : Record b Options → Record b Options}
    (h : ∀ r, store.records[index]? = some r → (change r).held = r.held) :
    (store.record index change).held = store.held := by
  refine ext_getElem? ?_
  intro i
  simp only [held, record, getElem?_map, getElem?_modify]
  by_cases hi : index = i
  · subst hi
    cases hr : store.records[index]? with
    | none => simp
    | some r => simp [h r hr]
  · simp [hi]

theorem record_record (index : ℕ) (change change' : Record b Options → Record b Options) :
    (store.record index change).record index change' = store.record index (change' ∘ change) := by
  simp [record, modify_modify_eq]

theorem getElem?_record (index : ℕ) (change : Record b Options → Record b Options) :
    (store.record index change).records[index]? = store.records[index]?.map change := by
  simp [record]

/-- A record is taken exactly when one is free. -/
theorem takeRecord_isSome_iff : store.takeRecord.isSome ↔ .free ∈ store.held := by
  unfold takeRecord
  cases hidx : store.records.findIdx? fun record => record.held = .free with
  | some index =>
    obtain ⟨hlt, hfree, -⟩ := findIdx?_eq_some_iff_getElem.mp hidx
    simp only [Option.isSome_some, true_iff, held]
    refine mem_map.mpr ⟨store.records[index], getElem_mem hlt, ?_⟩
    simpa using hfree
  | none =>
    rw [findIdx?_eq_none_iff] at hidx
    simp only [Option.isSome_none, Bool.false_eq_true, false_iff, held]
    intro hmem
    obtain ⟨record, hrecord, hfree⟩ := mem_map.mp hmem
    have := hidx record hrecord
    simp [hfree] at this

theorem takeRecord_eq_some {store store' : CopyStore b Options} {index : ℕ}
    (h : store.takeRecord = some (index, store')) :
    ∃ r, store.records[index]? = some r ∧ r.held = .free ∧
      store' = store.record index fun record => { record with held := .taken } := by
  unfold takeRecord at h
  cases hidx : store.records.findIdx? fun record => record.held = .free with
  | none => simp [hidx] at h
  | some i =>
    obtain ⟨hlt, hfree, -⟩ := findIdx?_eq_some_iff_getElem.mp hidx
    simp only [hidx, Option.some.injEq, Prod.mk.injEq] at h
    obtain ⟨rfl, rfl⟩ := h
    exact ⟨store.records[i], getElem?_eq_getElem hlt, by simpa using hfree, rfl⟩

/-- **A record given back.** Taken, filled, prepared and freed, the records are where they were. -/
theorem held_free_of_takeRecord {store store' : CopyStore b Options} {index : ℕ}
    (h : store.takeRecord = some (index, store')) (path : CopyPublisher b Options)
    (msg : Message b) (headers : Headers b) (destination : Option String) :
    (((store'.fill index msg.payload headers).prepare path index destination msg).free index).held
      = store.held := by
  obtain ⟨r, hr, hfree, rfl⟩ := takeRecord_eq_some h
  simp only [fill, prepare, free, record_record]
  refine held_record store index ?_
  intro r' hr'
  rw [hr] at hr'
  cases hr'
  -- the freed record is free, as it was when it was taken
  simp [Record.giveBack, hfree]

/-- The record as the settlement finds it once it is taken, filled and prepared. -/
theorem getElem?_prepared {store store' : CopyStore b Options} {index : ℕ}
    (h : store.takeRecord = some (index, store')) (path : CopyPublisher b Options)
    (msg : Message b) (headers : Headers b) (destination : Option String) :
    ∃ r, ((store'.fill index msg.payload headers).prepare path index destination msg).records[index]?
        = some ((Record.fill r msg.payload headers).prepare path msg
            (destination.getD path.address)) := by
  obtain ⟨r, hr, -, rfl⟩ := takeRecord_eq_some h
  refine ⟨{ r with held := .taken }, ?_⟩
  simp only [fill, prepare, record_record, getElem?_record, hr, Option.map_some,
    Function.comp_apply]

end CopyStore

/-- A copy that took no record because the store was full, prepared in a buffer of its own. -/
structure Spilled (b : Build) (Options : Type) where
  copy : Copy b Options
  oversize : Bool

/-- Prepares a copy in a buffer of its own. -/
def spill (path : CopyPublisher b Options) (payload : Bytes) (headers : Headers b)
    (destination : Option String) (msg : Message b) : Spilled b Options :=
  let held := if payloadFits b payload then payload else []
  { copy := path.prepared msg ⟨destination.getD path.address, held, headers, none⟩
    oversize := !payloadFits b payload }

/-- Publishes a spilled copy. -/
def Spilled.send (spilled : Spilled b Options) (path : CopyPublisher b Options) : Sent :=
  if spilled.oversize then .error .bufferFull else path.publishCopy spilled.copy

end RustStream
