import RustStream.Dispatch.CopyStore
import RustStream.Lib.Run

/-!
# The retry copies of an embedded registration

An embedded registration keeps its retry copies in a fixed number of records. A failing delivery takes a
free record, fills it, lets the transforms prepare it, and then arms it for a later instant, sends it
at once or frees it. A driver joined with the workers publishes what is due: it waits on one timer for the
earliest copy, looks at the records in order when it is polled, and ends once the store is closed and
every record is free. A record is used again and again, and each way through it overwrites some of its
fields only.

The system below has the store as it is, with what its futures hold while a publish is under way, and beside
it the life of each copy: the record it took, how far it got, and `fresh`, a record nobody used before
that went through the calls made for this copy and no others. What a copy leaves with is compared with that.
A worker calls as the contract of the store has it: it fills what it took before it prepares or hands it on,
and is done with a record once it armed, sent or freed it.

## Main definitions

* `takenOut`, `giveBack`: the two ends of a publish.
* `Life`, `State`, `step`: the copies, the store, and what the workers and the driver do.
* `Departure`: what left, and whether it reached the publisher.
* `handed`: what the calls made for one copy make of a record nobody used before.

## Main results

* `Same.fill`, `Same.prepare`, `Same.bind`: a record in use is in step with a fresh one.
* `moves_of_step`: what a step does.
-/

namespace RustStream

open List

namespace Embedded

variable {b : Build} {Options : Type} {cap : ℕ}

/-! ## A record through its life -/

/-- A copy on its way out: as the publisher is handed it, what its result is handed to, and whether it
reaches the publisher. One that did not fit its record is refused instead. -/
structure Departure (b : Build) (Options : Type) where
  copy : Copy b Options
  reaction : Option (Reaction b)
  published : Bool

/-- The record nobody used before. -/
def emptyRecord : Record b Options where
  held := .free
  payload := []
  headers := Headers.empty
  options := none
  oversize := false
  destination := ""
  toDestination := false
  reaction := none

/-- The record with its copy held until `due`. -/
def armRecord (record : Record b Options) (due : ℕ) (reaction : Option (Reaction b)) :
    Record b Options :=
  { record with reaction := reaction, held := .due due }

/-- What the record's copy leaves as, to `address` unless it is bound elsewhere. -/
def departure (address : String) (record : Record b Options) : Departure b Options where
  copy := record.copy (if record.toDestination then record.destination else address)
  reaction := record.reaction
  published := !record.oversize

/-- The record while its copy is being published: the copy, its reaction and the buffer of its
destination are with the future that publishes it. -/
def takenOut (record : Record b Options) : Record b Options :=
  { record with
    held := .sending, payload := [], headers := Headers.empty, options := none
    destination := if record.toDestination then "" else record.destination
    reaction := none, oversize := false }

/-- The record given back, with the buffer of the destination a publish had taken. -/
def giveBack (record : Record b Options) (destination : Option String) : Record b Options :=
  { record with
    payload := [], destination := destination.getD record.destination
    toDestination := false, held := .free }

/-- The record freed without a publish. -/
def freeRecord (record : Record b Options) : Record b Options :=
  giveBack { record with reaction := none, oversize := false } none

/-! ## The copies and the store -/

/-- How far a copy got. -/
inductive Stage where
  /-- Its record is taken. -/
  | taken
  /-- Its record is filled, and may have been prepared. -/
  | filled
  /-- It is to be sent at once; the future that sends it has not been polled. -/
  | bound
  /-- It waits for its instant. -/
  | armed (due : ℕ)
  /-- It is being published, by the driver or by its worker. -/
  | sending (byDriver : Bool)
  | departed
  | freed
  deriving DecidableEq, Repr

/-- The copy has its record. -/
def Stage.isLive : Stage → Bool
  | .departed => false
  | .freed => false
  | _ => true

/-- The copy was handed to be published. -/
def Stage.isGone : Stage → Bool
  | .sending _ => true
  | .departed => true
  | _ => false

/-- One copy. -/
structure Life (b : Build) (Options : Type) (cap : ℕ) where
  index : Fin cap
  stage : Stage
  /-- A record that had the calls made for this copy and no others. -/
  fresh : Record b Options
  /-- What it left as, with the clock the driver read when it found it due. -/
  left : Option (Departure b Options × Option ℕ)

/-- What the driver is at. -/
inductive Driver where
  /-- It waits for the next due copy, on a timer if it set one. -/
  | waiting (timer : Option ℕ)
  /-- It publishes the copy of a record. -/
  | sending (copy : ℕ)
  /-- It reports a publish. -/
  | reporting
  | ended
  deriving DecidableEq, Repr

/-- The store of one registration, its driver, and its copies. -/
structure State (b : Build) (Options : Type) (cap : ℕ) where
  records : Fin cap → Record b Options
  /-- The buffers of destinations that publishes took. -/
  lent : Fin cap → Option String
  /-- A record was armed since the driver last looked. -/
  armed : Bool
  closed : Bool
  driver : Driver
  /-- Which copy each record was taken for last. -/
  owner : Fin cap → ℕ
  lives : ℕ → Option (Life b Options cap)
  departures : List (ℕ × Departure b Options)

/-- What the workers and the driver do. -/
inductive Event (b : Build) where
  | take (copy : ℕ)
  | fill (copy : ℕ) (payload : Bytes) (headers : Headers b)
  | prepare (copy : ℕ) (destination : Option String) (msg : Message b)
  /-- Arms a record; `due` is the instant its delay ends at. -/
  | arm (copy : ℕ) (due : ℕ) (reaction : Option (Reaction b))
  | sendNow (copy : ℕ) (destination : Option String) (reaction : Option (Reaction b))
  /-- The future of `sendNow` is polled for the first time. -/
  | pollSend (copy : ℕ)
  /-- The publish of `sendNow` is done. -/
  | sent (copy : ℕ)
  | free (copy : ℕ)
  | close
  /-- The driver is polled while it waits: the clock it reads, whether the timer it waits on is ready,
  and whether a timer it sets is ready at once. -/
  | drive (now : ℕ) (fires early : Bool)
  /-- The publish of the driver is done. -/
  | driven
  /-- The driver has reported the publish. -/
  | reported

/-- The store as the registration opens it. -/
def start : State b Options cap where
  records _ := emptyRecord
  lent _ := none
  armed := false
  closed := false
  driver := .waiting none
  owner _ := 0
  lives _ := none
  departures := []

/-! ### What the driver sees -/

/-- The record is due by `now`. -/
def isDueBy (now : ℕ) : Held → Bool
  | .due instant => instant ≤ now
  | _ => false

/-- The instant a record is due at. -/
def dueAt : Held → Option ℕ
  | .due instant => some instant
  | _ => none

/-- The record is in use and not waiting for its instant. -/
def isBusy : Held → Bool
  | .taken => true
  | .sending => true
  | _ => false

namespace State

/-- The first record that is free. -/
def firstFree (s : State b Options cap) : Option (Fin cap) :=
  (List.finRange cap).find? fun i => (s.records i).held = .free

/-- The first record that is due by `now`. -/
def firstDue (s : State b Options cap) (now : ℕ) : Option (Fin cap) :=
  (List.finRange cap).find? fun i => isDueBy now (s.records i).held

/-- The earliest instant a record is due at. -/
def earliest (s : State b Options cap) : Option ℕ :=
  ((List.finRange cap).filterMap fun i => dueAt (s.records i).held).min?

/-- Some record is in use and not waiting for its instant. -/
def busy (s : State b Options cap) : Bool :=
  (List.finRange cap).any fun i => isBusy (s.records i).held

/-- Changes the record of a copy, and the copy. -/
def put (s : State b Options cap) (copy : ℕ) (life : Life b Options cap)
    (record : Record b Options) : State b Options cap :=
  { s with
    records := Function.update s.records life.index record
    lives := Function.update s.lives copy (some life) }

/-- Takes the copy out of a record to publish it. -/
def depart (s : State b Options cap) (address : String) (copy : ℕ) (life : Life b Options cap)
    (byDriver : Bool) (now : Option ℕ) : State b Options cap :=
  let record := s.records life.index
  let leaving := departure address record
  { s.put copy { life with stage := .sending byDriver, left := some (leaving, now) }
      (takenOut record) with
    lent := Function.update s.lent life.index
      (if record.toDestination then some record.destination else none)
    departures := s.departures ++ [(copy, leaving)] }

/-- Gives the record back after a publish. -/
def land (s : State b Options cap) (copy : ℕ) (life : Life b Options cap) : State b Options cap :=
  s.put copy { life with stage := .departed }
    (giveBack (s.records life.index) (s.lent life.index))

/-- The driver looks at the records. -/
def scan (s : State b Options cap) (address : String) (now : ℕ) (early : Bool) :
    State b Options cap :=
  match s.firstDue now with
  | some i =>
    match s.lives (s.owner i) with
    | some life =>
      { s.depart address (s.owner i) life true (some now) with driver := .sending (s.owner i) }
    | none => s
  | none =>
    match s.earliest with
    | some instant => { s with driver := .waiting (if early then none else some instant) }
    | none => { s with driver := if s.closed && !s.busy then .ended else .waiting none }

/-- One poll of the driver while it waits on `timer`. -/
def pollDriver (s : State b Options cap) (address : String) (timer : Option ℕ) (now : ℕ)
    (fires early : Bool) : State b Options cap :=
  -- a new copy may be due before the one the timer waits for
  let timer := if s.armed then none else timer
  let s := { s with armed := false }
  if timer.isSome && !fires then { s with driver := .waiting timer }
  else { s with driver := .waiting none }.scan address now early

end State

variable (path : CopyPublisher b Options)

/-- One step of the workers or the driver. -/
def step (s : State b Options cap) : Event b → Option (State b Options cap)
  | .take copy =>
    match s.lives copy, s.firstFree with
    | none, some i =>
      some { s.put copy ⟨i, .taken, emptyRecord, none⟩ { s.records i with held := .taken } with
        owner := Function.update s.owner i copy }
    | none, none => some s
    | some _, _ => none
  | .fill copy payload headers =>
    (s.lives copy).bind fun life =>
      if life.stage = .taken ∨ life.stage = .filled then
        some (s.put copy { life with stage := .filled, fresh := life.fresh.fill payload headers }
          ((s.records life.index).fill payload headers))
      else none
  | .prepare copy destination msg =>
    (s.lives copy).bind fun life =>
      if life.stage = .filled then
        let destination := destination.getD path.address
        some (s.put copy { life with fresh := life.fresh.prepare path msg destination }
          ((s.records life.index).prepare path msg destination))
      else none
  | .arm copy due reaction =>
    (s.lives copy).bind fun life =>
      if life.stage = .filled then
        some { s.put copy
            { life with stage := .armed due, fresh := armRecord life.fresh due reaction }
            (armRecord (s.records life.index) due reaction) with
          armed := true }
      else none
  | .sendNow copy destination reaction =>
    (s.lives copy).bind fun life =>
      if life.stage = .filled then
        some (s.put copy { life with stage := .bound, fresh := life.fresh.bind destination reaction }
          ((s.records life.index).bind destination reaction))
      else none
  | .pollSend copy =>
    (s.lives copy).bind fun life =>
      if life.stage = .bound then some (s.depart path.address copy life false none) else none
  | .sent copy =>
    (s.lives copy).bind fun life =>
      if life.stage = .sending false then some (s.land copy life) else none
  | .free copy =>
    (s.lives copy).bind fun life =>
      if life.stage = .taken ∨ life.stage = .filled then
        some (s.put copy { life with stage := .freed } (freeRecord (s.records life.index)))
      else none
  | .close => some { s with closed := true }
  | .drive now fires early =>
    match s.driver with
    | .waiting timer => some (s.pollDriver path.address timer now fires early)
    | _ => none
  | .driven =>
    match s.driver with
    | .sending copy =>
      (s.lives copy).map fun life => { s.land copy life with driver := .reporting }
    | _ => none
  | .reported =>
    match s.driver with
    | .reporting => some { s with driver := .waiting none }
    | _ => none

/-- A record that is told an event of a copy, if the event is of that copy. -/
def hear (copy : ℕ) (record : Record b Options) : Event b → Record b Options
  | .fill copy' payload headers => if copy' = copy then record.fill payload headers else record
  | .prepare copy' destination msg =>
    if copy' = copy then record.prepare path msg (destination.getD path.address) else record
  | .arm copy' due reaction => if copy' = copy then armRecord record due reaction else record
  | .sendNow copy' destination reaction =>
    if copy' = copy then record.bind destination reaction else record
  | _ => record

/-- What the calls made for one copy make of a record nobody used before. -/
def handed (copy : ℕ) (events : List (Event b)) : Record b Options :=
  events.foldl (hear path copy) emptyRecord

/-! ## A record in use and a fresh one -/

/-- A record and a fresh one hold the same copy, bound for the same place. -/
structure Same (record fresh : Record b Options) : Prop where
  payload : record.payload = fresh.payload
  headers : record.headers = fresh.headers
  options : record.options = fresh.options
  oversize : record.oversize = fresh.oversize
  toDestination : record.toDestination = fresh.toDestination
  destination : record.toDestination = true → record.destination = fresh.destination

section Same

variable {record fresh : Record b Options}

theorem Same.copy_eq (h : Same record fresh) (destination : String) :
    record.copy destination = fresh.copy destination := by
  rw [Record.copy, Record.copy, h.payload, h.headers, h.options]

/-- Filling leaves nothing of what was in the record before. -/
theorem Same.fill (hrecord : record.toDestination = false) (hfresh : fresh.toDestination = false)
    (payload : Bytes) (headers : Headers b) :
    Same (record.fill payload headers) (fresh.fill payload headers) where
  payload := rfl
  headers := rfl
  options := rfl
  oversize := rfl
  toDestination := hrecord.trans hfresh.symm
  destination h := absurd (hrecord.symm.trans h) Bool.false_ne_true

theorem Same.prepare (h : Same record fresh) (path : CopyPublisher b Options) (msg : Message b)
    (destination : String) :
    Same (record.prepare path msg destination) (fresh.prepare path msg destination) := by
  unfold Record.prepare
  rw [h.copy_eq]
  exact ⟨rfl, rfl, rfl, h.oversize, h.toDestination, h.destination⟩

/-- Binding a record leaves nothing of the destination it was bound for before. -/
theorem Same.bind (h : Same record fresh) (destination : Option String)
    (reaction : Option (Reaction b)) :
    Same (record.bind destination reaction) (fresh.bind destination reaction) := by
  cases destination with
  | none =>
    exact ⟨h.payload, h.headers, h.options, h.oversize, rfl,
      fun hbound => absurd hbound Bool.false_ne_true⟩
  | some destination =>
    refine ⟨h.payload, h.headers, h.options, ?_, rfl, fun _ => rfl⟩
    unfold Record.bind
    dsimp only
    rw [h.oversize]

theorem reaction_bind (record : Record b Options) (destination : Option String)
    (reaction : Option (Reaction b)) : (record.bind destination reaction).reaction = reaction := by
  cases destination <;> rfl

theorem held_bind (record : Record b Options) (destination : Option String)
    (reaction : Option (Reaction b)) : (record.bind destination reaction).held = record.held := by
  cases destination <;> rfl

/-- The record's copy leaves as that of the fresh one. -/
theorem Same.departure_eq (h : Same record fresh) (hreaction : record.reaction = fresh.reaction)
    (address : String) : departure address record = departure address fresh := by
  have htarget : (if record.toDestination then record.destination else address) =
      if fresh.toDestination then fresh.destination else address := by
    rw [← h.toDestination]
    split_ifs with hbound
    · exact h.destination hbound
    · rfl
  rw [departure, departure, htarget, h.copy_eq, hreaction, h.oversize]

end Same

/-! ## What a step does -/

section Moves

variable {path : CopyPublisher b Options} {s t : State b Options cap}

theorem State.held_of_firstFree {i : Fin cap} (h : s.firstFree = some i) :
    (s.records i).held = .free := by
  have hfound := find?_some h
  exact of_decide_eq_true hfound

theorem isDueBy_iff {now : ℕ} {held : Held} :
    isDueBy now held = true ↔ ∃ due, held = .due due ∧ due ≤ now := by
  cases held <;> simp [isDueBy]

theorem State.isDue_of_firstDue {now : ℕ} {i : Fin cap} (h : s.firstDue now = some i) :
    ∃ due, (s.records i).held = .due due ∧ due ≤ now := by
  have hfound := find?_some h
  exact isDueBy_iff.mp hfound

theorem State.not_due_of_firstDue {now : ℕ} (h : s.firstDue now = none) (i : Fin cap) {due : ℕ}
    (hheld : (s.records i).held = .due due) : now < due := by
  have hnone := find?_eq_none.mp h i (mem_finRange i)
  rw [isDueBy_iff] at hnone
  by_contra hle
  exact hnone ⟨due, hheld, Nat.le_of_not_lt hle⟩

theorem State.earliest_le {instant : ℕ} (h : s.earliest = some instant) (i : Fin cap) {due : ℕ}
    (hheld : (s.records i).held = .due due) : instant ≤ due := by
  refine (min?_eq_some_iff.mp h).2 due (mem_filterMap.mpr ⟨i, mem_finRange i, ?_⟩)
  rw [hheld]
  rfl

/-- What the driver does when it looks at the records. -/
theorem State.scan_cases (s : State b Options cap) (address : String) (now : ℕ) (early : Bool) :
    (∃ i life, s.firstDue now = some i ∧ s.lives (s.owner i) = some life ∧
      s.scan address now early =
        { s.depart address (s.owner i) life true (some now) with driver := .sending (s.owner i) }) ∨
    (∃ i, s.firstDue now = some i ∧ s.lives (s.owner i) = none ∧ s.scan address now early = s) ∨
    (∃ instant, s.firstDue now = none ∧ s.earliest = some instant ∧
      s.scan address now early =
        { s with driver := .waiting (if early then none else some instant) }) ∨
    (s.firstDue now = none ∧ s.earliest = none ∧ s.closed = true ∧ s.busy = false ∧
      s.scan address now early = { s with driver := .ended }) ∨
    (s.firstDue now = none ∧ s.earliest = none ∧
      s.scan address now early = { s with driver := .waiting none }) := by
  unfold State.scan
  cases hfirst : s.firstDue now with
  | some i =>
    cases hlife : s.lives (s.owner i) with
    | some life => exact Or.inl ⟨i, life, rfl, hlife, by simp only [hlife]⟩
    | none => exact Or.inr (Or.inl ⟨i, rfl, hlife, by simp only [hlife]⟩)
  | none =>
    cases hearliest : s.earliest with
    | some instant => exact Or.inr (Or.inr (Or.inl ⟨instant, rfl, rfl, rfl⟩))
    | none =>
      cases hclosed : s.closed <;> cases hbusy : s.busy
      · exact Or.inr (Or.inr (Or.inr (Or.inr ⟨rfl, rfl, rfl⟩)))
      · exact Or.inr (Or.inr (Or.inr (Or.inr ⟨rfl, rfl, rfl⟩)))
      · exact Or.inr (Or.inr (Or.inr (Or.inl ⟨rfl, rfl, rfl, rfl, rfl⟩)))
      · exact Or.inr (Or.inr (Or.inr (Or.inr ⟨rfl, rfl, rfl⟩)))

/-- What a poll of the driver does: it goes on waiting for its timer, or looks at the records. -/
theorem State.pollDriver_cases (s : State b Options cap) (address : String) (timer : Option ℕ)
    (now : ℕ) (fires early : Bool) :
    (s.armed = false ∧ fires = false ∧ timer.isSome = true ∧
      s.pollDriver address timer now fires early =
        { s with armed := false, driver := .waiting timer }) ∨
    s.pollDriver address timer now fires early =
      State.scan { s with armed := false, driver := .waiting none } address now early := by
  unfold State.pollDriver
  cases harmed : s.armed with
  | true => exact Or.inr rfl
  | false =>
    cases timer with
    | none => exact Or.inr rfl
    | some instant =>
      cases fires with
      | true => exact Or.inr rfl
      | false => exact Or.inl ⟨rfl, rfl, rfl, rfl⟩

/-- A step for one copy finds the copy and its stage. -/
theorem life_of_bind {c : ℕ} {P : Life b Options cap → Prop} [DecidablePred P]
    {f : Life b Options cap → State b Options cap}
    (h : ((s.lives c).bind fun life => if P life then some (f life) else none) = some t) :
    ∃ life, s.lives c = some life ∧ P life ∧ t = f life := by
  obtain ⟨life, hlife, hstep⟩ := Option.bind_eq_some_iff.mp h
  by_cases hP : P life
  · rw [if_pos hP] at hstep
    exact ⟨life, hlife, hP, (Option.some.inj hstep).symm⟩
  · rw [if_neg hP] at hstep
    cases hstep

/-- What a step does, event by event. -/
inductive Moves (path : CopyPublisher b Options) (s : State b Options cap) :
    Event b → State b Options cap → Prop
  | full {c : ℕ} : Moves path s (.take c) s
  | take {c : ℕ} {i : Fin cap} (hc : s.lives c = none) (hfirst : s.firstFree = some i) :
    Moves path s (.take c)
      { s.put c ⟨i, .taken, emptyRecord, none⟩ { s.records i with held := .taken } with
        owner := Function.update s.owner i c }
  | fill {c : ℕ} {payload : Bytes} {headers : Headers b} {life : Life b Options cap}
      (hc : s.lives c = some life) (hstage : life.stage = .taken ∨ life.stage = .filled) :
    Moves path s (.fill c payload headers)
      (s.put c { life with stage := .filled, fresh := life.fresh.fill payload headers }
        ((s.records life.index).fill payload headers))
  | prepare {c : ℕ} {destination : Option String} {msg : Message b} {life : Life b Options cap}
      (hc : s.lives c = some life) (hstage : life.stage = .filled) :
    Moves path s (.prepare c destination msg)
      (s.put c { life with fresh := life.fresh.prepare path msg (destination.getD path.address) }
        ((s.records life.index).prepare path msg (destination.getD path.address)))
  | arm {c due : ℕ} {reaction : Option (Reaction b)} {life : Life b Options cap}
      (hc : s.lives c = some life) (hstage : life.stage = .filled) :
    Moves path s (.arm c due reaction)
      { s.put c { life with stage := .armed due, fresh := armRecord life.fresh due reaction }
          (armRecord (s.records life.index) due reaction) with
        armed := true }
  | sendNow {c : ℕ} {destination : Option String} {reaction : Option (Reaction b)}
      {life : Life b Options cap} (hc : s.lives c = some life) (hstage : life.stage = .filled) :
    Moves path s (.sendNow c destination reaction)
      (s.put c { life with stage := .bound, fresh := life.fresh.bind destination reaction }
        ((s.records life.index).bind destination reaction))
  | pollSend {c : ℕ} {life : Life b Options cap} (hc : s.lives c = some life)
      (hstage : life.stage = .bound) :
    Moves path s (.pollSend c) (s.depart path.address c life false none)
  | sent {c : ℕ} {life : Life b Options cap} (hc : s.lives c = some life)
      (hstage : life.stage = .sending false) : Moves path s (.sent c) (s.land c life)
  | free {c : ℕ} {life : Life b Options cap} (hc : s.lives c = some life)
      (hstage : life.stage = .taken ∨ life.stage = .filled) :
    Moves path s (.free c)
      (s.put c { life with stage := .freed } (freeRecord (s.records life.index)))
  | close : Moves path s .close { s with closed := true }
  | drive {timer : Option ℕ} {now : ℕ} {fires early : Bool} (hdriver : s.driver = .waiting timer) :
    Moves path s (.drive now fires early) (s.pollDriver path.address timer now fires early)
  | driven {c : ℕ} {life : Life b Options cap} (hdriver : s.driver = .sending c)
      (hc : s.lives c = some life) : Moves path s .driven { s.land c life with driver := .reporting }
  | reported (hdriver : s.driver = .reporting) :
    Moves path s .reported { s with driver := .waiting none }

theorem moves_of_step {event : Event b} (hstep : step path s event = some t) :
    Moves path s event t := by
  cases event with
  | take c =>
    cases hc : s.lives c with
    | some life => simp only [step, hc, reduceCtorEq] at hstep
    | none =>
      cases hfirst : s.firstFree with
      | none =>
        simp only [step, hc, hfirst, Option.some.injEq] at hstep
        exact hstep ▸ .full
      | some i =>
        simp only [step, hc, hfirst, Option.some.injEq] at hstep
        exact hstep ▸ .take hc hfirst
  | fill c payload headers =>
    obtain ⟨life, hlife, hstage, rfl⟩ := life_of_bind hstep
    exact .fill hlife hstage
  | prepare c destination msg =>
    obtain ⟨life, hlife, hstage, rfl⟩ := life_of_bind hstep
    exact .prepare hlife hstage
  | arm c due reaction =>
    obtain ⟨life, hlife, hstage, rfl⟩ := life_of_bind hstep
    exact .arm hlife hstage
  | sendNow c destination reaction =>
    obtain ⟨life, hlife, hstage, rfl⟩ := life_of_bind hstep
    exact .sendNow hlife hstage
  | pollSend c =>
    obtain ⟨life, hlife, hstage, rfl⟩ := life_of_bind hstep
    exact .pollSend hlife hstage
  | sent c =>
    obtain ⟨life, hlife, hstage, rfl⟩ := life_of_bind hstep
    exact .sent hlife hstage
  | free c =>
    obtain ⟨life, hlife, hstage, rfl⟩ := life_of_bind hstep
    exact .free hlife hstage
  | close =>
    cases hstep
    exact .close
  | drive now fires early =>
    cases hdriver : s.driver with
    | waiting timer =>
      simp only [step, hdriver, Option.some.injEq] at hstep
      exact hstep ▸ .drive hdriver
    | sending c | reporting | ended => simp only [step, hdriver, reduceCtorEq] at hstep
  | driven =>
    cases hdriver : s.driver with
    | sending c =>
      simp only [step, hdriver] at hstep
      obtain ⟨life, hlife, rfl⟩ := Option.map_eq_some_iff.mp hstep
      exact .driven hdriver hlife
    | waiting timer | reporting | ended => simp only [step, hdriver, reduceCtorEq] at hstep
  | reported =>
    cases hdriver : s.driver with
    | reporting =>
      simp only [step, hdriver, Option.some.injEq] at hstep
      exact hstep ▸ .reported hdriver
    | sending c | waiting timer | ended => simp only [step, hdriver, reduceCtorEq] at hstep

end Moves

end Embedded

end RustStream
