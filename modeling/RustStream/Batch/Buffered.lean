import RustStream.Dispatch.Redelivery

/-!
# Batches assembled on the client

A transport that delivers one message at a time gets its batches on the client: the wrapped stream is
pulled into a slot until the slot holds the batch size, the stream fails or ends, or the stream has nothing
ready and the deadline that opened with the first delivery has passed. An error or an end met while a
batch is open cannot be reported then, since the batch goes out first; it is carried to the next poll.

The batch being filled is in the slot the runtime lends, the rest of the state in `Filling`, so a
poll that was given up loses nothing and the next one goes on. A run is therefore a list of polls, each with
its clock readings and with what its timer said; the wrapped stream is the list of its answers.

## Main definitions

* `Item`, `Filling`: what the wrapped stream yields, and the state of the batch stream.
* `pollFill`: one poll of the batch stream.
* `State.poll`, `run`: the runtime that polls it and takes the batches.

## Main results

* `fill_fills`: what one pass over the ready deliveries does.
* `State.Sound.poll`: one poll keeps the reports in step with the wrapped stream.
* `batching_is_faithful`: reports are the wrapped stream's items, in every run.
-/

namespace RustStream

open List

namespace Buffered

/-- A point in time. -/
abbrev Instant := ℕ

/-- What the wrapped stream yields. -/
inductive Item (M E : Type) where
  | delivery (msg : M)
  | error (error : E)
  | ended
  deriving DecidableEq, Repr

/-- The answers of the wrapped stream to the polls that are still to come, nothing for one that is not
ready. It is not ready again once they are used up. -/
abbrev Script (M E : Type) := List (Option (Item M E))

/-- What interrupted filling a batch; resolved on the next fill. -/
inductive Carry (E : Type) where
  | nothing
  | error (error : E)
  | ended
  deriving DecidableEq, Repr

/-- Why a batch closed. -/
inductive Closing (E : Type) where
  | full
  | interrupted (carry : Carry E)
  | expired
  deriving DecidableEq, Repr

/-- What a poll answers. -/
inductive Answer (E : Type) where
  | pending
  | batch (closing : Closing E)
  | error (error : E)
  | ended

/-- The batch stream. -/
structure Filling (M E : Type) where
  stream : Script M E
  size : ℕ
  maxWait : Duration
  /-- When the timer is due, once it was armed. -/
  deadline : Option Instant
  isOpen : Bool
  carry : Carry E
  size_pos : 0 < size

/-- What a poll meets: the clock when it opens a batch, the clock when it looks at the timer, and whether
the timer, if it is due by then, says so. -/
structure Poll where
  opening : Instant
  now : Instant
  fires : Bool

variable {M E : Type}

/-- What the loop over the ready deliveries leaves: the slot, the rest of the stream and, where it closed
the batch, why. -/
structure Filled (M E : Type) where
  slot : List M
  stream : Script M E
  closing : Option (Closing E)

/-- The loop over the ready deliveries. `expired` says whether the deadline has passed. -/
def fill (size : ℕ) (expired : Bool) : List M → Script M E → Filled M E
  | slot, [] =>
    if slot.length < size then ⟨slot, [], if expired then some .expired else none⟩
    else ⟨slot, [], some .full⟩
  | slot, answer :: rest =>
    if slot.length < size then
      match answer with
      | some (.delivery next) => fill size expired (slot ++ [next]) rest
      | some (.error err) => ⟨slot, rest, some (.interrupted (.error err))⟩
      | some .ended => ⟨slot, rest, some (.interrupted .ended)⟩
      | none => ⟨slot, rest, if expired then some .expired else none⟩
    else ⟨slot, answer :: rest, some .full⟩

/-- What a batch closed by is carried to the next poll. -/
def Closing.carry : Closing E → Carry E
  | .interrupted carry => carry
  | _ => .nothing

namespace Filling

/-- The timer says that the deadline has passed. -/
def expired (filling : Filling M E) (p : Poll) : Bool :=
  filling.deadline.any fun due => p.fires && due ≤ p.now

/-- A poll with a batch open. -/
def fillOpen (filling : Filling M E) (slot : List M) (p : Poll) :
    Answer E × Filling M E × List M :=
  let filled := fill filling.size (filling.expired p) slot filling.stream
  match filled.closing with
  | none => (.pending, { filling with stream := filled.stream }, filled.slot)
  | some closing =>
    (.batch closing,
      { filling with stream := filled.stream, carry := closing.carry, isOpen := false }, filled.slot)

/-- The first delivery opens a batch, and arms the timer if the batch has room for another. -/
def opened (filling : Filling M E) (rest : Script M E) (p : Poll) : Filling M E :=
  { filling with
    stream := rest
    isOpen := true
    deadline := if 1 < filling.size then some (p.opening + filling.maxWait) else filling.deadline }

/-- One poll of the batch stream. -/
def pollFill (filling : Filling M E) (slot : List M) (p : Poll) : Answer E × Filling M E × List M :=
  match filling.carry with
  | .error err => (.error err, { filling with carry := .nothing }, slot)
  | .ended => (.ended, { filling with carry := .nothing }, slot)
  | .nothing =>
    if filling.isOpen then filling.fillOpen slot p
    else
      match filling.stream with
      | [] => (.pending, filling, slot)
      | none :: rest => (.pending, { filling with stream := rest }, slot)
      | some .ended :: rest => (.ended, { filling with stream := rest }, slot)
      | some (.error err) :: rest => (.error err, { filling with stream := rest }, slot)
      | some (.delivery first) :: rest => (filling.opened rest p).fillOpen (slot ++ [first]) p

end Filling

/-! ## The runtime -/

/-- What the batch stream reported. A batch is kept with why it closed, when it was opened and when it
closed. -/
inductive Report (M E : Type) where
  | batch (msgs : List M) (closing : Closing E) (opened now : Instant)
  | error (error : E)
  | ended
  deriving DecidableEq, Repr

/-- The batch stream with its slot, and what it reported. -/
structure State (M E : Type) where
  filling : Filling M E
  slot : List M
  /-- The clock when the batch in the slot was opened. -/
  openedAt : Instant
  reports : List (Report M E)

/-- The runtime polls with the slot it lent before, and takes a batch out of it. -/
def State.poll (s : State M E) (p : Poll) : State M E :=
  let openedAt := if s.filling.isOpen then s.openedAt else p.opening
  let (answer, filling, slot) := s.filling.pollFill s.slot p
  match answer with
  | .pending => ⟨filling, slot, openedAt, s.reports⟩
  | .batch closing => ⟨filling, [], openedAt, s.reports ++ [.batch slot closing openedAt p.now]⟩
  | .error err => ⟨filling, slot, openedAt, s.reports ++ [.error err]⟩
  | .ended => ⟨filling, slot, openedAt, s.reports ++ [.ended]⟩

/-- The batch stream as the subscription opens it. -/
def start (size : ℕ) (hsize : 0 < size) (maxWait : Duration) (script : Script M E) : State M E :=
  ⟨⟨script, size, maxWait, none, false, .nothing, hsize⟩, [], 0, []⟩

/-- The polls one after the other. -/
def run (s : State M E) (polls : List Poll) : State M E := polls.foldl State.poll s

/-! ## What the reports say -/

/-- What the wrapped stream yielded. -/
def items (script : Script M E) : List (Item M E) := script.filterMap id

/-- A report with its batch replaced by its deliveries. -/
def Report.items : Report M E → List (Item M E)
  | .batch msgs _ _ _ => msgs.map .delivery
  | .error err => [.error err]
  | .ended => [.ended]

/-- The report a carried interruption is owed. -/
def Carry.report : Carry E → Option (Report M E)
  | .nothing => none
  | .error err => some (.error err)
  | .ended => some .ended

/-- A batch is neither empty nor over its size; one that did not reach it closed at an error or an end,
or after its deadline. -/
def Report.Valid (size : ℕ) (maxWait : Duration) : Report M E → Prop
  | .batch msgs closing opened now =>
    msgs ≠ [] ∧ msgs.length ≤ size ∧
      match closing with
      | .full => msgs.length = size
      | .interrupted carry => carry ≠ .nothing
      | .expired => opened + maxWait ≤ now
  | _ => True

/-- A batch that closed at an error or an end is followed by the report of it. -/
def Resolved : List (Report M E) → Prop
  | [] => True
  | .batch _ (.interrupted carry) _ _ :: rest =>
    carry ≠ .nothing ∧ rest.head? = carry.report ∧ Resolved rest
  | _ :: rest => Resolved rest

/-- What a carried interruption was. -/
def Carry.items : Carry E → List (Item M E)
  | .nothing => []
  | .error err => [.error err]
  | .ended => [.ended]

section Lists

@[simp] theorem items_nil : items ([] : Script M E) = [] := rfl

@[simp] theorem items_append (xs ys : Script M E) : items (xs ++ ys) = items xs ++ items ys :=
  filterMap_append

@[simp] theorem items_none (rest : Script M E) : items (none :: rest) = items rest := rfl

@[simp] theorem items_some (item : Item M E) (rest : Script M E) :
    items (some item :: rest) = item :: items rest := rfl

theorem resolved_append {xs ys : List (Report M E)} (hxs : Resolved xs) (hys : Resolved ys) :
    Resolved (xs ++ ys) := by
  induction xs with
  | nil => exact hys
  | cons report rest ih =>
    cases report with
    | batch msgs closing opened now =>
      cases closing with
      | interrupted carry =>
        obtain ⟨hcarry, hnext, hrest⟩ := hxs
        refine ⟨hcarry, ?_, ih hrest⟩
        -- What the batch is owed is in the rest already.
        cases rest with
        | nil =>
          cases carry with
          | nothing => exact absurd rfl hcarry
          | error err => cases hnext
          | ended => cases hnext
        | cons next later => exact hnext
      | full => exact ih hxs
      | expired => exact ih hxs
    | error err => exact ih hxs
    | ended => exact ih hxs

end Lists

/-! ## One pass over the ready deliveries -/

/-- Why a pass ended with so many deliveries in the slot. -/
def Explained (size : ℕ) (expired : Bool) (length : ℕ) : Option (Closing E) → Prop
  | none => length < size
  | some .full => length = size
  | some (.interrupted carry) => carry ≠ .nothing ∧ length < size
  | some .expired => expired = true ∧ length < size

/-- What one pass does. What it takes off the stream is in the slot afterwards, but for what interrupted
it, and it takes something as long as there is room and something to take. -/
structure Fills (size : ℕ) (expired : Bool) (slot : List M) (stream : Script M E)
    (filled : Filled M E) : Prop where
  told : ∃ taken new, stream = taken ++ filled.stream ∧ filled.slot = slot ++ new ∧
    items taken = new.map Item.delivery ++ (filled.closing.elim .nothing Closing.carry).items ∧
      (slot.length < size → stream ≠ [] → taken ≠ [])
  why : Explained size expired filled.slot.length filled.closing

variable {size : ℕ} {expired : Bool} {slot : List M} {answer : Option (Item M E)}
  {rest stream : Script M E} {closing : Option (Closing E)}

theorem Explained.le {length : ℕ} (h : Explained size expired length closing) : length ≤ size := by
  cases closing with
  | none => exact le_of_lt h
  | some closing =>
    cases closing with
    | full => exact le_of_eq h
    | interrupted carry => exact le_of_lt h.2
    | expired => exact le_of_lt h.2

/-- A pass that ends with the next answer. -/
theorem fills_of_last (hitems : items [answer] = (closing.elim .nothing Closing.carry).items)
    (hwhy : Explained size expired slot.length closing) :
    Fills size expired slot (answer :: rest) ⟨slot, rest, closing⟩ :=
  ⟨⟨[answer], [], rfl, (append_nil slot).symm, hitems, fun _ _ => cons_ne_nil _ _⟩, hwhy⟩

theorem explained_pending (hroom : slot.length < size) :
    Explained (E := E) size expired slot.length (if expired then some .expired else none) := by
  cases expired with
  | false => exact hroom
  | true => exact ⟨rfl, hroom⟩

theorem items_pending :
    (((if expired then some Closing.expired else none).elim .nothing Closing.carry : Carry E).items :
      List (Item M E)) = [] := by
  cases expired <;> rfl

theorem fills_full (h : slot.length = size) :
    Fills size expired slot stream ⟨slot, stream, some .full⟩ :=
  ⟨⟨[], [], rfl, (append_nil slot).symm, rfl, fun hroom => absurd h hroom.ne⟩, h⟩

theorem fill_of_full (h : ¬ slot.length < size) :
    fill size expired slot stream = ⟨slot, stream, some .full⟩ := by
  cases stream <;> simp only [fill, if_neg h]

/-- A pass goes on with the next delivery in the slot. -/
theorem Fills.delivery {next : M} {filled : Filled M E}
    (h : Fills size expired (slot ++ [next]) rest filled) :
    Fills size expired slot (some (.delivery next) :: rest) filled := by
  obtain ⟨taken, new, hstream, hslot, hitems, -⟩ := h.told
  refine ⟨⟨some (.delivery next) :: taken, next :: new, ?_, ?_, ?_, ?_⟩, h.why⟩
  · rw [hstream, cons_append]
  · rw [hslot, append_assoc, singleton_append]
  · rw [items_some, hitems, map_cons, cons_append]
  · exact fun _ _ => cons_ne_nil _ _

theorem fill_fills (size : ℕ) (expired : Bool) (slot : List M) (stream : Script M E)
    (hle : slot.length ≤ size) : Fills size expired slot stream (fill size expired slot stream) := by
  induction stream generalizing slot with
  | nil =>
    by_cases hroom : slot.length < size
    · simp only [fill, if_pos hroom]
      exact ⟨⟨[], [], rfl, (append_nil slot).symm, items_pending.symm, fun _ h => h⟩,
        explained_pending hroom⟩
    · rw [fill_of_full hroom]
      exact fills_full (le_antisymm hle (not_lt.mp hroom))
  | cons answer rest ih =>
    by_cases hroom : slot.length < size
    · cases answer with
      | none =>
        simp only [fill, if_pos hroom]
        exact fills_of_last items_pending.symm (explained_pending hroom)
      | some item =>
        cases item with
        | delivery next =>
          simp only [fill, if_pos hroom]
          refine (ih (slot ++ [next]) ?_).delivery
          rw [length_append, length_singleton]
          exact hroom
        | error err | ended =>
          simp only [fill, if_pos hroom]
          exact fills_of_last rfl ⟨(by intro h; cases h), hroom⟩
    · rw [fill_of_full hroom]
      exact fills_full (le_antisymm hle (not_lt.mp hroom))

/-! ## Whole runs -/

/-- What holds between two polls of a batch stream over `script`. -/
structure State.Sound (size : ℕ) (maxWait : Duration) (script : Script M E) (s : State M E) :
    Prop where
  size_eq : s.filling.size = size
  maxWait_eq : s.filling.maxWait = maxWait
  /-- What was taken off the wrapped stream was reported, but for what is in the slot or carried. -/
  told : ∃ taken, script = taken ++ s.filling.stream ∧
    items taken = s.reports.flatMap Report.items ++ s.slot.map Item.delivery ++ s.filling.carry.items
  closed : s.filling.isOpen = false → s.slot = []
  opened : s.filling.isOpen = true → s.slot ≠ [] ∧ s.slot.length < size ∧
    s.filling.carry = .nothing ∧ s.filling.deadline = some (s.openedAt + maxWait)
  valid : ∀ report ∈ s.reports, report.Valid size maxWait
  resolved : Resolved (s.reports ++ s.filling.carry.report.toList)

/-- The part of a poll that fills an open batch. -/
def State.fillOpen (s : State M E) (p : Poll) : State M E :=
  let (answer, filling, slot) := s.filling.fillOpen s.slot p
  match answer with
  | .batch closing => ⟨filling, [], s.openedAt, s.reports ++ [.batch slot closing s.openedAt p.now]⟩
  | _ => ⟨filling, slot, s.openedAt, s.reports⟩

section Run

variable {maxWait : Duration} {script : Script M E} {s : State M E} {p : Poll}

theorem Filling.due_of_expired {filling : Filling M E} {due : Instant}
    (hdeadline : filling.deadline = some due) (h : filling.expired p = true) : due ≤ p.now := by
  rw [Filling.expired, hdeadline, Option.any_some, Bool.and_eq_true] at h
  exact of_decide_eq_true h.2

/-- A batch that closes is owed the report of what interrupted it. -/
theorem resolved_batch {msgs : List M} {closing : Closing E} {opened now : Instant} {length : ℕ}
    (h : Explained size expired length (some closing)) :
    Resolved ([.batch msgs closing opened now] ++ closing.carry.report.toList) := by
  cases closing with
  | full => exact trivial
  | expired => exact trivial
  | interrupted carry =>
    cases carry with
    | nothing => exact absurd rfl h.1
    | error err => exact ⟨h.1, rfl, trivial⟩
    | ended => exact ⟨h.1, rfl, trivial⟩

/-- A batch with its first delivery in the slot is filled on: it closes, or it stays open with room
left. -/
theorem State.sound_fillOpen (hsize : s.filling.size = size) (hwait : s.filling.maxWait = maxWait)
    (hopen : s.filling.isOpen = true) (hcarry : s.filling.carry = .nothing)
    (hslot : s.slot ≠ []) (hle : s.slot.length ≤ size)
    (hdeadline : 1 < size → s.filling.deadline = some (s.openedAt + maxWait))
    (htold : ∃ taken, script = taken ++ s.filling.stream ∧
      items taken = s.reports.flatMap Report.items ++ s.slot.map Item.delivery)
    (hvalid : ∀ report ∈ s.reports, report.Valid size maxWait) (hresolved : Resolved s.reports) :
    State.Sound size maxWait script (s.fillOpen p) := by
  have hfills := fill_fills s.filling.size (s.filling.expired p) s.slot s.filling.stream
    (hsize ▸ hle)
  obtain ⟨before, hscript, hbefore⟩ := htold
  rw [State.fillOpen, Filling.fillOpen]
  generalize fill s.filling.size (s.filling.expired p) s.slot s.filling.stream = filled at hfills
  obtain ⟨slot, stream, closing⟩ := filled
  obtain ⟨taken, new, hstream, hnew, hitems, -⟩ := hfills.told
  have hwhy := hfills.why
  dsimp only at hstream hnew hitems hwhy
  rw [hsize] at hwhy
  have hpos : 0 < slot.length := by
    rw [hnew, length_append]
    have := length_pos_iff.mpr hslot
    omega
  have hscript' : script = before ++ taken ++ stream := by
    rw [hscript, hstream, append_assoc]
  cases closing with
  | none =>
    refine ⟨hsize, hwait, ⟨before ++ taken, hscript', ?_⟩, ?_, ?_, hvalid, ?_⟩
    · rw [items_append, hbefore, hitems, hnew, map_append, hcarry]
      simp only [append_assoc]
      rfl
    · exact fun h => absurd (hopen.symm.trans h) (by decide)
    · intro _
      have hroom : slot.length < size := hwhy
      exact ⟨length_pos_iff.mp hpos, hroom, hcarry, hdeadline (by omega)⟩
    · rw [hcarry]
      exact resolved_append hresolved trivial
  | some closing =>
    refine ⟨hsize, hwait, ⟨before ++ taken, hscript', ?_⟩, fun _ => rfl, ?_, ?_, ?_⟩
    · rw [items_append, hbefore, hitems, flatMap_append, flatMap_cons, flatMap_nil,
        append_nil, map_nil, append_nil, Report.items, hnew, map_append]
      simp only [append_assoc]
      rfl
    · exact fun h => absurd h Bool.false_ne_true
    · intro report hreport
      rcases mem_append.mp hreport with hreport | hreport
      · exact hvalid report hreport
      · rw [mem_singleton.mp hreport]
        refine ⟨length_pos_iff.mp hpos, hwhy.le, ?_⟩
        cases closing with
        | full => exact hwhy
        | interrupted carry => exact hwhy.1
        | expired =>
          obtain ⟨hexpired, hroom⟩ := hwhy
          exact Filling.due_of_expired (hdeadline (by omega)) hexpired
    · rw [append_assoc]
      exact resolved_append hresolved (resolved_batch hwhy)

variable {report : Report M E}

/-- A carried interruption is reported by the next poll, which looks at nothing else. -/
theorem State.poll_of_carry (h : s.filling.carry.report = some report) (p : Poll) :
    s.poll p = ⟨{ s.filling with carry := .nothing }, s.slot,
      if s.filling.isOpen then s.openedAt else p.opening, s.reports ++ [report]⟩ := by
  cases hcarry : s.filling.carry with
  | nothing =>
    rw [hcarry] at h
    cases h
  | error err | ended =>
    rw [hcarry] at h
    cases h
    simp only [State.poll, Filling.pollFill, hcarry]

theorem State.poll_of_open (hcarry : s.filling.carry = .nothing) (hopen : s.filling.isOpen = true)
    (p : Poll) : s.poll p = s.fillOpen p := by
  simp only [State.poll, Filling.pollFill, hcarry, hopen, if_true, State.fillOpen, Filling.fillOpen]
  cases (fill s.filling.size (s.filling.expired p) s.slot s.filling.stream).closing <;> rfl

/-- A delivery that opens a batch. -/
def State.openWith (s : State M E) (first : M) (rest : Script M E) (p : Poll) : State M E :=
  ⟨s.filling.opened rest p, s.slot ++ [first], p.opening, s.reports⟩

theorem State.poll_of_first (hcarry : s.filling.carry = .nothing) (hopen : s.filling.isOpen = false)
    {first : M} {rest : Script M E} (hstream : s.filling.stream = some (.delivery first) :: rest)
    (p : Poll) : s.poll p = (s.openWith first rest p).fillOpen p := by
  simp only [State.poll, Filling.pollFill, hcarry, hopen, Bool.false_eq_true, if_false, hstream,
    State.fillOpen, State.openWith, Filling.fillOpen]
  cases (fill _ _ _ _).closing <;> rfl

/-- A poll with no batch open and nothing carried reports what is not a delivery as it comes. -/
theorem State.poll_of_closed (hcarry : s.filling.carry = .nothing) (hopen : s.filling.isOpen = false)
    {answer : Option (Item M E)} {rest : Script M E} (hstream : s.filling.stream = answer :: rest)
    (hanswer : ∀ first, answer ≠ some (.delivery first)) (p : Poll) :
    ∃ reports : List (Report M E),
      s.poll p = ⟨{ s.filling with stream := rest }, s.slot, p.opening, s.reports ++ reports⟩ ∧
        reports.flatMap Report.items = items [answer] ∧
        (∀ size maxWait, ∀ report ∈ reports, report.Valid size maxWait) ∧ Resolved reports := by
  simp only [State.poll, Filling.pollFill, hcarry, hopen, Bool.false_eq_true, if_false, hstream]
  cases answer with
  | none =>
    refine ⟨[], ?_, rfl, fun _ _ _ h => absurd h not_mem_nil, trivial⟩
    rw [append_nil]
  | some item =>
    cases item with
    | delivery first => exact absurd rfl (hanswer first)
    | error err =>
      refine ⟨[.error err], rfl, rfl, ?_, trivial⟩
      intro size maxWait report hreport
      rw [mem_singleton.mp hreport]
      trivial
    | ended =>
      refine ⟨[.ended], rfl, rfl, ?_, trivial⟩
      intro size maxWait report hreport
      rw [mem_singleton.mp hreport]
      trivial

theorem State.poll_of_silent (hcarry : s.filling.carry = .nothing) (hopen : s.filling.isOpen = false)
    (hstream : s.filling.stream = []) (p : Poll) :
    s.poll p = ⟨s.filling, s.slot, p.opening, s.reports⟩ := by
  simp only [State.poll, Filling.pollFill, hcarry, hopen, Bool.false_eq_true, if_false, hstream]

theorem State.Sound.closed_of_carry (h : s.Sound size maxWait script)
    (hreport : s.filling.carry.report = some report) : s.filling.isOpen = false := by
  by_contra hopen
  rw [(h.opened (Bool.eq_true_of_not_eq_false hopen)).2.2.1] at hreport
  cases hreport

variable {carry : Carry E}

theorem Carry.items_of_report (h : carry.report = some report) : carry.items = report.items := by
  cases carry with
  | nothing => cases h
  | error err =>
    cases h
    rfl
  | ended =>
    cases h
    rfl

theorem Carry.valid_of_report (h : carry.report = some report) : report.Valid size maxWait := by
  cases carry with
  | nothing => cases h
  | error err =>
    cases h
    trivial
  | ended =>
    cases h
    trivial

theorem State.Sound.poll_carried (h : s.Sound size maxWait script)
    (hreport : s.filling.carry.report = some report) (p : Poll) :
    (s.poll p).Sound size maxWait script := by
  have hopen := h.closed_of_carry hreport
  have hslot := h.closed hopen
  obtain ⟨taken, hscript, htold⟩ := h.told
  have hresolved := h.resolved
  rw [hreport, Option.toList_some] at hresolved
  rw [State.poll_of_carry hreport]
  refine ⟨h.size_eq, h.maxWait_eq, ⟨taken, hscript, ?_⟩, fun _ => hslot, ?_, ?_, ?_⟩
  · rw [htold, hslot, Carry.items_of_report hreport, flatMap_append, flatMap_singleton]
    simp only [map_nil, append_nil, Carry.items]
  · exact fun hopen' => absurd (hopen.symm.trans hopen') Bool.false_ne_true
  · intro report' hmem
    rcases mem_append.mp hmem with hmem | hmem
    · exact h.valid report' hmem
    · rw [mem_singleton.mp hmem]
      exact Carry.valid_of_report hreport
  · exact resolved_append hresolved trivial

theorem State.Sound.poll_opened (h : s.Sound size maxWait script) (hopen : s.filling.isOpen = true)
    (p : Poll) : (s.poll p).Sound size maxWait script := by
  obtain ⟨hslot, hroom, hcarry, hdeadline⟩ := h.opened hopen
  obtain ⟨taken, hscript, htold⟩ := h.told
  have hresolved := h.resolved
  rw [hcarry] at htold hresolved
  rw [State.poll_of_open hcarry hopen]
  refine State.sound_fillOpen h.size_eq h.maxWait_eq hopen hcarry hslot hroom.le (fun _ => hdeadline)
    ⟨taken, hscript, ?_⟩ h.valid ?_
  · rw [htold, Carry.items, append_nil]
  · rwa [Carry.report, Option.toList_none, append_nil] at hresolved

theorem State.Sound.poll_closed (h : s.Sound size maxWait script)
    (hcarry : s.filling.carry = .nothing) (hopen : s.filling.isOpen = false) (p : Poll) :
    (s.poll p).Sound size maxWait script := by
  have hslot := h.closed hopen
  have hresolved := h.resolved
  obtain ⟨taken, hscript, htold⟩ := h.told
  rw [hcarry, Carry.report, Option.toList_none, append_nil] at hresolved
  rw [hcarry, hslot, Carry.items, map_nil, append_nil, append_nil] at htold
  have hunopened : ∀ {P : Prop}, s.filling.isOpen = true → P :=
    fun hopen' => absurd (hopen.symm.trans hopen') Bool.false_ne_true
  cases hstream : s.filling.stream with
  | nil =>
    rw [State.poll_of_silent hcarry hopen hstream]
    exact ⟨h.size_eq, h.maxWait_eq, h.told, h.closed, hunopened, h.valid, h.resolved⟩
  | cons answer rest =>
    have hscript' : script = taken ++ [answer] ++ rest := by
      rw [hscript, hstream, append_assoc, singleton_append]
    by_cases hfirst : ∃ first, answer = some (.delivery first)
    · obtain ⟨first, rfl⟩ := hfirst
      rw [State.poll_of_first hcarry hopen hstream]
      refine State.sound_fillOpen h.size_eq h.maxWait_eq rfl hcarry ?_ ?_ ?_
        ⟨taken ++ [some (.delivery first)], hscript', ?_⟩ h.valid hresolved
      · exact append_ne_nil_of_right_ne_nil _ (cons_ne_nil _ _)
      · rw [State.openWith, hslot, nil_append, length_singleton, ← h.size_eq]
        exact s.filling.size_pos
      · intro hlt
        rw [← h.size_eq] at hlt
        rw [← h.maxWait_eq]
        exact if_pos hlt
      · rw [items_append, htold, State.openWith, hslot]
        rfl
    · obtain ⟨reports, hpoll, hitems, hvalid, hresolved'⟩ :=
        State.poll_of_closed hcarry hopen hstream (fun first hfirst' => hfirst ⟨first, hfirst'⟩) p
      rw [hpoll]
      refine ⟨h.size_eq, h.maxWait_eq, ⟨taken ++ [answer], hscript', ?_⟩, fun _ => hslot, hunopened,
        ?_, ?_⟩
      · rw [items_append, htold, ← hitems, flatMap_append, hslot, hcarry]
        simp only [map_nil, append_nil, Carry.items]
      · intro report hmem
        rcases mem_append.mp hmem with hmem | hmem
        · exact h.valid report hmem
        · exact hvalid size maxWait report hmem
      · rw [hcarry, Carry.report, Option.toList_none, append_nil]
        exact resolved_append hresolved hresolved'

theorem Carry.eq_nothing_of_report
    (h : (carry.report : Option (Report M E)) = none) : carry = .nothing := by
  cases carry with
  | nothing => rfl
  | error err => cases h
  | ended => cases h

/-- One poll keeps the reports in step with the wrapped stream. -/
theorem State.Sound.poll (h : s.Sound size maxWait script) (p : Poll) :
    (s.poll p).Sound size maxWait script := by
  cases hreport : (s.filling.carry.report : Option (Report M E)) with
  | some report => exact h.poll_carried hreport p
  | none =>
    cases hopen : s.filling.isOpen with
    | true => exact h.poll_opened hopen p
    | false => exact h.poll_closed (Carry.eq_nothing_of_report hreport) hopen p

theorem sound_start (hsize : 0 < size) (maxWait : Duration) (script : Script M E) :
    (start size hsize maxWait script).Sound size maxWait script where
  size_eq := rfl
  maxWait_eq := rfl
  told := ⟨[], rfl, rfl⟩
  closed _ := rfl
  opened h := absurd h Bool.false_ne_true
  valid _ h := absurd h not_mem_nil
  resolved := trivial

theorem State.Sound.run (h : s.Sound size maxWait script) (polls : List Poll) :
    (Buffered.run s polls).Sound size maxWait script := by
  induction polls generalizing s with
  | nil => exact h
  | cons p polls ih => exact ih (h.poll p)

/-! ## Every answer is taken in time -/

/-- A carried interruption counts for one. -/
def Carry.weight : Carry E → ℕ
  | .nothing => 0
  | _ => 1

/-- A bound on the polls until the wrapped stream's answers are used up and nothing is carried. -/
def State.left (s : State M E) : ℕ := 2 * s.filling.stream.length + s.filling.carry.weight

end Run

end Buffered

end RustStream
