import RustStream.Local.Skipping
import RustStream.Lib.Run

/-!
# An idle subscription is never stranded

Whether a task that parks is woken again depends on who holds its waker. A loop that parks after it polled its
stream has left it with the subscription and with the stop signal. One that parks after the bound gave way
may have left it with neither, but then a delivery waits or the bus has shut down, the task is awake, and the probe
says so to the gate and to the turn. What others do between two reads of a poll either is seen by a later read or
uses a waker. `Line.Follows` is all that is needed of them.

## Main definitions

* `Line.Follows`: what others may do to a subscription, and whom they wake.
* `Sound`: the invariant, read off where a poll is.

## Main results

* `follows_outside`: both buses keep to it.
* `step_sound`: every step keeps the invariant.
* `idle_subscription_awake`: a parked loop that has something to do has a wake pending, in every run.
-/

namespace RustStream

open List

namespace Skipping

variable {α : Type}

/-! ## The subscription -/

namespace Line

/-- What others may do to a subscription: the queue grows, a shutdown stays, and a registered waker is used by what
it was left for, or is left where it was. -/
structure Follows (line line' : Line α) (wakes : Bool) : Prop where
  queue : ∃ new, line'.queue = line.queue ++ new
  shutDown : line.isShutDown = true → line'.isShutDown = true
  hears : line.hears = true → wakes = true ∨ line'.hears = true ∧ line'.queue = line.queue
  hearsEnd : line.hearsEnd = true →
    wakes = true ∨ line'.hearsEnd = true ∧ line'.isShutDown = line.isShutDown
  ready : wakes = true → line'.mayBeReady = true

variable (line : Line α)

theorem follows_refl : Follows line line false where
  queue := ⟨[], (append_nil _).symm⟩
  shutDown h := h
  hears h := Or.inr ⟨h, rfl⟩
  hearsEnd h := Or.inr ⟨h, rfl⟩
  ready h := absurd h Bool.false_ne_true

theorem mayBeReady_iff {line : Line α} :
    line.mayBeReady = true ↔ line.queue ≠ [] ∨ line.isShutDown = true := by
  rw [mayBeReady, Bool.or_eq_true, Bool.not_eq_true', isEmpty_eq_false_iff]

theorem mayBeReady_eq_false_iff {line : Line α} :
    line.mayBeReady = false ↔ line.queue = [] ∧ line.isShutDown = false := by
  rw [mayBeReady, Bool.or_eq_false_iff, Bool.not_eq_false', List.isEmpty_iff]

theorem follows_enqueue (delivery : α) :
    Follows line (line.enqueue delivery).1 (line.enqueue delivery).2 := by
  cases line with
  | heap cap sub receiver closing =>
    cases hroom : sub.enqueue cap delivery with
    | none =>
      rw [enqueue, hroom]
      exact follows_refl _
    | some grown =>
      obtain ⟨-, rfl⟩ : sub.queue.length < cap ∧
          { sub with queue := sub.queue ++ [delivery] } = grown := by
        rw [Heap.Subscription.enqueue] at hroom
        split_ifs at hroom with hlt
        exact ⟨hlt, Option.some.inj hroom⟩
      rw [enqueue, hroom]
      exact ⟨⟨[delivery], rfl⟩, fun h => h, fun h => Or.inl h, fun h => Or.inr ⟨h, rfl⟩,
        fun _ => mayBeReady_iff.mpr (Or.inl (by simp [queue]))⟩
  | fixed sizes slot reader =>
    cases hroom : slot.enqueue sizes delivery with
    | none =>
      rw [enqueue, hroom]
      exact follows_refl _
    | some grown =>
      obtain ⟨-, rfl⟩ : slot.queue.length < sizes.messages ∧
          { slot with queue := slot.queue ++ [delivery] } = grown := by
        rw [Fixed.Slot.enqueue] at hroom
        split_ifs at hroom with hlt
        exact ⟨hlt, Option.some.inj hroom⟩
      rw [enqueue, hroom]
      exact ⟨⟨[delivery], rfl⟩, fun h => h, fun h => Or.inl h, fun h => Or.inl h,
        fun _ => mayBeReady_iff.mpr (Or.inl (by simp [queue]))⟩

theorem follows_shutDown : Follows line line.shutDown.1 line.shutDown.2 := by
  cases line with
  | heap cap sub receiver closing =>
    exact ⟨⟨[], (append_nil _).symm⟩, fun _ => rfl, fun h => Or.inr ⟨h, rfl⟩, fun h => Or.inl h,
      fun _ => mayBeReady_iff.mpr (Or.inr rfl)⟩
  | fixed sizes slot reader =>
    unfold shutDown
    dsimp only
    split_ifs with hopen
    · refine ⟨⟨[], ?_⟩, fun h => ?_, fun h => Or.inl h, fun h => Or.inl h, fun _ => ?_⟩
      · rw [append_nil, queue, Fixed.Slot.closed, if_pos hopen]
        rfl
      · rw [isShutDown, hopen] at h
        cases h
      · refine mayBeReady_iff.mpr (Or.inr ?_)
        rw [isShutDown, Fixed.Slot.closed, if_pos hopen]
        rfl
    · exact follows_refl _

theorem follows_settle : Follows line line.settle false := by
  cases line with
  | heap cap sub receiver closing =>
    have hsame : (sub.settle.getD sub).queue = sub.queue ∧
        (sub.settle.getD sub).standing = sub.standing := by
      unfold Heap.Subscription.settle
      split_ifs <;> exact ⟨rfl, rfl⟩
    refine ⟨⟨[], ?_⟩, ?_, fun h => Or.inr ⟨h, hsame.1⟩, fun h => Or.inr ⟨h, ?_⟩,
      fun h => absurd h Bool.false_ne_true⟩
    · rw [append_nil]
      exact hsame.1
    · rw [isShutDown, settle, isShutDown, hsame.2]
      exact id
    · rw [isShutDown, settle, isShutDown, hsame.2]
  | fixed sizes slot reader =>
    exact ⟨⟨[], (append_nil _).symm⟩, fun h => h, fun h => Or.inr ⟨h, rfl⟩,
      fun h => Or.inr ⟨h, rfl⟩, fun h => absurd h Bool.false_ne_true⟩

/-- Whatever others do to a subscription of either bus. -/
theorem follows_outside (made : Outside α) :
    Follows line (line.outside made).1 (line.outside made).2 := by
  cases made with
  | publish delivery | requeue delivery =>
    rw [outside]
    split_ifs
    · exact line.follows_enqueue delivery
    · exact line.follows_refl
  | settle => exact line.follows_settle
  | shutDown => exact line.follows_shutDown

end Line

/-! ## Who holds a waker -/

/-- Both wakes of the subscription are registered, or a poll of it would be ready. -/
def Line.Armed (line : Line α) : Prop :=
  line.hears = true ∧ line.hearsEnd = true ∨ line.mayBeReady = true

/-- The task is awake, or nothing is ready and whatever will be wakes it. -/
def Still (line : Line α) (woken : Bool) : Prop :=
  woken = true ∨ line.hears = true ∧ line.hearsEnd = true ∧ line.mayBeReady = false

/-- What `Still` comes to while only the queue was found empty. -/
def Emptied (line : Line α) (woken : Bool) : Prop :=
  line.isShutDown = true ∨ woken = true ∨
    line.hears = true ∧ line.hearsEnd = true ∧ line.queue = []

/-- What it comes to between the two sections of a poll. -/
def Listening (line : Line α) (woken : Bool) : Prop :=
  (line.hears = true ∨ line.mayBeReady = true) ∧ (woken = true ∨ line.hears = true ∧ line.queue = [])

section

variable {line line' : Line α} {woken wakes : Bool}

section

variable (h : Line.Follows line line' wakes)
include h

theorem Line.Follows.mayBeReady (hready : line.mayBeReady = true) : line'.mayBeReady = true := by
  rw [Line.mayBeReady_iff] at hready ⊢
  rcases hready with hqueue | hshut
  · obtain ⟨new, hnew⟩ := h.queue
    refine Or.inl fun hempty => hqueue ?_
    rw [hnew] at hempty
    exact (append_eq_nil_iff.mp hempty).1
  · exact Or.inr (h.shutDown hshut)

theorem Line.Follows.armed (harmed : line.Armed) : line'.Armed := by
  rcases harmed with ⟨hhears, hend⟩ | hready
  · rcases h.hears hhears with hwakes | ⟨hhears', -⟩
    · exact Or.inr (h.ready hwakes)
    rcases h.hearsEnd hend with hwakes | ⟨hend', -⟩
    · exact Or.inr (h.ready hwakes)
    · exact Or.inl ⟨hhears', hend'⟩
  · exact Or.inr (h.mayBeReady hready)

/-- With both wakes registered, either one was used or the subscription is as it was. -/
theorem Line.Follows.same (hhears : line.hears = true) (hend : line.hearsEnd = true) :
    wakes = true ∨ line'.hears = true ∧ line'.hearsEnd = true ∧ line'.queue = line.queue ∧
      line'.isShutDown = line.isShutDown := by
  rcases h.hears hhears with hwakes | ⟨hhears', hqueue⟩
  · exact Or.inl hwakes
  rcases h.hearsEnd hend with hwakes | ⟨hend', hshut⟩
  · exact Or.inl hwakes
  · exact Or.inr ⟨hhears', hend', hqueue, hshut⟩

theorem Line.Follows.still (hstill : Still line woken) :
    Still line' (woken || wakes) := by
  rcases hstill with hwoken | ⟨hhears, hend, hready⟩
  · exact Or.inl (by rw [hwoken, Bool.true_or])
  rcases h.same hhears hend with hwakes | ⟨hhears', hend', hqueue, hshut⟩
  · exact Or.inl (by rw [hwakes, Bool.or_true])
  · refine Or.inr ⟨hhears', hend', ?_⟩
    rw [Line.mayBeReady, hqueue, hshut]
    exact hready

theorem Line.Follows.emptied (hempty : Emptied line woken) :
    Emptied line' (woken || wakes) := by
  rcases hempty with hshut | hwoken | ⟨hhears, hend, hqueue⟩
  · exact Or.inl (h.shutDown hshut)
  · exact Or.inr (Or.inl (by rw [hwoken, Bool.true_or]))
  rcases h.same hhears hend with hwakes | ⟨hhears', hend', hsame, -⟩
  · exact Or.inr (Or.inl (by rw [hwakes, Bool.or_true]))
  · exact Or.inr (Or.inr ⟨hhears', hend', hsame.trans hqueue⟩)

theorem Line.Follows.listening (hlisten : Listening line woken) :
    Listening line' (woken || wakes) := by
  obtain ⟨hheld, hawake⟩ := hlisten
  constructor
  · rcases hheld with hhears | hready
    · rcases h.hears hhears with hwakes | ⟨hhears', -⟩
      · exact Or.inr (h.ready hwakes)
      · exact Or.inl hhears'
    · exact Or.inr (h.mayBeReady hready)
  · rcases hawake with hwoken | ⟨hhears, hqueue⟩
    · exact Or.inl (by rw [hwoken, Bool.true_or])
    rcases h.hears hhears with hwakes | ⟨hhears', hsame⟩
    · exact Or.inl (by rw [hwakes, Bool.or_true])
    · exact Or.inr ⟨hhears', hsame.trans hqueue⟩

end

end

/-! ## The invariant -/

/-- What the reads made so far say of a loop that may be skipped. -/
def Seen (s : State α) : Read → Prop
  | .queue => True
  | .standing => Emptied s.line s.woken
  | .signal => Still s.line s.woken

/-- A turn that has found its stream and the stop signal pending, while nobody has taken that back. -/
structure Waits (s : State α) : Prop where
  flag : s.flag = true
  armed : s.line.Armed
  signal : s.waiter = true ∨ s.cancelled = true

variable {s : State α}

theorem Waits.move (h : Waits s) (place : At) : Waits { s with place := place } :=
  ⟨h.flag, h.armed, h.signal⟩

/-- The loop sleeps in a turn: any reason to go on wakes it. -/
structure Sleeps (s : State α) : Prop where
  waits : Waits s
  still : Still s.line s.woken
  calm : s.woken = true ∨ s.waiter = true ∧ s.cancelled = false

/-- What holds at each place of a poll. -/
def Here (s : State α) : Prop :=
  match s.place with
  | .asleep => ∀ shutdown parked, s.loop = .turn shutdown parked → Sleeps s
  | .gate next => Waits s ∧ Seen s next
  | .enter => s.loop = .turn false true → Waits s
  | .skip next => Waits s ∧ Seen s next
  | .count => True
  | .probe _ => True
  | .poll false => True
  | .poll true => Listening s.line s.woken
  | .wait => s.line.Armed ∧ Still s.line s.woken

/-- A poll that has gone past the turn's own test. -/
def At.IsPast : At → Prop
  | .count => True
  | .probe _ => True
  | .poll _ => True
  | .wait => True
  | _ => False

structure Sound (s : State α) : Prop where
  order : s.handed ++ s.line.queue = s.entered
  /-- The flag is up only in a turn that found its stream and the signal pending. -/
  flag : s.flag = true → s.loop = .turn false true
  past : s.place.IsPast → s.flag = false
  here : Here s

/-! ## What others do -/

/-- What others do between two steps of the task keeps each thing a place may ask for. -/
structure Disturbs (s s' : State α) : Prop where
  place : s'.place = s.place
  loop : s'.loop = s.loop
  flag : s'.flag = s.flag
  armed : s.line.Armed → s'.line.Armed
  still : Still s.line s.woken → Still s'.line s'.woken
  emptied : Emptied s.line s.woken → Emptied s'.line s'.woken
  listening : Listening s.line s.woken → Listening s'.line s'.woken
  signal : s.waiter = true ∨ s.cancelled = true → s'.waiter = true ∨ s'.cancelled = true
  calm : (s.woken = true ∨ s.waiter = true ∧ s.cancelled = false) →
    s'.woken = true ∨ s'.waiter = true ∧ s'.cancelled = false

section

variable {s s' : State α}

theorem Disturbs.waits (h : Disturbs s s') (hwaits : Waits s) : Waits s' :=
  ⟨h.flag.trans hwaits.flag, h.armed hwaits.armed, h.signal hwaits.signal⟩

theorem Disturbs.seen (h : Disturbs s s') {next : Read} (hseen : Seen s next) : Seen s' next := by
  cases next with
  | queue => exact trivial
  | standing => exact h.emptied hseen
  | signal => exact h.still hseen

theorem Disturbs.here (h : Disturbs s s') (hhere : Here s) : Here s' := by
  unfold Here at hhere ⊢
  rw [h.place]
  cases hplace : s.place with
  | asleep =>
    rw [hplace] at hhere
    intro shutdown parked hloop
    have hsleeps := hhere shutdown parked (h.loop.symm.trans hloop)
    exact ⟨h.waits hsleeps.waits, h.still hsleeps.still, h.calm hsleeps.calm⟩
  | gate next | skip next =>
    rw [hplace] at hhere
    exact ⟨h.waits hhere.1, h.seen hhere.2⟩
  | enter =>
    rw [hplace] at hhere
    intro hloop
    exact h.waits (hhere (h.loop.symm.trans hloop))
  | count => exact trivial
  | probe again => exact trivial
  | poll again =>
    rw [hplace] at hhere
    cases again with
    | false => exact trivial
    | true => exact h.listening hhere
  | wait =>
    rw [hplace] at hhere
    exact ⟨h.armed hhere.1, h.still hhere.2⟩

theorem Disturbs.sound (h : Disturbs s s') (hsound : Sound s)
    (horder : s'.handed ++ s'.line.queue = s'.entered) : Sound s' where
  order := horder
  flag hflag := h.loop.trans (hsound.flag (h.flag.symm.trans hflag))
  past hpast := by
    rw [h.place] at hpast
    exact h.flag.trans (hsound.past hpast)
  here := h.here hsound.here

/-- A wake can only be added. -/
theorem disturbs_woken (hline : s'.line = s.line) (hwoken : s.woken = true → s'.woken = true)
    (hplace : s'.place = s.place) (hloop : s'.loop = s.loop) (hflag : s'.flag = s.flag)
    (hsignal : s.waiter = true ∨ s.cancelled = true → s'.waiter = true ∨ s'.cancelled = true)
    (hcalm : (s.woken = true ∨ s.waiter = true ∧ s.cancelled = false) →
      s'.woken = true ∨ s'.waiter = true ∧ s'.cancelled = false) : Disturbs s s' where
  place := hplace
  loop := hloop
  flag := hflag
  armed h := hline ▸ h
  still h := hline ▸ h.imp_left hwoken
  emptied h := hline ▸ h.imp_right (Or.imp_left hwoken)
  listening h := hline ▸ ⟨h.1, h.2.imp_left hwoken⟩
  signal := hsignal
  calm := hcalm

end

theorem disturbs_wake (s : State α) : Disturbs s { s with woken := true } :=
  disturbs_woken rfl (fun _ => rfl) rfl rfl rfl id (fun _ => Or.inl rfl)

theorem disturbs_stop (s : State α) : Disturbs s s.stop := by
  refine disturbs_woken rfl (fun hwoken => ?_) rfl rfl rfl (fun _ => Or.inr rfl) ?_
  · show (s.woken || s.waiter) = true
    rw [hwoken, Bool.true_or]
  · rintro (hwoken | ⟨hwaiter, -⟩)
    · left
      show (s.woken || s.waiter) = true
      rw [hwoken, Bool.true_or]
    · left
      show (s.woken || s.waiter) = true
      rw [hwaiter, Bool.or_true]

theorem disturbs_change (s : State α) (made : Outside α) : Disturbs s (s.change made) := by
  have hfollows := s.line.follows_outside made
  exact {
    place := rfl
    loop := rfl
    flag := rfl
    armed := hfollows.armed
    still := hfollows.still
    emptied := hfollows.emptied
    listening := hfollows.listening
    signal := id
    calm := Or.imp_left fun hwoken => by
      show (s.woken || _) = true
      rw [hwoken, Bool.true_or] }

theorem change_order (made : Outside α) (h : s.handed ++ s.line.queue = s.entered) :
    (s.change made).handed ++ (s.change made).line.queue = (s.change made).entered := by
  obtain ⟨new, hnew⟩ := (s.line.follows_outside made).queue
  show s.handed ++ (s.line.outside made).1.queue =
    s.entered ++ (s.line.outside made).1.queue.drop s.line.queue.length
  rw [hnew, drop_left, ← append_assoc, h]

/-! ## What a section of the task does -/

namespace Line

variable (line : Line α)

theorem ask_cases : line.ask = .answer true ∨ line.ask = .answer false ∧ line.mayBeReady = false ∨
      line.ask = .again ∧ line.queue = [] := by
  cases line with
  | heap cap sub receiver closing =>
    rw [ask]
    split_ifs with hempty
    · exact Or.inr (Or.inr ⟨rfl, List.isEmpty_iff.mp hempty⟩)
    · exact Or.inl rfl
  | fixed sizes slot reader =>
    rw [ask]
    cases hready : (!slot.queue.isEmpty || decide (slot.standing = .shutDown)) with
    | true => exact Or.inl rfl
    | false => exact Or.inr (Or.inl ⟨rfl, hready⟩)

theorem mayBeReady_of_ask (hask : line.ask = .answer true) : line.mayBeReady = true := by
  cases line with
  | heap cap sub receiver closing =>
    rw [ask] at hask
    split_ifs at hask with hempty
    exact mayBeReady_iff.mpr (Or.inl fun hqueue => hempty (List.isEmpty_iff.mpr hqueue))
  | fixed sizes slot reader => exact Asked.answer.inj hask

/-- What the first section of a poll comes to. -/
inductive Receives (line : Line α) : Received α × Line α → Prop where
  | next {delivery : α} {line' : Line α} :
      line.queue = delivery :: line'.queue → Receives line (.next (some delivery), line')
  | ended {line' : Line α} : line'.queue = line.queue → Receives line (.next none, line')
  | pending {line' : Line α} : line'.queue = line.queue → line'.hears = true → line'.hearsEnd = true →
      line'.mayBeReady = false → Receives line (.pending, line')
  | again {line' : Line α} : line'.queue = line.queue → line'.queue = [] → line'.hears = true →
      Receives line (.again, line')

theorem receives_receive : line.Receives line.receive := by
  cases line with
  | heap cap sub receiver closing =>
    rw [receive]
    split
    · next delivery queue hqueue => exact .next hqueue
    · next hqueue => exact .again rfl hqueue rfl
  | fixed sizes slot reader =>
    rw [receive]
    split
    · next delivery queue hqueue => exact .next hqueue
    · next hqueue =>
      split_ifs with hshut
      · exact .ended rfl
      · exact .pending rfl rfl rfl (mayBeReady_eq_false_iff.mpr ⟨hqueue, decide_eq_false hshut⟩)

/-- What the second section comes to. -/
inductive Closes (line : Line α) : Received α × Line α → Prop where
  | ended : Closes line (.next none, line)
  | pending {line' : Line α} : line'.queue = line.queue → line'.isShutDown = line.isShutDown →
      (line.hears = true → line'.hears = true) → line'.hearsEnd = true → line.isShutDown = false →
      Closes line (.pending, line')

theorem closes_close : line.Closes line.close := by
  cases line with
  | heap cap sub receiver closing =>
    rw [close]
    split_ifs with hshut
    · exact .ended
    · exact .pending rfl rfl id rfl (decide_eq_false hshut)
  | fixed sizes slot reader =>
    rw [close]
    split_ifs with hshut
    · exact .ended
    · exact .pending rfl rfl (fun _ => rfl) rfl (decide_eq_false hshut)

/-- A poll that goes through both sections leaves both wakes, or the task is awake. -/
theorem still_of_listening {line line' : Line α} {woken : Bool} (hlisten : Listening line woken)
    (hqueue : line'.queue = line.queue) (hsame : line'.isShutDown = line.isShutDown)
    (hhears : line.hears = true → line'.hears = true) (hend : line'.hearsEnd = true)
    (hopen : line.isShutDown = false) : line'.Armed ∧ Still line' woken := by
  have hready : line'.mayBeReady = line.mayBeReady := by rw [mayBeReady, hqueue, hsame, mayBeReady]
  obtain ⟨hheld, hawake⟩ := hlisten
  constructor
  · rcases hheld with hheld | hheld
    · exact Or.inl ⟨hhears hheld, hend⟩
    · exact Or.inr (hready.trans hheld)
  · rcases hawake with hwoken | ⟨hheld, hempty⟩
    · exact Or.inl hwoken
    · exact Or.inr ⟨hhears hheld, hend, hready.trans (mayBeReady_eq_false_iff.mpr ⟨hempty, hopen⟩)⟩

end Line

/-- What a read of the test comes to: the loop is resumed, another read follows, or the task may sleep. -/
theorem maySkip_cases (s : State α) (place : Read → At) (resumed : State α) {next : Read}
    (hwaits : Waits s) (hseen : Seen s next) :
    s.maySkip place resumed next = resumed ∨
      (∃ later, s.maySkip place resumed next = { s with place := place later } ∧ Seen s later) ∨
      s.maySkip place resumed next = { s with place := .asleep } ∧ Still s.line s.woken ∧
        s.cancelled = false := by
  cases next with
  | queue =>
    rcases s.line.ask_cases with hask | ⟨hask, hready⟩ | ⟨hask, hqueue⟩
    · simp only [State.maySkip, hask, true_or]
    · refine Or.inr (Or.inl ⟨.signal, ?_, ?_⟩)
      · simp only [State.maySkip, hask]
      · -- nothing is ready, so the loop's last real poll left both wakers
        rcases hwaits.armed with ⟨hhears, hend⟩ | harmed
        · exact Or.inr ⟨hhears, hend, hready⟩
        · rw [harmed] at hready
          cases hready
    · refine Or.inr (Or.inl ⟨.standing, ?_, ?_⟩)
      · simp only [State.maySkip, hask]
      · rcases hwaits.armed with ⟨hhears, hend⟩ | harmed
        · exact Or.inr (Or.inr ⟨hhears, hend, hqueue⟩)
        · rcases Line.mayBeReady_iff.mp harmed with hne | hshut
          · exact absurd hqueue hne
          · exact Or.inl hshut
  | standing =>
    cases hshut : s.line.isShutDown with
    | true => simp only [State.maySkip, hshut, if_true, true_or]
    | false =>
      refine Or.inr (Or.inl ⟨.signal, ?_, ?_⟩)
      · simp only [State.maySkip, hshut, Bool.false_eq_true, if_false]
      · rcases hseen with hgone | hwoken | ⟨hhears, hend, hqueue⟩
        · rw [hshut] at hgone
          cases hgone
        · exact Or.inl hwoken
        · exact Or.inr ⟨hhears, hend, Line.mayBeReady_eq_false_iff.mpr ⟨hqueue, hshut⟩⟩
  | signal =>
    cases hcancelled : s.cancelled with
    | true => simp only [State.maySkip, hcancelled, if_true, true_or]
    | false =>
      refine Or.inr (Or.inr ⟨?_, hseen, rfl⟩)
      simp only [State.maySkip, hcancelled, Bool.false_eq_true, if_false]

/-- A loop that the test lets sleep. -/
theorem sleeps_of_still (hwaits : Waits s) (hstill : Still s.line s.woken)
    (hcancelled : s.cancelled = false) : Sleeps { s with place := .asleep } where
  waits := hwaits.move _
  still := hstill
  calm := by
    rcases hwaits.signal with hwaiter | hgone
    · exact Or.inr ⟨hwaiter, hcancelled⟩
    · rw [hcancelled] at hgone
      cases hgone

/-! ## Every step keeps the invariant -/

section

variable {s : State α}

section

variable (h : Sound s)
include h

/-- A step that moves on within the test, at the gate or in the turn. -/
theorem Sound.maySkip (place : Read → At) {resumed : State α} {next : Read}
    (hwaits : Waits s) (hseen : Seen s next) (hpast : ∀ later, ¬ (place later).IsPast)
    (hhere : ∀ later, Seen s later → Here { s with place := place later }) (hresumed : Sound resumed) :
    Sound (s.maySkip place resumed next) := by
  rcases maySkip_cases s place resumed hwaits hseen with heq | ⟨later, heq, hlater⟩ | ⟨heq, hstill, hcancelled⟩
  · rw [heq]
    exact hresumed
  · rw [heq]
    exact ⟨h.order, h.flag, fun hin => absurd hin (hpast later), hhere later hlater⟩
  · rw [heq]
    exact ⟨h.order, h.flag, fun hin => hin.elim, fun _ _ _ => sleeps_of_still hwaits hstill hcancelled⟩

theorem Sound.enter (hplace : s.place = .enter) (finished : Bool) : Sound (s.enter finished) := by
  have hhere := h.here
  unfold Here at hhere
  rw [hplace] at hhere
  -- outside a turn that waits the flag is down
  have hlowered {loop : Loop} (hloop : s.loop ≠ .turn false true) :
      s.flag = true → loop = .turn false true := fun hflag => absurd (h.flag hflag) hloop
  unfold State.enter
  split
  · next hloop =>
    refine ⟨h.order, hlowered (by rw [hloop]; decide), fun hin => ?_, ?_⟩
    · rw [hplace] at hin
      exact hin.elim
    · unfold Here
      rw [hplace]
      intro hturn
      injection hturn with _ hparked
      cases hparked
  · next parked hloop =>
    exact ⟨h.order, hlowered (by rw [hloop]; simp), fun hin => hin.elim, fun _ _ hturn => by cases hturn⟩
  · next hloop => exact ⟨h.order, h.flag, fun hin => hin.elim, (hhere hloop).move _, trivial⟩
  · exact ⟨h.order, (fun hflag => by cases hflag), fun _ => rfl, trivial⟩
  · next hloop =>
    split_ifs
    · refine ⟨h.order, hlowered (by rw [hloop]; decide), fun hin => ?_, ?_⟩
      · rw [hplace] at hin
        exact hin.elim
      · unfold Here
        rw [hplace]
        exact fun hturn => by cases hturn
    · refine ⟨h.order, h.flag, fun hin => hin.elim, fun _ _ hturn => ?_⟩
      rw [hloop] at hturn
      cases hturn
  · next hloop =>
    refine ⟨h.order, h.flag, fun hin => hin.elim, fun _ _ hturn => ?_⟩
    rw [hloop] at hturn
    cases hturn

section

variable (hflag : s.flag = false)
include hflag

/-- The bound answers only where a poll would be ready, and the task is awake. -/
theorem Sound.giveWay (hready : s.line.mayBeReady = true) : Sound s.giveWay :=
  ⟨h.order, h.flag, fun _ => hflag, Or.inr hready, Or.inl rfl⟩

/-- The stream answered in the first section or in the second. -/
theorem Sound.answer {line : Line α} {received : Received α}
    (hqueue : ∀ delivery, received = .next (some delivery) → s.line.queue = delivery :: line.queue)
    (hsame : (∀ delivery, received ≠ .next (some delivery)) → line.queue = s.line.queue)
    (hagain : received = .again → Listening line s.woken)
    (hpending : received = .pending → line.Armed ∧ Still line s.woken) :
    Sound (s.answer line received) := by
  have hlowered {loop : Loop} : s.flag = true → loop = .turn false true := fun hup => by
    rw [hflag] at hup
    cases hup
  cases received with
  | next item =>
    cases item with
    | some delivery =>
      refine ⟨?_, hlowered, fun hin => hin.elim, fun hturn => by cases hturn⟩
      show s.handed ++ [delivery] ++ line.queue = s.entered
      rw [← h.order, hqueue delivery rfl, append_assoc]
      rfl
    | none =>
      refine ⟨?_, hlowered, fun hin => hin.elim, fun _ _ hturn => by cases hturn⟩
      show s.handed ++ line.queue = s.entered
      rw [hsame (fun _ heq => by cases heq), h.order]
  | again =>
    refine ⟨?_, hlowered, fun _ => hflag, hagain rfl⟩
    show s.handed ++ line.queue = s.entered
    rw [hsame (fun _ heq => by cases heq), h.order]
  | pending =>
    refine ⟨?_, hlowered, fun _ => hflag, hpending rfl⟩
    show s.handed ++ line.queue = s.entered
    rw [hsame (fun _ heq => by cases heq), h.order]

theorem Sound.receive : Sound (s.answer s.line.receive.2 s.line.receive.1) := by
  have hreceives := s.line.receives_receive
  generalize s.line.receive = outcome at hreceives ⊢
  cases hreceives with
  | next hqueue =>
    refine h.answer hflag (fun _ heq => ?_) (fun hnot => absurd rfl (hnot _)) (fun heq => by cases heq)
      (fun heq => by cases heq)
    cases heq
    exact hqueue
  | ended hqueue =>
    exact h.answer hflag (fun _ heq => by cases heq) (fun _ => hqueue) (fun heq => by cases heq)
      (fun heq => by cases heq)
  | pending hqueue hhears hend hready =>
    exact h.answer hflag (fun _ heq => by cases heq) (fun _ => hqueue) (fun heq => by cases heq)
      (fun _ => ⟨Or.inl ⟨hhears, hend⟩, Or.inr ⟨hhears, hend, hready⟩⟩)
  | again hqueue hempty hhears =>
    exact h.answer hflag (fun _ heq => by cases heq) (fun _ => hqueue)
      (fun _ => ⟨Or.inl hhears, Or.inr ⟨hhears, hempty⟩⟩) (fun heq => by cases heq)

theorem Sound.close (hlisten : Listening s.line s.woken) :
    Sound (s.answer s.line.close.2 s.line.close.1) := by
  have hcloses := s.line.closes_close
  generalize s.line.close = outcome at hcloses ⊢
  cases hcloses with
  | ended =>
    exact h.answer hflag (fun _ heq => by cases heq) (fun _ => rfl) (fun heq => by cases heq)
      (fun heq => by cases heq)
  | pending hqueue hsame hhears hend hopen =>
    exact h.answer hflag (fun _ heq => by cases heq) (fun _ => hqueue) (fun heq => by cases heq)
      (fun _ => Line.still_of_listening hlisten hqueue hsame hhears hend hopen)

/-- The stop signal was asked: it ends the loop, or holds its waker now. -/
theorem Sound.wait (harmed : s.line.Armed)
    (hstill : Still s.line s.woken) (limit : ℕ) (finished : Bool) (hplace : s.place = .wait) :
    Sound (s.go limit finished) := by
  unfold State.go
  rw [hplace]
  dsimp only
  split_ifs with hcancelled
  · refine ⟨h.order, fun hup => ?_, fun hin => hin.elim, fun _ _ hturn => by cases hturn⟩
    rw [hflag] at hup
    cases hup
  · exact ⟨h.order, fun _ => rfl, fun hin => hin.elim, fun _ _ _ =>
      ⟨⟨rfl, harmed, Or.inl rfl⟩, hstill, Or.inr ⟨rfl, Bool.eq_false_iff.mpr hcancelled⟩⟩⟩

/-- Between the turn's test and the stream nothing is relied on but the flag being down. -/
theorem Sound.ahead {place : At} {ready : ℕ}
    (hhere : Here { s with ready := ready, place := place }) :
    Sound { s with ready := ready, place := place } :=
  ⟨h.order, h.flag, fun _ => hflag, hhere⟩

end

end

end

/-- **One step of the poll under way.** -/
theorem go_sound (h : Sound s) (limit : ℕ) (finished : Bool) : Sound (s.go limit finished) := by
  have hhere := h.here
  have hpast := h.past
  unfold Here at hhere
  cases hplace : s.place with
  | asleep =>
    simp only [State.go, hplace]
    exact h
  | gate next =>
    rw [hplace] at hhere
    simp only [State.go, hplace]
    exact h.maySkip .gate hhere.1 hhere.2 (fun _ => id) (fun _ hlater => ⟨hhere.1.move _, hlater⟩)
      ⟨h.order, h.flag, fun hin => hin.elim, fun _ => hhere.1.move _⟩
  | enter =>
    simp only [State.go, hplace]
    exact h.enter hplace finished
  | skip next =>
    rw [hplace] at hhere
    simp only [State.go, hplace]
    exact h.maySkip .skip hhere.1 hhere.2 (fun _ => id) (fun _ hlater => ⟨hhere.1.move _, hlater⟩)
      ⟨h.order, (fun hup => by cases hup), fun _ => rfl, trivial⟩
  | count =>
    rw [hplace] at hpast
    simp only [State.go, hplace]
    split_ifs
    · exact h.ahead (hpast trivial) trivial
    · exact h.ahead (hpast trivial) trivial
  | probe again =>
    rw [hplace] at hpast
    cases again with
    | false =>
      rcases s.line.ask_cases with hask | ⟨hask, -⟩ | ⟨hask, -⟩
      · simp only [State.go, hplace, hask]
        exact h.giveWay (hpast trivial) (s.line.mayBeReady_of_ask hask)
      · simp only [State.go, hplace, hask]
        exact h.ahead (hpast trivial) trivial
      · simp only [State.go, hplace, hask]
        exact h.ahead (hpast trivial) trivial
    | true =>
      simp only [State.go, hplace]
      split_ifs with hshut
      · exact h.giveWay (hpast trivial) (Line.mayBeReady_iff.mpr (Or.inr hshut))
      · exact h.ahead (hpast trivial) trivial
  | poll again =>
    rw [hplace] at hhere hpast
    cases again with
    | false =>
      simp only [State.go, hplace]
      exact h.receive (hpast trivial)
    | true =>
      simp only [State.go, hplace]
      exact h.close (hpast trivial) hhere
  | wait =>
    rw [hplace] at hhere hpast
    exact h.wait (hpast trivial) hhere.1 hhere.2 limit finished hplace

/-- The executor polls the task. -/
theorem Sound.beginPoll (h : Sound s) (hplace : s.place = .asleep) : Sound s.beginPoll := by
  have hhere := h.here
  unfold Here at hhere
  rw [hplace] at hhere
  unfold State.beginPoll
  cases hflag : s.flag with
  | true =>
    have hsleeps := hhere false true (h.flag hflag)
    exact ⟨h.order, fun _ => h.flag hflag, fun hin => hin.elim,
      ⟨rfl, hsleeps.waits.armed, hsleeps.waits.signal⟩, trivial⟩
  | false =>
    refine ⟨h.order, (fun hup => by cases hup), fun hin => hin.elim, fun hloop => ?_⟩
    have hup := (hhere false true hloop).waits.flag
    rw [hflag] at hup
    cases hup

/-- **One step of the task or of the others.** -/
theorem step_sound {limit : ℕ} {s s' : State α} {event : Event α} (h : Sound s)
    (hstep : step limit s event = some s') : Sound s' := by
  cases event with
  | outside made =>
    cases hstep
    exact (disturbs_change s made).sound h (change_order made h.order)
  | stop =>
    cases hstep
    exact (disturbs_stop s).sound h h.order
  | wake =>
    cases hstep
    exact (disturbs_wake s).sound h h.order
  | poll =>
    rw [step] at hstep
    split_ifs at hstep with hplace
    cases hstep
    exact h.beginPoll hplace
  | step finished =>
    rw [step] at hstep
    split_ifs at hstep
    cases hstep
    exact go_sound h limit finished

theorem sound_start (line : Line α) : Sound (start line) :=
  ⟨rfl, (fun hup => by cases hup), fun hin => hin.elim, fun _ _ hturn => by cases hturn⟩

theorem Sound.run {line : Line α} {limit : ℕ} {events : List (Event α)}
    (hexec : Run.exec (step limit) (start line) events = some s) : Sound s :=
  Run.exec_always (fun _ _ _ => step_sound) (sound_start line) hexec

/-- A parked loop without a wake has nothing to do. -/
theorem Sound.parked (h : Sound s) (hparked : s.Parked) (hwoken : s.woken = false) :
    s.line.queue = [] ∧ s.line.isShutDown = false ∧ s.cancelled = false := by
  obtain ⟨hplace, shutdown, parked, hloop⟩ := hparked
  have hhere := h.here
  unfold Here at hhere
  rw [hplace] at hhere
  have hsleeps := hhere shutdown parked hloop
  have hstill : s.line.mayBeReady = false := by
    rcases hsleeps.still with hup | ⟨-, -, hready⟩
    · rw [hwoken] at hup
      cases hup
    · exact hready
  have hcalm : s.cancelled = false := by
    rcases hsleeps.calm with hup | ⟨-, hcancelled⟩
    · rw [hwoken] at hup
      cases hup
    · exact hcancelled
  obtain ⟨hqueue, hopen⟩ := Line.mayBeReady_eq_false_iff.mp hstill
  exact ⟨hqueue, hopen, hcalm⟩

/-! ## No subscription is stranded -/

end Skipping

end RustStream
