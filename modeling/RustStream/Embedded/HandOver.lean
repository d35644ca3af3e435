import RustStream.Embedded.Workers

/-!
# Hand-overs between the loop and its workers

What holds between two steps of the task of `RustStream.Embedded.Workers`. Each worker is a lane: what was read
for it is what it dispatched, then what waits in its slot or is on its way there. In a pool the index of a
worker is in the queue of free workers, in the loop's hand or with a busy worker, and in one of them; this is
what makes room for an index that comes back and keeps a slot empty for a hand-over. A parked worker waits
on an empty slot, so skipping it skips nothing. The end marks follow the deliveries through the slots.

## Main definitions

* `Resting`, `Marked`: what is known of a parked worker, and of one the loop has marked the end for.
* `Sound`: the invariant.

## Main results

* `Sound.room`: an index that comes back finds room.
* `step_sound`: every step keeps the invariant.
-/

namespace RustStream

open Function List

namespace Workers

variable {n : ℕ} {M : Type*}

/-! ## The invariant -/

/-- A parked worker waits on an empty slot. -/
def Resting (worker : Worker M) : Prop :=
  worker.mailbox.parked = true → worker.mailbox.slot = none ∧ worker.phase = .waiting

/-- A worker the loop has marked the end for finds the mark in its slot, or has read it and ended; no other
does. -/
def Marked (past : Bool) (worker : Worker M) : Prop :=
  if past then
    worker.mailbox.slot = some none ∧ worker.phase ≠ .ended ∨
      worker.mailbox.slot = none ∧ worker.phase = .ended
  else worker.mailbox.slot ≠ some none ∧ worker.phase ≠ .ended

/-- What holds between two steps. -/
structure Sound (setup : Setup M) [NeZero n] (s : State n M) : Prop where
  lanes : Lanes.Queued s.queue s.dispatched s.pulled
  resting : ∀ i, Resting (s.workers i)
  marked : ∀ i, Marked (s.feed.past i) (s.workers i)
  pool : setup.keyed = false → ∀ i, s.free.count i + s.inHand i + (s.workers i).busy = 1
  choosing : s.feed = .choosing → setup.keyed = false ∧ s.held = none
  reading : setup.keyed = false → ∀ parked, s.feed = .reading parked → s.held.isSome = true
  held : setup.keyed = true → s.held = none
  keys : setup.keyed = true → ∀ entry ∈ s.pulled, ∀ key, setup.key entry.1 = some key →
    entry.2 = keyIndex key
  unheld : ∀ index msg, s.feed = .handing index msg → s.held = none
  idle : s.feedIdle = true → ∃ parked, s.feed = .reading parked
  refused : s.refused = false

variable {worker : Worker M}

variable {workers : Fin n → Worker M}

variable {index : Fin n}

/-- One worker changed. -/
theorem forall_update (P : Fin n → Worker M → Prop)
    (h : ∀ i, P i (workers i)) (hworker : P index worker)
    (i : Fin n) : P i (update workers index worker i) := by
  by_cases hne : i = index
  · subst hne
    rw [update_self]
    exact hworker
  · rw [update_of_ne hne]
    exact h i

theorem Resting.of_awake (hparked : worker.mailbox.parked = false) : Resting worker :=
  fun htrue => absurd (hparked.symm.trans htrue) Bool.false_ne_true

theorem Feed.past_of_not_isOver {feed : Feed n M} (h : feed.isOver = false) (i : Fin n) :
    feed.past i = false := by
  cases feed with
  | ending next => cases h
  | done => cases h
  | _ => rfl

theorem Feed.past_ending_zero (i : Fin n) : (Feed.ending 0 : Feed n M).past i = false :=
  decide_eq_false (Nat.not_lt_zero i.val)

/-- A worker whose slot holds the delivery it held. -/
theorem waiting_update (h : worker.mailbox.waiting = (workers index).mailbox.waiting) (i : Fin n) :
    (update workers index worker i).mailbox.waiting = (workers i).mailbox.waiting := by
  by_cases hne : i = index
  · subst hne
    rw [update_self, h]
  · rw [update_of_ne hne]

theorem Mailbox.waiting_of_slot {mailbox : Mailbox M} {slot : Option (Option M)}
    (h : mailbox.slot = slot) : mailbox.waiting = (slot.getD none).toList := by
  rw [Mailbox.waiting, h]

theorem Feed.handingTo_self (index : Fin n) (msg : M) :
    (Feed.handing index msg).handingTo index = [msg] :=
  if_pos rfl

theorem Feed.handingTo_of_ne {i index : Fin n} (hne : i ≠ index) (msg : M) :
    (Feed.handing index msg).handingTo i = [] :=
  if_neg (Ne.symm hne)

/-- The loop goes on without a delivery to hand over. -/
theorem State.queue_turn (s : State n M) {feed : Feed n M}
    (h : ∀ i, feed.handingTo i = s.feed.handingTo i) (i : Fin n) :
    (s.workers i).mailbox.waiting ++ feed.handingTo i = s.queue i := by
  rw [h i]
  rfl

/-- A worker changes and its slot holds the delivery it held. -/
theorem State.queue_setWorker (s : State n M)
    (h : worker.mailbox.waiting = (s.workers index).mailbox.waiting) (i : Fin n) :
    (update s.workers index worker i).mailbox.waiting ++ s.feed.handingTo i = s.queue i := by
  rw [waiting_update h i]
  rfl

/-- A worker changes and is as busy as it was. -/
theorem busy_update (h : worker.busy = (workers index).busy) (i : Fin n) :
    (update workers index worker i).busy = (workers i).busy := by
  by_cases hne : i = index
  · subst hne
    rw [update_self, h]
  · rw [update_of_ne hne]

section Sound

variable [NeZero n] {setup : Setup M} {s t : State n M} {event : Event n M}

section

variable (h : Sound setup s)
include h

/-- The queue of free workers has room for the index of a worker that dispatches. -/
theorem Sound.room (hkeyed : setup.keyed = false) {index : Fin n} {msg : M}
    (hphase : (s.workers index).phase = .dispatching msg) : s.free.length < n := by
  have hbusy : 1 ≤ (s.workers index).busy := by
    rw [Worker.busy, hphase]
    exact Nat.le_add_left 1 _
  have hcount := h.pool hkeyed index
  have hnodup : (index :: s.free).Nodup := by
    rw [nodup_cons, nodup_iff_count_le_one]
    refine ⟨count_eq_zero.mp (by omega), fun i => ?_⟩
    have hone := h.pool hkeyed i
    omega
  have hlength := hnodup.length_le_card
  rw [length_cons, Fintype.card_fin] at hlength
  omega

theorem Sound.resting_of_moves (hmoves : Moves setup s event t) (i : Fin n) :
    Resting (t.workers i) := by
  cases hmoves with
  | stay | stop | quit | want | begin | choose | pull | fail | quitRead | wait | close =>
    exact h.resting i
  | hand hfeed hslot | mark hfeed hslot | leave hparked hphase hslot =>
    exact forall_update (fun _ => Resting) h.resting (.of_awake rfl) i
  | park hparked hphase hslot =>
    exact forall_update (fun _ => Resting) h.resting (fun _ => ⟨rfl, rfl⟩) i
  | dispatch hparked hphase hslot =>
    exact forall_update (fun _ => Resting) h.resting (.of_awake rfl) i
  | release hparked hphase hkeyed | giveBack hparked hphase hkeyed hroom =>
    exact forall_update (fun _ => Resting) h.resting (.of_awake (by exact hparked)) i
  | refuse hparked hphase hkeyed hroom => exact absurd (h.room hkeyed hphase) hroom

/-! ### The end marks -/

/-- A loop that reads has marked no end. -/
theorem Sound.unmarked (hfeed : s.feed.isOver = false) (i : Fin n) :
    (s.workers i).mailbox.slot ≠ some none ∧ (s.workers i).phase ≠ .ended := by
  have hmarked := h.marked i
  rw [Feed.past_of_not_isOver hfeed] at hmarked
  exact hmarked

/-- The loop goes on without marking an end. -/
theorem Sound.marked_turn {feed : Feed n M}
    (hpast : ∀ i, feed.past i = s.feed.past i) (i : Fin n) : Marked (feed.past i) (s.workers i) := by
  rw [hpast i]
  exact h.marked i

/-- A worker that dispatched goes back to its mailbox. -/
theorem Sound.marked_freed {index : Fin n} {msg : M}
    (hphase : (s.workers index).phase = .dispatching msg) :
    Marked (s.feed.past index) ⟨(s.workers index).mailbox, .waiting⟩ := by
  have hself := h.marked index
  unfold Marked at hself ⊢
  rw [hphase] at hself
  split_ifs at hself ⊢ with hpast
  · rcases hself with ⟨hmark, -⟩ | ⟨-, hended⟩
    · exact Or.inl ⟨hmark, fun hended => by cases hended⟩
    · cases hended
  · exact ⟨hself.1, fun hended => by cases hended⟩

theorem Sound.marked_of_moves (hmoves : Moves setup s event t) (i : Fin n) :
    Marked (t.feed.past i) (t.workers i) := by
  cases hmoves with
  | stay | stop => exact h.marked i
  | quit hfeed hcancelled =>
    refine h.marked_turn (fun i => (Feed.past_ending_zero i).trans ?_) i
    rcases hfeed with hfeed | hfeed <;> rw [hfeed] <;> rfl
  | want hfeed | begin hfeed | choose hfeed hfree | pull hfeed | fail hfeed | wait hfeed hcancelled =>
    exact h.marked_turn (fun i => by rw [hfeed]; rfl) i
  | quitRead hfeed =>
    exact h.marked_turn (fun i => (Feed.past_ending_zero i).trans (by rw [hfeed]; rfl)) i
  | close hfeed hnext =>
    refine h.marked_turn (fun i => ?_) i
    rw [hfeed]
    exact (decide_eq_true (lt_of_lt_of_le i.isLt hnext)).symm
  | @hand index msg hfeed hslot =>
    have hover : s.feed.isOver = false := by rw [hfeed]; rfl
    refine forall_update (fun i => Marked ((Feed.head : Feed n M).past i)) (h.unmarked hover) ?_ i
    exact ⟨fun hmark => (by cases hmark), (h.unmarked hover index).2⟩
  | @mark index hfeed hslot =>
    -- the workers marked are those before `index`, and now `index`
    have hbefore := h.marked
    rw [hfeed] at hbefore
    by_cases hne : i = index
    · subst hne
      have hself := hbefore i
      have hnot : (Feed.ending i.val : Feed n M).past i = false := decide_eq_false (lt_irrefl _)
      rw [hnot] at hself
      have hnow : (Feed.ending (i.val + 1) : Feed n M).past i = true :=
        decide_eq_true (Nat.lt_succ_self _)
      show Marked ((Feed.ending (i.val + 1) : Feed n M).past i) (update s.workers i _ i)
      rw [hnow, update_self]
      exact Or.inl ⟨rfl, hself.2⟩
    · have hsame : (Feed.ending (index.val + 1) : Feed n M).past i =
          (Feed.ending index.val : Feed n M).past i := by
        have hval : i.val ≠ index.val := fun heq => hne (Fin.ext heq)
        refine decide_eq_decide.mpr ?_
        omega
      show Marked ((Feed.ending (index.val + 1) : Feed n M).past i)
        (update s.workers index _ i)
      rw [hsame, update_of_ne hne]
      exact hbefore i
  | @park index holding finished hparked hphase hslot =>
    refine forall_update (fun i => Marked (s.feed.past i)) h.marked ?_ i
    have hself := h.marked index
    unfold Marked at hself ⊢
    rw [hphase, hslot] at hself
    exact hself
  | @leave index holding finished hparked hphase hslot =>
    refine forall_update (fun i => Marked (s.feed.past i)) h.marked ?_ i
    have hself := h.marked index
    unfold Marked at hself ⊢
    rw [hslot] at hself
    split_ifs at hself ⊢ with hpast
    · exact Or.inr ⟨rfl, rfl⟩
    · exact absurd rfl hself.1
  | @dispatch index holding finished msg hparked hphase hslot =>
    refine forall_update (fun i => Marked (s.feed.past i)) h.marked ?_ i
    have hself := h.marked index
    unfold Marked at hself ⊢
    rw [hslot] at hself
    split_ifs at hself ⊢ with hpast
    · rcases hself with ⟨hmark, -⟩ | ⟨hmark, -⟩ <;> cases hmark
    · exact ⟨fun hmark => (by cases hmark), fun hended => (by cases hended)⟩
  | @release index holding msg hparked hphase hkeyed
  | @giveBack index holding msg hparked hphase hkeyed hroom =>
    exact forall_update (fun i => Marked (s.feed.past i)) h.marked (h.marked_freed hphase) i
  | refuse hparked hphase hkeyed hroom => exact absurd (h.room hkeyed hphase) hroom

/-! ### The lanes -/

theorem Sound.lanes_of_moves (hmoves : Moves setup s event t) :
    Lanes.Queued t.queue t.dispatched t.pulled := by
  cases hmoves with
  | stay | stop => exact h.lanes
  | quit hfeed hcancelled =>
    refine h.lanes.congr (s.queue_turn fun i => ?_)
    rcases hfeed with hfeed | hfeed <;> rw [hfeed] <;> rfl
  | want hfeed | begin hfeed | choose hfeed hfree | fail hfeed | quitRead hfeed
  | wait hfeed hcancelled | close hfeed hnext =>
    exact h.lanes.congr (s.queue_turn fun i => by rw [hfeed]; rfl)
  | @pull parked mayBeReady msg hfeed =>
    have hnone : ∀ i, s.queue i = (s.workers i).mailbox.waiting := fun i => by
      rw [State.queue, hfeed]
      exact append_nil _
    refine h.lanes.issue ?_ fun i hne => ?_
    · rw [hnone]
      exact congrArg _ (Feed.handingTo_self ..)
    · rw [hnone]
      exact (congrArg _ (Feed.handingTo_of_ne hne msg)).trans (append_nil _)
  | @hand index msg hfeed hslot =>
    refine h.lanes.congr fun i => ?_
    show (update s.workers index _ i).mailbox.waiting ++ [] = s.queue i
    rw [State.queue, hfeed, append_nil]
    by_cases hne : i = index
    · subst hne
      rw [update_self, Feed.handingTo_self, Mailbox.waiting_of_slot hslot]
      rfl
    · rw [update_of_ne hne, Feed.handingTo_of_ne hne, append_nil]
  | @mark index hfeed hslot =>
    refine h.lanes.congr fun i => ?_
    show (update s.workers index _ i).mailbox.waiting ++ [] = s.queue i
    rw [State.queue, hfeed, waiting_update (by exact (Mailbox.waiting_of_slot hslot).symm)]
    rfl
  | park hparked hphase hslot | leave hparked hphase hslot =>
    exact h.lanes.congr (s.queue_setWorker (Mailbox.waiting_of_slot hslot).symm)
  | @dispatch index holding finished msg hparked hphase hslot =>
    refine h.lanes.take ?_ fun i hne => ?_
    · show s.queue index =
        msg :: ((update s.workers index _ index).mailbox.waiting ++ s.feed.handingTo index)
      rw [State.queue, update_self, Mailbox.waiting_of_slot hslot]
      rfl
    · show (update s.workers index _ i).mailbox.waiting ++ s.feed.handingTo i = s.queue i
      rw [update_of_ne hne]
      rfl
  | release hparked hphase hkeyed | giveBack hparked hphase hkeyed hroom =>
    exact h.lanes.congr (s.queue_setWorker rfl)
  | refuse hparked hphase hkeyed hroom => exact absurd (h.room hkeyed hphase) hroom

/-! ### The index of a worker in a pool -/

/-- The loop of a pool has a worker for what it reads. -/
theorem Sound.held_of_reading (hkeyed : setup.keyed = false) {parked : Bool}
    (hfeed : s.feed = .reading parked) (msg : M) : s.held = some (s.route setup msg).1 := by
  obtain ⟨index, hheld⟩ := Option.isSome_iff_exists.mp (h.reading hkeyed parked hfeed)
  rw [State.route, hheld]

theorem Sound.pool_of_moves (hmoves : Moves setup s event t) (hkeyed : setup.keyed = false)
    (i : Fin n) : t.free.count i + t.inHand i + (t.workers i).busy = 1 := by
  have hbefore := h.pool hkeyed i
  cases hmoves with
  | stay | stop => exact hbefore
  | quit hfeed hcancelled =>
    rcases hfeed with hfeed | hfeed <;> rw [State.inHand, hfeed] at hbefore <;> exact hbefore
  | want hfeed | begin hfeed | fail hfeed | quitRead hfeed | wait hfeed hcancelled
  | close hfeed hnext => rw [State.inHand, hfeed] at hbefore; exact hbefore
  | @choose index rest hfeed hfree =>
    rw [State.inHand, hfeed, hfree, (h.choosing hfeed).2, count_cons] at hbefore
    show rest.count i + ((if some index = some i then 1 else 0) + 0) + (s.workers i).busy = 1
    by_cases hself : index = i
    · simp [hself, Feed.handingTo] at hbefore ⊢
      omega
    · simp [hself, Feed.handingTo] at hbefore ⊢
      omega
  | @pull parked mayBeReady msg hfeed =>
    have hheld := h.held_of_reading hkeyed hfeed msg
    rw [State.inHand, hfeed, hheld] at hbefore
    show s.free.count i + ((if none = some i then 1 else 0) +
      ((Feed.handing (s.route setup msg).1 msg).handingTo i).length) + (s.workers i).busy = 1
    by_cases hself : i = (s.route setup msg).1
    · rw [← hself, Feed.handingTo_self]
      rw [← hself, if_pos rfl] at hbefore
      exact hbefore
    · rw [Feed.handingTo_of_ne hself]
      rw [if_neg fun heq => hself (Option.some.inj heq).symm] at hbefore
      exact hbefore
  | @hand index msg hfeed hslot =>
    rw [State.inHand, hfeed, h.unheld index msg hfeed] at hbefore
    show s.free.count i + ((if s.held = some i then 1 else 0) + 0) +
      (update s.workers index _ i).busy = 1
    rw [h.unheld index msg hfeed]
    by_cases hself : i = index
    · subst hself
      rw [Feed.handingTo_self, Worker.busy, Mailbox.waiting_of_slot hslot] at hbefore
      rw [update_self]
      simpa [Worker.busy, Mailbox.waiting, add_assoc] using hbefore
    · rw [Feed.handingTo_of_ne hself] at hbefore
      rw [update_of_ne hself]
      exact hbefore
  | @mark index hfeed hslot =>
    rw [State.inHand, hfeed] at hbefore
    have hbusy : (s.workers index).busy = (s.workers index).phase.isDispatching.toNat := by
      rw [Worker.busy, Mailbox.waiting_of_slot hslot]
      exact Nat.zero_add _
    show s.free.count i + ((if s.held = some i then 1 else 0) + 0) +
      (update s.workers index _ i).busy = 1
    rw [busy_update (by rw [hbusy]; exact Nat.zero_add _)]
    exact hbefore
  | @park index holding finished hparked hphase hslot
  | @leave index holding finished hparked hphase hslot
  | @dispatch index holding finished msg hparked hphase hslot =>
    show s.free.count i + s.inHand i + (update s.workers index _ i).busy = 1
    rw [busy_update (by simp only [Worker.busy, Mailbox.waiting_of_slot hslot, hphase]; rfl)]
    exact hbefore
  | release hparked hphase hkeyed' => exact absurd (hkeyed.symm.trans hkeyed') Bool.false_ne_true
  | @giveBack index holding msg hparked hphase hkeyed' hroom =>
    show (s.free ++ [index]).count i + s.inHand i + (update s.workers index _ i).busy = 1
    rw [count_append]
    by_cases hself : i = index
    · subst hself
      rw [update_self, count_singleton_self]
      rw [Worker.busy, hphase] at hbefore
      simp only [Worker.busy, Phase.isDispatching, Bool.toNat_true, Bool.toNat_false] at hbefore ⊢
      omega
    · rw [update_of_ne hself, count_singleton, if_neg (by simpa using Ne.symm hself)]
      exact hbefore
  | refuse hparked hphase hkeyed' hroom => exact absurd (h.room hkeyed hphase) hroom

/-! ### Every step -/

theorem Sound.keys_of_moves (hmoves : Moves setup s event t) (hkeyed : setup.keyed = true)
    (entry : M × Fin n) (hentry : entry ∈ t.pulled) (key : Bytes) (hkey : setup.key entry.1 = some key) :
    entry.2 = keyIndex key := by
  cases hmoves with
  | @pull parked mayBeReady msg hfeed =>
    rcases mem_append.mp hentry with hentry | hlast
    · exact h.keys hkeyed entry hentry key hkey
    · cases mem_singleton.mp hlast
      dsimp only at hkey ⊢
      rw [State.route, h.held hkeyed, hkey]
  | stay | stop | quit | want | begin | choose | fail | quitRead | wait | close | hand | mark | park | leave
    | dispatch | release | giveBack | refuse =>
    exact h.keys hkeyed entry hentry key hkey

theorem step_sound (hstep : step setup s event = some t) : Sound setup t := by
  have hmoves := moves_of_step hstep
  refine ⟨h.lanes_of_moves hmoves, h.resting_of_moves hmoves, h.marked_of_moves hmoves,
    h.pool_of_moves hmoves, ?_, ?_, ?_, h.keys_of_moves hmoves, ?_, ?_, ?_⟩
  · intro hchoosing
    cases hmoves with
    | stay | stop | park | leave | dispatch | release | giveBack | refuse =>
      exact h.choosing hchoosing
    | want hfeed hcancelled hkeyed hheld => exact ⟨hkeyed, hheld⟩
    | quit | begin | choose | pull | fail | quitRead | wait | hand | mark | close => cases hchoosing
  · intro hkeyed parked hreading
    cases hmoves with
    | stay | stop | park | leave | dispatch | release | giveBack | refuse =>
      exact h.reading hkeyed parked hreading
    | begin hfeed hcancelled hheld =>
      rcases hheld with hkeyed' | hheld
      · exact absurd (hkeyed.symm.trans hkeyed') Bool.false_ne_true
      · exact hheld
    | choose => rfl
    | wait hfeed hcancelled => exact h.reading hkeyed _ hfeed
    | quit | want | pull | fail | quitRead | hand | mark | close => cases hreading
  · intro hkeyed
    cases hmoves with
    | choose hfeed hfree =>
      exact absurd ((h.choosing hfeed).1.symm.trans hkeyed) Bool.false_ne_true
    | pull => rfl
    | stay | stop | quit | want | begin | fail | quitRead | wait | hand | mark | close | park | leave
      | dispatch | release | giveBack | refuse =>
      exact h.held hkeyed
  · intro index msg hhanding
    cases hmoves with
    | pull => rfl
    | stay | stop | park | leave | dispatch | release | giveBack | refuse =>
      exact h.unheld index msg hhanding
    | quit | want | begin | choose | fail | quitRead | wait | hand | mark | close => cases hhanding
  · intro hidle
    cases hmoves with
    | stay | stop | park | leave | dispatch | release | giveBack | refuse => exact h.idle hidle
    | wait => exact ⟨true, rfl⟩
    | pull | fail | quitRead => cases hidle
    | quit hfeed =>
      obtain ⟨parked, hreading⟩ := h.idle hidle
      rcases hfeed with hfeed | hfeed <;> rw [hfeed] at hreading <;> cases hreading
    | want hfeed | begin hfeed | choose hfeed | hand hfeed | mark hfeed | close hfeed =>
      obtain ⟨parked, hreading⟩ := h.idle hidle
      rw [hfeed] at hreading
      cases hreading
  · cases hmoves with
    | refuse hparked hphase hkeyed hroom => exact absurd (h.room hkeyed hphase) hroom
    | _ => exact h.refused

end

theorem sound_start (setup : Setup M) : Sound setup (start setup : State n M) where
  lanes := ⟨fun _ => rfl⟩
  resting _ := .of_awake rfl
  marked _ := ⟨fun hmark => (by cases hmark), fun hended => (by cases hended)⟩
  pool hkeyed i := by
    have hfree : (start setup : State n M).free = List.finRange n := by
      rw [start, hkeyed]
      rfl
    rw [hfree, count_eq_one_of_mem (nodup_finRange n) (mem_finRange i)]
    rfl
  choosing hchoosing := by cases hchoosing
  reading _ parked hreading := by cases hreading
  held _ := rfl
  keys _ entry hentry := absurd hentry not_mem_nil
  unheld index msg hhanding := by cases hhanding
  idle hidle := by cases hidle
  refused := rfl

theorem Sound.run (h : Sound setup s) {events : List (Event n M)}
    (hexec : Run.exec (step setup) s events = some t) : Sound setup t :=
  Run.exec_always (fun _ _ _ => step_sound) h hexec

end Sound

end Workers

end RustStream
