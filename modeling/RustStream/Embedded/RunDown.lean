import RustStream.Embedded.HandOver
import RustStream.Lib.Drain

/-!
# Every delivery is handed on once

Whole runs of the task of `RustStream.Embedded.Workers`. Once the stop signal is given, or the loop reads no
more, the task runs down: `State.weight` is what it has left to do, and every poll that changes anything
lowers it, whatever the order of the polls.

## Main definitions

* `State.weight`: what the task has left to do.
* `HandsOn`: what a run keeps.

## Main results

* `weight_of_moves`, `Sound.exists_weight_lt`: a task that was told to stop runs down.
* `workers_hand_on_once`: every delivery is handed on once, in every run.
-/

namespace RustStream

open Function

namespace Workers

variable {n : ℕ} {M : Type*}

/-! ## Running down -/

/-- What a worker has left to do. -/
def Worker.weight (worker : Worker M) : ℕ :=
  (match worker.mailbox.slot with
    | none => 0
    | some none => 2
    | some (some _) => 4) +
  2 * worker.phase.isDispatching.toNat + (!worker.mailbox.parked).toNat

/-- What the loop has left to do once it is told to stop, with what it still hands to the workers. -/
def Feed.weight : Feed n M → ℕ
  | .done => 0
  | .ending next => 4 * (n - next) + 1
  | .head => 4 * n + 2
  | .handing _ _ => 4 * n + 8
  | .reading _ => 4 * n + 9
  | .choosing => 4 * n + 10

/-- What the task has left to do once it is told to stop. -/
def State.weight (s : State n M) : ℕ :=
  ∑ i, (s.workers i).weight + s.feed.weight

/-- The task was told to stop, or reads no more. -/
def State.IsStopping (s : State n M) : Prop :=
  s.cancelled = true ∨ s.feed.isOver = true

/-- The loop and every worker have ended. -/
def State.IsDone (s : State n M) : Prop :=
  s.feed = .done ∧ ∀ i, (s.workers i).phase = .ended

/-- A poll in which the stream has nothing more and the handler of a worker finishes. -/
def Event.finishes : Event n M → Bool
  | .loop => true
  | .read _ .pending => true
  | .work _ false true => true
  | _ => false

/-- One worker moved on, and the loop perhaps with it. -/
theorem State.weight_setWorker_lt {s : State n M} {index : Fin n} {worker : Worker M} {feed : Feed n M}
    (h : worker.weight + feed.weight < (s.workers index).weight + s.feed.weight) :
    ∑ i, (update s.workers index worker i).weight + feed.weight < s.weight := by
  have hsum := Drain.sum_update Worker.weight s.workers index worker
  rw [State.weight]
  omega

theorem State.weight_worker_lt {s : State n M} {index : Fin n} {worker : Worker M}
    (h : worker.weight < (s.workers index).weight) :
    ∑ i, (update s.workers index worker i).weight + s.feed.weight < s.weight :=
  State.weight_setWorker_lt (Nat.add_lt_add_right h _)

section Draining

variable [NeZero n] {setup : Setup M} {s t : State n M} {event : Event n M}

theorem weight_of_moves (hstopping : s.IsStopping) (hmoves : Moves setup s event t) :
    t = s ∨ t = { s with cancelled := true } ∨ t.weight < s.weight := by
  -- a loop that is told to stop and has not ended its reads sees the signal
  have hsignal : s.feed.isOver = false → s.cancelled ≠ false := fun hreads hcancelled => by
    rcases hstopping with hstopped | hover
    · exact absurd (hcancelled.symm.trans hstopped) Bool.false_ne_true
    · exact absurd (hreads.symm.trans hover) Bool.false_ne_true
  cases hmoves with
  | stay => exact Or.inl rfl
  | stop => exact Or.inr (Or.inl rfl)
  | quit hfeed =>
    refine Or.inr (Or.inr (Nat.add_lt_add_left ?_ _))
    rcases hfeed with hfeed | hfeed <;> rw [hfeed] <;> simp only [Feed.weight] <;> omega
  | want hfeed hcancelled | begin hfeed hcancelled | wait hfeed hcancelled =>
    exact absurd hcancelled (hsignal (by rw [hfeed]; rfl))
  | choose hfeed | pull hfeed | fail hfeed | quitRead hfeed | close hfeed =>
    refine Or.inr (Or.inr (Nat.add_lt_add_left ?_ _))
    rw [hfeed]
    simp only [Feed.weight]
    omega
  | @hand index msg hfeed hslot | @mark index hfeed hslot =>
    refine Or.inr (Or.inr (State.weight_setWorker_lt ?_))
    rw [hfeed]
    simp only [Worker.weight, Feed.weight, hslot, Bool.not_false, Bool.toNat_true]
    omega
  | @park index holding finished hparked hphase hslot =>
    cases holding with
    | true =>
      -- the worker holds work of its own: it stays as it was
      have hworker : (⟨⟨none, false⟩, .waiting⟩ : Worker M) = s.workers index := by
        rw [← hslot, ← hparked, ← hphase]
      refine Or.inl ?_
      show s.setWorker index ⟨⟨none, false⟩, .waiting⟩ = s
      rw [hworker, State.setWorker, update_eq_self]
    | false =>
      refine Or.inr (Or.inr (State.weight_worker_lt ?_))
      simp only [Worker.weight, hslot, hphase, hparked, Phase.isDispatching, Bool.not_false,
        Bool.not_true, Bool.toNat_true, Bool.toNat_false]
      omega
  | leave hparked hphase hslot | dispatch hparked hphase hslot =>
    refine Or.inr (Or.inr (State.weight_worker_lt ?_))
    simp only [Worker.weight, hslot, hphase, hparked, Phase.isDispatching, Bool.toNat_true,
      Bool.toNat_false]
    omega
  | release hparked hphase | giveBack hparked hphase | refuse hparked hphase =>
    refine Or.inr (Or.inr (State.weight_worker_lt ?_))
    simp only [Worker.weight, hphase, Phase.isDispatching, Bool.toNat_true, Bool.toNat_false]
    omega

/-- A step that moves the loop or a worker on. -/
theorem weight_lt_of_moves (hstopping : s.IsStopping) (hmoves : Moves setup s event t)
    (hne : t.feed ≠ s.feed ∨ ∃ i, t.workers i ≠ s.workers i) : t.weight < s.weight := by
  rcases weight_of_moves hstopping hmoves with rfl | rfl | hless
  · rcases hne with hfeed | ⟨i, hworker⟩
    · exact absurd rfl hfeed
    · exact absurd rfl hworker
  · rcases hne with hfeed | ⟨i, hworker⟩
    · exact absurd rfl hfeed
    · exact absurd rfl hworker
  · exact hless

theorem isStopping_of_moves (hstopping : s.IsStopping) (hmoves : Moves setup s event t) : t.IsStopping := by
  rcases hstopping with hcancelled | hover
  · left
    cases hmoves with
    | stop => rfl
    | _ => exact hcancelled
  · cases hmoves with
    | stay | park | leave | dispatch | release | giveBack | refuse => exact Or.inr hover
    | stop => exact Or.inl rfl
    | quit | quitRead | mark | close => exact Or.inr rfl
    | want hfeed | begin hfeed | choose hfeed | pull hfeed | fail hfeed | wait hfeed | hand hfeed =>
      rw [hfeed] at hover
      cases hover

/-- A worker that has something in its slot and has not ended moves on when it is polled and its handler
finishes. -/
theorem Sound.worker_moves (h : Sound setup s) {index : Fin n}
    (hslot : (s.workers index).mailbox.slot ≠ none) (hphase : (s.workers index).phase ≠ .ended) :
    ((s.work setup index false true).workers index).phase ≠ (s.workers index).phase := by
  have hparked : (s.workers index).mailbox.parked ≠ true := fun hparked =>
    hslot (h.resting index hparked).1
  unfold State.work
  rw [if_neg hparked]
  split
  next hwaiting =>
    rw [hwaiting]
    cases hitem : (s.workers index).mailbox.slot with
    | none => exact absurd hitem hslot
    | some item =>
      cases item with
      | none =>
        simp only [Mailbox.receive, hitem, State.setWorker, update_self]
        exact fun hended => by cases hended
      | some msg =>
        simp only [Mailbox.receive, hitem, State.setWorker, update_self]
        exact fun hdispatching => by cases hdispatching
  next msg hdispatching =>
    have hfreed : ((s.setWorker index ⟨(s.workers index).mailbox, .waiting⟩).workers index).phase ≠
        .dispatching msg := by
      simp only [State.setWorker, update_self]
      exact fun hwaiting => by cases hwaiting
    rw [if_pos rfl, hdispatching]
    split_ifs with hkeyed
    · exact hfreed
    · unfold State.giveBack
      dsimp only
      split_ifs with hroom
      · exact hfreed
      · exact hfreed
  next hended => exact absurd hended hphase

/-- A poll in which the stream has nothing more reads nothing. -/
theorem pulled_of_finishes (hmoves : Moves setup s event t) (hfinishes : event.finishes = true) :
    t.pulled = s.pulled := by
  cases hmoves with
  | pull => cases hfinishes
  | _ => rfl

/-- While a task that was told to stop is not done, some poll in which the stream has nothing more and the
handlers finish takes it on. -/
theorem Sound.exists_weight_lt (h : Sound setup s) (hstopping : s.IsStopping) (hdone : ¬ s.IsDone) :
    ∃ event t, event.finishes = true ∧ step setup s event = some t ∧ t.pulled = s.pulled ∧
      t.weight < s.weight := by
  have hlower : ∀ event t, event.finishes = true → step setup s event = some t →
      (t.feed ≠ s.feed ∨ ∃ i, t.workers i ≠ s.workers i) → ∃ event t, event.finishes = true ∧
        step setup s event = some t ∧ t.pulled = s.pulled ∧ t.weight < s.weight := by
    intro event t hfinishes hstep hne
    have hmoves := moves_of_step hstep
    exact ⟨event, t, hfinishes, hstep, pulled_of_finishes hmoves hfinishes,
      weight_lt_of_moves hstopping hmoves hne⟩
  -- a worker that is not done with its mailbox takes the task on
  have hworker : ∀ index, (s.workers index).mailbox.slot ≠ none →
      (s.workers index).phase ≠ .ended → ∃ event t, event.finishes = true ∧
        step setup s event = some t ∧ t.pulled = s.pulled ∧ t.weight < s.weight := by
    intro index hslot hphase
    refine hlower (.work index false true) _ rfl rfl (Or.inr ⟨index, fun heq => ?_⟩)
    exact h.worker_moves hslot hphase (congrArg Worker.phase heq)
  have hsignal : s.feed.isOver = false → s.cancelled = true := fun hreads => by
    rcases hstopping with hcancelled | hover
    · exact hcancelled
    · exact absurd (hreads.symm.trans hover) Bool.false_ne_true
  cases hfeed : s.feed with
  | head =>
    have hcancelled := hsignal (by rw [hfeed]; rfl)
    refine hlower .loop { s with feed := .ending 0 } rfl ?_ (Or.inl ?_)
    · simp only [step, hfeed, State.top, hcancelled, if_true]
    · rw [hfeed]
      exact fun heq => by cases heq
  | choosing =>
    have hcancelled := hsignal (by rw [hfeed]; rfl)
    cases hfree : s.free with
    | nil =>
      refine hlower .loop { s with feed := .ending 0 } rfl ?_ (Or.inl ?_)
      · simp only [step, hfeed, State.choose, hfree, hcancelled, if_true]
      · rw [hfeed]
        exact fun heq => by cases heq
    | cons index rest =>
      refine hlower .loop { s with free := rest, held := some index, feed := .reading false } rfl ?_
        (Or.inl ?_)
      · simp only [step, hfeed, State.choose, hfree]
      · rw [hfeed]
        exact fun heq => by cases heq
  | reading parked =>
    have hcancelled := hsignal (by rw [hfeed]; rfl)
    refine hlower (.read false .pending) { s with feedIdle := false, feed := .ending 0 } rfl ?_
      (Or.inl ?_)
    · simp only [step, hfeed, State.read, hcancelled, idle_of_cancelled, Bool.false_eq_true, if_false,
        if_true]
    · rw [hfeed]
      exact fun heq => by cases heq
  | handing index msg =>
    cases hslot : (s.workers index).mailbox.slot with
    | none =>
      refine hlower .loop _ rfl (by simp only [step, hfeed]; rfl) (Or.inl ?_)
      rw [hfeed, State.hand, send_of_none hslot]
      exact fun heq => by cases heq
    | some item =>
      refine hworker index (by rw [hslot]; exact Option.some_ne_none item) ?_
      exact (h.unmarked (by rw [hfeed]; rfl) index).2
  | ending next =>
    by_cases hnext : next < n
    · cases hslot : (s.workers ⟨next, hnext⟩).mailbox.slot with
      | none =>
        refine hlower .loop _ rfl (by simp only [step, hfeed]; rfl) (Or.inl ?_)
        rw [hfeed, State.finish, dif_pos hnext, send_of_none hslot]
        intro heq
        have hnexts := Feed.ending.inj heq
        omega
      | some item =>
        refine hworker ⟨next, hnext⟩ (by rw [hslot]; exact Option.some_ne_none item) ?_
        have hmarked := h.marked ⟨next, hnext⟩
        have hnot : s.feed.past ⟨next, hnext⟩ = false := by
          rw [hfeed]
          exact decide_eq_false (lt_irrefl next)
        rw [hnot] at hmarked
        exact hmarked.2
    · refine hlower .loop { s with feed := .done } rfl ?_ (Or.inl ?_)
      · simp only [step, hfeed, State.finish, dif_neg hnext]
      · rw [hfeed]
        exact fun heq => by cases heq
  | done =>
    obtain ⟨index, hphase⟩ : ∃ index, (s.workers index).phase ≠ .ended := by
      by_contra hall
      exact hdone ⟨hfeed, fun i => not_not.mp (not_exists.mp hall i)⟩
    have hmarked := h.marked index
    have hpast : s.feed.past index = true := by rw [hfeed]; rfl
    rw [hpast] at hmarked
    rcases hmarked with ⟨hslot, -⟩ | ⟨-, hended⟩
    · exact hworker index (by rw [hslot]; exact Option.some_ne_none none) hphase
    · exact absurd hended hphase

/-- A task that was told to stop gets done, and reads nothing on the way, if the stream has nothing more and
the handlers finish. -/
theorem Sound.drains (h : Sound setup s) (hstopping : s.IsStopping) :
    ∃ events t, (∀ event ∈ events, event.finishes = true) ∧
      Run.exec (step setup) s events = some t ∧ t.IsDone ∧ t.pulled = s.pulled := by
  obtain ⟨events, t, hfinishes, hexec, ⟨-, -, hpulled⟩, hdone⟩ :=
    Drain.exists_exec (S := State n M) State.weight
      (fun u (hu : Sound setup u ∧ u.IsStopping ∧ u.pulled = s.pulled) hdone => by
        obtain ⟨hsound, hstop, hpulled⟩ := hu
        obtain ⟨event, t, hfinishes, hstep, hsame, hless⟩ := hsound.exists_weight_lt hstop hdone
        exact ⟨event, t, hfinishes, hstep, ⟨step_sound hsound hstep,
          isStopping_of_moves hstop (moves_of_step hstep), hsame.trans hpulled⟩, hless⟩)
      s ⟨h, hstopping, rfl⟩
  exact ⟨events, t, hfinishes, hexec, hdone, hpulled⟩

end Draining

/-! ## Whole runs -/

/-- What a run of the task keeps. -/
structure HandsOn (setup : Setup M) [NeZero n] (s : State n M) : Prop where
  /-- What was read for a worker is what it dispatched, in order, then what waits for it. -/
  once : ∀ i, Lanes.lane i s.dispatched ++ s.queue i = Lanes.lane i s.pulled
  /-- Once the task is done, every delivery read was dispatched, and once. -/
  all : s.IsDone → s.dispatched.Perm s.pulled
  /-- In a pool the index of a worker is free, in the loop's hand or with a busy worker. -/
  partition : setup.keyed = false → ∀ i, s.free.count i + s.inHand i + (s.workers i).busy = 1
  /-- The index of a worker that has dispatched finds room in the queue. -/
  returns : s.refused = false ∧ (setup.keyed = false → ∀ i msg,
    (s.workers i).phase = .dispatching msg → s.free.length < n)
  /-- A pool hands over at once. -/
  hands : setup.keyed = false → ∀ i msg, s.feed = .handing i msg → (s.workers i).mailbox.slot = none
  /-- With keys, the deliveries of one key are dispatched in the order they were read. -/
  ordered : setup.keyed = true → ∀ key,
    ((s.dispatched.map Prod.fst).filter fun msg => setup.key msg = some key) <+:
      (s.pulled.map Prod.fst).filter fun msg => setup.key msg = some key
  /-- A worker that is skipped has an empty mailbox and dispatches nothing. -/
  skipped : ∀ i, (s.workers i).mailbox.parked = true →
    (s.workers i).mailbox.slot = none ∧ (s.workers i).phase = .waiting
  /-- A worker that has read its end mark has dispatched all that was read for it, and the loop reads no
  more. -/
  ended : ∀ i, (s.workers i).phase = .ended →
    s.feed.isOver = true ∧ s.queue i = [] ∧ Lanes.lane i s.dispatched = Lanes.lane i s.pulled
  /-- The group is idle only while nothing read waits for a worker or is dispatched. -/
  idle : s.isIdle = true → ∀ i, s.queue i = [] ∧ (s.workers i).phase = .waiting
  /-- A worker that waits with a delivery in its slot dispatches it at its next poll. -/
  dispatches : ∀ i msg holding finished, (s.workers i).phase = .waiting →
    (s.workers i).mailbox.slot = some (some msg) →
    ∃ t, step setup s (.work i holding finished) = some t ∧
      t.dispatched = s.dispatched ++ [(msg, i)]
  /-- Once the task is told to stop, what it has left to do goes down with every poll that changes anything, and
  it gets done if the stream has nothing more and the handlers finish. -/
  drains : s.IsStopping →
    (∀ event t, step setup s event = some t →
      t = s ∨ t = { s with cancelled := true } ∨ t.weight < s.weight) ∧
    ∃ events t, (∀ event ∈ events, event.finishes = true) ∧
      Run.exec (step setup) s events = some t ∧ t.IsDone ∧ t.pulled = s.pulled ∧
      t.dispatched.Perm s.pulled

section Runs

variable [NeZero n] {setup : Setup M} {s t : State n M}

section

variable (h : Sound setup s)
include h

/-- A worker that has ended has nothing before it. -/
theorem Sound.queue_of_ended {i : Fin n} (hended : (s.workers i).phase = .ended) :
    s.feed.isOver = true ∧ s.queue i = [] := by
  have hmarked := h.marked i
  unfold Marked at hmarked
  split_ifs at hmarked with hpast
  · rcases hmarked with ⟨-, hnot⟩ | ⟨hslot, -⟩
    · exact absurd hended hnot
    · have hover : s.feed.isOver = true := by
        cases hfeed : s.feed <;> rw [hfeed] at hpast <;> first | rfl | cases hpast
      refine ⟨hover, ?_⟩
      rw [State.queue, Mailbox.waiting_of_slot hslot]
      cases hfeed : s.feed with
      | handing index msg =>
        rw [hfeed] at hover
        cases hover
      | _ => rfl
  · exact absurd hended hmarked.2

theorem Sound.perm_of_isDone (hdone : s.IsDone) : s.dispatched.Perm s.pulled :=
  h.lanes.perm fun i => (h.queue_of_ended (hdone.2 i)).2

/-- A pool hands over at once. -/
theorem Sound.slot_of_handing (hkeyed : setup.keyed = false) {i : Fin n} {msg : M}
    (hfeed : s.feed = .handing i msg) : (s.workers i).mailbox.slot = none := by
  have hcount := h.pool hkeyed i
  rw [State.inHand, hfeed, Feed.handingTo_self, Worker.busy] at hcount
  cases hslot : (s.workers i).mailbox.slot with
  | none => rfl
  | some item =>
    cases item with
    | none => exact absurd hslot (h.unmarked (by rw [hfeed]; rfl) i).1
    | some waiting =>
      rw [Mailbox.waiting_of_slot hslot] at hcount
      simp only [List.length_singleton, Option.getD_some, Option.toList_some] at hcount
      omega

theorem Sound.of_isIdle (hidle : s.isIdle = true) (i : Fin n) :
    s.queue i = [] ∧ (s.workers i).phase = .waiting := by
  obtain ⟨hfeed, hworkers⟩ := (Bool.and_eq_true _ _).mp hidle
  obtain ⟨hslot, hphase⟩ := h.resting i (List.all_eq_true.mp hworkers i (List.mem_finRange i))
  obtain ⟨parked, hreading⟩ := h.idle hfeed
  refine ⟨?_, hphase⟩
  rw [State.queue, Mailbox.waiting_of_slot hslot, hreading]
  rfl

theorem Sound.dispatches {i : Fin n} {msg : M} (holding finished : Bool)
    (hphase : (s.workers i).phase = .waiting)
    (hslot : (s.workers i).mailbox.slot = some (some msg)) :
    ∃ t, step setup s (.work i holding finished) = some t ∧
      t.dispatched = s.dispatched ++ [(msg, i)] := by
  have hparked : (s.workers i).mailbox.parked ≠ true := fun hparked => by
    rw [(h.resting i hparked).1] at hslot
    cases hslot
  refine ⟨_, rfl, ?_⟩
  simp only [State.work, if_neg hparked, hphase, Mailbox.receive, hslot]

end

end Runs

/-- **Every delivery is handed on once**, for every number of workers, in a pool and with keys, whatever the
stream answers, however long the handlers take and whenever the stop signal is given. -/
theorem workers_hand_on_once (n : ℕ) [NeZero n] {M : Type*} (setup : Setup M)
    (events : List (Event n M)) (s : State n M)
    (hexec : Run.exec (step setup) (start setup) events = some s) : HandsOn setup s := by
  have h := (sound_start setup).run hexec
  refine ⟨h.lanes.split, h.perm_of_isDone, h.pool, ⟨h.refused, ?_⟩, ?_, ?_, h.resting, ?_, h.of_isIdle,
    ?_, ?_⟩
  · intro hkeyed i msg hphase
    exact h.room hkeyed hphase
  · intro hkeyed i msg hfeed
    exact h.slot_of_handing hkeyed hfeed
  · intro hkeyed key
    refine h.lanes.prefix_filter (l := keyIndex key) _ fun entry hentry hkey => ?_
    exact h.keys hkeyed entry hentry key (of_decide_eq_true hkey)
  · intro i hended
    obtain ⟨hover, hqueue⟩ := h.queue_of_ended hended
    refine ⟨hover, hqueue, ?_⟩
    rw [← h.lanes.split i, hqueue, List.append_nil]
  · intro i msg holding finished hphase hslot
    exact h.dispatches holding finished hphase hslot
  · intro hstopping
    refine ⟨fun event t hstep => weight_of_moves hstopping (moves_of_step hstep), ?_⟩
    obtain ⟨polls, t, hfinishes, hpolls, hdone, hpulled⟩ := h.drains hstopping
    refine ⟨polls, t, hfinishes, hpolls, hdone, hpulled, ?_⟩
    rw [← hpulled]
    exact (h.run hpolls).perm_of_isDone hdone

/-- A pool of two workers that reads two deliveries, an error between them, and is told to stop while both are
dispatched. -/
def poolRun : List (Event 2 ℕ) :=
  [.loop, .loop, .read true (.delivery 7), .loop, .work (Fin.last 0).castSucc false false, .loop, .loop,
    .read true .error, .loop, .read true (.delivery 8), .loop, .work (Fin.last 1) false false, .stop,
    .loop, .work (Fin.last 1) false true]

def pool : Setup ℕ := ⟨false, fun _ => none, true⟩

theorem workers_hand_on_once_pool :
    ∃ s : State 2 ℕ, Run.exec (step pool) (start pool) poolRun = some s ∧
      s.dispatched = [(7, (Fin.last 0).castSucc), (8, Fin.last 1)] ∧ s.free = [Fin.last 1] ∧
      HandsOn pool s := by
  have hrun : (Run.exec (step pool) (start pool : State 2 ℕ) poolRun).any
      (fun s => decide (s.dispatched = [(7, (Fin.last 0).castSucc), (8, Fin.last 1)] ∧
        s.free = [Fin.last 1])) = true := by
    decide +kernel
  rw [Option.any_eq_true] at hrun
  obtain ⟨s, hexec, hs⟩ := hrun
  obtain ⟨hdispatched, hfree⟩ := of_decide_eq_true hs
  exact ⟨s, hexec, hdispatched, hfree, workers_hand_on_once 2 pool poolRun s hexec⟩

end Workers

end RustStream
