import RustStream.Rings.Once

/-!
# How far the loop reads ahead

Of the deliveries that were read, those whose handler has not finished are in the rings, in the hands
of the threads and in the hand of the loop. A ring holds no more than its entries and a thread one. A
pool picks a ring with room before it reads, and only the loop fills rings, so the delivery in its hand
has a place in that ring already: the rings and the threads bound the read-ahead.

With keys the loop reads before it knows the ring, and when that one is full it holds a delivery that
has no place. Once everything else is full as well it is one delivery further ahead than the rings and
the threads account for.

## Main definitions

* `Rings.State.unfinished`: the read-ahead.
* `Rings.Roomy`: the delivery in a pool's hand has a place.

## Main results

* `Rings.unfinished_eq`: where the deliveries of the read-ahead are.
* `read_ahead_bounded`: its bound, for a pool.
-/

namespace RustStream

namespace Rings

variable {n : ℕ} {α : Type*}

/-- The deliveries read whose handler has not finished. -/
def State.unfinished (s : State n α) : ℕ :=
  s.reads.length - ∑ i, (s.lanes i).handled.length

namespace Feeding

/-- The ring a pool has picked. -/
def picked : Feeding n → Option (Fin n)
  | .pulling picked => picked
  | .pullWaiting picked => picked
  | .clearing (.next _) (.ok index) => some index
  | _ => none

/-- Only deliveries with keys bring the loop here. -/
def isKeyed : Feeding n → Bool
  | .pulling picked => picked.isNone
  | .pullWaiting picked => picked.isNone
  | .routing => true
  | .handingOver => true
  | phase => !phase.which.all Which.isNext

end Feeding

/-! ## Where the read-ahead is -/

theorem sum_routed (reads : List (α × Fin n)) :
    ∑ i, (reads.filter fun p => p.2 = i).length = reads.length := by
  induction reads with
  | nil => simp
  | cons p reads ih =>
    have hone : ∀ i, ((p :: reads).filter fun p => p.2 = i).length
        = (reads.filter fun p => p.2 = i).length + if p.2 = i then 1 else 0 := by
      intro i
      by_cases h : p.2 = i <;> simp [h]
    rw [Finset.sum_congr rfl fun i _ => hone i, Finset.sum_add_distrib, ih,
      Finset.sum_ite_eq Finset.univ p.2, if_pos (Finset.mem_univ _), List.length_cons]

theorem length_hand_le (l : Lane n α) : l.hand.toList.length ≤ 1 := by
  rcases l.hand with _ | _ <;> simp

section Place

variable [NeZero n] {setup : Setup α} {s : State n α}

/-- **Where the read-ahead is**: in the threads' hands, in the rings and in the hand of the loop. -/
theorem unfinished_eq (h : Exact setup s) :
    s.unfinished = ∑ i, ((s.lanes i).hand.toList.length + (s.lanes i).ring.length
      + (s.dueFor i).length) := by
  have hreads : s.reads.length = ∑ i, ((s.lanes i).handled.length
      + ((s.lanes i).hand.toList.length + (s.lanes i).ring.length + (s.dueFor i).length)) := by
    rw [← sum_routed s.reads]
    refine Finset.sum_congr rfl fun i _ => ?_
    have hlength := congrArg List.length (h.routed i)
    rw [← (h.lanes i).all, State.routed, List.length_map, List.length_append, List.length_append,
      List.length_append] at hlength
    omega
  rw [State.unfinished, hreads, Finset.sum_add_distrib, Nat.add_sub_cancel_left]

end Place

/-! ## The bound -/

section Bound

/-- The rings hold no more than their entries. -/
def Bounded (s : State n α) : Prop := ∀ i, (s.lanes i).ring.length ≤ ringSize

/-- In a pool a ring that was picked has room, and so has that of the delivery in the loop's hand. -/
structure Roomy (s : State n α) : Prop where
  phase : s.phase.isKeyed = false
  picked : ∀ i, s.phase.picked = some i → (s.lanes i).ring.length < ringSize
  due : ∀ i delivery, s.due = some (i, delivery) →
    s.phase = .pushing ∧ (s.lanes i).ring.length < ringSize

variable {s s' : State n α} {i : Fin n}

theorem length_ring_of_works {index : Fin n} {waiting : Waiting n} {l l' : Lane n α} {act : Act}
    {signal : Signal} (hworks : Works index waiting l act l' signal) :
    l'.ring.length ≤ l.ring.length := by
  cases hworks with
  | pop delivery rest hphase hring =>
    rw [hring]
    exact Nat.le_succ _
  | _ => exact le_rfl

theorem Bounded.setLane (h : Bounded s) {l : Lane n α} (hring : l.ring.length ≤ ringSize) :
    Bounded (s.setLane i l) :=
  forall_setLane (p := fun _ l => l.ring.length ≤ ringSize) h hring

/-- A step that fills no ring. -/
theorem Roomy.walk (h : Roomy s) (hlanes : ∀ i, (s'.lanes i).ring.length ≤ (s.lanes i).ring.length)
    (hkeyed : s'.phase.isKeyed = false)
    (hpicked : ∀ i, s'.phase.picked = some i → (s.lanes i).ring.length < ringSize)
    (hdue : s'.due = s.due) (hpushing : s.phase ≠ .pushing) : Roomy s' := by
  refine ⟨hkeyed, fun i hi => (hlanes i).trans_lt (hpicked i hi), fun i delivery hi => ?_⟩
  rw [hdue] at hi
  exact absurd (h.due i delivery hi).1 hpushing

/-- The same, where the loop leaves the lanes alone and picks no ring. -/
theorem Roomy.walkOn (h : Roomy s) (hlanes : s'.lanes = s.lanes) (hkeyed : s'.phase.isKeyed = false)
    (hpicked : s'.phase.picked = none) (hdue : s'.due = s.due) (hpushing : s.phase ≠ .pushing) :
    Roomy s' := by
  refine h.walk (fun i => ?_) hkeyed (fun i hi => ?_) hdue hpushing
  · rw [hlanes]
  · rw [hpicked] at hi
    cases hi

theorem Roomy.walkLane (h : Roomy s) {l : Lane n α} (hlanes : s'.lanes = (s.setLane i l).lanes)
    (hring : l.ring = (s.lanes i).ring) (hkeyed : s'.phase.isKeyed = false)
    (hpicked : s'.phase.picked = none) (hdue : s'.due = s.due) (hpushing : s.phase ≠ .pushing) :
    Roomy s' := by
  refine h.walk (fun j => ?_) hkeyed (fun j hj => ?_) hdue hpushing
  · rw [hlanes]
    exact forall_setLane (p := fun j l => l.ring.length ≤ (s.lanes j).ring.length)
      (fun _ => le_rfl) (by rw [hring]) j
  · rw [hpicked] at hj
    cases hj

theorem Roomy.drain (h : Roomy s) {index : Fin n} {act : Act} {l : Lane n α} {signal : Signal}
    (hworks : Works index s.waiting (s.lanes index) act l signal) :
    Roomy ((s.setLane index l).signal signal) := by
  have hshorter : ∀ j, ((s.setLane index l).lanes j).ring.length ≤ (s.lanes j).ring.length :=
    forall_setLane (p := fun j l => l.ring.length ≤ (s.lanes j).ring.length) (fun _ => le_rfl)
      (length_ring_of_works hworks)
  have hlane : Roomy (s.setLane index l) := by
    refine ⟨h.phase, fun j hj => (hshorter j).trans_lt (h.picked j hj), fun j delivery hj => ?_⟩
    obtain ⟨hpushing, hroom⟩ := h.due j delivery hj
    exact ⟨hpushing, (hshorter j).trans_lt hroom⟩
  rcases signal with _ | _ | _
  · exact hlane
  · exact ⟨hlane.phase, hlane.picked, hlane.due⟩
  · exact ⟨hlane.phase, hlane.picked, hlane.due⟩

/-- In a pool the delivery in the loop's hand has its place in the ring. -/
theorem Roomy.length_le (h : Roomy s) (hbounded : Bounded s) (i : Fin n) :
    (s.lanes i).ring.length + (s.dueFor i).length ≤ ringSize := by
  rcases hdue : s.due with _ | ⟨index, delivery⟩
  · rw [dueFor_eq_nil hdue]
    exact hbounded i
  · rw [dueFor_of_due hdue]
    split_ifs with heq
    · subst heq
      exact (h.due index delivery hdue).2
    · exact hbounded i

end Bound

section Feed

variable [NeZero n] {setup : Setup α} {s s' : State n α} {e : Event n α}

theorem Roomy.feed (h : Roomy s) (hpool : setup.keyed = false) (hfeeds : Feeds setup s s') :
    Roomy s' := by
  cases hfeeds with
  | started index phase hphase hnext =>
    refine h.walkLane (i := index) rfl rfl ?_ ?_ rfl (by rw [hphase]; simp)
    · rcases hnext with rfl | rfl <;> rfl
    · rcases hnext with rfl | rfl <;> rfl
  | startFailed index hphase | swap index counted hphase =>
    exact h.walkLane (i := index) rfl rfl rfl rfl rfl (by rw [hphase]; simp)
  | stop hphase =>
    refine h.walkOn rfl rfl rfl rfl ?_
    rcases hphase with hphase | ⟨start, hphase⟩ | ⟨picked, hphase⟩ <;> rw [hphase] <;> simp
  | pullKeyed hphase hkeyed =>
    rw [hpool] at hkeyed
    cases hkeyed
  | threadGone index hconsumer hphase =>
    refine h.walkOn rfl rfl rfl rfl ?_
    rcases hphase with ⟨which, offset, hphase⟩ | hphase <;> rw [hphase] <;> simp
  | room which offset hphase hroom | roomAgain which offset hphase hroom =>
    have hnext := h.phase
    rw [hphase] at hnext
    rcases which with index | start
    · cases hnext
    · refine h.walk (fun _ => le_rfl) rfl (fun i hi => ?_) rfl (by rw [hphase]; simp)
      cases hi
      exact hroom
  | clear which result hphase =>
    have hnext := h.phase
    have hpicked := h.picked
    rw [hphase] at hnext hpicked
    rcases which with index | start
    · cases hnext
    · rcases result with gone | index
      · exact h.walkOn rfl rfl rfl rfl (by rw [hphase]; simp)
      · exact h.walk (fun _ => le_rfl) rfl hpicked rfl (by rw [hphase]; simp)
  | ask which _ _ hphase _ | threadGoneAgain which _ hphase _ | full which _ _ hphase _
  | fullLast which _ hphase | register which hphase | flag which hphase | resume which hphase =>
    have hnext := h.phase
    rw [hphase] at hnext
    rcases which with index | start
    · cases hnext
    · exact h.walkOn rfl rfl rfl rfl (by rw [hphase]; simp)
  | lookPool hphase _ | cancel _ _ hphase _ _ | waitNext _ hphase | parked _ _ hphase | yield hphase
  | error _ hphase | resumeYield hphase | letGoEnd _ hphase | closeEnd _ hphase _ =>
    exact h.walkOn rfl rfl rfl rfl (by rw [hphase]; simp)
  | pending picked hphase | resumePull picked hphase =>
    have hkeyed := h.phase
    have hpicked := h.picked
    rw [hphase] at hkeyed hpicked
    exact h.walk (fun _ => le_rfl) hkeyed hpicked rfl (by rw [hphase]; simp)
  | waitOne _ _ hphase _ | routed _ _ hphase _ | noRoomAgain _ _ hphase _ =>
    have hkeyed := h.phase
    rw [hphase] at hkeyed
    cases hkeyed
  | push index delivery counted hphase hdue hroom =>
    exact ⟨rfl, fun i hi => (by cases hi), fun i d hi => (by cases hi)⟩
  | noRoom index delivery hphase hdue hfull =>
    -- the ring of a delivery in a pool's hand has room
    exact absurd (h.due index delivery hdue).2 (Nat.not_lt.mpr hfull)
  | unparked index counted hphase hparked =>
    obtain ⟨handed, phase, heq, hnext⟩ := exists_handedOver_eq s counted
    have hpushing : s.phase ≠ .pushing := by
      rcases hphase with hphase | hphase <;> rw [hphase] <;> simp
    rw [heq]
    rcases hnext with rfl | rfl
    · exact h.walkOn rfl rfl rfl rfl hpushing
    · exact h.walkOn rfl rfl rfl rfl hpushing
  | wakeThread index counted hphase =>
    obtain ⟨handed, phase, heq, hnext⟩ := exists_handedOver_eq (s.wakeThread index) counted
    rw [heq]
    rcases hnext with rfl | rfl
    · exact h.walkLane (i := index) rfl rfl rfl rfl rfl (by rw [hphase]; simp)
    · exact h.walkLane (i := index) rfl rfl rfl rfl rfl (by rw [hphase]; simp)
  | read picked delivery hphase =>
    have hkeyed := h.phase
    rw [hphase] at hkeyed
    rcases picked with _ | index
    · cases hkeyed
    · have hroom := h.picked index (by rw [hphase]; rfl)
      refine ⟨rfl, fun i hi => (by cases hi), fun i d hi => ⟨rfl, ?_⟩⟩
      cases hi
      exact hroom
  | letGo index hphase | close index hphase =>
    exact h.walkLane (i := index) rfl rfl rfl rfl rfl (by rw [hphase]; simp)

theorem Roomy.step (h : Roomy s) (hpool : setup.keyed = false) (hstep : step setup s e = some s') :
    Roomy s' := by
  cases effect_of_step hstep with
  | drain index act l signal hworks => exact h.drain hworks
  | feed turn _ hfeeds => exact h.feed hpool hfeeds
  | shutdown => exact ⟨h.phase, h.picked, h.due⟩


theorem Bounded.feed (h : Bounded s) (hfeeds : Feeds setup s s') : Bounded s' := by
  cases hfeeds with
  | push index delivery counted hphase hdue hroom =>
    refine h.setLane (i := index) ?_
    change ((s.lanes index).ring ++ [delivery]).length ≤ ringSize
    rw [List.length_append]
    exact hroom
  | started index phase | startFailed index | swap index counted | letGo index | close index =>
    exact h.setLane (i := index) (h index)
  | wakeThread index counted =>
    obtain ⟨handed, phase, heq, -⟩ := exists_handedOver_eq (s.wakeThread index) counted
    rw [heq]
    exact h.setLane (i := index) (h index)
  | unparked index counted =>
    obtain ⟨handed, phase, heq, -⟩ := exists_handedOver_eq s counted
    rw [heq]
    exact h
  | room which offset | clear which result =>
    rw [found_eq]
    exact h
  | _ => exact h

theorem Bounded.step (h : Bounded s) (hstep : step setup s e = some s') : Bounded s' := by
  cases effect_of_step hstep with
  | drain index act l signal hworks =>
    have hlane : Bounded (s.setLane index l) :=
      h.setLane ((length_ring_of_works hworks).trans (h index))
    rcases signal with _ | _ | _ <;> exact hlane
  | feed turn _ hfeeds => exact h.feed hfeeds
  | shutdown => exact h

/-- **The read-ahead of a pool**: a ring and a delivery in hand for each thread. -/
theorem Roomy.unfinished_le (h : Roomy s) (hbounded : Bounded s) (hexact : Exact setup s) :
    s.unfinished ≤ n * (1 + ringSize) := by
  rw [unfinished_eq hexact]
  calc ∑ i, ((s.lanes i).hand.toList.length + (s.lanes i).ring.length + (s.dueFor i).length)
      ≤ ∑ _i : Fin n, (1 + ringSize) := by
        refine Finset.sum_le_sum fun i _ => ?_
        have hhand := length_hand_le (s.lanes i)
        have hring := h.length_le hbounded i
        omega
    _ = n * (1 + ringSize) := by simp

/-- The read-ahead of any subscription: one delivery more. -/
theorem unfinished_le_succ (hbounded : Bounded s) (hexact : Exact setup s) :
    s.unfinished ≤ n * (1 + ringSize) + 1 := by
  have hone : ∑ i, (s.dueFor i).length ≤ 1 := by
    rcases hdue : s.due with _ | ⟨index, delivery⟩
    · simp [dueFor_eq_nil hdue]
    · simp [dueFor_of_due hdue, apply_ite List.length]
  have hrest : ∑ i, ((s.lanes i).hand.toList.length + (s.lanes i).ring.length)
      ≤ n * (1 + ringSize) := by
    calc ∑ i, ((s.lanes i).hand.toList.length + (s.lanes i).ring.length)
        ≤ ∑ _i : Fin n, (1 + ringSize) :=
          Finset.sum_le_sum fun i _ => Nat.add_le_add (length_hand_le _) (hbounded i)
      _ = n * (1 + ringSize) := by simp
  rw [unfinished_eq hexact, Finset.sum_add_distrib]
  exact Nat.add_le_add hrest hone

end Feed

end Rings

/-- **The read-ahead of a pool is bounded.** In every interleaving, also where threads leave, the
deliveries read by a subscription without keys whose handler has not finished are no more than a full
ring and one in hand for each thread. -/
theorem read_ahead_bounded (n : ℕ) [NeZero n] {α : Type*} (setup : Rings.Setup α)
    (hpool : setup.keyed = false) (events : List (Rings.Event n α)) (s : Rings.State n α)
    (hexec : Run.exec (Rings.step setup) (.start n α) events = some s) :
    s.unfinished ≤ n * (1 + Rings.ringSize) := by
  obtain ⟨hexact, hbounded, hroomy⟩ := @Run.exec_invariant _ _ (Rings.step setup) (fun _ _ => True)
    (fun _ s => Rings.Exact setup s ∧ Rings.Bounded s ∧ Rings.Roomy s) _ _ _ []
    (fun _ _ _ _ h _ hstep => ⟨h.1.step hstep, h.2.1.step hstep, h.2.2.step hpool hstep⟩)
    ⟨Rings.exact_start setup, fun _ => Nat.zero_le _,
      ⟨rfl, fun i hi => (by cases hi), fun i d hi => (by cases hi)⟩⟩
    (Run.allSteps_of_forall (fun _ _ _ => trivial) _) hexec
  exact hroomy.unfinished_le hbounded hexact

/-- With keys the read-ahead is at most one delivery more. -/
theorem read_ahead_keyed (n : ℕ) [NeZero n] {α : Type*} (setup : Rings.Setup α)
    (events : List (Rings.Event n α)) (s : Rings.State n α)
    (hexec : Run.exec (Rings.step setup) (.start n α) events = some s) :
    s.unfinished ≤ n * (1 + Rings.ringSize) + 1 := by
  obtain ⟨hexact, hbounded⟩ := Run.exec_always (P := fun s => Rings.Exact setup s ∧ Rings.Bounded s)
    (fun _ _ _ h hstep => ⟨h.1.step hstep, h.2.step hstep⟩) ⟨Rings.exact_start setup, fun _ => Nat.zero_le _⟩ hexec
  exact Rings.unfinished_le_succ hbounded hexact

namespace Rings

/-- One thread, with keys or without; all deliveries have the same key. -/
def oneThread (keyed : Bool) : Setup ℕ :=
  ⟨keyed, fun _ => some [], fun _ => 0⟩

/-- A pool picks the ring, reads a delivery and pushes it. -/
def pushedOne : List (Event 1 ℕ) :=
  [.feed .step, .feed .step, .feed .step, .feed (.pull (.delivery 0)), .feed .step, .feed .step]

theorem read_ahead_bounded_pushedOne :
    ∃ s, Run.exec (step (oneThread false)) (.start 1 ℕ) (.feed (.start true) :: pushedOne) = some s ∧
      s.unfinished ≤ 1 * (1 + ringSize) := by
  have hrun : (Run.exec (step (oneThread false)) (.start 1 ℕ)
      (.feed (.start true) :: pushedOne)).isSome = true := by decide +kernel
  obtain ⟨s, hexec⟩ := Option.isSome_iff_exists.mp hrun
  exact ⟨s, hexec, read_ahead_bounded 1 (oneThread false) rfl _ s hexec⟩

/-- A delivery with a key is read and pushed. -/
def keyedOne : List (Event 1 ℕ) :=
  [.feed .step, .feed (.pull (.delivery 0)), .feed .step, .feed .step, .feed .step]

/-- Nine deliveries fill the thread's hand and its ring; a tenth is read, and the loop waits for room
with it. -/
def keyedRun : List (Event 1 ℕ) :=
  List.flatten [[.feed (.start true)], keyedOne, [.drain (.last 0) .step],
    (List.replicate 8 keyedOne).flatten, [.feed .step, .feed (.pull (.delivery 0))],
    List.replicate 9 (.feed .step)]

theorem read_ahead_keyed_keyedRun : ∃ s, Run.exec (step (oneThread true)) (.start 1 ℕ) keyedRun = some s ∧
    s.unfinished ≤ 1 * (1 + ringSize) + 1 := by
  have hrun : (Run.exec (step (oneThread true)) (.start 1 ℕ) keyedRun).isSome = true := by decide +kernel
  obtain ⟨s, hexec⟩ := Option.isSome_iff_exists.mp hrun
  exact ⟨s, hexec, read_ahead_keyed 1 (oneThread true) _ s hexec⟩

theorem read_ahead_exceeded :
    (oneThread true).keyed = true ∧
    (Run.exec (step (oneThread true)) (.start 1 ℕ) keyedRun).any
      (fun s => 1 * (1 + ringSize) < s.unfinished) = true := by
  refine ⟨rfl, ?_⟩
  decide +kernel

end Rings

end RustStream
