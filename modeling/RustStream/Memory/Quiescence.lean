import RustStream.Memory.Balance

/-!
# Whether a count of zero means rest

The harness reads the count and takes zero for rest. A thread that has put a delivery in a queue, or
handed over a reposition, and has not counted it yet makes the reading too low: the harness may find
zero with work in flight, and a handler quick enough to settle the delivery first counts down from
zero, which wraps.

A poll that swaps a queue counts its replay before it queues it, and the token of its reposition after
that, so its counts are never late. Once no other thread is late the count is at least the work in
flight, and a run in which the count is only read and counted down at such moments sees no false rest
and no wrap.

## Main definitions

* `Harness.State.IsCurrent`: no thread but a poll has a count up outstanding.
* `Harness.Prompt`: the steps that rely on the count only while it is current.

## Main results

* `Harness.Sound.work_le_inFlight`: a current count is at least the work in flight.
* `quiescence_sound`: zero means rest and the count does not wrap, where every step is prompt.
-/

namespace RustStream

open Function

open Ledger (Op)

namespace Harness

variable {n w : ℕ} {s s' : State n w} {e : Event n w} {i : Fin n} {t : Thread n w} {m : Move}
  {v v' : View}

/-- Every publisher, handler, timer and seeker has counted what it sent or asked for. -/
def State.IsCurrent (s : State n w) : Prop := ∀ k, .up ∉ s.owes (.inr k)

instance (s : State n w) : Decidable s.IsCurrent :=
  inferInstanceAs (Decidable (∀ k, .up ∉ s.owes (.inr k)))

/-- The count is read, or counted down. -/
def Event.reliesOnCount (s : State n w) : Event n w → Bool
  | .count t => (s.owes t).head? = some .down
  | .read => true
  | _ => false

/-- Every send is counted, the count is relied on only while it is current, and it can say how much is
in flight. -/
def Prompt (s : State n w) (e : Event n w) : Prop :=
  SendsCounted s e ∧ (e.reliesOnCount s = true → s.IsCurrent) ∧
    s.book.total + s.book.owed .down < 2 ^ 64

instance (s : State n w) (e : Event n w) : Decidable (Prompt s e) :=
  inferInstanceAs (Decidable (_ ∧ (e.reliesOnCount s = true → s.IsCurrent) ∧ _))

/-! ## A poll is never late -/

/-- What a poll has yet to count up is there only once it is counted. -/
def Ahead (s : State n w) : Prop :=
  ∀ i, (s.owes (.inl i)).count .up
    ≤ (s.view i).cursor.phase.ahead s.broker.log (s.view i).cursor.name

/-- The counts up of a poll are those of a replay that lies ahead. -/
theorem ups_of_moves {log : LogState} {live : Bool} (hmoves : Moves i log live v m v')
    (hpoll : m.isPoll = true) :
    (owedBy log v v' m).count .up ≤ v'.cursor.phase.ahead log v'.cursor.name := by
  cases hmoves with
  | refused position | store position target | replace target | requeue k delivery | settle k =>
    cases hpoll
  | lock target more hphase hlock =>
    simp [owedBy, View.setPhase, Phase.ahead]
  | stale more delivery hphase hstale => simp [owedBy, hphase, hstale]
  | handOut more delivery hphase hfresh =>
    simp [owedBy, hphase, Nat.not_lt.mpr hfresh]
  | _ => exact Nat.zero_le _

/-- Seekers and handlers leave the poll where it is. -/
theorem phase_of_moves {log : LogState} {live : Bool} (hmoves : Moves i log live v m v')
    (hpoll : m.isPoll = false) :
    v'.cursor.phase = v.cursor.phase ∧ v'.cursor.name = v.cursor.name := by
  cases hmoves with
  | refused position | store position target | replace target | requeue k delivery | settle k =>
    exact ⟨rfl, rfl⟩
  | _ => cases hpoll

section

variable (h : Ahead s)
include h

section

variable (hput : s'.seeking = s.seeking.put i v)
include hput

theorem Ahead.put (hothers : ∀ j, j ≠ i → s'.owes (.inl j) = s.owes (.inl j))
    (hself : (s'.owes (.inl i)).count .up ≤ v.cursor.phase.ahead s.broker.log v.cursor.name) :
    Ahead s' := by
  intro j
  rw [State.view, State.broker, hput]
  rcases eq_or_ne j i with rfl | hne
  · rw [view_put_self]
    exact hself
  · rw [view_put_of_ne s.seeking (fun heq => hne (Fin.ext heq)), hothers j hne]
    exact h j

/-- The poll of a subscription changes it. -/
theorem Ahead.put_own {ops : List Op} (howes : s'.owes = update s.owes (.inl i) ops)
    (hups : ops.count .up ≤ v.cursor.phase.ahead s.broker.log v.cursor.name) : Ahead s' := by
  refine h.put hput (fun j hj => ?_) ?_
  · rw [howes]
    exact update_of_ne (fun heq => hj (Sum.inl_injective heq)) _ _
  · rwa [howes, update_self]

/-- Another thread changes it. -/
theorem Ahead.put_other {k : Fin w} {ops : List Op} (howes : s'.owes = update s.owes (.inr k) ops)
    (hphase : v.cursor.phase = (s.view i).cursor.phase)
    (hname : v.cursor.name = (s.view i).cursor.name) : Ahead s' := by
  have hpolls : ∀ j, s'.owes (.inl j) = s.owes (.inl j) := fun j => by
    rw [howes]
    exact update_of_ne Sum.inl_ne_inr _ _
  refine h.put hput (fun j _ => hpolls j) ?_
  rw [hpolls i, hphase, hname]
  exact h i

end

theorem Ahead.setBroker (hsound : Sound s) (hfree : s.seeking.lock = .free)
    (broker : MemoryState) : Ahead (s.setBroker broker) := by
  intro j
  have hswap : (s.view j).cursor.phase.isSwap = false := by
    refine Bool.eq_false_iff.mpr fun hswap => ?_
    have hlock := hsound.swapping j hswap
    rw [hfree] at hlock
    cases hlock
  have hj := h j
  rw [ahead_of_not_isSwap hswap] at hj
  exact hj.trans (Nat.zero_le _)

theorem Ahead.sendNext {k : Fin w} {delivery : MemoryDelivery} {tx : ℕ} {pattern : Bool}
    {rest : List (ℕ × Bool)} : Ahead (s.sendNext k delivery tx pattern rest) := by
  unfold State.sendNext
  dsimp only
  split_ifs with hlt hopen hcount
  · exact h.put_other rfl rfl rfl rfl
  · exact h.put_other rfl rfl rfl rfl
  · exact h
  · exact h

theorem Ahead.step (hsound : Sound s) (hstep : step s e = some s') : Ahead s' := by
  cases effect_of_step hstep with
  | register _ broker hlock hqueues hopen => exact h.setBroker hsound hlock broker
  | publish k shared registry hlock hbus => exact h.setBroker hsound hlock _
  | send k delivery tx pattern rest hpublishing howes => exact h.sendNext
  | poll i m hpoll hopen howes _ hmove =>
    obtain ⟨v, hmoves, rfl⟩ := exists_change_of_move hmove
    exact h.put_own rfl rfl (ups_of_moves hmoves hpoll)
  | act k i m m' hpoll hdrop howes _ hmove =>
    obtain ⟨v, hmoves, rfl⟩ := exists_change_of_move hmove
    obtain ⟨hphase, hname⟩ := phase_of_moves hmoves hpoll
    exact h.put_other rfl rfl hphase hname
  | nackAfter k i j delivery howes hhand => exact h.put_other rfl rfl rfl rfl
  | fire k i j delivery howes => exact h.put_other rfl rfl rfl rfl
  | drain i head queue howes hqueue => exact h.put_own rfl rfl (Nat.zero_le _)
  | count t op rest howes =>
    intro j
    refine le_trans ?_ (h j)
    change (update s.owes t rest (.inl j)).count .up ≤ _
    rcases eq_or_ne (.inl j) t with rfl | hne
    · rw [update_self, howes]
      exact List.count_le_count_cons
    · rw [update_of_ne hne]
  | _ => exact h

/-! ## A count that is current -/

theorem owed_up_le (hcurrent : s.IsCurrent) : s.book.owed .up
      ≤ ∑ i, (s.view i).cursor.phase.ahead s.broker.log (s.view i).cursor.name := by
  have hsplit : s.book.owed .up
      = ∑ i, (s.owes (.inl i)).count .up + ∑ k, (s.owes (.inr k)).count .up :=
    Fintype.sum_sum_type _
  have hnone : ∑ k, (s.owes (.inr k)).count .up = 0 :=
    Finset.sum_eq_zero fun k _ => List.count_eq_zero.mpr (hcurrent k)
  rw [hsplit, hnone, Nat.add_zero]
  exact Finset.sum_le_sum fun i _ => h i

end

/-- **A current count is at least the work in flight**, and what is still to be counted down. -/
theorem Sound.work_le_inFlight (h : Sound s) (hcounted : Counted s) (hahead : Ahead s)
    (hcurrent : s.IsCurrent) (hlt : s.book.total + s.book.owed .down < 2 ^ 64) :
    ∑ i, (s.view i).work + s.book.owed .down ≤ s.inFlight.toNat := by
  have hups := owed_up_le hahead hcurrent
  have htotal : s.book.total = ∑ i, (s.view i).work
      + ∑ i, (s.view i).cursor.phase.ahead s.broker.log (s.view i).cursor.name :=
    Finset.sum_add_distrib
  have hcount : s.inFlight.toNat + s.book.owed .up = s.book.total + s.book.owed .down :=
    h.balanced.count_add_owed hcounted.stray (by omega) hlt
  omega

/-- The harness has seen no false rest, and the count has not wrapped. -/
def State.Quiescent (s : State n w) : Prop := s.early = false ∧ s.wrapped = false

theorem quiescent_step (hquiet : s.Quiescent) (h : Sound s) (hcounted : Counted s)
    (hahead : Ahead s) (hok : Prompt s e) (hstep : step s e = some s') : s'.Quiescent := by
  obtain ⟨-, hcurrent, hlt⟩ := hok
  cases effect_of_step hstep with
  | send k delivery tx pattern rest hpublishing howes =>
    unfold State.sendNext
    dsimp only
    split_ifs <;> exact hquiet
  | poll i m hpoll hopen howes _ hmove | act k i m m' hpoll hdrop howes _ hmove =>
    obtain ⟨v, -, rfl⟩ := exists_change_of_move hmove
    exact hquiet
  | count t op rest howes =>
    refine ⟨hquiet.1, ?_⟩
    change (s.wrapped || (decide (op = .down) && decide (s.inFlight = 0))) = false
    rw [hquiet.2, Bool.false_or]
    rcases op with _ | _
    · rfl
    · -- what is counted down now is part of what the count is at least
      have hwork := h.work_le_inFlight hcounted hahead (hcurrent (by simp [Event.reliesOnCount, howes]))
        hlt
      have hone : 1 ≤ s.book.owed .down := by
        have hcount : 1 ≤ (s.book.owes t).count .down := by
          change 1 ≤ (s.owes t).count .down
          rw [howes]
          simp
        exact hcount.trans (Finset.single_le_sum (f := fun t => (s.book.owes t).count .down)
          (fun _ _ => Nat.zero_le _) (Finset.mem_univ t))
      have hpos : s.inFlight ≠ 0 := by
        intro hzero
        rw [hzero] at hwork
        change _ ≤ 0 at hwork
        omega
      simp [hpos]
  | read =>
    refine ⟨?_, hquiet.2⟩
    change (s.early || (decide (s.inFlight = 0) && s.isBusy)) = false
    rw [hquiet.1, Bool.false_or, Bool.and_eq_false_iff]
    rcases eq_or_ne s.inFlight 0 with hzero | hpos
    · have hwork := h.work_le_inFlight hcounted hahead (hcurrent rfl) hlt
      rw [hzero] at hwork
      change _ ≤ 0 at hwork
      have hnone : ∑ i, (s.view i).work = 0 := by omega
      right
      simp only [State.isBusy, decide_eq_false_iff_not, not_exists, Nat.not_lt]
      intro i
      exact le_of_eq (Finset.sum_eq_zero_iff.mp hnone i (Finset.mem_univ i))
    · left
      simp [hpos]
  | _ => exact hquiet

end Harness

/-- **Zero means rest, where every step is prompt.** In every interleaving, from a broker with empty
queues, in which the count is read and counted down only while no other thread has yet to count what
it sent or asked for, no read of zero finds work in flight and the count does not wrap. -/
theorem quiescence_sound (n w : ℕ) (broker : MemoryState) (names : ℕ → String)
    (hqueues : ∀ i, broker.queues i = []) (events : List (Harness.Event n w))
    (s : Harness.State n w)
    (hall : Run.AllSteps Harness.step Harness.Prompt (.start n w (.start broker names)) events)
    (hexec : Run.exec Harness.step (.start n w (.start broker names)) events = some s) :
    s.early = false ∧ s.wrapped = false := by
  have hrun := @Run.exec_invariant _ _ Harness.step Harness.Prompt
    (fun _ s => (Harness.Sound s ∧ Harness.Counted s) ∧ Harness.Ahead s ∧ s.Quiescent) _ _ _ []
    (fun _ _ _ _ h hok hstep => ⟨⟨h.1.1.step hstep, h.1.2.step hok.1 hstep⟩,
      h.2.1.step h.1.1 hstep, Harness.quiescent_step h.2.2 h.1.1 h.1.2 h.2.1 hok hstep⟩)
    ⟨⟨Harness.sound_start broker names hqueues, Harness.counted_start broker names⟩,
      fun _ => Nat.zero_le _, rfl, rfl⟩ hall hexec
  exact hrun.2.2

namespace Harness

/-- The run that ends settled, and a read of the count. -/
def settledRead : List (Event 1 1) := List.flatten [settledRun, [.read]]

theorem quiescence_sound_settledRead :
    ∃ s, Run.exec step (oneReader "orders") settledRead = some s ∧ s.early = false ∧
      s.wrapped = false := by
  have hall : Run.AllSteps step Prompt (oneReader "orders") settledRead := by decide +kernel
  have hrun : (Run.exec step (oneReader "orders") settledRead).isSome = true := by decide +kernel
  obtain ⟨s, hexec⟩ := Option.isSome_iff_exists.mp hrun
  exact ⟨s, hexec, quiescence_sound 1 1 _ _ (fun _ => rfl) settledRead s hall hexec⟩

/-- One subscription, a publisher and a handler, on a broker that records. -/
def twoThreads : State 1 2 :=
  .start 1 2 (.start (newBroker .everyMatch .unbounded) fun _ => "orders")

/-- The publisher has sent the message and not counted it. -/
def sent : List (Event 1 2) :=
  [.subscribe thread.castSucc reader "orders", .publish thread.castSucc ⟨"orders", [], HeaderMap.new⟩,
    .send thread.castSucc]

/-- The harness reads zero with the message queued, or with a reposition asked for and not counted; or
the message is polled and settled before its publisher counts it, and the count wraps. -/
theorem quiescence_unsound :
    (Run.exec step twoThreads (List.flatten [sent, [.read]])).any (fun s => s.early) = true ∧
    (Run.exec step twoThreads (List.flatten [[.subscribe 0 0 "orders"],
      [.act 0 0 (.seekStore .start), .act 0 0 .seekReplace], [.read]])).any
        (fun s => s.early) = true ∧
    (Run.exec step twoThreads (List.flatten [sent,
      [.poll 0 (.register 0), .poll 0 .take, .poll 0 .receive, .poll 0 .compare],
      [.act 1 0 (.settle 0), .count (.inr 1)]])).any (fun s => s.wrapped) = true := by
  refine ⟨?_, ?_, ?_⟩ <;> decide +kernel

end Harness

end RustStream
