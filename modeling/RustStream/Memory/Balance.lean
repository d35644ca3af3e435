import RustStream.Memory.Harness

/-!
# Whether the count comes back to zero

Once every subscription is gone, every delivery is settled and every timer has fired, nothing is in
flight and the count should be at zero. What it is then follows from the account: the repositions that
were requested and never applied count up, the sends that were never counted count down.

Both exist. A subscription that is dropped drains its queue and leaves its pending reposition where it
is, and a seeker outlives its subscription, so a reposition can be handed to nobody. And a subscription
opened by a name that looks like an inbox has its deliveries counted down, but not up. Where neither
comes about the count is balanced.

## Main definitions

* `Harness.State.Over`: everything is settled, fired and gone.
* `Harness.SendsCounted`, `Harness.SeeksApplied`: the steps that count every send, and those that
  strand no reposition.

## Main results

* `Harness.inFlight_of_over`: what is left of the count.
* `count_balanced`: it is nothing, where every step is accounted for.
-/

namespace RustStream

open Ledger (Op)

/-- The subscriptions registered by the name itself. -/
def Bus.named (bus : Bus) (name : String) : List ℕ :=
  match bus with
  | .live registry => (registry.names name).getD []
  | .shutDown _ => []

/-- The poll has ended. -/
def Phase.isIdle : Phase → Bool
  | .idle => true
  | _ => false

namespace Harness

variable {n w : ℕ} {s s' : State n w} {e : Event n w} {i : Fin n} {t : Thread n w} {m : Move}

/-- Nothing is published, polled or counted any more; every timer has fired, and every subscription is
dropped, with nothing in its queue and nothing in hand. -/
structure State.Over (s : State n w) : Prop where
  publishing : s.publishing = none
  timers : s.timers = []
  owes : ∀ t, s.owes t = []
  dropped : ∀ i, s.broker.isOpen (i : Fin n) = false
  polls : ∀ i, (s.view i).cursor.phase = .idle
  queues : ∀ i, (s.view i).queue = []
  hands : ∀ i, (s.view i).cursor.hand = []

theorem isIdle_iff {phase : Phase} : phase.isIdle = true ↔ phase = .idle := by
  rcases phase with _ | _ | _ | _ | _ | _ | _ <;> simp [Phase.isIdle]

instance (s : State n w) : Decidable s.Over :=
  decidable_of_iff (s.publishing = none ∧ s.timers = [] ∧ (∀ t, s.owes t = []) ∧
      (∀ i : Fin n, s.broker.isOpen i = false) ∧ (∀ i, (s.view i).cursor.phase.isIdle = true) ∧
      (∀ i, (s.view i).queue = []) ∧ ∀ i, (s.view i).cursor.hand = [])
    ⟨fun h => ⟨h.1, h.2.1, h.2.2.1, h.2.2.2.1, fun i => isIdle_iff.mp (h.2.2.2.2.1 i),
      h.2.2.2.2.2.1, h.2.2.2.2.2.2⟩,
     fun h => ⟨h.publishing, h.timers, h.owes, h.dropped, fun i => isIdle_iff.mpr (h.polls i),
      h.queues, h.hands⟩⟩

/-- What is left of the count once everything is over: the repositions never applied, less the sends
never counted. -/
theorem inFlight_of_over (h : Sound s) (hover : s.Over) : s.inFlight.toNat + s.stray
      ≡ ∑ i, (s.view i).cursor.pending.isSome.toNat [MOD 2 ^ 64] := by
  have hbalanced := h.balanced
  have hunits : ∀ i, s.book.held i = (s.view i).cursor.pending.isSome.toNat := by
    intro i
    change (s.view i).units s.broker.log = _
    rw [View.units, View.work, hover.queues i, hover.hands i, hover.polls i]
    change 0 + 0 + 0 + _ + 0 + 0 = _
    omega
  have htotal : s.book.total = ∑ i, (s.view i).cursor.pending.isSome.toNat :=
    Finset.sum_congr rfl fun i _ => hunits i
  have howed : ∀ op, s.book.owed op = 0 := fun op => Finset.sum_eq_zero fun t _ => by
    change (s.owes t).count op = 0
    rw [hover.owes t]
    rfl
  rw [Ledger.Book.Balanced, htotal, howed, howed] at hbalanced
  exact hbalanced

/-! ## Every send is counted -/

/-- No message is sent to a subscription by a name that looks like an inbox's. -/
def SendsCounted (s : State n w) : Event n w → Prop
  | .publish _ shared => startsWithInbox shared.name = true → s.broker.bus.named shared.name = []
  | _ => True

instance (s : State n w) : (e : Event n w) → Decidable (SendsCounted s e)
  | .publish _ shared =>
    inferInstanceAs (Decidable (startsWithInbox shared.name = true →
      s.broker.bus.named shared.name = []))
  | .subscribe .. | .shutdown .. | .connect .. | .send .. | .release .. | .poll .. | .act ..
  | .nackAfter .. | .fire .. | .close .. | .drain .. | .count .. | .read => isTrue trivial

/-- No send was left uncounted, and none of those to come will be. -/
structure Counted (s : State n w) : Prop where
  stray : s.stray = 0
  sends : ∀ p, s.publishing = some p → ∀ q ∈ p.sends,
    countsSend p.delivery.shared.name q.2 = true

theorem counted_start (broker : MemoryState) (names : ℕ → String) :
    Counted (State.start n w (.start broker names)) :=
  ⟨rfl, fun _ h => (by cases h)⟩

/-- The sends of a publish that nobody subscribed to by a name like an inbox's. -/
theorem countsSend_of_mem {registry : Registry} {isOpen : ℕ → Bool} {name : String}
    (h : startsWithInbox name = true → (registry.names name).getD [] = []) {q : ℕ × Bool}
    (hq : q ∈ registry.sends isOpen name) : countsSend name q.2 = true := by
  rcases List.mem_append.mp hq with hnamed | hpattern
  · obtain ⟨tx, htx, rfl⟩ := List.mem_map.mp hnamed
    rcases hinbox : startsWithInbox name with _ | _
    · simp [countsSend, hinbox]
    · rw [h hinbox] at htx
      cases htx
  · obtain ⟨tx, -, rfl⟩ := List.mem_map.mp hpattern
    rfl

theorem Counted.sendNext {k : Fin w} {delivery : MemoryDelivery} {tx : ℕ} {pattern : Bool}
    {rest : List (ℕ × Bool)} (h : Counted s)
    (hpublishing : s.publishing = some ⟨k, delivery, (tx, pattern) :: rest⟩) :
    Counted (s.sendNext k delivery tx pattern rest) := by
  have hcounts := h.sends _ hpublishing
  have hrest : ∀ p, some (Publishing.mk k delivery rest) = some p → ∀ q ∈ p.sends,
      countsSend p.delivery.shared.name q.2 = true := by
    intro p hp q hq
    cases hp
    exact hcounts q (List.mem_cons_of_mem _ hq)
  unfold State.sendNext
  dsimp only
  split_ifs with hlt hopen hcount
  · exact ⟨h.stray, hrest⟩
  · exact absurd (hcounts _ List.mem_cons_self) hcount
  · exact ⟨h.stray, hrest⟩
  · exact ⟨h.stray, hrest⟩

/-- A step of a subscription changes that and what its thread owes. -/
theorem exists_change_of_move (hmove : s.move i t m = some s') :
    ∃ v, Moves i s.broker.log s.broker.bus.isLive (s.view i) m v ∧
      s' = s.change i v t (owedBy s.broker.log (s.view i) v m) := by
  unfold State.move at hmove
  split_ifs at hmove
  split at hmove
  · rename_i v hv
    exact ⟨v, moves_of_move hv, (Option.some.inj hmove).symm⟩
  · cases hmove

theorem Counted.step (h : Counted s) (hok : SendsCounted s e) (hstep : step s e = some s') :
    Counted s' := by
  cases effect_of_step hstep with
  | publish k shared registry hlock hbus =>
    refine ⟨h.stray, fun p hp q hq => ?_⟩
    cases hp
    change countsSend (s.broker.stamp shared).1.shared.name q.2 = true
    rw [(s.broker.stamp_frame shared).2.2.1]
    refine countsSend_of_mem (fun hinbox => ?_) hq
    have hnamed := hok hinbox
    rw [hbus] at hnamed
    exact hnamed
  | send k delivery tx pattern rest hpublishing howes => exact h.sendNext hpublishing
  | release k => exact ⟨h.stray, fun _ hp => (by cases hp)⟩
  | poll i m hpoll hopen howes _ hmove | act k i m m' hpoll hdrop howes _ hmove =>
    obtain ⟨v, -, rfl⟩ := exists_change_of_move hmove
    exact ⟨h.stray, h.sends⟩
  | _ => exact ⟨h.stray, h.sends⟩

/-! ## No reposition is stranded -/

/-- No subscription is dropped with a reposition pending, and none is handed a reposition once it is
gone. -/
def SeeksApplied (s : State n w) : Event n w → Prop
  | .close i => (s.view i).cursor.pending = none
  | .act _ i m => m = .seekReplace → s.broker.isOpen i = true
  | _ => True

instance (s : State n w) : (e : Event n w) → Decidable (SeeksApplied s e)
  | .close i => inferInstanceAs (Decidable ((s.view i).cursor.pending = none))
  | .act _ i m => inferInstanceAs (Decidable (m = .seekReplace → s.broker.isOpen i = true))
  | .subscribe .. | .shutdown .. | .connect .. | .publish .. | .send .. | .release .. | .poll ..
  | .nackAfter .. | .fire .. | .drain .. | .count .. | .read => isTrue trivial

/-- No reposition is left with a subscription that is gone. -/
def Applied (s : State n w) : Prop :=
  ∀ i : Fin n, s.broker.isOpen i = false → (s.view i).cursor.pending = none

/-- A change to one subscription that hands it no reposition once it is gone. -/
theorem Applied.put (h : Applied s) {v : View} (hput : s'.seeking = s.seeking.put i v)
    (hpending : s.broker.isOpen i = false → v.cursor.pending = (s.view i).cursor.pending) :
    Applied s' := by
  intro j hj
  have hopen : s.broker.isOpen j = false := by
    rw [State.broker, hput] at hj
    exact hj
  rw [State.view, hput]
  rcases eq_or_ne j i with rfl | hne
  · rw [view_put_self]
    exact (hpending hopen).trans (h j hopen)
  · rw [view_put_of_ne s.seeking (fun heq => hne (Fin.ext heq))]
    exact h j hopen

/-- Of the steps of seekers and handlers only a seeker's last hands over a reposition. -/
theorem pending_of_moves {log : LogState} {live : Bool} {v v' : View}
    (hmoves : Moves i log live v m v') (hpoll : m.isPoll = false) (hseek : m ≠ .seekReplace) :
    v'.cursor.pending = v.cursor.pending := by
  cases hmoves with
  | replace target => exact absurd rfl hseek
  | refused position => rfl
  | store position target => rfl
  | requeue k delivery => rfl
  | settle k => rfl
  | _ => cases hpoll

theorem eq_of_afterDrop (h : m.afterDrop = some .seekReplace) : m = .seekReplace := by
  rcases m with position | _ | _ | _ | _ | _ | _ | _ | _ | _ | _ | j | j
  all_goals
    cases h
  rfl

theorem Applied.sendNext {k : Fin w} {delivery : MemoryDelivery} {tx : ℕ} {pattern : Bool}
    {rest : List (ℕ × Bool)} (h : Applied s) : Applied (s.sendNext k delivery tx pattern rest) := by
  unfold State.sendNext
  dsimp only
  split_ifs with hlt hopen hcount
  · exact h.put rfl fun _ => rfl
  · exact h.put rfl fun _ => rfl
  · exact h
  · exact h

theorem Applied.step (h : Applied s) (hok : SeeksApplied s e) (hstep : step s e = some s') :
    Applied s' := by
  cases effect_of_step hstep with
  | refused => exact h
  | register _ broker hlock hqueues hopen =>
    intro i hi
    refine h i ?_
    rw [← hopen]
    exact hi
  | publish k shared registry hlock hbus =>
    intro i hi
    refine h i ?_
    rw [← (s.broker.stamp_frame shared).2.1]
    exact hi
  | send k delivery tx pattern rest hpublishing howes => exact h.sendNext
  | poll i m hpoll hopen howes _ hmove =>
    obtain ⟨v, -, rfl⟩ := exists_change_of_move hmove
    refine h.put rfl fun hclosed => ?_
    rw [hopen] at hclosed
    cases hclosed
  | act k i m m' hpoll hdrop howes _ hmove =>
    obtain ⟨v, hmoves, rfl⟩ := exists_change_of_move hmove
    refine h.put rfl fun hclosed => pending_of_moves hmoves hpoll ?_
    rintro rfl
    -- a seeker's last step comes while its subscription is open
    have hstill : s.broker.isOpen i = true := by
      rcases hdrop with hopen | hdrop
      · exact hopen
      · exact hok (eq_of_afterDrop hdrop)
    rw [hstill] at hclosed
    cases hclosed
  | nackAfter k i j delivery howes hhand | fire k i j delivery howes
  | drain i head queue howes hqueue => exact h.put rfl fun _ => rfl
  | close i =>
    intro j hj
    rcases eq_or_ne j i with rfl | hne
    · exact hok
    · refine h j ?_
      have hne' : (j : ℕ) ≠ i := fun heq => hne (Fin.ext heq)
      rwa [show (s.setBroker { s.broker with
        isOpen := Function.update s.broker.isOpen i false }).broker.isOpen j = s.broker.isOpen j
          from Function.update_of_ne hne' _ _] at hj
  | _ => exact h

/-- The steps that count every send and strand no reposition. -/
def Accounted (s : State n w) (e : Event n w) : Prop :=
  SendsCounted s e ∧ SeeksApplied s e

instance (s : State n w) (e : Event n w) : Decidable (Accounted s e) :=
  inferInstanceAs (Decidable (SendsCounted s e ∧ SeeksApplied s e))

end Harness

/-- **The count is balanced, where every step is accounted for.** In every run from a broker with
empty queues in which no message is sent to a subscription opened by a name that looks like an inbox,
no subscription is dropped with a reposition pending and none is handed one once it is gone: when
every delivery is settled or dropped, every timer has fired, every subscription is dropped and every
thread has counted, the count is zero. -/
theorem count_balanced (n w : ℕ) (broker : MemoryState) (names : ℕ → String)
    (hqueues : ∀ i, broker.queues i = []) (events : List (Harness.Event n w))
    (s : Harness.State n w)
    (hall : Run.AllSteps Harness.step Harness.Accounted (.start n w (.start broker names)) events)
    (hexec : Run.exec Harness.step (.start n w (.start broker names)) events = some s)
    (hover : s.Over) : s.inFlight = 0 := by
  obtain ⟨hsound, hcounted, happlied⟩ := @Run.exec_invariant _ _ Harness.step Harness.Accounted
    (fun _ s => Harness.Sound s ∧ Harness.Counted s ∧ Harness.Applied s) _ _ _ []
    (fun _ _ _ _ h hok hstep => ⟨h.1.step hstep, h.2.1.step hok.1 hstep, h.2.2.step hok.2 hstep⟩)
    ⟨Harness.sound_start broker names hqueues, Harness.counted_start broker names,
      fun _ _ => rfl⟩ hall hexec
  have hleft := Harness.inFlight_of_over hsound hover
  have hnone : ∑ i, (s.view i).cursor.pending.isSome.toNat = 0 :=
    Finset.sum_eq_zero fun i _ => by rw [happlied i (hover.dropped i)]; rfl
  rw [hnone, hcounted.stray] at hleft
  have hzero : s.inFlight.toNat = 0 := by
    have hlt := s.inFlight.toNat_lt
    have hmod : s.inFlight.toNat % 2 ^ 64 = 0 := hleft
    omega
  exact UInt64.toNat_inj.mp hzero

namespace Harness

/-- One subscription and one other thread, on a broker that records. -/
def oneReader (name : String) : State 1 1 :=
  .start 1 1 (.start (newBroker .everyMatch .unbounded) fun _ => name)

def reader : Fin 1 := .last 0

def thread : Fin 1 := .last 0

/-- A message is published to the subscription. -/
def delivered (name : String) : List (Event 1 1) :=
  [.subscribe thread reader name, .publish thread ⟨name, [], HeaderMap.new⟩, .send thread]

/-- The subscription is polled for one message. -/
def polled : List (Event 1 1) :=
  [.poll reader (.register 0), .poll reader .take, .poll reader .receive, .poll reader .compare]

/-- A reposition to the start of the log. -/
def sought : List (Event 1 1) :=
  [.act thread reader (.seekStore .start), .act thread reader .seekReplace, .count (.inr thread)]

/-- The poll that applies a reposition, with one delivery to drain and one to replay. -/
def swapped : List (Event 1 1) :=
  [.poll reader (.register 0), .poll reader .take, .poll reader .lock, .count (.inl reader), .poll reader .drainOne,
    .count (.inl reader), .poll reader .drainEnd, .poll reader .replayOne, .poll reader .unlock, .count (.inl reader),
    .poll reader .receive, .poll reader .compare]

/-- The message in hand is requeued, or settled and the subscription dropped. -/
def requeued : List (Event 1 1) := [.act thread reader (.requeue 0), .count (.inr thread), .count (.inr thread)]

def settled : List (Event 1 1) := [.act thread reader (.settle 0), .count (.inr thread), .close reader]

/-- One message, requeued once, replayed once by a seek and settled, and the subscription dropped. -/
def settledRun : List (Event 1 1) :=
  List.flatten [delivered "orders", [.count (.inr thread), .release thread], polled, requeued, sought, swapped,
    settled]

theorem count_balanced_settledRun :
    ∃ s, Run.exec step (oneReader "orders") settledRun = some s ∧ s.inFlight = 0 := by
  have hall : Run.AllSteps step Accounted (oneReader "orders") settledRun := by decide +kernel
  have hrun : (Run.exec step (oneReader "orders") settledRun).any (fun s => s.Over) = true := by
    decide +kernel
  rw [Option.any_eq_true] at hrun
  obtain ⟨s, hexec, hover⟩ := hrun
  exact ⟨s, hexec, count_balanced 1 1 _ _ (fun _ => rfl) settledRun s hall hexec
    (of_decide_eq_true hover)⟩

/-- A run that ends with everything over and the count at a given value. -/
def EndsAt (s : State 1 1) (events : List (Event 1 1)) (count : UInt64) : Prop :=
  ∃ s', Run.exec step s events = some s' ∧ s'.Over ∧ s'.inFlight = count

theorem endsAt_of_any {s : State 1 1} {events : List (Event 1 1)} {count : UInt64}
    (h : (Run.exec step s events).any (fun s => s.Over ∧ s.inFlight = count) = true) :
    EndsAt s events count := by
  rw [Option.any_eq_true] at h
  obtain ⟨s', hexec, hend⟩ := h
  exact ⟨s', hexec, of_decide_eq_true hend⟩

/-- A subscription dropped with a reposition pending leaves the count at one, and so does a reposition
asked for afterwards; a message to a subscription by a name that looks like an inbox takes the count
below zero. -/
theorem count_unbalanced :
    EndsAt (oneReader "orders") (List.flatten [[.subscribe 0 0 "orders"], sought, [.close 0]]) 1 ∧
    EndsAt (oneReader "orders") (List.flatten [[.subscribe 0 0 "orders", .close 0], sought]) 1 ∧
    EndsAt (oneReader "_inbox.mine")
      (List.flatten [delivered "_inbox.mine", [.release 0], polled, settled])
      (UInt64.ofNat (2 ^ 64 - 1)) := by
  refine ⟨endsAt_of_any ?_, endsAt_of_any ?_, endsAt_of_any ?_⟩ <;> decide +kernel

end Harness

end RustStream
