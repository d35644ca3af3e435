import RustStream.Memory.Seek

/-!
# Subscriptions that come and go

The broker with everything that reaches it from outside: publishes, the steps of its subscriptions,
subscriptions that are opened and dropped, a shutdown that drops the registrations of the bus, and a
connection that revives it. All of them but the drop of a subscription wait for the bus lock.

## Main definitions

* `Seeking.next`: the steps of the broker.
* `BrokerEvent.Effect`: what a step can do to the bus, the logs and the queues.

## Main results

* `effect_of_next`: a step does no more.
* `exists_fanout_of_live`, `isLive_of_fanout`: publishes succeed on a live bus and on no other.
-/

namespace RustStream

/-! ## The steps -/

/-- What becomes of the steps of a subscription that was dropped: nothing polls it any more, its
seekers work on, and a delivery handed back to it is lost. -/
def Move.afterDrop : Move → Option Move
  | .seekStore position => some (.seekStore position)
  | .seekReplace => some .seekReplace
  | .requeue k => some (.settle k)
  | .settle k => some (.settle k)
  | _ => none

/-- A step of the broker: a publish or a step of one subscription, or one that opens or drops a
subscription or turns the bus on or off. -/
inductive BrokerEvent where
  | inner (e : Event)
  | subscribe (i : ℕ) (text : String)
  | dropSubscriber (i : ℕ)
  | shutdown
  | connect

namespace Seeking

/-- What a handle does under the bus lock, which it waits for. -/
def locked (s : Seeking) (broker : MemoryState) : Option Seeking :=
  if s.lock ≠ .free then none else some { s with broker := broker }

def next (s : Seeking) : BrokerEvent → Option Seeking
  | .inner (.publish shared) => step s (.publish shared)
  | .inner (.sub i m) =>
    if s.broker.isOpen i then step s (.sub i m)
    else
      match m.afterDrop with
      | some m => step s (.sub i m)
      | none => none
  | .subscribe i text =>
    match s.broker.openAs i text with
    | .ok broker => s.locked broker
    | .error _ => s.locked s.broker
  | .dropSubscriber i =>
    -- a subscriber is dropped between two of its polls
    match (s.cursors i).phase with
    | .idle => some { s with broker := s.broker.dropSubscriber i }
    | _ => none
  | .shutdown => s.locked s.broker.shutdown
  | .connect => s.locked s.broker.connect

end Seeking

/-! ## What they do -/

/-- The broker after a step, whatever the seeks and polls make of it. -/
def BrokerEvent.Effect (broker : MemoryState) : BrokerEvent → MemoryState → Prop
  | .inner (.publish shared), broker' =>
    broker' = broker ∨
      broker.fanoutUnsent shared.name shared.payload shared.headers = .ok broker'
  | .inner (.sub _ _), broker' => ∃ queues, broker' = { broker with queues := queues }
  | .subscribe i text, broker' => broker' = broker ∨ broker.openAs i text = .ok broker'
  | .dropSubscriber i, broker' => broker' = broker.dropSubscriber i
  | .shutdown, broker' => broker' = broker.shutdown
  | .connect, broker' => broker' = broker.connect

section Effects

variable {s s' : Seeking} {e : BrokerEvent} {before after : MemoryState}

/-- A live bus refuses nothing. -/
theorem exists_fanout_of_live (hlive : before.bus.isLive = true) (shared : DeliveryInner) :
    ∃ after, before.fanoutUnsent shared.name shared.payload shared.headers = .ok after := by
  rcases hbus : before.bus with registry | routing
  · exact ⟨_, fanoutUnsent_eq before hbus shared⟩
  · rw [hbus] at hlive
    cases hlive

theorem isLive_of_fanout {shared : DeliveryInner}
    (h : before.fanoutUnsent shared.name shared.payload shared.headers = .ok after) :
    before.bus.isLive = true := by
  rcases hbus : before.bus with registry | routing
  · rfl
  · rw [MemoryState.fanoutUnsent, hbus] at h
    cases h

theorem Seeking.broker_of_locked {broker : MemoryState} (h : s.locked broker = some s') :
    s'.broker = broker := by
  unfold Seeking.locked at h
  split_ifs at h
  rw [← Option.some.inj h]

theorem effect_of_step_sub {i : ℕ} {m : Move} (h : step s (.sub i m) = some s') :
    ∃ queues, s'.broker = { s.broker with queues := queues } := by
  obtain ⟨v, -, rfl⟩ := exists_of_step_sub h
  exact ⟨_, rfl⟩

theorem effect_of_next (h : s.next e = some s') : e.Effect s.broker s'.broker := by
  rcases e with (shared | ⟨i, m⟩) | ⟨i, text⟩ | i | _ | _
  · rw [Seeking.next, step] at h
    split_ifs at h
    rcases hfan : s.broker.fanoutUnsent shared.name shared.payload shared.headers with
      unsent | broker
    · rw [hfan] at h
      cases h
      exact Or.inl rfl
    · rw [hfan] at h
      cases h
      exact Or.inr hfan
  · rw [Seeking.next] at h
    split_ifs at h
    · exact effect_of_step_sub h
    · split at h
      · exact effect_of_step_sub h
      · cases h
  · rw [Seeking.next] at h
    rcases hopened : s.broker.openAs i text with error | broker
    · rw [hopened] at h
      exact Or.inl (Seeking.broker_of_locked h)
    · rw [hopened] at h
      refine Or.inr ?_
      rw [hopened, Seeking.broker_of_locked h]
  · rw [Seeking.next] at h
    split at h
    · cases h
      rfl
    · cases h
  · exact Seeking.broker_of_locked h
  · exact Seeking.broker_of_locked h

end Effects

end RustStream
