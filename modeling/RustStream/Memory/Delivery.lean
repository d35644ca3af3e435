import RustStream.Dispatch.Journey

/-!
# Deliveries of the memory broker

The memory broker counts what it hands out: a copy in a subscription's queue carries how many times
it has been delivered, one at the fanout and one more with every requeue, every delayed redelivery
and every delivery let go of unsettled. It holds deliveries back itself and answers every settlement.

A registration's cap is then spent on the broker's own count. A transport that counts nothing has
its cap spent on the count its copies carry. `cap_is_exact` says that either way a message is
delivered exactly as often as its cap allows: the one counter the cap reads advances by one on each
of the four ways back.

## Main definitions

* `NonZeroU64`: the counter, with the saturating addition of the source.
* `MemoryDelivery`, `memoryBroker`: a delivery of the broker, and the broker as a transport.

## Main results

* `memoryBroker_simulates`: the broker's own count follows the deliveries.
* `cap_is_exact`: a cap of `n` is `n` deliveries.
-/

namespace RustStream

/-- A positive 64-bit number. -/
structure NonZeroU64 where
  get : UInt64
  pos : 0 < get.toNat

namespace NonZeroU64

/-- The smallest one. -/
def min : NonZeroU64 := ⟨1, by decide⟩

/-- The largest one. -/
def max : NonZeroU64 := ⟨UInt64.ofNat (u64Bound - 1), by decide⟩

/-- Adds up to the largest value and stays there. -/
def saturatingAdd (a : NonZeroU64) (n : UInt64) : NonZeroU64 :=
  if h : a.get.toNat + n.toNat < u64Bound then
    ⟨a.get + n, by
      have hpos := a.pos
      rw [toNat_add_of_lt h]
      omega⟩
  else max

theorem toNat_saturatingAdd (a : NonZeroU64) (n : UInt64) :
    (a.saturatingAdd n).get.toNat = Nat.min (a.get.toNat + n.toNat) (u64Bound - 1) := by
  by_cases h : a.get.toNat + n.toNat < u64Bound
  · rw [saturatingAdd, dif_pos h]
    change (a.get + n).toNat = _
    rw [toNat_add_of_lt h]
    exact (Nat.min_eq_left (by omega)).symm
  · rw [saturatingAdd, dif_neg h]
    have hmax : max.get.toNat = u64Bound - 1 := by decide
    rw [hmax]
    exact (Nat.min_eq_right (by omega)).symm

/-- Far from the end the addition is exact. -/
theorem toNat_saturatingAdd_of_lt {a : NonZeroU64} {n : UInt64}
    (h : a.get.toNat + n.toNat < u64Bound) :
    (a.saturatingAdd n).get.toNat = a.get.toNat + n.toNat := by
  rw [toNat_saturatingAdd]
  exact Nat.min_eq_left (by omega)

end NonZeroU64

/-! ## The broker as a transport -/

/-- What the copies of one published message share. -/
structure DeliveryInner where
  name : String
  payload : Bytes
  headers : Headers .alloc

/-- A stamped message on its way to one subscriber. -/
structure MemoryDelivery where
  shared : DeliveryInner
  -- the index of the message in its name's publish log, stable across requeues
  seq : ℕ
  deliveries : NonZeroU64

namespace MemoryDelivery

/-- The same delivery on its way back to the subscriber it came from. -/
def redelivered (delivery : MemoryDelivery) : MemoryDelivery :=
  { delivery with deliveries := delivery.deliveries.saturatingAdd 1 }

/-- The delivery as the settlement sees it. -/
def message (delivery : MemoryDelivery) : Message .alloc where
  payload := delivery.shared.payload
  headers := delivery.shared.headers
  redeliveryCount := some delivery.deliveries.get
  supportsNackAfter := true
  answer := fun _ => .ok ()

end MemoryDelivery

variable {Options : Type}

/-- The memory broker, whose log stamps a published copy with the sequence `stamp` gives it. -/
def memoryBroker (stamp : Copy .alloc Options → ℕ) : Transport .alloc Options MemoryDelivery where
  message := MemoryDelivery.message
  requeued := MemoryDelivery.redelivered
  delayed := MemoryDelivery.redelivered
  published := fun copy => ⟨⟨copy.destination, copy.payload, copy.headers⟩, stamp copy, .min⟩

/-- The broker's count of a delivery is `s`. -/
def DeliveredTimes (limit : ℕ) (d : MemoryDelivery) (s : ℕ) : Prop :=
  s ≤ limit ∧ d.deliveries.get.toNat = s

section Broker

variable {stamp : Copy .alloc Options → ℕ} {delivery : Delivery} {host : Host .alloc Options}
  {path : CopyPath Options .alloc} {cap : NonZeroU32} {d : MemoryDelivery}
  {attempt : Attempt .alloc Options}

section

variable (hcap : delivery.declaration.maxAttempts = some cap)
include hcap

theorem spent_message_iff :
    Spent d.message delivery.declaration ↔ cap.get.toNat ≤ d.deliveries.get.toNat :=
  spent_iff hcap

theorem givenUp_of_deliveredTimes
    (hpath : copyPath host = some path) (hretry : attempt.outcome.IsRetry)
    (hspent : cap.get.toNat ≤ d.deliveries.get.toNat) :
    GivenUp delivery.declaration.deadLetter path d.message attempt.store.held
      ((memoryBroker stamp).settled delivery host d attempt) :=
  Transport.givenUp_of_spent (t := memoryBroker stamp) ((spent_message_iff hcap).mpr hspent) hpath
    hretry (Or.inl rfl) fun _ _ => trivial

/-- Below the cap the broker brings the delivery back itself, at once or after the delay. -/
theorem comesBack_memoryBroker
    (hpath : copyPath host = some path) (hretry : attempt.outcome.IsRetry)
    (hspent : d.deliveries.get.toNat < cap.get.toNat) :
    (memoryBroker stamp).comesBack delivery host d attempt = [d.redelivered] := by
  have hnot : ¬Spent d.message delivery.declaration := by
    rw [spent_message_iff hcap]
    omega
  have hdisposition := disposition_of_not_spent hcap hnot hpath hretry
  match hout : attempt.outcome, hretry with
  | .nack true, _ =>
    have hcall : wayBack attempt.outcome delivery host d.message path = .broker (.nack true) := by
      rw [hout]
      rfl
    exact Transport.comesBack_of_broker (t := memoryBroker stamp) (hdisposition.trans hcall)
  | .nackAfter delay, _ =>
    have hcall :
        wayBack attempt.outcome delivery host d.message path = .broker (.nackAfter delay) := by
      rw [hout]
      rfl
    exact Transport.comesBack_of_broker (t := memoryBroker stamp) (hdisposition.trans hcall)

/-- **The broker's own count follows the deliveries.** -/
theorem memoryBroker_simulates
    (hpath : copyPath host = some path) :
    Relay.Simulates ((memoryBroker stamp).comesBack delivery host)
      (Relay.countUp cap.get.toNat) (DeliveredTimes cap.get.toNat)
      fun _ attempt => attempt.outcome.IsRetry where
  stops d s attempt hcount hretry hnext := by
    obtain ⟨-, hs⟩ := hcount
    have hge : ¬s < cap.get.toNat := by
      intro hlt
      simp [Relay.countUp, hlt] at hnext
    exact Transport.comesBack_of_givenUp
      (givenUp_of_deliveredTimes hcap hpath hretry (by omega))
  goes_on d s attempt s' hcount hretry hnext := by
    obtain ⟨-, hs⟩ := hcount
    have hlt : s < cap.get.toNat := by
      by_contra hge
      simp [Relay.countUp, hge] at hnext
    have hs' : s' = s + 1 := by
      simp only [Relay.countUp, hlt, if_true, Option.some.injEq] at hnext
      exact hnext.symm
    refine ⟨d.redelivered, comesBack_memoryBroker hcap hpath hretry (by omega), by omega, ?_⟩
    have hbound : d.deliveries.get.toNat + 1 < u64Bound := by
      rw [hs]
      exact lt_u64Bound_of_le hlt.le
    change (d.deliveries.saturatingAdd 1).get.toNat = s'
    rw [NonZeroU64.toNat_saturatingAdd_of_lt hbound, hs, hs']
    rfl

end

end Broker

/-! ## A cap is exact -/

/-- **A cap of `n` is `n` deliveries.** On the memory broker, for a message whose count starts at
one, and on any transport that counts nothing and delays nothing, for a message published without a
retry count whose copies are accepted and come back with the count the runtime wrote: under a cap of
`n`, whatever mix of immediate and delayed retries the handler answers, the deliveries before the
`n`-th each come back once, the `n`-th is given up, and there is no other. -/
theorem cap_is_exact (cap : NonZeroU32) :
    (∀ (stamp : Copy .alloc Options → ℕ) (delivery : Delivery) (host : Host .alloc Options)
      (path : CopyPath Options .alloc) (d : MemoryDelivery)
      (attempts : List (Attempt .alloc Options)),
      delivery.declaration.maxAttempts = some cap → copyPath host = some path →
      d.deliveries = .min → (∀ attempt ∈ attempts, attempt.outcome.IsRetry) →
      Capped cap.get.toNat (memoryBroker stamp) delivery host path d attempts) ∧
    (∀ (b : Build) (D : Type) (t : Transport b Options D) (delivery : Delivery)
      (host : Host b Options) (path : CopyPath Options b) (d : D)
      (attempts : List (Attempt b Options)),
      delivery.declaration.maxAttempts = some cap → copyPath host = some path →
      t.Silent → path.KeepsCount → (t.message d).headers.get retryCountHeader = none →
      (∀ p ∈ t.journey delivery host d attempts,
        Accepted delivery host path (t.message p.1) p.2) →
      Capped cap.get.toNat t delivery host path d attempts) := by
  have hcap_pos : 1 ≤ cap.get.toNat := cap.pos
  constructor
  · intro stamp delivery host path d attempts hcap hpath hfirst hretry
    refine capped_of_simulates (memoryBroker_simulates hcap hpath) ?_ hcap_pos ?_ ?_
    · intro d attempt hcount hretry
      exact givenUp_of_deliveredTimes hcap hpath hretry hcount.2.ge
    · refine ⟨hcap_pos, ?_⟩
      rw [hfirst]
      rfl
    · intro p hp
      exact hretry p.2 (Relay.mem_of_mem_run hp)
  · intro b D t delivery host path d attempts hcap hpath hsilent hkeeps hnew haccepted
    refine capped_of_simulates (silent_simulates hsilent hcap hpath hkeeps) ?_ hcap_pos ?_ haccepted
    · intro d attempt hcount haccepted
      have hspent := (spent_iff_of_silent hsilent hcap hcount).mpr le_rfl
      exact haccepted.givenUp hpath hspent
    · refine ⟨hcap_pos, ?_⟩
      rw [currentRetryCount, hnew]
      rfl

/-- A transport that keeps nothing but the headers of what is published to it. -/
def echo : Transport .alloc Unit (Headers .alloc) where
  message := fun headers => ⟨[], headers, none, false, fun _ => .ok ()⟩
  requeued := id
  delayed := id
  published := fun copy => copy.headers

/-- A registration that gives up at the second attempt and names where to. -/
def twiceThenDead : Delivery where
  declaration := ⟨some ⟨2, by decide⟩, some "dead"⟩
  coordinator := none

/-- Three failing turns: a delayed retry of no delay at all, a retry, and one that waits. -/
def threeTurns : List (Attempt .alloc Unit) :=
  [.retryAfter 0, .retry, .retryAfter 7].map fun outcome => ⟨outcome, none, ⟨[], 0, false⟩⟩

theorem cap_is_exact_at_two :
    Capped 2 (memoryBroker fun _ => 0) twiceThenDead copyingHost
        (.published ⟨fun _ _ => .ok (), some "orders", "orders"⟩)
        ⟨⟨"orders", [], HeaderMap.new⟩, 0, .min⟩ threeTurns ∧
      Capped 2 echo twiceThenDead copyingHost
        (.published ⟨fun _ _ => .ok (), some "orders", "orders"⟩) HeaderMap.new threeTurns := by
  have hretry : ∀ attempt ∈ threeTurns, attempt.outcome.IsRetry := by
    simp [threeTurns, HandlerResult.retry, HandlerResult.retryAfter, HandlerResult.IsRetry]
  obtain ⟨hbroker, hsilent⟩ := @cap_is_exact Unit ⟨2, by decide⟩
  refine ⟨hbroker _ _ _ _ _ _ rfl rfl rfl hretry, ?_⟩
  refine hsilent _ _ _ _ _ _ _ _ rfl rfl ⟨fun _ => rfl, fun _ => rfl, fun _ => rfl⟩ trivial rfl ?_
  intro p hp
  refine ⟨hretry p.2 (Relay.mem_of_mem_run hp), Or.inl rfl, fun _ _ => ⟨?_, fun _ _ => rfl⟩,
    fun _ _ _ => ⟨trivial, fun _ _ => rfl⟩⟩
  rintro ⟨-, -, hreserve⟩
  cases hreserve

end RustStream
