import RustStream.Memory.Delivery

/-!
# Attempts on the local bus

The local bus counts what it hands out, as the memory broker does, but it delays nothing: a delayed
retry is a copy the runtime publishes, and the copy's count is read back from its header. So two
counters run side by side. A requeue advances the bus's count and leaves the header alone; a copy
advances the header and restarts the bus's count from it, which forgets the requeues since the last
copy.

`local_cap_holds_iff` says when the cap holds nevertheless: the run is shorter than the cap, or no
delayed retry follows an immediate one before the cap is reached.

## Main definitions

* `LocalDelivery`, `localBus`, `deliveryCountOf`: the bus as a transport.
* `Counters.next`: the two counters under one attempt.
* `HeldToCap`: at most `limit` deliveries, the last of them given up.

## Main results

* `localBus_simulates`: the counters follow the bus.
* `local_cap_holds_iff`: when the cap holds.
-/

namespace RustStream

open List

variable {b : Build} {Options : Type}

/-! ## The bus as a transport -/

/-- One message as a subscription of the bus holds it. -/
structure LocalDelivery (b : Build) where
  payload : Bytes
  headers : Headers b
  deliveries : NonZeroU64

/-- How many times the bus has delivered a message that is published now: the first time, unless it
is the copy of a delivery the runtime retried. -/
def deliveryCountOf (headers : Headers b) : NonZeroU64 :=
  match headers.get retryCountHeader with
  | none => .min
  | some value =>
    match Decimal.parse u64Bound value with
    | none => .min
    | some retried => NonZeroU64.min.saturatingAdd (UInt64.ofNat retried)

theorem deliveryCountOf_eq (headers : Headers b) :
    deliveryCountOf headers = NonZeroU64.min.saturatingAdd (currentRetryCount headers) := by
  have hzero : NonZeroU64.min.saturatingAdd 0 = .min := rfl
  rw [deliveryCountOf, currentRetryCount]
  cases headers.get retryCountHeader with
  | none => exact hzero.symm
  | some value =>
    dsimp only
    rw [countOf]
    cases Decimal.parse u64Bound value with
    | none => exact hzero.symm
    | some retried => rfl

namespace LocalDelivery

/-- The delivery back at the end of its queue, counted as one more. -/
def requeue (delivery : LocalDelivery b) : LocalDelivery b :=
  { delivery with deliveries := delivery.deliveries.saturatingAdd 1 }

/-- The delivery as the settlement sees it, while its subscription is open. -/
def message (delivery : LocalDelivery b) : Message b where
  payload := delivery.payload
  headers := delivery.headers
  redeliveryCount := some delivery.deliveries.get
  supportsNackAfter := false
  answer
    | .nackAfter _ => .error .unsupported
    | _ => .ok ()

end LocalDelivery

/-- The local bus. It has no delay of its own, so `delayed` is never asked for. -/
def localBus : Transport b Options (LocalDelivery b) where
  message := LocalDelivery.message
  requeued := LocalDelivery.requeue
  delayed := id
  published := fun copy => ⟨copy.payload, copy.headers, deliveryCountOf copy.headers⟩

/-! ## Two counters -/

/-- The bus's count of a delivery and the count of copies its header carries. -/
structure Counters where
  delivered : ℕ
  copied : ℕ

/-- One attempt under a cap: nothing comes back at the cap; below it an immediate retry is a
requeue, and a delayed one a copy. -/
def Counters.next (limit : ℕ) (s : Counters) (attempt : Attempt b Options) : Option Counters :=
  if limit ≤ s.delivered then none
  else if attempt.outcome = .retry then some ⟨s.delivered + 1, s.copied⟩
  else some ⟨s.copied + 2, s.copied + 1⟩

/-- The delivery shows the counters, which a cap keeps far from the end of their type. -/
structure Shows (limit : ℕ) (d : LocalDelivery b) (s : Counters) : Prop where
  le_limit : s.delivered ≤ limit
  copied_lt : s.copied < s.delivered
  delivered_eq : d.deliveries.get.toNat = s.delivered
  copied_eq : (currentRetryCount d.headers).toNat = s.copied

section Bus

variable {delivery : Delivery} {host : Host b Options} {path : CopyPath Options b}
  {cap : NonZeroU32} {d : LocalDelivery b} {s : Counters} {attempt : Attempt b Options}

theorem spent_local_iff (hcap : delivery.declaration.maxAttempts = some cap)
    (hshows : Shows cap.get.toNat d s) :
    Spent d.message delivery.declaration ↔ cap.get.toNat ≤ s.delivered := by
  rw [← hshows.delivered_eq]
  exact spent_iff hcap

/-- A requeue advances the bus's count and leaves the header alone. -/
theorem Shows.requeue (hshows : Shows cap.get.toNat d s) (hlt : s.delivered < cap.get.toNat) :
    Shows cap.get.toNat d.requeue ⟨s.delivered + 1, s.copied⟩ := by
  have hbound : d.deliveries.get.toNat + 1 < u64Bound := by
    rw [hshows.delivered_eq]
    exact lt_u64Bound_of_le hlt.le
  refine ⟨hlt, Nat.lt_succ_of_lt hshows.copied_lt, ?_, hshows.copied_eq⟩
  change (d.deliveries.saturatingAdd 1).get.toNat = s.delivered + 1
  rw [NonZeroU64.toNat_saturatingAdd_of_lt hbound, hshows.delivered_eq]
  rfl

/-- A copy advances the header, and the bus's count restarts from it. -/
theorem Shows.copy (hshows : Shows cap.get.toNat d s) (hlt : s.delivered < cap.get.toNat)
    {copy : Copy b Options}
    (hcount : currentRetryCount copy.headers = currentRetryCount d.headers + 1) :
    Shows cap.get.toNat (localBus.published copy) ⟨s.copied + 2, s.copied + 1⟩ := by
  have hcopied := hshows.copied_lt
  have hbound : s.copied + 1 + 1 < u64Bound :=
    lt_u64Bound_of_le (show s.copied + 1 ≤ cap.get.toNat by omega)
  have hcount' : (currentRetryCount copy.headers).toNat = s.copied + 1 := by
    rw [hcount, toNat_add_of_lt, hshows.copied_eq]
    · rfl
    · rw [hshows.copied_eq]
      exact Nat.lt_of_succ_lt hbound
  refine ⟨?_, Nat.lt_succ_self _, ?_, hcount'⟩
  · change s.copied + 2 ≤ cap.get.toNat
    omega
  · change (deliveryCountOf copy.headers).get.toNat = s.copied + 2
    have hone : NonZeroU64.min.get.toNat = 1 := rfl
    rw [deliveryCountOf_eq, NonZeroU64.toNat_saturatingAdd_of_lt, hone, hcount']
    · omega
    · rw [hone, hcount']
      omega

/-- Below the cap an immediate retry is the bus's own requeue. -/
theorem comesBack_retry (hcap : delivery.declaration.maxAttempts = some cap)
    (hpath : copyPath host = some path) (hspent : ¬Spent d.message delivery.declaration)
    (hretry : attempt.outcome = .retry) :
    localBus.comesBack delivery host d attempt = [d.requeue] := by
  have hisRetry : attempt.outcome.IsRetry := by
    rw [hretry]
    trivial
  have hcall : wayBack attempt.outcome delivery host d.message path = .broker (.nack true) := by
    rw [hretry]
    rfl
  exact Transport.comesBack_of_broker (t := localBus)
    ((disposition_of_not_spent hcap hspent hpath hisRetry).trans hcall)

theorem not_broughtBack_of_delayed (hretry : attempt.outcome.IsRetry)
    (hdelayed : attempt.outcome ≠ .retry) : ¬BroughtBack d.message attempt.outcome := by
  match hout : attempt.outcome, hretry with
  | .nack true, _ => exact absurd hout hdelayed
  | .nackAfter delay, _ => simp [BroughtBack, LocalDelivery.message]

/-- **The counters follow the bus.** -/
theorem localBus_simulates (hcap : delivery.declaration.maxAttempts = some cap)
    (hpath : copyPath host = some path) (hkeeps : path.KeepsCount) :
    Relay.Simulates (localBus.comesBack delivery host) (Counters.next cap.get.toNat)
      (Shows cap.get.toNat) fun d attempt => Accepted delivery host path d.message attempt where
  stops d s attempt hshows haccepted hnext := by
    have hge : cap.get.toNat ≤ s.delivered := by
      by_contra hlt
      rw [Counters.next, if_neg hlt] at hnext
      split_ifs at hnext
    have hspent := (spent_local_iff hcap hshows).mpr hge
    exact Transport.comesBack_of_givenUp (t := localBus) (haccepted.givenUp hpath hspent)
  goes_on d s attempt s' hshows haccepted hnext := by
    have hlt : s.delivered < cap.get.toNat := by
      by_contra hge
      rw [Counters.next, if_pos (Nat.le_of_not_lt hge)] at hnext
      cases hnext
    have hspent : ¬Spent d.message delivery.declaration := by
      rw [spent_local_iff hcap hshows]
      omega
    rw [Counters.next, if_neg (Nat.not_le.mpr hlt)] at hnext
    by_cases hretry : attempt.outcome = .retry
    · rw [if_pos hretry] at hnext
      cases hnext
      exact ⟨d.requeue, comesBack_retry hcap hpath hspent hretry, hshows.requeue hlt⟩
    · rw [if_neg hretry] at hnext
      cases hnext
      obtain ⟨copy, hback, hcount⟩ := haccepted.comesBack (t := localBus) hpath hkeeps hcap hspent
        (not_broughtBack_of_delayed haccepted.retries hretry)
      exact ⟨localBus.published copy, hback, hshows.copy hlt hcount⟩

end Bus

/-! ## When the counters respect the cap -/

section Trace

variable {limit i : ℕ} {s : Counters} {attempts : List (Attempt b Options)}

/-- The states of a run whose first delivery is the `i`-th: none is past the cap, and the one at the
cap shows it. -/
def WithinCap (limit i : ℕ) (states : List (Counters × Attempt b Options)) : Prop :=
  ∀ j q, states[j]? = some q → i + j ≤ limit ∧ (i + j = limit → limit ≤ q.1.delivered)

theorem withinCap_nil : WithinCap limit i ([] : List (Counters × Attempt b Options)) := by
  intro j q hq
  simp at hq

theorem withinCap_cons {q : Counters × Attempt b Options}
    {states : List (Counters × Attempt b Options)} : WithinCap limit i (q :: states) ↔
      (i ≤ limit ∧ (i = limit → limit ≤ q.1.delivered)) ∧ WithinCap limit (i + 1) states := by
  constructor
  · intro h
    refine ⟨h 0 q rfl, fun j q' hq' => ?_⟩
    have hj := h (j + 1) q' hq'
    rwa [show i + (j + 1) = i + 1 + j by omega] at hj
  · rintro ⟨hhead, htail⟩ j q' hq'
    cases j with
    | zero =>
      cases hq'
      exact hhead
    | succ j =>
      have hj := htail j q' hq'
      rwa [show i + 1 + j = i + (j + 1) by omega] at hj

variable {attempt : Attempt b Options}

theorem withinCap_cons_of_lt {states : List (Counters × Attempt b Options)} (hi : i < limit) :
    WithinCap limit i ((s, attempt) :: states) ↔ WithinCap limit (i + 1) states := by
  rw [withinCap_cons]
  refine ⟨fun h => h.2, fun h => ⟨⟨hi.le, fun heq => absurd heq hi.ne⟩, h⟩⟩

theorem trace_of_retry (hlt : s.delivered < limit) (hretry : attempt.outcome = .retry) :
    Relay.trace (Counters.next limit) s (attempt :: attempts)
      = (s, attempt) :: Relay.trace (Counters.next limit) ⟨s.delivered + 1, s.copied⟩ attempts := by
  rw [Relay.trace_cons, Counters.next, if_neg (Nat.not_le.mpr hlt), if_pos hretry]
  rfl

theorem trace_of_delayed (hlt : s.delivered < limit) (hretry : attempt.outcome ≠ .retry) :
    Relay.trace (Counters.next limit) s (attempt :: attempts)
      = (s, attempt) :: Relay.trace (Counters.next limit) ⟨s.copied + 2, s.copied + 1⟩ attempts := by
  rw [Relay.trace_cons, Counters.next, if_neg (Nat.not_le.mpr hlt), if_neg hretry]
  rfl

/-- A count that lags behind the deliveries never catches up, so the run has to end by itself. -/
theorem withinCap_iff_of_lagging (hlag : s.delivered < i) (hi : i ≤ limit)
    (hcopied : s.copied < s.delivered) :
    WithinCap limit i (Relay.trace (Counters.next limit) s attempts) ↔
      attempts.length + i ≤ limit := by
  induction attempts generalizing s i with
  | nil =>
    refine ⟨fun _ => ?_, fun _ => withinCap_nil⟩
    rw [length_nil]
    omega
  | cons attempt attempts ih =>
    have hlt : s.delivered < limit := by omega
    rw [length_cons]
    rcases hi.lt_or_eq with hi | rfl
    · by_cases hretry : attempt.outcome = .retry
      · rw [trace_of_retry hlt hretry, withinCap_cons_of_lt hi,
          ih (Nat.succ_lt_succ hlag) hi (Nat.lt_succ_of_lt hcopied)]
        omega
      · rw [trace_of_delayed hlt hretry, withinCap_cons_of_lt hi,
          ih (show s.copied + 2 < i + 1 by omega) hi (Nat.lt_succ_self _)]
        omega
    · -- the delivery at the cap does not show it
      refine ⟨fun h => ?_, fun h => by omega⟩
      rw [Relay.trace_cons, withinCap_cons] at h
      exact absurd (h.1.2 rfl) (Nat.not_le.mpr hlt)

/-- At the cap the count ends the run. -/
theorem withinCap_of_delivered_eq (hi : s.delivered = limit) :
    WithinCap limit limit (Relay.trace (Counters.next limit) s attempts) := by
  cases attempts with
  | nil => exact withinCap_nil
  | cons attempt attempts =>
    rw [Relay.trace_cons, Counters.next, if_pos hi.ge, withinCap_cons]
    exact ⟨⟨le_rfl, fun _ => hi.ge⟩, withinCap_nil⟩

/-- Once a requeue is not in the header, the next copy forgets it: the run has to end by itself or
to stay with requeues up to the cap. -/
theorem withinCap_iff_of_requeued (hcount : s.delivered = i) (hi : i ≤ limit)
    (hcopied : s.copied + 1 < s.delivered) :
    WithinCap limit i (Relay.trace (Counters.next limit) s attempts) ↔ attempts.length + i ≤ limit ∨
        ∀ attempt ∈ attempts.take (limit - i), attempt.outcome = .retry := by
  induction attempts generalizing s i with
  | nil => exact ⟨fun _ => Or.inr (by simp), fun _ => withinCap_nil⟩
  | cons attempt attempts ih =>
    rcases hi.lt_or_eq with hi | rfl
    · have htake : limit - i = limit - (i + 1) + 1 := by omega
      rw [length_cons, htake, take_succ_cons, forall_mem_cons]
      by_cases hretry : attempt.outcome = .retry
      · rw [trace_of_retry (hcount ▸ hi) hretry, withinCap_cons_of_lt hi,
          ih (congrArg (· + 1) hcount) hi (Nat.lt_succ_of_lt hcopied)]
        simp only [hretry, true_and]
        rw [show attempts.length + (i + 1) = attempts.length + 1 + i by omega]
      · rw [trace_of_delayed (hcount ▸ hi) hretry, withinCap_cons_of_lt hi,
          withinCap_iff_of_lagging (show s.copied + 2 < i + 1 by omega) hi (Nat.lt_succ_self _)]
        simp only [hretry, false_and, or_false]
        rw [show attempts.length + (i + 1) = attempts.length + 1 + i by omega]
    · refine ⟨fun _ => Or.inr ?_, fun _ => withinCap_of_delivered_eq hcount⟩
      simp

/-- While the header has counted every delivery so far, requeues must not come before copies. -/
theorem withinCap_iff (hcount : s.delivered = i) (hi : i ≤ limit)
    (hcopied : s.copied + 1 = s.delivered) :
    WithinCap limit i (Relay.trace (Counters.next limit) s attempts) ↔
      attempts.length + i ≤ limit ∨ (attempts.take (limit - i)).Pairwise
        fun earlier later => earlier.outcome = .retry → later.outcome = .retry := by
  induction attempts generalizing s i with
  | nil => exact ⟨fun _ => Or.inr (by simp), fun _ => withinCap_nil⟩
  | cons attempt attempts ih =>
    rcases hi.lt_or_eq with hi | rfl
    · have htake : limit - i = limit - (i + 1) + 1 := by omega
      have hlength : attempts.length + (i + 1) = attempts.length + 1 + i := by omega
      rw [length_cons, htake, take_succ_cons, pairwise_cons]
      by_cases hretry : attempt.outcome = .retry
      · rw [trace_of_retry (hcount ▸ hi) hretry, withinCap_cons_of_lt hi,
          withinCap_iff_of_requeued (congrArg (· + 1) hcount) hi
            (show s.copied + 1 < s.delivered + 1 by omega), hlength]
        -- requeues to the end are in order among themselves
        refine or_congr_right ⟨fun h => ⟨fun a ha _ => h a ha, ?_⟩, fun h a ha => h.1 a ha hretry⟩
        exact pairwise_of_forall_mem_list fun a _ a' ha' _ => h a' ha'
      · rw [trace_of_delayed (hcount ▸ hi) hretry, withinCap_cons_of_lt hi,
          ih (show s.copied + 2 = i + 1 by omega) hi rfl, hlength]
        refine or_congr_right ⟨fun h => ⟨fun _ _ h' => absurd h' hretry, h⟩, fun h => h.2⟩
    · refine ⟨fun _ => Or.inr ?_, fun _ => withinCap_of_delivered_eq hcount⟩
      simp

end Trace

/-! ## The cap on the bus -/

/-- At most `limit` deliveries, and the one at the limit is given up instead of coming back. -/
def HeldToCap {D : Type} (limit : ℕ) (t : Transport b Options D) (delivery : Delivery)
    (host : Host b Options) (path : CopyPath Options b) (d : D)
    (attempts : List (Attempt b Options)) : Prop :=
  ∀ j p, (t.journey delivery host d attempts)[j]? = some p →
    j + 1 ≤ limit ∧ (j + 1 = limit → t.comesBack delivery host p.1 p.2 = [] ∧
      GivenUp delivery.declaration.deadLetter path (t.message p.1) p.2.store.held
        (t.settled delivery host p.1 p.2))

section Cap

variable {delivery : Delivery} {host : Host b Options} {path : CopyPath Options b}
  {cap : NonZeroU32} {d : LocalDelivery b} {s : Counters} {attempts : List (Attempt b Options)}

/-- The journey is held to the cap exactly when its counters are. -/
theorem heldToCap_iff_withinCap (hcap : delivery.declaration.maxAttempts = some cap)
    (hpath : copyPath host = some path) (hkeeps : path.KeepsCount)
    (hshows : Shows cap.get.toNat d s) (haccepted : ∀ p ∈ localBus.journey delivery host d attempts,
      Accepted delivery host path p.1.message p.2) :
    HeldToCap cap.get.toNat localBus delivery host path d attempts ↔
      WithinCap cap.get.toNat 1 (Relay.trace (Counters.next cap.get.toNat) s attempts) := by
  have hsim := localBus_simulates hcap hpath hkeeps
  constructor
  · intro h j q hq
    obtain ⟨d', hd', hshows'⟩ := Relay.getElem?_trace hsim hshows haccepted hq
    obtain ⟨hle, hend⟩ := h j (d', q.2) hd'
    refine ⟨by omega, fun heq => ?_⟩
    by_contra hlt
    obtain ⟨hback, -⟩ := hend (by omega)
    -- a delivery below the cap comes back
    cases hnext : Counters.next cap.get.toNat q.1 q.2 with
    | none =>
      rw [Counters.next, if_neg hlt] at hnext
      split_ifs at hnext
    | some s' =>
      obtain ⟨d'', hback', -⟩ := hsim.goes_on d' q.1 q.2 s' hshows'
        (haccepted _ (mem_of_getElem? hd')) hnext
      rw [hback'] at hback
      cases hback
  · intro h j p hp
    obtain ⟨s', hs', hshows'⟩ := Relay.getElem?_run hsim hshows haccepted hp
    obtain ⟨hle, hend⟩ := h j (s', p.2) hs'
    refine ⟨by omega, fun heq => ?_⟩
    have hspent := (spent_local_iff hcap hshows').mpr (hend (by omega))
    have hgiven := (haccepted p (mem_of_getElem? hp)).givenUp (t := localBus) hpath hspent
    exact ⟨Transport.comesBack_of_givenUp hgiven, hgiven⟩

/-- A message published without a retry count shows one delivery and no copy. -/
theorem shows_published {copy : Copy b Options} (cap : NonZeroU32)
    (hnew : copy.headers.get retryCountHeader = none) :
    Shows cap.get.toNat (localBus.published copy) ⟨1, 0⟩ := by
  have hcount : currentRetryCount copy.headers = 0 := by
    rw [currentRetryCount, hnew]
  refine ⟨cap.pos, Nat.zero_lt_one, ?_, ?_⟩
  · change (deliveryCountOf copy.headers).get.toNat = 1
    rw [deliveryCountOf_eq, hcount]
    rfl
  · change (currentRetryCount copy.headers).toNat = 0
    rw [hcount]
    rfl

end Cap

/-- **When the cap holds on the local bus.** For a message published once without a retry count, and
whatever the handler answers, with every requeue and every copy accepted: the handler is given the
message at most `cap` times and the delivery at the cap is given up exactly when there are fewer
attempts than the cap, or no delayed retry comes after an immediate one among the attempts before
the cap. -/
theorem local_cap_holds_iff (delivery : Delivery) (host : Host b Options)
    (path : CopyPath Options b) (cap : NonZeroU32) (copy : Copy b Options)
    (attempts : List (Attempt b Options)) (hcap : delivery.declaration.maxAttempts = some cap)
    (hpath : copyPath host = some path) (hkeeps : path.KeepsCount)
    (hnew : copy.headers.get retryCountHeader = none)
    (haccepted : ∀ p ∈ localBus.journey delivery host (localBus.published copy) attempts,
      Accepted delivery host path p.1.message p.2) :
    HeldToCap cap.get.toNat localBus delivery host path (localBus.published copy) attempts ↔
      attempts.length < cap.get.toNat ∨ (attempts.take (cap.get.toNat - 1)).Pairwise
        fun earlier later => earlier.outcome = .retry → later.outcome = .retry := by
  have hshows := shows_published cap hnew
  rw [heldToCap_iff_withinCap hcap hpath hkeeps hshows haccepted]
  exact withinCap_iff rfl cap.pos rfl

/-- A registration that gives up at the third attempt and names where to. -/
def thriceThenDead : Delivery where
  declaration := ⟨some ⟨3, by decide⟩, some "dead"⟩
  coordinator := none

/-- The turns of a handler that settles with each of the outcomes. -/
def turns (outcomes : List HandlerResult) : List (Attempt .alloc Unit) :=
  outcomes.map fun outcome => ⟨outcome, none, ⟨[], 0, false⟩⟩

/-- A message as it is first published. -/
def newOrder : Copy .alloc Unit where
  destination := "orders"
  payload := []
  headers := HeaderMap.new
  options := none

/-- A retry publisher that takes every copy. -/
def ordersRoute : CopyPath Unit .alloc :=
  .published ⟨fun _ _ => .ok (), some "orders", "orders"⟩

/-- On a mount that takes every copy each retry is accepted. -/
theorem accepted_turns {outcomes : List HandlerResult} (h : ∀ o ∈ outcomes, o.IsRetry)
    (d : LocalDelivery .alloc) {p : LocalDelivery .alloc × Attempt .alloc Unit}
    (hp : p ∈ localBus.journey thriceThenDead copyingHost d (turns outcomes)) :
    Accepted thriceThenDead copyingHost ordersRoute p.1.message p.2 := by
  obtain ⟨outcome, hmem, hturn⟩ := mem_map.mp (Relay.mem_of_mem_run hp)
  refine ⟨?_, Or.inl rfl, fun _ _ => ⟨?_, fun _ _ => rfl⟩, fun _ _ _ => ⟨trivial, fun _ _ => rfl⟩⟩
  · rw [← hturn]
    exact h outcome hmem
  · rintro ⟨-, -, hreserve⟩
    cases hreserve

theorem cap_holds_for_copies_then_requeues :
    HeldToCap 3 localBus thriceThenDead copyingHost ordersRoute (localBus.published newOrder)
      (turns [.retryAfter 5, .retry, .retry, .retry]) := by
  refine (local_cap_holds_iff thriceThenDead copyingHost ordersRoute ⟨3, by decide⟩ newOrder
    (turns [.retryAfter 5, .retry, .retry, .retry]) rfl rfl trivial rfl ?_).mpr (Or.inr ?_)
  · intro p hp
    refine accepted_turns ?_ _ hp
    simp [HandlerResult.retry, HandlerResult.retryAfter, HandlerResult.IsRetry]
  · simp [turns, HandlerResult.retry, HandlerResult.retryAfter]

theorem cap_passed_by_copy_after_requeue :
    newOrder.headers.get retryCountHeader = none ∧
      (∀ p ∈ localBus.journey thriceThenDead copyingHost (localBus.published newOrder)
          (turns [.retry, .retryAfter 5, .retry, .retry]),
        Accepted thriceThenDead copyingHost ordersRoute p.1.message p.2) ∧
      (localBus.journey thriceThenDead copyingHost (localBus.published newOrder)
        (turns [.retry, .retryAfter 5, .retry, .retry])).length = 4 ∧
      ¬HeldToCap 3 localBus thriceThenDead copyingHost ordersRoute (localBus.published newOrder)
        (turns [.retry, .retryAfter 5, .retry, .retry]) := by
  have hlength : (localBus.journey thriceThenDead copyingHost (localBus.published newOrder)
      (turns [.retry, .retryAfter 5, .retry, .retry])).length = 4 := by
    decide +kernel
  refine ⟨rfl, fun p hp => accepted_turns ?_ _ hp, hlength, fun h => ?_⟩
  · simp [HandlerResult.retry, HandlerResult.retryAfter, HandlerResult.IsRetry]
  · obtain ⟨hle, -⟩ := h 3 _ (List.getElem?_eq_getElem (by rw [hlength]; decide))
    omega

end RustStream
