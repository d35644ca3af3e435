import RustStream.Dispatch.Spent
import RustStream.Lib.Relay

/-!
# The journey of one message

A message is delivered, settled, and perhaps delivered again: put back by its broker, held back and
returned by it, or published as a copy the runtime made. A transport says what each of these brings,
`Transport.journey` is the list of deliveries the handler is given, and a settlement's disposition
says which of them comes next.

## Main definitions

* `Transport`: how deliveries come back.
* `Transport.journey`: the deliveries of one message, each with the attempt that settled it.
* `GivenUp`: the settlement that ends a journey under a cap.
* `Transport.Accepted`: an attempt whose copies are accepted.

## Main results

* `Transport.comesBack_of_copy`, `Transport.comesBack_of_broker`: what a settlement brings back.
* `Transport.givenUp_of_spent`: a spent delivery is given up and does not come back.
* `silent_simulates`: a transport that counts nothing follows the count of its copies.
-/

namespace RustStream

variable {b : Build} {Options D : Type}

/-- One turn of the handler: the outcome it settles with, and what the runtime holds by then. -/
structure Attempt (b : Build) (Options : Type) where
  outcome : HandlerResult
  reaction : Option (Reaction b)
  store : CopyStore b Options

namespace Attempt

/-- The world the settlement starts in. -/
def before (attempt : Attempt b Options) : World b Options :=
  World.start attempt.reaction attempt.store

end Attempt

/-- The wait an outcome asks for. -/
def HandlerResult.delay : HandlerResult → Option Duration
  | .nackAfter delay => some delay
  | _ => none

/-- How a transport hands out its deliveries and brings them back. -/
structure Transport (b : Build) (Options D : Type) where
  message : D → Message b
  -- what `nack(true)` and `nack_after` bring back
  requeued : D → D
  delayed : D → D
  -- what a copy published to the subscription is delivered as
  published : Copy b Options → D

namespace Transport

/-- What a settle call brings back by itself. -/
def recalled (t : Transport b Options D) (d : D) : SettleCall × Answer → Option D
  | (.nack true, .ok _) => some (t.requeued d)
  | (.nackAfter _, .ok _) => some (t.delayed d)
  | _ => none

/-- What a copy brings back: it has to be bound for the subscription and to have got out. -/
def redelivered (t : Transport b Options D) (departure : Departure b Options) : Option D :=
  match departure.target, departure.fate with
  | .deadLetter _, _ => none
  | .subscription, .failed _ => none
  | .subscription, .published => some (t.published departure.copy)
  | .subscription, .scheduled _ _ => some (t.published departure.copy)

section Run

variable (t : Transport b Options D) (delivery : Delivery) (host : Host b Options)

/-- The world an attempt leaves behind. -/
def settled (d : D) (attempt : Attempt b Options) : World b Options :=
  settleReacting attempt.outcome delivery host (t.message d) attempt.before

/-- The deliveries that come back after an attempt. -/
def comesBack (d : D) (attempt : Attempt b Options) : List D :=
  (t.settled delivery host d attempt).calls.filterMap (t.recalled d) ++
    (t.settled delivery host d attempt).departures.filterMap t.redelivered

/-- The deliveries of one message to its handler, each with the attempt that settled it. -/
def journey (d : D) (attempts : List (Attempt b Options)) : List (D × Attempt b Options) :=
  Relay.run (t.comesBack delivery host) [d] attempts

theorem journey_def (d : D) (attempts : List (Attempt b Options)) :
    t.journey delivery host d attempts = Relay.run (t.comesBack delivery host) [d] attempts := rfl

end Run

end Transport

/-! ## What a settlement brings back -/

variable {t : Transport b Options D} {delivery : Delivery} {host : Host b Options}
  {path : CopyPath Options b} {d : D} {attempt : Attempt b Options}

/-- The settlement gives the delivery up: its only call drops the original, and one copy leaves at
once for the declared destination, or none where nothing is declared. The copy is out where every
copy is accepted. -/
structure GivenUp (destination : Option String) (path : CopyPath Options b) (msg : Message b)
    (held : List Held) (w : World b Options) : Prop where
  call : w.calls = [(.nack false, msg.answer (.nack false))]
  rejected : destination = none → w.departures = []
  buried : ∀ name, destination = some name → ∃ departure, w.departures = [departure] ∧
    departure.target = .deadLetter name ∧ departure.fate.AtOnce ∧
    (path.Accepts msg held (.deadLetter name) →
      departure.fate = .published ∧ departure.copy.destination = name)

namespace Transport

theorem settled_realises (t : Transport b Options D) (delivery : Delivery) (host : Host b Options)
    (d : D) (attempt : Attempt b Options) : ∃ answer, Realises (t.message d) attempt.before
      (disposition attempt.outcome delivery host (t.message d))
      (answer, t.settled delivery host d attempt) :=
  settleReacting_realises _ _ _ _ _

/-- A call of the broker's own brings back what the transport says it does. -/
theorem comesBack_of_broker {call : SettleCall}
    (h : disposition attempt.outcome delivery host (t.message d) = .broker call) :
    t.comesBack delivery host d attempt
      = (t.recalled d (call, (t.message d).answer call)).toList := by
  obtain ⟨answer, hrealises⟩ := t.settled_realises delivery host d attempt
  rw [h] at hrealises
  obtain ⟨rfl, hcalls, hno⟩ := hrealises
  rw [comesBack, hcalls, hno.departures_eq]
  cases hrecalled : t.recalled d (call, (t.message d).answer call) with
  | none => simp [Attempt.before, World.start, hrecalled]
  | some d' => simp [Attempt.before, World.start, hrecalled]

/-- A copy to the subscription that is accepted brings back one delivery, counted once more. -/
theorem comesBack_of_copy {delay : Option Duration}
    (h : disposition attempt.outcome delivery host (t.message d) = .copy path .subscription delay)
    (hdrop : Dropped ((t.message d).answer (.nack false))) (hkeeps : path.KeepsCount)
    (haccepts : path.Accepts (t.message d) attempt.store.held .subscription) :
    ∃ copy, t.comesBack delivery host d attempt = [t.published copy] ∧
      currentRetryCount copy.headers = currentRetryCount (t.message d).headers + 1 := by
  obtain ⟨answer, hrealises⟩ := t.settled_realises delivery host d attempt
  rw [h] at hrealises
  obtain ⟨hcalls, hcopy⟩ := hrealises
  rcases hcopy with ⟨-, -, -, departure, hdep, hcarries⟩ | ⟨hfailed, -, -⟩
  · refine ⟨departure.copy, ?_, hcarries.count_eq hkeeps⟩
    have hback : t.redelivered departure = some (t.published departure.copy) := by
      have htarget := hcarries.target_eq
      have hout := hcarries.accepted haccepts
      rw [redelivered]
      cases hfate : departure.fate with
      | published => simp [htarget]
      | scheduled wait timer => simp [htarget]
      | failed cause => exact absurd hfate (hout cause)
    rw [comesBack, hcalls, hdep]
    simp [Attempt.before, World.start, recalled, hback]
  · exact absurd hdrop hfailed

/-- What is given up does not come back. -/
theorem comesBack_of_givenUp {held : List Held}
    (h : GivenUp delivery.declaration.deadLetter path (t.message d) held
      (t.settled delivery host d attempt)) : t.comesBack delivery host d attempt = [] := by
  rw [comesBack, h.call]
  cases hdest : delivery.declaration.deadLetter with
  | none => simp [h.rejected hdest, recalled]
  | some name =>
    obtain ⟨departure, hdep, htarget, -, -⟩ := h.buried name hdest
    simp [hdep, recalled, redelivered, htarget]

/-- **A spent delivery is given up**, where its original can be dropped and the count of a dead
letter fits. -/
theorem givenUp_of_spent (hspent : Spent (t.message d) delivery.declaration)
    (hpath : copyPath host = some path) (hretry : attempt.outcome.IsRetry)
    (hdrop : Dropped ((t.message d).answer (.nack false)))
    (hfits : ∀ name, delivery.declaration.deadLetter = some name →
      CountFits (t.message d).headers) :
    GivenUp delivery.declaration.deadLetter path (t.message d) attempt.store.held
      (t.settled delivery host d attempt) := by
  obtain ⟨answer, hrealises⟩ := t.settled_realises delivery host d attempt
  rw [disposition_of_spent hspent hpath hretry] at hrealises
  cases hdest : delivery.declaration.deadLetter with
  | none =>
    rw [hdest] at hrealises
    obtain ⟨rfl, hcalls, hno⟩ := hrealises
    exact ⟨hcalls, fun _ => hno.departures_eq, by simp⟩
  | some name =>
    have hroom : path.HasRoom delivery host (t.message d) none :=
      (hasRoom_none_iff path).mpr (hfits name hdest)
    simp only [hdest, copyOrRequeue, if_pos hroom] at hrealises
    obtain ⟨hcalls, hcopy⟩ := hrealises
    rcases hcopy with ⟨-, -, -, departure, hdep, hcarries⟩ | ⟨hfailed, -, -⟩
    · refine ⟨hcalls, by simp, ?_⟩
      rintro name' ⟨⟩
      have hnow := hcarries.atOnce
      refine ⟨departure, hdep, hcarries.target_eq, hnow, fun haccepts => ?_⟩
      have hout := hcarries.accepted haccepts
      refine ⟨?_, (hcarries.addressed name rfl).resolve_right fun hfailed =>
        hfailed.elim hout⟩
      cases hfate : departure.fate with
      | published => rfl
      | failed cause => exact absurd hfate (hout cause)
      | scheduled wait timer =>
        rw [hfate] at hnow
        exact hnow.elim
    · exact absurd hdrop hfailed

end Transport

/-! ## Attempts under a cap -/

/-- The broker brings the delivery back itself: it delays, or it counts what it requeues. -/
def BroughtBack (msg : Message b) : HandlerResult → Prop
  | .nackAfter _ => msg.supportsNackAfter = true
  | _ => msg.redeliveryCount.isSome = true

/-- The way back to the subscription: by the broker where it counts or delays itself, as a copy
where it does not. -/
def wayBack (outcome : HandlerResult) (delivery : Delivery) (host : Host b Options)
    (msg : Message b) (path : CopyPath Options b) : Disposition Options b :=
  match outcome with
  | .nackAfter delay =>
    if msg.supportsNackAfter then .broker (.nackAfter delay)
    else copyOrRequeue delivery host msg path .subscription (some delay)
  | _ =>
    if msg.redeliveryCount.isSome then .broker (.nack true)
    else copyOrRequeue delivery host msg path .subscription none

theorem wayBack_of_not_broughtBack {outcome : HandlerResult} {msg : Message b}
    (h : ¬BroughtBack msg outcome) (hroom : path.HasRoom delivery host msg outcome.delay) :
    wayBack outcome delivery host msg path = .copy path .subscription outcome.delay := by
  cases outcome with
  | ack | nack requeue | nackAfter delay => exact (if_neg h).trans (if_pos hroom)

/-- Below the cap a retry goes back to the subscription. -/
theorem disposition_of_not_spent {outcome : HandlerResult} {msg : Message b} {cap : NonZeroU32}
    (hcap : delivery.declaration.maxAttempts = some cap) (h : ¬Spent msg delivery.declaration)
    (hpath : copyPath host = some path) (hretry : outcome.IsRetry) :
    disposition outcome delivery host msg = wayBack outcome delivery host msg path := by
  have hnext := redeliveryOf_of_not_spent hcap h
  have hsomething := RetryDeclaration.declaresNothing_of_cap hcap
  rcases hretry.eq_or with rfl | ⟨delay, rfl⟩
  · simp only [disposition, wayBack, hpath, hsomething, hnext, nextStop, true_and,
      Bool.false_eq_true, if_false]
  · simp only [disposition, wayBack, hpath, hnext, nextStop, ne_eq, not_true_eq_false, and_false,
      if_false]

/-- The attempt retries, its original can be dropped, and the copy it asks for is accepted: a copy
back to the subscription, where the broker does not bring the delivery back itself, or the dead
letter of a spent delivery. -/
structure Accepted (delivery : Delivery) (host : Host b Options) (path : CopyPath Options b)
    (msg : Message b) (attempt : Attempt b Options) : Prop where
  retries : attempt.outcome.IsRetry
  dropped : Dropped (msg.answer (.nack false))
  back : ¬Spent msg delivery.declaration → ¬BroughtBack msg attempt.outcome →
    path.HasRoom delivery host msg attempt.outcome.delay ∧
      path.Accepts msg attempt.store.held .subscription
  buried : ∀ name, Spent msg delivery.declaration →
    delivery.declaration.deadLetter = some name →
    CountFits msg.headers ∧ path.Accepts msg attempt.store.held (.deadLetter name)

namespace Accepted

theorem givenUp (haccepted : Accepted delivery host path (t.message d) attempt)
    (hpath : copyPath host = some path) (hspent : Spent (t.message d) delivery.declaration) :
    GivenUp delivery.declaration.deadLetter path (t.message d) attempt.store.held
      (t.settled delivery host d attempt) :=
  Transport.givenUp_of_spent hspent hpath haccepted.retries haccepted.dropped
    fun name hdest => (haccepted.buried name hspent hdest).1

/-- Below the cap, where the broker brings nothing back itself, one counted copy comes back. -/
theorem comesBack (haccepted : Accepted delivery host path (t.message d) attempt)
    (hpath : copyPath host = some path) (hkeeps : path.KeepsCount) {cap : NonZeroU32}
    (hcap : delivery.declaration.maxAttempts = some cap)
    (hspent : ¬Spent (t.message d) delivery.declaration)
    (hbrought : ¬BroughtBack (t.message d) attempt.outcome) :
    ∃ copy, t.comesBack delivery host d attempt = [t.published copy] ∧
      currentRetryCount copy.headers = currentRetryCount (t.message d).headers + 1 := by
  obtain ⟨hroom, htaken⟩ := haccepted.back hspent hbrought
  have hcopy := (disposition_of_not_spent hcap hspent hpath haccepted.retries).trans
    (wayBack_of_not_broughtBack hbrought hroom)
  exact Transport.comesBack_of_copy hcopy haccepted.dropped hkeeps htaken

end Accepted

/-- A journey that ends at its `limit`-th delivery: every delivery before it comes back, once, and
the last one is given up. -/
structure Capped (limit : ℕ) (t : Transport b Options D) (delivery : Delivery)
    (host : Host b Options) (path : CopyPath Options b) (d : D)
    (attempts : List (Attempt b Options)) : Prop where
  length_eq : (t.journey delivery host d attempts).length = min limit attempts.length
  returns : ∀ j p, (t.journey delivery host d attempts)[j]? = some p → j + 1 < limit →
    ∃ d', t.comesBack delivery host p.1 p.2 = [d']
  ends : ∀ j p, (t.journey delivery host d attempts)[j]? = some p → j + 1 = limit →
    t.comesBack delivery host p.1 p.2 = [] ∧
      GivenUp delivery.declaration.deadLetter path (t.message p.1) p.2.store.held
        (t.settled delivery host p.1 p.2)

section Counting

variable {limit : ℕ} {R : D → ℕ → Prop} {fair : D → Attempt b Options → Prop}
  {attempts : List (Attempt b Options)}

/-- **Counting to the cap.** A transport whose deliveries are counted by one counter, one further
each time, ends its journeys at the cap. -/
theorem capped_of_simulates
    (hsim : Relay.Simulates (t.comesBack delivery host) (Relay.countUp limit) R fair)
    (hend : ∀ d attempt, R d limit → fair d attempt →
      GivenUp delivery.declaration.deadLetter path (t.message d) attempt.store.held
        (t.settled delivery host d attempt)) (hlimit : 1 ≤ limit) (hR : R d 1)
    (hfair : ∀ p ∈ t.journey delivery host d attempts, fair p.1 p.2) :
    Capped limit t delivery host path d attempts := by
  have hstate : ∀ j p, (t.journey delivery host d attempts)[j]? = some p → R p.1 (1 + j) := by
    intro j p hp
    obtain ⟨s, hs, hRs⟩ := Relay.getElem?_run hsim hR hfair hp
    have hcount : s = 1 + j := Relay.getElem?_trace_countUp hs
    rwa [hcount] at hRs
  refine ⟨?_, fun j p hp hj => ?_, fun j p hp hj => ?_⟩
  · have hlength := (Relay.run_simulates hsim hR hfair).length_eq
    rw [Transport.journey_def, hlength, Relay.length_trace_countUp hlimit]
    omega
  · have hp' := hfair p (List.mem_of_getElem? hp)
    have hnext : Relay.countUp limit (1 + j) p.2 = some (1 + j + 1) := if_pos (by omega)
    obtain ⟨d', hback, -⟩ := hsim.goes_on p.1 (1 + j) p.2 _ (hstate j p hp) hp' hnext
    exact ⟨d', hback⟩
  · have hp' := hfair p (List.mem_of_getElem? hp)
    have hRj := hstate j p hp
    rw [show 1 + j = limit by omega] at hRj
    have hgiven := hend p.1 p.2 hRj hp'
    exact ⟨Transport.comesBack_of_givenUp hgiven, hgiven⟩

end Counting

/-! ## Transports that count nothing -/

/-- A transport that counts nothing and delays nothing, and delivers a copy with the retry count it
was sent with. -/
structure Transport.Silent (t : Transport b Options D) : Prop where
  uncounted : ∀ d, (t.message d).redeliveryCount = none
  undelayed : ∀ d, (t.message d).supportsNackAfter = false
  carries : ∀ copy, (t.message (t.published copy)).headers.get retryCountHeader
    = copy.headers.get retryCountHeader

/-- The retry count of the delivery stands for its attempt number `s`. -/
def CountedAs (limit : ℕ) (t : Transport b Options D) (d : D) (s : ℕ) : Prop :=
  s ≤ limit ∧ (currentRetryCount (t.message d).headers).toNat + 1 = s

section Silent

variable {cap : NonZeroU32}

theorem spent_iff_of_silent (hsilent : t.Silent)
    (hcap : delivery.declaration.maxAttempts = some cap) {s : ℕ}
    (hcount : CountedAs cap.get.toNat t d s) :
    Spent (t.message d) delivery.declaration ↔ cap.get.toNat ≤ s := by
  obtain ⟨hle, hs⟩ := hcount
  have hattempt : (attemptOf (t.message d)).toNat = s := by
    rw [attemptOf, hsilent.uncounted, Option.getD_none, toNat_add_of_lt, ← hs]
    · rfl
    · exact lt_u64Bound_of_le (by omega : _ ≤ cap.get.toNat)
  rw [spent_iff hcap, hattempt]

theorem not_broughtBack_of_silent (hsilent : t.Silent) (outcome : HandlerResult) :
    ¬BroughtBack (t.message d) outcome := by
  cases outcome <;> simp [BroughtBack, hsilent.uncounted, hsilent.undelayed]

/-- **A transport that counts nothing follows the count of its copies.** -/
theorem silent_simulates (hsilent : t.Silent)
    (hcap : delivery.declaration.maxAttempts = some cap) (hpath : copyPath host = some path)
    (hkeeps : path.KeepsCount) :
    Relay.Simulates (t.comesBack delivery host) (Relay.countUp cap.get.toNat)
      (CountedAs cap.get.toNat t) fun d attempt =>
        Accepted delivery host path (t.message d) attempt where
  stops d s attempt hcount haccepted hnext := by
    have hs : ¬s < cap.get.toNat := by
      intro hlt
      simp [Relay.countUp, hlt] at hnext
    have hspent := (spent_iff_of_silent hsilent hcap hcount).mpr (by omega)
    exact Transport.comesBack_of_givenUp (haccepted.givenUp hpath hspent)
  goes_on d s attempt s' hcount haccepted hnext := by
    have hs : s < cap.get.toNat := by
      by_contra hge
      simp [Relay.countUp, hge] at hnext
    have hs' : s' = s + 1 := by
      simp [Relay.countUp, hs] at hnext
      exact hnext.symm
    have hspent : ¬Spent (t.message d) delivery.declaration := by
      rw [spent_iff_of_silent hsilent hcap hcount]
      omega
    obtain ⟨copy, hback, hcounted⟩ := haccepted.comesBack hpath hkeeps hcap hspent
      (not_broughtBack_of_silent hsilent _)
    refine ⟨t.published copy, hback, by omega, ?_⟩
    obtain ⟨hle, hcount⟩ := hcount
    rw [currentRetryCount_congr (hsilent.carries copy), hcounted, toNat_add_of_lt, hs', ← hcount]
    · rfl
    · exact lt_u64Bound_of_le (by omega : _ ≤ cap.get.toNat)

end Silent

end RustStream
