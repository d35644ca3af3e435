import RustStream.Headers.RetryCount

/-!
# Deliveries and where their next copy goes

A delivery as the settlement sees it: its bytes and headers, the broker's own delivery count where
the transport keeps one, whether the transport can hold a delivery back, and what it answers to each
settle call. A registration declares a cap on the attempts, a dead-letter destination, both or
nothing; `redeliveryOf` reads the declaration against a delivery.

## Main definitions

* `SettleCall`, `AckError`: the calls that settle a delivery and their failures.
* `Message`: one delivery.
* `RetryDeclaration`: what the registration declared.
* `attemptOf`, `redeliveryOf`: the attempt number of a delivery and where its next copy goes.

## Main results

* `redeliveryOf_of_spent`: a spent delivery never goes back to its subscription.
* `redeliveryOf_of_not_spent`: under a cap every other delivery does.
-/

namespace RustStream

/-- A span of time in nanoseconds. -/
abbrev Duration := ℕ

/-- Why a settle call failed. -/
inductive AckError where
  /-- The transport has no such settlement. -/
  | unsupported
  /-- The broker refused the call. -/
  | broker (error : String)
  /-- The broker did not answer in time. -/
  | timeout
  deriving DecidableEq, Repr

/-- A call that consumes a delivery. -/
inductive SettleCall where
  | ack
  | nack (requeue : Bool)
  | nackAfter (delay : Duration)
  deriving DecidableEq, Repr

/-- How a handler settles its delivery. -/
inductive HandlerResult where
  | ack
  | nack (requeue : Bool)
  | nackAfter (delay : Duration)
  deriving DecidableEq, Repr

namespace HandlerResult

/-- The immediate retry. -/
def retry : HandlerResult := .nack true

/-- The delayed retry. -/
def retryAfter (delay : Duration) : HandlerResult := .nackAfter delay

/-- Whether the outcome asks for the delivery again. -/
def IsRetry : HandlerResult → Prop
  | .nack true => True
  | .nackAfter _ => True
  | _ => False

theorem IsRetry.eq_or {outcome : HandlerResult} (h : outcome.IsRetry) :
    outcome = .nack true ∨ ∃ delay, outcome = .nackAfter delay := by
  cases outcome with
  | ack => exact h.elim
  | nack requeue =>
    cases requeue with
    | true => exact Or.inl rfl
    | false => exact h.elim
  | nackAfter delay => exact Or.inr ⟨delay, rfl⟩

end HandlerResult

/-- A call answered by the transport. -/
abbrev Answer := Except AckError Unit

/-- One delivery, with the answers its transport gives to the settle calls. -/
structure Message (b : Build) where
  payload : Bytes
  headers : Headers b
  /-- The broker's own count of the deliveries of this message, this one included. -/
  redeliveryCount : Option UInt64
  /-- Whether the transport holds a delivery back itself. -/
  supportsNackAfter : Bool
  answer : SettleCall → Answer

/-- A positive 32-bit number. -/
structure NonZeroU32 where
  get : UInt32
  pos : 0 < get.toNat

/-- What a registration declares about its retries. -/
structure RetryDeclaration where
  maxAttempts : Option NonZeroU32
  deadLetter : Option String

namespace RetryDeclaration

/-- Whether neither a cap nor a destination is declared. -/
def declaresNothing (declaration : RetryDeclaration) : Bool :=
  declaration.maxAttempts.isNone && declaration.deadLetter.isNone

variable {declaration : RetryDeclaration}

theorem declaresNothing_of_cap {cap : NonZeroU32} (h : declaration.maxAttempts = some cap) :
    declaration.declaresNothing = false := by
  rw [declaresNothing, h]
  rfl

end RetryDeclaration

/-- Where the next copy of one delivery goes. -/
inductive Redelivery where
  /-- Back to the subscription itself. -/
  | subscription
  /-- To the declared destination, because the attempts are spent or because the registration
  named a destination and no cap. -/
  | deadLetter (destination : String) (atCap : Bool)
  /-- Rejected without a copy: the attempts are spent and nowhere is declared. -/
  | reject
  deriving DecidableEq, Repr

variable {b : Build}

/-- How many times this message has been delivered, counting this delivery: the broker's own count
where the transport keeps one, the framework's header otherwise. -/
def attemptOf (msg : Message b) : UInt64 :=
  msg.redeliveryCount.getD (currentRetryCount msg.headers + 1)

/-- Reads the registration's declaration against this delivery. -/
def redeliveryOf (msg : Message b) (declaration : RetryDeclaration) : Redelivery :=
  match declaration.maxAttempts, declaration.deadLetter with
  | some cap, destination =>
    if cap.get.toUInt64 ≤ attemptOf msg then
      match destination with
      | some destination => .deadLetter destination true
      | none => .reject
    else .subscription
  | none, some destination => .deadLetter destination false
  | none, none => .subscription

/-! ## Spent deliveries -/

/-- The attempts of the delivery have reached the declared cap. -/
def Spent (msg : Message b) (declaration : RetryDeclaration) : Prop :=
  ∃ cap, declaration.maxAttempts = some cap ∧ cap.get.toNat ≤ (attemptOf msg).toNat

/-- Where a delivery goes that does not return: the declared destination, or nowhere. -/
def spentRedelivery (declaration : RetryDeclaration) : Redelivery :=
  match declaration.deadLetter with
  | some destination => .deadLetter destination true
  | none => .reject

variable {msg : Message b} {declaration : RetryDeclaration}

theorem cap_le_iff (cap : NonZeroU32) (attempt : UInt64) :
    cap.get.toUInt64 ≤ attempt ↔ cap.get.toNat ≤ attempt.toNat := by
  rw [UInt64.le_iff_toNat_le, UInt32.toNat_toUInt64]

/-- Under a declared cap, the attempts are spent where they reach it. -/
theorem spent_iff {cap : NonZeroU32} (hcap : declaration.maxAttempts = some cap) :
    Spent msg declaration ↔ cap.get.toNat ≤ (attemptOf msg).toNat := by
  refine ⟨?_, fun h => ⟨cap, hcap, h⟩⟩
  rintro ⟨cap', hcap', h⟩
  rw [hcap] at hcap'
  cases hcap'
  exact h

theorem redeliveryOf_of_spent (h : Spent msg declaration) :
    redeliveryOf msg declaration = spentRedelivery declaration := by
  obtain ⟨cap, hcap, hle⟩ := h
  rw [← cap_le_iff] at hle
  simp only [redeliveryOf, spentRedelivery, hcap, if_pos hle]

theorem redeliveryOf_of_not_spent {cap : NonZeroU32} (hcap : declaration.maxAttempts = some cap)
    (h : ¬Spent msg declaration) : redeliveryOf msg declaration = .subscription := by
  have hlt : ¬cap.get.toUInt64 ≤ attemptOf msg := by
    rwa [cap_le_iff, ← spent_iff hcap]
  simp only [redeliveryOf, hcap, if_neg hlt]

end RustStream
