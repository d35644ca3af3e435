import Mathlib.Order.Basic

/-!
# Going to sleep without losing a wake-up

A task that waits for something others bring about leaves a waker with them, raises a flag, looks once
more at what it waits for, and goes to sleep. Whoever brings it about looks at the flag afterwards;
where it is up they take it down and wake the sleeper. Several may bring it about, each on its own
account, and only one of them gets to take the flag down.

`Covered` is what carries such a handshake through every interleaving, from the moment the flag is up:
a wake has arrived, somebody is committed to one, or the flag is up and all who have brought about what
the sleeper needs have yet to look at it. What the sleeper has already looked at is part of what it
needs; before it has looked at anything it needs nothing, and the flag alone is enough.

## Main definitions

* `Parking.Waker`: a waker that may be left with others, and the wake that has arrived.
* `Parking.Covered`: the sleeper is not forgotten.

## Main results

* `Parking.Covered.change`, `Parking.Covered.commit`, `Parking.Covered.wake`: the steps of the others.
* `Parking.Covered.pending`: a sleeper in need is woken or about to be.
-/

namespace Parking

/-- A waker left with others, and whether the task it belongs to is to run again. -/
structure Waker where
  registered : Bool
  woken : Bool
  deriving DecidableEq, Repr

namespace Waker

def new : Waker := ⟨false, false⟩

/-- The task leaves its waker. -/
def register (w : Waker) : Waker := { w with registered := true }

/-- The waker that was left is taken and used. -/
def wake (w : Waker) : Waker :=
  if w.registered then ⟨false, true⟩ else w

/-- The task runs, and the wakes that arrived are used up. -/
def poll (w : Waker) : Waker := { w with woken := false }

/-- A wake reaches the task, or one has already. -/
def Armed (w : Waker) : Prop := w.registered = true ∨ w.woken = true

variable {w : Waker}

theorem armed_register (w : Waker) : w.register.Armed := Or.inl rfl

theorem Armed.woken_wake (h : w.Armed) : w.wake.woken = true := by
  unfold wake
  split_ifs with hregistered
  · rfl
  · exact h.resolve_left hregistered

theorem Armed.wake (h : w.Armed) : w.wake.Armed := Or.inr h.woken_wake

end Waker

section Covered

variable {P : Type*} {w : Waker} {flag flag' : Prop} {needs needs' looks looks' commits commits' : P → Prop}

/-- A sleeper that has raised its flag, and the parties that bring about what it needs: those it needs
something of already, those that are still to look at the flag, and those committed to wake it. -/
def Covered (w : Waker) (flag : Prop) (needs looks commits : P → Prop) : Prop :=
  w.Armed ∧ (w.woken = true ∨ (∃ p, commits p) ∨ (flag ∧ ∀ p, needs p → looks p))

/-- The flag goes up before the sleeper looks. -/
theorem covered_raise (harmed : w.Armed) (hflag : flag) (hneeds : ∀ p, ¬needs p) :
    Covered w flag needs looks commits :=
  ⟨harmed, Or.inr (Or.inr ⟨hflag, fun p hp => absurd hp (hneeds p)⟩)⟩

section

variable (h : Covered w flag needs looks commits)
include h

/-- **A sleeper in need is woken or about to be.** -/
theorem Covered.pending {p : P} (hp : needs p) :
    w.woken = true ∨ (w.registered = true ∧ ((∃ p, commits p) ∨ (flag ∧ looks p))) := by
  obtain ⟨harmed, hcase⟩ := h
  rcases harmed with hregistered | hwoken
  · rcases hcase with hwoken | hcommits | ⟨hflag, hall⟩
    · exact Or.inl hwoken
    · exact Or.inr ⟨hregistered, Or.inl hcommits⟩
    · exact Or.inr ⟨hregistered, Or.inr ⟨hflag, hall p hp⟩⟩
  · exact Or.inl hwoken

/-- One party takes a step. -/
theorem Covered.change [DecidableEq P] (p : P) (hcommits : ∀ q, commits q → commits' q)
    (hoff : ∀ q, q ≠ p → (needs' q → needs q) ∧ (looks q → looks' q))
    (hat : flag → (needs p → looks p) → needs' p → looks' p) :
    Covered w flag needs' looks' commits' := by
  obtain ⟨harmed, hwoken | ⟨q, hq⟩ | ⟨hflag, hall⟩⟩ := h
  · exact ⟨harmed, Or.inl hwoken⟩
  · exact ⟨harmed, Or.inr (Or.inl ⟨q, hcommits q hq⟩)⟩
  · refine ⟨harmed, Or.inr (Or.inr ⟨hflag, fun q hq => ?_⟩)⟩
    rcases eq_or_ne q p with rfl | hne
    · exact hat hflag (hall q) hq
    · exact (hoff q hne).2 (hall q ((hoff q hne).1 hq))

/-- The sleeper looks at something it does not need. -/
theorem Covered.narrow (hneeds : ∀ p, needs' p → needs p) :
    Covered w flag needs' looks commits := by
  obtain ⟨harmed, hwoken | hcommits | ⟨hflag, hall⟩⟩ := h
  · exact ⟨harmed, Or.inl hwoken⟩
  · exact ⟨harmed, Or.inr (Or.inl hcommits)⟩
  · exact ⟨harmed, Or.inr (Or.inr ⟨hflag, fun p hp => hall p (hneeds p hp)⟩)⟩

/-- One party commits to the wake, whatever becomes of the flag. -/
theorem Covered.commit {p : P} (hp : commits' p) : Covered w flag' needs' looks' commits' :=
  ⟨h.1, Or.inr (Or.inl ⟨p, hp⟩)⟩

/-- The wake arrives. -/
theorem Covered.wake : Covered w.wake flag' needs' looks' commits' :=
  ⟨h.1.wake, Or.inl h.1.woken_wake⟩

/-- Where nobody is committed and the flag is down, the wake has arrived. -/
theorem Covered.woken_of_not_flag (hflag : ¬flag)
    (hcommits : ∀ p, ¬commits p) : w.woken = true := by
  obtain ⟨-, hwoken | ⟨p, hp⟩ | ⟨hup, -⟩⟩ := h
  · exact hwoken
  · exact absurd hp (hcommits p)
  · exact absurd hup hflag

end

end Covered

end Parking
