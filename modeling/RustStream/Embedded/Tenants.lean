import RustStream.Embedded.Copies
import RustStream.Lib.Tenancy

/-!
# The copies as tenants of their records

What holds between two steps of the store of `RustStream.Embedded.Copies`. A copy is a tenant of its record
from the call that takes it to the one that gives it back, and relies on it for a state and for its content:
what a fresh record would hold. A record no copy has is free and bound nowhere. Beside that, what left for
each copy is what its life says, the driver is at a copy it publishes, and the timer it waits on is set no
later than any copy waits for, unless a copy was armed since it last looked.

## Main definitions

* `Holds`, `Vacant`: what a copy relies on, and what is known of a record no copy has.
* `Sound`: the invariant.

## Main results

* `Sound.change`: one copy moves on.
* `step_sound`: every step keeps the invariant.
-/

namespace RustStream

open Function

namespace Embedded

variable {b : Build} {Options : Type} {cap : ℕ}

/-! ## The invariant -/

/-- What a copy relies on its record for. -/
def Holds (life : Life b Options cap) (record : Record b Options) : Prop :=
  match life.stage with
  | .taken => record.held = .taken ∧ record.toDestination = false ∧ life.fresh.toDestination = false
  | .filled => record.held = .taken ∧ record.toDestination = false ∧ Same record life.fresh
  | .bound => record.held = .taken ∧ Same record life.fresh ∧ record.reaction = life.fresh.reaction
  | .armed due =>
    record.held = .due due ∧ Same record life.fresh ∧ record.reaction = life.fresh.reaction
  | .sending _ => record.held = .sending
  | .departed => False
  | .freed => False

/-- What is known of a record no copy has. -/
def Vacant (record : Record b Options) : Prop :=
  record.held = .free ∧ record.toDestination = false

/-- The copy was never armed. -/
def Stage.isUnarmed : Stage → Bool
  | .taken => true
  | .filled => true
  | .bound => true
  | .freed => true
  | _ => false

/-- What is known of a copy: it left if it was handed to be published, as the fresh record has it, and
if it was armed not before its instant. -/
structure Life.Own (address : String) (life : Life b Options cap) : Prop where
  gone : life.left.isSome = life.stage.isGone
  left : ∀ leaving now, life.left = some (leaving, now) →
    leaving = departure address life.fresh ∧
      ∀ due, life.fresh.held = .due due → ∃ instant, now = some instant ∧ due ≤ instant
  armed : ∀ due, life.stage = .armed due → life.fresh.held = .due due
  unarmed : life.stage.isUnarmed = true → life.fresh.held = .free

/-- The record a copy has. -/
def placeOf (lives : ℕ → Option (Life b Options cap)) (copy : ℕ) : Option (Fin cap) :=
  (lives copy).bind fun life => if life.stage.isLive then some life.index else none

/-- What a copy relies on its record for. -/
def holdsOf (lives : ℕ → Option (Life b Options cap)) (copy : ℕ) (record : Record b Options) : Prop :=
  ∀ life, lives copy = some life → Holds life record

/-- What holds between two steps. -/
structure Sound (address : String) (s : State b Options cap) : Prop where
  tenancy : Tenancy s.owner (placeOf s.lives) (holdsOf s.lives) Vacant s.records
  log : ∀ c, s.departures.filter (fun entry => entry.1 = c) =
    ((s.lives c).bind Life.left).toList.map fun left => (c, left.1)
  own : ∀ c life, s.lives c = some life → life.Own address
  driver : ∀ c, s.driver = .sending c → ∃ life, s.lives c = some life ∧ life.stage = .sending true
  timer : ∀ instant, s.driver = .waiting (some instant) → s.armed = false →
    ∀ c life due, s.lives c = some life → life.stage = .armed due → instant ≤ due

section Put

variable {address : String} {s : State b Options cap} {c : ℕ} {life life' : Life b Options cap}
  {record : Record b Options}

theorem placeOf_of_live {lives : ℕ → Option (Life b Options cap)} (hc : lives c = some life)
    (hlive : life.stage.isLive = true) : placeOf lives c = some life.index := by
  rw [placeOf, hc, Option.bind_some, if_pos hlive]

variable (lives : ℕ → Option (Life b Options cap))

theorem placeOf_update_self (c : ℕ) (hlive : life.stage.isLive = true) :
    placeOf (update lives c (some life)) c = some life.index :=
  placeOf_of_live (update_self ..) hlive

theorem placeOf_update_of_ne (life : Life b Options cap)
    {c' : ℕ} (h : c' ≠ c) : placeOf (update lives c (some life)) c' = placeOf lives c' := by
  rw [placeOf, placeOf, update_of_ne h]

theorem holdsOf_update_self (c : ℕ)
    (h : Holds life record) : holdsOf (update lives c (some life)) c record := by
  intro life' hlife'
  rw [update_self] at hlife'
  cases hlife'
  exact h

theorem holdsOf_update_of_ne (life : Life b Options cap)
    {c' : ℕ} (h : c' ≠ c) (r : Record b Options) (hr : holdsOf lives c' r) :
    holdsOf (update lives c (some life)) c' r := by
  intro life' hlife'
  rw [update_of_ne h] at hlife'
  exact hr life' hlife'

/-- A copy goes on with its record. -/
theorem Sound.tenancy_stay (h : Sound address s) (hc : s.lives c = some life)
    (hlive : life.stage.isLive = true) (hindex : life'.index = life.index)
    (hlive' : life'.stage.isLive = true) (hholds : Holds life' record) :
    Tenancy s.owner (placeOf (s.put c life' record).lives) (holdsOf (s.put c life' record).lives)
      Vacant (s.put c life' record).records := by
  have hplace := placeOf_of_live hc hlive
  refine h.tenancy.stay (hindex ▸ hplace) ?_ (fun c' hne => holdsOf_update_of_ne s.lives life' hne)
    (holdsOf_update_self s.lives c hholds)
  intro c'
  by_cases hne : c' = c
  · subst hne
    exact (placeOf_update_self s.lives c' hlive').trans (hindex ▸ hplace.symm)
  · exact placeOf_update_of_ne s.lives life' hne

/-- A copy is done with its record. -/
theorem Sound.tenancy_leave (h : Sound address s) (hc : s.lives c = some life)
    (hlive : life.stage.isLive = true) (hindex : life'.index = life.index)
    (hlive' : life'.stage.isLive = false) (hvacant : Vacant record) :
    Tenancy s.owner (placeOf (s.put c life' record).lives) (holdsOf (s.put c life' record).lives)
      Vacant (s.put c life' record).records := by
  refine h.tenancy.leave (hindex ▸ placeOf_of_live hc hlive) ?_
    (fun c' hne => placeOf_update_of_ne s.lives life' hne)
    (fun c' hne => holdsOf_update_of_ne s.lives life' hne) hvacant
  have hgone : ¬ life'.stage.isLive = true := fun hlive => by
    rw [hlive'] at hlive
    cases hlive
  show placeOf (update s.lives c (some life')) c = none
  rw [placeOf, update_self, Option.bind_some, if_neg hgone]

/-- One copy moves on, and everything else stays as it was but for the driver, which may only turn to
that copy or go on with what it was at. -/
theorem Sound.change (h : Sound address s) {t : State b Options cap}
    (hlives : t.lives = update s.lives c (some life'))
    (htenancy : Tenancy t.owner (placeOf t.lives) (holdsOf t.lives) Vacant t.records)
    (hlog : t.departures.filter (fun entry => entry.1 = c) =
      life'.left.toList.map fun left => (c, left.1))
    (hlogs : ∀ c' ≠ c, t.departures.filter (fun entry => entry.1 = c') =
      s.departures.filter fun entry => entry.1 = c') (hown : life'.Own address)
    (hdriver : ∀ c', t.driver = .sending c' →
      c' = c ∧ life'.stage = .sending true ∨ c' ≠ c ∧ s.driver = .sending c')
    (htimer : ∀ instant, t.driver = .waiting (some instant) → t.armed = false →
      s.driver = .waiting (some instant) ∧ s.armed = false ∧ ∀ due, life'.stage ≠ .armed due) :
    Sound address t := by
  have hself : t.lives c = some life' := by rw [hlives, update_self]
  have hother : ∀ c' ≠ c, t.lives c' = s.lives c' := fun c' hne => by
    rw [hlives, update_of_ne hne]
  refine ⟨htenancy, ?_, ?_, ?_, ?_⟩
  · intro c'
    by_cases hne : c' = c
    · subst hne
      rw [hself, hlog, Option.bind_some]
    · rw [hother c' hne, hlogs c' hne, h.log c']
  · intro c' life'' hlife
    by_cases hne : c' = c
    · subst hne
      rw [hself] at hlife
      cases hlife
      exact hown
    · exact h.own c' life'' ((hother c' hne).symm.trans hlife)
  · intro c' hsending
    rcases hdriver c' hsending with ⟨rfl, hstage⟩ | ⟨hne, hbefore⟩
    · exact ⟨life', hself, hstage⟩
    · obtain ⟨life'', hlife, hstage⟩ := h.driver c' hbefore
      exact ⟨life'', (hother c' hne).trans hlife, hstage⟩
  · intro instant hwaiting harmed c' life'' due hlife hstage
    obtain ⟨hbefore, harmed', hnot⟩ := htimer instant hwaiting harmed
    by_cases hne : c' = c
    · subst hne
      rw [hself] at hlife
      cases hlife
      exact absurd hstage (hnot due)
    · exact h.timer instant hbefore harmed' c' life'' due ((hother c' hne).symm.trans hlife) hstage

/-- A copy that the driver does not publish is not the one the driver is at. -/
theorem Sound.driver_ne (h : Sound address s) (hc : s.lives c = some life)
    (hstage : life.stage ≠ .sending true) : s.driver ≠ .sending c := by
  intro hdriver
  obtain ⟨life', hlife, hsending⟩ := h.driver c hdriver
  rw [hc] at hlife
  cases hlife
  exact hstage hsending

/-- The driver is at what it was at. -/
theorem State.sending_of_eq (hdriver : s.driver ≠ .sending c) (c' : ℕ)
    (hsending : s.driver = .sending c') :
    c' = c ∧ life'.stage = .sending true ∨ c' ≠ c ∧ s.driver = .sending c' := by
  refine Or.inr ⟨?_, hsending⟩
  rintro rfl
  exact hdriver hsending

theorem Sound.log_of_eq (h : Sound address s) (hc : s.lives c = some life)
    (hleft : life'.left = life.left) :
    s.departures.filter (fun entry => entry.1 = c) = life'.left.toList.map fun left => (c, left.1) := by
  rw [h.log c, hc, Option.bind_some, hleft]

/-- A copy moves on and keeps its record; one that is armed must have been announced. -/
theorem Sound.put (h : Sound address s) (hc : s.lives c = some life)
    (hlive : life.stage.isLive = true) (hdriver : s.driver ≠ .sending c)
    (hindex : life'.index = life.index) (hlive' : life'.stage.isLive = true)
    (hholds : Holds life' record) (hleft : life'.left = life.left) (hown : life'.Own address)
    (harmed : s.armed = true ∨ ∀ due, life'.stage ≠ .armed due) :
    Sound address (s.put c life' record) := by
  refine h.change rfl (h.tenancy_stay hc hlive hindex hlive' hholds) (h.log_of_eq hc hleft)
    (fun _ _ => rfl) hown (State.sending_of_eq hdriver) ?_
  intro instant hwaiting hfalse
  rcases harmed with htrue | hnot
  · exact absurd (htrue.symm.trans hfalse) (by decide)
  · exact ⟨hwaiting, hfalse, hnot⟩

/-- A copy is done and gives its record back. -/
theorem Sound.retire (h : Sound address s) (hc : s.lives c = some life)
    (hlive : life.stage.isLive = true) (hdriver : s.driver ≠ .sending c)
    (hindex : life'.index = life.index) (hlive' : life'.stage.isLive = false)
    (hvacant : Vacant record) (hleft : life'.left = life.left) (hown : life'.Own address) :
    Sound address (s.put c life' record) := by
  refine h.change rfl (h.tenancy_leave hc hlive hindex hlive' hvacant) (h.log_of_eq hc hleft)
    (fun _ _ => rfl) hown (State.sending_of_eq hdriver) ?_
  intro instant hwaiting hfalse
  refine ⟨hwaiting, hfalse, fun due hdue => ?_⟩
  rw [hdue] at hlive'
  cases hlive'

/-- The driver turns to something else, or a flag is raised, and no record is touched. -/
theorem Sound.turn (h : Sound address s) {armed closed : Bool} {driver : Driver}
    (hdriver : ∀ c, driver = .sending c → s.driver = .sending c)
    (htimer : ∀ instant, driver = .waiting (some instant) → armed = false →
      ∀ c life due, s.lives c = some life → life.stage = .armed due → instant ≤ due) :
    Sound address { s with armed := armed, closed := closed, driver := driver } :=
  ⟨h.tenancy, h.log, h.own, fun c hsending => h.driver c (hdriver c hsending), htimer⟩

end Put

/-! ### The workers -/

section Workers

variable {address : String} {path : CopyPublisher b Options} {s : State b Options cap} {c : ℕ}
  {life : Life b Options cap}

theorem Holds.held_ne_free {record : Record b Options} (h : Holds life record) :
    record.held ≠ .free := by
  unfold Holds at h
  intro hfree
  cases hstage : life.stage <;> rw [hstage] at h <;> simp [hfree] at h

/-- A record that is free is no copy's. -/
theorem Sound.place_ne_of_free (h : Sound address s) {i : Fin cap} (hfree : (s.records i).held = .free)
    (c : ℕ) : placeOf s.lives c ≠ some i := by
  intro hplace
  obtain ⟨-, hholds⟩ := h.tenancy.held c i hplace
  cases hc : s.lives c with
  | none =>
    rw [placeOf, hc] at hplace
    cases hplace
  | some life => exact (hholds life hc).held_ne_free hfree

theorem Sound.holds (h : Sound address s) (hc : s.lives c = some life)
    (hlive : life.stage.isLive = true) : Holds life (s.records life.index) :=
  (h.tenancy.held c _ (placeOf_of_live hc hlive)).2 life hc

theorem Sound.not_left (h : Sound address s) (hc : s.lives c = some life)
    (hstage : life.stage.isGone = false) : life.left = none := by
  have hgone := (h.own c life hc).gone
  rw [hstage] at hgone
  exact Option.isNone_iff_eq_none.mp (Option.isSome_eq_false_iff.mp hgone)

/-- A copy that has not left and is not armed. -/
theorem Life.Own.of_pending {life : Life b Options cap} (hgone : life.stage.isGone = false)
    (hleft : life.left = none) (harmed : ∀ due, life.stage = .armed due → life.fresh.held = .due due)
    (hunarmed : life.stage.isUnarmed = true → life.fresh.held = .free) : life.Own address := by
  refine ⟨by rw [hleft, hgone]; rfl, ?_, harmed, hunarmed⟩
  intro leaving now hsome
  rw [hleft] at hsome
  cases hsome

theorem Sound.take (h : Sound address s) (hc : s.lives c = none) {i : Fin cap}
    (hfirst : s.firstFree = some i) :
    Sound address
      { s.put c ⟨i, .taken, emptyRecord, none⟩ { s.records i with held := .taken } with
        owner := update s.owner i c } := by
  have hnobody := h.place_ne_of_free (State.held_of_firstFree hfirst)
  have hvacant := h.tenancy.free i (hnobody _)
  have hnew : placeOf s.lives c = none := by rw [placeOf, hc, Option.bind_none]
  refine h.change rfl ?_ ?_ (fun _ _ => rfl) (Life.Own.of_pending rfl rfl ?_ fun _ => rfl) ?_ ?_
  · refine h.tenancy.enter hnobody (placeOf_update_self s.lives c rfl)
      (fun c' hne => placeOf_update_of_ne s.lives _ hne)
      (fun c' hne => holdsOf_update_of_ne s.lives _ hne) (holdsOf_update_self s.lives c ?_) hnew
    exact ⟨rfl, hvacant.2, rfl⟩
  · have hnone := h.log c
    rw [hc] at hnone
    exact hnone
  · intro due hdue
    cases hdue
  · refine State.sending_of_eq fun hdriver => ?_
    obtain ⟨life, hlife, -⟩ := h.driver c hdriver
    rw [hc] at hlife
    cases hlife
  · intro instant hdriver harmed
    refine ⟨hdriver, harmed, fun due hdue => ?_⟩
    cases hdue

/-- What a worker may rely on before it hands its record on. -/
structure InHand (s : State b Options cap) (c : ℕ) (life : Life b Options cap) : Prop where
  live : life.stage.isLive = true
  gone : life.stage.isGone = false
  driver : s.driver ≠ .sending c
  left : life.left = none
  unarmed : life.fresh.held = .free
  held : (s.records life.index).held = .taken
  bound : (s.records life.index).toDestination = false
  fresh : life.fresh.toDestination = false

section

variable (h : Sound address s)
include h

section

variable (hc : s.lives c = some life)
include hc

theorem Sound.inHand (hstage : life.stage = .taken ∨ life.stage = .filled) : InHand s c life := by
  have hlive : life.stage.isLive = true := by
    rcases hstage with hstage | hstage <;> rw [hstage] <;> rfl
  have hgone : life.stage.isGone = false := by
    rcases hstage with hstage | hstage <;> rw [hstage] <;> rfl
  have hne : s.driver ≠ .sending c := by
    refine h.driver_ne hc fun hsending => ?_
    rw [hsending] at hgone
    cases hgone
  have hunarmed : life.fresh.held = .free := by
    refine (h.own c life hc).unarmed ?_
    rcases hstage with hstage | hstage <;> rw [hstage] <;> rfl
  have hholds := h.holds hc hlive
  unfold Holds at hholds
  rcases hstage with hstage | hstage
  · rw [hstage] at hholds
    exact ⟨hlive, hgone, hne, h.not_left hc hgone, hunarmed, hholds.1, hholds.2.1, hholds.2.2⟩
  · rw [hstage] at hholds
    exact ⟨hlive, hgone, hne, h.not_left hc hgone, hunarmed, hholds.1, hholds.2.1,
      hholds.2.2.toDestination.symm.trans hholds.2.1⟩

theorem Sound.same (hstage : life.stage = .filled) : Same (s.records life.index) life.fresh := by
  have hholds := h.holds hc (by rw [hstage]; rfl)
  unfold Holds at hholds
  rw [hstage] at hholds
  exact hholds.2.2

theorem Sound.fill
    (hstage : life.stage = .taken ∨ life.stage = .filled) (payload : Bytes) (headers : Headers b) :
    Sound address (s.put c { life with stage := .filled, fresh := life.fresh.fill payload headers }
      ((s.records life.index).fill payload headers)) := by
  have hand := h.inHand hc hstage
  refine h.put hc hand.live hand.driver rfl rfl ?_ rfl ?_ (Or.inr ?_)
  · exact ⟨hand.held, hand.bound, Same.fill hand.bound hand.fresh payload headers⟩
  · refine Life.Own.of_pending rfl hand.left (fun due hdue => ?_) fun _ => hand.unarmed
    cases hdue
  · intro due hdue
    cases hdue

theorem Sound.prepare
    (hstage : life.stage = .filled) (msg : Message b) (destination : String) :
    Sound address (s.put c { life with fresh := life.fresh.prepare path msg destination }
      ((s.records life.index).prepare path msg destination)) := by
  have hand := h.inHand hc (Or.inr hstage)
  have hunarmed : ∀ due, life.stage ≠ .armed due := fun due hdue => by
    rw [hstage] at hdue
    cases hdue
  refine h.put hc hand.live hand.driver rfl ?_ ?_ rfl ?_ (Or.inr hunarmed)
  · exact hand.live
  · unfold Holds
    rw [hstage]
    exact ⟨hand.held, hand.bound, (h.same hc hstage).prepare path msg destination⟩
  · exact Life.Own.of_pending hand.gone hand.left (fun due hdue => absurd hdue (hunarmed due))
      fun _ => hand.unarmed

theorem Sound.arm
    (hstage : life.stage = .filled) (due : ℕ) (reaction : Option (Reaction b)) :
    Sound address
      { s.put c
          { life with stage := .armed due, fresh := armRecord life.fresh due reaction }
          (armRecord (s.records life.index) due reaction) with
        armed := true } := by
  have hand := h.inHand hc (Or.inr hstage)
  have hraised : Sound address { s with armed := true } :=
    h.turn (fun c hsending => hsending) fun instant _ harmed => by cases harmed
  refine hraised.put hc hand.live hand.driver rfl rfl ?_ rfl ?_ (Or.inl rfl)
  · have hsame := h.same hc hstage
    exact ⟨rfl, ⟨hsame.payload, hsame.headers, hsame.options, hsame.oversize, hsame.toDestination,
      hsame.destination⟩, rfl⟩
  · refine Life.Own.of_pending rfl hand.left ?_ ?_
    · intro due' hdue
      cases hdue
      rfl
    · intro hunarmed
      cases hunarmed

theorem Sound.sendNow
    (hstage : life.stage = .filled) (destination : Option String) (reaction : Option (Reaction b)) :
    Sound address
      (s.put c { life with stage := .bound, fresh := life.fresh.bind destination reaction }
        ((s.records life.index).bind destination reaction)) := by
  have hand := h.inHand hc (Or.inr hstage)
  refine h.put hc hand.live hand.driver rfl rfl ?_ rfl ?_ (Or.inr ?_)
  · refine ⟨(held_bind ..).trans hand.held, (h.same hc hstage).bind destination reaction, ?_⟩
    rw [reaction_bind, reaction_bind]
  · refine Life.Own.of_pending rfl hand.left (fun due hdue => ?_) fun _ => ?_
    · cases hdue
    · exact (held_bind ..).trans hand.unarmed
  · intro due hdue
    cases hdue

theorem Sound.free
    (hstage : life.stage = .taken ∨ life.stage = .filled) :
    Sound address (s.put c { life with stage := .freed } (freeRecord (s.records life.index))) := by
  have hand := h.inHand hc hstage
  refine h.retire hc hand.live hand.driver rfl rfl ?_ rfl ?_
  · exact ⟨rfl, rfl⟩
  · refine Life.Own.of_pending rfl hand.left (fun due hdue => ?_) fun _ => hand.unarmed
    cases hdue

end

end

end Workers

/-! ### The publishes -/

section Publishes

variable {address : String} {s : State b Options cap} {c : ℕ} {life : Life b Options cap}

/-- What a copy's record holds as its publish begins. -/
theorem Sound.departure_eq (h : Sound address s) (hc : s.lives c = some life)
    (hstage : life.stage = .bound ∨ ∃ due, life.stage = .armed due) :
    departure address (s.records life.index) = departure address life.fresh := by
  rcases hstage with hstage | ⟨due, hstage⟩
  · have hholds := h.holds hc (by rw [hstage]; rfl)
    unfold Holds at hholds
    rw [hstage] at hholds
    exact hholds.2.1.departure_eq hholds.2.2 address
  · have hholds := h.holds hc (by rw [hstage]; rfl)
    unfold Holds at hholds
    rw [hstage] at hholds
    exact hholds.2.1.departure_eq hholds.2.2 address

/-- A copy's publish begins. -/
theorem Sound.depart (h : Sound address s) (hc : s.lives c = some life)
    (hstage : life.stage = .bound ∨ ∃ due, life.stage = .armed due) {now : Option ℕ}
    (hnow : ∀ due, life.fresh.held = .due due → ∃ instant, now = some instant ∧ due ≤ instant)
    {byDriver : Bool} {driver : Driver}
    (hdriver : byDriver = true ∧ driver = .sending c ∨ byDriver = false ∧ driver = s.driver) :
    Sound address { s.depart address c life byDriver now with driver := driver } := by
  have hlive : life.stage.isLive = true := by
    rcases hstage with hstage | ⟨due, hstage⟩ <;> rw [hstage] <;> rfl
  have hgone : life.stage.isGone = false := by
    rcases hstage with hstage | ⟨due, hstage⟩ <;> rw [hstage] <;> rfl
  have hleft := h.not_left hc hgone
  have hbefore : s.departures.filter (fun entry => entry.1 = c) = [] := by
    rw [h.log c, hc, Option.bind_some, hleft]
    rfl
  refine h.change rfl (h.tenancy_stay hc hlive rfl rfl rfl) ?_ ?_ ?_ ?_ ?_
  · show (s.departures ++ [(c, departure address (s.records life.index))]).filter _ = _
    rw [List.filter_append, hbefore, List.filter_cons_of_pos (by simp)]
    rfl
  · intro c' hne
    show (s.departures ++ [(c, departure address (s.records life.index))]).filter _ = _
    rw [List.filter_append, List.filter_cons_of_neg (by simpa using Ne.symm hne), List.filter_nil,
      List.append_nil]
  · refine ⟨rfl, ?_, fun due hdue => (by cases hdue), ?_⟩
    · intro leaving now' hsome
      cases hsome
      exact ⟨h.departure_eq hc hstage, hnow⟩
    · intro hunarmed
      cases hunarmed
  · intro c' hsending
    rcases hdriver with ⟨rfl, hdriver⟩ | ⟨-, hdriver⟩
    · have hself := hdriver.symm.trans hsending
      cases hself
      exact Or.inl ⟨rfl, rfl⟩
    · refine State.sending_of_eq (h.driver_ne hc fun hdriven => ?_) c' (hdriver.symm.trans hsending)
      rw [hdriven] at hgone
      cases hgone
  · intro instant hwaiting hfalse
    rcases hdriver with ⟨-, hdriver⟩ | ⟨-, hdriver⟩
    · exact absurd (hdriver.symm.trans hwaiting) (by simp)
    · refine ⟨hdriver.symm.trans hwaiting, hfalse, fun due hdue => ?_⟩
      cases hdue

/-- A copy's publish ends. -/
theorem Sound.land (h : Sound address s) (hc : s.lives c = some life) {byDriver : Bool}
    (hstage : life.stage = .sending byDriver) (hdriver : s.driver ≠ .sending c) :
    Sound address (s.land c life) := by
  have hown := h.own c life hc
  refine h.retire hc (by rw [hstage]; rfl) hdriver rfl rfl ?_ rfl ⟨?_, hown.left, ?_, ?_⟩
  · exact ⟨rfl, rfl⟩
  · have hgone := hown.gone
    rw [hstage] at hgone
    exact hgone
  · intro due hdue
    cases hdue
  · intro hunarmed
    cases hunarmed

end Publishes

/-! ### The driver -/

section DriverPolls

variable {address : String} {s : State b Options cap}

section

variable (h : Sound address s)
include h

/-- A record that is not free is some copy's. -/
theorem Sound.owned {i : Fin cap} (hheld : (s.records i).held ≠ .free) :
    ∃ life, s.lives (s.owner i) = some life ∧ life.stage.isLive = true ∧ life.index = i := by
  by_contra hnot
  have hplace : placeOf s.lives (s.owner i) ≠ some i := by
    intro hplace
    refine hnot ?_
    cases hlife : s.lives (s.owner i) with
    | none =>
      rw [placeOf, hlife] at hplace
      cases hplace
    | some life =>
      rw [placeOf, hlife, Option.bind_some] at hplace
      by_cases hlive : life.stage.isLive = true
      · rw [if_pos hlive] at hplace
        exact ⟨life, rfl, hlive, Option.some.inj hplace⟩
      · rw [if_neg hlive] at hplace
        cases hplace
  exact hheld (h.tenancy.free i hplace).1

/-- A record that is due is the record of a copy armed for that instant. -/
theorem Sound.armed_of_due {i : Fin cap} {due : ℕ} (hheld : (s.records i).held = .due due) :
    ∃ life, s.lives (s.owner i) = some life ∧ life.index = i ∧ life.stage = .armed due := by
  obtain ⟨life, hlife, hlive, rfl⟩ := h.owned (by rw [hheld]; exact Held.noConfusion)
  refine ⟨life, hlife, rfl, ?_⟩
  have hholds := h.holds hlife hlive
  unfold Holds at hholds
  cases hstage : life.stage <;> rw [hstage] at hholds <;> simp [hheld] at hholds
  rw [hholds.1]

/-- An armed copy's record is due at its instant. -/
theorem Sound.held_of_armed {c : ℕ} {life : Life b Options cap} {due : ℕ}
    (hc : s.lives c = some life) (hstage : life.stage = .armed due) :
    (s.records life.index).held = .due due := by
  have hholds := h.holds hc (by rw [hstage]; rfl)
  unfold Holds at hholds
  rw [hstage] at hholds
  exact hholds.1

theorem Sound.scan (now : ℕ) (early : Bool) : Sound address (s.scan address now early) := by
  obtain ⟨i, life, hfirst, hlife, hscan⟩ | ⟨i, -, -, hscan⟩ | ⟨instant, -, hearliest, hscan⟩ |
    ⟨-, -, -, -, hscan⟩ | ⟨-, -, hscan⟩ := s.scan_cases address now early
  · rw [hscan]
    obtain ⟨due, hheld, hle⟩ := State.isDue_of_firstDue hfirst
    obtain ⟨life', hlife', -, hstage⟩ := h.armed_of_due hheld
    rw [hlife] at hlife'
    cases hlife'
    refine h.depart hlife (Or.inr ⟨due, hstage⟩) ?_ (Or.inl ⟨rfl, rfl⟩)
    intro due' hdue
    rw [(h.own _ life hlife).armed due hstage] at hdue
    cases hdue
    exact ⟨now, rfl, hle⟩
  · rw [hscan]
    exact h
  · rw [hscan]
    refine h.turn (fun c hsending => ?_) ?_
    · cases hsending
    · intro instant' hwaiting _ c life due hlife hstage
      cases early with
      | true => cases hwaiting
      | false =>
        cases hwaiting
        exact State.earliest_le hearliest life.index (h.held_of_armed hlife hstage)
  · rw [hscan]
    exact h.turn (fun c hsending => by cases hsending) fun instant hwaiting => by cases hwaiting
  · rw [hscan]
    exact h.turn (fun c hsending => by cases hsending) fun instant hwaiting => by cases hwaiting

theorem Sound.pollDriver {timer : Option ℕ} (hdriver : s.driver = .waiting timer)
    (now : ℕ) (fires early : Bool) :
    Sound address (s.pollDriver address timer now fires early) := by
  obtain ⟨harmed, -, -, hpoll⟩ | hpoll := s.pollDriver_cases address timer now fires early
  · rw [hpoll]
    refine h.turn (fun c hsending => by cases hsending) fun instant hwaiting _ => ?_
    exact h.timer instant (hdriver.trans hwaiting) harmed
  · rw [hpoll]
    refine Sound.scan (h.turn (fun c hsending => by cases hsending) ?_) now early
    exact fun instant hwaiting => by cases hwaiting

end

end DriverPolls

/-! ### Every step -/

section Runs

variable {path : CopyPublisher b Options} {s t : State b Options cap}

theorem step_sound (h : Sound path.address s) {event : Event b} (hstep : step path s event = some t) :
    Sound path.address t := by
  cases moves_of_step hstep with
  | full => exact h
  | take hc hfirst => exact h.take hc hfirst
  | fill hc hstage => exact h.fill hc hstage _ _
  | prepare hc hstage => exact h.prepare hc hstage _ _
  | arm hc hstage => exact h.arm hc hstage _ _
  | sendNow hc hstage => exact h.sendNow hc hstage _ _
  | pollSend hc hstage =>
    refine h.depart hc (Or.inl hstage) ?_ (Or.inr ⟨rfl, rfl⟩)
    intro due hdue
    rw [(h.own _ _ hc).unarmed (by rw [hstage]; rfl)] at hdue
    cases hdue
  | sent hc hstage => exact h.land hc hstage (h.driver_ne hc (by rw [hstage]; simp))
  | free hc hstage => exact h.free hc hstage
  | close => exact h.turn (fun c hsending => hsending) h.timer
  | drive hdriver => exact h.pollDriver hdriver _ _ _
  | driven hdriver hc =>
    obtain ⟨life, hlife, hstage⟩ := h.driver _ hdriver
    rw [hc] at hlife
    cases hlife
    have hreporting : Sound path.address { s with driver := .reporting } :=
      h.turn (fun c hsending => by cases hsending) fun instant hwaiting => by cases hwaiting
    exact hreporting.land hc hstage fun hsending => by cases hsending
  | reported hdriver =>
    exact h.turn (fun c hsending => by cases hsending) fun instant hwaiting => by cases hwaiting

theorem sound_start (address : String) : Sound address (start : State b Options cap) where
  tenancy := ⟨fun c i hplace => (by cases hplace), fun i _ => ⟨rfl, rfl⟩⟩
  log _ := rfl
  own c life hlife := by cases hlife
  driver c hdriver := by cases hdriver
  timer instant hdriver := by cases hdriver

end Runs

end Embedded

end RustStream
