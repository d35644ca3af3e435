import Mathlib.Logic.Function.Basic
import Mathlib.Tactic

/-!
# Slots let to tenants

A fixed set of slots is let to tenants that come and go. Each slot remembers whom it was let to last; a
tenant knows the slot it is in. What a tenant relies on its slot for is a predicate of the tenant, what is
known of a slot nobody is in a predicate of its own. A tenant changes its own slot only, so the rest is
kept by `enter`, `stay` and `leave` once and for all.

## Main definitions

* `Tenancy`: every tenant finds its slot as it relies on it, every other slot is vacant.

## Main results

* `Tenancy.exclusive`: no two tenants are in one slot.
* `Tenancy.enter`, `Tenancy.stay`, `Tenancy.leave`: what a tenant may do.
-/

variable {C I R : Type*} [DecidableEq C] [DecidableEq I]

/-- Every tenant finds its slot as it relies on it, and every other slot is vacant. -/
structure Tenancy (owner : I → C) (place : C → Option I) (holds : C → R → Prop) (vacant : R → Prop)
    (records : I → R) : Prop where
  held : ∀ c i, place c = some i → owner i = c ∧ holds c (records i)
  free : ∀ i, place (owner i) ≠ some i → vacant (records i)

namespace Tenancy

open Function

variable {owner : I → C} {place place' : C → Option I} {holds holds' : C → R → Prop}
  {vacant : R → Prop} {records : I → R} {c : C} {i : I} {r : R}

section

variable (h : Tenancy owner place holds vacant records)
include h

omit [DecidableEq C] [DecidableEq I] in
/-- No two tenants are in one slot. -/
theorem exclusive {c c' : C} (hc : place c = some i) (hc' : place c' = some i) : c = c' :=
  (h.held c i hc).1.symm.trans (h.held c' i hc').1

/-- A new tenant moves into a slot nobody is in. -/
theorem enter (hfree : ∀ c', place c' ≠ some i)
    (hplace : place' c = some i) (hothers : ∀ c' ≠ c, place' c' = place c')
    (hkept : ∀ c' ≠ c, ∀ r, holds c' r → holds' c' r) (hr : holds' c r) (hnew : place c = none) :
    Tenancy (update owner i c) place' holds' vacant (update records i r) := by
  constructor
  · intro c' i' hc'
    by_cases hc : c' = c
    · subst hc
      rw [hplace] at hc'
      cases hc'
      rw [update_self, update_self]
      exact ⟨rfl, hr⟩
    · rw [hothers c' hc] at hc'
      have hi : i' ≠ i := by
        rintro rfl
        exact hfree c' hc'
      obtain ⟨howner, hheld⟩ := h.held c' i' hc'
      rw [update_of_ne hi, update_of_ne hi]
      exact ⟨howner, hkept c' hc _ hheld⟩
  · intro i' hunplaced
    by_cases hi : i' = i
    · subst hi
      rw [update_self] at hunplaced
      exact absurd hplace hunplaced
    · rw [update_of_ne hi] at hunplaced ⊢
      refine h.free i' ?_
      by_cases hc : owner i' = c
      · rw [hc, hnew]
        exact Option.some_ne_none i' |>.symm
      · rwa [← hothers _ hc]

omit [DecidableEq C] in
/-- A tenant changes its own slot. -/
theorem stay (hc : place c = some i)
    (hplace : ∀ c', place' c' = place c') (hkept : ∀ c' ≠ c, ∀ r, holds c' r → holds' c' r)
    (hr : holds' c r) : Tenancy owner place' holds' vacant (update records i r) := by
  constructor
  · intro c' i' hc'
    rw [hplace] at hc'
    obtain ⟨howner, hheld⟩ := h.held c' i' hc'
    by_cases hi : i' = i
    · subst hi
      have hself := h.exclusive hc' hc
      subst hself
      rw [update_self]
      exact ⟨howner, hr⟩
    · have hne : c' ≠ c := by
        rintro rfl
        exact hi (Option.some.inj (hc'.symm.trans hc))
      rw [update_of_ne hi]
      exact ⟨howner, hkept c' hne _ hheld⟩
  · intro i' hunplaced
    rw [hplace] at hunplaced
    have hi : i' ≠ i := by
      rintro rfl
      rw [(h.held c i' hc).1] at hunplaced
      exact hunplaced hc
    rw [update_of_ne hi]
    exact h.free i' hunplaced

omit [DecidableEq C] in
/-- A tenant leaves its slot vacant. -/
theorem leave (hc : place c = some i)
    (hplace : place' c = none) (hothers : ∀ c' ≠ c, place' c' = place c')
    (hkept : ∀ c' ≠ c, ∀ r, holds c' r → holds' c' r) (hr : vacant r) :
    Tenancy owner place' holds' vacant (update records i r) := by
  have howner := (h.held c i hc).1
  constructor
  · intro c' i' hc'
    have hne : c' ≠ c := by
      rintro rfl
      rw [hplace] at hc'
      cases hc'
    rw [hothers c' hne] at hc'
    have hi : i' ≠ i := by
      rintro rfl
      exact hne (h.exclusive hc' hc)
    obtain ⟨howner', hheld⟩ := h.held c' i' hc'
    rw [update_of_ne hi]
    exact ⟨howner', hkept c' hne _ hheld⟩
  · intro i' hunplaced
    by_cases hi : i' = i
    · subst hi
      rw [update_self]
      exact hr
    · rw [update_of_ne hi]
      refine h.free i' ?_
      by_cases hown : owner i' = c
      · rw [hown, hc]
        exact fun heq => hi (Option.some.inj heq).symm
      · rwa [← hothers _ hown]

end

end Tenancy
