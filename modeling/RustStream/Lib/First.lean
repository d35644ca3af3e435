import Mathlib.Tactic

/-!
# The first that has something to say

`List.findSome?` gives what the first element of a list that answers has answered. It is the same for every order of
the list exactly when all that answer give the same answer: otherwise two orders, each with one of two that differ in
front, tell them apart.

## Main results

* `First.findSome?_eq_of_agree`: where all agree, any of them says what the first says.
* `First.perm_iff`: when the order does not matter.
* `First.findSome?_flatMap`: a list of lists is asked one list after the other.
-/

namespace First

open List

variable {α β γ : Type*} {f : α → Option β} {l : List α}

/-- All that answer give the same answer. -/
def Agree (f : α → Option β) (l : List α) : Prop :=
  ∀ a ∈ l, ∀ b ∈ l, ∀ x y, f a = some x → f b = some y → x = y

theorem findSome?_eq_of_agree (hagree : Agree f l) {a : α} (ha : a ∈ l) {x : β} (hx : f a = some x) :
    l.findSome? f = some x := by
  obtain ⟨y, hy⟩ : ∃ y, l.findSome? f = some y := by
    rw [← Option.isSome_iff_exists, findSome?_isSome_iff]
    exact ⟨a, ha, by rw [hx]; rfl⟩
  obtain ⟨b, hb, hfb⟩ := exists_of_findSome?_eq_some hy
  rw [hy, hagree b hb a ha y x hfb hx]

/-- Asking another list in which the same elements occur. -/
theorem findSome?_eq_of_mem_iff (hagree : Agree f l) {l' : List α} (hmem : ∀ a, a ∈ l' ↔ a ∈ l) :
    l'.findSome? f = l.findSome? f := by
  have hagree' : Agree f l' := fun a ha b hb => hagree a ((hmem a).mp ha) b ((hmem b).mp hb)
  cases hfirst : l.findSome? f with
  | none =>
    rw [findSome?_eq_none_iff] at hfirst ⊢
    exact fun a ha => hfirst a ((hmem a).mp ha)
  | some x =>
    obtain ⟨a, ha, hx⟩ := exists_of_findSome?_eq_some hfirst
    exact findSome?_eq_of_agree hagree' ((hmem a).mpr ha) hx

/-- **The order does not matter exactly when all that answer agree.** -/
theorem perm_iff : (∀ l' : List α, l.Perm l' → l'.findSome? f = l.findSome? f) ↔ Agree f l := by
  constructor
  · intro h a ha b hb x y hx hy
    have hfront (c : α) (hc : c ∈ l) (z : β) (hz : f c = some z) : l.findSome? f = some z := by
      obtain ⟨before, after, rfl⟩ := append_of_mem hc
      rw [← h (c :: (before ++ after)) perm_middle, findSome?_cons, hz]
    exact Option.some.inj ((hfront a ha x hx).symm.trans (hfront b hb y hy))
  · exact fun hagree l' hperm => findSome?_eq_of_mem_iff hagree fun a => hperm.symm.mem_iff

theorem findSome?_flatMap (f : β → Option γ) (g : α → List β) (l : List α) :
    (l.flatMap g).findSome? f = l.findSome? fun a => (g a).findSome? f := by
  induction l with
  | nil => rfl
  | cons a l ih =>
    rw [flatMap_cons, findSome?_append, ih, findSome?_cons]
    cases (g a).findSome? f <;> rfl

end First
