import Mathlib.Data.List.Pairwise
import Mathlib.Data.List.Sort
import Mathlib.Data.List.Perm.Subperm

/-!
# Two orders of the same things

Things happened in some order, and were written down in some order; a relation says of each two which orders are
possible. Both lists respect it, and neither is known from the other. What can be said all the same: two things that
cannot be in either order are in the same order in both lists, so a part without such pairs is the same list in both;
and a thing that is early in one list and late in the other can be in either order with one that is late in the first.

## Main results

* `Reorder.eq_of_uncrossed`: two lists of the same things, no two of which may change places, are the same.
* `Reorder.drop_subperm`: what is left of one list after its first part is dropped is, in the other list, among what
  is left and the dropped things that may change places with something that is.
* `Reorder.getElem?_filter_countP`: a thing is among those of its kind at the place of its rank.
-/

namespace Reorder

open List

variable {α : Type*} {R : α → α → Prop}

theorem eq_of_uncrossed {list list' : List α} (hperm : list.Perm list') (hlist : list.Pairwise R)
    (hlist' : list'.Pairwise R) (huncrossed : list'.Pairwise fun a b => ¬ (R a b ∧ R b a)) : list = list' := by
  refine hperm.eq_of_pairwise (fun a b ha hb hab hba => ?_) hlist hlist'
  by_contra hne
  have : Std.Symm fun a b => ¬ (R a b ∧ R b a) := ⟨fun a b h hab => h hab.symm⟩
  exact huncrossed.forall (hperm.mem_iff.mp ha) hb hne ⟨hab, hba⟩

/-- A list that has more of one thing than another of its length has less of some thing. -/
theorem exists_count_lt [DecidableEq α] {list list' : List α} (hlength : list.length = list'.length) {a : α}
    (h : list.count a < list'.count a) : ∃ b, list'.count b < list.count b := by
  by_contra hnone
  have hsub : list.Subperm list' :=
    subperm_ext_iff.mpr fun b _ => Nat.not_lt.mp fun hlt => hnone ⟨b, hlt⟩
  have hperm := hsub.perm_of_length_le hlength.ge
  exact h.ne (hperm.count_eq a)

theorem drop_subperm {happened early late : List α} {cross : α → α → Bool}
    (hcross : ∀ a b, R a b → R b a → cross a b = true) (hperm : happened.Perm (early ++ late))
    (hhappened : happened.Pairwise R) (hwritten : (early ++ late).Pairwise R) :
    (happened.drop early.length).Subperm (early.filter (fun a => late.any (cross a)) ++ late) := by
  classical
  refine subperm_ext_iff.mpr fun a hmem => ?_
  have hcount (b : α) : (happened.take early.length).count b + (happened.drop early.length).count b
      = early.count b + late.count b := by
    rw [← count_append, take_append_drop, hperm.count_eq, count_append]
  rw [count_append]
  by_cases hany : late.any (cross a) = true
  · -- all of it is kept
    have hkept : (early.filter fun a => late.any (cross a)).count a = early.count a := count_filter hany
    rw [hkept]
    have := hcount a
    omega
  · -- or none of it has to be: else something late went before it
    by_contra hlt
    have hmore : (happened.take early.length).count a < early.count a := by
      have := hcount a
      omega
    have hlength : (happened.take early.length).length = early.length := by
      have := hperm.length_eq
      rw [length_append] at this
      rw [length_take]
      omega
    obtain ⟨b, hb⟩ := exists_count_lt hlength hmore
    have hlate : b ∈ late := count_pos_iff.mp (by have := hcount b; omega)
    have hfirst : b ∈ happened.take early.length := count_pos_iff.mp (by omega)
    have hearly : a ∈ early := count_pos_iff.mp (by omega)
    rw [← take_append_drop early.length happened] at hhappened
    have hba : R b a := (pairwise_append.mp hhappened).2.2 b hfirst a hmem
    have hab : R a b := (pairwise_append.mp hwritten).2.2 a hearly b hlate
    exact hany (any_eq_true.mpr ⟨b, hlate, hcross a b hab hba⟩)

theorem getElem?_filter_countP {list : List α} {p : α → Bool} {i : ℕ} {a : α} (h : list[i]? = some a) (ha : p a = true) :
    (list.filter p)[(list.take i).countP p]? = some a := by
  obtain ⟨hi, hget⟩ := List.getElem?_eq_some_iff.mp h
  have hsplit : list = list.take i ++ a :: list.drop (i + 1) := by
    rw [← hget, getElem_cons_drop, take_append_drop]
  have hfilter : list.filter p = (list.take i).filter p ++ a :: (list.drop (i + 1)).filter p := by
    conv_lhs => rw [hsplit]
    rw [filter_append, filter_cons_of_pos ha]
  rw [hfilter, countP_eq_length_filter, getElem?_append_right le_rfl, Nat.sub_self]
  rfl

end Reorder
