import Mathlib.Tactic

/-!
# Selecting a greatest element

`Select.maxBy` is the element of a list whose key is greatest by a comparison, the last one where
several are greatest. It rests on nothing but the comparison being a transitive one.

## Main definitions

* `Select.maxBy`: the greatest element.

## Main results

* `Select.maxBy_mem`, `Select.isLE_maxBy`: the selection is in the list, and nothing beats it.
* `Select.maxBy_eq_none_iff`: only the empty list has none.
* `Select.filter_drop_findIdx`: nothing before the first match is lost by skipping it.
-/

namespace Select

open List

variable {α β : Type*}

/-- Keeps the element with the greater key, the new one where they are alike. -/
def better (cmp : β → β → Ordering) (key : α → β) (best x : α) : α :=
  if cmp (key best) (key x) = .gt then best else x

/-- The element with the greatest key; of several greatest ones the last. -/
def maxBy (cmp : β → β → Ordering) (key : α → β) : List α → Option α
  | [] => none
  | x :: l => some (l.foldl (better cmp key) x)

section

variable {cmp : β → β → Ordering} {key : α → β} {l : List α} {x y m : α}

theorem maxBy_eq_none_iff : maxBy cmp key l = none ↔ l = [] := by
  cases l with
  | nil => exact ⟨fun _ => rfl, fun _ => rfl⟩
  | cons x l => simp [maxBy]

theorem better_eq (cmp : β → β → Ordering) (key : α → β) (best x : α) :
    better cmp key best x = best ∨ better cmp key best x = x := by
  unfold better
  split_ifs
  · exact Or.inl rfl
  · exact Or.inr rfl

theorem foldl_better_mem (x : α) (l : List α) : l.foldl (better cmp key) x ∈ x :: l := by
  induction l generalizing x with
  | nil => exact mem_singleton_self x
  | cons y l ih =>
    rw [foldl_cons]
    rcases mem_cons.mp (ih (better cmp key x y)) with h | h
    · rw [h]
      rcases better_eq cmp key x y with h | h
      · rw [h]
        exact mem_cons_self
      · rw [h]
        exact mem_cons_of_mem _ mem_cons_self
    · exact mem_cons_of_mem _ (mem_cons_of_mem _ h)

theorem maxBy_mem (h : maxBy cmp key l = some m) : m ∈ l := by
  cases l with
  | nil => cases h
  | cons x l =>
    cases h
    exact foldl_better_mem x l

theorem isLE_better [Std.TransCmp cmp] (key : α → β) (best x : α) :
    (cmp (key best) (key (better cmp key best x))).isLE = true ∧
      (cmp (key x) (key (better cmp key best x))).isLE = true := by
  unfold better
  split_ifs with hgt
  · refine ⟨Std.ReflCmp.isLE_rfl, ?_⟩
    rw [Std.OrientedCmp.lt_of_gt hgt]
    rfl
  · exact ⟨Ordering.ne_gt_iff_isLE.mp hgt, Std.ReflCmp.isLE_rfl⟩

variable [Std.TransCmp cmp]

theorem isLE_foldl_better (x : α) (l : List α) (hy : y ∈ x :: l) :
    (cmp (key y) (key (l.foldl (better cmp key) x))).isLE = true := by
  induction l generalizing x y with
  | nil =>
    rw [mem_singleton.mp hy]
    exact Std.ReflCmp.isLE_rfl
  | cons z l ih =>
    rw [foldl_cons]
    obtain ⟨hbest, hnew⟩ := @isLE_better _ _ cmp _ key x z
    have hhead := ih (better cmp key x z) mem_cons_self
    rcases mem_cons.mp hy with rfl | hy
    · exact Std.TransCmp.isLE_trans hbest hhead
    · rcases mem_cons.mp hy with rfl | hy
      · exact Std.TransCmp.isLE_trans hnew hhead
      · exact ih _ (mem_cons_of_mem _ hy)

/-- Nothing in the list beats the selection. -/
theorem isLE_maxBy (h : maxBy cmp key l = some m) (hy : y ∈ l) :
    (cmp (key y) (key m)).isLE = true := by
  cases l with
  | nil => cases h
  | cons x l =>
    cases h
    exact isLE_foldl_better x l hy

end

/-- What comes before the first match holds no match. -/
theorem filter_drop_findIdx (p : α → Bool) (l : List α) :
    (l.drop (l.findIdx p)).filter p = l.filter p := by
  induction l with
  | nil => rfl
  | cons x l ih =>
    rw [findIdx_cons]
    by_cases hx : p x = true
    · rw [hx]
      rfl
    · rw [Bool.of_not_eq_true hx, filter_cons_of_neg hx]
      exact ih

end Select
