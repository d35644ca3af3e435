import Mathlib.Tactic

/-!
# Writes into a buffer of fixed length

A buffer of which only an initial part is in use is moved about and written in place. Each operation
is undefined where its range is out of bounds; inside the bounds it keeps the length of the buffer, and
what matters of it is the part it leaves in front.

## Main definitions

* `Slice.copyWithin`: a range of the buffer copied to another place in it.
* `Slice.write`: a list written over the buffer from a place on.

## Main results

* `Slice.copyWithin_down`: a range moved down, to the end of what is kept in front of it.
* `Slice.write_at`: a list written behind what is kept.
-/

namespace Slice

open List

variable {α : Type*}

/-- The elements from `first` up to `last` copied to `dest`. -/
def copyWithin (xs : List α) (first last dest : ℕ) : Option (List α) :=
  if first ≤ last ∧ last ≤ xs.length ∧ dest + (last - first) ≤ xs.length then
    some (xs.take dest ++ ((xs.take last).drop first ++ xs.drop (dest + (last - first))))
  else none

/-- The list `ys` written from `start` on. -/
def write (xs : List α) (start : ℕ) (ys : List α) : Option (List α) :=
  if start + ys.length ≤ xs.length then
    some (xs.take start ++ (ys ++ xs.drop (start + ys.length)))
  else none

/-- A range moved down keeps the length, and stands behind what was in front of its new place. -/
theorem copyWithin_down (xs : List α) {first last dest : ℕ} (hdown : dest ≤ first)
    (hrange : first ≤ last) (hlast : last ≤ xs.length) :
    ∃ ys, copyWithin xs first last dest = some ys ∧ ys.length = xs.length ∧
      ys.take (dest + (last - first)) = xs.take dest ++ (xs.take last).drop first := by
  have hroom : dest + (last - first) ≤ xs.length := by omega
  have hmoved : ((xs.take last).drop first).length = last - first := by
    rw [length_drop, length_take]
    omega
  have hfront : (xs.take dest).length = dest := by
    rw [length_take]
    omega
  refine ⟨_, if_pos ⟨hrange, hlast, hroom⟩, ?_, ?_⟩
  · rw [length_append, length_append, hmoved, hfront, length_drop]
    omega
  · rw [← append_assoc]
    refine take_left' ?_
    rw [length_append, hmoved, hfront]

/-- A list written inside the bounds keeps the length, and stands behind what was in front of it. -/
theorem write_at (xs : List α) (start : ℕ) (ys : List α) (hroom : start + ys.length ≤ xs.length) :
    ∃ zs, write xs start ys = some zs ∧ zs.length = xs.length ∧
      zs.take (start + ys.length) = xs.take start ++ ys := by
  have hfront : (xs.take start).length = start := by
    rw [length_take]
    omega
  refine ⟨_, if_pos hroom, ?_, ?_⟩
  · rw [length_append, length_append, hfront, length_drop]
    omega
  · rw [← append_assoc]
    refine take_left' ?_
    rw [length_append, hfront]

/-- One element written into the slot behind what is kept. -/
theorem take_set {xs : List α} {n : ℕ} (h : n < xs.length) (x : α) :
    (xs.set n x).take (n + 1) = xs.take n ++ [x] := by
  rw [set_eq_take_append_cons_drop, if_pos h, append_cons]
  refine take_left' ?_
  rw [length_append, length_take, min_eq_left h.le]
  rfl

end Slice
