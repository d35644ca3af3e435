import Mathlib.Tactic

/-!
# Cutting a list at a mark

Some elements of a list begin a unit of it, the others continue one. A cut falls on a boundary: before the
first element, before an element that begins a unit, or behind the last one. The longest part of the list within some
room that ends on a boundary is found from the room downwards.

Lists that begin with a unit are cut one after the other: a list that fits is kept whole, and what follows
it is cut to the room it leaves.

## Main definitions

* `Cut.isBoundary`: whether a cut may fall at an index.
* `Cut.cut`: the longest part within the room that ends on a boundary.

## Main results

* `Cut.cut_append`: the cut of an append.
-/

namespace Cut

open List

variable {α : Type*} (begins : α → Bool)

/-- Whether a cut may fall before the element at the index. -/
def isBoundary (l : List α) (index : ℕ) : Bool :=
  index = 0 ||
    match l[index]? with
    | some a => begins a
    | none => index = l.length

/-- The last boundary at or before the index. -/
def floor (l : List α) : ℕ → ℕ
  | 0 => 0
  | n + 1 => if isBoundary begins l (n + 1) then n + 1 else floor l n

/-- The longest part of the list within the room that ends on a boundary. -/
def cut (room : ℕ) (l : List α) : List α :=
  l.take (floor begins l (min l.length room))

/-- The list is empty or begins with the beginning of a unit. -/
def Starts (l : List α) : Prop :=
  ∀ a ∈ l.head?, begins a = true

variable {begins} {l l' : List α} {room n : ℕ}

theorem floor_le (l : List α) (n : ℕ) : floor begins l n ≤ n := by
  induction n with
  | zero => exact le_rfl
  | succ n ih =>
    rw [floor]
    split_ifs
    · exact le_rfl
    · exact ih.trans (Nat.le_succ n)

theorem isBoundary_floor (l : List α) (n : ℕ) : isBoundary begins l (floor begins l n) = true := by
  induction n with
  | zero => rfl
  | succ n ih =>
    rw [floor]
    split_ifs with h
    · exact h
    · exact ih

theorem le_floor {k : ℕ} (hk : isBoundary begins l k = true) (hle : k ≤ n) : k ≤ floor begins l n := by
  induction n with
  | zero => exact hle
  | succ n ih =>
    rw [floor]
    split_ifs with h
    · exact hle
    · rcases Nat.lt_or_eq_of_le hle with hlt | rfl
      · exact ih (Nat.le_of_lt_succ hlt)
      · exact absurd hk h

/-- A boundary that nothing up to the index lies beyond is the floor. -/
theorem floor_eq {k : ℕ} (hk : isBoundary begins l k = true) (hle : k ≤ n)
    (hlast : ∀ j, isBoundary begins l j = true → j ≤ n → j ≤ k) : floor begins l n = k :=
  le_antisymm (hlast _ (isBoundary_floor l n) (floor_le l n)) (le_floor hk hle)

theorem isBoundary_length (l : List α) : isBoundary begins l l.length = true := by
  simp [isBoundary]

theorem length_cut (room : ℕ) (l : List α) :
    (cut begins room l).length = floor begins l (min l.length room) := by
  have h := @floor_le _ begins l (min l.length room)
  rw [cut, length_take]
  omega

theorem length_cut_le (room : ℕ) (l : List α) : (cut begins room l).length ≤ room := by
  rw [length_cut]
  exact (floor_le l _).trans (Nat.min_le_right _ _)

/-- A list that fits is kept whole. -/
theorem cut_of_le (h : l.length ≤ room) : cut begins room l = l := by
  rw [cut, min_eq_left h, floor_eq (isBoundary_length l) le_rfl fun _ _ hle => hle, take_length]

/-! ## Appends -/

/-- Inside the second of two lists the boundaries are its own. -/
theorem isBoundary_append (hstarts : Starts begins l') (k : ℕ) :
    isBoundary begins (l ++ l') (l.length + k) = true ↔ isBoundary begins l' k = true := by
  cases k with
  | zero =>
    refine ⟨fun _ => rfl, fun _ => ?_⟩
    cases l' with
    | nil =>
      rw [append_nil]
      exact isBoundary_length l
    | cons a as =>
      have ha : begins a = true := hstarts a rfl
      simp [isBoundary, ha]
  | succ k =>
    have hget : (l ++ l')[l.length + (k + 1)]? = l'[k + 1]? := by
      rw [getElem?_append_right (Nat.le_add_right _ _), Nat.add_sub_cancel_left]
    simp only [isBoundary, hget]
    cases l'[k + 1]? with
    | some a => simp
    | none => simp

/-- Before the second of two lists they are those of the first. -/
theorem isBoundary_append_left {k : ℕ} (hk : k < l.length) :
    isBoundary begins (l ++ l') k = isBoundary begins l k := by
  simp only [isBoundary, getElem?_append_left hk]
  simp [getElem?_eq_getElem hk]

theorem cut_append_of_lt (h : room < l.length) : cut begins room (l ++ l') = cut begins room l := by
  have hroom : min (l ++ l').length room = room := by
    rw [length_append]
    omega
  have hroom' : min l.length room = room := by omega
  have hfloor : floor begins (l ++ l') room = floor begins l room := by
    refine floor_eq ?_ (floor_le l room) fun j hj hle => ?_
    · rw [isBoundary_append_left ((floor_le l room).trans_lt h)]
      exact isBoundary_floor l room
    · rw [isBoundary_append_left (hle.trans_lt h)] at hj
      exact le_floor hj hle
  have hshort := (@floor_le _ begins l room).trans h.le
  rw [cut, cut, hroom, hroom', hfloor, take_append_of_le_length hshort]

/-- **The cut of an append.** A first list that fits is kept whole, and the second is cut to the room that is left. -/
theorem cut_append (hstarts : Starts begins l') (h : l.length ≤ room) :
    cut begins room (l ++ l') = l ++ cut begins (room - l.length) l' := by
  have hmin : min (l ++ l').length room = l.length + min l'.length (room - l.length) := by
    rw [length_append]
    omega
  have hfloor : floor begins (l ++ l') (min (l ++ l').length room) =
      l.length + floor begins l' (min l'.length (room - l.length)) := by
    rw [hmin]
    refine floor_eq ?_ ?_ fun j hj hle => ?_
    · exact (isBoundary_append hstarts _).mpr (isBoundary_floor l' _)
    · exact Nat.add_le_add_left (floor_le l' _) _
    · rcases Nat.lt_or_ge j l.length with hlt | hge
      · omega
      · obtain ⟨k, rfl⟩ := Nat.exists_eq_add_of_le hge
        have hk := le_floor ((isBoundary_append hstarts k).mp hj) (Nat.le_of_add_le_add_left hle)
        omega
  rw [cut, cut, hfloor, take_append, take_of_length_le (Nat.le_add_right _ _),
    Nat.add_sub_cancel_left]

end Cut
