import Mathlib.Tactic

/-!
# Places in a bounded queue

A queue has room for `cap` items, and an item that is handed out keeps its place until its reader is
done with it, so that giving it back always finds room. A writer reserves a place before it fills
it. A reader is done in two steps: it settles the item, and later it leaves the place.

`Account` says where every item is that the queue has accepted, and `Account.Move` what can happen to
them. The room a queue has is counted by what waits and by the places readers hold, so an item that
was given back is counted twice until its reader leaves; the bound is on the distinct items.

## Main definitions

* `Places.Account`: the items a queue has accepted.
* `Places.Account.Move`: one move of an item or of a reader.
* `Places.Account.Kept`: within the capacity, and no item lost or doubled.

## Main results

* `Places.Account.Kept.move`: every move keeps it.
* `Places.Account.Kept.room_to_fill`, `Places.Account.Kept.room_to_give_back`: what a writer has
  reserved and what a reader gives back finds room.
-/

namespace Places

open List

variable {κ : Type*}

/-- Where the items are that a queue has accepted. -/
structure Account (κ : Type*) where
  waiting : List κ
  inHand : List κ
  done : List κ
  released : List κ
  accepted : List κ
  -- the readers that are done with their item and have yet to leave its place
  idle : ℕ
  -- the places a writer has found free and not filled yet
  reserved : ℕ

namespace Account

/-- An account of nothing. -/
def empty : Account κ := ⟨[], [], [], [], [], 0, 0⟩

/-- The places readers hold. -/
def held (a : Account κ) : ℕ :=
  a.inHand.length + a.idle

/-- One move on a queue of `cap` places. -/
inductive Move (cap : ℕ) (a : Account κ) : Account κ → Prop
  | reserve (hnone : a.reserved = 0) (hroom : a.waiting.length + a.held < cap) :
    Move cap a { a with reserved := 1 }
  | unreserve : Move cap a { a with reserved := 0 }
  | fill (x : κ) (hreserved : a.reserved = 1) (hnew : x ∉ a.accepted) :
    Move cap a { a with
      waiting := a.waiting ++ [x], accepted := a.accepted ++ [x], reserved := 0 }
  | take (x : κ) (rest : List κ) (hwaiting : a.waiting = x :: rest) :
    Move cap a { a with waiting := rest, inHand := a.inHand ++ [x] }
  | giveBack (x : κ) (others : List κ) (hhand : a.inHand.Perm (x :: others)) :
    Move cap a { a with waiting := a.waiting ++ [x], inHand := others, idle := a.idle + 1 }
  | settle (x : κ) (others : List κ) (hhand : a.inHand.Perm (x :: others)) :
    Move cap a { a with inHand := others, done := a.done ++ [x], idle := a.idle + 1 }
  | lose (x : κ) (others : List κ) (hhand : a.inHand.Perm (x :: others)) :
    Move cap a { a with inHand := others, released := a.released ++ [x], idle := a.idle + 1 }
  | leave : Move cap a { a with idle := a.idle - 1 }
  | drain : Move cap a { a with waiting := [], released := a.released ++ a.waiting }

/-- The queue is within its capacity, and every item it has accepted is in one place. -/
structure Kept (cap : ℕ) (a : Account κ) : Prop where
  within : a.waiting.length + a.inHand.length + a.reserved ≤ cap
  perm : a.accepted.Perm (a.waiting ++ a.inHand ++ a.done ++ a.released)
  nodup : a.accepted.Nodup

variable {cap : ℕ} {a a' : Account κ} {x : κ} {others : List κ}

theorem kept_empty (cap : ℕ) : (empty : Account κ).Kept cap :=
  ⟨Nat.zero_le cap, List.Perm.refl [], nodup_nil⟩

/-- A place that was reserved is there to be filled. -/
theorem Kept.room_to_fill (h : a.Kept cap) (hreserved : a.reserved = 1) :
    a.waiting.length < cap := by
  have hwithin := h.within
  omega

/-- An item in hand finds its place when it is given back. -/
theorem Kept.room_to_give_back (h : a.Kept cap) (hhand : a.inHand.Perm (x :: others)) :
    a.waiting.length < cap := by
  have hwithin := h.within
  have hlength := hhand.length_eq
  rw [length_cons] at hlength
  omega

/-- **Every move keeps the account.** -/
theorem Kept.move (h : a.Kept cap) (hmove : Move cap a a') : a'.Kept cap := by
  classical
  obtain ⟨hwithin, hperm, hnodup⟩ := h
  have hcount := perm_iff_count.mp hperm
  simp only [count_append] at hcount
  cases hmove with
  | reserve hnone hroom =>
    unfold held at hroom
    exact ⟨by dsimp only; omega, hperm, hnodup⟩
  | unreserve => exact ⟨by dsimp only; omega, hperm, hnodup⟩
  | fill x hreserved hnew =>
    refine ⟨?_, ?_, ?_⟩
    · simp only [length_append, length_singleton]
      omega
    · refine perm_iff_count.mpr fun y => ?_
      have hy := hcount y
      simp only [count_append]
      omega
    · exact nodup_append.mpr ⟨hnodup, nodup_singleton x, fun y hy z hz heq =>
        hnew (by rwa [← mem_singleton.mp hz, ← heq])⟩
  | take x rest hwaiting =>
    rw [hwaiting, length_cons] at hwithin
    refine ⟨?_, ?_, hnodup⟩
    · simp only [length_append, length_singleton]
      omega
    · refine perm_iff_count.mpr fun y => ?_
      have hy := hcount y
      rw [hwaiting, count_cons] at hy
      simp only [count_append, count_singleton]
      omega
  | giveBack x others hhand =>
    have hlength := hhand.length_eq
    rw [length_cons] at hlength
    refine ⟨?_, ?_, hnodup⟩
    · simp only [length_append, length_singleton]
      omega
    · refine perm_iff_count.mpr fun y => ?_
      have hy := hcount y
      rw [hhand.count_eq, count_cons] at hy
      simp only [count_append, count_singleton]
      omega
  | settle x others hhand | lose x others hhand =>
    have hlength := hhand.length_eq
    rw [length_cons] at hlength
    refine ⟨by dsimp only; omega, ?_, hnodup⟩
    refine perm_iff_count.mpr fun y => ?_
    have hy := hcount y
    rw [hhand.count_eq, count_cons] at hy
    simp only [count_append, count_singleton]
    omega
  | leave => exact ⟨hwithin, hperm, hnodup⟩
  | drain =>
    refine ⟨?_, ?_, hnodup⟩
    · simp only [length_nil]
      omega
    · refine perm_iff_count.mpr fun y => ?_
      have hy := hcount y
      simp only [count_append, count_nil]
      omega

end Account

end Places
