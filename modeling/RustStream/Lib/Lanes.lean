import Mathlib.Data.List.Perm.Basic
import Mathlib.Tactic

/-!
# Items spread over lanes

A log says what was issued and which lane each item went to. Every lane takes its own items in the order they
were issued, and lanes know nothing of each other. `Queued` ties the log to what was taken and to what each
lane has yet to take; the rules below are the two ways a lane changes, and what follows once every lane
is empty: all that was issued was taken, and each item once.

## Main definitions

* `Lanes.lane`: what went to one lane.
* `Lanes.Queued`: each lane took its items in order and has the rest before it.

## Main results

* `Lanes.Queued.issue`, `Lanes.Queued.take`: the two ways a lane changes.
* `Lanes.Queued.perm`: with every lane empty, what was taken is what was issued.
* `Lanes.Queued.prefix_filter`: items that all go to one lane are taken in the order of the log.
-/

namespace Lanes

open List

variable {M L : Type*} [DecidableEq L]

/-- What went to one lane, in order. -/
def lane (l : L) (log : List (M × L)) : List M :=
  (log.filter fun entry => entry.2 = l).map Prod.fst

theorem lane_append (l : L) (log log' : List (M × L)) :
    lane l (log ++ log') = lane l log ++ lane l log' := by
  rw [lane, filter_append, map_append]
  rfl

theorem lane_snoc_self (l : L) (log : List (M × L)) (m : M) :
    lane l (log ++ [(m, l)]) = lane l log ++ [m] := by
  rw [lane_append]
  simp [lane]

theorem lane_snoc_of_ne {l l' : L} (h : l' ≠ l) (log : List (M × L)) (m : M) :
    lane l (log ++ [(m, l')]) = lane l log := by
  rw [lane_append]
  simp [lane, h]

theorem mem_lane {l : L} {log : List (M × L)} {m : M} : m ∈ lane l log ↔ (m, l) ∈ log := by
  unfold lane
  constructor
  · intro hmem
    obtain ⟨⟨m', l'⟩, hentry, rfl⟩ := mem_map.mp hmem
    obtain ⟨hlog, hlane⟩ := mem_filter.mp hentry
    exact of_decide_eq_true hlane ▸ hlog
  · intro hmem
    exact mem_map.mpr ⟨(m, l), mem_filter.mpr ⟨hmem, decide_eq_true rfl⟩, rfl⟩

/-- Items that all go to one lane are found there, in the order of the log. -/
theorem filter_lane {l : L} {log : List (M × L)} (p : M → Bool)
    (h : ∀ entry ∈ log, p entry.1 = true → entry.2 = l) :
    (lane l log).filter p = (log.map Prod.fst).filter p := by
  rw [lane, filter_map, filter_map, filter_filter]
  congr 1
  refine filter_congr fun entry hentry => ?_
  by_cases hp : p entry.1 = true
  · simp [hp, h entry hentry hp]
  · simp [hp]

/-- A log is determined by its lanes, up to the order between lanes. -/
theorem perm_of_lane_eq {log log' : List (M × L)} (h : ∀ l, lane l log = lane l log') :
    log.Perm log' := by
  classical
  have hcount : ∀ (log : List (M × L)) (m : M) (l : L), log.count (m, l) = (lane l log).count m := by
    intro log m l
    induction log with
    | nil => rfl
    | cons entry log ih =>
      rw [count_cons, ih, lane, lane]
      by_cases hlane : entry.2 = l
      · simp [count_cons, Prod.ext_iff, hlane]
      · simp [Prod.ext_iff, hlane]
  rw [perm_iff_count]
  rintro ⟨m, l⟩
  rw [hcount, hcount, h l]

/-- Each lane took its items in order, and has the rest of them before it. -/
structure Queued (queue : L → List M) (taken log : List (M × L)) : Prop where
  split : ∀ l, lane l taken ++ queue l = lane l log

namespace Queued

variable {queue queue' : L → List M} {taken log : List (M × L)} {l : L} {m : M}

section

variable (h : Queued queue taken log)
include h

theorem congr (heq : ∀ l, queue' l = queue l) : Queued queue' taken log :=
  ⟨fun l => by rw [heq l, h.split l]⟩

/-- An item is issued to a lane. -/
theorem issue (hself : queue' l = queue l ++ [m])
    (hothers : ∀ l' ≠ l, queue' l' = queue l') : Queued queue' taken (log ++ [(m, l)]) := by
  constructor
  intro l'
  by_cases hne : l' = l
  · subst hne
    rw [lane_snoc_self, hself, ← append_assoc, h.split l']
  · rw [lane_snoc_of_ne (Ne.symm hne), hothers l' hne, h.split l']

/-- A lane takes its next item. -/
theorem take (hself : queue l = m :: queue' l)
    (hothers : ∀ l' ≠ l, queue' l' = queue l') : Queued queue' (taken ++ [(m, l)]) log := by
  constructor
  intro l'
  by_cases hne : l' = l
  · subst hne
    rw [lane_snoc_self, append_assoc, singleton_append, ← hself, h.split l']
  · rw [lane_snoc_of_ne (Ne.symm hne), hothers l' hne, h.split l']

/-- Nothing is taken that was not issued to the lane. -/
theorem subset : taken ⊆ log := by
  rintro ⟨m, l⟩ hmem
  have hlane : m ∈ lane l log := by
    rw [← h.split l]
    exact mem_append_left _ (mem_lane.mpr hmem)
  exact mem_lane.mp hlane

/-- With every lane empty, what was taken is what was issued. -/
theorem perm (hempty : ∀ l, queue l = []) : taken.Perm log := by
  refine perm_of_lane_eq fun l => ?_
  rw [← h.split l, hempty l, append_nil]

/-- Items that all go to one lane are taken in the order of the log. -/
theorem prefix_filter (p : M → Bool) (hroute : ∀ entry ∈ log, p entry.1 = true → entry.2 = l) :
    (taken.map Prod.fst).filter p <+: (log.map Prod.fst).filter p := by
  rw [← filter_lane p hroute, ← filter_lane p fun entry hentry => hroute entry (h.subset hentry),
    ← h.split l, filter_append]
  exact prefix_append _ _

end

end Queued

end Lanes
