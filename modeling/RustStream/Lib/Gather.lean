import Mathlib.Data.List.InsertIdx
import Mathlib.Data.List.Perm.Subperm
import Mathlib.Tactic

/-!
# Gathering what indexed parties report

`n` parties report once each, in any order, and some of them report a value. Who collects the values
wants them in the order of the parties. There are two ways to it: put each value before the first one of
a later party, or collect in the order of arrival and sort at the end. Both give `inOrder`.

## Main definitions

* `Gather.inOrder`: the values in the order of the parties.
* `Gather.place`: where a value goes among those that arrived before it.
* `Gather.Issued`: a log that holds what each owner is due, once the owner is done.

## Main results

* `Gather.pairwise_insert`, `Gather.perm_insert`: placing keeps the order.
* `Gather.eq_inOrder`: once all have reported, an ordered collection is `inOrder`.
* `Gather.Issued.issue`: an owner that gets done has its due put in the log.
-/

namespace Gather

open List

variable {F : Type*} {fate : ℕ → Option F}

/-- What party `i` reports, with its index. -/
def tagged (fate : ℕ → Option F) (i : ℕ) : Option (ℕ × F) := (fate i).map (Prod.mk i)

/-- The values in the order of the parties. -/
def inOrder (fate : ℕ → Option F) (n : ℕ) : List (ℕ × F) := (List.range n).filterMap (tagged fate)

/-- The place of a value among the parties that arrived before: before the first later one. -/
def place (order : List ℕ) (i : ℕ) : ℕ := order.findIdx fun earlier => i < earlier

theorem tagged_eq_some {i : ℕ} {p : ℕ × F} (h : tagged fate i = some p) : p.1 = i := by
  obtain ⟨f, -, rfl⟩ := Option.map_eq_some_iff.mp h
  rfl

theorem map_fst_filterMap_tagged (reported : List ℕ) :
    (reported.filterMap (tagged fate)).map Prod.fst = reported.filter fun i => (fate i).isSome := by
  induction reported with
  | nil => rfl
  | cons i reported ih =>
    cases h : fate i with
    | none =>
      have htagged : tagged fate i = none := by rw [tagged, h, Option.map_none]
      rw [filterMap_cons_none htagged, ih, filter_cons_of_neg (by simp [h])]
    | some f =>
      have htagged : tagged fate i = some (i, f) := by rw [tagged, h, Option.map_some]
      rw [filterMap_cons_some htagged, map_cons, ih, filter_cons_of_pos (by simp [h])]

theorem pairwise_inOrder (n : ℕ) : (inOrder fate n).Pairwise fun p q => p.1 < q.1 := by
  refine List.Pairwise.filterMap (tagged fate) ?_ pairwise_lt_range
  intro i j hlt p hp q hq
  rw [tagged_eq_some hp, tagged_eq_some hq]
  exact hlt

variable {reported : List ℕ}

/-- Distinct parties below `n` are all of them as soon as they are `n`. -/
theorem perm_range {n : ℕ} (hnodup : reported.Nodup)
    (hlt : ∀ i ∈ reported, i < n) (hlength : reported.length = n) :
    reported.Perm (List.range n) := by
  have hsubset : reported ⊆ List.range n := fun i hi => mem_range.mpr (hlt i hi)
  refine (subperm_of_subset hnodup hsubset).perm_of_length_le ?_
  rw [length_range, hlength]

theorem length_lt_of_fresh {n : ℕ} (hnodup : reported.Nodup)
    (hlt : ∀ i ∈ reported, i < n) {i : ℕ} (hi : i < n) (hfresh : i ∉ reported) :
    reported.length < n := by
  have hcons : (i :: reported).Nodup := nodup_cons.mpr ⟨hfresh, hnodup⟩
  have hsubset : (i :: reported) ⊆ List.range n := by
    intro j hj
    rcases mem_cons.mp hj with rfl | hj
    · exact mem_range.mpr hi
    · exact mem_range.mpr (hlt j hj)
  have hle := (subperm_of_subset hcons hsubset).length_le
  rwa [length_cons, length_range] at hle

variable {held : List (ℕ × F)}

/-- A collection in the order of the parties is `inOrder` once all have reported. -/
theorem eq_inOrder {n : ℕ} (hnodup : reported.Nodup)
    (hlt : ∀ i ∈ reported, i < n) (hlength : reported.length = n)
    (hheld : held.Perm (reported.filterMap (tagged fate)))
    (hsorted : held.Pairwise fun p q => p.1 < q.1) : held = inOrder fate n := by
  refine List.Perm.eq_of_pairwise ?_ hsorted (pairwise_inOrder n) ?_
  · intro p q _ _ hpq hqp
    exact absurd (hpq.trans hqp) (lt_irrefl _)
  · exact hheld.trans ((perm_range hnodup hlt hlength).filterMap (tagged fate))

/-! ## Placing on arrival -/

theorem place_le (order : List ℕ) (i : ℕ) : place order i ≤ order.length := findIdx_le_length

theorem perm_insert (held : List (ℕ × F)) (i : ℕ) (f : F) :
    (held.insertIdx (place (held.map Prod.fst) i) (i, f)).Perm ((i, f) :: held) := by
  refine perm_insertIdx (i, f) held ?_
  have hle := place_le (held.map Prod.fst) i
  rwa [length_map] at hle

theorem pairwise_insert (hsorted : held.Pairwise fun p q => p.1 < q.1) {i : ℕ}
    (hfresh : i ∉ held.map Prod.fst) (f : F) :
    (held.insertIdx (place (held.map Prod.fst) i) (i, f)).Pairwise fun p q => p.1 < q.1 := by
  induction held with
  | nil => exact pairwise_singleton _ _
  | cons p held ih =>
    obtain ⟨hbefore, hrest⟩ := pairwise_cons.mp hsorted
    rw [map_cons, mem_cons, not_or] at hfresh
    rw [map_cons, place, findIdx_cons]
    by_cases hlt : i < p.1
    · -- The value goes first, before everything.
      rw [decide_eq_true hlt, cond_true, insertIdx_zero]
      refine pairwise_cons.mpr ⟨?_, hsorted⟩
      intro q hq
      rcases mem_cons.mp hq with rfl | hq
      · exact hlt
      · exact hlt.trans (hbefore q hq)
    · have hgt : p.1 < i := by
        have hne := hfresh.1
        omega
      rw [decide_eq_false hlt, cond_false, insertIdx_succ_cons]
      refine pairwise_cons.mpr ⟨?_, ih hrest hfresh.2⟩
      intro q hq
      rcases mem_cons.mp ((perm_insert held i f).mem_iff.mp hq) with rfl | hq
      · exact hgt
      · exact hbefore q hq

/-! ## Sorting at the end -/

theorem pairwise_sort (hnodup : (held.map Prod.fst).Nodup) :
    (held.mergeSort fun p q => p.1 ≤ q.1).Pairwise fun p q => p.1 < q.1 := by
  have hle : (held.mergeSort fun p q => p.1 ≤ q.1).Pairwise
      fun p q => decide (p.1 ≤ q.1) = true := by
    refine pairwise_mergeSort ?_ ?_ held
    · intro p q r hpq hqr
      exact decide_eq_true ((of_decide_eq_true hpq).trans (of_decide_eq_true hqr))
    · intro p q
      rw [Bool.or_eq_true, decide_eq_true_iff, decide_eq_true_iff]
      exact le_total p.1 q.1
  have hne : (held.mergeSort fun p q => p.1 ≤ q.1).Pairwise fun p q => p.1 ≠ q.1 := by
    have hkeys := ((mergeSort_perm held fun p q => p.1 ≤ q.1).map Prod.fst).nodup_iff.mpr hnodup
    exact pairwise_map.mp hkeys
  refine (hle.and hne).imp ?_
  rintro p q ⟨hpq, hdistinct⟩
  exact lt_of_le_of_ne (of_decide_eq_true hpq) hdistinct

/-! ## What is due, issued once -/

section Issued

variable {A O : Type*} [DecidableEq O] {key : A → O} {due : O → List A} {done done' : O → Prop}
  {log log' : List A}

/-- At most one entry is due to each owner, under the owner's name. -/
structure Due (key : A → O) (due : O → List A) : Prop where
  short : ∀ o, (due o).length ≤ 1
  own : ∀ o, ∀ a ∈ due o, key a = o

/-- The log holds what is due to the owners that are done, and nothing of the others. -/
structure Issued (key : A → O) (due : O → List A) (done : O → Prop) (log : List A) : Prop where
  eq_due : ∀ o, done o → log.filter (fun a => key a = o) = due o
  eq_nil : ∀ o, ¬ done o → log.filter (fun a => key a = o) = []

theorem issued_nil (h : ∀ o, ¬ done o) : Issued key due done [] :=
  ⟨fun o ho => absurd ho (h o), fun _ _ => rfl⟩

omit [DecidableEq O] in
theorem Due.eq_of_perm (hdue : Due key due) {o : O} {xs : List A} (h : xs.Perm (due o)) :
    xs = due o := by
  have hshort := hdue.short o
  rcases Nat.le_one_iff_eq_zero_or_eq_one.mp hshort with hnil | hone
  · rw [length_eq_zero_iff.mp hnil] at h ⊢
    exact perm_nil.mp h
  · obtain ⟨a, ha⟩ := length_eq_one_iff.mp hone
    rw [ha] at h ⊢
    exact perm_singleton.mp h

theorem Issued.of_iff (h : Issued key due done log) (hdone : ∀ o, done' o ↔ done o) :
    Issued key due done' log := by
  constructor
  · intro o ho
    exact h.eq_due o ((hdone o).mp ho)
  · intro o ho
    exact h.eq_nil o (mt (hdone o).mpr ho)

theorem Issued.of_perm (hdue : Due key due) (h : Issued key due done log) (hlog : log'.Perm log) :
    Issued key due done log' := by
  constructor
  · intro o ho
    have hperm := hlog.filter fun a => decide (key a = o)
    rw [h.eq_due o ho] at hperm
    exact hdue.eq_of_perm hperm
  · intro o ho
    have hperm := hlog.filter fun a => decide (key a = o)
    rw [h.eq_nil o ho] at hperm
    exact perm_nil.mp hperm

/-- An owner that gets done has its due put in the log. -/
theorem Issued.issue (hdue : Due key due) (h : Issued key due done log) {o : O} (ho : ¬ done o)
    (hdone : ∀ o', done' o' ↔ o' = o ∨ done o') (hlog : log'.Perm (log ++ due o)) :
    Issued key due done' log' := by
  have hown : (due o).filter (fun a => key a = o) = due o := by
    rw [filter_eq_self]
    exact fun a ha => decide_eq_true (hdue.own o a ha)
  have hother : ∀ o' ≠ o, (due o).filter (fun a => key a = o') = [] := by
    intro o' hne
    rw [filter_eq_nil_iff]
    intro a ha hkey
    exact hne ((of_decide_eq_true hkey).symm.trans (hdue.own o a ha))
  have hissued : Issued key due done' (log ++ due o) := by
    constructor
    · intro o' ho'
      rw [filter_append]
      by_cases hne : o' = o
      · subst hne
        rw [h.eq_nil o' ho, hown, nil_append]
      · rw [hother o' hne, append_nil]
        exact h.eq_due o' (((hdone o').mp ho').resolve_left hne)
    · intro o' ho'
      have hboth := mt (hdone o').mpr ho'
      rw [not_or] at hboth
      rw [filter_append, h.eq_nil o' hboth.2, hother o' hboth.1, append_nil]
  exact hissued.of_perm hdue hlog

end Issued

end Gather
