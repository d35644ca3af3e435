import Mathlib.Tactic

/-!
# Windows over a growing history

A window keeps the newest entries of a history that only grows. Each entry is appended to it, and
the oldest ones are dropped until a bound admits what is left; the newest entry always stays. The
window is trimmed from itself, never from the whole history, so what it holds could depend on what
was dropped along the way. It does not: a bound that admits every part of what it admits loses
nothing that a later trim would have kept.

## Main definitions

* `Window.trim`: drops from the front until the bound admits the rest.
* `Window.Keeps`: the window of a history, stated without the way it came about.
* `Window.number`: the entries with their positions.

## Main results

* `Window.Keeps.push`: appending and trimming keeps the window of the longer history.
* `Window.Keeps.longest`, `Window.Keeps.newest`: what the window is.
-/

namespace Window

open List

variable {α : Type*}

/-- Drops the oldest entries until the bound admits the rest or one entry is left. -/
def trim (ok : List α → Bool) : List α → List α
  | [] => []
  | x :: l => if l ≠ [] ∧ ok (x :: l) = false then trim ok l else x :: l

/-- What a window of the history is: its newest entries, at least one if there is any, admitted
unless there is only one, and with every admitted end of the history in it. -/
structure Keeps (ok : List α → Bool) (history window : List α) : Prop where
  suffix : window <:+ history
  nonempty : history ≠ [] → window ≠ []
  admitted : ok window = true ∨ window.length ≤ 1
  within : ∀ s, s <:+ history → ok s = true → s <:+ window

variable {ok : List α → Bool} {history window l : List α} {x : α}

theorem trim_suffix (l : List α) : trim ok l <:+ l := by
  induction l with
  | nil => exact suffix_refl _
  | cons x l ih =>
    rw [trim]
    split_ifs
    · exact ih.trans (suffix_cons x l)
    · exact suffix_refl _

theorem trim_ne_nil (h : l ≠ []) : trim ok l ≠ [] := by
  induction l with
  | nil => exact absurd rfl h
  | cons x l ih =>
    rw [trim]
    split_ifs with hdrop
    · exact ih hdrop.1
    · exact cons_ne_nil x l

theorem ok_trim_or_length_le (l : List α) : ok (trim ok l) = true ∨ (trim ok l).length ≤ 1 := by
  induction l with
  | nil => exact Or.inr (Nat.zero_le 1)
  | cons x l ih =>
    rw [trim]
    split_ifs with hdrop
    · exact ih
    · by_cases hl : l = []
      · subst hl
        exact Or.inr le_rfl
      · refine Or.inl (Bool.of_not_eq_false fun hrefused => hdrop ⟨hl, hrefused⟩)

/-- What the bound admits is never dropped. -/
theorem suffix_trim {s : List α} (hs : s <:+ l) (hok : ok s = true) : s <:+ trim ok l := by
  induction l with
  | nil => exact hs
  | cons x l ih =>
    rw [trim]
    split_ifs with hdrop
    · rcases suffix_cons_iff.mp hs with rfl | hs
      · rw [hok] at hdrop
        cases hdrop.2
      · exact ih hs
    · exact hs

theorem keeps_nil (ok : List α → Bool) : Keeps ok [] [] :=
  ⟨suffix_refl _, id, Or.inr (Nat.zero_le 1), fun _ hs _ => hs⟩

/-- **A window is path independent.** Where the bound admits every part of what it admits, trimming
the window with a new entry gives the window of the history with it. -/
theorem Keeps.push (hclosed : ∀ l l' : List α, l'.Sublist l → ok l = true → ok l' = true)
    (h : Keeps ok history window) (x : α) :
    Keeps ok (history ++ [x]) (trim ok (window ++ [x])) where
  suffix := by
    obtain ⟨dropped, hsplit⟩ := h.suffix
    refine (trim_suffix _).trans ⟨dropped, ?_⟩
    rw [← append_assoc, hsplit]
  nonempty _ := trim_ne_nil (by simp)
  admitted := ok_trim_or_length_le _
  within s hs hok := by
    refine suffix_trim ?_ hok
    -- an admitted end of the longer history is one of the shorter, which is in the window
    rcases eq_nil_or_concat s with rfl | ⟨s', y, rfl⟩
    · exact nil_suffix
    · obtain ⟨dropped, hsplit⟩ := hs
      rw [concat_eq_append] at hok hsplit ⊢
      rw [← append_assoc] at hsplit
      obtain ⟨hsplit, hlast⟩ := append_inj' hsplit rfl
      have hin := h.within s' ⟨dropped, hsplit⟩
        (hclosed _ s' (sublist_append_left s' [y]) hok)
      obtain ⟨dropped', hsplit'⟩ := hin
      refine ⟨dropped', ?_⟩
      rw [← append_assoc, hsplit', hlast]

/-- No admitted end of the history is longer than the window. -/
theorem Keeps.longest (h : Keeps ok history window) {s : List α} (hs : s <:+ history)
    (hok : ok s = true) : s.length ≤ window.length :=
  (h.within s hs hok).length_le

/-- A window the bound does not admit is the newest entry alone. -/
theorem Keeps.newest (h : Keeps ok history window) (hnil : ok [] = true)
    (hrefused : ok window = false) : ∃ x, history.getLast? = some x ∧ window = [x] := by
  have hlength : window.length ≤ 1 := by
    rcases h.admitted with hok | hlength
    · rw [hok] at hrefused
      cases hrefused
    · exact hlength
  match hw : window, hlength with
  | [], _ =>
    rw [hnil] at hrefused
    cases hrefused
  | [x], _ =>
    obtain ⟨dropped, rfl⟩ := h.suffix
    exact ⟨x, getLast?_concat, rfl⟩

/-! ## Positions -/

/-- The entries with their positions, the first of them at `first`. -/
def number : ℕ → List α → List (ℕ × α)
  | _, [] => []
  | first, x :: l => (first, x) :: number (first + 1) l

theorem map_zipIdx (first offset : ℕ) (l : List α) :
    ((l.zipIdx offset).map fun p => (first + p.2, p.1)) = number (first + offset) l := by
  induction l generalizing offset with
  | nil => rfl
  | cons x l ih =>
    rw [zipIdx_cons, map_cons, ih]
    rfl

theorem map_fst_number (first : ℕ) (l : List α) :
    (number first l).map Prod.fst = List.range' first l.length := by
  induction l generalizing first with
  | nil => rfl
  | cons x l ih =>
    rw [number, map_cons, ih]
    rfl

theorem map_snd_number (first : ℕ) (l : List α) : (number first l).map Prod.snd = l := by
  induction l generalizing first with
  | nil => rfl
  | cons x l ih => rw [number, map_cons, ih]

theorem mem_number {first i : ℕ} {l : List α} :
    (i, x) ∈ number first l ↔ ∃ j, i = first + j ∧ l[j]? = some x := by
  induction l generalizing first with
  | nil => simp [number]
  | cons y l ih =>
    rw [number, mem_cons, ih]
    constructor
    · rintro (h | ⟨j, rfl, hj⟩)
      · cases h
        exact ⟨0, rfl, rfl⟩
      · exact ⟨j + 1, by omega, hj⟩
    · rintro ⟨j, rfl, hj⟩
      cases j with
      | zero =>
        cases hj
        exact Or.inl rfl
      | succ j => exact Or.inr ⟨j, by omega, hj⟩

theorem number_append (first : ℕ) (l l' : List α) :
    number first (l ++ l') = number first l ++ number (first + l.length) l' := by
  induction l generalizing first with
  | nil => rfl
  | cons x l ih =>
    rw [cons_append, number, number, ih, cons_append, length_cons,
      Nat.add_right_comm, Nat.add_assoc]

theorem drop_number (first n : ℕ) (l : List α) :
    (number first l).drop n = number (first + n) (l.drop n) := by
  induction l generalizing first n with
  | nil => simp [number]
  | cons x l ih =>
    cases n with
    | zero => rfl
    | succ n =>
      rw [number, drop_succ_cons, drop_succ_cons, ih]
      congr 1
      omega

theorem filter_number (first m : ℕ) (l : List α) :
    ((number first l).filter fun p => m ≤ p.1) = (number first l).drop (m - first) := by
  induction l generalizing first with
  | nil => simp [number]
  | cons x l ih =>
    rw [number]
    by_cases h : m ≤ first
    · rw [filter_cons_of_pos (by simpa using h), ih, Nat.sub_eq_zero_of_le h,
        Nat.sub_eq_zero_of_le (Nat.le_succ_of_le h)]
      rfl
    · rw [filter_cons_of_neg (by simpa using h), ih,
        show m - first = m - (first + 1) + 1 by omega]
      rfl

end Window
