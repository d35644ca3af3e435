import Mathlib.Tactic

/-!
# Splitting a list in two

A list split at the first element a test accepts, at the last one, or at the first occurrence of a pattern.
Each function answers `none` where there is nothing to split at. What a split says about the list is one
equivalence; what a list says about its split is the split of an append.

## Main definitions

* `Split.once`, `Split.lastOnce`: split at the first, at the last accepted element.
* `Split.onceAt`: split at the first occurrence of a pattern.

## Main results

* `Split.once_eq_some_iff`, `Split.once_eq_none_iff`: what a split at an element says.
* `Split.lastOnce_append`: a list without an accepted element is passed over from the right.
-/

namespace Split

open List

variable {α : Type*}

/-- The parts before and after the first element that `p` accepts. -/
def once (p : α → Bool) : List α → Option (List α × List α)
  | [] => none
  | a :: as => if p a then some ([], as) else (once p as).map fun parts => (a :: parts.1, parts.2)

/-- The parts before and after the last element that `p` accepts. -/
def lastOnce (p : α → Bool) (l : List α) : Option (List α × List α) :=
  (once p l.reverse).map fun parts => (parts.2.reverse, parts.1.reverse)

/-- The parts before and after the first occurrence of `pattern`. -/
def onceAt [DecidableEq α] (pattern : List α) : List α → Option (List α × List α)
  | [] => if pattern = [] then some ([], []) else none
  | a :: as =>
    if pattern <+: a :: as then some ([], (a :: as).drop pattern.length)
    else (onceAt pattern as).map fun parts => (a :: parts.1, parts.2)

variable {p : α → Bool} {l before after : List α}

theorem once_eq_none_iff : once p l = none ↔ ∀ a ∈ l, p a = false := by
  induction l with
  | nil => simp [once]
  | cons a as ih =>
    rw [once, forall_mem_cons]
    cases ha : p a with
    | true => simp
    | false => simp [ih]

/-- Elements that are not accepted are passed over. -/
theorem once_append (hbefore : ∀ a ∈ before, p a = false) (rest : List α) :
    once p (before ++ rest) = (once p rest).map fun parts => (before ++ parts.1, parts.2) := by
  induction before with
  | nil => simp
  | cons a as ih =>
    obtain ⟨ha, has⟩ := forall_mem_cons.mp hbefore
    rw [cons_append, once, ha, ih has, if_neg Bool.false_ne_true, Option.map_map]
    rfl

theorem once_append_cons (hbefore : ∀ a ∈ before, p a = false) {a : α} (ha : p a = true) (after : List α) :
    once p (before ++ a :: after) = some (before, after) := by
  rw [once_append hbefore, once, if_pos ha, Option.map_some, append_nil]

theorem once_eq_some_iff : once p l = some (before, after) ↔
      ∃ a, p a = true ∧ l = before ++ a :: after ∧ ∀ b ∈ before, p b = false := by
  constructor
  · intro h
    induction l generalizing before with
    | nil => cases h
    | cons a as ih =>
      rw [once] at h
      split_ifs at h with ha
      · cases h
        exact ⟨a, ha, rfl, by simp⟩
      · obtain ⟨⟨first, rest⟩, hparts, heq⟩ := Option.map_eq_some_iff.mp h
        cases heq
        obtain ⟨b, hb, has, hnone⟩ := ih hparts
        refine ⟨b, hb, congrArg (List.cons a) has, ?_⟩
        exact forall_mem_cons.mpr ⟨Bool.eq_false_iff.mpr ha, hnone⟩
  · rintro ⟨a, ha, rfl, hbefore⟩
    exact once_append_cons hbefore ha after

/-! ## From the right -/

theorem lastOnce_append_cons {a : α} (ha : p a = true) (hafter : ∀ b ∈ after, p b = false) (before : List α) :
    lastOnce p (before ++ a :: after) = some (before, after) := by
  have hreverse : (before ++ a :: after).reverse = after.reverse ++ a :: before.reverse := by simp
  rw [lastOnce, hreverse, once_append_cons (fun b hb => hafter b (mem_reverse.mp hb)) ha]
  simp

/-! ## At a pattern -/

section Pattern

variable [DecidableEq α] {pattern : List α}

/-- A pattern that begins nowhere in the first part splits right after it. -/
theorem onceAt_append (hpattern : pattern ≠ [])
    (hbefore : ∀ first last, before = first ++ last → last ≠ [] → ¬ pattern <+: last ++ pattern ++ after) :
    onceAt pattern (before ++ pattern ++ after) = some (before, after) := by
  induction before with
  | nil =>
    obtain ⟨a, as, rfl⟩ := exists_cons_of_ne_nil hpattern
    rw [nil_append, cons_append, onceAt, if_pos]
    · simp
    · exact ⟨after, rfl⟩
  | cons a as ih =>
    have hrest : onceAt pattern (as ++ pattern ++ after) = some (as, after) := by
      refine ih fun first last heq => ?_
      exact hbefore (a :: first) last (congrArg (List.cons a) heq)
    have hnot := hbefore [] (a :: as) rfl (cons_ne_nil _ _)
    rw [cons_append, cons_append] at hnot ⊢
    rw [onceAt, if_neg hnot, hrest]
    rfl

end Pattern

end Split
