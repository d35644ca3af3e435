import RustStream.Lib.Run
import Mathlib.Algebra.BigOperators.Group.Finset.Basic
import Mathlib.Tactic

/-!
# Systems that run down

A system that has been told to stop runs down: a measure of what is left to do goes down with every step that
does anything, and while it is not done there is such a step. Then it gets done, whatever the order. Where the
system is made of components, the measure is a sum, and a step of one component changes one term of it.

## Main results

* `Drain.sum_update`: the measure of a system of which one component changed.
* `Drain.exists_exec`: a system that runs down gets done.
-/

namespace Drain

open Function

/-- One component changed. -/
theorem sum_update {I A : Type*} [Fintype I] [DecidableEq I] (weight : A → ℕ) (parts : I → A) (i : I)
    (a : A) : ∑ j, weight (update parts i a j) + weight (parts i) =
      ∑ j, weight (parts j) + weight a := by
  have hrest : ∑ j ∈ Finset.univ.erase i, weight (update parts i a j) =
      ∑ j ∈ Finset.univ.erase i, weight (parts j) := by
    refine Finset.sum_congr rfl fun j hj => ?_
    rw [update_of_ne (Finset.ne_of_mem_erase hj)]
  rw [← Finset.add_sum_erase _ _ (Finset.mem_univ i), ← Finset.add_sum_erase _ _ (Finset.mem_univ i),
    hrest, update_self]
  omega

/-- A system in which something is left to do as long as it is not done gets done, by steps of the kind that
do it. -/
theorem exists_exec {S E : Type*} {step : S → E → Option S} {Running Done : S → Prop} {kind : E → Prop}
    (measure : S → ℕ) (hstep : ∀ s, Running s → ¬ Done s →
      ∃ e s', kind e ∧ step s e = some s' ∧ Running s' ∧ measure s' < measure s)
    (s : S) (hs : Running s) :
    ∃ es s', (∀ e ∈ es, kind e) ∧ Run.exec step s es = some s' ∧ Running s' ∧ Done s' := by
  by_cases hdone : Done s
  · exact ⟨[], s, fun e he => absurd he List.not_mem_nil, rfl, hs, hdone⟩
  · obtain ⟨e, s₁, hkind, hfirst, hs₁, hless⟩ := hstep s hs hdone
    obtain ⟨es, s', hkinds, hexec, hs', hdone'⟩ := exists_exec measure hstep s₁ hs₁
    refine ⟨e :: es, s', ?_, ?_, hs', hdone'⟩
    · intro e' he'
      rcases List.mem_cons.mp he' with rfl | he'
      · exact hkind
      · exact hkinds e' he'
    · rw [Run.exec_cons_of_step hfirst]
      exact hexec
  termination_by measure s

end Drain
