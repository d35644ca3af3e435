import Mathlib.Tactic

/-!
# Tokens that come back

A token is handed out, dealt with, and perhaps comes back to be handed out again. `run` hands out
whatever is pending, in order, each time with the next input, and puts what comes back at the end of
the queue, so nothing in the definition says that a token comes back at most once. Where it does, a
run of one token follows the states of an abstract process: `trace` is that process, `Simulates` is
the step-by-step condition, and `run_simulates` carries it to whole runs.

The condition is asked only of the steps that meet `fair`, so a run is followed as long as its own
steps do.

## Main definitions

* `Relay.run`, `Relay.trace`: the concrete run and the abstract one.
* `Relay.Simulates`: one fair step of the run is one step of the process.
* `Relay.countUp`: the process that counts to a limit.

## Main results

* `Relay.run_simulates`: a run of one token follows the process.
* `Relay.length_trace_countUp`, `Relay.getElem?_trace_countUp`: the counting process.
-/

namespace Relay

open List

variable {D A S : Type*}

/-- Hands out the pending tokens in order, each dealt with by the next input; what comes back of it
joins the end. Each token handed out is listed with its input. -/
def run (back : D → A → List D) : List D → List A → List (D × A)
  | _, [] => []
  | [], _ :: _ => []
  | d :: pending, a :: as => (d, a) :: run back (pending ++ back d a) as

/-- The states a process passes through, each with the input it met there, until it stops. -/
def trace (next : S → A → Option S) : S → List A → List (S × A)
  | _, [] => []
  | s, a :: as =>
    (s, a) :: match next s a with
      | some s' => trace next s' as
      | none => []

/-- One fair step of the run is one step of the process: where the process stops nothing comes back,
and where it goes on exactly one token does, related to the next state. -/
structure Simulates (back : D → A → List D) (next : S → A → Option S) (R : D → S → Prop)
    (fair : D → A → Prop) : Prop where
  stops : ∀ d s a, R d s → fair d a → next s a = none → back d a = []
  goes_on : ∀ d s a s', R d s → fair d a → next s a = some s' → ∃ d', back d a = [d'] ∧ R d' s'

variable {back : D → A → List D} {next : S → A → Option S} {R : D → S → Prop}
  {fair : D → A → Prop}

@[simp] theorem run_nil_left (as : List A) : run back [] as = [] := by
  cases as <;> rfl

theorem run_cons (d : D) (a : A) (as : List A) :
    run back [d] (a :: as) = (d, a) :: run back (back d a) as := rfl

variable {as : List A}

/-- Every token is dealt with by one of the inputs. -/
theorem mem_of_mem_run {pending : List D} {p : D × A}
    (hp : p ∈ run back pending as) : p.2 ∈ as := by
  induction as generalizing pending with
  | nil => cases pending <;> simp [run] at hp
  | cons a as ih =>
    cases pending with
    | nil => simp [run] at hp
    | cons d pending =>
      rcases mem_cons.mp hp with rfl | hp
      · exact mem_cons_self
      · exact mem_cons_of_mem _ (ih hp)

theorem trace_cons (s : S) (a : A) (as : List A) : trace next s (a :: as)
      = (s, a) :: ((next s a).map fun s' => trace next s' as).getD [] := by
  rw [trace]
  cases next s a <;> rfl

/-- **Simulation.** A run of one token is matched, step by step, by the process. -/
theorem run_simulates (h : Simulates back next R fair) {d : D} {s : S} (hR : R d s)
    (hfair : ∀ p ∈ run back [d] as, fair p.1 p.2) :
    List.Forall₂ (fun p q => R p.1 q.1 ∧ p.2 = q.2) (run back [d] as) (trace next s as) := by
  induction as generalizing d s with
  | nil => exact List.Forall₂.nil
  | cons a as ih =>
    rw [run_cons] at hfair ⊢
    rw [trace_cons]
    have ha : fair d a := hfair (d, a) mem_cons_self
    refine List.Forall₂.cons ⟨hR, rfl⟩ ?_
    cases hnext : next s a with
    | none =>
      rw [h.stops d s a hR ha hnext, run_nil_left]
      exact List.Forall₂.nil
    | some s' =>
      obtain ⟨d', hback, hR'⟩ := h.goes_on d s a s' hR ha hnext
      rw [hback] at hfair ⊢
      exact ih hR' fun p hp => hfair p (mem_cons_of_mem _ hp)

/-- The state behind each step of a run. -/
theorem getElem?_run (h : Simulates back next R fair) {d : D} {s : S} (hR : R d s)
    (hfair : ∀ p ∈ run back [d] as, fair p.1 p.2) {j : ℕ} {p : D × A}
    (hp : (run back [d] as)[j]? = some p) :
    ∃ t, (trace next s as)[j]? = some (t, p.2) ∧ R p.1 t := by
  have hall := run_simulates h hR hfair
  obtain ⟨hj, hpj⟩ := List.getElem?_eq_some_iff.mp hp
  have hj' : j < (trace next s as).length := by rwa [← hall.length_eq]
  have hget := hall.get hj hj'
  simp only [get_eq_getElem, hpj] at hget
  refine ⟨(trace next s as)[j].1, ?_, hget.1⟩
  rw [getElem?_eq_getElem hj', hget.2]

/-- Each state of the process is behind a step of the run. -/
theorem getElem?_trace (h : Simulates back next R fair) {d : D} {s : S} (hR : R d s)
    (hfair : ∀ p ∈ run back [d] as, fair p.1 p.2) {j : ℕ} {q : S × A}
    (hq : (trace next s as)[j]? = some q) :
    ∃ d', (run back [d] as)[j]? = some (d', q.2) ∧ R d' q.1 := by
  have hall := run_simulates h hR hfair
  obtain ⟨hj, hqj⟩ := List.getElem?_eq_some_iff.mp hq
  have hj' : j < (run back [d] as).length := by rwa [hall.length_eq]
  have hget := hall.get hj' hj
  simp only [get_eq_getElem, hqj] at hget
  refine ⟨(run back [d] as)[j].1, ?_, hget.1⟩
  rw [getElem?_eq_getElem hj', ← hget.2]

/-! ## Counting to a limit -/

/-- The process that counts up and stops at `limit`. -/
def countUp (limit : ℕ) (s : ℕ) (_ : A) : Option ℕ :=
  if s < limit then some (s + 1) else none

theorem length_trace_countUp {limit s : ℕ} (hs : s ≤ limit) (as : List A) :
    (trace (countUp limit) s as).length = min (limit + 1 - s) as.length := by
  induction as generalizing s with
  | nil => simp [trace]
  | cons a as ih =>
    rw [trace_cons, length_cons, length_cons]
    by_cases h : s < limit
    · simp only [countUp, if_pos h, Option.map_some, Option.getD_some]
      rw [ih h]
      omega
    · simp only [countUp, if_neg h, Option.map_none, Option.getD_none, length_nil]
      omega

theorem getElem?_trace_countUp {limit s j : ℕ} {q : ℕ × A}
    (hq : (trace (countUp limit) s as)[j]? = some q) : q.1 = s + j := by
  induction as generalizing s j with
  | nil => simp [trace] at hq
  | cons a as ih =>
    rw [trace_cons] at hq
    cases j with
    | zero =>
      simp only [getElem?_cons_zero, Option.some.injEq] at hq
      subst hq
      rfl
    | succ j =>
      rw [getElem?_cons_succ] at hq
      by_cases h : s < limit
      · simp only [countUp, if_pos h, Option.map_some, Option.getD_some] at hq
        rw [ih hq]
        omega
      · simp [countUp, if_neg h] at hq

end Relay
