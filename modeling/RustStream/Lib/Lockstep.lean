import RustStream.Lib.Run

/-!
# Machines that answer, side by side

A machine takes inputs one by one and answers each, or stops at an input it cannot take. Two machines
are compared through a relation of their states that every input they take preserves, whether or not
they answer it alike. Then their answers to a sequence of inputs are the same exactly when they are
the same input by input.

## Main definitions

* `Lockstep.answers`: the answers to a sequence of inputs.
* `Lockstep.Together`: both machines take an input, or neither does.

## Main results

* `Lockstep.answers_eq_iff`: the two machines answer alike if and only if every step on the way is
  one on which they do.
-/

namespace Lockstep

variable {S T V E A : Type*}

/-- The state after an input, without the answer. -/
def next (step : S → E → Option (A × S)) (s : S) (e : E) : Option S :=
  (step s e).map Prod.snd

/-- The answers to the inputs, up to one that cannot be taken. -/
def answers (step : S → E → Option (A × S)) : S → List E → List A
  | _, [] => []
  | s, e :: es =>
    match step s e with
    | some (a, s') => a :: answers step s' es
    | none => []

/-- Two machines take an input, to related states and with the same answer exactly if `P`, or
neither of them can take it. -/
inductive Together (R : S → T → Prop) (P : Prop) : Option (A × S) → Option (A × T) → Prop
  | stuck : P → Together R P none none
  | taken {a b : A} {s : S} {t : T} : R s t → (a = b ↔ P) → Together R P (some (a, s)) (some (b, t))

section

variable {R : S → T → Prop} {step₁ : S → E → Option (A × S)} {step₂ : T → E → Option (A × T)}
  {good : S → E → Prop} {ok : T → E → Prop} {s : S} {t : T} {es : List E}

/-- **Answering alike.** The relation is kept on every way, so one input answered differently does
not spoil the comparison of those after it. -/
theorem answers_eq_iff
    (hstep : ∀ s t e, R s t → ok t e → Together R (good s e) (step₁ s e) (step₂ t e))
    (hR : R s t) (hok : Run.AllSteps (next step₂) ok t es) :
    answers step₁ s es = answers step₂ t es ↔ Run.AllSteps (next step₁) good s es := by
  induction es generalizing s t with
  | nil => exact iff_of_true rfl trivial
  | cons e es ih =>
    obtain ⟨hoke, hrest⟩ := hok
    have htogether := hstep s t e hR hoke
    unfold next at hrest
    rw [answers, answers, Run.AllSteps, next]
    generalize step₁ s e = r₁ at htogether ⊢
    generalize step₂ t e = r₂ at htogether hrest ⊢
    cases htogether with
    | stuck hgood =>
      refine iff_of_true rfl ⟨hgood, fun s' hs' => ?_⟩
      cases hs'
    | @taken a b s' t' hR' hiff =>
      have hih := ih hR' (hrest t' rfl)
      simp only [List.cons.injEq, hiff, hih, Option.map_some, Option.some.injEq, forall_eq']

end

section

variable {view : S → V} {Inv : S → Prop} {view' : T → V} {Inv' : T → Prop} {r : Option (A × S)}
  {r' : Option (A × T)} {v v' : Option (A × V)} {P : Prop}

/-- Two machines that each follow their own version of a third go together where the versions
differ in the answer only. -/
theorem Together.of_views (h : Together (fun s v => view s = v ∧ Inv s) True r v)
    (h' : Together (fun t v => view' t = v ∧ Inv' t) True r' v') (hv : Together Eq P v v') :
    Together (fun s t => view s = view' t ∧ Inv s ∧ Inv' t) P r r' := by
  cases hv with
  | stuck hP =>
    cases h
    cases h'
    exact .stuck hP
  | taken heq hiff =>
    cases h with
    | taken hs ha =>
      cases h' with
      | taken ht hb =>
        have hsame := ha.mpr trivial
        have hsame' := hb.mpr trivial
        subst hsame hsame'
        exact .taken ⟨hs.1.trans (heq.trans ht.1.symm), hs.2, ht.2⟩ hiff

end

end Lockstep
