import RustStream.Lib.Drain
import Mathlib.Data.Nat.Bitwise

/-!
# The statistics of slow handlers

Every timed poll of a subscription's handler adds a sample to a moving average, and a subscription whose average
crosses the threshold is reported once. The average and the flag that says the crossing was reported share one
word. A recorder takes its number in one atomic step, learns in another whether anybody is there to warn, loads the
word, and swaps it for the next one; the swap is retried while others change the word in between.
Whether it crossed is read off the two words of its own swap.

A recorder's number decides how much its sample weighs and whether it may set the flag. It may be applied after
those of later recorders, so a bound on the average cannot rest on the order of the numbers: it rests on the
samples, of which each is counted before it is applied.

## Main definitions

* `PollStats.update`: the word after a sample.
* `PollStats.State`, `PollStats.step`: recorders among each other.

## Main results

* `average_update`, `isOver_update`: the two parts of the word after a sample.
* `warns_once_per_crossing`: one warning for every crossing, in every run.
-/

namespace RustStream

open List

namespace PollStats

/-- The samples a recorder must have counted before it may warn, and the weight of the average. -/
def window : UInt64 := 16

/-- The flag bit of the word. -/
def overBit : UInt64 := 0x8000000000000000

/-- The average a word holds. -/
def average (word : UInt64) : UInt64 :=
  word &&& ~~~overBit

/-- Whether a word's flag is set. -/
def isOver (word : UInt64) : Bool :=
  word &&& overBit != 0

/-- The average moved towards a sample. -/
def blend (taken ns average : UInt64) : UInt64 :=
  let weight := min taken window
  if average ≤ ns then average + (ns - average) / weight else average - (average - ns) / weight

/-- The word after a sample. -/
def update (threshold taken ns : UInt64) (warnable : Bool) (word : UInt64) : UInt64 :=
  let average := blend taken (min ns (~~~overBit)) (average word)
  let flag :=
    if average ≤ threshold ∨ warnable = false then 0
    else if window ≤ taken then overBit
    else word &&& overBit
  average ||| flag

/-! ## Recorders -/

/-- Where a recorder is. -/
inductive Phase where
  | idle
  /-- It has its number. -/
  | counted (taken ns : UInt64)
  /-- It knows whether a warning would reach anybody. -/
  | ready (taken ns : UInt64) (warnable : Bool)
  /-- It has loaded the word. -/
  | loaded (taken ns : UInt64) (warnable : Bool) (previous : UInt64)
  /-- It is about to warn. -/
  | warning (average : UInt64)
  deriving DecidableEq

/-- A swap that took the word from flag clear to flag set: the recorder's number and the new average. -/
structure Crossing where
  taken : UInt64
  average : UInt64

structure State (ι : Type) where
  samples : UInt64
  word : UInt64
  onAppRuntime : ℕ
  phases : ι → Phase
  /-- The samples counted so far, the crossings of the word, and the warnings given. -/
  recorded : List UInt64
  crossings : List Crossing
  warnings : ℕ

inductive Event (ι : Type) where
  | count (i : ι) (ns : UInt64)
  | look (i : ι)
  | load (i : ι)
  /-- The swap; it may fail without a reason. -/
  | swap (i : ι) (spurious : Bool)
  | warn (i : ι)
  /-- A subscription of the name begins to run on the app's runtime, or ends. -/
  | mount
  | unmount

variable {ι : Type} [DecidableEq ι]

def start : State ι where
  samples := 0
  word := 0
  onAppRuntime := 0
  phases := fun _ => .idle
  recorded := []
  crossings := []
  warnings := 0

namespace State

def put (s : State ι) (i : ι) (phase : Phase) : State ι :=
  { s with phases := Function.update s.phases i phase }

/-- The swap of a recorder that loaded the word it finds. -/
def swapped (s : State ι) (i : ι) (threshold taken ns : UInt64) (warnable : Bool) : State ι :=
  let current := update threshold taken ns warnable s.word
  let crosses := !isOver s.word && isOver current
  { s with
    word := current
    crossings := if crosses then s.crossings ++ [⟨taken, average current⟩] else s.crossings
    phases := Function.update s.phases i (if crosses then .warning (average current) else .idle) }

end State

/-- One atomic step. A number that wraps to zero stops its recorder: the weight would be zero. -/
def step (threshold : UInt64) (s : State ι) : Event ι → Option (State ι)
  | .count i ns =>
    if s.phases i = .idle then
      let taken := s.samples + 1
      let counted := { s with samples := taken, recorded := s.recorded ++ [ns] }
      if taken = 0 then some counted else some (counted.put i (.counted taken ns))
    else none
  | .look i =>
    match s.phases i with
    | .counted taken ns => some (s.put i (.ready taken ns (0 < s.onAppRuntime)))
    | _ => none
  | .load i =>
    match s.phases i with
    | .ready taken ns warnable => some (s.put i (.loaded taken ns warnable s.word))
    | _ => none
  | .swap i spurious =>
    match s.phases i with
    | .loaded taken ns warnable previous =>
      if spurious = false ∧ s.word = previous then some (s.swapped i threshold taken ns warnable)
      else some (s.put i (.loaded taken ns warnable s.word))
    | _ => none
  | .warn i =>
    match s.phases i with
    | .warning _ => some { s.put i .idle with warnings := s.warnings + 1 }
    | _ => none
  | .mount => some { s with onAppRuntime := s.onAppRuntime + 1 }
  | .unmount => some { s with onAppRuntime := s.onAppRuntime - 1 }

/-! ## The word -/

theorem toNat_overBit : overBit.toNat = 2 ^ 63 := rfl

theorem toNat_not_overBit : (~~~overBit).toNat = 2 ^ 63 - 1 := rfl

theorem toNat_average (word : UInt64) : (average word).toNat = word.toNat % 2 ^ 63 := by
  rw [average, UInt64.toNat_and, toNat_not_overBit, Nat.and_two_pow_sub_one_eq_mod]

theorem isOver_iff (word : UInt64) : isOver word = true ↔ 2 ^ 63 ≤ word.toNat := by
  have hword := word.toNat_lt
  have hbit : (word &&& overBit).toNat = (word.toNat.testBit 63).toNat * 2 ^ 63 := by
    rw [UInt64.toNat_and, toNat_overBit, Nat.and_two_pow]
  rw [isOver, bne_iff_ne, ne_eq, ← UInt64.toNat_inj, hbit, Nat.testBit_eq_decide_div_mod_eq]
  by_cases hhigh : 2 ^ 63 ≤ word.toNat
  · have hone : word.toNat / 2 ^ 63 % 2 = 1 := by omega
    rw [decide_eq_true hone]
    exact iff_of_true (by decide) hhigh
  · have hzero : ¬ word.toNat / 2 ^ 63 % 2 = 1 := by omega
    rw [decide_eq_false hzero]
    exact iff_of_false (by decide) hhigh

theorem and_overBit (word : UInt64) : word &&& overBit = if isOver word then overBit else 0 := by
  have hbit : (word &&& overBit).toNat = (word.toNat.testBit 63).toNat * 2 ^ 63 := by
    rw [UInt64.toNat_and, toNat_overBit, Nat.and_two_pow]
  split_ifs with h
  · rw [← UInt64.toNat_inj, toNat_overBit, hbit]
    cases hone : word.toNat.testBit 63 with
    | true => rfl
    | false =>
      rw [isOver, bne_iff_ne, ne_eq, ← UInt64.toNat_inj, hbit, hone] at h
      exact absurd rfl h
  · rw [isOver, bne_iff_ne, ne_eq, not_not] at h
    exact h

/-- An average and a flag share a word without touching each other. -/
theorem average_or {value : UInt64} (hvalue : value.toNat < 2 ^ 63) (flag : Bool) :
    average (value ||| if flag then overBit else 0) = value ∧
      isOver (value ||| if flag then overBit else 0) = flag := by
  cases flag with
  | false =>
    have hword : (value ||| if false = true then overBit else 0) = value := by simp
    rw [hword]
    refine ⟨?_, ?_⟩
    · rw [← UInt64.toNat_inj, toNat_average, Nat.mod_eq_of_lt hvalue]
    · rw [Bool.eq_false_iff, ne_eq, isOver_iff]
      omega
  | true =>
    have hword : (value ||| if true = true then overBit else 0).toNat = 2 ^ 63 + value.toNat := by
      rw [if_pos rfl, UInt64.toNat_or, toNat_overBit, Nat.or_comm]
      have := Nat.two_pow_add_eq_or_of_lt hvalue 1
      rw [Nat.mul_one] at this
      exact this.symm
    refine ⟨?_, ?_⟩
    · rw [← UInt64.toNat_inj, toNat_average, hword]
      omega
    · rw [isOver_iff, hword]
      omega

/-! ## The average -/

/-- The average stays between the old one and the sample. -/
theorem toNat_blend_le {taken ns value : UInt64} {bound : ℕ} (hns : ns.toNat ≤ bound)
    (hvalue : value.toNat ≤ bound) : (blend taken ns value).toNat ≤ bound := by
  have hsize := ns.toNat_lt
  have hsize' := value.toNat_lt
  unfold blend
  dsimp only
  generalize min taken window = weight
  split_ifs with hle
  · have hle' : value.toNat ≤ ns.toNat := UInt64.le_iff_toNat_le.mp hle
    have hpart : ((ns - value) / weight).toNat ≤ ns.toNat - value.toNat := by
      rw [UInt64.toNat_div, UInt64.toNat_sub_of_le _ _ hle]
      exact Nat.div_le_self _ _
    rw [UInt64.toNat_add, Nat.mod_eq_of_lt (by omega)]
    omega
  · have hle' : ns ≤ value := UInt64.le_of_lt (UInt64.not_le.mp hle)
    have hpart : (value - ns) / weight ≤ value := by
      rw [UInt64.le_iff_toNat_le, UInt64.toNat_div, UInt64.toNat_sub_of_le _ _ hle']
      exact (Nat.div_le_self _ _).trans (Nat.sub_le _ _)
    rw [UInt64.toNat_sub_of_le _ _ hpart]
    omega

/-- The flag a sample leaves. -/
def flagAfter (threshold taken ns : UInt64) (warnable : Bool) (word : UInt64) : Bool :=
  threshold < blend taken (min ns (~~~overBit)) (average word) && warnable && (window ≤ taken || isOver word)

theorem update_eq (threshold taken ns : UInt64) (warnable : Bool) (word : UInt64) :
    update threshold taken ns warnable word = blend taken (min ns (~~~overBit)) (average word) |||
        if flagAfter threshold taken ns warnable word then overBit else 0 := by
  unfold update flagAfter
  dsimp only
  congr 1
  cases warnable with
  | false => simp
  | true =>
    by_cases hunder : blend taken (min ns (~~~overBit)) (average word) ≤ threshold
    · rw [if_pos (Or.inl hunder), decide_eq_false (UInt64.not_lt.mpr hunder)]
      rfl
    · rw [if_neg (by simp [hunder]), decide_eq_true (UInt64.not_le.mp hunder), and_overBit]
      by_cases hwindow : window ≤ taken
      · simp [hwindow]
      · simp [hwindow]

theorem toNat_capped_lt (ns : UInt64) : (min ns (~~~overBit)).toNat < 2 ^ 63 := by
  have hle : min ns (~~~overBit) ≤ ~~~overBit := by
    rw [UInt64.min_def]
    split_ifs with h
    · exact h
    · exact UInt64.le_refl _
  have hle' := UInt64.le_iff_toNat_le.mp hle
  rw [toNat_not_overBit] at hle'
  omega

theorem toNat_capped_le (ns : UInt64) : (min ns (~~~overBit)).toNat ≤ ns.toNat := by
  refine UInt64.le_iff_toNat_le.mp ?_
  rw [UInt64.min_def]
  split_ifs with h
  · exact UInt64.le_refl _
  · exact UInt64.le_of_lt (UInt64.not_le.mp h)

/-- The new average never reaches the flag bit. -/
theorem toNat_blend_lt (taken ns word : UInt64) :
    (blend taken (min ns (~~~overBit)) (average word)).toNat < 2 ^ 63 := by
  have hcapped := toNat_capped_lt ns
  have haverage : (average word).toNat < 2 ^ 63 := by
    rw [toNat_average]
    exact Nat.mod_lt _ (Nat.two_pow_pos 63)
  have hle := @toNat_blend_le taken (min ns (~~~overBit)) (average word) (2 ^ 63 - 1) (by omega) (by omega)
  omega

theorem average_update (threshold taken ns : UInt64) (warnable : Bool) (word : UInt64) :
    average (update threshold taken ns warnable word) = blend taken (min ns (~~~overBit)) (average word) := by
  rw [update_eq]
  exact (average_or (toNat_blend_lt taken ns word) _).1

theorem isOver_update (threshold taken ns : UInt64) (warnable : Bool) (word : UInt64) :
    isOver (update threshold taken ns warnable word) = flagAfter threshold taken ns warnable word := by
  rw [update_eq]
  exact (average_or (toNat_blend_lt taken ns word) _).2

/-! ## What a step does -/

/-- What a step comes to. -/
inductive Moves (threshold : UInt64) (s : State ι) : State ι → Prop where
  | stopped (ns : UInt64) : Moves threshold s { s with samples := s.samples + 1, recorded := s.recorded ++ [ns] }
  | count {i : ι} (ns : UInt64) : s.phases i = .idle → s.samples + 1 ≠ 0 →
      Moves threshold s
        ({ s with samples := s.samples + 1, recorded := s.recorded ++ [ns] }.put i (.counted (s.samples + 1) ns))
  | look {i : ι} {taken ns : UInt64} : s.phases i = .counted taken ns →
      Moves threshold s (s.put i (.ready taken ns (0 < s.onAppRuntime)))
  | load {i : ι} {taken ns : UInt64} {warnable : Bool} : s.phases i = .ready taken ns warnable →
      Moves threshold s (s.put i (.loaded taken ns warnable s.word))
  | retry {i : ι} {taken ns previous : UInt64} {warnable : Bool} :
      s.phases i = .loaded taken ns warnable previous →
      Moves threshold s (s.put i (.loaded taken ns warnable s.word))
  | swap {i : ι} {taken ns : UInt64} {warnable : Bool} : s.phases i = .loaded taken ns warnable s.word →
      Moves threshold s (s.swapped i threshold taken ns warnable)
  | warn {i : ι} {value : UInt64} : s.phases i = .warning value →
      Moves threshold s { s.put i .idle with warnings := s.warnings + 1 }
  | mounted (count : ℕ) : Moves threshold s { s with onAppRuntime := count }

theorem moves_of_step {threshold : UInt64} {s s' : State ι} {e : Event ι} (h : step threshold s e = some s') :
    Moves threshold s s' := by
  cases e with
  | count i ns =>
    rw [step] at h
    dsimp only at h
    split_ifs at h with hidle hzero
    · cases h
      exact .stopped ns
    · cases h
      exact .count ns hidle hzero
  | look i =>
    rw [step] at h
    split at h
    · next taken ns hphase =>
      cases h
      exact .look hphase
    · cases h
  | load i =>
    rw [step] at h
    split at h
    · next taken ns warnable hphase =>
      cases h
      exact .load hphase
    · cases h
  | swap i spurious =>
    rw [step] at h
    split at h
    · next taken ns warnable previous hphase =>
      split_ifs at h with hsame
      · cases h
        exact .swap (hsame.2 ▸ hphase)
      · cases h
        exact .retry hphase
    · cases h
  | warn i =>
    rw [step] at h
    split at h
    · next value hphase =>
      cases h
      exact .warn hphase
    · cases h
  | mount =>
    cases h
    exact .mounted _
  | unmount =>
    cases h
    exact .mounted _

/-! ## The invariant -/

/-- No bound on the samples so far is below the value. -/
def Within (recorded : List UInt64) (value : UInt64) : Prop :=
  ∀ bound : ℕ, (∀ ns ∈ recorded, ns.toNat ≤ bound) → value.toNat ≤ bound

/-- What a recorder's phase says of the samples: its own is among them, its number is within their count, and the
word it loaded held an average of theirs. -/
def Phase.Valid (recorded : List UInt64) : Phase → Prop
  | .counted taken ns => ns ∈ recorded ∧ taken.toNat ≤ recorded.length
  | .ready taken ns _ => ns ∈ recorded ∧ taken.toNat ≤ recorded.length
  | .loaded taken ns _ previous =>
    ns ∈ recorded ∧ taken.toNat ≤ recorded.length ∧ Within recorded (PollStats.average previous)
  | _ => True

/-- Whether a warning is still to be given. -/
def Phase.owed : Phase → ℕ
  | .warning _ => 1
  | _ => 0

structure Sound [Fintype ι] (threshold : UInt64) (s : State ι) : Prop where
  samples : s.samples.toNat ≤ s.recorded.length
  average : Within s.recorded (average s.word)
  phases : ∀ i, (s.phases i).Valid s.recorded
  crossings : ∀ c ∈ s.crossings,
    threshold < c.average ∧ window ≤ c.taken ∧ c.taken.toNat ≤ s.recorded.length
  balance : s.crossings.length = s.warnings + ∑ i, (s.phases i).owed

variable {recorded : List UInt64}

theorem Within.mono {value : UInt64} (h : Within recorded value) (ns : UInt64) :
    Within (recorded ++ [ns]) value :=
  fun bound hbound => h bound fun ns' hmem => hbound ns' (mem_append_left _ hmem)

theorem Phase.Valid.mono {phase : Phase} (h : phase.Valid recorded) (ns : UInt64) :
    phase.Valid (recorded ++ [ns]) := by
  have hlength : recorded.length ≤ (recorded ++ [ns]).length := by simp
  cases phase with
  | idle => exact trivial
  | counted taken own | ready taken own warnable =>
    exact ⟨mem_append_left _ h.1, h.2.trans hlength⟩
  | loaded taken own warnable previous =>
    exact ⟨mem_append_left _ h.1, h.2.1.trans hlength, h.2.2.mono ns⟩
  | warning value => exact trivial

/-- The average after a sample that was counted is within the samples. -/
theorem within_blend {taken ns word : UInt64} (hns : ns ∈ recorded)
    (hword : Within recorded (average word)) :
    Within recorded (blend taken (min ns (~~~overBit)) (average word)) :=
  fun bound hbound => toNat_blend_le ((toNat_capped_le ns).trans (hbound ns hns)) (hword bound hbound)

variable [Fintype ι] {threshold : UInt64} {s : State ι}

/-- A recorder goes on without touching the word. -/
theorem Sound.put (h : Sound threshold s) {i : ι} {phase : Phase} (hvalid : phase.Valid s.recorded)
    (howed : phase.owed = (s.phases i).owed) : Sound threshold (s.put i phase) where
  samples := h.samples
  average := h.average
  phases j := by
    show (Function.update s.phases i phase j).Valid s.recorded
    by_cases hj : j = i
    · rw [hj, Function.update_self]
      exact hvalid
    · rw [Function.update_of_ne hj]
      exact h.phases j
  crossings := h.crossings
  balance := by
    have hsum := Drain.sum_update Phase.owed s.phases i phase
    have hbalance := h.balance
    show s.crossings.length = s.warnings + ∑ j, (Function.update s.phases i phase j).owed
    omega

omit [DecidableEq ι] in
/-- A sample is counted before anything else is done with it. -/
theorem Sound.counted (h : Sound threshold s) (ns : UInt64) :
    Sound threshold { s with samples := s.samples + 1, recorded := s.recorded ++ [ns] } where
  samples := by
    have hsamples := h.samples
    show (s.samples + 1).toNat ≤ (s.recorded ++ [ns]).length
    rw [UInt64.toNat_add, length_append, length_singleton]
    exact (Nat.mod_le _ _).trans (Nat.add_le_add_right hsamples 1)
  average := h.average.mono ns
  phases i := (h.phases i).mono ns
  crossings c hc := by
    obtain ⟨hover, hwindow, htaken⟩ := h.crossings c hc
    exact ⟨hover, hwindow, htaken.trans (by simp)⟩
  balance := h.balance

variable {warnable : Bool}

omit [Fintype ι] in
theorem swapped_of_not_crosses {i : ι} {taken ns : UInt64}
    (h : (!isOver s.word && isOver (update threshold taken ns warnable s.word)) = false) :
    s.swapped i threshold taken ns warnable = { s with
        word := update threshold taken ns warnable s.word
        phases := Function.update s.phases i .idle } := by
  simp only [State.swapped, h, Bool.false_eq_true, if_false]

omit [Fintype ι] in
theorem swapped_of_crosses {i : ι} {taken ns : UInt64}
    (h : (!isOver s.word && isOver (update threshold taken ns warnable s.word)) = true) :
    s.swapped i threshold taken ns warnable = { s with
        word := update threshold taken ns warnable s.word
        crossings := s.crossings ++ [⟨taken, average (update threshold taken ns warnable s.word)⟩]
        phases := Function.update s.phases i
          (.warning (average (update threshold taken ns warnable s.word))) } := by
  simp only [State.swapped, h, if_true]

/-- A swap crosses exactly where it owes a warning. -/
theorem Sound.swapped (h : Sound threshold s) {i : ι} {taken ns : UInt64}
    (hphase : s.phases i = .loaded taken ns warnable s.word) :
    Sound threshold (s.swapped i threshold taken ns warnable) := by
  have hvalid := h.phases i
  rw [hphase] at hvalid
  obtain ⟨hns, htaken, -⟩ := hvalid
  have hsum (phase : Phase) := Drain.sum_update Phase.owed s.phases i phase
  have howed : (s.phases i).owed = 0 := by rw [hphase]; rfl
  have hbalance := h.balance
  have haverage : Within s.recorded (PollStats.average (update threshold taken ns warnable s.word)) := by
    rw [average_update]
    exact within_blend hns h.average
  have hphases (phase : Phase) (htrivial : phase.Valid s.recorded) (j : ι) :
      (Function.update s.phases i phase j).Valid s.recorded := by
    by_cases hj : j = i
    · rw [hj, Function.update_self]
      exact htrivial
    · rw [Function.update_of_ne hj]
      exact h.phases j
  cases hcrosses : !isOver s.word && isOver (update threshold taken ns warnable s.word) with
  | false =>
    rw [swapped_of_not_crosses hcrosses]
    refine ⟨h.samples, haverage, hphases .idle trivial, h.crossings, ?_⟩
    have hidle := hsum .idle
    show s.crossings.length = s.warnings + ∑ j, (Function.update s.phases i .idle j).owed
    have hnone : Phase.owed .idle = 0 := rfl
    omega
  | true =>
    -- the flag was clear, so the recorder's own number is past the window
    rw [swapped_of_crosses hcrosses]
    obtain ⟨hclear, hset⟩ := Bool.and_eq_true_iff.mp hcrosses
    rw [Bool.not_eq_true'] at hclear
    rw [isOver_update, flagAfter, hclear, Bool.or_false, Bool.and_eq_true, Bool.and_eq_true,
      decide_eq_true_eq, decide_eq_true_eq] at hset
    refine ⟨h.samples, haverage, hphases (.warning _) trivial, ?_, ?_⟩
    · intro c hc
      rcases mem_append.mp hc with hold | hnew
      · exact h.crossings c hold
      · rw [mem_singleton.mp hnew]
        refine ⟨?_, hset.2, htaken⟩
        rw [average_update]
        exact hset.1.1
    · have hwarning := hsum (.warning (PollStats.average (update threshold taken ns warnable s.word)))
      show (s.crossings ++ [_]).length =
        s.warnings + ∑ j, (Function.update s.phases i (.warning _) j).owed
      rw [howed] at hwarning
      rw [length_append, length_singleton, hbalance]
      simp only [Phase.owed] at hwarning ⊢
      omega

/-- **One step.** -/
theorem step_sound {s' : State ι} {e : Event ι} (h : Sound threshold s) (hstep : step threshold s e = some s') :
    Sound threshold s' := by
  cases moves_of_step hstep with
  | stopped ns => exact h.counted ns
  | @count i ns hidle hne =>
    refine (h.counted ns).put ⟨mem_append_right _ (mem_singleton_self ns), (h.counted ns).samples⟩ ?_
    show _ = (s.phases i).owed
    rw [hidle]
    rfl
  | @look i taken ns hphase =>
    have hvalid := h.phases i
    rw [hphase] at hvalid
    refine h.put hvalid ?_
    rw [hphase]
    rfl
  | @load i taken ns warnable hphase =>
    have hvalid := h.phases i
    rw [hphase] at hvalid
    refine h.put ⟨hvalid.1, hvalid.2, h.average⟩ ?_
    rw [hphase]
    rfl
  | @retry i taken ns previous warnable hphase =>
    have hvalid := h.phases i
    rw [hphase] at hvalid
    refine h.put ⟨hvalid.1, hvalid.2.1, h.average⟩ ?_
    rw [hphase]
    rfl
  | swap hphase => exact h.swapped hphase
  | @warn i value hphase =>
    have hsum := Drain.sum_update Phase.owed s.phases i .idle
    have hbalance := h.balance
    refine ⟨h.samples, h.average, fun j => ?_, h.crossings, ?_⟩
    · show (Function.update s.phases i .idle j).Valid s.recorded
      by_cases hj : j = i
      · rw [hj, Function.update_self]
        exact trivial
      · rw [Function.update_of_ne hj]
        exact h.phases j
    · show s.crossings.length = s.warnings + 1 + ∑ j, (Function.update s.phases i .idle j).owed
      rw [hphase] at hsum
      simp only [Phase.owed] at hsum hbalance ⊢
      omega
  | mounted count => exact ⟨h.samples, h.average, h.phases, h.crossings, h.balance⟩

omit [DecidableEq ι] in
theorem sound_start (threshold : UInt64) : Sound threshold (start : State ι) where
  samples := le_rfl
  average bound _ := by
    have hzero : (PollStats.average 0).toNat = 0 := by decide
    exact hzero.le.trans (Nat.zero_le bound)
  phases _ := trivial
  crossings c hc := absurd hc not_mem_nil
  balance := by simp [start, Phase.owed]

theorem Sound.run {events : List (Event ι)} (hexec : Run.exec (step threshold) start events = some s) :
    Sound threshold s :=
  Run.exec_always (fun _ _ _ => step_sound) (sound_start threshold) hexec

/-! ## Warnings -/

/-- The largest of the samples counted so far. -/
def largest (recorded : List UInt64) : ℕ :=
  recorded.foldr (fun ns most => max ns.toNat most) 0

theorem le_largest {ns : UInt64} (h : ns ∈ recorded) : ns.toNat ≤ largest recorded := by
  induction recorded with
  | nil => cases h
  | cons first recorded ih =>
    rcases mem_cons.mp h with rfl | hrest
    · exact Nat.le_max_left _ _
    · exact (ih hrest).trans (Nat.le_max_right _ _)

/-- What the statistics keep to: a warning given or owed for every crossing, an average within the samples that
leaves the flag bit alone, and crossings only past the threshold and the window. -/
structure WarnsOnce (threshold : UInt64) (s : State ι) : Prop where
  owed : s.crossings.length = s.warnings + ∑ i, (s.phases i).owed
  once : (∀ i, (s.phases i).owed = 0) → s.warnings = s.crossings.length
  average : (PollStats.average s.word).toNat ≤ largest s.recorded
  below : ∀ i taken ns warnable previous, s.phases i = .loaded taken ns warnable previous →
    (blend taken (min ns (~~~overBit)) (PollStats.average previous)).toNat < 2 ^ 63 ∧
      PollStats.average (update threshold taken ns warnable previous) =
        blend taken (min ns (~~~overBit)) (PollStats.average previous)
  crossings : ∀ c ∈ s.crossings,
    threshold < c.average ∧ window ≤ c.taken ∧ c.taken.toNat ≤ s.recorded.length

/-- **One warning for every crossing.** In every run of any number of recorders, whatever their samples and the
threshold: as many warnings as times the word went from flag clear to flag set, once those that are owed are given;
the average is at most the largest sample counted and never reaches the flag bit; and the flag is set only by an
update whose average is over the threshold, of a recorder that had counted the whole window. -/
theorem warns_once_per_crossing (threshold : UInt64) {events : List (Event ι)} {s : State ι}
    (hexec : Run.exec (step threshold) start events = some s) : WarnsOnce threshold s := by
  have hsound := Sound.run hexec
  refine ⟨hsound.balance, fun hnone => ?_, ?_, fun i taken ns warnable previous _ => ?_, hsound.crossings⟩
  · have hbalance := hsound.balance
    rw [Finset.sum_eq_zero fun i _ => hnone i] at hbalance
    omega
  · exact hsound.average _ fun ns hmem => le_largest hmem
  · exact ⟨toNat_blend_lt taken ns previous, average_update threshold taken ns warnable previous⟩

/-- Two recorders take turns at sixteen slow polls; the last of them crosses and warns. -/
theorem warns_once_per_crossing_sixteen :
    ∃ s : State Bool,
      Run.exec (step 10) start
        (.mount :: ((List.range 16).flatMap fun n =>
          [.count (n % 2 == 0) 100, .look (n % 2 == 0), .load (n % 2 == 0), .swap (n % 2 == 0) false]) ++
            [.warn false]) = some s ∧
      s.crossings.length = 1 ∧ s.warnings = 1 ∧ (average s.word).toNat ≤ largest s.recorded := by
  have hrun : (Run.exec (step 10) (start : State Bool)
      (.mount :: ((List.range 16).flatMap fun n =>
        [.count (n % 2 == 0) 100, .look (n % 2 == 0), .load (n % 2 == 0), .swap (n % 2 == 0) false]) ++
          [.warn false])).any
      (fun s => decide (s.crossings.length = 1 ∧ ∀ i, (s.phases i).owed = 0)) = true := by
    decide +kernel
  rw [Option.any_eq_true] at hrun
  obtain ⟨s, hexec, hs⟩ := hrun
  obtain ⟨hcrossings, hnone⟩ := of_decide_eq_true hs
  have hwarns := warns_once_per_crossing 10 hexec
  exact ⟨s, hexec, hcrossings, (hwarns.once hnone).trans hcrossings, hwarns.average⟩

end PollStats

end RustStream
