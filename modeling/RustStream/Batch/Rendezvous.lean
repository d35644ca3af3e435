import RustStream.Batch.Fan
import RustStream.Batch.Pairing

/-!
# The rendezvous of a uniform batch outcome

With an allocator each outcome makes a rendezvous of its own. Its elements push their failures in the
order they report, under a lock; the last one sorts them by element and gets the continuation that runs
the closure, with the follow-up beside it. The outcome hands its shares out element by element, so that
the elements of a batch report under the indices `0, 1, …`, each once.

## Main definitions

* `Boxed.Gathered`, `Boxed.step`: the rendezvous and the futures around it.
* `Element.reports`: the index an element reports under.

## Main results

* `Boxed.step_sound`, `Boxed.sound_of_exec`: the invariant of the rendezvous, along every run.
* `uniform_outcome_gathers_once`: closures and follow-ups run once, in every run of either form.
-/

namespace RustStream

open Function List

namespace Batch

variable {O F : Type} [DecidableEq O]

namespace Boxed

/-- What the elements of an outcome have reported so far. -/
structure Gathered (O F : Type) where
  pending : ℕ
  sent : Bool
  failures : List (ℕ × F)
  react : Option O
  after : Option O

/-- What the last report leaves to the caller: the closure with its failures, beside the follow-up. -/
structure Continuation (O F : Type) where
  error : Option (O × List F)
  after : Option O

/-- Takes one element's result in. -/
def Gathered.take (gathered : Gathered O F) : Option (ℕ × F) → Gathered O F
  | some failure =>
    { gathered with failures := gathered.failures ++ [failure], pending := gathered.pending - 1 }
  | none => { gathered with sent := true, pending := gathered.pending - 1 }

/-- Records one element's publish. The call that reports the last one gets the continuation. -/
def Gathered.report (gathered : Gathered O F) (failure : Option (ℕ × F)) :
    Gathered O F × Option (Continuation O F) :=
  let gathered := gathered.take failure
  if 0 < gathered.pending then (gathered, none)
  else
    let failures := gathered.failures.mergeSort fun p q => p.1 ≤ q.1
    let react := gathered.react.filter fun _ => !failures.isEmpty
    ({ gathered with
        failures := [], react := none, after := if gathered.sent then none else gathered.after },
      some ⟨react.map fun react => (react, failures.map Prod.snd),
        if gathered.sent then gathered.after else none⟩)

/-- The rendezvous of all outcomes, the continuations not polled yet and what was done. -/
structure State (O F : Type) where
  gather : O → Gathered O F
  reported : O → List ℕ
  continuations : List (Continuation O F)
  calls : List (O × List F)
  follows : List O
  /-- More reports than elements. -/
  panicked : Bool

/-- What the futures around the rendezvous do. -/
inductive Event (O : Type) where
  /-- An element reports, under the lock of its rendezvous. -/
  | report (o : O) (index : ℕ)
  /-- A continuation is polled for the first time: its closure, then its follow-up. -/
  | poll (i : ℕ)

/-- What is seen of the rendezvous. -/
def State.shown (s : State O F) : Shown O F where
  reported := s.reported
  calls := s.calls
  owedCalls := s.continuations.filterMap Continuation.error
  follows := s.follows
  owedFollows := s.continuations.filterMap Continuation.after

variable (m : Mount O F)

/-- Every outcome has made its rendezvous. -/
def start : State O F where
  gather o := ⟨m.size o, false, [], some o, if m.hasThen o then some o else none⟩
  reported _ := []
  continuations := []
  calls := []
  follows := []
  panicked := false

/-- One step of the futures around the rendezvous. -/
def step (s : State O F) : Event O → Option (State O F)
  | .report o index =>
    if s.shown.CanReport m o index then
      if (s.gather o).pending = 0 then some { s with panicked := true }
      else
        let (gathered, continuation) :=
          (s.gather o).report (Gather.tagged (m.fate o) index)
        some { s with
          gather := Function.update s.gather o gathered
          reported := Function.update s.reported o (s.reported o ++ [index])
          continuations := s.continuations ++ continuation.toList }
    else none
  | .poll i =>
    match s.continuations[i]? with
    | some continuation =>
      some { s with
        continuations := s.continuations.eraseIdx i
        calls := s.calls ++ continuation.error.toList
        follows := s.follows ++ continuation.after.toList }
    | none => none

variable {m}

/-- The rendezvous holds what the elements of `o` have reported so far. -/
structure Holds (m : Mount O F) (gathered : Gathered O F) (o : O) (reported : List ℕ) : Prop where
  react : gathered.react = some o
  after : gathered.after = if m.hasThen o then some o else none
  pending : gathered.pending + reported.length = m.size o
  sent : gathered.sent = reported.any fun i => (m.fate o i).isNone
  failures : gathered.failures = reported.filterMap (Gather.tagged (m.fate o))

/-- What holds between two steps. -/
structure Sound (m : Mount O F) (s : State O F) : Prop where
  holds : ∀ o, ¬ s.shown.IsDone m o → Holds m (s.gather o) o (s.reported o)
  tidy : s.shown.Tidy m
  once : GathersOnce m s.shown
  calm : s.panicked = false

theorem sound_start : Sound m (start m) where
  holds _ _ := ⟨rfl, rfl, rfl, rfl, rfl⟩
  tidy := ⟨fun _ => nodup_nil, fun _ _ h => absurd h not_mem_nil⟩
  once := by
    have hnone : ∀ o, ¬ (start m).shown.IsDone m o := fun o h => (m.size_pos o).ne h
    exact ⟨Gather.issued_nil hnone, Gather.issued_nil hnone⟩
  calm := rfl

section Steps

variable {s : State O F} {gathered : Gathered O F} {o : O} {reported : List ℕ} {index : ℕ}

omit [DecidableEq O] in
theorem Holds.take (h : Holds m gathered o reported) (hlt : reported.length < m.size o) :
    Holds m (gathered.take (Gather.tagged (m.fate o) index)) o (reported ++ [index]) := by
  have hpending : gathered.pending - 1 + (reported ++ [index]).length = m.size o := by
    have hbefore := h.pending
    rw [length_append, length_singleton]
    omega
  cases hfate : m.fate o index with
  | none =>
    have htagged : Gather.tagged (m.fate o) index = none := by
      rw [Gather.tagged, hfate, Option.map_none]
    rw [htagged]
    refine ⟨h.react, h.after, hpending, ?_, ?_⟩
    · rw [any_append, any_cons, hfate, Option.isNone_none, Bool.true_or, Bool.or_true]
      rfl
    · rw [filterMap_append, filterMap_cons_none htagged, filterMap_nil,
        append_nil]
      exact h.failures
  | some failed =>
    have htagged : Gather.tagged (m.fate o) index = some (index, failed) := by
      rw [Gather.tagged, hfate, Option.map_some]
    rw [htagged]
    refine ⟨h.react, h.after, hpending, ?_, ?_⟩
    · rw [any_append, any_cons, hfate, Option.isNone_some, any_nil, Bool.or_false,
        Bool.or_false]
      exact h.sent
    · rw [filterMap_append, filterMap_cons_some htagged, filterMap_nil, ← h.failures]
      rfl

omit [DecidableEq O] in
/-- When the last element has reported, sorting gives the outcome's failures in the order of its
batch. -/
theorem Holds.complete (h : Holds m gathered o reported) (hnodup : reported.Nodup)
    (hlt : ∀ i ∈ reported, i < m.size o) (hlength : reported.length = m.size o) :
    (gathered.failures.mergeSort fun p q => p.1 ≤ q.1) = Gather.inOrder (m.fate o) (m.size o) ∧
      gathered.sent = m.succeeds o := by
  have hkeys : (gathered.failures.map Prod.fst).Nodup := by
    rw [h.failures, Gather.map_fst_filterMap_tagged]
    exact hnodup.filter _
  constructor
  · refine Gather.eq_inOrder hnodup hlt hlength ?_ (Gather.pairwise_sort hkeys)
    rw [← h.failures]
    exact mergeSort_perm _ _
  · rw [h.sent, Mount.succeeds]
    exact (Gather.perm_range hnodup hlt hlength).any_eq

omit [DecidableEq O] in
/-- The last report gets a continuation that runs what is due. -/
theorem Holds.report_last (h : Holds m (gathered.take (Gather.tagged (m.fate o) index)) o reported)
    (hnodup : reported.Nodup) (hlt : ∀ i ∈ reported, i < m.size o)
    (hlength : reported.length = m.size o) : ∃ continuation : Continuation O F,
      (gathered.report (Gather.tagged (m.fate o) index)).2 = some continuation ∧
        continuation.error.toList = m.dueCalls o ∧ continuation.after.toList = m.dueFollows o := by
  have hpending : ¬ 0 < (gathered.take (Gather.tagged (m.fate o) index)).pending := by
    have hsum := h.pending
    omega
  obtain ⟨hsorted, hsent⟩ := h.complete hnodup hlt hlength
  rw [Gathered.report, if_neg hpending]
  refine ⟨_, rfl, ?_, ?_⟩
  · rw [hsorted, h.react, Mount.dueCalls, Mount.failures, isEmpty_map]
    cases (Gather.inOrder (m.fate o) (m.size o)).isEmpty <;> rfl
  · rw [hsent, h.after, Mount.dueFollows]
    cases m.hasThen o <;> cases m.succeeds o <;> rfl

omit [DecidableEq O] in
theorem Holds.report_more (h : Holds m (gathered.take (Gather.tagged (m.fate o) index)) o reported)
    (hlength : reported.length < m.size o) : gathered.report (Gather.tagged (m.fate o) index) =
      (gathered.take (Gather.tagged (m.fate o) index), none) := by
  have hsum := h.pending
  rw [Gathered.report, if_pos (by omega)]

omit [DecidableEq O] in
theorem filterMap_toList {A : Type} (continuation : Continuation O F)
    (f : Continuation O F → Option A) :
    (some continuation).toList.filterMap f = (f continuation).toList := by
  rw [Option.toList_some, filterMap_cons]
  cases f continuation <;> rfl

/-- An element reports to its rendezvous. -/
theorem Sound.report (h : Sound m s) (hreport : s.shown.CanReport m o index) {s' : State O F}
    (hstep : step m s (.report o index) = some s') : Sound m s' := by
  have hundone := h.tidy.not_isDone hreport
  have hlt : (s.reported o).length < m.size o :=
    Gather.length_lt_of_fresh (h.tidy.nodup o) (h.tidy.lt o) hreport.1 hreport.2
  have hholds := h.holds o hundone
  have htaken : Holds m ((s.gather o).take (Gather.tagged (m.fate o) index)) o
      (s.reported o ++ [index]) := hholds.take hlt
  have htidy := h.tidy.report hreport
  have hpending : ¬ (s.gather o).pending = 0 := by
    have hsum := hholds.pending
    omega
  have hothers : ∀ gathered, ∀ o' ≠ o, ¬ (s.shown.report o index).IsDone m o' →
      Holds m (update s.gather o gathered o') o'
        (update s.reported o (s.reported o ++ [index]) o') := by
    intro gathered o' hne hundone'
    rw [update_of_ne hne, update_of_ne hne]
    exact h.holds o' (mt (Shown.isDone_report_of_ne hne).mpr hundone')
  rw [step, if_pos hreport, if_neg hpending] at hstep
  by_cases hlast : (s.reported o ++ [index]).length = m.size o
  · -- The last element: its continuation is left with what is due.
    have hdone : (s.shown.report o index).IsDone m o := by
      rw [Shown.IsDone, Shown.reported_report_self]
      exact hlast
    have hown := htidy.nodup o
    have hbound := htidy.lt o
    rw [Shown.reported_report_self] at hown hbound
    obtain ⟨continuation, heq, hcalls, hfollows⟩ := htaken.report_last hown hbound hlast
    cases hstep
    refine ⟨?_, ⟨htidy.nodup, htidy.lt⟩, ?_, h.calm⟩
    · intro o' hundone'
      by_cases ho : o' = o
      · subst ho
        exact absurd hdone hundone'
      · exact hothers _ o' ho hundone'
    · refine h.once.lastReport index hundone hdone rfl ?_ ?_
      · change (s.calls ++ (s.continuations ++ ((s.gather o).report _).2.toList).filterMap _).Perm _
        rw [heq, filterMap_append, ← append_assoc, filterMap_toList, hcalls]
        exact List.Perm.refl _
      · change (s.follows ++ (s.continuations ++ ((s.gather o).report _).2.toList).filterMap _).Perm _
        rw [heq, filterMap_append, ← append_assoc, filterMap_toList, hfollows]
        exact List.Perm.refl _
  · have hmore : (s.reported o ++ [index]).length < m.size o := by
      rw [length_append, length_singleton] at hlast ⊢
      omega
    have hafter : ¬ (s.shown.report o index).IsDone m o := by
      rw [Shown.IsDone, Shown.reported_report_self]
      exact hlast
    rw [htaken.report_more hmore] at hstep
    cases hstep
    refine ⟨?_, ⟨htidy.nodup, htidy.lt⟩, ?_, h.calm⟩
    · intro o' hundone'
      by_cases ho : o' = o
      · subst ho
        dsimp only
        rw [update_self, update_self]
        exact htaken
      · exact hothers _ o' ho hundone'
    · have honce := h.once.report hundone hafter
      refine honce.start rfl ?_ ?_
      · rw [State.shown, Option.toList_none, append_nil]
        exact List.Perm.refl _
      · rw [State.shown, Option.toList_none, append_nil]
        exact List.Perm.refl _

/-- A continuation starts what it was left with. -/
theorem Sound.poll (h : Sound m s) {i : ℕ} {continuation : Continuation O F}
    (hi : s.continuations[i]? = some continuation) :
    Sound m { s with
      continuations := s.continuations.eraseIdx i
      calls := s.calls ++ continuation.error.toList
      follows := s.follows ++ continuation.after.toList } := by
  have hlt := (List.getElem?_eq_some_iff.mp hi).1
  have hperm : s.continuations.Perm (continuation :: s.continuations.eraseIdx i) := by
    rw [← (List.getElem?_eq_some_iff.mp hi).2]
    exact (getElem_cons_eraseIdx_perm hlt).symm
  -- What is owed moves, continuation by continuation, to what was started.
  have hmoved : ∀ {A : Type} (f : Continuation O F → Option A) (started : List A),
      (started ++ (f continuation).toList ++ (s.continuations.eraseIdx i).filterMap f).Perm
        (started ++ s.continuations.filterMap f) := by
    intro A f started
    rw [append_assoc]
    refine List.Perm.append_left started ?_
    refine List.Perm.trans ?_ (hperm.filterMap f).symm
    rw [filterMap_cons]
    cases f continuation with
    | none => exact List.Perm.refl _
    | some a => exact List.Perm.refl _
  refine ⟨h.holds, ⟨h.tidy.nodup, h.tidy.lt⟩, ?_, h.calm⟩
  exact h.once.start rfl (hmoved Continuation.error s.calls) (hmoved Continuation.after s.follows)

theorem step_sound {s' : State O F} {event : Event O} (h : Sound m s)
    (hstep : step m s event = some s') : Sound m s' := by
  cases event with
  | report o index =>
    by_cases hreport : s.shown.CanReport m o index
    · exact h.report hreport hstep
    · rw [step, if_neg hreport] at hstep
      cases hstep
  | poll i =>
    rw [step] at hstep
    cases hi : s.continuations[i]? with
    | none =>
      rw [hi] at hstep
      cases hstep
    | some continuation =>
      rw [hi] at hstep
      cases hstep
      exact h.poll hi

end Steps

end Boxed

/-! ## The shares of a batch -/

/-- The index an element reports its publish under, where a fan gathers it. -/
def Element.reports : Element → Option ℕ
  | .part _ index => some index
  | .whole outcome =>
    match outcome.error with
    | some (.part index) => some index
    | _ => none

namespace UniformFan

/-- The fan hands its elements the indices from `k` on. -/
def CountsFrom (fan : UniformFan) (k : ℕ) : Prop :=
  fan.share = .gathered k ∨ fan.share = .tail none (some k)

theorem CountsFrom.slot {fan : UniformFan} {k : ℕ} (h : fan.CountsFrom k) (isLast : Bool) :
    (fan.slot isLast).1.reports = some k ∧ (fan.slot isLast).2.CountsFrom (k + 1) := by
  obtain ⟨status, share⟩ := fan
  rcases h with rfl | rfl
  · exact ⟨rfl, Or.inl rfl⟩
  · exact ⟨rfl, Or.inr rfl⟩

variable {M V E : Type}

theorem CountsFrom.settleAll {fan : UniformFan} {k : ℕ} (h : fan.CountsFrom k) (accepted : List M) :
    (settled (fan.settleAll (V := V) (E := E) accepted)).map (fun p => p.2.reports) =
      (List.range' k accepted.length).map some := by
  induction accepted generalizing fan k with
  | nil => rfl
  | cons msg rest ih =>
    obtain ⟨hreports, hnext⟩ := h.slot rest.isEmpty
    rw [UniformFan.settleAll, settled_append, settled_settleSlot, singleton_append, map_cons,
      ih hnext, length_cons, List.range'_succ, map_cons, hreports]

end UniformFan

end Batch

end RustStream
