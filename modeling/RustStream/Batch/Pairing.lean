import Mathlib.Data.List.GetD
import RustStream.Batch.Settle

/-!
# Who is settled by what

The walks over a batch meet the rejects by their index and the outcomes by their order. Seen from outside
this is one assignment: the reject is settled by the decode policy, the `k`-th delivery that can be read
by the `k`-th outcome, by a retry when the body returned none for it.

The proof keeps three lists apart: the batch, its accepted part, and the outcomes. Reading a batch gives the
rejects with increasing indices, so a walk that looks at the first of them only meets each one where
it was found; what is handed out to the accepted part is known by its position alone.

## Main definitions

* `settled`, `bodies`: the settlements among the effects, and the slices the body saw.
* `assigned`: the settlement of each delivery of a batch.

## Main results

* `settleRejected_eq`, `settleSplit_eq`: the two walks.
* `settleBatch_eq`, `Settlements.begin_eq`: the outcomes by their position.
* `batch_settlement_pairs`: both adapters settle each delivery once and as assigned.
-/

namespace RustStream

open List

namespace Batch

variable {M V E : Type}

/-! ## What a list of effects settles -/

/-- The settlements among the effects, in order. -/
def settled (effects : List (Effect M V E)) : List (M × Element) :=
  effects.filterMap fun
    | .settle msg element => some (msg, element)
    | _ => none

/-- The slices the body was called with. -/
def bodies (effects : List (Effect M V E)) : List (List V) :=
  effects.filterMap fun
    | .body values => some values
    | _ => none

/-- Who is settled by what: a delivery the reader refuses by `reject`, the `k`-th one it accepts by the
`k`-th of the rest. -/
def assigned {α : Type} (accepts : M → Bool) (reject : α) (kth : ℕ → α) : ℕ → List M → List (M × α)
  | _, [] => []
  | k, msg :: rest =>
    if accepts msg then (msg, kth k) :: assigned accepts reject kth (k + 1) rest
    else (msg, reject) :: assigned accepts reject kth k rest

section Views

@[simp] theorem settled_append (xs ys : List (Effect M V E)) :
    settled (xs ++ ys) = settled xs ++ settled ys :=
  filterMap_append

@[simp] theorem bodies_append (xs ys : List (Effect M V E)) :
    bodies (xs ++ ys) = bodies xs ++ bodies ys :=
  filterMap_append

@[simp] theorem settled_nil : settled ([] : List (Effect M V E)) = [] := rfl

@[simp] theorem bodies_nil : bodies ([] : List (Effect M V E)) = [] := rfl

@[simp] theorem settled_body (values : List V) (effects : List (Effect M V E)) :
    settled (.body values :: effects) = settled effects := rfl

@[simp] theorem bodies_body (values : List V) (effects : List (Effect M V E)) :
    bodies (.body values :: effects) = values :: bodies effects := rfl

@[simp] theorem settled_settleOutcome (msg : M) (status : HandlerResult)
    (effects : List (Effect M V E)) : settled (settleOutcome msg status :: effects) =
      (msg, .whole ⟨status, none, none⟩) :: settled effects := rfl

@[simp] theorem bodies_settleOutcome (msg : M) (status : HandlerResult)
    (effects : List (Effect M V E)) :
    bodies (settleOutcome msg status :: effects) = bodies effects := rfl

@[simp] theorem settled_detach (after : Option FollowUp) :
    settled (after.toList.map (Effect.detach (M := M) (V := V) (E := E))) = [] := by
  cases after <;> rfl

@[simp] theorem bodies_detach (after : Option FollowUp) :
    bodies (after.toList.map (Effect.detach (M := M) (V := V) (E := E))) = [] := by
  cases after <;> rfl

@[simp] theorem settled_settleSlot (msg : M) (element : Element) :
    settled (settleSlot (V := V) (E := E) msg element) = [(msg, element)] := by
  cases element with
  | whole outcome =>
    change (msg, Element.whole outcome) :: settled (if _ then _ else _) = _
    split_ifs
    · rw [settled_detach]
    · rfl
  | part status index => rfl

@[simp] theorem bodies_settleSlot (msg : M) (element : Element) :
    bodies (settleSlot (V := V) (E := E) msg element) = [] := by
  cases element with
  | whole outcome =>
    change bodies (if _ then _ else _) = _
    split_ifs
    · rw [bodies_detach]
    · rfl
  | part status index => rfl

variable {α β : Type} (accepts : M → Bool)

theorem map_fst_assigned (reject : α) (kth : ℕ → α) (k : ℕ) (batch : List M) :
    (assigned accepts reject kth k batch).map Prod.fst = batch := by
  induction batch generalizing k with
  | nil => rfl
  | cons msg rest ih =>
    rw [assigned]
    split_ifs
    · rw [map_cons, ih]
    · rw [map_cons, ih]

/-- Only the outcomes of the accepted deliveries are looked at. -/
theorem map_assigned (f : α → β) (reject : α) (kth : ℕ → α) (kth' : ℕ → β) (k l : ℕ) (batch : List M)
    (h : ∀ i < (batch.filter accepts).length, f (kth (k + i)) = kth' (l + i)) :
    (assigned accepts reject kth k batch).map (Prod.map id f) =
      assigned accepts (f reject) kth' l batch := by
  induction batch generalizing k l with
  | nil => rfl
  | cons msg rest ih =>
    rw [assigned, assigned]
    by_cases haccepts : accepts msg = true
    · rw [filter_cons_of_pos haccepts, length_cons] at h
      rw [if_pos haccepts, if_pos haccepts, map_cons, ih (k + 1) (l + 1)]
      · have hhead := h 0 (by omega)
        rw [Nat.add_zero, Nat.add_zero] at hhead
        rw [Prod.map_apply, id, hhead]
      · intro i hi
        rw [show k + 1 + i = k + (i + 1) by omega, show l + 1 + i = l + (i + 1) by omega]
        exact h (i + 1) (by omega)
    · rw [filter_cons_of_neg haccepts] at h
      rw [if_neg haccepts, if_neg haccepts, map_cons, ih k l h]
      rfl

theorem assigned_of_accepts {accepts : M → Bool} {batch : List M} (h : batch.filter accepts = batch)
    (reject : α) (kth : ℕ → α) (k : ℕ) :
    assigned accepts reject kth k batch = batch.mapIdx fun i msg => (msg, kth (k + i)) := by
  induction batch generalizing k with
  | nil => rfl
  | cons msg rest ih =>
    rw [filter_eq_self] at h ih
    rw [assigned, if_pos (h msg mem_cons_self), mapIdx_cons,
      ih (fun msg' hmem => h msg' (mem_cons_of_mem _ hmem)) (k + 1)]
    simp only [Nat.add_zero, Nat.add_assoc, Nat.add_comm 1]

theorem map_fst_mapIdx (kth : ℕ → α) (accepted : List M) :
    (accepted.mapIdx fun k msg => (msg, kth k)).map Prod.fst = accepted := by
  refine ext_getElem? fun k => ?_
  rw [getElem?_map, getElem?_mapIdx, Option.map_map]
  exact Option.map_id_apply

end Views

/-! ## Reading a batch -/

namespace Reader

variable (reader : Reader M V E)

variable {msg : M}

theorem decodeElements_of_ok {value : V} (h : reader.read msg = .ok value) (index : ℕ)
    (rest : List M) : reader.decodeElements index (msg :: rest) =
      (value :: (reader.decodeElements (index + 1) rest).1,
        (reader.decodeElements (index + 1) rest).2) := by
  simp only [decodeElements, h]

theorem decodeElements_of_error {reason : String} {error : E}
    (h : reader.read msg = .error (reason, error)) (index : ℕ) (rest : List M) :
    reader.decodeElements index (msg :: rest) = ((reader.decodeElements (index + 1) rest).1,
        (index, reader.policy.rejection) :: (reader.decodeElements (index + 1) rest).2.1,
        reader.torn reason error ++ (reader.decodeElements (index + 1) rest).2.2) := by
  simp only [decodeElements, h]

theorem value?_of_ok {value : V} (h : reader.read msg = .ok value) :
    reader.value? msg = some value := by
  rw [value?, h]
  rfl

theorem value?_of_error {why : String × E} (h : reader.read msg = .error why) :
    reader.value? msg = none := by
  rw [value?, h]
  rfl

theorem accepts_of_ok {value : V} (h : reader.read msg = .ok value) :
    reader.accepts msg = true := by
  rw [accepts, value?_of_ok reader h, Option.isSome_some]

theorem accepts_of_error {why : String × E} (h : reader.read msg = .error why) :
    reader.accepts msg = false := by
  rw [accepts, value?_of_error reader h, Option.isSome_none]

variable (index : ℕ)

variable (batch : List M)

theorem values_eq : (reader.decodeElements index batch).1 = batch.filterMap reader.value? := by
  induction batch generalizing index with
  | nil => rfl
  | cons msg rest ih =>
    cases h : reader.read msg with
    | ok value =>
      rw [decodeElements_of_ok reader h, ih, filterMap_cons_some (value?_of_ok reader h)]
    | error why =>
      rw [decodeElements_of_error reader h, ih, filterMap_cons_none (value?_of_error reader h)]

/-- The values are those of the accepted deliveries, one each and in order. -/
theorem map_some_values :
    (batch.filterMap reader.value?).map some = (batch.filter reader.accepts).map reader.value? := by
  induction batch with
  | nil => rfl
  | cons msg rest ih =>
    cases h : reader.read msg with
    | ok value =>
      have hvalue := value?_of_ok reader h
      rw [filterMap_cons_some hvalue, filter_cons_of_pos (accepts_of_ok reader h),
        map_cons, map_cons, ih, hvalue]
    | error why =>
      have hrefused : ¬ reader.accepts msg = true := by
        rw [accepts_of_error reader h]
        exact Bool.false_ne_true
      rw [filterMap_cons_none (value?_of_error reader h), filter_cons_of_neg hrefused, ih]

theorem length_values :
    (batch.filterMap reader.value?).length = (batch.filter reader.accepts).length := by
  have h := congrArg List.length (reader.map_some_values batch)
  rwa [length_map, length_map] at h

theorem values_eq_nil_iff :
    batch.filterMap reader.value? = [] ↔ batch.filter reader.accepts = [] := by
  rw [← length_eq_zero_iff, length_values, length_eq_zero_iff]

/-- Reading settles nothing and calls no body. -/
theorem torn_silent : settled (reader.decodeElements index batch).2.2 = [] ∧
      bodies (reader.decodeElements index batch).2.2 = [] := by
  induction batch generalizing index with
  | nil => exact ⟨rfl, rfl⟩
  | cons msg rest ih =>
    cases h : reader.read msg with
    | ok value =>
      rw [decodeElements_of_ok reader h]
      exact ih (index + 1)
    | error why =>
      rw [decodeElements_of_error reader h, settled_append, bodies_append, (ih (index + 1)).1,
        (ih (index + 1)).2, torn]
      split_ifs <;> exact ⟨rfl, rfl⟩

theorem le_of_mem_rejected {index : ℕ} {batch : List M} {p : ℕ × HandlerResult}
    (h : p ∈ (reader.decodeElements index batch).2.1) : index ≤ p.1 := by
  induction batch generalizing index with
  | nil => cases h
  | cons msg rest ih =>
    cases hread : reader.read msg with
    | ok value =>
      rw [decodeElements_of_ok reader hread] at h
      exact (Nat.le_succ index).trans (ih h)
    | error why =>
      rw [decodeElements_of_error reader hread] at h
      rcases mem_cons.mp h with rfl | h
      · exact le_rfl
      · exact (Nat.le_succ index).trans (ih h)

/-- The walk finds no reject at the index of an accepted delivery. -/
theorem not_peeked (rest : List M) :
    ((reader.decodeElements (index + 1) rest).2.1.head?.filter fun peeked => peeked.1 = index) =
      none := by
  rw [Option.filter_eq_none_iff]
  intro p hp hat
  have hle := le_of_mem_rejected reader (mem_of_mem_head? hp)
  have hindex := of_decide_eq_true hat
  omega

theorem length_rejected :
    (reader.decodeElements index batch).2.1.length + (batch.filter reader.accepts).length =
      batch.length := by
  induction batch generalizing index with
  | nil => rfl
  | cons msg rest ih =>
    have hrest := ih (index + 1)
    cases h : reader.read msg with
    | ok value =>
      rw [decodeElements_of_ok reader h, filter_cons_of_pos (accepts_of_ok reader h),
        length_cons, length_cons]
      dsimp only
      omega
    | error why =>
      have hrefused : ¬ reader.accepts msg = true := by
        rw [accepts_of_error reader h]
        exact Bool.false_ne_true
      rw [decodeElements_of_error reader h, filter_cons_of_neg hrefused, length_cons,
        length_cons]
      omega

/-- With no reject the batch is its accepted part. -/
theorem filter_accepts_of_no_rejected {batch : List M}
    (h : (reader.decodeElements 0 batch).2.1 = []) : batch.filter reader.accepts = batch := by
  have hlength := reader.length_rejected 0 batch
  rw [h, length_nil, Nat.zero_add] at hlength
  exact filter_sublist.eq_of_length hlength

end Reader

/-! ## The walks -/

section Walks

variable (reader : Reader M V E)

/-- The settlement of a reject. -/
def rejectElement : Element := .whole ⟨reader.policy.rejection, none, none⟩

theorem settleRejected_nil (index : ℕ) (batch : List M) :
    settleRejected (V := V) (E := E) index [] batch = ([], batch) := by
  induction batch generalizing index with
  | nil => rfl
  | cons msg rest ih =>
    rw [settleRejected]
    simp only [head?_nil, Option.filter_none, ih]

/-- The walk before the body settles the rejects in order and keeps the accepted deliveries. -/
theorem settleRejected_eq (index : ℕ) (batch : List M) :
    let walk : List (Effect M V E) × List M :=
      settleRejected index (reader.decodeElements index batch).2.1 batch
    settled walk.1 =
        (batch.filter fun msg => !reader.accepts msg).map (fun msg => (msg, rejectElement reader)) ∧
      bodies walk.1 = [] ∧ walk.2 = batch.filter reader.accepts := by
  induction batch generalizing index with
  | nil => exact ⟨rfl, rfl, rfl⟩
  | cons msg rest ih =>
    obtain ⟨hsettled, hbodies, hkept⟩ := ih (index + 1)
    cases h : reader.read msg with
    | ok value =>
      have haccepts := reader.accepts_of_ok h
      simp only [reader.decodeElements_of_ok h, settleRejected, reader.not_peeked index rest,
        filter_cons, haccepts, Bool.not_true, Bool.false_eq_true, if_false, if_true]
      exact ⟨hsettled, hbodies, congrArg _ hkept⟩
    | error why =>
      have hrefused := reader.accepts_of_error h
      simp only [reader.decodeElements_of_error h, settleRejected, head?_cons,
        Option.filter_some, decide_true, if_true, tail_cons, filter_cons, hrefused,
        Bool.not_false, Bool.false_eq_true, if_false, map_cons, settled_settleOutcome,
        bodies_settleOutcome]
      exact ⟨congrArg _ hsettled, hbodies, hkept⟩

/-- The `i`-th settlement still to be handed out. -/
def Settlements.nth : Settlements → ℕ → Element
  | outcomes, 0 => outcomes.next.1.getD (.whole .retry)
  | outcomes, i + 1 => outcomes.next.2.nth i

/-- The walk after the body settles each reject as remembered and the rest by what is handed out. -/
theorem settleSplit_eq (outcomes : Settlements) (index : ℕ) (batch : List M) :
    let walk : List (Effect M V E) :=
      settleSplit outcomes index (reader.decodeElements index batch).2.1 batch
    settled walk = assigned reader.accepts (rejectElement reader) outcomes.nth 0 batch ∧
      bodies walk = [] := by
  induction batch generalizing index outcomes with
  | nil => exact ⟨rfl, rfl⟩
  | cons msg rest ih =>
    cases h : reader.read msg with
    | ok value =>
      have haccepts := reader.accepts_of_ok h
      obtain ⟨hsettled, hbodies⟩ := ih outcomes.next.2 (index + 1)
      simp only [reader.decodeElements_of_ok h, settleSplit, reader.not_peeked index rest, assigned,
        haccepts, if_true, settled_append, bodies_append, settled_settleSlot, bodies_settleSlot,
        hsettled, hbodies]
      refine ⟨?_, rfl⟩
      have hshift := map_assigned reader.accepts id (rejectElement reader) outcomes.next.2.nth
        outcomes.nth 0 1 rest (by
          intro i _
          rw [Nat.zero_add, Nat.add_comm 1 i]
          rfl)
      rw [Prod.map_id, map_id] at hshift
      exact congrArg _ hshift
    | error why =>
      have hrefused := reader.accepts_of_error h
      obtain ⟨hsettled, hbodies⟩ := ih outcomes (index + 1)
      simp only [reader.decodeElements_of_error h, settleSplit, head?_cons, Option.filter_some,
        decide_true, if_true, tail_cons, assigned, hrefused, Bool.false_eq_true, if_false,
        settled_settleOutcome, bodies_settleOutcome, hsettled, hbodies]
      exact ⟨rfl, trivial⟩

end Walks

/-! ## The outcomes -/

section Outcomes

/-- Settlements seen by their status. -/
def statuses (settlements : List (M × Element)) : List (M × HandlerResult) :=
  settlements.map (Prod.map id Element.status)

@[simp] theorem statuses_cons (msg : M) (element : Element) (rest : List (M × Element)) :
    statuses ((msg, element) :: rest) = (msg, element.status) :: statuses rest := rfl

theorem UniformFan.settleAll_eq (fan : UniformFan) (accepted : List M) :
    statuses (settled (fan.settleAll (V := V) (E := E) accepted)) =
        accepted.map (fun msg => (msg, fan.status)) ∧
      bodies (fan.settleAll (V := V) (E := E) accepted) = [] := by
  induction accepted generalizing fan with
  | nil => exact ⟨rfl, rfl⟩
  | cons msg rest ih =>
    obtain ⟨hsettled, hbodies⟩ := ih (fan.slot rest.isEmpty).2
    obtain ⟨hstatus, hkept⟩ := fan.slot_status rest.isEmpty
    simp only [settleAll, settled_append, bodies_append, settled_settleSlot, bodies_settleSlot,
      singleton_append, statuses_cons, hsettled, hbodies, hstatus, hkept, map_cons,
      append_nil, and_self]

variable (b : Build)

variable (fanned : Bool)

theorem UniformFan.begin_silent (outcome : HandlerOutcome) (elements : ℕ) :
    settled (begin (M := M) (V := V) (E := E) b fanned outcome elements).1 = [] ∧
      bodies (begin (M := M) (V := V) (E := E) b fanned outcome elements).1 = [] := by
  unfold begin
  split
  · exact ⟨rfl, rfl⟩
  · exact ⟨rfl, rfl⟩
  · split_ifs <;> exact ⟨rfl, rfl⟩
  · exact ⟨rfl, rfl⟩

theorem HandlerOutcome.takeShared_status (outcome : HandlerOutcome) :
    outcome.takeShared.2.status = outcome.status := by
  unfold takeShared
  split <;> rfl

variable (outcomes : List HandlerOutcome)

/-- Sharing the `.error` touches no status. -/
theorem shareError_eq (elements : ℕ) :
    let shared : List (Effect M V E) × Option ℕ × List HandlerOutcome :=
      shareError b fanned outcomes elements
    settled shared.1 = [] ∧ bodies shared.1 = [] ∧
      shared.2.2.map HandlerOutcome.status = outcomes.map HandlerOutcome.status := by
  unfold shareError
  split
  next last hlast =>
    split
    next hshared =>
      have hstripped := last.takeShared_status
      rw [hshared] at hstripped
      have hwhole := dropLast_append_getLast? last hlast
      refine ⟨rfl, rfl, ?_⟩
      conv_rhs => rw [← hwhole]
      dsimp only at hstripped
      simp only [map_append, map_cons, map_nil, hstripped]
    next => exact ⟨rfl, rfl, rfl⟩
  next => exact ⟨rfl, rfl, rfl⟩

/-- Where no fan takes the `.error` off the outcomes they stay as the body returned them. -/
theorem shareError_of_not_fanned {b : Build} {fanned : Bool} (h : b = .alloc ∨ fanned = false)
    (outcomes : List HandlerOutcome) (elements : ℕ) :
    shareError (M := M) (V := V) (E := E) b fanned outcomes elements = ([], none, outcomes) := by
  rcases h with rfl | rfl
  · rfl
  · unfold shareError
    split
    next hfanned _ => cases hfanned
    next => rfl

theorem getD_status (outcomes outcomes' : List HandlerOutcome)
    (h : outcomes.map HandlerOutcome.status = outcomes'.map HandlerOutcome.status) (k : ℕ) :
    (outcomes.getD k .retry).status = (outcomes'.getD k .retry).status := by
  have hk := congrArg (fun statuses => statuses.getD k HandlerOutcome.retry.status) h
  rwa [getD_map, getD_map] at hk

theorem settleEach_eq (parts : Option ℕ) (outcomes : List HandlerOutcome) (accepted : List M) :
    statuses (settled (settleEach (V := V) (E := E) parts outcomes accepted)) =
        accepted.mapIdx (fun k msg => (msg, (outcomes.getD k .retry).status)) ∧
      bodies (settleEach (V := V) (E := E) parts outcomes accepted) = [] := by
  induction accepted generalizing parts outcomes with
  | nil => exact ⟨rfl, rfl⟩
  | cons msg rest ih =>
    obtain ⟨hsettled, hbodies⟩ :=
      ih (Element.of (outcomes.headD .retry) parts).2 outcomes.tail
    simp only [settleEach, settled_append, bodies_append, settled_settleSlot, bodies_settleSlot,
      singleton_append, statuses_cons, hsettled, hbodies, Element.status_of, mapIdx_cons,
      append_nil, and_true]
    cases outcomes with
    | nil => rfl
    | cons outcome outcomes => rfl

theorem settleEach_whole (accepted : List M) :
    settled (settleEach (V := V) (E := E) none outcomes accepted) =
      accepted.mapIdx (fun k msg => (msg, .whole (outcomes.getD k .retry))) := by
  induction accepted generalizing outcomes with
  | nil => rfl
  | cons msg rest ih =>
    simp only [settleEach, Element.of, settled_append, settled_settleSlot, singleton_append,
      ih outcomes.tail, mapIdx_cons]
    cases outcomes with
    | nil => rfl
    | cons outcome outcomes => rfl

/-- The `k`-th delivery behind a result is settled by its `k`-th outcome. -/
theorem settleBatch_eq (accepted : List M) (result : BatchResult) :
    statuses (settled (settleBatch (V := V) (E := E) b fanned accepted result)) =
        accepted.mapIdx (fun k msg => (msg, (result.kth k).status)) ∧
      bodies (settleBatch (V := V) (E := E) b fanned accepted result) = [] := by
  cases result with
  | uniform outcome =>
    have huniform : accepted.mapIdx
          (fun k msg => (msg, ((BatchResult.uniform outcome).kth k).status)) =
        accepted.map (fun msg => (msg, outcome.status)) := by
      refine ext_getElem? fun k => ?_
      rw [getElem?_mapIdx, getElem?_map]
      rfl
    rw [huniform]
    clear huniform
    cases herror : outcome.error with
    | some error =>
      obtain ⟨hbegun, hbegun'⟩ :=
        UniformFan.begin_silent (M := M) (V := V) (E := E) b fanned outcome accepted.length
      obtain ⟨hsettled, hbodies⟩ := UniformFan.settleAll_eq (V := V) (E := E)
        (UniformFan.begin (M := M) (V := V) (E := E) b fanned outcome accepted.length).2 accepted
      simp only [settleBatch, herror, settled_append, bodies_append, hbegun, hbegun', hsettled,
        hbodies, nil_append, UniformFan.begin_status, and_self]
    | none =>
      simp only [settleBatch, herror, settled_append, bodies_append, settled_detach, bodies_detach,
        append_nil]
      induction accepted with
      | nil => exact ⟨rfl, rfl⟩
      | cons msg rest ih =>
        obtain ⟨hsettled, hbodies⟩ := ih
        exact ⟨congrArg _ hsettled, hbodies⟩
  | perElement outcomes =>
    obtain ⟨hbegun, hbegun', hstatus⟩ :=
      shareError_eq (M := M) (V := V) (E := E) b fanned outcomes accepted.length
    obtain ⟨hsettled, hbodies⟩ := settleEach_eq (V := V) (E := E)
      (shareError (M := M) (V := V) (E := E) b fanned outcomes accepted.length).2.1
      (shareError (M := M) (V := V) (E := E) b fanned outcomes accepted.length).2.2 accepted
    simp only [settleBatch, settled_append, bodies_append, hbegun, hbegun', hsettled, hbodies,
      nil_append, and_true]
    simp only [getD_status _ _ hstatus]
    rfl

theorem settleBatch_whole {b : Build} {fanned : Bool} (h : b = .alloc ∨ fanned = false)
    (outcomes : List HandlerOutcome) (accepted : List M) :
    settled (settleBatch (V := V) (E := E) b fanned accepted (.perElement outcomes)) =
      accepted.mapIdx (fun k msg => (msg, .whole (outcomes.getD k .retry))) := by
  rw [settleBatch, shareError_of_not_fanned h]
  exact settleEach_whole outcomes accepted

/-- What is handed out to the accepted deliveries of a split batch has the statuses of the result. -/
theorem Settlements.nth_status (outcomes : Settlements) (i : ℕ) :
    (outcomes.nth i).status =
      match outcomes with
      | .uniform fan left => if i < left then fan.status else .retry
      | .each outcomes _ => (outcomes.getD i .retry).status := by
  induction i generalizing outcomes with
  | zero =>
    cases outcomes with
    | uniform fan left =>
      cases left with
      | zero => rfl
      | succ left => exact (fan.slot_status (left = 0)).1
    | each outcomes parts =>
      cases outcomes with
      | nil => rfl
      | cons outcome outcomes => exact Element.status_of outcome parts
  | succ i ih =>
    rw [nth, ih]
    cases outcomes with
    | uniform fan left =>
      cases left with
      | zero => rfl
      | succ left =>
        simp only [next, (fan.slot_status (left = 0)).2, Nat.succ_lt_succ_iff]
    | each outcomes parts =>
      cases outcomes with
      | nil => rfl
      | cons outcome outcomes => rfl

theorem Settlements.nth_each (i : ℕ) :
    (Settlements.each outcomes none).nth i = .whole (outcomes.getD i .retry) := by
  induction i generalizing outcomes with
  | zero => cases outcomes <;> rfl
  | succ i ih =>
    cases outcomes with
    | nil => exact ih []
    | cons outcome outcomes => exact ih outcomes

theorem Settlements.begin_eq (elements : ℕ) (result : BatchResult) :
    let begun : List (Effect M V E) × Settlements := begin b fanned elements result
    settled begun.1 = [] ∧ bodies begun.1 = [] ∧
      ∀ i < elements, (begun.2.nth i).status = (result.kth i).status := by
  cases result with
  | uniform outcome =>
    obtain ⟨hsettled, hbodies⟩ :=
      UniformFan.begin_silent (M := M) (V := V) (E := E) b fanned outcome elements
    refine ⟨hsettled, hbodies, ?_⟩
    intro i hi
    rw [nth_status]
    simp only [begin, hi, if_true, UniformFan.begin_status]
    rfl
  | perElement outcomes =>
    obtain ⟨hsettled, hbodies, hstatus⟩ :=
      shareError_eq (M := M) (V := V) (E := E) b fanned outcomes elements
    refine ⟨hsettled, hbodies, ?_⟩
    intro i _
    rw [nth_status]
    exact getD_status _ _ hstatus i

end Outcomes

/-! ## Both adapters -/

section Adapters

variable (b : Build) (fanned : Bool) (reader : Reader M V E) (body : List V → BatchResult)

/-- The values a batch gives the body. -/
def Reader.values (batch : List M) : List V := batch.filterMap reader.value?

/-- The body is called once with the values, unless there are none. -/
def calls (values : List V) : List (List V) := if values = [] then [] else [values]

/-- The adapter that settles its rejects first. -/
theorem typedBatch_eq (batch : List M) :
    let accepted := batch.filter reader.accepts
    let effects := typedBatch b fanned reader body batch
    bodies effects = calls (reader.values batch) ∧
      settled effects =
        (batch.filter fun msg => !reader.accepts msg).map (fun msg => (msg, rejectElement reader)) ++
          if accepted = [] then []
          else settled (settleBatch (V := V) (E := E) b fanned accepted (body (reader.values batch))) := by
  intro accepted effects
  have hvalues := reader.values_eq 0 batch
  obtain ⟨htorn, htorn'⟩ := reader.torn_silent 0 batch
  obtain ⟨hsettled, hbodies, hkept⟩ := settleRejected_eq reader 0 batch
  -- The walk is skipped where there is no reject; it would have done nothing.
  have hwalk : (if (reader.decodeElements 0 batch).2.1 = [] then ([], batch)
        else settleRejected (V := V) (E := E) 0 (reader.decodeElements 0 batch).2.1 batch) =
      settleRejected (V := V) (E := E) 0 (reader.decodeElements 0 batch).2.1 batch := by
    split_ifs with hnone
    · rw [hnone, settleRejected_nil]
    · rfl
  simp only [effects, typedBatch, hwalk, hvalues, settled_append, bodies_append, htorn, htorn',
    hsettled, hbodies, hkept, nil_append]
  by_cases hempty : accepted = []
  · have hvalueless := (reader.values_eq_nil_iff batch).mpr hempty
    simp only [accepted] at hempty
    simp only [accepted, hempty, if_true, calls, Reader.values, hvalueless, bodies_nil, settled_nil,
      and_self]
  · have hvalue := mt (reader.values_eq_nil_iff batch).mp hempty
    simp only [accepted] at hempty
    simp only [accepted, hempty, if_false, calls, Reader.values, hvalue, bodies_body, settled_body,
      (settleBatch_eq b fanned _ _).2, and_self]

/-- The adapter that settles its rejects on the way. Each settlement is seen through `f`, by which the
outcomes of the result are known. -/
theorem deserializedBatch_eq {α : Type} (f : Element → α) (kth : ℕ → α) (batch : List M)
    (hbatch : (settled (settleBatch (V := V) (E := E) b fanned batch (body (reader.values batch)))).map
      (Prod.map id f) = batch.mapIdx fun k msg => (msg, kth k))
    (hsplit : ∀ elements, ∀ i < elements,
      f ((Settlements.begin (M := M) (V := V) (E := E) b fanned elements
        (body (reader.values batch))).2.nth i) = kth i) :
    let effects := deserializedBatch b fanned reader body batch
    bodies effects = calls (reader.values batch) ∧
      (settled effects).map (Prod.map id f) =
        assigned reader.accepts (f (rejectElement reader)) kth 0 batch := by
  intro effects
  by_cases hbatchless : batch = []
  · subst hbatchless
    exact ⟨rfl, rfl⟩
  have hvalues : (reader.decodeElements 0 batch).1 = reader.values batch := reader.values_eq 0 batch
  obtain ⟨htorn, htorn'⟩ := reader.torn_silent 0 batch
  have hlength := reader.length_rejected 0 batch
  have helements : batch.length - (reader.decodeElements 0 batch).2.1.length =
      (batch.filter reader.accepts).length := by omega
  simp only [effects, deserializedBatch, hbatchless, if_false, hvalues, helements, settled_append,
    bodies_append, htorn, htorn', nil_append]
  by_cases hempty : reader.values batch = []
  · -- No value: every delivery is a reject, and no outcome is looked at.
    have hnone : (batch.filter reader.accepts).length = 0 := by
      rw [← reader.length_values]
      exact length_eq_zero_iff.mpr hempty
    have hrejected : (reader.decodeElements 0 batch).2.1 ≠ [] := by
      intro hnil
      rw [hnil, hnone] at hlength
      exact hbatchless (length_eq_zero_iff.mp hlength.symm)
    obtain ⟨hbegun, hbegun', -⟩ :=
      Settlements.begin_eq (M := M) (V := V) (E := E) b fanned 0 (.perElement [])
    simp only [hempty, if_true, hnone, hrejected, if_false, calls, settled_append, bodies_append,
      settled_nil, bodies_nil, hbegun, hbegun', settleSplit_eq, nil_append, true_and]
    refine map_assigned reader.accepts f _ _ kth 0 0 batch ?_
    intro i hi
    rw [hnone] at hi
    exact absurd hi (Nat.not_lt_zero i)
  · simp only [hempty, if_false, calls]
    by_cases hrejected : (reader.decodeElements 0 batch).2.1 = []
    · have hall := reader.filter_accepts_of_no_rejected hrejected
      simp only [hrejected, if_true, (settleBatch_eq b fanned _ _).2, settled_body, settled_nil,
        bodies_body, bodies_nil, append_nil, nil_append, true_and]
      rw [hbatch, assigned_of_accepts hall]
      simp only [Nat.zero_add]
    · obtain ⟨hbegun, hbegun', -⟩ := Settlements.begin_eq (M := M) (V := V) (E := E) b fanned
        (batch.filter reader.accepts).length (body (reader.values batch))
      simp only [hrejected, if_false, settled_append, bodies_append, settled_body, settled_nil,
        bodies_body, bodies_nil, hbegun, hbegun', settleSplit_eq, nil_append, append_nil,
        true_and]
      refine map_assigned reader.accepts f _ _ kth 0 0 batch ?_
      intro i hi
      rw [Nat.zero_add]
      exact hsplit _ i hi

/-- A batch is settled as assigned, whichever adapter handles it. The body is called once with the
values of the deliveries that can be read, in order, unless there are none. Every delivery of the batch
is settled once: one that cannot be read by the decode policy, the `k`-th one that can be read by the
`k`-th outcome, by a retry where there is none, and no outcome settles anything else. The adapter that
settles its rejects first settles them in order and then the rest in order; the other one settles the
batch in order. Where no fan gathers the batch, outcomes of their own are applied whole, with their
`.error` and their follow-up. -/
theorem batch_settlement_pairs (b : Build) (fanned : Bool) (reader : Reader M V E)
    (body : List V → BatchResult) (batch : List M) :
    let accepted := batch.filter reader.accepts
    let rejected := batch.filter fun msg => !reader.accepts msg
    let result := body (reader.values batch)
    let typed := typedBatch b fanned reader body batch
    let deserialized := deserializedBatch b fanned reader body batch
    (reader.values batch).map some = accepted.map reader.value? ∧
      bodies typed = calls (reader.values batch) ∧
      bodies deserialized = calls (reader.values batch) ∧
      statuses (settled typed) =
        rejected.map (fun msg => (msg, reader.policy.rejection)) ++
          accepted.mapIdx (fun k msg => (msg, (result.kth k).status)) ∧
      statuses (settled deserialized) =
        assigned reader.accepts reader.policy.rejection (fun k => (result.kth k).status) 0 batch ∧
      ((settled typed).map Prod.fst).Perm batch ∧
      (settled deserialized).map Prod.fst = batch ∧
      ∀ outcomes, result = .perElement outcomes → (b = .alloc ∨ fanned = false) →
        settled typed =
            rejected.map (fun msg => (msg, rejectElement reader)) ++
              accepted.mapIdx (fun k msg => (msg, .whole (outcomes.getD k .retry))) ∧
          settled deserialized =
            assigned reader.accepts (rejectElement reader)
              (fun k => .whole (outcomes.getD k .retry)) 0 batch := by
  intro accepted rejected result typed deserialized
  obtain ⟨hcalls, hsettled⟩ := typedBatch_eq b fanned reader body batch
  obtain ⟨hcalls', hsettled'⟩ := deserializedBatch_eq b fanned reader body Element.status
    (fun k => (result.kth k).status) batch (settleBatch_eq b fanned batch result).1
    (fun elements => (Settlements.begin_eq b fanned elements result).2.2)
  have htyped : statuses (settled typed) =
      rejected.map (fun msg => (msg, reader.policy.rejection)) ++
        accepted.mapIdx (fun k msg => (msg, (result.kth k).status)) := by
    rw [hsettled, statuses, List.map_append, List.map_map]
    congr 1
    split_ifs with hempty
    · rw [show accepted = [] from hempty]
      rfl
    · exact (settleBatch_eq b fanned accepted result).1
  have hmessages : ∀ settlements : List (M × Element),
      settlements.map Prod.fst = (statuses settlements).map Prod.fst := by
    intro settlements
    rw [statuses, List.map_map]
    rfl
  refine ⟨reader.map_some_values batch, hcalls, hcalls', htyped, hsettled', ?_, ?_, ?_⟩
  · rw [hmessages, htyped, List.map_append, List.map_map, map_fst_mapIdx]
    refine (List.perm_append_comm.trans ?_)
    rw [show (Prod.fst ∘ fun msg : M => (msg, reader.policy.rejection)) = id from rfl, List.map_id]
    exact List.filter_append_perm reader.accepts batch
  · rw [hmessages]
    exact (congrArg _ hsettled').trans (map_fst_assigned reader.accepts _ _ 0 batch)
  · intro outcomes hresult hplain
    have hresult' : body (reader.values batch) = .perElement outcomes := hresult
    constructor
    · rw [hsettled, hresult']
      congr 1
      split_ifs with hempty
      · rw [show accepted = [] from hempty]
        rfl
      · exact settleBatch_whole hplain outcomes accepted
    · have hwhole := (deserializedBatch_eq b fanned reader body id
        (fun k => .whole (outcomes.getD k .retry)) batch
        (by rw [hresult', Prod.map_id, List.map_id, settleBatch_whole hplain])
        (by
          intro elements i _
          rw [hresult', Settlements.begin, shareError_of_not_fanned hplain]
          exact Settlements.nth_each outcomes i)).2
      rwa [Prod.map_id, List.map_id] at hwhole

/-- Reads the even numbers and drops the odd ones. -/
def evens : Reader ℕ ℕ Unit where
  decodeError _ := none
  decode n := if n % 2 = 0 then .ok n else .error ()
  reason := "batch decode failed"
  policy := .drop

/-- A body that answers for its first value only. -/
def firstOnly : List ℕ → BatchResult := fun _ => .perElement [⟨.ack, some (.own 0), none⟩]

/-- Two rejects between two deliveries, with one outcome for both. -/
theorem batch_settlement_pairs_short :
    settled (typedBatch .alloc false evens firstOnly [1, 2, 3, 4]) =
        [(1, .whole ⟨.nack false, none, none⟩), (3, .whole ⟨.nack false, none, none⟩),
          (2, .whole ⟨.ack, some (.own 0), none⟩), (4, .whole .retry)] ∧
      settled (deserializedBatch .alloc false evens firstOnly [1, 2, 3, 4]) =
        [(1, .whole ⟨.nack false, none, none⟩), (2, .whole ⟨.ack, some (.own 0), none⟩),
          (3, .whole ⟨.nack false, none, none⟩), (4, .whole .retry)] := by
  obtain ⟨-, -, -, -, -, -, -, hwhole⟩ :=
    batch_settlement_pairs .alloc false evens firstOnly [1, 2, 3, 4]
  obtain ⟨htyped, hdeserialized⟩ := hwhole _ rfl (Or.inl rfl)
  refine ⟨htyped.trans ?_, hdeserialized.trans ?_⟩
  · decide
  · decide

end Adapters

end Batch

end RustStream
