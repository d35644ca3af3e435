import RustStream.Memory.LocalBus

/-!
# Chains of copies

A copy is made from a delivery and delivered in turn, and may be copied again. The count of copies
is whatever number the first header of the chain carries, one more with each copy, so it is read
from the wire and grows from there. Three places add to it: the attempt number, the count written on
a copy, and the bus that starts its own count from the header. The first two add in the arithmetic
of the integer type, the bus saturates.

`chain_counts_up_iff` says exactly when nothing wraps: when the count at the head of the chain plus
the number of copies stays below the largest 64-bit number.

## Main definitions

* `CopyOf`: one delivery is the copy of another.
* `CountsUp`: no number wraps along a chain and none decreases.

## Main results

* `currentRetryCount_of_isChain`: the count along a chain.
* `chain_counts_up_iff`: when a chain counts up.
-/

namespace RustStream

open List

variable {b : Build}

/-- The headers of a delivery that came from a copy of the other: its retry count is the one the
runtime wrote. -/
def CopyOf (headers headers' : Headers b) : Prop :=
  ∃ sent, counted headers = some sent ∧
    headers'.get retryCountHeader = sent.get retryCountHeader

theorem CopyOf.count_eq {headers headers' : Headers b} (h : CopyOf headers headers') :
    currentRetryCount headers' = currentRetryCount headers + 1 := by
  obtain ⟨sent, hsent, hget⟩ := h
  rw [currentRetryCount_congr hget]
  exact currentRetryCount_counted hsent

/-- A delivery with these headers on a transport that counts nothing. -/
def uncounted (headers : Headers b) : Message b where
  payload := []
  headers := headers
  redeliveryCount := none
  supportsNackAfter := false
  answer := fun _ => .ok ()

/-- The largest 64-bit count. -/
def u64Max : ℕ := u64Bound - 1

/-- No number is computed with a wrap along the chain: the attempt of each delivery is one more than
its count, each count is larger than those before it or the largest there is, and no attempt, read
from the header or by the bus, is smaller than one before it. -/
structure CountsUp (chain : List (Headers b)) : Prop where
  exact : ∀ headers ∈ chain,
    (attemptOf (uncounted headers)).toNat = (currentRetryCount headers).toNat + 1
  counts : chain.Pairwise fun headers headers' =>
    currentRetryCount headers < currentRetryCount headers' ∨
      (currentRetryCount headers').toNat = u64Max
  attempts : chain.Pairwise fun headers headers' =>
    attemptOf (uncounted headers) ≤ attemptOf (uncounted headers')
  onBus : chain.Pairwise fun headers headers' =>
    (deliveryCountOf headers).get ≤ (deliveryCountOf headers').get

section Chain

variable {headers : Headers b} {copies : List (Headers b)}

/-- Along a chain that does not reach the end of the type the count goes up one by one. -/
theorem currentRetryCount_of_isChain (hchain : (headers :: copies).IsChain CopyOf)
    (hbound : (currentRetryCount headers).toNat + copies.length < u64Bound) {j : ℕ}
    {headers' : Headers b} (hj : (headers :: copies)[j]? = some headers') :
    (currentRetryCount headers').toNat = (currentRetryCount headers).toNat + j := by
  induction copies generalizing headers j with
  | nil =>
    cases j with
    | zero =>
      cases hj
      rfl
    | succ j => simp at hj
  | cons copy copies ih =>
    rw [isChain_cons_cons] at hchain
    obtain ⟨hcopy, hchain⟩ := hchain
    rw [length_cons] at hbound
    have hcount : (currentRetryCount copy).toNat = (currentRetryCount headers).toNat + 1 := by
      rw [hcopy.count_eq]
      exact toNat_add_of_lt (show (currentRetryCount headers).toNat + 1 < u64Bound by omega)
    cases j with
    | zero =>
      cases hj
      rfl
    | succ j =>
      rw [getElem?_cons_succ] at hj
      rw [ih hchain (by omega) hj, hcount]
      omega

theorem toNat_attemptOf_uncounted (h : (currentRetryCount headers).toNat < u64Max) :
    (attemptOf (uncounted headers)).toNat = (currentRetryCount headers).toNat + 1 := by
  have hbound : (currentRetryCount headers).toNat + 1 < u64Bound := by
    unfold u64Max at h
    omega
  exact toNat_add_of_lt hbound

/-- The attempt number is exact only below the largest count. -/
theorem lt_u64Max_of_exact
    (h : (attemptOf (uncounted headers)).toNat = (currentRetryCount headers).toNat + 1) :
    (currentRetryCount headers).toNat < u64Max := by
  have hlt : (attemptOf (uncounted headers)).toNat < u64Bound :=
    (attemptOf (uncounted headers)).toNat_lt
  unfold u64Max
  omega

/-- The bus's count never falls behind the count it reads. -/
theorem deliveryCountOf_le {headers' : Headers b}
    (h : (currentRetryCount headers).toNat ≤ (currentRetryCount headers').toNat) :
    (deliveryCountOf headers).get ≤ (deliveryCountOf headers').get := by
  rw [UInt64.le_iff_toNat_le, deliveryCountOf_eq, deliveryCountOf_eq,
    NonZeroU64.toNat_saturatingAdd, NonZeroU64.toNat_saturatingAdd]
  exact min_le_min_right _ (Nat.add_le_add_left h _)

/-- Exact attempts keep the whole chain below the end of the type. -/
theorem lt_u64Max_of_chain (hchain : (headers :: copies).IsChain CopyOf)
    (hexact : ∀ h ∈ headers :: copies,
      (attemptOf (uncounted h)).toNat = (currentRetryCount h).toNat + 1) :
    (currentRetryCount headers).toNat + copies.length < u64Max := by
  induction copies generalizing headers with
  | nil => exact lt_u64Max_of_exact (hexact headers mem_cons_self)
  | cons copy copies ih =>
    rw [isChain_cons_cons] at hchain
    obtain ⟨hcopy, hchain⟩ := hchain
    have hhead := lt_u64Max_of_exact (hexact headers mem_cons_self)
    have htail := ih hchain fun h hmem => hexact h (mem_cons_of_mem _ hmem)
    -- the attempt number of a delivery is the count its copy carries
    have hcount : (currentRetryCount copy).toNat = (currentRetryCount headers).toNat + 1 := by
      rw [hcopy.count_eq]
      exact toNat_attemptOf_uncounted hhead
    rw [length_cons]
    omega

end Chain

/-- **When a chain of copies counts up.** For every retry-count header a delivery can arrive with,
and every chain of copies made from it, no attempt number or count wraps, each copy's count is
larger than the one before it or saturated, and no attempt number decreases, exactly when the
arriving count and the number of copies together stay below the largest 64-bit number. -/
theorem chain_counts_up_iff (headers : Headers b) (copies : List (Headers b))
    (hchain : (headers :: copies).IsChain CopyOf) :
    CountsUp (headers :: copies) ↔
      (currentRetryCount headers).toNat + copies.length < u64Max := by
  refine ⟨fun h => lt_u64Max_of_chain hchain h.exact, fun hbound => ?_⟩
  have hcount : ∀ j headers', (headers :: copies)[j]? = some headers' →
      (currentRetryCount headers').toNat = (currentRetryCount headers).toNat + j ∧
        (currentRetryCount headers').toNat < u64Max := by
    intro j headers' hj
    have hlt : j < (headers :: copies).length := (List.getElem?_eq_some_iff.mp hj).1
    have hj' := currentRetryCount_of_isChain hchain (by unfold u64Max at hbound; omega) hj
    rw [List.length_cons] at hlt
    exact ⟨hj', by omega⟩
  have hpair : (headers :: copies).Pairwise fun headers headers' =>
      (currentRetryCount headers).toNat < (currentRetryCount headers').toNat ∧
        (currentRetryCount headers').toNat < u64Max := by
    rw [List.pairwise_iff_getElem]
    intro i j hi hj hij
    obtain ⟨hcount_i, -⟩ := hcount i _ (List.getElem?_eq_getElem hi)
    obtain ⟨hcount_j, hlt_j⟩ := hcount j _ (List.getElem?_eq_getElem hj)
    exact ⟨by omega, hlt_j⟩
  constructor
  · intro headers' hmem
    obtain ⟨j, hj⟩ := List.mem_iff_getElem?.mp hmem
    exact toNat_attemptOf_uncounted (hcount j headers' hj).2
  · exact hpair.imp fun h => Or.inl (UInt64.lt_iff_toNat_lt.mpr h.1)
  · refine hpair.imp fun {h h'} hlt => ?_
    rw [UInt64.le_iff_toNat_le, toNat_attemptOf_uncounted hlt.2,
      toNat_attemptOf_uncounted (hlt.1.trans hlt.2)]
    omega
  · exact hpair.imp fun h => deliveryCountOf_le h.1.le

/-- Headers that arrive with the given text as their retry count. -/
def arriving (text : String) : Headers .alloc :=
  HeaderMap.insert HeaderMap.new retryCountHeader (ascii text)

/-- The headers of the copy of a delivery, on the heap. -/
def copied (headers : Headers .alloc) : Headers .alloc :=
  HeaderMap.insert headers retryCountHeader (countText (currentRetryCount headers + 1))

theorem copyOf_copied (headers : Headers .alloc) : CopyOf headers (copied headers) :=
  ⟨copied headers, counted_alloc headers, rfl⟩

theorem chain_counts_up_from_seven :
    CountsUp [arriving "7", copied (arriving "7"), copied (copied (arriving "7"))] := by
  refine (chain_counts_up_iff (arriving "7") [copied (arriving "7"), copied (copied (arriving "7"))]
    ?_).mpr (by decide +kernel)
  rw [List.isChain_cons_cons, List.isChain_cons_cons]
  exact ⟨copyOf_copied _, copyOf_copied _, List.isChain_singleton _⟩

theorem largest_count_wraps :
    (currentRetryCount (arriving "18446744073709551615")).toNat = u64Max ∧
      [arriving "18446744073709551615", copied (arriving "18446744073709551615")].IsChain CopyOf ∧
      attemptOf (uncounted (arriving "18446744073709551615")) = 0 ∧
      currentRetryCount (copied (arriving "18446744073709551615")) = 0 ∧
      (deliveryCountOf (copied (arriving "18446744073709551615"))).get = 1 ∧
      ¬CountsUp [arriving "18446744073709551615", copied (arriving "18446744073709551615")] := by
  have hmax : (currentRetryCount (arriving "18446744073709551615")).toNat = u64Max := by
    decide +kernel
  have hattempt : attemptOf (uncounted (arriving "18446744073709551615")) = 0 := by
    decide +kernel
  refine ⟨hmax, ?_, hattempt, by decide +kernel, by decide +kernel, fun h => ?_⟩
  · rw [List.isChain_cons_cons]
    exact ⟨copyOf_copied _, List.isChain_singleton _⟩
  · have hexact := h.exact _ List.mem_cons_self
    rw [hattempt, hmax] at hexact
    cases hexact

end RustStream
