import RustStream.Testing.Attribution

/-!
# Whose options a message gets

The broker took the recorded publishes in an order of its own, with others between that the harness never saw, and has
evicted some of the oldest since. The harness knows none of this. It knows the spans: a publish that had ended before
another began was taken before it. An answer is right if the options in it are those the message really went with.

Two things carry the argument, and both are about two orders of the same publishes, the broker's and the record's. A
record that is in the log although so many older records were evicted as there are before it was in flight with a
later one, so the candidates have everything the log has (`Reorder.drop_subperm`). And publishes no two of which were
in flight at once are in the same order in both (`Reorder.eq_of_uncrossed`).

Both take the record to be in an order the spans allow. That is the condition, and it is exact: where a record ended
before one that is listed earlier began, there are options for the two that get mixed up.

## Main definitions

* `Testing.History`: an order in which a broker may have taken the recorded publishes, with others between.
* `Testing.Owns`: the call answers, and no message gets the options of another.

## Main results

* `Testing.owns_of_inOrder`: no message does if the record is in order.
* `Testing.attributed_own_iff`: whatever was published, exactly then.
-/

namespace RustStream.Testing

open List

variable {V : Type}

/-- A message the broker took: of a publish in the record, or of one the harness never saw. -/
inductive Took (V : Type)
  | seen (entry : PublishedEntry V)
  | unseen (message : Payload)
  deriving DecidableEq

def Took.message : Took V → Payload
  | .seen entry => entry.message
  | .unseen message => message

def Took.entry? : Took V → Option (PublishedEntry V)
  | .seen entry => some entry
  | .unseen _ => none

/-- The recorded publishes among those the broker took. -/
def recordedOf (taken : List (Took V)) : List (PublishedEntry V) :=
  taken.filterMap Took.entry?

/-- The first may have been taken before the second: the second had not ended before it began. -/
def MayPrecede (one other : PublishedEntry V) : Prop :=
  one.span.started < other.span.finished

/-- The broker took the recorded publishes, in an order their spans allow. -/
structure History (records : List (PublishedEntry V)) (taken : List (Took V)) : Prop where
  recorded : (recordedOf taken).Perm records
  consistent : (recordedOf taken).Pairwise MayPrecede

/-- The call answers for every message in the log, and where it answers with options, the message went with them. -/
def Owns (records : List (PublishedEntry V)) (taken : List (Took V)) (evicted : ℕ) : Prop :=
  ∃ answers, attributeLog ((taken.drop evicted).map Took.message) records evicted = some answers
    ∧ answers.length = (taken.drop evicted).length
    ∧ ∀ (i : ℕ) (options : RecordedOptions V), answers[i]? = some (.recorded options) →
      ∃ entry, (taken.drop evicted)[i]? = some (.seen entry) ∧ entry.options = .recorded options

/-! ## Recorded publishes among those taken -/

section Recorded

variable {taken : List (Took V)} {records : List (PublishedEntry V)}

theorem length_recordedOf_le (taken : List (Took V)) : (recordedOf taken).length ≤ taken.length :=
  length_filterMap_le _ _

/-- If as many are recorded as were taken, all were. -/
theorem eq_map_seen (h : taken.length ≤ (recordedOf taken).length) : taken = (recordedOf taken).map Took.seen := by
  induction taken with
  | nil => rfl
  | cons took taken ih =>
    cases took with
    | seen entry =>
      have hcons : recordedOf (.seen entry :: taken) = entry :: recordedOf taken := rfl
      rw [hcons, length_cons, length_cons] at h
      rw [hcons, map_cons, ← ih (by omega)]
    | unseen message =>
      have hcons : recordedOf (.unseen message :: taken) = recordedOf taken := rfl
      have := length_recordedOf_le taken
      rw [hcons, length_cons] at h
      omega

theorem recordedOf_map_seen (records : List (PublishedEntry V)) : recordedOf (records.map Took.seen) = records := by
  rw [recordedOf, filterMap_map]
  exact filterMap_some

theorem recordedOf_filter (taken : List (Took V)) (payload : Payload) :
    recordedOf (taken.filter fun took => took.message = payload) = ofPayload (recordedOf taken) payload := by
  rw [recordedOf, ofPayload, recordedOf, filterMap_filter, filter_filterMap]
  refine filterMap_congr fun took _ => ?_
  cases took with
  | seen entry => rw [Took.entry?, Took.message, Option.filter_some]
  | unseen message => exact ite_self none

theorem count_message (taken : List (Took V)) (payload : Payload) :
    (taken.map Took.message).count payload = (taken.filter fun took => took.message = payload).length := by
  rw [List.count, countP_map, countP_eq_length_filter]
  exact congrArg List.length (filter_congr fun took _ => beq_eq_decide _ _)

end Recorded

/-! ## Spans -/

theorem overlaps_iff (one other : PublishedEntry V) :
    one.span.overlaps other.span = true ↔ MayPrecede one other ∧ MayPrecede other one := by
  rw [Span.overlaps, Bool.and_eq_true, decide_eq_true_eq, decide_eq_true_eq]
  rfl

theorem concurrent_eq_false_iff (records : List (PublishedEntry V)) :
    concurrent records = false ↔ records.Pairwise fun one other => ¬ (MayPrecede one other ∧ MayPrecede other one) := by
  induction records with
  | nil => exact ⟨fun _ => .nil, fun _ => rfl⟩
  | cons one rest ih =>
    rw [concurrent, Bool.or_eq_false_iff, ih, pairwise_cons, any_eq_false]
    exact and_congr_left fun _ => forall₂_congr fun other _ => not_congr (overlaps_iff one other)

/-! ## Answers are right -/

section Right

variable {left : List (Took V)} {candidates : List (PublishedEntry V)}

/-- **Answers from candidates are right** if what is recorded in the log is among them, in an order the spans allow on
both sides, and if a payload with as many candidates as messages has recorded messages only. -/
theorem right_of_candidates (hsub : (recordedOf left).Subperm candidates) (hleft : (recordedOf left).Pairwise MayPrecede)
    (hcandidates : candidates.Pairwise MayPrecede)
    (hwhole : ∀ payload, (left.map Took.message).count payload ≤ (ofPayload candidates payload).length →
      (left.map Took.message).count payload ≤ (ofPayload (recordedOf left) payload).length)
    {i : ℕ} {took : Took V} (hi : left[i]? = some took) {options : RecordedOptions V}
    (hanswer : answer (ofPayload candidates took.message) ((left.map Took.message).count took.message)
      (((left.map Took.message).take i).count took.message) = .recorded options) :
    ∃ entry, took = .seen entry ∧ entry.options = .recorded options := by
  have hsubPayload : (ofPayload (recordedOf left) took.message).Subperm (ofPayload candidates took.message) :=
    hsub.filter _
  -- all messages of the payload are recorded, as soon as there are candidates enough
  have hseen (htotal : (left.map Took.message).count took.message ≤ (ofPayload candidates took.message).length) :
      (left.filter fun other => other.message = took.message)
        = (ofPayload (recordedOf left) took.message).map Took.seen := by
    have hlength := hwhole took.message htotal
    rw [count_message, ← recordedOf_filter] at hlength
    rw [← recordedOf_filter]
    exact eq_map_seen hlength
  have hrank : (left.filter fun other => other.message = took.message)[((left.map Took.message).take i).count
      took.message]? = some took := by
    rw [← map_take, count_message, ← countP_eq_length_filter]
    exact Reorder.getElem?_filter_countP hi (decide_eq_true rfl)
  rw [answer.eq_def] at hanswer
  split at hanswer
  · cases hanswer
  · next earliest rest hcons =>
    split_ifs at hanswer with hpaired hsame
    · -- in order: the two lists of the payload are one
      have hperm := hsubPayload.perm_of_length_le (hpaired.1.trans_le (hwhole took.message hpaired.1.ge))
      have heq := Reorder.eq_of_uncrossed hperm (hleft.sublist filter_sublist)
        (hcandidates.sublist filter_sublist) ((concurrent_eq_false_iff _).mp hpaired.2)
      rw [hseen hpaired.1.ge, heq, getElem?_map] at hrank
      obtain ⟨entry, hentry, rfl⟩ := Option.map_eq_some_iff.mp hrank
      rw [hentry] at hanswer
      exact ⟨entry, rfl, hanswer⟩
    · -- all alike: it is one of them
      rw [hseen hsame.1] at hrank
      obtain ⟨entry, hentry, rfl⟩ := mem_map.mp (mem_of_getElem? hrank)
      refine ⟨entry, rfl, ?_⟩
      have hlike := all_eq_true.mp hsame.2 entry (hsubPayload.subset hentry)
      rw [PublishedEntry.options_eq_of_certainlySameAs hlike, hanswer]

end Right

section Owns

variable {records : List (PublishedEntry V)} {taken : List (Took V)} {evicted : ℕ}

theorem candidatesOf_sublist (dropped kept : List (PublishedEntry V)) :
    (candidatesOf dropped kept).Sublist (dropped ++ kept) :=
  filter_sublist.append_right kept

/-- What is recorded in the log is among the candidates. -/
theorem recordedOf_drop_subperm (hhistory : History records taken) (horder : records.Pairwise MayPrecede)
    (hcomplete : evicted = 0 ∨ records.length = taken.length) (hevicted : evicted ≤ taken.length) :
    (recordedOf (taken.drop evicted)).Subperm (candidatesOf (records.take evicted) (records.drop evicted)) := by
  rcases hcomplete with rfl | hlength
  · exact hhistory.recorded.subperm
  · have hall := @eq_map_seen _ taken (by rw [hhistory.recorded.length_eq, hlength])
    have hdrop : recordedOf (taken.drop evicted) = (recordedOf taken).drop evicted := by
      conv_lhs => rw [hall]
      rw [← map_drop, recordedOf_map_seen]
    have hearly : (records.take evicted).length = evicted := by
      rw [length_take, hlength, Nat.min_eq_left hevicted]
    have hsub := @Reorder.drop_subperm _ MayPrecede (recordedOf taken) (records.take evicted) (records.drop evicted)
      (fun one other => one.span.overlaps other.span)
      (fun one other hone hother => (overlaps_iff one other).mpr ⟨hone, hother⟩)
      (by rw [take_append_drop]; exact hhistory.recorded) hhistory.consistent
      (by rw [take_append_drop]; exact horder)
    rw [hearly] at hsub
    rw [hdrop]
    exact hsub

/-- Where the record may lack something, a payload with unseen messages has fewer candidates than messages. -/
theorem count_le_of_candidates (hhistory : History records taken)
    (hcomplete : evicted = 0 ∨ records.length = taken.length) (payload : Payload)
    (h : ((taken.drop evicted).map Took.message).count payload
      ≤ (ofPayload (candidatesOf (records.take evicted) (records.drop evicted)) payload).length) :
    ((taken.drop evicted).map Took.message).count payload
      ≤ (ofPayload (recordedOf (taken.drop evicted)) payload).length := by
  rcases hcomplete with rfl | hlength
  · have hperm : (ofPayload (recordedOf taken) payload).Perm (ofPayload records payload) := hhistory.recorded.filter _
    rw [drop_zero] at h ⊢
    rwa [hperm.length_eq]
  · have hall := @eq_map_seen _ taken (by rw [hhistory.recorded.length_eq, hlength])
    rw [count_message, ← recordedOf_filter]
    rw [hall, ← map_drop, filter_map, recordedOf_map_seen, length_map]

/-- **No message gets the options of another** if the record is in an order the spans allow. -/
theorem owns_of_inOrder (hhistory : History records taken) (horder : records.Pairwise MayPrecede)
    (hevicted : evicted ≤ taken.length) : Owns records taken evicted := by
  by_cases hcomplete : evicted = 0 ∨ records.length = evicted + ((taken.drop evicted).map Took.message).length
  · refine ⟨_, attributeLog_of_complete hcomplete, ?_, fun i options hi => ?_⟩
    · rw [length_mapIdx, length_map]
    · rw [length_map, length_drop, Nat.add_sub_cancel' hevicted] at hcomplete
      rw [getElem?_mapIdx, getElem?_map, Option.map_map] at hi
      obtain ⟨took, htook, hanswer⟩ := Option.map_eq_some_iff.mp hi
      rw [htook]
      obtain ⟨entry, rfl, hoptions⟩ := right_of_candidates
        (recordedOf_drop_subperm hhistory horder hcomplete hevicted)
        (hhistory.consistent.sublist ((drop_sublist _ _).filterMap _))
        ((take_append_drop evicted records ▸ horder).sublist (candidatesOf_sublist _ _))
        (count_le_of_candidates hhistory hcomplete) htook hanswer
      exact ⟨entry, rfl, hoptions⟩
  · have hpos : 0 < evicted := by omega
    obtain ⟨answers, hcall, hlength, hnone⟩ :=
      attributeLog_of_incomplete hpos fun heq => hcomplete (Or.inr heq)
    refine ⟨answers, hcall, hlength.trans (length_map _), fun i options hi => ?_⟩
    exact absurd (mem_of_getElem? hi) (hnone options)

end Owns

/-! ## Otherwise they get mixed up -/

section Mixed

variable {spans : List Span}

/-- Two spans out of order, where there are any. -/
theorem exists_crossed (h : ¬ spans.Pairwise fun one other => one.started < other.finished) :
    ∃ before one between other after, spans = before ++ one :: (between ++ other :: after)
      ∧ other.finished ≤ one.started := by
  rw [pairwise_iff_forall_sublist] at h
  push Not at h
  obtain ⟨one, other, hsub, hle⟩ := h
  obtain ⟨front, back, hspans, hone, hback⟩ := cons_sublist_iff.mp hsub
  obtain ⟨before, middle, rfl⟩ := append_of_mem hone
  obtain ⟨middle', after, rfl⟩ := append_of_mem (singleton_sublist.mp hback)
  refine ⟨before, one, middle ++ middle', other, after, ?_, hle⟩
  rw [hspans]
  simp

/-- A publish of the runtime with one option set. -/
def carrying (message : Payload) (value : V) (span : Span) : PublishedEntry V :=
  .runtime { message, options := { typeName := "Options", value := some value }, span }

/-- Publishes with the given spans, two of them with the same bytes and options of their own. -/
def twins (value value' : V) (before : List Span) (one : Span) (between : List Span) (other : Span) (after : List Span) :
    List (PublishedEntry V) :=
  before.map (carrying [1] value) ++ carrying [0] value one
    :: (between.map (carrying [1] value) ++ carrying [0] value' other :: after.map (carrying [1] value))

theorem ofPayload_twins (value value' : V) (before : List Span) (one : Span) (between : List Span) (other : Span)
    (after : List Span) :
    ofPayload (twins value value' before one between other after) [0] = [carrying [0] value one, carrying [0] value' other] := by
  have hnone (spans : List Span) : ofPayload (spans.map (carrying [1] value)) [0] = [] := by
    refine filter_eq_nil_iff.mpr fun entry hentry => ?_
    obtain ⟨span, -, rfl⟩ := mem_map.mp hentry
    exact Bool.false_ne_true
  have hcons (value : V) (span : Span) (rest : List (PublishedEntry V)) :
      ofPayload (carrying [0] value span :: rest) [0] = carrying [0] value span :: ofPayload rest [0] := rfl
  have happend (front back : List (PublishedEntry V)) :
      ofPayload (front ++ back) [0] = ofPayload front [0] ++ ofPayload back [0] := filter_append _ _
  rw [twins, happend, hcons, happend, hcons, hnone, hnone, hnone]
  rfl

theorem span_twins (value value' : V) (before : List Span) (one : Span) (between : List Span) (other : Span)
    (after : List Span) :
    (twins value value' before one between other after).map PublishedEntry.span
      = before ++ one :: (between ++ other :: after) := by
  have hspans (spans : List Span) : (spans.map (carrying [1] value)).map PublishedEntry.span = spans := by
    rw [map_map]
    exact map_id spans
  rw [twins, map_append, map_cons, map_append, map_cons, hspans, hspans, hspans]
  rfl

/-- There is always an order the spans allow: that of their beginnings. -/
theorem exists_order {records : List (PublishedEntry V)}
    (h : ∀ record ∈ records, record.span.started < record.span.finished) :
    ∃ order : List (PublishedEntry V), order.Perm records ∧ order.Pairwise MayPrecede := by
  refine ⟨records.mergeSort fun one other => one.span.started ≤ other.span.started, mergeSort_perm _ _, ?_⟩
  have hsorted := @List.pairwise_mergeSort _ (fun one other : PublishedEntry V => one.span.started ≤ other.span.started)
    (fun one other third hone hother => by
      rw [decide_eq_true_eq] at *
      exact hone.trans hother)
    (fun one other => by
      rw [Bool.or_eq_true, decide_eq_true_eq, decide_eq_true_eq]
      exact le_total _ _) records
  refine hsorted.imp_of_mem fun {one other} _ hother hle => ?_
  exact (of_decide_eq_true hle).trans_lt (h other ((mergeSort_perm _ _).mem_iff.mp hother))

/-- Two publishes of one payload that are listed in the wrong order get each other's options. -/
theorem not_owns_of_crossed {records order : List (PublishedEntry V)} {one other : Span} {value value' : V}
    (hvalues : value ≠ value') (hone : one.started < one.finished) (hother : other.started < other.finished)
    (hcrossed : other.finished ≤ one.started)
    (hpayload : ofPayload records [0] = [carrying [0] value one, carrying [0] value' other])
    (hperm : order.Perm records) (horder : order.Pairwise MayPrecede) : ¬ Owns records (order.map Took.seen) 0 := by
  rintro ⟨answers, hcall, -, howns⟩
  have htaken : ofPayload order [0] = [carrying [0] value' other, carrying [0] value one] := by
    have hpayloadPerm : (ofPayload order [0]).Perm [carrying [0] value' other, carrying [0] value one] := by
      have hfilter : (ofPayload order [0]).Perm (ofPayload records [0]) := hperm.filter _
      rw [hpayload] at hfilter
      exact hfilter.trans (List.Perm.swap _ _ _)
    refine Reorder.eq_of_uncrossed hpayloadPerm (horder.sublist filter_sublist) ?_ ?_
    · refine pairwise_pair.mpr ?_
      show other.started < one.finished
      omega
    · refine pairwise_pair.mpr fun hboth => ?_
      have hback : one.started < other.finished := hboth.2
      omega
  have hfiltered : ((order.map Took.seen).filter fun took => took.message = [0])
      = [Took.seen (carrying [0] value' other), Took.seen (carrying [0] value one)] := by
    rw [filter_map]
    exact congrArg (List.map Took.seen) htaken
  -- the first of the payload in the log is the second in the record
  obtain ⟨front, back, hsplit, hnone, -, -⟩ := filter_eq_cons_iff.mp hfiltered
  have hi : (order.map Took.seen)[front.length]? = some (Took.seen (carrying [0] value' other)) := by
    rw [hsplit, getElem?_append_right le_rfl, Nat.sub_self]
    rfl
  have hrank : (((order.map Took.seen).map Took.message).take front.length).count [0] = 0 := by
    rw [← map_take, hsplit, take_left, count_message, length_eq_zero_iff, filter_eq_nil_iff]
    exact hnone
  have htotal : ((order.map Took.seen).map Took.message).count [0] = 2 := by
    rw [count_message, hfiltered]
    rfl
  have hconcurrent : concurrent [carrying [0] value one, carrying [0] value' other] = false := by
    refine (concurrent_eq_false_iff _).mpr (pairwise_pair.mpr fun hboth => ?_)
    have hback : one.started < other.finished := hboth.1
    omega
  have hanswer : answers[front.length]? = some (.recorded { typeName := "Options", value := some value }) := by
    rw [drop_zero, attributeLog_of_complete (Or.inl rfl)] at hcall
    obtain rfl := Option.some.inj hcall
    rw [getElem?_mapIdx, getElem?_map, hi, Option.map_some, Option.map_some]
    show some (answer (ofPayload records [0]) _ _) = _
    rw [show (Took.seen (carrying [0] value' other)).message = [0] from rfl, hrank, htotal, hpayload, answer,
      if_pos ⟨rfl, hconcurrent⟩]
    rfl
  obtain ⟨entry, hentry, hoptions⟩ := howns _ _ hanswer
  rw [drop_zero, hi] at hentry
  cases hentry
  cases hoptions
  exact hvalues rfl

end Mixed

/-- **No message gets the options of another, whatever was published and in whatever order the broker took it**, exactly
if the record is in an order the spans allow. -/
theorem attributed_own_iff [Nontrivial V] {spans : List Span} (hspans : ∀ span ∈ spans, span.started < span.finished) :
    (∀ records : List (PublishedEntry V), records.map PublishedEntry.span = spans →
      ∀ taken, History records taken → ∀ evicted ≤ taken.length, Owns records taken evicted)
      ↔ spans.Pairwise fun one other => one.started < other.finished := by
  constructor
  · intro h
    by_contra hcrossed
    obtain ⟨before, one, between, other, after, rfl, hle⟩ := exists_crossed hcrossed
    obtain ⟨value, value', hvalues⟩ := exists_pair_ne V
    have hmap := span_twins value value' before one between other after
    obtain ⟨order, hperm, horder⟩ := exists_order fun record hrecord => hspans record.span (by
      rw [← hmap]
      exact List.mem_map_of_mem hrecord)
    refine not_owns_of_crossed hvalues (hspans one (by simp)) (hspans other (by simp)) hle
      (ofPayload_twins value value' before one between other after) hperm horder ?_
    refine h _ hmap _ ⟨?_, ?_⟩ 0 (Nat.zero_le _)
    · rw [recordedOf_map_seen]
      exact hperm
    · rw [recordedOf_map_seen]
      exact horder
  · intro horder records hrecords taken hhistory evicted hevicted
    refine owns_of_inOrder hhistory ?_ hevicted
    rw [← hrecords, List.pairwise_map] at horder
    exact horder

/-- Two publishes that were in flight at once are in order whichever is listed first. -/
theorem attributed_own_iff_overlapping :
    (∀ records : List (PublishedEntry ℕ), records.map PublishedEntry.span = [⟨1, 2⟩, ⟨0, 3⟩] →
      ∀ taken, History records taken → ∀ evicted ≤ taken.length, Owns records taken evicted)
      ↔ [(⟨1, 2⟩ : Span), ⟨0, 3⟩].Pairwise fun one other => one.started < other.finished :=
  attributed_own_iff (by decide)

end RustStream.Testing
