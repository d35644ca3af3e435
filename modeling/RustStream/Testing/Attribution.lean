import RustStream.Lib.Reorder

/-!
# Which options a message was published with

The per-message options of a publish are known where the runtime hands the message to a broker's publisher, and a
broker's publish log does not have them. The test harness copies them at the hand-over, with the message and with two
readings of its clock, one before the broker takes the message and one after, and matches the log with the copies when
a test asks: by payload, since a broker's publisher may add headers, and among those of one payload by order, where the
clock says that there is only one.

The functions are those of the harness. A read or a write out of range, which ends the call in a panic there, is no
answer here.

## Main definitions

* `Testing.attributeLog`: the options of the messages in a log.
* `Testing.answer`: the options of one message, from the records of its payload alone.

## Main results

* `Testing.pairByPayload_eq`: what the loop over the log answers for each message.
* `Testing.attributeLog_of_complete`, `Testing.attributeLog_of_incomplete`: the call answers, and what.
* `Testing.isSome_attributeLog`: it always answers.
-/

namespace RustStream.Testing

open List

variable {V : Type}

/-- The bytes of a message. -/
abbrev Payload :=
  List UInt8

/-- The options a publish carried, as the broker's own type of the given name; none if no step set any. -/
structure RecordedOptions (V : Type) where
  typeName : String
  value : Option V
  deriving DecidableEq

/-- Values cannot be compared, so only two publishes without any are known to be alike. -/
def RecordedOptions.certainlySameAs (one other : RecordedOptions V) : Bool :=
  one.typeName = other.typeName && one.value.isNone && other.value.isNone

/-- The clock as the message was captured, and once the broker took it. -/
structure Span where
  started : ℕ
  finished : ℕ
  deriving DecidableEq

/-- Whether two hand-overs ran at the same time. -/
def Span.overlaps (one other : Span) : Bool :=
  one.started < other.finished && other.started < one.finished

/-- A publish the runtime handed to a broker. -/
structure RuntimePublish (V : Type) where
  message : Payload
  options : RecordedOptions V
  span : Span
  deriving DecidableEq

/-- A publish in the harness's record: the test's own, or one of the runtime. -/
inductive PublishedEntry (V : Type)
  | test (message : Payload) (span : Span)
  | runtime (publish : RuntimePublish V)
  deriving DecidableEq

/-- What the harness knows about the options of a message in a log. -/
inductive MessageOptions (V : Type)
  | recorded (options : RecordedOptions V)
  | unrecorded
  | ambiguous
  deriving DecidableEq

namespace PublishedEntry

def message : PublishedEntry V → Payload
  | .test message _ => message
  | .runtime publish => publish.message

def span : PublishedEntry V → Span
  | .test _ span => span
  | .runtime publish => publish.span

def options : PublishedEntry V → MessageOptions V
  | .test _ _ => .unrecorded
  | .runtime publish => .recorded publish.options

def certainlySameAs : PublishedEntry V → PublishedEntry V → Bool
  | .test _ _, .test _ _ => true
  | .runtime one, .runtime other => one.options.certainlySameAs other.options
  | _, _ => false

theorem options_eq_of_certainlySameAs {one other : PublishedEntry V} (h : one.certainlySameAs other = true) :
    one.options = other.options := by
  cases one with
  | test message span =>
    cases other with
    | test message' span' => rfl
    | runtime publish => cases h
  | runtime publish =>
    cases other with
    | test message' span' => cases h
    | runtime publish' =>
      obtain ⟨message, ⟨typeName, value⟩, span⟩ := publish
      obtain ⟨message', ⟨typeName', value'⟩, span'⟩ := publish'
      rw [certainlySameAs, RecordedOptions.certainlySameAs, Bool.and_eq_true, Bool.and_eq_true, decide_eq_true_eq,
        Option.isNone_iff_eq_none, Option.isNone_iff_eq_none] at h
      obtain ⟨⟨rfl, rfl⟩, rfl⟩ := h
      rfl

end PublishedEntry

/-! ## The call -/

/-- A write to a place of a list; none out of range. -/
def write {α : Type} (list : List α) (place : ℕ × α) : Option (List α) :=
  if place.1 < list.length then some (list.set place.1 place.2) else none

/-- Whether two of the publishes, one after the other in the record, were in flight at once. -/
def concurrent : List (PublishedEntry V) → Bool
  | [] => false
  | one :: rest => rest.any (fun other => one.span.overlaps other.span) || concurrent rest

/-- The options of the messages of one payload, at the given places of the log. -/
def pairOne (inLog : List ℕ) (candidates : List (PublishedEntry V)) (attributed : List (MessageOptions V)) :
    Option (List (MessageOptions V)) :=
  match candidates with
  | [] => some attributed
  | earliest :: _ =>
    if candidates.length = inLog.length ∧ concurrent candidates = false then
      ((inLog.zip candidates).map fun pair => (pair.1, pair.2.options)).foldlM write attributed
    else if inLog.length ≤ candidates.length ∧ candidates.all (fun record => record.certainlySameAs earliest) = true then
      (inLog.map fun index => (index, earliest.options)).foldlM write attributed
    else
      (inLog.map fun index => (index, .ambiguous)).foldlM write attributed

/-- What the loop over a log has answered, and the places it is through with. -/
structure Pairing (V : Type) where
  attributed : List (MessageOptions V)
  seen : List Bool

/-- One round of the loop: all messages with the payload of the first one that is not seen. -/
def pairAt (log : List Payload) (records : List (PublishedEntry V)) (pairing : Pairing V) (first : ℕ) :
    Option (Pairing V) := do
  if ← pairing.seen[first]? then
    return pairing
  let payload ← log[first]?
  let inLog := (List.range' first (log.length - first)).filter fun index => log[index]? = some payload
  let seen ← (inLog.map fun index => (index, true)).foldlM write pairing.seen
  let attributed ← pairOne inLog (records.filter fun record => record.message = payload) pairing.attributed
  return { attributed, seen }

/-- Each message of the log with the records of its payload. -/
def pairByPayload (log : List Payload) (records : List (PublishedEntry V)) : Option (List (MessageOptions V)) := do
  let pairing ← (List.range log.length).foldlM (pairAt log records)
    { attributed := List.replicate log.length .unrecorded, seen := List.replicate log.length false }
  return pairing.attributed

/-- The list in two parts; none out of range. -/
def splitAt? {α : Type} (list : List α) (place : ℕ) : Option (List α × List α) :=
  if place ≤ list.length then some (list.take place, list.drop place) else none

/-- The dropped records that were in flight with a kept one, and the kept. -/
def candidatesOf (dropped kept : List (PublishedEntry V)) : List (PublishedEntry V) :=
  dropped.filter (fun one => kept.any fun other => one.span.overlaps other.span) ++ kept

/-- The options of the messages in a log from whose front the broker has evicted so many. -/
def attributeLog (log : List Payload) (records : List (PublishedEntry V)) (evicted : ℕ) :
    Option (List (MessageOptions V)) :=
  if 0 < evicted ∧ records.length ≠ evicted + log.length then
    some (log.map fun payload => if records.any fun record => record.message = payload then .ambiguous else .unrecorded)
  else do
    let (dropped, kept) ← splitAt? records evicted
    pairByPayload log (candidatesOf dropped kept)

/-! ## Writes -/

/-- Writes in range are made, each of the last one to its place. -/
theorem foldlM_write {α : Type} {places : List (ℕ × α)} {list : List α} (hnodup : (places.map Prod.fst).Nodup)
    (hrange : ∀ place ∈ places, place.1 < list.length) :
    ∃ written, places.foldlM write list = some written ∧ written.length = list.length
      ∧ (∀ place ∈ places, written[place.1]? = some place.2)
      ∧ ∀ i, i ∉ places.map Prod.fst → written[i]? = list[i]? := by
  induction places generalizing list with
  | nil => exact ⟨list, rfl, rfl, fun _ h => absurd h not_mem_nil, fun _ _ => rfl⟩
  | cons place places ih =>
    rw [map_cons, nodup_cons] at hnodup
    have hplace := hrange place mem_cons_self
    obtain ⟨written, hfold, hlength, hwritten, hkept⟩ := @ih (list.set place.1 place.2) hnodup.2 fun other hother => by
      rw [length_set]
      exact hrange other (mem_cons_of_mem _ hother)
    refine ⟨written, ?_, hlength.trans length_set, ?_, ?_⟩
    · rw [foldlM_cons, write, if_pos hplace]
      exact hfold
    · refine forall_mem_cons.mpr ⟨?_, hwritten⟩
      rw [hkept _ hnodup.1, getElem?_set_self hplace]
    · intro i hi
      rw [map_cons, mem_cons, not_or] at hi
      rw [hkept i hi.2, getElem?_set_ne (Ne.symm hi.1)]

/-! ## What the loop answers -/

/-- The options of the message of a payload that has so many of its payload before it, from the candidates of the
payload and the number of its messages in the log. -/
def answer (candidates : List (PublishedEntry V)) (total rank : ℕ) : MessageOptions V :=
  match candidates with
  | [] => .unrecorded
  | earliest :: _ =>
    if candidates.length = total ∧ concurrent candidates = false then
      (candidates[rank]?.map PublishedEntry.options).getD .unrecorded
    else if total ≤ candidates.length ∧ candidates.all (fun record => record.certainlySameAs earliest) = true then
      earliest.options
    else .ambiguous

/-- The records of one payload. -/
def ofPayload (records : List (PublishedEntry V)) (payload : Payload) : List (PublishedEntry V) :=
  records.filter fun record => record.message = payload

/-- The places of a payload in a log. -/
def placesOf (log : List Payload) (payload : Payload) : List ℕ :=
  (List.range log.length).filter fun index => log[index]? = some payload

section Loop

variable {log : List Payload} {payload : Payload} {i : ℕ}

theorem mem_placesOf_iff : i ∈ placesOf log payload ↔ log[i]? = some payload := by
  rw [placesOf, mem_filter, mem_range, decide_eq_true_eq]
  refine ⟨fun h => h.2, fun h => ⟨?_, h⟩⟩
  exact (List.getElem?_eq_some_iff.mp h).1

theorem nodup_placesOf (log : List Payload) (payload : Payload) : (placesOf log payload).Nodup :=
  nodup_range.filter _

theorem countP_range_getElem? (log : List Payload) (payload : Payload) {n : ℕ} (hn : n ≤ log.length) :
    (List.range n).countP (fun index => log[index]? = some payload) = (log.take n).count payload := by
  induction n with
  | zero => rfl
  | succ n ih =>
    rw [range_succ, countP_append, ih (by omega), take_add_one, count_append]
    congr 1
    cases hget : log[n]? with
    | none =>
      rw [getElem?_eq_none_iff] at hget
      omega
    | some own =>
      by_cases h : own = payload <;> simp [hget, h]

theorem length_placesOf (log : List Payload) (payload : Payload) : (placesOf log payload).length = log.count payload := by
  rw [placesOf, ← countP_eq_length_filter, countP_range_getElem? log payload le_rfl, take_length]

/-- The place of a message is that of its rank among those of its payload. -/
theorem getElem?_placesOf (h : log[i]? = some payload) :
    (placesOf log payload)[(log.take i).count payload]? = some i := by
  have hi : i < log.length := (List.getElem?_eq_some_iff.mp h).1
  have hrank := Reorder.getElem?_filter_countP (p := fun index => decide (log[index]? = some payload))
    (getElem?_range hi) (decide_eq_true h)
  rwa [take_range, Nat.min_eq_left hi.le, countP_range_getElem? log payload hi.le] at hrank

theorem rank_lt_count (h : log[i]? = some payload) : (log.take i).count payload < log.count payload := by
  rw [← length_placesOf log payload]
  exact (List.getElem?_eq_some_iff.mp (getElem?_placesOf h)).1

/-- From the first message of a payload on are all of its messages. -/
theorem filter_range' {first : ℕ} (hfirst : payload ∉ log.take first) :
    ((List.range' first (log.length - first)).filter fun index => log[index]? = some payload) = placesOf log payload := by
  by_cases hle : first ≤ log.length
  · have hsplit : List.range log.length = List.range first ++ List.range' first (log.length - first) := by
      have happend := @List.range'_append_1 0 first (log.length - first)
      rw [Nat.zero_add, Nat.add_sub_cancel' hle] at happend
      rw [range_eq_range', range_eq_range', happend]
    have hnone : ((List.range first).filter fun index => log[index]? = some payload) = [] := by
      refine filter_eq_nil_iff.mpr fun index hindex h => hfirst ?_
      refine mem_of_getElem? (i := index) ?_
      rw [getElem?_take_of_lt (mem_range.mp hindex)]
      exact of_decide_eq_true h
    rw [placesOf, hsplit, filter_append, hnone, nil_append]
  · rw [Nat.sub_eq_zero_of_le (by omega)]
    refine (filter_eq_nil_iff.mpr fun index _ h => hfirst ?_).symm
    rw [take_of_length_le (by omega)]
    exact mem_of_getElem? (of_decide_eq_true h)

/-- Values written to the places of a payload, in order: each place has the one of its rank. -/
theorem foldlM_write_places {values : List (MessageOptions V)} (hvalues : values.length = log.count payload)
    {attributed : List (MessageOptions V)} (hlength : attributed.length = log.length) :
    ∃ written, ((placesOf log payload).zip values).foldlM write attributed = some written
      ∧ written.length = log.length
      ∧ (∀ i : ℕ, log[i]? = some payload → written[i]? = values[(log.take i).count payload]?)
      ∧ ∀ i : ℕ, log[i]? ≠ some payload → written[i]? = attributed[i]? := by
  have hfst : ((placesOf log payload).zip values).map Prod.fst = placesOf log payload :=
    map_fst_zip (by rw [length_placesOf, hvalues])
  obtain ⟨written, hfold, hwrittenLength, hwritten, hkept⟩ :=
    @foldlM_write _ ((placesOf log payload).zip values) attributed
      (by rw [hfst]; exact nodup_placesOf log payload)
      (fun place hplace => by
        have hmem := mem_placesOf_iff.mp (of_mem_zip hplace).1
        rw [hlength]
        exact (List.getElem?_eq_some_iff.mp hmem).1)
  refine ⟨written, hfold, hwrittenLength.trans hlength, fun i hi => ?_, fun i hi => hkept i ?_⟩
  · have hplace := getElem?_placesOf hi
    have hrank : (log.take i).count payload < values.length := by
      rw [hvalues]
      exact rank_lt_count hi
    have hpair : ((placesOf log payload).zip values)[(log.take i).count payload]?
        = some (i, values[(log.take i).count payload]) := by
      rw [getElem?_zip_eq_some]
      exact ⟨hplace, getElem?_eq_getElem hrank⟩
    rw [hwritten _ (mem_of_getElem? hpair), getElem?_eq_getElem hrank]
  · rw [hfst]
    exact fun hmem => hi (mem_placesOf_iff.mp hmem)

theorem map_const_eq_zip (places : List ℕ) (options : MessageOptions V) :
    (places.map fun index => (index, options)) = places.zip (List.replicate places.length options) := by
  induction places with
  | nil => rfl
  | cons place places ih => rw [map_cons, ih, length_cons, replicate_succ, zip_cons_cons]

/-- **The messages of one payload**: each gets the answer of its rank, and nothing else is written. -/
theorem pairOne_eq (candidates : List (PublishedEntry V)) {attributed : List (MessageOptions V)}
    (hlength : attributed.length = log.length)
    (hfresh : ∀ i : ℕ, log[i]? = some payload → attributed[i]? = some MessageOptions.unrecorded) :
    ∃ written, pairOne (placesOf log payload) candidates attributed = some written
      ∧ written.length = log.length ∧ (∀ i : ℕ, log[i]? = some payload →
        written[i]? = some (answer candidates (log.count payload) ((log.take i).count payload)))
      ∧ ∀ i : ℕ, log[i]? ≠ some payload → written[i]? = attributed[i]? := by
  -- one answer for all of the payload
  have hconst (options : MessageOptions V) : ∃ written,
      ((placesOf log payload).map fun index => (index, options)).foldlM write attributed = some written
      ∧ written.length = log.length ∧ (∀ i : ℕ, log[i]? = some payload → written[i]? = some options)
      ∧ ∀ i : ℕ, log[i]? ≠ some payload → written[i]? = attributed[i]? := by
    rw [map_const_eq_zip, length_placesOf]
    obtain ⟨written, hfold, hwrittenLength, hwritten, hkept⟩ :=
      foldlM_write_places (length_replicate (n := log.count payload) (a := options)) hlength
    refine ⟨written, hfold, hwrittenLength, fun i hi => ?_, hkept⟩
    rw [hwritten i hi, getElem?_replicate, if_pos (rank_lt_count hi)]
  rw [pairOne.eq_def, length_placesOf]
  simp only [answer.eq_def]
  cases candidates with
  | nil => exact ⟨attributed, rfl, hlength, hfresh, fun _ _ => rfl⟩
  | cons earliest rest =>
    dsimp only
    split_ifs with hpaired hsame
    · have hvalues : ((earliest :: rest).map PublishedEntry.options).length = log.count payload := by
        rw [length_map, hpaired.1]
      obtain ⟨written, hfold, hwrittenLength, hwritten, hkept⟩ := foldlM_write_places hvalues hlength
      refine ⟨written, ?_, hwrittenLength, fun i hi => ?_, hkept⟩
      · rw [← hfold, zip_map_right]
        rfl
      · have hrank : (log.take i).count payload < (earliest :: rest).length := by
          rw [hpaired.1]
          exact rank_lt_count hi
        rw [hwritten i hi, getElem?_map, getElem?_eq_getElem hrank]
        rfl
    · exact hconst _
    · exact hconst _

/-- What has been answered after so many rounds: the messages whose payload has been met. -/
structure Answered (log : List Payload) (records : List (PublishedEntry V)) (rounds : ℕ) (pairing : Pairing V) : Prop where
  attributed_length : pairing.attributed.length = log.length
  seen_length : pairing.seen.length = log.length
  seen : ∀ (i : ℕ) (payload : Payload), log[i]? = some payload →
    pairing.seen[i]? = some (decide (payload ∈ log.take rounds))
  met : ∀ (i : ℕ) (payload : Payload), log[i]? = some payload → payload ∈ log.take rounds →
    pairing.attributed[i]?
      = some (answer (ofPayload records payload) (log.count payload) ((log.take i).count payload))
  fresh : ∀ (i : ℕ) (payload : Payload), log[i]? = some payload → payload ∉ log.take rounds →
    pairing.attributed[i]? = some .unrecorded

theorem answered_start (log : List Payload) (records : List (PublishedEntry V)) :
    Answered log records 0
      { attributed := List.replicate log.length .unrecorded, seen := List.replicate log.length false } where
  attributed_length := length_replicate
  seen_length := length_replicate
  seen := fun i payload h => by
    rw [getElem?_replicate, if_pos (List.getElem?_eq_some_iff.mp h).1]
    rfl
  met := fun _ _ _ h => absurd h not_mem_nil
  fresh := fun i payload h _ => by rw [getElem?_replicate, if_pos (List.getElem?_eq_some_iff.mp h).1]

/-- A round answers for the payload of its message, if that has not been met before. -/
theorem answered_pairAt {records : List (PublishedEntry V)} {pairing : Pairing V} {first : ℕ}
    (h : Answered log records first pairing) (hfirst : first < log.length) :
    ∃ pairing', pairAt log records pairing first = some pairing' ∧ Answered log records (first + 1) pairing' := by
  obtain ⟨payload, hpayload⟩ : ∃ payload, log[first]? = some payload := ⟨_, getElem?_eq_getElem hfirst⟩
  have hmem (other : Payload) : other ∈ log.take (first + 1) ↔ other ∈ log.take first ∨ other = payload := by
    rw [take_add_one, hpayload, Option.toList_some, mem_append, mem_singleton]
  have hseen := h.seen first payload hpayload
  by_cases hmet : payload ∈ log.take first
  · have hsame (other : Payload) : other ∈ log.take (first + 1) ↔ other ∈ log.take first := by
      rw [hmem]
      exact ⟨fun hor => hor.elim id fun heq => heq ▸ hmet, Or.inl⟩
    refine ⟨pairing, ?_, h.attributed_length, h.seen_length, ?_, ?_, ?_⟩
    · rw [decide_eq_true hmet] at hseen
      rw [pairAt, hseen]
      rfl
    · simpa only [hsame] using h.seen
    · simpa only [hsame] using h.met
    · simpa only [hsame] using h.fresh
  · -- its messages are all from here on, and nothing was written to their places
    have hother {i : ℕ} {other : Payload} (hi : log[i]? = some other) (hne : log[i]? ≠ some payload) :
        other ∈ log.take (first + 1) ↔ other ∈ log.take first := by
      rw [hmem]
      exact or_iff_left fun heq => hne (by rw [hi, heq])
    have hnew : payload ∈ log.take (first + 1) := (hmem payload).mpr (Or.inr rfl)
    obtain ⟨seen, hseenFold, hseenLength, hseenWritten, hseenKept⟩ :=
      @foldlM_write _ ((placesOf log payload).map fun index => (index, true)) pairing.seen
        (by rw [map_map]; exact (map_id _).symm ▸ nodup_placesOf log payload)
        (fun place hplace => by
          obtain ⟨index, hindex, rfl⟩ := mem_map.mp hplace
          rw [h.seen_length]
          exact (List.getElem?_eq_some_iff.mp (mem_placesOf_iff.mp hindex)).1)
    obtain ⟨attributed, hpair, hlength, hwritten, hkept⟩ := pairOne_eq (ofPayload records payload) h.attributed_length
      fun i hi => h.fresh i payload hi hmet
    refine ⟨{ attributed, seen }, ?_, hlength, hseenLength.trans h.seen_length, ?_, ?_, ?_⟩
    · rw [decide_eq_false hmet] at hseen
      rw [pairAt, hseen, hpayload]
      simp only [Option.bind_eq_bind, Option.bind_some, filter_range' hmet, hseenFold]
      rw [ofPayload] at hpair
      rw [if_neg Bool.false_ne_true, hpair]
      rfl
    · intro i other hi
      by_cases heq : log[i]? = some payload
      · obtain rfl : other = payload := Option.some.inj (hi.symm.trans heq)
        rw [decide_eq_true hnew]
        exact hseenWritten (i, true) (mem_map.mpr ⟨i, mem_placesOf_iff.mpr heq, rfl⟩)
      · rw [hseenKept i, h.seen i other hi, decide_eq_decide.mpr (hother hi heq)]
        rw [map_map]
        exact fun hplace => heq (mem_placesOf_iff.mp ((map_id _ : _ = placesOf log payload) ▸ hplace))
    · intro i other hi hin
      by_cases heq : log[i]? = some payload
      · obtain rfl : other = payload := Option.some.inj (hi.symm.trans heq)
        exact hwritten i hi
      · rw [hkept i heq]
        exact h.met i other hi ((hother hi heq).mp hin)
    · intro i other hi hin
      have heq : log[i]? ≠ some payload := fun heq => by
        obtain rfl : other = payload := Option.some.inj (hi.symm.trans heq)
        exact hin hnew
      rw [hkept i heq]
      exact h.fresh i other hi fun hmem => hin ((hother hi heq).mpr hmem)

theorem answered_foldlM (log : List Payload) (records : List (PublishedEntry V)) {rounds : ℕ} (h : rounds ≤ log.length) :
    ∃ pairing, (List.range rounds).foldlM (pairAt log records)
        { attributed := List.replicate log.length .unrecorded, seen := List.replicate log.length false } = some pairing
      ∧ Answered log records rounds pairing := by
  induction rounds with
  | zero => exact ⟨_, rfl, answered_start log records⟩
  | succ rounds ih =>
    obtain ⟨pairing, hfold, hpairing⟩ := ih (by omega)
    obtain ⟨pairing', hpair, hpairing'⟩ := answered_pairAt hpairing (by omega)
    refine ⟨pairing', ?_, hpairing'⟩
    rw [range_succ, foldlM_append, hfold]
    show [rounds].foldlM (pairAt log records) pairing = some pairing'
    rw [foldlM_cons, hpair]
    rfl

/-- **The loop answers for each message**, from the records of its payload. -/
theorem pairByPayload_eq (log : List Payload) (records : List (PublishedEntry V)) :
    pairByPayload log records = some (log.mapIdx fun i payload =>
      answer (ofPayload records payload) (log.count payload) ((log.take i).count payload)) := by
  obtain ⟨pairing, hfold, hanswered⟩ := answered_foldlM log records le_rfl
  have hattributed : pairing.attributed = log.mapIdx fun i payload =>
      answer (ofPayload records payload) (log.count payload) ((log.take i).count payload) := by
    refine ext_getElem? fun i => ?_
    rw [getElem?_mapIdx]
    cases hget : log[i]? with
    | none =>
      rw [getElem?_eq_none_iff] at hget
      exact getElem?_eq_none_iff.mpr (hanswered.attributed_length.trans_le hget)
    | some payload =>
      refine hanswered.met i payload hget ?_
      rw [take_length]
      exact mem_of_getElem? hget
  rw [pairByPayload, hfold, ← hattributed]
  rfl

end Loop

/-! ## The call answers -/

section Call

variable {log : List Payload} {records : List (PublishedEntry V)} {evicted : ℕ}

/-- Where the record may lack something, no message gets options. -/
theorem attributeLog_of_incomplete (hevicted : 0 < evicted) (h : records.length ≠ evicted + log.length) :
    ∃ answers, attributeLog log records evicted = some answers ∧ answers.length = log.length
      ∧ ∀ options, .recorded options ∉ answers := by
  rw [attributeLog, if_pos ⟨hevicted, h⟩]
  refine ⟨_, rfl, length_map _, fun options hmem => ?_⟩
  obtain ⟨payload, -, heq⟩ := mem_map.mp hmem
  split_ifs at heq

/-- Where it does not, the candidates are those of the two parts of the record. -/
theorem attributeLog_of_complete (h : evicted = 0 ∨ records.length = evicted + log.length) :
    attributeLog log records evicted = some (log.mapIdx fun i payload =>
      answer (ofPayload (candidatesOf (records.take evicted) (records.drop evicted)) payload) (log.count payload)
        ((log.take i).count payload)) := by
  have hle : evicted ≤ records.length := by omega
  rw [attributeLog, if_neg (by omega), splitAt?, if_pos hle]
  exact pairByPayload_eq log _

end Call

end RustStream.Testing
