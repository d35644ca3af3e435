import RustStream.Lib.Run
import RustStream.Testing.Origins

/-!
# How the record comes about

A publish reads the harness's clock, hands its message to the broker, reads the clock again and enters the record. The
readings are taken with one atomic addition each, so no two are the same, and the record has a lock of its own. Between
the second reading and the entry nothing is held: on a runtime with several threads another publish can begin there,
be taken, end and be entered first. The two spans then say that the first came before the second, and the record says
the opposite.

The broker may take messages at any time that the harness never sees, and a publish may be refused, or dropped by its
caller, at any point.

## Main definitions

* `Testing.Recorder`, `Testing.step`: the clock, the publishes under way, what the broker took, and the record.
* `Testing.Prompt`: no publish begins while another is between its second reading and its entry.

## Main results

* `Testing.history_of_run`: in every run the broker's order is one the spans allow.
* `Testing.owns_of_prompt`: in prompt runs, those of a single-threaded runtime, no message gets the options of another.
* `Testing.crossed_entries_misattributed`: in others one may.
-/

namespace RustStream.Testing

open List

variable {V : Type}

/-- A publish as it was captured; one of the test itself has no options. -/
structure Captured (V : Type) where
  started : ℕ
  message : Payload
  options : Option (RecordedOptions V)
  deriving DecidableEq

/-- What enters the record, after the second reading. -/
def Captured.entry (captured : Captured V) (finished : ℕ) : PublishedEntry V :=
  match captured.options with
  | some options =>
    .runtime { message := captured.message, options, span := { started := captured.started, finished } }
  | none => .test captured.message { started := captured.started, finished }

theorem Captured.span_entry (captured : Captured V) (finished : ℕ) :
    (captured.entry finished).span = { started := captured.started, finished } := by
  rw [entry]
  cases captured.options <;> rfl

/-- A message the broker took, and how far its publish has got. -/
inductive Slot (V : Type)
  | outside (message : Payload)
  | handed (captured : Captured V)
  | ended (captured : Captured V) (finished : ℕ)
  | listed (captured : Captured V) (finished : ℕ)
  deriving DecidableEq

namespace Slot

/-- The message as one of the record or as one the harness does not know. -/
def took : Slot V → Took V
  | .outside message => .unseen message
  | .handed captured => .unseen captured.message
  | .ended captured _ => .unseen captured.message
  | .listed captured finished => .seen (captured.entry finished)

def started? : Slot V → Option ℕ
  | .outside _ => none
  | .handed captured => some captured.started
  | .ended captured _ => some captured.started
  | .listed captured _ => some captured.started

def finished? : Slot V → Option ℕ
  | .outside _ => none
  | .handed _ => none
  | .ended _ finished => some finished
  | .listed _ finished => some finished

/-- Whether the publish has read the clock and not entered the record. -/
def isPending : Slot V → Bool
  | .ended _ _ => true
  | _ => false

end Slot

/-- The harness's clock and record, the publishes captured and not yet taken, and what the broker took, in its order. -/
structure Recorder (V : Type) where
  clock : ℕ := 0
  captured : List (Captured V) := []
  taken : List (Slot V) := []
  records : List (PublishedEntry V) := []
  deriving DecidableEq

inductive Event (V : Type)
  /-- A publish is captured, with the first reading of the clock. -/
  | capture (message : Payload) (options : Option (RecordedOptions V))
  /-- The broker refuses one, or its caller drops it. -/
  | refuse (number : ℕ)
  /-- The broker takes one. -/
  | handOver (number : ℕ)
  /-- The broker takes a message the harness does not see. -/
  | outside (message : Payload)
  /-- The publish of a message reads the clock again. -/
  | finish (place : ℕ)
  /-- It enters the record. -/
  | enter (place : ℕ)

def step (recorder : Recorder V) : Event V → Option (Recorder V)
  | .capture message options => some { recorder with
      clock := recorder.clock + 1
      captured := recorder.captured ++ [{ started := recorder.clock, message, options }] }
  | .refuse number => some { recorder with captured := recorder.captured.eraseIdx number }
  | .handOver number =>
    match recorder.captured[number]? with
    | some captured => some { recorder with
        captured := recorder.captured.eraseIdx number
        taken := recorder.taken ++ [.handed captured] }
    | none => none
  | .outside message => some { recorder with taken := recorder.taken ++ [.outside message] }
  | .finish place =>
    match recorder.taken[place]? with
    | some (.handed captured) => some { recorder with
        clock := recorder.clock + 1
        taken := recorder.taken.set place (.ended captured recorder.clock) }
    | _ => none
  | .enter place =>
    match recorder.taken[place]? with
    | some (.ended captured finished) => some { recorder with
        taken := recorder.taken.set place (.listed captured finished)
        records := recorder.records ++ [captured.entry finished] }
    | _ => none

/-! ## What a step does -/

/-- The steps, with the place of a message as what stands around it. -/
inductive Moves (recorder : Recorder V) : Event V → Recorder V → Prop
  | capture (message : Payload) (options : Option (RecordedOptions V)) :
      Moves recorder (.capture message options) { recorder with
        clock := recorder.clock + 1
        captured := recorder.captured ++ [{ started := recorder.clock, message, options }] }
  | refuse (number : ℕ) {rest : List (Captured V)} (hrest : rest ⊆ recorder.captured) :
      Moves recorder (.refuse number) { recorder with captured := rest }
  | handOver (number : ℕ) {captured : Captured V} {rest : List (Captured V)} (hmem : captured ∈ recorder.captured)
      (hrest : rest ⊆ recorder.captured) :
      Moves recorder (.handOver number) { recorder with
        captured := rest
        taken := recorder.taken ++ [.handed captured] }
  | outside (message : Payload) :
      Moves recorder (.outside message) { recorder with taken := recorder.taken ++ [.outside message] }
  | finish (place : ℕ) {captured : Captured V} {front back : List (Slot V)}
      (htaken : recorder.taken = front ++ .handed captured :: back) :
      Moves recorder (.finish place) { recorder with
        clock := recorder.clock + 1
        taken := front ++ .ended captured recorder.clock :: back }
  | enter (place : ℕ) {captured : Captured V} {finished : ℕ} {front back : List (Slot V)}
      (htaken : recorder.taken = front ++ .ended captured finished :: back) :
      Moves recorder (.enter place) { recorder with
        taken := front ++ .listed captured finished :: back
        records := recorder.records ++ [captured.entry finished] }

theorem exists_split {slots : List (Slot V)} {place : ℕ} {slot : Slot V} (h : slots[place]? = some slot) (slot' : Slot V) :
    ∃ front back, slots = front ++ slot :: back ∧ slots.set place slot' = front ++ slot' :: back := by
  obtain ⟨hplace, rfl⟩ := List.getElem?_eq_some_iff.mp h
  obtain ⟨front, back, hslots, -, hset⟩ := @List.exists_of_set _ place slot' slots hplace
  exact ⟨front, back, hslots, hset⟩

theorem moves_of_step {recorder recorder' : Recorder V} {event : Event V} (h : step recorder event = some recorder') :
    Moves recorder event recorder' := by
  cases event with
  | capture message options =>
    cases h
    exact .capture message options
  | refuse number =>
    cases h
    exact .refuse number (fun _ h => eraseIdx_subset h)
  | handOver number =>
    rw [step] at h
    split at h
    · next captured hget =>
      cases h
      exact .handOver number (mem_of_getElem? hget) (fun _ h => eraseIdx_subset h)
    · cases h
  | outside message =>
    cases h
    exact .outside message
  | finish place =>
    rw [step] at h
    split at h
    · next captured hget =>
      cases h
      obtain ⟨front, back, htaken, hset⟩ := exists_split hget (.ended captured recorder.clock)
      rw [hset]
      exact .finish place htaken
    · cases h
  | enter place =>
    rw [step] at h
    split at h
    · next captured finished hget =>
      cases h
      obtain ⟨front, back, htaken, hset⟩ := exists_split hget (.listed captured finished)
      rw [hset]
      exact .enter place htaken
    · cases h

/-! ## The broker's order -/

/-- The first began before the second had ended. -/
def Slot.MayPrecede (slot slot' : Slot V) : Prop :=
  ∀ started finished, slot.started? = some started → slot'.finished? = some finished → started < finished

structure Sound (recorder : Recorder V) : Prop where
  captured : ∀ captured ∈ recorder.captured, captured.started < recorder.clock
  taken : ∀ slot ∈ recorder.taken, ∀ started, slot.started? = some started → started < recorder.clock
  ordered : recorder.taken.Pairwise Slot.MayPrecede
  recorded : (recordedOf (recorder.taken.map Slot.took)).Perm recorder.records

section Invariants

variable {recorder recorder' : Recorder V} {event : Event V} {front back : List (Slot V)} {slot slot' : Slot V}

/-- A message that gets on keeps its first reading, and its second comes after all first ones. -/
theorem pairwise_of_split (h : (front ++ slot :: back).Pairwise Slot.MayPrecede) (hstarted : slot'.started? = slot.started?)
    (hfinished : ∀ other ∈ front, other.MayPrecede slot') : (front ++ slot' :: back).Pairwise Slot.MayPrecede := by
  rw [pairwise_append, pairwise_cons] at h ⊢
  obtain ⟨hfront, ⟨hslot, hback⟩, hcross⟩ := h
  refine ⟨hfront, ⟨fun other hother started finished hstart => ?_, hback⟩, fun other hother => ?_⟩
  · exact hslot other hother started finished (hstarted ▸ hstart)
  · refine forall_mem_cons.mpr ⟨hfinished other hother, fun later hlater => ?_⟩
    exact hcross other hother later (mem_cons_of_mem _ hlater)

/-- What is known of the first readings of all messages is known of them after one has got on. -/
theorem forall_started_of_split {P : ℕ → Prop}
    (h : ∀ other ∈ front ++ slot :: back, ∀ started, other.started? = some started → P started)
    (hstarted : slot'.started? = slot.started?) :
    ∀ other ∈ front ++ slot' :: back, ∀ started, other.started? = some started → P started := by
  rw [forall_mem_append, forall_mem_cons] at h ⊢
  refine ⟨h.1, fun started hstart => h.2.1 started (hstarted ▸ hstart), h.2.2⟩

theorem recordedOf_append (taken taken' : List (Took V)) :
    recordedOf (taken ++ taken') = recordedOf taken ++ recordedOf taken' :=
  filterMap_append

/-- A message that gets on without entering the record stays unknown. -/
theorem recordedOf_split (h : slot'.took = slot.took) :
    recordedOf ((front ++ slot' :: back).map Slot.took) = recordedOf ((front ++ slot :: back).map Slot.took) := by
  rw [map_append, map_cons, h, map_append, map_cons]

/-- The broker takes a message. -/
theorem Sound.take (h : Sound recorder) (slot : Slot V) (hfinished : slot.finished? = none) (hentry : slot.took.entry? = none)
    (hstarted : ∀ started, slot.started? = some started → started < recorder.clock) :
    Sound { recorder with taken := recorder.taken ++ [slot] } := by
  refine ⟨h.captured, forall_mem_append.mpr ⟨h.taken, forall_mem_singleton.mpr hstarted⟩, ?_, ?_⟩
  · refine pairwise_append.mpr ⟨h.ordered, pairwise_singleton _ _, fun slot _ => ?_⟩
    refine forall_mem_singleton.mpr fun started finished _ heq => ?_
    cases hfinished.symm.trans heq
  · have hnone : recordedOf [slot.took] = [] := filterMap_cons_none hentry
    rw [map_append, recordedOf_append, map_singleton, hnone, append_nil]
    exact h.recorded

theorem sound_of_moves (h : Sound recorder) (hmoves : Moves recorder event recorder') : Sound recorder' := by
  cases hmoves with
  | capture message options =>
    refine ⟨?_, fun slot hslot started hstarted => ?_, h.ordered, h.recorded⟩
    · refine forall_mem_append.mpr ⟨fun captured hcaptured => ?_, forall_mem_singleton.mpr ?_⟩
      · exact (h.captured captured hcaptured).trans (Nat.lt_succ_self _)
      · exact Nat.lt_succ_self _
    · exact (h.taken slot hslot started hstarted).trans (Nat.lt_succ_self _)
  | refuse number hrest =>
    exact ⟨fun captured hcaptured => h.captured captured (hrest hcaptured), h.taken, h.ordered, h.recorded⟩
  | @handOver number captured rest hmem hrest =>
    have htook := h.take (.handed captured) rfl rfl fun started hstarted => by
      cases hstarted
      exact h.captured captured hmem
    exact ⟨fun captured hcaptured => h.captured captured (hrest hcaptured), htook.taken, htook.ordered, htook.recorded⟩
  | outside message => exact h.take (.outside message) rfl rfl fun started hstarted => by cases hstarted
  | @finish place captured front back htaken =>
    obtain ⟨hcaptured, htakenClock, hordered, hrecorded⟩ := h
    rw [htaken] at htakenClock hordered hrecorded
    have hstarts := @forall_started_of_split _ front back _ (.ended captured recorder.clock) _ htakenClock rfl
    have hunknown : recordedOf ((front ++ .ended captured recorder.clock :: back).map Slot.took)
        = recordedOf ((front ++ .handed captured :: back).map Slot.took) := recordedOf_split rfl
    refine ⟨fun captured hmem => ?_, fun slot hslot started hstarted => ?_, ?_, ?_⟩
    · exact (hcaptured captured hmem).trans (Nat.lt_succ_self _)
    · exact (hstarts slot hslot started hstarted).trans (Nat.lt_succ_self _)
    · refine pairwise_of_split hordered rfl fun other hother started finished hstarted hfinished => ?_
      cases hfinished
      exact htakenClock other (mem_append_left _ hother) started hstarted
    · rw [hunknown]
      exact hrecorded
  | @enter place captured finished front back htaken =>
    obtain ⟨hcaptured, htakenClock, hordered, hrecorded⟩ := h
    rw [htaken] at htakenClock hordered hrecorded
    refine ⟨hcaptured, forall_started_of_split htakenClock rfl, pairwise_of_split hordered rfl ?_, ?_⟩
    · exact fun other hother started later hstarted hlater =>
        (pairwise_append.mp hordered).2.2 other hother _ mem_cons_self started later hstarted hlater
    · have hsplit (slot : Slot V) : recordedOf ((front ++ slot :: back).map Slot.took)
          = recordedOf (front.map Slot.took) ++ (recordedOf [slot.took] ++ recordedOf (back.map Slot.took)) := by
        rw [map_append, map_cons, recordedOf_append, ← recordedOf_append [slot.took]]
        rfl
      rw [hsplit] at hrecorded ⊢
      have hmiddle : (recordedOf (front.map Slot.took) ++ captured.entry finished :: recordedOf (back.map Slot.took)).Perm
          (captured.entry finished :: (recordedOf (front.map Slot.took) ++ recordedOf (back.map Slot.took))) :=
        perm_middle
      exact (hmiddle.trans (hrecorded.cons _)).trans (perm_append_singleton _ _).symm

theorem sound_start : Sound ({} : Recorder V) :=
  ⟨fun _ h => absurd h not_mem_nil, fun _ h => absurd h not_mem_nil, .nil, .nil⟩

theorem eq_listed_of_entry {entry : PublishedEntry V} (h : slot.took.entry? = some entry) :
    slot.started? = some entry.span.started ∧ slot.finished? = some entry.span.finished := by
  cases slot with
  | listed captured finished =>
    cases h
    rw [Captured.span_entry]
    exact ⟨rfl, rfl⟩
  | outside message => cases h
  | handed captured => cases h
  | ended captured finished => cases h

theorem history_of_sound (h : Sound recorder) : History recorder.records (recorder.taken.map Slot.took) := by
  refine ⟨h.recorded, ?_⟩
  rw [recordedOf, filterMap_map]
  refine h.ordered.filterMap _ fun slot slot' hslot entry hentry entry' hentry' => ?_
  exact hslot _ _ (eq_listed_of_entry hentry).1 (eq_listed_of_entry hentry').2

end Invariants

/-- **In every run the broker's order is one the spans allow**, at every point of it. -/
theorem history_of_run {events : List (Event V)} {recorder : Recorder V} (hexec : Run.exec step {} events = some recorder) :
    History recorder.records (recorder.taken.map Slot.took) := by
  have hsound : Sound recorder :=
    Run.exec_always (fun _ _ _ hsound hstep => sound_of_moves hsound (moves_of_step hstep)) sound_start hexec
  exact history_of_sound hsound

/-! ## The order of the record -/

/-- No publish begins while another has read the clock for the second time and is not in the record. -/
def Prompt (recorder : Recorder V) : Event V → Prop
  | .capture _ _ => ∀ slot ∈ recorder.taken, slot.isPending = false
  | _ => True

instance (recorder : Recorder V) (event : Event V) : Decidable (Prompt recorder event) := by
  cases event <;> unfold Prompt <;> infer_instance

/-- All publishes began before one that is not in the record ended, and the record is in an order the spans allow. -/
structure InOrder (recorder : Recorder V) : Prop where
  sound : Sound recorder
  captured : ∀ captured finished, Slot.ended captured finished ∈ recorder.taken →
    ∀ other ∈ recorder.captured, other.started < finished
  taken : ∀ captured finished, Slot.ended captured finished ∈ recorder.taken →
    ∀ slot ∈ recorder.taken, ∀ started, slot.started? = some started → started < finished
  records : recorder.records.Pairwise MayPrecede

section Order

variable {recorder recorder' : Recorder V} {event : Event V} {slot : Slot V} {captured : Captured V} {finished : ℕ}

/-- A message that is taken is not pending yet. -/
theorem mem_of_mem_append (hslot : slot.isPending = false) {slots : List (Slot V)}
    (h : Slot.ended captured finished ∈ slots ++ [slot]) : Slot.ended captured finished ∈ slots := by
  rcases mem_append.mp h with h | h
  · exact h
  · cases mem_singleton.mp h
    cases hslot

theorem mem_of_mem_split {front back : List (Slot V)} {slot' : Slot V} (h : slot' ∈ front ++ slot :: back) (hne : slot' ≠ slot)
    (old : Slot V) : slot' ∈ front ++ old :: back := by
  rcases mem_append.mp h with h | h
  · exact mem_append_left _ h
  · exact mem_append_right _ (mem_cons_of_mem _ ((mem_cons.mp h).resolve_left hne))

theorem started_of_mem_records (h : Sound recorder) {entry : PublishedEntry V} (hentry : entry ∈ recorder.records) :
    ∃ slot ∈ recorder.taken, slot.started? = some entry.span.started := by
  rw [← h.recorded.mem_iff, recordedOf, filterMap_map, mem_filterMap] at hentry
  obtain ⟨slot, hslot, hentry⟩ := hentry
  exact ⟨slot, hslot, (eq_listed_of_entry hentry).1⟩

theorem inOrder_of_moves (h : InOrder recorder) (hprompt : Prompt recorder event) (hmoves : Moves recorder event recorder') :
    InOrder recorder' := by
  have hsound := sound_of_moves h.sound hmoves
  cases hmoves with
  | capture message options =>
    refine ⟨hsound, fun captured finished hended => ?_, h.taken, h.records⟩
    cases hprompt _ hended
  | refuse number hrest =>
    exact ⟨hsound, fun captured finished hended other hother => h.captured captured finished hended other (hrest hother),
      h.taken, h.records⟩
  | @handOver number handed rest hmem hrest =>
    refine ⟨hsound, fun captured finished hended other hother => ?_, fun captured finished hended => ?_, h.records⟩
    · exact h.captured captured finished (mem_of_mem_append rfl hended) other (hrest hother)
    · have hold := mem_of_mem_append rfl hended
      refine forall_mem_append.mpr ⟨h.taken captured finished hold, ?_⟩
      refine forall_mem_singleton.mpr fun started hstarted => ?_
      cases hstarted
      exact h.captured captured finished hold handed hmem
  | outside message =>
    refine ⟨hsound, fun captured finished hended => h.captured captured finished (mem_of_mem_append rfl hended),
      fun captured finished hended => ?_, h.records⟩
    refine forall_mem_append.mpr ⟨h.taken captured finished (mem_of_mem_append rfl hended), ?_⟩
    refine forall_mem_singleton.mpr fun started hstarted => ?_
    cases hstarted
  | @finish place handed front back htaken =>
    have hold {captured : Captured V} {finished : ℕ}
        (hended : Slot.ended captured finished ∈ front ++ .ended handed recorder.clock :: back)
        (hne : Slot.ended captured finished ≠ .ended handed recorder.clock) :
        Slot.ended captured finished ∈ recorder.taken :=
      htaken ▸ mem_of_mem_split hended hne _
    refine ⟨hsound, fun captured finished hended => ?_, fun captured finished hended => ?_, h.records⟩
    · by_cases heq : Slot.ended captured finished = .ended handed recorder.clock
      · cases heq
        exact h.sound.captured
      · exact h.captured captured finished (hold hended heq)
    · -- the new reading comes after all first ones
      have hstarts : ∀ slot ∈ recorder.taken, ∀ started, slot.started? = some started → started < finished := by
        by_cases heq : Slot.ended captured finished = .ended handed recorder.clock
        · cases heq
          exact h.sound.taken
        · exact h.taken captured finished (hold hended heq)
      rw [htaken] at hstarts
      exact forall_started_of_split hstarts rfl
  | @enter place ended last front back htaken =>
    have hold {captured : Captured V} {finished : ℕ}
        (hended : Slot.ended captured finished ∈ front ++ .listed ended last :: back) :
        Slot.ended captured finished ∈ recorder.taken :=
      htaken ▸ mem_of_mem_split hended (fun heq => by cases heq) _
    refine ⟨hsound, fun captured finished hended => h.captured captured finished (hold hended),
      fun captured finished hended => ?_, ?_⟩
    · have hstarts := h.taken captured finished (hold hended)
      rw [htaken] at hstarts
      exact forall_started_of_split hstarts rfl
    · refine pairwise_append.mpr ⟨h.records, pairwise_singleton _ _, fun entry hentry => ?_⟩
      refine forall_mem_singleton.mpr ?_
      obtain ⟨slot, hslot, hstarted⟩ := started_of_mem_records h.sound hentry
      rw [MayPrecede, Captured.span_entry]
      refine h.taken ended last ?_ slot hslot _ hstarted
      rw [htaken]
      exact mem_append_right _ mem_cons_self

end Order

/-- **In prompt runs no message gets the options of another.** -/
theorem owns_of_prompt {events : List (Event V)} {recorder : Recorder V}
    (hprompt : Run.AllSteps step Prompt {} events) (hexec : Run.exec step {} events = some recorder) {evicted : ℕ}
    (hevicted : evicted ≤ recorder.taken.length) : Owns recorder.records (recorder.taken.map Slot.took) evicted := by
  have hstart : InOrder ({} : Recorder V) :=
    ⟨sound_start, fun _ _ h => absurd h not_mem_nil, fun _ _ h => absurd h not_mem_nil, .nil⟩
  have horder : InOrder recorder :=
    @Run.exec_invariant _ _ step Prompt (fun _ recorder => InOrder recorder) _ _ _ []
      (fun _ _ _ _ horder hok hstep => inOrder_of_moves horder hok (moves_of_step hstep)) hstart hprompt hexec
  exact owns_of_inOrder (history_of_sound horder.sound) horder.records (by rwa [length_map])

/-! ## Entries that cross -/

/-- A publish of the runtime with one byte and an option. -/
def send (value : ℕ) : Event ℕ :=
  .capture [0] (some { typeName := "u8", value := some value })

/-- The second publish begins after the first has entered the record. -/
def inTurn : List (Event ℕ) :=
  [send 1, .handOver 0, .finish 0, .enter 0, send 2, .handOver 0, .finish 1, .enter 1]

theorem owns_of_prompt_inTurn : ∃ recorder, Run.exec step {} inTurn = some recorder ∧
    Owns recorder.records (recorder.taken.map Slot.took) 0 := by
  have hrun : (Run.exec step {} inTurn).isSome = true := by decide +kernel
  obtain ⟨recorder, hexec⟩ := Option.isSome_iff_exists.mp hrun
  exact ⟨recorder, hexec, owns_of_prompt (by decide +kernel) hexec (Nat.zero_le _)⟩

/-- The second publish begins, ends and enters the record between the second reading of the first and its entry. -/
def crossing : List (Event ℕ) :=
  [send 1, .handOver 0, .finish 0, send 2, .handOver 0, .finish 1, .enter 1, .enter 0]

/-- A publish as `send` captures it. -/
def sent (started value : ℕ) : Captured ℕ where
  started
  message := [0]
  options := some { typeName := "u8", value := some value }

/-- Where that leaves the harness: the broker took the first before the second, and the record has them reversed. -/
def crossed : Recorder ℕ where
  clock := 4
  taken := [.listed (sent 0 1) 1, .listed (sent 2 2) 3]
  records := [(sent 2 2).entry 3, (sent 0 1).entry 1]

/-- The message of each publish gets the options of the other. -/
theorem crossed_entries_misattributed :
    Run.exec step {} crossing = some crossed ∧ History crossed.records (crossed.taken.map Slot.took)
      ∧ ¬ Owns crossed.records (crossed.taken.map Slot.took) 0 := by
  have hexec : Run.exec step {} crossing = some crossed := by decide +kernel
  refine ⟨hexec, history_of_run hexec, ?_⟩
  rintro ⟨answers, hcall, -, howns⟩
  have hanswers : attributeLog ((crossed.taken.map Slot.took).map Took.message) crossed.records 0
      = some [.recorded { typeName := "u8", value := some 2 }, .recorded { typeName := "u8", value := some 1 }] := by
    decide +kernel
  rw [List.drop_zero, hanswers] at hcall
  cases hcall
  obtain ⟨entry, hentry, hoptions⟩ := howns 0 _ rfl
  cases hentry
  cases hoptions

end RustStream.Testing
