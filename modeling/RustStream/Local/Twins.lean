import RustStream.Local.HeapClient
import RustStream.Local.FixedClient
import RustStream.Local.Capacity

/-!
# One bus in two forms

The heap bus and the fixed bus are to be one bus for their clients. Through the view they are: every
call within the limits of the fixed form does the same to what a client knows, whatever was called
before.

The answers are the same too, but for one call. A requeue whose subscriber has left lands nowhere, and
the forms disagree on whether to say so. On the heap the subscription remembers how it ended: after a
shutdown it refuses, even once the bus is connected again; after its subscriber left it does not, even
on a bus that is down. In fixed storage the slot has forgotten, and the bus refuses exactly while it is
down.

## Main definitions

* `Heap.State.Remembers`: what the heap bus remembers is what the fixed bus finds.

## Main results

* `local_buses_answer_alike_iff`: the two forms give the same answers if and only if every requeue
  whose subscriber has left meets a bus that is down exactly if the subscription was shut down.
* `requeue_answers_differ`: two runs in which they do not.
-/

namespace RustStream

open Client Lockstep

/-- The heap bus refuses a requeue whose subscriber has left exactly if the bus is down now. -/
def Heap.State.Remembers (s : Heap.State) : Operation → Prop
  | .nack i k true =>
    (s.cells i).hands[k]?.isSome = true → s.subscriber i = false →
      ((s.cells i).cell.standing = .shutDown ↔ s.live = false)
  | _ => True

instance (s : Heap.State) : DecidablePred s.Remembers
  | .nack i k true =>
    inferInstanceAs (Decidable ((s.cells i).hands[k]?.isSome = true → s.subscriber i = false →
      ((s.cells i).cell.standing = .shutDown ↔ s.live = false)))
  | .nack _ _ false => isTrue trivial
  | .connect => isTrue trivial
  | .subscribe _ _ => isTrue trivial
  | .publish _ _ _ => isTrue trivial
  | .poll _ => isTrue trivial
  | .ack _ _ => isTrue trivial
  | .drop _ _ => isTrue trivial
  | .leave _ => isTrue trivial
  | .shutDown => isTrue trivial

section

variable {sizes : Fixed.Sizes} {s : Heap.State} {t : Fixed.State}

theorem remembers_iff (hview : s.view = t.view) (op : Operation) :
    s.Remembers op ↔ s.view.SameAnswer s.refuses t.refuses op := by
  have hlive : t.bus.live = s.live := (congrArg View.live hview).symm
  have hrefuses : ∀ i, (s.refuses i = t.refuses i ↔
      ((s.cells i).cell.standing = .shutDown ↔ s.live = false)) := by
    intro i
    rw [Heap.State.refuses, Fixed.State.refuses, hlive, Bool.eq_iff_iff]
    simp
  have hgone : ∀ i, s.view.readers i = none ↔ s.subscriber i = false := by
    intro i
    simp [Heap.State.view]
  have hhands : ∀ i k : ℕ, (s.view.hands i)[k]?.isSome = (s.cells i).hands[k]?.isSome := by
    intro i k
    simp [Heap.State.view]
  unfold View.SameAnswer
  constructor
  · rintro h i k rfl hcopy hreader
    rw [hhands] at hcopy
    exact (hrefuses i).mpr (h hcopy ((hgone i).mp hreader))
  · intro h
    unfold Heap.State.Remembers
    split
    · rename_i i k
      intro hcopy hsubscriber
      rw [← hhands] at hcopy
      exact (hrefuses i).mp (h i k rfl hcopy ((hgone i).mpr hsubscriber))
    · trivial

/-- The two forms go together, call by call. -/
theorem perform_together
    (h : s.view = t.view ∧ (Heap.Sound sizes.messages s ∧ Heap.Quiet s) ∧ Fixed.AtRest sizes t)
    {op : Operation} (hwithin : Fixed.Within sizes t op) :
    Together (fun s t => s.view = t.view ∧ (Heap.Sound sizes.messages s ∧ Heap.Quiet s) ∧
        Fixed.AtRest sizes t) (s.Remembers op)
      (s.perform sizes.messages op) (t.perform sizes op) := by
  obtain ⟨hview, ⟨hsound, hquiet⟩, hrest⟩ := h
  rw [remembers_iff hview]
  have hheap := Heap.perform_follows hsound hquiet op
  have hfixed := Fixed.perform_follows hrest hwithin
  rw [← hview] at hfixed
  exact hheap.of_views hfixed (s.view.perform_together op)

end

/-- **One bus in two forms.** For all sizes and every sequence of calls within the limits of the fixed
form, the clients of the two forms receive the same answers and the same messages if and only if, at
every requeue whose subscriber has left, the heap bus remembers a shutdown exactly if the bus is down
now. -/
theorem local_buses_answer_alike_iff (sizes : Fixed.Sizes) (ops : List Operation)
    (hwithin : Run.AllSteps (next (Fixed.State.perform sizes)) (Fixed.Within sizes)
      (Fixed.State.new sizes) ops) :
    answers (Heap.State.perform sizes.messages) Heap.State.new ops
        = answers (Fixed.State.perform sizes) (Fixed.State.new sizes) ops ↔
      Run.AllSteps (next (Heap.State.perform sizes.messages)) Heap.State.Remembers
        Heap.State.new ops := by
  refine answers_eq_iff (fun s t op h hop => perform_together h hop) ⟨?_, ?_, ?_⟩ hwithin
  · rfl
  · exact ⟨Heap.sound_new _, Heap.quiet_new⟩
  · exact ⟨Fixed.sound_new sizes, fun _ => Nat.zero_le _, Fixed.quiet_new sizes⟩

/-- A message comes back and is received again before it is settled. -/
def deliveredTwice : List Operation :=
  [.connect, .subscribe "a" true, .publish "a" [] [], .poll 0, .nack 0 0 true, .poll 0, .ack 0 0,
    .shutDown]

theorem local_buses_answer_alike_deliveredTwice :
    Run.AllSteps (next (Fixed.State.perform Fixed.oneSlot)) (Fixed.Within Fixed.oneSlot)
      (Fixed.State.new Fixed.oneSlot) deliveredTwice ∧
    answers (Heap.State.perform 1) Heap.State.new deliveredTwice
      = answers (Fixed.State.perform Fixed.oneSlot) (Fixed.State.new Fixed.oneSlot)
        deliveredTwice := by
  have hwithin : Run.AllSteps (next (Fixed.State.perform Fixed.oneSlot))
      (Fixed.Within Fixed.oneSlot) (Fixed.State.new Fixed.oneSlot) deliveredTwice := by
    decide +kernel
  refine ⟨hwithin, (local_buses_answer_alike_iff Fixed.oneSlot deliveredTwice hwithin).mpr ?_⟩
  decide +kernel

/-- A message is received, and its subscriber leaves before the bus shuts down. -/
def leftBeforeShutdown : List Operation :=
  [.connect, .subscribe "a" true, .publish "a" [] [], .poll 0, .leave 0, .shutDown, .nack 0 0 true]

/-- A message is received, the bus shuts down, its subscriber leaves, and the bus is connected
again. -/
def reconnectedAfterShutdown : List Operation :=
  [.connect, .subscribe "a" true, .publish "a" [] [], .poll 0, .shutDown, .leave 0, .connect,
    .nack 0 0 true]

/-- Whether a call was refused because of a shutdown. -/
def Client.Reply.refused : Reply → Bool
  | .result (.error .shutDown) => true
  | _ => false

/-- The heap bus takes a requeue on a bus that is down, and refuses one on a bus that is live; the
fixed bus does the opposite. -/
theorem requeue_answers_differ :
    (Run.AllSteps (next (Fixed.State.perform Fixed.oneSlot)) (Fixed.Within Fixed.oneSlot)
        (Fixed.State.new Fixed.oneSlot) leftBeforeShutdown ∧
      (answers (Heap.State.perform 1) Heap.State.new leftBeforeShutdown).getLast?.map Reply.refused
        = some false ∧
      (answers (Fixed.State.perform Fixed.oneSlot) (Fixed.State.new Fixed.oneSlot)
        leftBeforeShutdown).getLast?.map Reply.refused = some true) ∧
    Run.AllSteps (next (Fixed.State.perform Fixed.oneSlot)) (Fixed.Within Fixed.oneSlot)
        (Fixed.State.new Fixed.oneSlot) reconnectedAfterShutdown ∧
      (answers (Heap.State.perform 1) Heap.State.new
        reconnectedAfterShutdown).getLast?.map Reply.refused = some true ∧
      (answers (Fixed.State.perform Fixed.oneSlot) (Fixed.State.new Fixed.oneSlot)
        reconnectedAfterShutdown).getLast?.map Reply.refused = some false := by
  refine ⟨⟨?_, ?_, ?_⟩, ?_, ?_, ?_⟩
  all_goals decide +kernel

end RustStream
