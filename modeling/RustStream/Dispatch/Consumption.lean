import RustStream.Dispatch.Disposition

/-!
# Settlement neither loses nor doubles a message

Every settlement consumes its delivery with exactly one settle call, and what happens to the message
is one of five things: it is acked; the broker keeps or requeues it; it is rejected; one copy leaves
in its place; or the transport has no such settlement and nothing happens at all. The last is the
transport's own limit: `Unsupported` says that the broker has nothing to settle the delivery with,
and only a drop answered so is followed by a copy.

## Main definitions

* `Way`, `Consumed`: the five ways a delivery is consumed.

## Main results

* `settlement_consumes_once`: one call, one way, and a copy only behind an accepted drop.
-/

namespace RustStream

variable {b : Build} {Options : Type}

/-- The ways a delivery is consumed. -/
inductive Way where
  | acked
  -- the broker requeued it, or the call failed and the broker still has it
  | kept
  | rejected
  -- the original was dropped and one copy was published, scheduled or reported as failed
  | copied
  -- the transport has no such settlement
  | unsupported
  deriving DecidableEq, Repr

/-- The calls that bring a delivery back. -/
def SettleCall.Requeues : SettleCall → Prop
  | .nack true => True
  | .nackAfter _ => True
  | _ => False

/-- The way of a settlement that made one call, with its answer and the copies that left. -/
def Way.Of (call : SettleCall) (answer : Answer) (left : List (Departure b Options)) : Way → Prop
  | .acked => call = .ack ∧ answer = .ok () ∧ left = []
  | .kept => left = [] ∧
    ((call.Requeues ∧ answer = .ok ()) ∨ ∃ err, err ≠ .unsupported ∧ answer = .error err)
  | .rejected => call = .nack false ∧ answer = .ok () ∧ left = []
  | .copied => call = .nack false ∧ Dropped answer ∧ ∃ departure, left = [departure]
  | .unsupported => answer = .error .unsupported ∧ left = []

/-- The delivery was consumed in this way between the two worlds, by exactly one settle call. -/
def Consumed (w w' : World b Options) (way : Way) : Prop :=
  ∃ call answer left, w'.calls = w.calls ++ [(call, answer)] ∧
    w'.departures = w.departures ++ left ∧ way.Of call answer left

/-! ## The ways exclude each other

The call, its answer and whether a copy left decide the way: `classify` reads it off. -/

/-- The way a call, its answer and the copies that left come to. -/
def classify : SettleCall → Answer → List (Departure b Options) → Way
  | _, _, _ :: _ => .copied
  | _, .error .unsupported, [] => .unsupported
  | _, .error _, [] => .kept
  | .ack, .ok _, [] => .acked
  | .nack false, .ok _, [] => .rejected
  | _, .ok _, [] => .kept

variable {call : SettleCall} {answer : Answer} {left : List (Departure b Options)}

theorem Way.Of.eq_classify {way : Way} (h : way.Of call answer left) :
    way = classify call answer left := by
  cases way with
  | acked =>
    obtain ⟨rfl, rfl, rfl⟩ := h
    rfl
  | rejected =>
    obtain ⟨rfl, rfl, rfl⟩ := h
    rfl
  | copied =>
    obtain ⟨rfl, -, departure, rfl⟩ := h
    rfl
  | unsupported =>
    obtain ⟨rfl, rfl⟩ := h
    rfl
  | kept =>
    obtain ⟨rfl, ⟨hback, rfl⟩ | ⟨err, hne, rfl⟩⟩ := h
    · match call, hback with
      | .nack true, _ => rfl
      | .nackAfter _, _ => rfl
    · match err, hne with
      | .broker _, _ => rfl
      | .timeout, _ => rfl

/-- A call of the broker's own, without a copy, comes to the way it is classified as. -/
theorem classify_of_call (call : SettleCall) (answer : Answer) :
    (classify call answer ([] : List (Departure b Options))).Of call answer
      ([] : List (Departure b Options)) := by
  match answer, call with
  | .error .unsupported, _ => exact ⟨rfl, rfl⟩
  | .error (.broker error), _ => exact ⟨rfl, Or.inr ⟨_, by simp, rfl⟩⟩
  | .error .timeout, _ => exact ⟨rfl, Or.inr ⟨_, by simp, rfl⟩⟩
  | .ok _, .ack => exact ⟨rfl, rfl, rfl⟩
  | .ok _, .nack false => exact ⟨rfl, rfl, rfl⟩
  | .ok _, .nack true => exact ⟨rfl, Or.inl ⟨trivial, rfl⟩⟩
  | .ok _, .nackAfter _ => exact ⟨rfl, Or.inl ⟨trivial, rfl⟩⟩

theorem Consumed.unique {w w' : World b Options} {way way' : Way} (h : Consumed w w' way)
    (h' : Consumed w w' way') : way = way' := by
  obtain ⟨call, answer, left, hcalls, hleft, hway⟩ := h
  obtain ⟨call', answer', left', hcalls', hleft', hway'⟩ := h'
  rw [hcalls] at hcalls'
  rw [hleft] at hleft'
  obtain ⟨rfl, rfl⟩ : call = call' ∧ answer = answer' := by
    simpa using List.append_cancel_left hcalls'
  obtain rfl := List.append_cancel_left hleft'
  rw [hway.eq_classify, hway'.eq_classify]

/-! ## Every settlement -/

/-- What a realised disposition consumes its delivery with, and the way it comes to. -/
theorem Realises.consumed {msg : Message b} {w w' : World b Options} {d : Disposition Options b}
    (h : Realises msg w d (answer, w')) :
    ∃ call left, w'.calls = w.calls ++ [(call, msg.answer call)] ∧
      w'.departures = w.departures ++ left ∧
      (classify call (msg.answer call) left).Of call (msg.answer call) left ∧
      (left ≠ [] → call = .nack false ∧ Dropped (msg.answer (.nack false))) ∧
      (left = [] → NoCopy w w') := by
  cases d with
  | broker call =>
    obtain ⟨rfl, hcalls, hno⟩ := h
    refine ⟨call, [], hcalls, by rw [hno.departures_eq, List.append_nil], ?_, ?_, fun _ => hno⟩
    · exact classify_of_call call _
    · exact fun hne => absurd rfl hne
  | copy path target delay =>
    obtain ⟨hcalls, ⟨hdrop, -, -, departure, hdep, -⟩ | ⟨hdrop, -, hno⟩⟩ := h
    · refine ⟨.nack false, [departure], hcalls, hdep, ?_, fun _ => ⟨rfl, hdrop⟩, ?_⟩
      · exact ⟨rfl, hdrop, departure, rfl⟩
      · exact fun hnil => absurd hnil (by simp)
    · refine ⟨.nack false, [], hcalls, by rw [hno.departures_eq, List.append_nil], ?_, ?_,
        fun _ => hno⟩
      · exact classify_of_call _ _
      · exact fun hne => absurd rfl hne

/-- **Exactly once.** Whatever the outcome, the transport's answers, the declaration and the copy
path, the delivery is consumed by exactly one settle call, in exactly one way; a copy leaves only
where the drop of the original was accepted or there was nothing to drop; and where the call failed
otherwise no copy leaves, and every record and reservation is where it was. -/
theorem settlement_consumes_once (outcome : HandlerResult) (delivery : Delivery)
    (host : Host b Options) (msg : Message b) (w : World b Options) :
    (∃ call, (settleReacting outcome delivery host msg w).calls
        = w.calls ++ [(call, msg.answer call)]) ∧
      (∃! way, Consumed w (settleReacting outcome delivery host msg w) way) ∧
      ((settleReacting outcome delivery host msg w).departures ≠ w.departures →
        ∃ answer, Dropped answer ∧ (settleReacting outcome delivery host msg w).calls
          = w.calls ++ [(.nack false, answer)]) ∧
      (∀ call err, err ≠ .unsupported →
        (settleReacting outcome delivery host msg w).calls = w.calls ++ [(call, .error err)] →
        NoCopy w (settleReacting outcome delivery host msg w)) := by
  obtain ⟨answer, hrealises⟩ := settleReacting_realises outcome delivery host msg w
  obtain ⟨call, left, hcalls, hleft, hway, hcopied, hnone⟩ := hrealises.consumed
  refine ⟨⟨call, hcalls⟩, ⟨_, ⟨call, _, left, hcalls, hleft, hway⟩, ?_⟩, ?_, ?_⟩
  · intro way' h'
    exact h'.unique ⟨call, _, left, hcalls, hleft, hway⟩
  · intro hne
    have hsome : left ≠ [] := by
      rintro rfl
      exact hne (by rw [hleft, List.append_nil])
    obtain ⟨rfl, hdrop⟩ := hcopied hsome
    exact ⟨_, hdrop, hcalls⟩
  · intro call' err hne hcalls'
    refine hnone ?_
    by_contra hsome
    obtain ⟨rfl, hdrop⟩ := hcopied hsome
    -- the one call was answered with the error, which is no accepted drop
    rw [hcalls] at hcalls'
    have hpair : call' = .nack false ∧ msg.answer (.nack false) = .error err := by
      have := List.append_cancel_left hcalls'
      simp only [List.cons.injEq, Prod.mk.injEq, and_true] at this
      exact ⟨this.1.symm, this.2⟩
    rcases hdrop with hok | hun
    · rw [hpair.2] at hok
      cases hok
    · rw [hpair.2] at hun
      cases hun
      exact hne rfl

/-! ## A transport without a requeue

A subscription that declares nothing leaves an immediate retry to the broker. Where the transport
answers that it has no requeue, the delivery is neither acked nor kept, rejected or copied. -/

/-- A transport that requeues nothing. -/
def noRequeue : Message .alloc where
  payload := []
  headers := HeaderMap.new
  redeliveryCount := none
  supportsNackAfter := false
  answer
    | .nack true => .error .unsupported
    | _ => .ok ()

/-- A mount whose broker moves its deliveries itself. -/
def plainHost : Host .alloc Unit where
  mount := .plain
  storesCopies := false
  reserve := true

theorem unsupported_requeue_is_lost :
    ¬∃ way, (way = .acked ∨ way = .kept ∨ way = .rejected ∨ way = .copied) ∧
      Consumed (World.start none ⟨[], 0, false⟩)
        (settleReacting .retry ⟨⟨none, none⟩, none⟩ plainHost noRequeue
          (World.start none ⟨[], 0, false⟩)) way := by
  rintro ⟨way, hway, h⟩
  have hlost : Consumed (World.start none ⟨[], 0, false⟩)
      (settleReacting .retry ⟨⟨none, none⟩, none⟩ plainHost noRequeue
        (World.start none ⟨[], 0, false⟩)) .unsupported :=
    ⟨.nack true, .error .unsupported, [], rfl, rfl, rfl, rfl⟩
  rw [h.unique hlost] at hway
  simp at hway

end RustStream
