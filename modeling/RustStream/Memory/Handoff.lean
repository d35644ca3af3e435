import RustStream.Memory.Reposition

/-!
# When a seek takes effect

A seek returns as soon as it has recorded its target. The subscription applies it at the top of its
next poll, and what is promised is that the next delivery reflects the new position. A poll that is
already past its look at the pending target knows nothing of the seek: it goes on to receive from
the old queue, and the watermark only stops what lies below the target.

So the promise is kept exactly when the seek lands before the poll looks. Then nothing is handed out
until the target is applied; otherwise the poll may still hand out a delivery of the old queue,
after no more than a publish.

## Main definitions

* `Honoured`: the promise, from the state in which a seek returns.
* `Phase.willLook`: the poll has yet to look at the pending target.

## Main results

* `Awaiting.of_moves`, `honoured_of_awaiting`: a seek that lands before the look.
* `not_honoured_of_past_look`: one that lands after it.
* `seek_honoured_iff`: when the promise is kept.
-/

namespace RustStream

open List

/-! ## The promise -/

/-- The poll has yet to look at the pending target. -/
def Phase.willLook : Phase → Bool
  | .idle => true
  | .registered _ => true
  | _ => false

theorem Phase.target_of_willLook {phase : Phase} (h : phase.willLook = true) :
    phase.target = none := by
  cases phase with
  | idle => rfl
  | registered more => rfl
  | _ => cases h

/-- A target was recorded that is not yet applied to the queue. -/
def Cursor.Unapplied (cursor : Cursor) : Prop :=
  cursor.pending ≠ none ∨ cursor.phase.target ≠ none

/-- The promise of a seek of subscription `i` that has just returned: as long as its target is not
applied, and no other seek replaces it, nothing is handed out. -/
def Honoured (i : ℕ) (s : Seeking) : Prop :=
  ∀ after s', Run.exec step s after = some s' → .sub i .seekReplace ∉ after →
    (s'.cursors i).Unapplied → (s'.cursors i).yielded = (s.cursors i).yielded

/-! ## A seek before the look -/

/-- Where a recorded target is: pending until the poll looks, then taken, then applied. Until then
nothing is handed out after `yielded`. -/
inductive Awaiting (yielded : List MemoryDelivery) (cursor : Cursor) : Prop
  | pending (hpending : cursor.pending ≠ none) (hlook : cursor.phase.willLook = true)
      (hyielded : cursor.yielded = yielded)
  | taken (hpending : cursor.pending = none) (htarget : cursor.phase.target ≠ none)
      (hyielded : cursor.yielded = yielded)
  | applied (hpending : cursor.pending = none) (htarget : cursor.phase.target = none)

section Awaiting

variable {yielded : List MemoryDelivery} {cursor cursor' : Cursor} {i : ℕ} {log : LogState}
  {v v' : View} {m : Move} {s s' : Seeking}

section

variable (h : Awaiting yielded cursor)
include h

theorem Awaiting.yielded_eq (hunapplied : cursor.Unapplied) : cursor.yielded = yielded := by
  rcases h with ⟨-, -, hyielded⟩ | ⟨-, -, hyielded⟩ | ⟨hpending, htarget⟩
  · exact hyielded
  · exact hyielded
  · rcases hunapplied with hne | hne
    · exact absurd hpending hne
    · exact absurd htarget hne

theorem Awaiting.congr (hpending : cursor'.pending = cursor.pending)
    (hphase : cursor'.phase = cursor.phase) (hyielded : cursor'.yielded = cursor.yielded) :
    Awaiting yielded cursor' := by
  rcases h with ⟨hp, hlook, hy⟩ | ⟨hp, htarget, hy⟩ | ⟨hp, htarget⟩
  · exact .pending (hpending ▸ hp) (hphase ▸ hlook) (hyielded.trans hy)
  · exact .taken (hpending.trans hp) (hphase ▸ htarget) (hyielded.trans hy)
  · exact .applied (hpending.trans hp) (hphase ▸ htarget)

/-- Past the look and outside a swap, every recorded target is applied. -/
theorem Awaiting.pending_eq_none
    (hlook : cursor.phase.willLook = false) (htarget : cursor.phase.target = none) :
    cursor.pending = none := by
  rcases h with ⟨-, hlook', -⟩ | ⟨-, htarget', -⟩ | ⟨hpending, -⟩
  · rw [hlook] at hlook'
    cases hlook'
  · exact absurd htarget htarget'
  · exact hpending

/-- In a swap the target is taken, and nothing was handed out. -/
theorem Awaiting.of_target {target : ℕ} (htarget : cursor.phase.target = some target) :
    cursor.pending = none ∧ cursor.yielded = yielded := by
  rcases h with ⟨-, hlook, -⟩ | ⟨hpending, -, hyielded⟩ | ⟨-, hnone⟩
  · rw [Phase.target_of_willLook hlook] at htarget
    cases htarget
  · exact ⟨hpending, hyielded⟩
  · rw [htarget] at hnone
    cases hnone

end

theorem Awaiting.of_moves (h : Awaiting yielded v.cursor) (hmoves : Moves i log true v m v')
    (hseek : m ≠ .seekReplace) : Awaiting yielded v'.cursor := by
  -- a step from past the look to past the look, outside a swap
  have hreceiving : v.cursor.phase.willLook = false → v.cursor.phase.target = none →
      v'.cursor.pending = v.cursor.pending → v'.cursor.phase.target = none →
      Awaiting yielded v'.cursor := fun hlook htarget hpending htarget' =>
    .applied (hpending.trans (h.pending_eq_none hlook htarget)) htarget'
  -- and one inside it
  have hswap : ∀ {target}, v.cursor.phase.target = some target →
      v'.cursor.pending = v.cursor.pending → v'.cursor.phase.target = some target →
      v'.cursor.yielded = v.cursor.yielded → Awaiting yielded v'.cursor := by
    intro target htarget hpending htarget' hyielded
    obtain ⟨hnone, hy⟩ := h.of_target htarget
    refine .taken (hpending.trans hnone) ?_ (hyielded.trans hy)
    rw [htarget']
    exact Option.some_ne_none target
  cases hmoves with
  | refused position hlock => exact h
  | store position target hlock hresolve | drainOne target more delivery queue hphase hqueue
  | requeue k delivery hhand | settle k hhand => exact h.congr rfl rfl rfl
  | replace target hlock => exact absurd rfl hseek
  | register more hphase =>
    rcases h with ⟨hpending, -, hyielded⟩ | ⟨-, htarget, -⟩ | ⟨hpending, -⟩
    · exact .pending hpending rfl hyielded
    · rw [hphase] at htarget
      exact absurd rfl htarget
    · exact .applied hpending rfl
  | takeSome target more hphase hpending =>
    rcases h with ⟨-, -, hyielded⟩ | ⟨hnone, -, -⟩ | ⟨hnone, -⟩
    · exact .taken rfl (Option.some_ne_none target) hyielded
    · rw [hpending] at hnone
      cases hnone
    · rw [hpending] at hnone
      cases hnone
  | takeNone more hphase hpending => exact .applied hpending rfl
  | lockDead target more hphase hlive => cases hlive
  | lock target more hphase hlock | drainEnd target more hphase hqueue
  | replayOne target more delivery rest hphase => exact hswap (by rw [hphase]; rfl) rfl rfl rfl
  | unlock target more hphase =>
    have htarget : v.cursor.phase.target = some target := by rw [hphase]; rfl
    exact .applied (h.of_target htarget).1 rfl
  | receive more delivery queue hphase hqueue | receiveNone more hphase hqueue
  | stale more delivery hphase hstale =>
    exact hreceiving (by rw [hphase]; rfl) (by rw [hphase]; rfl) rfl rfl
  | handOut more delivery hphase hfresh =>
    refine hreceiving (by rw [hphase]; rfl) (by rw [hphase]; rfl) rfl ?_
    cases more <;> rfl

end Awaiting

section Before

variable {retention : Retention} {registrations : List (ℕ × String)} {names : ℕ → String}
  {past : List Event} {s : Seeking} {i : ℕ}

theorem Wired.isLive (h : Wired retention registrations names past s) :
    s.broker.bus.isLive = true := by
  obtain ⟨registry, hbus, -⟩ := h.bus
  rw [hbus]
  rfl

/-- A target that waits for the look is applied before anything else is handed out. -/
theorem honoured_of_awaiting (hrunning : Running retention registrations names past s)
    (h : Awaiting (s.cursors i).yielded (s.cursors i)) : Honoured i s := by
  intro after s' hexec hseek hunapplied
  have hothers : ∀ e ∈ after, e ≠ .sub i .seekReplace := by
    rintro e he rfl
    exact hseek he
  have hinv := @Run.exec_invariant _ _ step (fun _ e => e ≠ .sub i .seekReplace)
    (fun after s₁ => Running retention registrations names (past ++ after) s₁ ∧
      Awaiting (s.cursors i).yielded (s₁.cursors i))
    _ _ _ [] ?_ ?_ (Run.allSteps_of_forall (fun _ => hothers) _) hexec
  · exact hinv.2.yielded_eq hunapplied
  · rintro after s₁ e s₂ ⟨hrunning, hawaiting⟩ hne hstep
    rw [← append_assoc]
    refine ⟨hrunning.next hstep, ?_⟩
    cases e with
    | publish shared =>
      have hcursor : s₂.cursors i = s₁.cursors i :=
        congrArg View.cursor (view_of_publish hrunning.toWired hstep i).2
      rw [hcursor]
      exact hawaiting
    | sub j m =>
      by_cases hj : j = i
      · subst hj
        obtain ⟨v, hmoves, rfl⟩ := exists_of_step_sub hstep
        rw [hrunning.isLive] at hmoves
        rw [cursors_put]
        refine Awaiting.of_moves hawaiting hmoves ?_
        rintro rfl
        exact hne rfl
      · obtain ⟨lock, hview, -⟩ := exists_view_eq_of_step_sub (hrunning.sound j) hstep (Ne.symm hj)
        have hcursor : s₂.cursors i = s₁.cursors i := congrArg View.cursor hview
        rw [hcursor]
        exact hawaiting
  · rw [append_nil]
    exact ⟨hrunning, h⟩

end Before

/-! ## A seek after the look -/

section After

variable {i : ℕ} {log : LogState} {live : Bool} {v v' : View} {s s' : Seeking}

/-- Steps of one subscription are steps of the broker. -/
theorem exec_sub {moves : List Move}
    (h : Run.exec (move i s.broker.log s.broker.bus.isLive) (s.view i) moves = some v) :
    Run.exec step s (moves.map (.sub i)) = some (s.put i v) := by
  induction moves generalizing s with
  | nil =>
    cases h
    rw [put_view]
    rfl
  | cons m moves ih =>
    obtain ⟨v₁, hmove, hrest⟩ := Run.exec_cons_eq_some h
    have hstep : step s (.sub i m) = some (s.put i v₁) := by rw [step, hmove]; rfl
    rw [map_cons, Run.exec, hstep]
    dsimp only
    rw [ih (s := s.put i v₁) (by rw [view_put_self]; exact hrest), put_put]

/-- Subscription `i` can come to a view with `P` by steps of its own, without a seek. -/
def CanReach (i : ℕ) (log : LogState) (live : Bool) (P : View → Prop) (v : View) : Prop :=
  ∃ moves v', Run.exec (move i log live) v moves = some v' ∧ .seekReplace ∉ moves ∧ P v'

theorem CanReach.refl {P : View → Prop} (h : P v) : CanReach i log live P v :=
  ⟨[], v, rfl, not_mem_nil, h⟩

theorem CanReach.of_move {P : View → Prop} {m : Move} (hmove : move i log live v m = some v')
    (hne : m ≠ .seekReplace) (h : CanReach i log live P v') : CanReach i log live P v := by
  obtain ⟨moves, v₂, hexec, hno, hP⟩ := h
  refine ⟨m :: moves, v₂, ?_, ?_, hP⟩
  · rw [Run.exec, hmove]
    exact hexec
  · rw [mem_cons, not_or]
    exact ⟨Ne.symm hne, hno⟩

/-- A poll that receives can hand out a delivery, if one in its queue is not stale. -/
theorem canReach_handOut {more : ℕ} {queue : List MemoryDelivery} {delivery : MemoryDelivery}
    (hphase : v.cursor.phase = .receiving more) (hqueue : v.queue = queue)
    (hmem : delivery ∈ queue) (hseq : v.cursor.watermark ≤ delivery.seq) :
    CanReach i log live (fun v' => v'.cursor.pending = v.cursor.pending ∧
      v'.cursor.yielded ≠ v.cursor.yielded) v := by
  induction queue generalizing v with
  | nil => cases hmem
  | cons first queue ih =>
    -- the poll takes the first delivery and compares it
    let v₁ : View := { v.setPhase (.received first more) with queue := queue }
    have hreceive : move i log live v .receive = some v₁ := by
      rw [move, hphase, hqueue]
    by_cases hstale : first.seq < v.cursor.watermark
    · have hcompare : move i log live v₁ .compare = some (v₁.setPhase (.receiving more)) :=
        if_pos hstale
      have hmem' : delivery ∈ queue := by
        rcases mem_cons.mp hmem with rfl | hmem
        · exact absurd hseq (Nat.not_le_of_lt hstale)
        · exact hmem
      exact .of_move hreceive (by simp) (.of_move hcompare (by simp) (ih rfl rfl hmem' hseq))
    · have hcompare : move i log live v₁ .compare = some (v₁.handOut first more) :=
        if_neg hstale
      refine .of_move hreceive (by simp) (.of_move hcompare (by simp) (.refl ⟨rfl, ?_⟩))
      change v.cursor.yielded ++ [first] ≠ v.cursor.yielded
      simp

/-- A swap can come to its end. -/
theorem canReach_receiving {target more : ℕ} (hphase : v.cursor.phase = .taken target more)
    (hlock : v.lock = .free) :
    CanReach i log true (fun v' => v'.cursor.phase = .receiving more ∧ v'.lock = .free ∧
      v'.cursor.pending = v.cursor.pending ∧ v'.cursor.yielded = v.cursor.yielded) v := by
  -- from the end: what is left of the replay, and before it what is left of the drain
  have hreplay : ∀ rest queue, CanReach i log true (fun v' => v'.cursor.phase = .receiving more ∧
      v'.lock = .free ∧ v'.cursor.pending = v.cursor.pending ∧
        v'.cursor.yielded = v.cursor.yielded)
      { v.setPhase (.replaying target rest more) with queue := queue, lock := .swapping i } := by
    intro rest
    induction rest with
    | nil =>
      intro queue
      exact .of_move (m := .unlock) rfl (by simp) (.refl ⟨rfl, rfl, rfl, rfl⟩)
    | cons delivery rest ih =>
      intro queue
      exact .of_move (m := .replayOne) rfl (by simp) (ih (queue ++ [delivery]))
  have hdrain : ∀ queue, CanReach i log true (fun v' => v'.cursor.phase = .receiving more ∧
      v'.lock = .free ∧ v'.cursor.pending = v.cursor.pending ∧
        v'.cursor.yielded = v.cursor.yielded)
      { v.setPhase (.draining target more) with queue := queue, lock := .swapping i } := by
    intro queue
    induction queue with
    | nil => exact .of_move (m := .drainEnd) rfl (by simp) (hreplay _ [])
    | cons delivery queue ih => exact .of_move (m := .drainOne) rfl (by simp) ih
  have hmove : move i log true v .lock
      = some { v.setPhase (.draining target more) with lock := .swapping i } := by
    rw [move, hphase]
    dsimp only
    rw [if_neg (not_not.mpr hlock), if_neg (by simp)]
  exact .of_move hmove (by simp) (hdrain v.queue)

/-- A delivery handed out later is one that the promise rules out now. -/
theorem not_honoured_of_exec {events : List Event} (hexec : Run.exec step s events = some s')
    (hseek : .sub i .seekReplace ∉ events)
    (hyielded : (s'.cursors i).yielded = (s.cursors i).yielded) (h : ¬Honoured i s') :
    ¬Honoured i s := by
  intro hhonoured
  apply h
  intro after s₂ hafter hseek' hunapplied
  rw [hyielded]
  refine hhonoured (events ++ after) s₂ ?_ ?_ hunapplied
  · rw [Run.exec_append hexec]
    exact hafter
  · rw [mem_append, not_or]
    exact ⟨hseek, hseek'⟩

theorem not_honoured_of_canReach (hpending : (s.cursors i).pending ≠ none)
    (h : CanReach i s.broker.log s.broker.bus.isLive (fun v =>
      v.cursor.pending = (s.cursors i).pending ∧ v.cursor.yielded ≠ (s.cursors i).yielded)
      (s.view i)) : ¬Honoured i s := by
  obtain ⟨moves, v, hexec, hno, hpending', hyielded⟩ := h
  intro hhonoured
  have heq := hhonoured _ _ (exec_sub hexec) (by simpa using hno)
  rw [cursors_put] at heq
  exact hyielded (heq (Or.inl (hpending' ▸ hpending)))

end After

section Publish

variable {retention : Retention} {registrations : List (ℕ × String)} {names : ℕ → String}
  {past : List Event} {s : Seeking} {i : ℕ}

theorem exists_step_publish (hwired : Wired retention registrations names past s)
    (hlock : s.lock = .free) (shared : DeliveryInner) :
    ∃ s', step s (.publish shared) = some s' := by
  obtain ⟨registry, hbus, -⟩ := hwired.bus
  rw [step, if_neg (not_not.mpr hlock), fanoutUnsent_eq s.broker hbus shared]
  exact ⟨_, rfl⟩

section

variable (hrunning : Running retention registrations names past s)
include hrunning

section

variable (hi : ByName registrations names i)
include hi

/-- A poll past its look hands out the next message published. -/
theorem not_honoured_of_receiving {more : ℕ}
    (hphase : (s.cursors i).phase = .receiving more) (hlock : s.lock = .free)
    (hpending : (s.cursors i).pending ≠ none) : ¬Honoured i s := by
  let shared : DeliveryInner := ⟨names i, [], HeaderMap.new⟩
  obtain ⟨s', hpublish⟩ := exists_step_publish hrunning.toWired hlock shared
  have hqueue := queue_of_publish hrunning.toWired hi hpublish
  rw [if_pos rfl] at hqueue
  have hcursor : s'.cursors i = s.cursors i :=
    congrArg View.cursor (view_of_publish hrunning.toWired hpublish i).2
  have hexec : Run.exec step s [.publish shared] = some s' := by
    rw [Run.exec, hpublish]
    rfl
  refine not_honoured_of_exec hexec (by simp) (by rw [hcursor]) ?_
  refine not_honoured_of_canReach (hcursor ▸ hpending) ?_
  refine canReach_handOut (hcursor ▸ hphase) hqueue
    (mem_append_right _ (mem_singleton.mpr rfl)) ?_
  change (s'.cursors i).watermark ≤ _
  rw [hcursor]
  exact hrunning.watermark_le i

theorem not_honoured_of_canReach_receiving {more : ℕ} (hpending : (s.cursors i).pending ≠ none)
    (h : CanReach i s.broker.log s.broker.bus.isLive (fun v =>
      v.cursor.phase = .receiving more ∧ v.lock = .free ∧
      v.cursor.pending = (s.cursors i).pending ∧ v.cursor.yielded = (s.cursors i).yielded)
      (s.view i)) : ¬Honoured i s := by
  obtain ⟨moves, v, hmoves, hno, hphase, hlock, hpending', hyielded⟩ := h
  have hexec := exec_sub hmoves
  refine not_honoured_of_exec hexec (by simpa using hno) (by rw [cursors_put, hyielded]) ?_
  refine not_honoured_of_receiving (hrunning.run hexec) hi (by rw [cursors_put, hphase]) hlock ?_
  rw [cursors_put, hpending']
  exact hpending

/-- A poll past its look can hand out a delivery before it looks again. -/
theorem not_honoured_of_past_look (hlock : s.lock = .free)
    (hpending : (s.cursors i).pending ≠ none) (hlook : (s.cursors i).phase.willLook = false) :
    ¬Honoured i s := by
  have hreceiving : ∀ more, CanReach i s.broker.log s.broker.bus.isLive (fun v =>
      v.cursor.phase = .receiving more ∧ v.lock = .free ∧
      v.cursor.pending = (s.cursors i).pending ∧ v.cursor.yielded = (s.cursors i).yielded)
      (s.view i) → ¬Honoured i s := fun more =>
    not_honoured_of_canReach_receiving hrunning hi hpending
  have hswap := (hrunning.sound i).toLocked.isSwap_of_free hlock
  cases hphase : (s.cursors i).phase with
  | idle =>
    rw [hphase] at hlook
    cases hlook
  | registered more =>
    rw [hphase] at hlook
    cases hlook
  | taken target more =>
    -- the poll applies the target of an earlier seek and goes on
    apply hreceiving more
    rw [hrunning.isLive]
    exact canReach_receiving hphase hlock
  | draining target more | replaying target rest more =>
    rw [show (s.view i).cursor.phase = _ from hphase] at hswap
    cases hswap
  | receiving more => exact hreceiving more (.refl ⟨hphase, hlock, rfl, rfl⟩)
  | received delivery more =>
    -- a delivery of the old queue meets the new watermark
    have hmove : move i s.broker.log s.broker.bus.isLive (s.view i) .compare
        = if delivery.seq < (s.cursors i).watermark then
            some ((s.view i).setPhase (.receiving more))
          else some ((s.view i).handOut delivery more) := by
      rw [move, show (s.view i).cursor.phase = _ from hphase]
      rfl
    by_cases hstale : delivery.seq < (s.cursors i).watermark
    · rw [if_pos hstale] at hmove
      exact hreceiving more (.of_move hmove (by simp) (.refl ⟨rfl, hlock, rfl, rfl⟩))
    · rw [if_neg hstale] at hmove
      refine not_honoured_of_canReach hpending (.of_move hmove (by simp) (.refl ⟨rfl, ?_⟩))
      change (s.cursors i).yielded ++ [delivery] ≠ (s.cursors i).yielded
      simp

end

end

end Publish

/-! ## When the promise is kept -/

section Promise

variable {routing : Routing} {retention : Retention} {registrations : List (ℕ × String)}
  {names : ℕ → String} {broker : MemoryState} {before : List Event} {s s' : Seeking} {i : ℕ}

theorem exists_of_step_seekReplace (h : step s (.sub i .seekReplace) = some s') :
    s'.lock = .free ∧ ∃ target, s'.cursors i = { s.cursors i with pending := some target } := by
  obtain ⟨v, hmoves, rfl⟩ := exists_of_step_sub h
  cases hmoves with
  | replace target hlock => exact ⟨rfl, target, Function.update_self ..⟩

/-- **A seek takes effect before the next delivery exactly when it lands before the look.** Let
subscriptions be opened on a retaining broker, `i` of them by name, and let publishes, seeks, polls
and handlers take their steps in any order until a seek of `i` records its target and returns. Then
nothing is handed out before the target is applied, in any continuation, if and only if no poll of
`i` was past its look at the pending target. -/
theorem seek_honoured_iff
    (hvalid : ∀ r ∈ registrations, hasWildcard r.2 = true →
      ∃ pattern, Pattern.parse r.2 = .ok pattern)
    (hdistinct : (registrations.map Prod.fst).Nodup)
    (hopened : (newBroker routing (.bounded retention)).openAll registrations = .ok broker)
    (hi : (i, names i) ∈ registrations) (hname : hasWildcard (names i) = false)
    (hexec : Run.exec step (Seeking.start broker names) before = some s)
    (hseek : step s (.sub i .seekReplace) = some s') :
    Honoured i s' ↔ (s.cursors i).phase.willLook = true := by
  obtain ⟨hrunning, -⟩ := reachable hvalid hopened hexec
  have hrunning' := hrunning.next hseek
  obtain ⟨hlock, target, hcursor⟩ := exists_of_step_seekReplace hseek
  have hpending : (s'.cursors i).pending ≠ none := by
    rw [hcursor]
    exact Option.some_ne_none target
  have hphase : (s'.cursors i).phase = (s.cursors i).phase := by rw [hcursor]
  rw [← hphase]
  constructor
  · intro hhonoured
    by_contra hlook
    exact not_honoured_of_past_look hrunning' ⟨hdistinct, hi, hname⟩ hlock hpending
      (Bool.of_not_eq_true hlook) hhonoured
  · intro hlook
    exact honoured_of_awaiting hrunning' (.pending hpending hlook rfl)

/-- Two messages, of which a poll hands out the first. -/
def firstHandedOut : List Event :=
  [.publish ⟨"orders", [1], HeaderMap.new⟩, .publish ⟨"orders", [2], HeaderMap.new⟩] ++
    [.register 0, .take, .receive, .compare].map (.sub 0)

theorem seek_honoured_between_polls :
    ∃ broker s s', (newBroker .everyMatch (.bounded (.messages 2))).openAll [(0, "orders")]
        = .ok broker ∧
      Run.exec step (Seeking.start broker fun _ => "orders")
        (firstHandedOut ++ [.sub 0 (.seekStore .start)]) = some s ∧
      step s (.sub 0 .seekReplace) = some s' ∧ Honoured 0 s' := by
  have hrun : ((newBroker .everyMatch (.bounded (.messages 2))).openAll
      [(0, "orders")]).toOption.bind (fun broker =>
        (Run.exec step (Seeking.start broker fun _ => "orders")
          (firstHandedOut ++ [.sub 0 (.seekStore .start)])).bind fun s =>
            (step s (.sub 0 .seekReplace)).map fun _ => (s.cursors 0).phase.willLook)
      = some true := by
    decide +kernel
  cases hopened : (newBroker .everyMatch (.bounded (.messages 2))).openAll [(0, "orders")] with
  | error e =>
    rw [hopened] at hrun
    cases hrun
  | ok broker =>
    rw [hopened, Except.toOption, Option.bind_some] at hrun
    obtain ⟨s, hexec, hrun⟩ := Option.bind_eq_some_iff.mp hrun
    obtain ⟨s', hseek, hlook⟩ := Option.map_eq_some_iff.mp hrun
    exact ⟨broker, s, s', rfl, hexec, hseek, (seek_honoured_iff (valid_of_names (by decide +kernel))
      (by decide) hopened (by decide) (by decide +kernel) hexec hseek).mpr hlook⟩

/-- A seek to the start lands after the second poll has looked. The poll hands out the second
message, and the first is yet to be replayed. -/
theorem seek_passed_by_running_poll :
    ∃ broker s s', (newBroker .everyMatch (.bounded (.messages 2))).openAll [(0, "orders")]
        = .ok broker ∧
      Run.exec step (Seeking.start broker fun _ => "orders") (firstHandedOut ++
        [.register 0, .take, .seekStore .start, .seekReplace].map (.sub 0)) = some s ∧
      Run.exec step s ([.receive, .compare].map (.sub 0)) = some s' ∧
      (s.cursors 0).yielded.map MemoryDelivery.seq = [0] ∧
      (s'.cursors 0).yielded.map MemoryDelivery.seq = [0, 1] ∧
      (s'.cursors 0).pending = some 0 ∧ ¬Honoured 0 s := by
  have hrun : ((newBroker .everyMatch (.bounded (.messages 2))).openAll
      [(0, "orders")]).toOption.bind (fun broker =>
        (Run.exec step (Seeking.start broker fun _ => "orders") (firstHandedOut ++
          [.register 0, .take, .seekStore .start, .seekReplace].map (.sub 0))).bind fun s =>
            (Run.exec step s ([.receive, .compare].map (.sub 0))).map fun s' =>
              ((s.cursors 0).yielded.map MemoryDelivery.seq,
                (s'.cursors 0).yielded.map MemoryDelivery.seq, (s'.cursors 0).pending))
      = some ([0], [0, 1], some 0) := by
    decide +kernel
  cases hopened : (newBroker .everyMatch (.bounded (.messages 2))).openAll [(0, "orders")] with
  | error e =>
    rw [hopened] at hrun
    cases hrun
  | ok broker =>
    rw [hopened, Except.toOption, Option.bind_some] at hrun
    obtain ⟨s, hexec, hrun⟩ := Option.bind_eq_some_iff.mp hrun
    obtain ⟨s', hafter, hseen⟩ := Option.map_eq_some_iff.mp hrun
    rw [Prod.mk.injEq, Prod.mk.injEq] at hseen
    obtain ⟨hbefore, hyielded, hpending⟩ := hseen
    refine ⟨broker, s, s', rfl, hexec, hafter, hbefore, hyielded, hpending, fun hhonoured => ?_⟩
    have heq := hhonoured _ s' hafter (by simp) (Or.inl (by simp [hpending]))
    rw [heq, hbefore] at hyielded
    cases hyielded

end Promise

end RustStream
