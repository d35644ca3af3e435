import RustStream.Memory.Swap

/-!
# Repositioning a subscription

What a swap leaves and what comes of it, in every run of a retaining broker. The queue past the
drain holds the replay and nothing else that is fresh, since no publish gets in before the lock is
free again. From there on, and until the next seek, the stream of a subscription is determined: what
was handed out, what its poll holds and what is queued make up the replay and then the publishes
since the swap, in order. No fresh delivery of it is below the watermark, so the comparison only
ever drops requeued copies.

## Main definitions

* `Following`: where a subscription stands in its stream.

## Main results

* `reachable`: what holds in every state of every run.
* `Following.of_moves`, `step_following`, `exec_following`: the stream of a subscription.
* `swap_is_exact`: a swap leaves exactly the replay, and nothing is lost or doubled across it.
-/

namespace RustStream

open List

/-! ## Reachable states -/

section Reachable

variable {routing : Routing} {retention : Retention} {registrations : List (ℕ × String)}
  {broker : MemoryState}

theorem wired_start (hvalid : ∀ r ∈ registrations, hasWildcard r.2 = true →
      ∃ pattern, Pattern.parse r.2 = .ok pattern)
    (hopened : (newBroker routing (.bounded retention)).openAll registrations = .ok broker)
    (names : ℕ → String) : Wired retention registrations names [] (Seeking.start broker names) := by
  obtain ⟨registry, hopened', -, hregistered⟩ :=
    @Registered.openAll _ _ (newBroker routing (.bounded retention)) _ (registered_new routing) rfl
      hvalid
  rw [hopened] at hopened'
  cases hopened'
  exact ⟨⟨registry, rfl, hregistered⟩, fun _ => rfl, rfl, ⟨fun _ => none, rfl, fun _ => rfl⟩,
    fun _ => rfl⟩

theorem sound_start (broker : MemoryState) (names : ℕ → String) (j : ℕ) :
    Sound j (Seeking.start broker names).broker.log ((Seeking.start broker names).view j) :=
  ⟨⟨nofun, nofun, nofun, Nat.zero_le _⟩, .of_not_isSwap rfl⟩

/-- What holds in every state of every run. -/
theorem reachable {names : ℕ → String} {past : List Event} {s : Seeking}
    (hvalid : ∀ r ∈ registrations, hasWildcard r.2 = true →
      ∃ pattern, Pattern.parse r.2 = .ok pattern)
    (hopened : (newBroker routing (.bounded retention)).openAll registrations = .ok broker)
    (hexec : Run.exec step (Seeking.start broker names) past = some s) :
    Running retention registrations names past s ∧
      ∀ j, Underway j (Seeking.start broker names) past s := by
  have hinv := @Run.exec_invariant _ _ step (fun _ _ => True)
    (fun past s => Run.exec step (Seeking.start broker names) past = some s ∧
      Running retention registrations names past s ∧
      ∀ j, Underway j (Seeking.start broker names) past s)
    _ _ _ _ ?_ ⟨rfl, ⟨wired_start hvalid hopened names, sound_start broker names⟩, fun j => nofun⟩
    (Run.allSteps_of_forall (fun _ _ _ => trivial) _) hexec
  · exact hinv.2
  · rintro past s e s' ⟨hexec, hrunning, hunderway⟩ - hstep
    exact ⟨(Run.exec_snoc hexec e).trans hstep, hrunning.next hstep,
      fun j => step_underway hrunning hexec (hunderway j) hstep⟩

end Reachable

/-! ## The stream after a swap -/

/-- Subscription `i` has applied its last seek, to `target`, and `stream` is what it is to hand out
after `yielded`, redeliveries aside. -/
structure Following (i target : ℕ) (yielded stream : List MemoryDelivery) (v : View) : Prop where
  pending : v.cursor.pending = none
  applied : v.cursor.phase.target = none
  unrequested : ∀ t, v.lock ≠ .seeking i t
  watermark : v.cursor.watermark = target
  le_seq : ∀ delivery ∈ stream, target ≤ delivery.seq
  handed : ∃ handed, v.cursor.yielded = yielded ++ handed ∧
    (∀ delivery ∈ handed, target ≤ delivery.seq) ∧
    fresh handed ++ fresh v.cursor.phase.held ++ fresh v.queue = stream

section Following

variable {i target : ℕ} {yielded stream : List MemoryDelivery} {log : LogState} {live : Bool}
  {v v' : View} {m : Move}

theorem fresh_eq_nil_or (delivery : MemoryDelivery) :
    fresh [delivery] = [] ∨ fresh [delivery] = [delivery] := by
  by_cases hone : delivery.deliveries.get = 1
  · exact Or.inr (by simp [fresh, hone])
  · exact Or.inl (by simp [fresh, hone])

/-- A step that hands nothing out keeps the place in the stream. -/
theorem Following.congr (h : Following i target yielded stream v)
    (hpending : v'.cursor.pending = v.cursor.pending)
    (happlied : v'.cursor.phase.target = none) (hlock : v'.lock = v.lock)
    (hwatermark : v'.cursor.watermark = v.cursor.watermark)
    (hyielded : v'.cursor.yielded = v.cursor.yielded)
    (hfresh : fresh v'.cursor.phase.held ++ fresh v'.queue
      = fresh v.cursor.phase.held ++ fresh v.queue) : Following i target yielded stream v' := by
  obtain ⟨handed, hhanded, hseq, hstream⟩ := h.handed
  refine ⟨hpending.trans h.pending, happlied, ?_, hwatermark.trans h.watermark, h.le_seq,
    handed, hyielded.trans hhanded, hseq, ?_⟩
  · rw [hlock]
    exact h.unrequested
  · rw [append_assoc, hfresh, ← append_assoc]
    exact hstream

/-- A subscription's own steps keep it in its stream, as long as nobody seeks. -/
theorem Following.of_moves (h : Following i target yielded stream v)
    (hmoves : Moves i log live v m v') (hseek : ∀ position, m ≠ .seekStore position) :
    Following i target yielded stream v' := by
  have hidle : ∀ {phase}, v.cursor.phase = phase → phase.target = none := fun hphase =>
    hphase ▸ h.applied
  cases hmoves with
  | refused position hlock => exact absurd rfl (hseek position)
  | store position target' hlock hresolve => exact absurd rfl (hseek position)
  | replace target' hlock => exact absurd hlock (h.unrequested target')
  | register more hphase | takeNone more hphase hpending | receiveNone more hphase hqueue =>
    exact h.congr rfl rfl rfl rfl rfl (by rw [hphase]; rfl)
  | takeSome target' more hphase hpending =>
    rw [h.pending] at hpending
    cases hpending
  | receive more delivery queue hphase hqueue =>
    refine h.congr rfl rfl rfl rfl rfl ?_
    rw [hphase, hqueue, fresh_cons delivery queue]
    rfl
  | stale more delivery hphase hstale =>
    refine h.congr rfl rfl rfl rfl rfl ?_
    rw [hphase]
    -- a fresh delivery is in the stream, so it is not below the watermark
    have hnil : fresh [delivery] = [] := by
      rcases fresh_eq_nil_or delivery with hnil | hself
      · exact hnil
      · obtain ⟨handed, -, -, hstream⟩ := h.handed
        have hmem : delivery ∈ stream := by
          rw [← hstream, hphase, Phase.held, hself]
          simp
        rw [h.watermark] at hstale
        exact absurd (h.le_seq delivery hmem) (Nat.not_le_of_lt hstale)
    change fresh [] ++ _ = fresh [delivery] ++ _
    rw [hnil]
    rfl
  | handOut more delivery hphase hfresh =>
    obtain ⟨handed, hhanded, hseq, hstream⟩ := h.handed
    have hheld : (v.handOut delivery more).cursor.phase.held = [] := by
      cases more <;> rfl
    refine ⟨h.pending, by cases more <;> rfl, h.unrequested, h.watermark, h.le_seq,
      handed ++ [delivery], ?_, ?_, ?_⟩
    · change v.cursor.yielded ++ [delivery] = _
      rw [hhanded, append_assoc]
    · intro d hd
      rcases mem_append.mp hd with hd | hd
      · exact hseq d hd
      · rw [mem_singleton.mp hd, ← h.watermark]
        exact hfresh
    · rw [hheld, fresh_append, ← hstream, hphase]
      change _ ++ [] ++ fresh v.queue = _
      rw [append_nil]
      rfl
  | requeue k delivery hhand =>
    refine h.congr rfl h.applied rfl rfl rfl ?_
    change _ ++ fresh (v.queue ++ [delivery.redelivered]) = _
    rw [fresh_append, fresh_redelivered, append_nil]
  | settle k hhand => exact h.congr rfl h.applied rfl rfl rfl rfl
  -- what is left are the steps of a swap, which nobody asked for
  | lockDead t more hphase hlive => cases hidle hphase
  | lock t more hphase hlock | drainOne t more delivery queue hphase hqueue
  | drainEnd t more hphase hqueue | replayOne t more delivery rest hphase | unlock t more hphase =>
    cases hidle hphase

end Following

section Run

variable {retention : Retention} {registrations : List (ℕ × String)} {names : ℕ → String}
  {past after : List Event} {s s' : Seeking} {i target : ℕ} {yielded stream : List MemoryDelivery}
  {e : Event}

theorem published_append (name : String) (events events' : List Event) :
    published name (events ++ events') = published name events ++ published name events' :=
  filterMap_append ..

/-- What events add to the stream of a name that `tip` messages were published to before. -/
def streamed (name : String) (tip : ℕ) (events : List Event) : List MemoryDelivery :=
  (Window.number tip (published name events)).map freshDelivery

theorem streamed_append (name : String) (tip : ℕ) (events events' : List Event) :
    streamed name tip (events ++ events')
      = streamed name tip events ++ streamed name (tip + (published name events).length) events' := by
  rw [streamed, published_append, Window.number_append, map_append]
  rfl

theorem streamed_publish (name : String) (tip : ℕ) (shared : DeliveryInner) :
    streamed name tip [.publish shared]
      = if shared.name = name then [freshDelivery (tip, shared)] else [] := by
  have hpublished := published_snoc_publish name [] shared
  rw [nil_append] at hpublished
  rw [streamed, hpublished]
  split_ifs <;> rfl

theorem le_seq_of_mem_streamed {name : String} {tip : ℕ} {events : List Event}
    {delivery : MemoryDelivery} (h : delivery ∈ streamed name tip events) : tip ≤ delivery.seq := by
  obtain ⟨⟨seq, shared⟩, hmem, rfl⟩ := mem_map.mp h
  obtain ⟨k, rfl, -⟩ := Window.mem_number.mp hmem
  exact Nat.le_add_right tip k

/-- A step of the broker adds to a stream what it publishes to the name. -/
theorem step_following (hrunning : Running retention registrations names past s)
    (hi : ByName registrations names i) (hfollowing : Following i target yielded stream (s.view i))
    (hseek : ∀ position, e ≠ .sub i (.seekStore position)) (h : step s e = some s') :
    Following i target yielded
      (stream ++ streamed (names i) (published (names i) past).length [e]) (s'.view i) := by
  cases e with
  | publish shared =>
    have hqueue := queue_of_publish hrunning.toWired hi h
    rw [← streamed_publish] at hqueue
    rw [(view_of_publish hrunning.toWired h i).2]
    obtain ⟨handed, hhanded, hseq, hstream⟩ := hfollowing.handed
    refine ⟨hfollowing.pending, hfollowing.applied, hfollowing.unrequested, hfollowing.watermark,
      ?_, handed, hhanded, hseq, ?_⟩
    · intro delivery hmem
      rcases mem_append.mp hmem with hmem | hmem
      · exact hfollowing.le_seq delivery hmem
      · -- the target is at most the tip, which the publish takes
        have htip := hrunning.watermark_le i
        rw [show (s.cursors i).watermark = target from hfollowing.watermark] at htip
        exact htip.trans (le_seq_of_mem_streamed hmem)
    · rw [hqueue, fresh_append, streamed, fresh_map_freshDelivery, ← hstream, ← append_assoc]
      rfl
  | sub j m =>
    have hnone : streamed (names i) (published (names i) past).length [.sub j m] = [] := rfl
    rw [hnone, append_nil]
    by_cases hj : j = i
    · subst hj
      obtain ⟨v, hmoves, rfl⟩ := exists_of_step_sub h
      rw [view_put_self]
      refine hfollowing.of_moves hmoves fun position heq => hseek position ?_
      rw [heq]
    · obtain ⟨lock, hview, hlock⟩ := exists_view_eq_of_step_sub (hrunning.sound j) h (Ne.symm hj)
      rw [hview]
      refine ⟨hfollowing.pending, hfollowing.applied, fun t heq => ?_, hfollowing.watermark,
        hfollowing.le_seq, hfollowing.handed⟩
      exact hfollowing.unrequested t ((hlock (.seeking i t) rfl).mp heq)

theorem exec_following (hrunning : Running retention registrations names past s)
    (hi : ByName registrations names i) (hfollowing : Following i target yielded stream (s.view i))
    (hseek : ∀ e ∈ after, ∀ position, e ≠ .sub i (.seekStore position))
    (h : Run.exec step s after = some s') : Following i target yielded
      (stream ++ streamed (names i) (published (names i) past).length after) (s'.view i) := by
  have hinv := @Run.exec_invariant _ _ step
    (fun _ e => ∀ position, e ≠ .sub i (.seekStore position))
    (fun after s => Running retention registrations names (past ++ after) s ∧
      Following i target yielded
        (stream ++ streamed (names i) (published (names i) past).length after) (s.view i))
    _ _ _ [] ?_ ?_ (Run.allSteps_of_forall (fun _ e he => hseek e he) _) h
  · exact hinv.2
  · rintro after s e s' ⟨hrunning, hfollowing⟩ hok hstep
    have hnext := step_following hrunning hi hfollowing hok hstep
    rw [published_append, length_append, append_assoc, ← streamed_append] at hnext
    rw [← append_assoc]
    exact ⟨hrunning.next hstep, hnext⟩
  · rw [append_nil]
    refine ⟨hrunning, ?_⟩
    change Following i target yielded (stream ++ []) (s.view i)
    rw [append_nil]
    exact hfollowing

end Run

/-! ## What a swap does -/

/-- What the swap of subscription `i` to `target` does, which a run from `s₀` brings to its last step:
before it the broker is `s`, after it `s'`. -/
structure Repositions (s₀ : Seeking) (name : String) (i target : ℕ) (before : List Event)
    (s s' : Seeking) : Prop where
  -- what is queued is the replay, in order and each message once
  replayed : fresh (s'.broker.queues i) = retainedFrom s.broker.log name before target
  increasing : (fresh (s'.broker.queues i)).Pairwise fun d d' => d.seq < d'.seq
  -- since the swap took the lock nothing was published, the copies beside the replay were requeued,
  -- and a queue whose own subscription did nothing is as it was
  undisturbed : ∃ earlier during s₁, before = earlier ++ .sub i .lock :: during ∧
    Run.exec step s₀ (earlier ++ [.sub i .lock]) = some s₁ ∧ Run.exec step s₁ during = some s ∧
    (∀ e ∈ during, e ≠ .sub i .lock ∧ ∀ shared, e ≠ .publish shared) ∧
    copies (s'.broker.queues i) <:+ Run.collect step (requeuedBy i) s₁ during ∧
    ∀ j ≠ i, (∀ m, .sub j m ∉ during) → s'.broker.queues j = s₁.broker.queues j
  -- every later publish to the name is appended
  appended : ∀ after s₂ shared s₃, Run.exec step s' after = some s₂ →
    step s₂ (.publish shared) = some s₃ → s₃.broker.queues i = s₂.broker.queues i ++
      streamed name ((published name before).length + (published name after).length)
        [.publish shared]
  -- and until the next seek the replay and the later publishes are handed out in order
  followed : (s'.cursors i).pending = none → (s'.cursors i).watermark = target ∧
    ∀ after s₂, Run.exec step s' after = some s₂ →
      (∀ e ∈ after, ∀ position, e ≠ .sub i (.seekStore position)) →
      ∃ handed, (s₂.cursors i).yielded = (s'.cursors i).yielded ++ handed ∧
        (∀ delivery ∈ handed, target ≤ delivery.seq) ∧
        fresh handed ++ fresh (s₂.cursors i).phase.held ++ fresh (s₂.broker.queues i)
          = retainedFrom s.broker.log name before target
            ++ streamed name (published name before).length after

section Swap

variable {routing : Routing} {retention : Retention} {registrations : List (ℕ × String)}
  {names : ℕ → String} {broker : MemoryState} {before : List Event} {s s' : Seeking} {i : ℕ}

theorem exists_of_step_unlock (h : step s (.sub i .unlock) = some s') :
    ∃ target more, (s.cursors i).phase = .replaying target [] more ∧
      s' = s.put i { (s.view i).setPhase (.receiving more) with lock := .free } := by
  obtain ⟨v, hmoves, rfl⟩ := exists_of_step_sub h
  cases hmoves with
  | unlock target more hphase => exact ⟨target, more, hphase, rfl⟩

/-- A queue changes by publishes and by the steps of its own subscription. -/
theorem queue_eq_of_exec {during : List Event} {j : ℕ} (h : Run.exec step s during = some s')
    (hpublish : ∀ e ∈ during, ∀ shared, e ≠ .publish shared) (hj : ∀ m, .sub j m ∉ during) :
    s'.broker.queues j = s.broker.queues j := by
  refine @Run.exec_invariant _ _ step
    (fun _ e => (∀ shared, e ≠ .publish shared) ∧ ∀ m, e ≠ .sub j m)
    (fun _ s₁ => s₁.broker.queues j = s.broker.queues j) _ _ _ [] ?_ rfl
    (Run.allSteps_of_forall (fun _ e he => ⟨hpublish e he, ?_⟩) _) h
  · rintro past s₁ e s₂ heq ⟨hno, hother⟩ hstep
    cases e with
    | publish shared => exact absurd rfl (hno shared)
    | sub k m =>
      obtain ⟨v, -, rfl⟩ := exists_of_step_sub hstep
      have hk : j ≠ k := by
        rintro rfl
        exact hother m rfl
      exact (congrArg View.queue (view_put_of_ne s₁ hk v)).trans heq
  · rintro m rfl
    exact hj m he

/-- A subscription that has applied its last seek is in the stream the replay begins. -/
theorem following_of_swap {target more : ℕ} {log : LogState} {v : View} {name : String}
    (hsound : Sound i log v) (hphase : v.cursor.phase = .replaying target [] more)
    (hpending : v.cursor.pending = none)
    (hreplay : log.replay v.cursor.name target = retainedFrom log name before target) :
    Following i target v.cursor.yielded (retainedFrom log name before target)
      { v.setPhase (.receiving more) with lock := .free } := by
  have hlock := hsound.swapping (by rw [hphase]; rfl)
  have hqueue := hsound.replaying target [] more hphase
  rw [hreplay, append_nil] at hqueue
  refine ⟨hpending, rfl, nofun, ?_, fun delivery => le_seq_of_mem_retainedFrom, [], ?_, nofun, ?_⟩
  · refine hsound.taken target ?_ hpending fun t heq => ?_
    · rw [hphase]
      rfl
    · rw [hlock] at heq
      cases heq
  · exact (append_nil _).symm
  · exact hqueue.symm

/-- **A swap is exact.** Let subscriptions be opened on a retaining broker, `i` of them by name, and
let publishes, seeks, polls and handlers take their steps in any order. Whenever a swap of `i` takes
its last step, its queue holds the messages the log retains at or past the target, in order and each
once, beside copies requeued while the swap ran; every later publish to the name is appended; until
the next seek these messages are handed out, none below the target; and no other queue changed. -/
theorem swap_is_exact
    (hvalid : ∀ r ∈ registrations, hasWildcard r.2 = true →
      ∃ pattern, Pattern.parse r.2 = .ok pattern)
    (hdistinct : (registrations.map Prod.fst).Nodup)
    (hopened : (newBroker routing (.bounded retention)).openAll registrations = .ok broker)
    (hi : (i, names i) ∈ registrations) (hname : hasWildcard (names i) = false)
    (hexec : Run.exec step (Seeking.start broker names) before = some s)
    (hunlock : step s (.sub i .unlock) = some s') :
    ∃ target more, (s.cursors i).phase = .replaying target [] more ∧
      Repositions (Seeking.start broker names) (names i) i target before s s' := by
  have hbyName : ByName registrations names i := ⟨hdistinct, hi, hname⟩
  obtain ⟨hrunning, hunderway⟩ := reachable hvalid hopened hexec
  obtain ⟨target, more, hphase, rfl⟩ := exists_of_step_unlock hunlock
  refine ⟨target, more, hphase, ?_⟩
  set v : View := { (s.view i).setPhase (.receiving more) with lock := .free } with hv
  have hqueue : (s.put i v).broker.queues i = s.broker.queues i := Function.update_self ..
  have hreplay : s.broker.log.replay (s.view i).cursor.name target
      = retainedFrom s.broker.log (names i) before target := by
    rw [show (s.view i).cursor.name = names i from hrunning.named i, hrunning.replay_eq]
  have hfresh : fresh (s.broker.queues i) = retainedFrom s.broker.log (names i) before target := by
    have hreplayed := (hrunning.sound i).replaying target [] more hphase
    rw [List.append_nil, hreplay] at hreplayed
    exact hreplayed.symm
  -- the last step gives back the lock and leaves the queue, so all but the rest of the run is read
  -- off the state before it
  refine ⟨?_, ?_, ?_, ?_, ?_⟩
  · rw [hqueue]
    exact hfresh
  · rw [hqueue, hfresh]
    exact pairwise_retainedFrom ..
  · obtain ⟨earlier, during, s₁, hbefore, hearlier, hduring, hevents, hlast⟩ :=
      hunderway i (by rw [hphase]; rfl)
    refine ⟨earlier, during, s₁, hbefore, hearlier, hduring, hevents, ?_, fun j hj hown => ?_⟩
    · rw [hqueue]
      exact hlast target [] more hphase
    · have hother := congrArg View.queue (view_put_of_ne s hj v)
      exact hother.trans (queue_eq_of_exec hduring (fun e he => (hevents e he).2) hown)
  · intro after s₂ shared s₃ hafter hpublish
    have hrun : Run.exec step (Seeking.start broker names) (before ++ [.sub i .unlock] ++ after)
        = some s₂ := by
      rw [Run.exec_append ((Run.exec_snoc hexec _).trans hunlock)]
      exact hafter
    have hlater := queue_of_publish (reachable hvalid hopened hrun).1.toWired hbyName hpublish
    rw [← streamed_publish, published_append, published_snoc_sub, List.length_append] at hlater
    exact hlater
  · rw [cursors_put]
    intro hpending
    have hfollowing := following_of_swap (hrunning.sound i) hphase hpending hreplay
    refine ⟨hfollowing.watermark, fun after s₂ hafter hseek => ?_⟩
    rw [← hv, ← view_put_self s i v] at hfollowing
    have hstream := (exec_following (hrunning.next hunlock) hbyName hfollowing hseek hafter).handed
    rw [published_snoc_sub] at hstream
    exact hstream

/-- Subscriptions by name alone can be opened. -/
theorem valid_of_names (h : ∀ r ∈ registrations, hasWildcard r.2 = false) :
    ∀ r ∈ registrations, hasWildcard r.2 = true → ∃ pattern, Pattern.parse r.2 = .ok pattern := by
  intro r hr hwild
  rw [h r hr] at hwild
  cases hwild

/-- Three publishes to a log of two, a delivery in hand, and a seek to the start of the log; the
delivery is requeued in the middle of the swap. -/
def requeueAmidSwap : List Event :=
  [.publish ⟨"orders", [1], HeaderMap.new⟩, .publish ⟨"orders", [2], HeaderMap.new⟩,
    .publish ⟨"orders", [3], HeaderMap.new⟩] ++
  ([.register 0, .take, .receive, .compare, .seekStore .start, .seekReplace, .register 0, .take,
    .lock, .drainOne, .drainOne, .drainEnd, .replayOne, .requeue 0, .replayOne].map (.sub 0))

theorem swap_is_exact_amid_requeue :
    ∃ broker s s', (newBroker .everyMatch (.bounded (.messages 2))).openAll
        [(0, "orders"), (1, "orders")] = .ok broker ∧
      Run.exec step (Seeking.start broker fun _ => "orders") requeueAmidSwap = some s ∧
      step s (.sub 0 .unlock) = some s' ∧
      (s'.broker.queues 0).map MemoryDelivery.seq = [1, 0, 2] ∧
      ∃ target more, (s.cursors 0).phase = .replaying target [] more ∧
        Repositions (Seeking.start broker fun _ => "orders") "orders" 0 target requeueAmidSwap s
          s' := by
  have hrun : (((newBroker .everyMatch (.bounded (.messages 2))).openAll
      [(0, "orders"), (1, "orders")]).toOption.bind fun broker =>
        (Run.exec step (Seeking.start broker fun _ => "orders") requeueAmidSwap).bind fun s =>
          (step s (.sub 0 .unlock)).map fun s' => (s'.broker.queues 0).map MemoryDelivery.seq)
      = some [1, 0, 2] := by
    decide +kernel
  cases hopened : (newBroker .everyMatch (.bounded (.messages 2))).openAll
      [(0, "orders"), (1, "orders")] with
  | error e =>
    rw [hopened] at hrun
    cases hrun
  | ok broker =>
    rw [hopened, Except.toOption, Option.bind_some] at hrun
    obtain ⟨s, hexec, hrun⟩ := Option.bind_eq_some_iff.mp hrun
    obtain ⟨s', hunlock, hqueue⟩ := Option.map_eq_some_iff.mp hrun
    refine ⟨broker, s, s', rfl, hexec, hunlock, hqueue, ?_⟩
    exact swap_is_exact (valid_of_names (by decide +kernel)) (by decide) hopened (by decide)
      (by decide +kernel) hexec hunlock

end Swap

end RustStream
