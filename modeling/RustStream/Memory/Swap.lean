import RustStream.Memory.Seek

/-!
# The swap of a queue

A subscription that applies a reposition swaps its queue for what the log retains from the target
on. The swap takes many steps, and only the bus lock keeps publishes and other seeks out of it;
requeues come and go. A requeued copy counts more than one delivery, so the fresh deliveries of a
queue are those of the fanout and of the replay, and they are what the swap is about.

`Sound` is what holds between a subscription's steps: where the lock is, how much of the replay is
in the queue, and that the watermark is the target of the last seek. `Underway` looks back from the
middle of a swap: nothing was published since it took the lock, and the copies beside the replay
were requeued since.

## Main definitions

* `fresh`, `published`: the fresh deliveries of a queue, and what was published to a name.
* `Wired`, `Sound`, `Running`: the invariants of the setting, of a subscription, of a run.
* `Underway`: the way a swap has come.

## Main results

* `Wired.replay_eq`: a replay is what the log retains of the publishes.
* `Sound.of_moves`, `step_sound`: the invariant of a subscription.
* `step_underway`: the run of a swap.
-/

namespace RustStream

open Function List

/-! ## Fresh deliveries -/

/-- The deliveries that are no redeliveries: those of the fanout and of a replay. -/
def fresh (queue : List MemoryDelivery) : List MemoryDelivery :=
  queue.filter fun delivery => delivery.deliveries.get = 1

/-- A message of the log as a fresh delivery. -/
def freshDelivery (p : ℕ × DeliveryInner) : MemoryDelivery :=
  ⟨p.2, p.1, .min⟩

theorem fresh_append (queue queue' : List MemoryDelivery) :
    fresh (queue ++ queue') = fresh queue ++ fresh queue' :=
  filter_append _ _

variable (delivery : MemoryDelivery)

theorem fresh_cons (queue : List MemoryDelivery) :
    fresh (delivery :: queue) = fresh [delivery] ++ fresh queue :=
  fresh_append [delivery] queue

theorem fresh_map_freshDelivery (entries : List (ℕ × DeliveryInner)) :
    fresh (entries.map freshDelivery) = entries.map freshDelivery := by
  rw [fresh, filter_eq_self]
  intro delivery hmem
  obtain ⟨p, -, rfl⟩ := mem_map.mp hmem
  rfl

/-- A redelivery counts more than one. -/
theorem redelivered_ne_one : delivery.redelivered.deliveries.get ≠ 1 := by
  have hpos := delivery.deliveries.pos
  have hcount := NonZeroU64.toNat_saturatingAdd delivery.deliveries 1
  intro heq
  change (delivery.deliveries.saturatingAdd 1).get = 1 at heq
  rw [heq] at hcount
  have hone : (1 : UInt64).toNat = 1 := rfl
  have hmax : 2 ≤ u64Bound - 1 := by decide
  rw [hone] at hcount
  have htwo : 2 ≤ Nat.min (delivery.deliveries.get.toNat + 1) (u64Bound - 1) :=
    le_min (by omega) hmax
  omega

theorem fresh_redelivered : fresh [delivery.redelivered] = [] := by
  simp [fresh, redelivered_ne_one]

/-! ## What was published -/

/-- The messages published to a name, in order. -/
def published (name : String) (events : List Event) : List DeliveryInner :=
  events.filterMap fun
    | .publish shared => if shared.name = name then some shared else none
    | .sub _ _ => none

theorem published_snoc_sub (name : String) (events : List Event) (i : ℕ) (m : Move) :
    published name (events ++ [.sub i m]) = published name events := by
  simp [published]

theorem published_snoc_publish (name : String) (events : List Event) (shared : DeliveryInner) :
    published name (events ++ [.publish shared])
      = published name events ++ if shared.name = name then [shared] else [] := by
  by_cases h : shared.name = name
  · simp [published, h]
  · simp [published, h]

/-- The messages published to a name that its log retains at or past `target`, each as a fresh
delivery with its place among the publishes. -/
def retainedFrom (log : LogState) (name : String) (past : List Event) (target : ℕ) :
    List MemoryDelivery :=
  ((Window.number 0 (published name past)).filter fun p =>
    (log.bounds name).1 ≤ p.1 && target ≤ p.1).map freshDelivery

theorem pairwise_retainedFrom (log : LogState) (name : String) (past : List Event) (target : ℕ) :
    (retainedFrom log name past target).Pairwise fun d d' => d.seq < d'.seq := by
  have hnumbers : (Window.number 0 (published name past)).Pairwise fun p p' => p.1 < p'.1 := by
    rw [← pairwise_map, Window.map_fst_number]
    exact pairwise_lt_range'
  rw [retainedFrom, pairwise_map]
  exact hnumbers.sublist filter_sublist

theorem le_seq_of_mem_retainedFrom {log : LogState} {name : String} {past : List Event}
    {target : ℕ} {delivery : MemoryDelivery} (h : delivery ∈ retainedFrom log name past target) :
    target ≤ delivery.seq := by
  obtain ⟨p, hmem, rfl⟩ := mem_map.mp h
  have hkept := (mem_filter.mp hmem).2
  rw [Bool.and_eq_true, decide_eq_true_eq, decide_eq_true_eq] at hkept
  exact hkept.2

/-- The log of a name after what was published to it; a name nothing was published to has none. -/
def LogOf (retention : Retention) (history : List DeliveryInner) : Option TrackedLog → Prop
  | none => history = []
  | some log => NameLog.Of retention history log.toNameLog

/-- The setting of a run, kept by every step: a live retaining broker that holds the registrations
and whose logs are those of what was published. -/
structure Wired (retention : Retention) (registrations : List (ℕ × String)) (names : ℕ → String)
    (past : List Event) (s : Seeking) : Prop where
  bus : ∃ registry, s.broker.bus = .live registry ∧ Registered registrations registry
  isOpen : ∀ i, s.broker.isOpen i = true
  recording : s.broker.recording = true
  logs : ∃ logs, s.broker.log = .recording (.bounded retention) logs ∧
    ∀ name, LogOf retention (published name past) (logs name)
  named : ∀ i, (s.cursors i).name = names i

section Publish

variable {retention : Retention} {registrations : List (ℕ × String)} {names : ℕ → String}
  {past : List Event} {s s' : Seeking} {shared : DeliveryInner} {i : ℕ}

theorem LogOf.push {history : List DeliveryInner} {log : Option TrackedLog}
    (h : LogOf retention history log) (shared : DeliveryInner) :
    LogOf retention (history ++ [shared])
      (some ((log.getD .empty).push shared (.bounded retention))) := by
  have hof : NameLog.Of retention history (log.getD .empty).toNameLog := by
    cases log with
    | some log => exact h
    | none =>
      have hnil : history = [] := h
      rw [hnil]
      exact NameLog.of_empty retention
  obtain ⟨log', hpush, hof'⟩ := hof.push shared
  rw [TrackedLog.push_eq, Option.some.injEq, Prod.mk.injEq] at hpush
  obtain ⟨-, rfl⟩ := hpush
  exact hof'

theorem LogOf.nextSeq_eq {history : List DeliveryInner} {log : Option TrackedLog}
    (h : LogOf retention history log) : (log.getD .empty).nextSeq = history.length := by
  cases log with
  | some log => exact NameLog.Of.seq_eq h
  | none =>
    have hnil : history = [] := h
    rw [hnil]
    rfl

theorem Wired.bounds_eq (h : Wired retention registrations names past s) (name : String) :
    (s.broker.log.bounds name).2 = (published name past).length := by
  obtain ⟨logs, hlog, hlogs⟩ := h.logs
  have hname := hlogs name
  rw [hlog, LogState.bounds, LogState.name]
  cases hget : logs name with
  | some log =>
    rw [hget] at hname
    exact NameLog.Of.seq_eq hname
  | none =>
    rw [hget] at hname
    have hnil : published name past = [] := hname
    rw [hnil]
    rfl

/-- A replay is the part at or past the target of what the log retains of the name's publishes. -/
theorem Wired.replay_eq (h : Wired retention registrations names past s) (name : String)
    (target : ℕ) :
    s.broker.log.replay name target = retainedFrom s.broker.log name past target := by
  obtain ⟨logs, hlog, hlogs⟩ := h.logs
  have hname := hlogs name
  rw [retainedFrom, hlog, LogState.replay, LogState.bounds, LogState.name]
  cases hget : logs name with
  | some log =>
    rw [hget] at hname
    have hof : NameLog.Of retention (published name past) log.toNameLog := hname
    dsimp only
    rw [NameLog.replayFrom_eq, hof.number_eq, filter_filter]
    congr 2
    funext p
    exact Bool.and_comm _ _
  | none =>
    rw [hget] at hname
    have hnil : published name past = [] := hname
    rw [hnil]
    rfl

/-- What a publish does: it needs the lock free, is stamped with its place among the publishes to its
name, and is sent to its recipients. -/
theorem exists_of_step_publish (hwired : Wired retention registrations names past s)
    (h : step s (.publish shared) = some s') :
    s.lock = .free ∧ ∃ registry logs queues, s.broker.bus = .live registry ∧
      Registered registrations registry ∧
      s.broker.log = .recording (.bounded retention) logs ∧
      s' = { s with broker := { s.broker with
        log := .recording (.bounded retention) (update logs shared.name
          (some (((logs shared.name).getD .empty).push shared (.bounded retention))))
        queues := queues } } ∧
      ((registrations.map Prod.fst).Nodup → ∀ i, queues i = s.broker.queues i ++
        if i ∈ registry.recipients s.broker.isOpen shared.name then
          [freshDelivery ((published shared.name past).length, shared)] else []) := by
  obtain ⟨registry, hbus, hregistered⟩ := hwired.bus
  obtain ⟨logs, hlog, hlogs⟩ := hwired.logs
  let broker : MemoryState := { s.broker with
    log := .recording (.bounded retention) (update logs shared.name
      (some (((logs shared.name).getD .empty).push shared (.bounded retention)))) }
  have hstamp : s.broker.stamp shared
      = (freshDelivery ((published shared.name past).length, shared), broker) := by
    rw [MemoryState.stamp, if_pos hwired.recording, hlog]
    dsimp only [LogState.append]
    rw [(hlogs shared.name).nextSeq_eq]
    rfl
  rw [step] at h
  split_ifs at h with hlock
  rw [fanoutUnsent_eq s.broker hbus shared, hstamp] at h
  cases h
  obtain ⟨queues, hqueues⟩ := broker.exists_sendTo_eq
    (registry.recipients s.broker.isOpen shared.name)
    (freshDelivery ((published shared.name past).length, shared))
  refine ⟨not_not.mp hlock, registry, logs, queues, hbus, hregistered, hlog, ?_, ?_⟩
  · rw [hqueues]
  · intro hdistinct i
    have hsent := broker.queues_sendTo
      (freshDelivery ((published shared.name past).length, shared))
      (@Registered.nodup_recipients _ _ s.broker.isOpen shared.name hregistered hdistinct) i
    rw [hqueues] at hsent
    have hopen : broker.isOpen i = true := hwired.isOpen i
    simpa only [hopen, and_true] using hsent

theorem name_of_moves {log : LogState} {live : Bool} {v v' : View} {m : Move}
    (h : Moves i log live v m v') : v'.cursor.name = v.cursor.name := by
  cases h <;> rfl

theorem step_wired {e : Event} (hwired : Wired retention registrations names past s)
    (h : step s e = some s') : Wired retention registrations names (past ++ [e]) s' := by
  cases e with
  | publish shared =>
    obtain ⟨-, registry, logs, queues, hbus, hregistered, hlog, rfl, -⟩ :=
      exists_of_step_publish hwired h
    refine ⟨⟨registry, hbus, hregistered⟩, hwired.isOpen, hwired.recording, ⟨_, rfl, ?_⟩,
      hwired.named⟩
    intro name
    obtain ⟨logs', hlog', hlogs⟩ := hwired.logs
    rw [hlog] at hlog'
    cases hlog'
    rw [published_snoc_publish]
    by_cases hname : shared.name = name
    · subst hname
      rw [if_pos rfl, update_self]
      exact (hlogs shared.name).push shared
    · rw [if_neg hname, append_nil, update_of_ne (Ne.symm hname)]
      exact hlogs name
  | sub i m =>
    obtain ⟨v, hmoves, rfl⟩ := exists_of_step_sub h
    refine ⟨hwired.bus, hwired.isOpen, hwired.recording, ?_, fun j => ?_⟩
    · simp only [published_snoc_sub]
      exact hwired.logs
    · by_cases hj : j = i
      · subst hj
        have hname := name_of_moves hmoves
        simp only [Seeking.put, update_self, hname]
        exact hwired.named j
      · simp only [Seeking.put, update_of_ne hj]
        exact hwired.named j

/-- A subscription by name receives what is published to its name, once, and nothing else. -/
theorem mem_recipients_of_name {registry : Registry} {name text : String}
    (hregistered : Registered registrations registry)
    (hdistinct : (registrations.map Prod.fst).Nodup) {isOpen : ℕ → Bool}
    (hopen : ∀ i, isOpen i = true) (hi : (i, text) ∈ registrations)
    (htext : hasWildcard text = false) : i ∈ registry.recipients isOpen name ↔ name = text := by
  rw [hregistered.mem_recipients_iff (hopen i)]
  constructor
  · rintro ⟨text', hi', hreaches⟩
    have hpair := inj_on_of_nodup_map hdistinct hi hi' rfl
    cases hpair
    rcases hreaches with ⟨-, heq⟩ | ⟨pattern, hparse, -⟩
    · exact heq.symm
    · rw [hasWildcard_of_parse hparse] at htext
      cases htext
  · rintro rfl
    exact ⟨name, hi, Or.inl ⟨htext, rfl⟩⟩

end Publish

/-! ## The invariant of a subscription -/

/-- The watermark is the target of the last seek of subscription `i`, which is on its way, pending or
taken, and never past the tip. -/
structure Marked (i : ℕ) (log : LogState) (v : View) : Prop where
  seeking : ∀ target, v.lock = .seeking i target → v.cursor.watermark = target
  pending : ∀ target, v.cursor.pending = some target → (∀ t, v.lock ≠ .seeking i t) →
    v.cursor.watermark = target
  taken : ∀ target, v.cursor.phase.target = some target → v.cursor.pending = none →
    (∀ t, v.lock ≠ .seeking i t) → v.cursor.watermark = target
  le_tip : v.cursor.watermark ≤ (log.bounds v.cursor.name).2

/-- A swap of subscription `i` holds the lock, and after its drain the queue holds, beside what
handlers requeue, what of the replay is sent. -/
structure Locked (i : ℕ) (log : LogState) (v : View) : Prop where
  swapping : v.cursor.phase.isSwap = true → v.lock = .swapping i
  replaying : ∀ target rest more, v.cursor.phase = .replaying target rest more →
    log.replay v.cursor.name target = fresh v.queue ++ rest

/-- What holds of subscription `i` between any two steps. -/
structure Sound (i : ℕ) (log : LogState) (v : View) : Prop extends
  Marked i log v, Locked i log v

section Sound

variable {i : ℕ} {log : LogState} {live : Bool} {v v' : View} {m : Move}

theorem fresh_replay (log : LogState) (name : String) (target : ℕ) :
    fresh (log.replay name target) = log.replay name target := by
  unfold LogState.replay
  cases log.name name with
  | some log => exact fresh_map_freshDelivery _
  | none => rfl

theorem fresh_of_mem_replay {name : String} {target : ℕ} {delivery : MemoryDelivery}
    (h : delivery ∈ log.replay name target) : fresh [delivery] = [delivery] := by
  have hall := filter_eq_self.mp (fresh_replay log name target)
  exact filter_eq_self.mpr fun d hd => hall d (mem_singleton.mp hd ▸ h)

theorem resolve_le {position : MemoryPosition} {oldest tip target : ℕ} (hle : oldest ≤ tip)
    (h : position.resolve oldest tip = .ok target) : target ≤ tip := by
  cases position with
  | start =>
    cases h
    exact hle
  | tip =>
    cases h
    exact le_rfl
  | sequence n =>
    rw [MemoryPosition.resolve] at h
    split_ifs at h
    cases h
    exact min_le_right n tip

theorem bounds_le (log : LogState) (name : String) : (log.bounds name).1 ≤ (log.bounds name).2 := by
  unfold LogState.bounds
  cases log.name name with
  | some log => exact Nat.le_add_right _ _
  | none => exact le_rfl

theorem Marked.congr {log' : LogState} (h : Marked i log v)
    (hname : v'.cursor.name = v.cursor.name) (hwatermark : v'.cursor.watermark = v.cursor.watermark)
    (hpending : v'.cursor.pending = v.cursor.pending)
    (htarget : ∀ t, v'.cursor.phase.target = some t → v.cursor.phase.target = some t)
    (hlock : ∀ t, v'.lock = .seeking i t ↔ v.lock = .seeking i t)
    (htip : (log.bounds v.cursor.name).2 ≤ (log'.bounds v.cursor.name).2) : Marked i log' v' := by
  refine ⟨?_, ?_, ?_, ?_⟩
  · intro target ht
    rw [hwatermark]
    exact h.seeking target ((hlock target).mp ht)
  · intro target ht hfree
    rw [hwatermark]
    exact h.pending target (hpending ▸ ht) fun t heq => hfree t ((hlock t).mpr heq)
  · intro target ht hnone hfree
    rw [hwatermark]
    exact h.taken target (htarget target ht) (hpending ▸ hnone) fun t heq =>
      hfree t ((hlock t).mpr heq)
  · rw [hwatermark, hname]
    exact h.le_tip.trans htip

/-- Away from the swap there is nothing to hold. -/
theorem Locked.of_not_isSwap (h : v.cursor.phase.isSwap = false) : Locked i log v := by
  refine ⟨fun hswap => ?_, fun target rest more hphase => ?_⟩
  · rw [h] at hswap
    cases hswap
  · rw [hphase] at h
    cases h

/-- While the lock is free no swap is under way. -/
theorem Locked.isSwap_of_free (h : Locked i log v) (hfree : v.lock = .free) :
    v.cursor.phase.isSwap = false := by
  by_contra hswap
  have hlock := h.swapping (Bool.of_not_eq_false hswap)
  rw [hfree] at hlock
  cases hlock

theorem Locked.congr (h : Locked i log v) (hname : v'.cursor.name = v.cursor.name)
    (hphase : v'.cursor.phase = v.cursor.phase) (hqueue : fresh v'.queue = fresh v.queue)
    (hlock : v.lock = .swapping i → v'.lock = .swapping i) : Locked i log v' := by
  refine ⟨fun hswap => hlock (h.swapping (hphase ▸ hswap)), fun target rest more hp => ?_⟩
  rw [hname, hqueue]
  exact h.replaying target rest more (hphase ▸ hp)

theorem Marked.of_moves (h : Marked i log v)
    (hswap : v.cursor.phase.isSwap = true → v.lock = .swapping i)
    (hmoves : Moves i log live v m v') : Marked i log v' := by
  -- the steps that move neither the watermark nor the pending target
  have hkeep : v'.cursor.watermark = v.cursor.watermark → v'.cursor.pending = v.cursor.pending →
      (∀ t, v'.cursor.phase.target = some t → v.cursor.phase.target = some t) →
      (∀ t, v'.lock = .seeking i t ↔ v.lock = .seeking i t) → Marked i log v' :=
    fun hwatermark hpending htarget hlock =>
      h.congr (name_of_moves hmoves) hwatermark hpending htarget hlock le_rfl
  cases hmoves with
  | refused position hlock => exact h
  | store position target hlock hresolve =>
    -- the seek is on its way, so what was pending or taken before says nothing any more
    refine ⟨fun t ht => ?_, fun t ht hfree => absurd rfl (hfree target),
      fun t ht hnone hfree => absurd rfl (hfree target), resolve_le (bounds_le _ _) hresolve⟩
    cases ht
    rfl
  | replace target hlock =>
    have hwatermark := h.seeking target hlock
    refine ⟨fun t ht => ?_, fun t ht hfree => ?_, fun t ht hnone hfree => ?_, h.le_tip⟩
    · cases ht
    · cases ht
      exact hwatermark
    · cases hnone
  | takeSome target more hphase hpending =>
    refine ⟨h.seeking, fun t ht => ?_, fun t ht hnone hfree => ?_, h.le_tip⟩
    · cases ht
    · cases ht
      exact h.pending target hpending hfree
  | lock target more hphase hlock =>
    refine hkeep rfl rfl (fun t ht => ?_) fun t => ?_
    · rw [hphase]
      exact ht
    · rw [hlock]
      exact iff_of_false (fun heq => by cases heq) fun heq => by cases heq
  | drainOne target more delivery queue hphase hqueue =>
    exact hkeep rfl rfl (fun t ht => ht) fun t => Iff.rfl
  | drainEnd target more hphase hqueue | replayOne target more delivery rest hphase =>
    refine hkeep rfl rfl (fun t ht => ?_) fun t => Iff.rfl
    rw [hphase]
    exact ht
  | unlock target more hphase =>
    refine hkeep rfl rfl (fun t ht => by cases ht) fun t => ?_
    rw [hswap (by rw [hphase]; rfl)]
    exact iff_of_false (fun heq => by cases heq) fun heq => by cases heq
  | handOut more delivery hphase hfresh =>
    refine hkeep rfl rfl (fun t ht => ?_) fun t => Iff.rfl
    cases more <;> cases ht
  | requeue k delivery hhand => exact hkeep rfl rfl (fun t ht => ht) fun t => Iff.rfl
  | settle k hhand => exact hkeep rfl rfl (fun t ht => ht) fun t => Iff.rfl
  | _ => exact hkeep rfl rfl (fun t ht => by cases ht) fun t => Iff.rfl

theorem Locked.of_moves (h : Locked i log v) (hmoves : Moves i log live v m v') :
    Locked i log v' := by
  cases hmoves with
  | refused position hlock => exact h
  | store position target hlock hresolve | replace target hlock =>
    refine h.congr rfl rfl rfl fun hswap => ?_
    rw [hlock] at hswap
    cases hswap
  | lock target more hphase hlock =>
    exact ⟨fun hp => rfl, fun t rest more' hp => by cases hp⟩
  | drainOne target more delivery queue hphase hqueue =>
    refine ⟨h.swapping, fun t rest more' hp => ?_⟩
    rw [hphase] at hp
    cases hp
  | drainEnd target more hphase hqueue =>
    refine ⟨fun hp => h.swapping (by rw [hphase]; rfl), fun t rest more' hp => ?_⟩
    cases hp
    change _ = fresh v.queue ++ _
    rw [hqueue]
    rfl
  | replayOne target more delivery rest hphase =>
    -- the head of what is left becomes the last fresh delivery of the queue
    have hreplay := h.replaying target (delivery :: rest) more hphase
    refine ⟨fun hp => h.swapping (by rw [hphase]; rfl), fun t rest' more' hp => ?_⟩
    cases hp
    have hmem : delivery ∈ log.replay v.cursor.name target := by
      rw [hreplay]
      exact mem_append_right _ mem_cons_self
    change log.replay v.cursor.name target = fresh (v.queue ++ [delivery]) ++ rest
    rw [hreplay, fresh_append, fresh_of_mem_replay hmem, append_assoc, singleton_append]
  | handOut more delivery hphase hfresh =>
    refine .of_not_isSwap ?_
    cases more <;> rfl
  | requeue k delivery hhand =>
    refine h.congr rfl rfl ?_ id
    rw [fresh_append, fresh_redelivered, append_nil]
  | settle k hhand => exact h.congr rfl rfl rfl id
  | _ => exact .of_not_isSwap rfl

/-- A subscription's own step keeps its invariant. -/
theorem Sound.of_moves (h : Sound i log v) (hmoves : Moves i log live v m v') : Sound i log v' :=
  ⟨h.toMarked.of_moves h.swapping hmoves, h.toLocked.of_moves hmoves⟩

end Sound

section Step

variable {retention : Retention} {registrations : List (ℕ × String)} {names : ℕ → String}
  {past : List Event} {s s' : Seeking} {shared : DeliveryInner} {i j : ℕ} {m : Move} {e : Event}

/-- Another subscription's step leaves a subscription's cursor and queue, and the lock as far as the
subscription holds it. -/
theorem exists_view_eq_of_step_sub (hsound : Sound i s.broker.log (s.view i))
    (h : step s (.sub i m) = some s') (hj : j ≠ i) :
    ∃ lock, s'.view j = { s.view j with lock := lock } ∧
      ∀ l : Lock, l.holder = some j → (lock = l ↔ s.lock = l) := by
  obtain ⟨v, hmoves, rfl⟩ := exists_of_step_sub h
  exact ⟨v.lock, view_put_of_ne s hj v, fun l hl =>
    lock_eq_iff_of_moves hmoves hsound.swapping hj hl⟩

/-- A publish needs the lock free, and touches the queues alone. -/
theorem view_of_publish (hwired : Wired retention registrations names past s)
    (h : step s (.publish shared) = some s') (j : ℕ) :
    s.lock = .free ∧ s'.view j = { s.view j with queue := s'.broker.queues j } := by
  obtain ⟨hfree, registry, logs, queues, -, -, -, rfl, -⟩ := exists_of_step_publish hwired h
  exact ⟨hfree, rfl⟩

theorem step_sound (hwired : Wired retention registrations names past s)
    (hsound : ∀ j, Sound j s.broker.log (s.view j)) (h : step s e = some s') (j : ℕ) :
    Sound j s'.broker.log (s'.view j) := by
  cases e with
  | publish shared =>
    have hwired' := step_wired hwired h
    obtain ⟨hfree, hview⟩ := view_of_publish hwired h j
    rw [hview]
    refine ⟨(hsound j).toMarked.congr rfl rfl rfl (fun t ht => ht) (fun t => Iff.rfl) ?_, ?_⟩
    · rw [hwired.bounds_eq, hwired'.bounds_eq, published_snoc_publish, length_append]
      exact Nat.le_add_right _ _
    · exact .of_not_isSwap ((hsound j).toLocked.isSwap_of_free hfree)
  | sub i m =>
    by_cases hj : j = i
    · subst hj
      obtain ⟨v, hmoves, rfl⟩ := exists_of_step_sub h
      rw [view_put_self]
      exact (hsound j).of_moves hmoves
    · obtain ⟨lock, hview, hlock⟩ := exists_view_eq_of_step_sub (hsound i) h hj
      have hlog : s'.broker.log = s.broker.log := by
        obtain ⟨v, -, rfl⟩ := exists_of_step_sub h
        rfl
      rw [hview, hlog]
      exact ⟨(hsound j).toMarked.congr rfl rfl rfl (fun t ht => ht)
        (fun t => hlock (.seeking j t) rfl) le_rfl,
        (hsound j).toLocked.congr rfl rfl rfl (hlock (.swapping j) rfl).mpr⟩

/-- What holds of the broker after the events so far: the setting, and the invariant of every
subscription. -/
structure Running (retention : Retention) (registrations : List (ℕ × String)) (names : ℕ → String)
    (past : List Event) (s : Seeking) : Prop extends
    Wired retention registrations names past s where
  sound : ∀ j, Sound j s.broker.log (s.view j)

section

variable (h : Running retention registrations names past s)
include h

theorem Running.next (hstep : step s e = some s') :
    Running retention registrations names (past ++ [e]) s' :=
  ⟨step_wired h.toWired hstep, step_sound h.toWired h.sound hstep⟩

theorem Running.run {events : List Event} (hexec : Run.exec step s events = some s') :
    Running retention registrations names (past ++ events) s' :=
  Run.exec_invariant (fun _ _ _ _ h (_ : True) hstep => h.next hstep) h
    (Run.allSteps_of_forall (fun _ _ _ => trivial) s) hexec

theorem Running.watermark_le (i : ℕ) :
    (s.cursors i).watermark ≤ (published (names i) past).length := by
  have hle := (h.sound i).le_tip
  rw [h.bounds_eq] at hle
  rw [← h.named i]
  exact hle

end

/-- Subscription `i` was opened by name. -/
structure ByName (registrations : List (ℕ × String)) (names : ℕ → String) (i : ℕ) : Prop where
  distinct : (registrations.map Prod.fst).Nodup
  opened : (i, names i) ∈ registrations
  literal : hasWildcard (names i) = false

/-- What a publish appends to the queue of a subscription by name. -/
theorem queue_of_publish (hwired : Wired retention registrations names past s)
    (hi : ByName registrations names i) (h : step s (.publish shared) = some s') :
    s'.broker.queues i = s.broker.queues i ++
      if shared.name = names i then [freshDelivery ((published (names i) past).length, shared)]
      else [] := by
  obtain ⟨-, registry, logs, queues, -, hregistered, -, rfl, hqueues⟩ :=
    exists_of_step_publish hwired h
  have hrecipient := @mem_recipients_of_name _ _ _ shared.name _ hregistered hi.distinct _
    hwired.isOpen hi.opened hi.literal
  change queues i = _
  rw [hqueues hi.distinct i]
  by_cases heq : shared.name = names i
  · rw [if_pos (hrecipient.mpr heq), if_pos heq, heq]
  · rw [if_neg (fun hmem => heq (hrecipient.mp hmem)), if_neg heq]

end Step

/-! ## The run of a swap -/

/-- The deliveries that are redeliveries. -/
def copies (queue : List MemoryDelivery) : List MemoryDelivery :=
  queue.filter fun delivery => delivery.deliveries.get ≠ 1

/-- What a handler's step puts back into the queue of its subscription. -/
def View.requeuedBy (v : View) : Move → List MemoryDelivery
  | .requeue k => (v.cursor.hand[k]?).toList.map MemoryDelivery.redelivered
  | _ => []

/-- What an event puts back into the queue of subscription `i`. -/
def requeuedBy (i : ℕ) (s : Seeking) : Event → List MemoryDelivery
  | .publish _ => []
  | .sub j m => if j = i then (s.view i).requeuedBy m else []

/-- Past the drain, the copies in the queue are the last of those requeued. -/
def View.HoldsLastOf (v : View) (requeued : List MemoryDelivery) : Prop :=
  ∀ target rest more, v.cursor.phase = .replaying target rest more → copies v.queue <:+ requeued

section InSwap

variable {i : ℕ} {log : LogState} {live : Bool} {v v' : View} {m : Move}

theorem copies_append (queue queue' : List MemoryDelivery) :
    copies (queue ++ queue') = copies queue ++ copies queue' :=
  filter_append _ _

theorem copies_of_fresh {delivery : MemoryDelivery} (h : fresh [delivery] = [delivery]) :
    copies [delivery] = [] := by
  have hone := filter_eq_self.mp h delivery mem_cons_self
  simp [copies, of_decide_eq_true hone]

theorem copies_redelivered (delivery : MemoryDelivery) :
    copies [delivery.redelivered] = [delivery.redelivered] := by
  simp [copies, redelivered_ne_one]

/-- A swap begins with its lock, and on its way the queue gains no copies but requeued ones. -/
theorem isSwap_of_moves (hlocked : Locked i log v) (hmoves : Moves i log live v m v')
    (h : v'.cursor.phase.isSwap = true) :
    (m = .lock ∧ v'.HoldsLastOf []) ∨ (m ≠ .lock ∧ v.cursor.phase.isSwap = true ∧
      ∀ requeued, v.HoldsLastOf requeued → v'.HoldsLastOf (requeued ++ v.requeuedBy m)) := by
  -- the steps beside the poll that requeue nothing
  have hkeep : m ≠ .lock → v.requeuedBy m = [] → v'.cursor.phase = v.cursor.phase →
      v'.queue = v.queue → (m ≠ .lock ∧ v.cursor.phase.isSwap = true ∧
        ∀ requeued, v.HoldsLastOf requeued → v'.HoldsLastOf (requeued ++ v.requeuedBy m)) := by
    intro hne hrequeued hphase hqueue
    refine ⟨hne, hphase ▸ h, fun requeued hlast target rest more hp => ?_⟩
    rw [hrequeued, append_nil, hqueue]
    exact hlast target rest more (hphase ▸ hp)
  cases hmoves with
  | refused position hlock | store position target hlock hresolve | replace target hlock
  | settle k hhand => exact Or.inr (hkeep nofun rfl rfl rfl)
  | lock target more hphase hlock => exact Or.inl ⟨rfl, nofun⟩
  | drainOne target more delivery queue hphase hqueue =>
    refine Or.inr ⟨nofun, h, fun requeued hlast t rest more' hp => ?_⟩
    rw [hphase] at hp
    cases hp
  | drainEnd target more hphase hqueue =>
    refine Or.inr ⟨nofun, by rw [hphase]; rfl, fun requeued hlast t rest more' hp => ?_⟩
    change copies v.queue <:+ _
    rw [hqueue]
    exact nil_suffix
  | replayOne target more delivery rest hphase =>
    have hreplay := hlocked.replaying target (delivery :: rest) more hphase
    have hmem : delivery ∈ log.replay v.cursor.name target := by
      rw [hreplay]
      exact mem_append_right _ mem_cons_self
    refine Or.inr ⟨nofun, by rw [hphase]; rfl, fun requeued hlast t rest' more' hp => ?_⟩
    change copies (v.queue ++ [delivery]) <:+ requeued ++ []
    rw [copies_append, copies_of_fresh (fresh_of_mem_replay hmem), append_nil, append_nil]
    exact hlast target (delivery :: rest) more hphase
  | requeue k delivery hhand =>
    refine Or.inr ⟨nofun, h, fun requeued hlast t rest more' hp => ?_⟩
    have hrequeued : v.requeuedBy (.requeue k) = [delivery.redelivered] := by
      rw [View.requeuedBy, hhand]
      rfl
    change copies (v.queue ++ [delivery.redelivered]) <:+ requeued ++ v.requeuedBy (.requeue k)
    rw [copies_append, copies_redelivered, hrequeued]
    obtain ⟨dropped, hsplit⟩ := hlast t rest more' hp
    exact ⟨dropped, by rw [← append_assoc, hsplit]⟩
  | handOut more delivery hphase hfresh => cases more <;> cases h
  | _ => cases h

end InSwap

/-- The way a swap of subscription `i` has come: since it took the lock nothing was published, and
the copies in its queue are the last of those its handlers requeued. -/
def Underway (i : ℕ) (s₀ : Seeking) (past : List Event) (s : Seeking) : Prop :=
  (s.cursors i).phase.isSwap = true →
    ∃ before during s₁, past = before ++ .sub i .lock :: during ∧
      Run.exec step s₀ (before ++ [.sub i .lock]) = some s₁ ∧ Run.exec step s₁ during = some s ∧
      (∀ e ∈ during, e ≠ .sub i .lock ∧ ∀ shared, e ≠ .publish shared) ∧
      (s.view i).HoldsLastOf (Run.collect step (requeuedBy i) s₁ during)

theorem step_underway {retention : Retention} {registrations : List (ℕ × String)}
    {names : ℕ → String} {past : List Event} {s₀ s s' : Seeking} {e : Event} {i : ℕ}
    (hrunning : Running retention registrations names past s)
    (hexec : Run.exec step s₀ past = some s) (hunderway : Underway i s₀ past s)
    (h : step s e = some s') : Underway i s₀ (past ++ [e]) s' := by
  intro hswap
  -- a step in the middle of the swap
  have hgrow : (s.cursors i).phase.isSwap = true → e ≠ .sub i .lock →
      (∀ shared, e ≠ .publish shared) →
      (∀ requeued, (s.view i).HoldsLastOf requeued →
        (s'.view i).HoldsLastOf (requeued ++ requeuedBy i s e)) →
      ∃ before during s₁, past ++ [e] = before ++ .sub i .lock :: during ∧
        Run.exec step s₀ (before ++ [.sub i .lock]) = some s₁ ∧
        Run.exec step s₁ during = some s' ∧
        (∀ e ∈ during, e ≠ .sub i .lock ∧ ∀ shared, e ≠ .publish shared) ∧
        (s'.view i).HoldsLastOf (Run.collect step (requeuedBy i) s₁ during) := by
    intro hswap₀ hlock hpublish hlast
    obtain ⟨before, during, s₁, rfl, hbefore, hduring, hevents, hlast₀⟩ := hunderway hswap₀
    refine ⟨before, during ++ [e], s₁, by simp, hbefore, ?_, ?_, ?_⟩
    · rw [Run.exec_snoc hduring]
      exact h
    · intro e' he'
      rcases mem_append.mp he' with he' | he'
      · exact hevents e' he'
      · rw [mem_singleton.mp he']
        exact ⟨hlock, hpublish⟩
    · rw [Run.collect_snoc hduring]
      exact hlast _ hlast₀
  cases e with
  | publish shared =>
    obtain ⟨hfree, hview⟩ := view_of_publish hrunning.toWired h i
    have hcursor : s'.cursors i = s.cursors i := congrArg View.cursor hview
    -- a swap would hold the lock
    have hno := (hrunning.sound i).toLocked.isSwap_of_free hfree
    rw [hcursor] at hswap
    exact absurd hswap (Bool.not_eq_true _ ▸ hno)
  | sub j m =>
    by_cases hj : j = i
    · subst hj
      obtain ⟨v, hmoves, rfl⟩ := exists_of_step_sub h
      rw [cursors_put] at hswap
      rw [view_put_self] at hgrow ⊢
      rcases isSwap_of_moves (hrunning.sound j).toLocked hmoves hswap with
        ⟨rfl, hlast⟩ | ⟨hne, hswap₀, hlast⟩
      · exact ⟨past, [], _, rfl, (Run.exec_snoc hexec _).trans h, rfl, nofun, hlast⟩
      · refine hgrow hswap₀ (fun heq => hne (by cases heq; rfl)) nofun fun requeued hlast₀ => ?_
        rw [requeuedBy, if_pos rfl]
        exact hlast requeued hlast₀
    · obtain ⟨lock, hview, -⟩ := exists_view_eq_of_step_sub (hrunning.sound j) h (Ne.symm hj)
      have hcursor : s'.cursors i = s.cursors i := congrArg View.cursor hview
      rw [hcursor] at hswap
      refine hgrow hswap (fun heq => hj (by cases heq; rfl)) nofun fun requeued hlast => ?_
      rw [hview, requeuedBy, if_neg hj, append_nil]
      exact hlast

end RustStream
