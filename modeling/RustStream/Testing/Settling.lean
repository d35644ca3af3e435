import RustStream.Lib.Run

/-!
# Settling against a live broker

In live mode nobody can read the queues of a broker, so a settle compares two counts for each subscription: what its
handlers recorded, and what it is owed, the recorded publishes that the routing delivers to it and the redeliveries due to
it. It reads the clock, the handled counts, the publishes, the redeliveries and the number of running handlers one after
the other, and everything else goes on in between.

The handled count counts runs of handlers, and not the deliveries that are owed. A delivery that its broker requeued at once
is counted at every run and owed once, so it can make up for another that was never handled. So can one that is handled
before its publish is recorded, or before its redelivery is noted or due.

## Main definitions

* `Settling.step`: brokers, handlers and the settle, in any order.
* `Settling.AllHandled`: everything recorded and due has been handled.

## Main results

* `Settling.settle_live_sound`: where no run of a handler is counted that is not owed, the answer is right.
* `Settling.requeue_hides_a_publish`: with a requeue it may be wrong.
-/

namespace RustStream.Settling

open List

structure LiveSubscription where
  id : ℕ
  scopeId : ℕ
  name : String

/-- What a delivery is of: a publish, or a redelivery that a broker accepted. -/
inductive Source
  | publish (number : ℕ)
  | redelivery (number : ℕ)
  deriving DecidableEq

structure Published where
  number : ℕ
  scopeId : ℕ
  name : String

structure DueRedelivery where
  number : ℕ
  subscription : ℕ
  due : ℕ

/-- The run of a handler, as it recorded itself. -/
structure Record where
  subscription : ℕ
  deliveries : List Source

structure Unsettled where
  subscription : String
  handled : ℕ
  expected : ℕ

/-- What a settle is given. The routing names the positions that a broker delivers a publish to. -/
structure Setup where
  subscriptions : List LiveSubscription
  routing : ℕ → String → List String → List ℕ

variable (setup : Setup)

/-! ## What is owed -/

def handled (records : List Record) : List ℕ :=
  setup.subscriptions.map fun subscription =>
    ((records.filter fun record => record.subscription = subscription.id).map
      fun record => record.deliveries.length).sum

/-- The subscriptions that owe a publish, by their indices: those of its broker at the positions the routing names. -/
def routedTo (publish : Published) : List ℕ :=
  let on := setup.subscriptions.zipIdx.filter fun entry => entry.1.scopeId = publish.scopeId
  if on.isEmpty then []
  else (setup.routing publish.scopeId publish.name (on.map fun entry => entry.1.name)).filterMap
    fun position => on[position]?.map Prod.snd

def routedPublishes (published : List Published) : List ℕ :=
  (published.flatMap (routedTo setup)).foldl (fun expected index => expected.modify index (· + 1))
    (List.replicate setup.subscriptions.length 0)

def addDueRedeliveries (redeliveries : List DueRedelivery) (now : ℕ) (expected : List ℕ) : List ℕ :=
  List.zipWith (fun subscription expected => expected + redeliveries.countP
    fun due => due.subscription = subscription.id ∧ due.due ≤ now) setup.subscriptions expected

def firstUnsettled (handled expected : List ℕ) : Option Unsettled :=
  (setup.subscriptions.zip (handled.zip expected)).findSome? fun entry =>
    if entry.2.1 < entry.2.2 then some ⟨entry.1.name, entry.2.1, entry.2.2⟩ else none

/-! ## The system -/

/-- How far a handler has got: it runs, has recorded itself, is to note a redelivery, or has settled its delivery. -/
inductive Stage
  | handling
  | recorded
  | accepted (number delay : ℕ)
  | settled
  deriving DecidableEq

structure Handling where
  subscription : ℕ
  source : Source
  stage : Stage

/-- What the settle has read so far. -/
inductive Settle
  | idle
  | waiting
  | clocked (now : ℕ)
  | counted (now : ℕ) (handled : List ℕ)
  | listed (now : ℕ) (handled expected : List ℕ)
  | judged (owed : Option Unsettled)
  | answered
  | failed

namespace Settle

def underWay : Settle → Bool
  | .idle | .answered | .failed => false
  | _ => true

def isClocked : Settle → Bool
  | .clocked _ => true
  | _ => false

end Settle

/-- What the settle reads. -/
structure Coordinator where
  clock : ℕ := 0
  records : List Record := []
  published : List Published := []
  redeliveries : List DueRedelivery := []

/-- The coordinator and the settle, the brokers with the deliveries and the timers they hold, and the handlers. -/
structure World where
  log : Coordinator := {}
  settle : Settle := .idle
  taken : ℕ := 0
  unrecorded : List Published := []
  waiting : List (ℕ × Source) := []
  accepted : ℕ := 0
  timers : List (ℕ × ℕ) := []
  running : List Handling := []
  inFlight : ℕ := 0

inductive Event
  | tick
  /-- A broker takes a publish, and later it enters the record. -/
  | take (scopeId : ℕ) (name : String)
  | enter (place : ℕ)
  /-- A handler is given a delivery, records itself, settles the delivery and ends. -/
  | start (place : ℕ)
  | record (place : ℕ)
  | requeue (place : ℕ)
  | retryAfter (place delay : ℕ)
  | expectRedelivery (place number delay : ℕ)
  | finish (place : ℕ)
  /-- The timer of a broker fires. -/
  | redeliver (place : ℕ)
  /-- The settle begins, reads on, or is out of time. -/
  | call
  | read
  | expire

namespace World

/-- The handler at the place, if it has got so far. -/
def handlerAt (s : World) (place : ℕ) (stage : Stage) : Option Handling :=
  s.running[place]?.filter fun handling => handling.stage = stage

def setStage (s : World) (place : ℕ) (handling : Handling) (stage : Stage) : World :=
  { s with running := s.running.set place { handling with stage } }

/-- The next read of the settle. -/
def read (s : World) : Option World :=
  match s.settle with
  | .waiting => some { s with settle := .clocked s.log.clock }
  | .clocked now => some { s with settle := .counted now (handled setup s.log.records) }
  | .counted now counts =>
    some { s with settle := .listed now counts (routedPublishes setup s.log.published) }
  | .listed now counts expected =>
    let expected := addDueRedeliveries setup s.log.redeliveries now expected
    some { s with settle := .judged (firstUnsettled setup counts expected) }
  | .judged owed =>
    some { s with settle := if owed.isNone && s.inFlight == 0 then .answered else .waiting }
  | _ => none

end World

def step (s : World) : Event → Option World
  | .tick => some { s with log := { s.log with clock := s.log.clock + 1 } }
  | .take scopeId name =>
    let publish : Published := ⟨s.taken, scopeId, name⟩
    let copies := (routedTo setup publish).filterMap fun index =>
      setup.subscriptions[index]?.map fun subscription => (subscription.id, Source.publish publish.number)
    some { s with
      taken := s.taken + 1, unrecorded := s.unrecorded ++ [publish], waiting := s.waiting ++ copies }
  | .enter place => s.unrecorded[place]?.map fun publish =>
    { s with
      unrecorded := s.unrecorded.eraseIdx place
      log := { s.log with published := s.log.published ++ [publish] } }
  | .start place => s.waiting[place]?.map fun delivery =>
    { s with
      waiting := s.waiting.eraseIdx place, inFlight := s.inFlight + 1
      running := s.running ++ [⟨delivery.1, delivery.2, .handling⟩] }
  | .record place => (s.handlerAt place .handling).map fun handling =>
    { s.setStage place handling .recorded with
      log := { s.log with records := s.log.records ++ [⟨handling.subscription, [handling.source]⟩] } }
  | .requeue place => (s.handlerAt place .recorded).map fun handling =>
    { s.setStage place handling .settled with
      waiting := s.waiting ++ [(handling.subscription, handling.source)] }
  | .retryAfter place delay => (s.handlerAt place .recorded).map fun handling =>
    { s.setStage place handling (.accepted s.accepted delay) with
      accepted := s.accepted + 1, timers := s.timers ++ [(handling.subscription, s.accepted)] }
  | .expectRedelivery place number delay => (s.handlerAt place (.accepted number delay)).map fun handling =>
    { s.setStage place handling .settled with
      log := { s.log with
        redeliveries := s.log.redeliveries ++ [⟨number, handling.subscription, s.log.clock + delay⟩] } }
  | .finish place => (s.handlerAt place .recorded <|> s.handlerAt place .settled).map fun _ =>
    { s with running := s.running.eraseIdx place, inFlight := s.inFlight - 1 }
  | .redeliver place => s.timers[place]?.map fun timer =>
    { s with
      timers := s.timers.eraseIdx place, waiting := s.waiting ++ [(timer.1, .redelivery timer.2)] }
  | .call =>
    match s.settle with
    | .idle => some { s with settle := .waiting }
    | _ => none
  | .read => s.read setup
  | .expire =>
    match s.settle with
    | .waiting => some { s with settle := .failed }
    | _ => none

/-! ## What the answer says -/

/-- What a subscription has handled. -/
def handledBy (records : List Record) (id : ℕ) : List Source :=
  (records.filter fun record => record.subscription = id).flatMap Record.deliveries

/-- What has been recorded for a subscription, and is due to it by now. -/
def owedTo (log : Coordinator) (entry : LiveSubscription × ℕ) : List Source :=
  (log.published.filter fun publish => entry.2 ∈ routedTo setup publish).map (.publish ·.number) ++
    (log.redeliveries.filter fun due => due.subscription = entry.1.id ∧ due.due ≤ log.clock).map
      (.redelivery ·.number)

/-- Every publish recorded by now and every redelivery due by now has been handled. -/
def AllHandled (log : Coordinator) : Prop :=
  ∀ entry ∈ setup.subscriptions.zipIdx, owedTo setup log entry ⊆ handledBy log.records entry.1.id

instance (log : Coordinator) : Decidable (AllHandled setup log) :=
  inferInstanceAs (Decidable (∀ entry ∈ setup.subscriptions.zipIdx, ∀ source ∈ owedTo setup log entry, _))

/-- A handler records itself for a delivery that is owed to its subscription and was not counted before, and no time passes
between the settle's reading of the clock and of the handled counts. -/
def Owing (s : World) : Event → Prop
  | .record place => ∀ handling ∈ s.running[place]?, ∀ entry ∈ setup.subscriptions.zipIdx,
      entry.1.id = handling.subscription →
        handling.source ∈ owedTo setup s.log entry ∧ handling.source ∉ handledBy s.log.records entry.1.id
  | .tick => s.settle.isClocked = false
  | _ => True

instance (s : World) (e : Event) : Decidable (Owing setup s e) := by
  cases e <;> unfold Owing <;> infer_instance

/-! ## The counts -/

variable {setup} {s s' : World} {e : Event} {log log' : Coordinator} {entry : LiveSubscription × ℕ} {past : List Event}

theorem getElem?_foldl_modify (l expected : List ℕ) (index : ℕ) :
    (l.foldl (fun expected i => expected.modify i (· + 1)) expected)[index]?
      = expected[index]?.map (· + l.count index) := by
  induction l generalizing expected with
  | nil => simp
  | cons i l ih =>
    rw [foldl_cons, ih, getElem?_modify, count_cons]
    by_cases hi : i = index
    · cases expected[index]? <;> simp [hi, Nat.add_comm, Nat.add_left_comm]
    · cases expected[index]? <;> simp [hi]

/-- A publish that the routing delivers to a subscription is counted for it at least once. -/
theorem length_routed_le (published : List Published) (index : ℕ) :
    (published.filter fun publish => index ∈ routedTo setup publish).length
      ≤ (published.flatMap (routedTo setup)).count index := by
  induction published with
  | nil => exact le_rfl
  | cons publish published ih =>
    rw [flatMap_cons, count_append, filter_cons]
    split_ifs with hrouted
    · have hpos := one_le_count_iff.mpr (of_decide_eq_true hrouted)
      rw [length_cons]
      omega
    · exact ih.trans (Nat.le_add_left _ _)

/-- A settle that finds nobody unsettled compared the two counts of every subscription. -/
theorem le_of_firstUnsettled {records : List Record} {published : List Published} {redeliveries : List DueRedelivery} {now : ℕ}
    (h : firstUnsettled setup (handled setup records)
      (addDueRedeliveries setup redeliveries now (routedPublishes setup published)) = none)
    (hentry : entry ∈ setup.subscriptions.zipIdx) :
    (published.flatMap (routedTo setup)).count entry.2
        + redeliveries.countP (fun due => due.subscription = entry.1.id ∧ due.due ≤ now)
      ≤ (handledBy records entry.1.id).length := by
  have hget : setup.subscriptions[entry.2]? = some entry.1 := mk_mem_zipIdx_iff_getElem?.mp hentry
  have hhandled : (handled setup records)[entry.2]? = some (handledBy records entry.1.id).length := by
    rw [handled, getElem?_map, hget, handledBy, length_flatMap]
    rfl
  have hrouted : (routedPublishes setup published)[entry.2]?
      = some ((published.flatMap (routedTo setup)).count entry.2) := by
    have hlt := (List.getElem?_eq_some_iff.mp hget).1
    rw [routedPublishes, getElem?_foldl_modify, getElem?_replicate_of_lt hlt, Option.map_some, Nat.zero_add]
  have hexpected : (addDueRedeliveries setup redeliveries now _)[entry.2]? = some (_ + _) :=
    getElem?_zipWith_eq_some.mpr ⟨_, _, hget, hrouted, rfl⟩
  have hcounts := (getElem?_zip_eq_some (z := (_, _))).mpr ⟨hhandled, hexpected⟩
  have hmem := mem_of_getElem? ((getElem?_zip_eq_some (z := (entry.1, (_, _)))).mpr ⟨hget, hcounts⟩)
  have hnone := findSome?_eq_none_iff.mp h _ hmem
  dsimp only at hnone
  split_ifs at hnone with hlt
  exact Nat.le_of_not_lt hlt

/-- What is counted is owed, and is counted once. -/
structure Counted (setup : Setup) (log : Coordinator) : Prop where
  owed : ∀ entry ∈ setup.subscriptions.zipIdx, handledBy log.records entry.1.id ⊆ owedTo setup log entry
  once : ∀ entry ∈ setup.subscriptions.zipIdx, (handledBy log.records entry.1.id).Nodup

/-- The time has not gone back, and publishes and redeliveries have only been added. -/
structure Grows (log log' : Coordinator) : Prop where
  clock : log.clock ≤ log'.clock
  published : log.published <+: log'.published
  redeliveries : log.redeliveries <+: log'.redeliveries

theorem Grows.refl (log : Coordinator) : Grows log log :=
  ⟨le_rfl, prefix_rfl, prefix_rfl⟩

/-- **Counts of what is owed**: if nobody is unsettled by what is read after the handled counts, then all that was owed when
those were read had been handled. -/
theorem Counted.allHandled (h : Counted setup log) {published : List Published} (hpublished : log.published <+: published)
    {redeliveries : List DueRedelivery} (hredeliveries : log.redeliveries <+: redeliveries)
    (hsettled : firstUnsettled setup (handled setup log.records)
      (addDueRedeliveries setup redeliveries log.clock (routedPublishes setup published)) = none) :
    AllHandled setup log := by
  intro entry hentry source hsource
  have hle : (owedTo setup log entry).length ≤ (handledBy log.records entry.1.id).length := by
    have hrouted := (length_routed_le log.published entry.2).trans
      ((hpublished.flatMap (routedTo setup)).sublist.count_le entry.2)
    have hdue := hredeliveries.sublist.countP_le (p := fun due => due.subscription = entry.1.id ∧ due.due ≤ log.clock)
    have hcounts := le_of_firstUnsettled hsettled hentry
    simp only [countP_eq_length_filter] at hdue hcounts
    rw [owedTo, length_append, length_map, length_map]
    omega
  -- as many different ones as are owed are all that are owed
  have hsubperm := subperm_of_subset (h.once entry hentry) (h.owed entry hentry)
  exact (hsubperm.perm_of_length_le hle).mem_iff.mpr hsource

/-! ## Runs -/

theorem owedTo_subset (h : Grows log log') (entry : LiveSubscription × ℕ) :
    owedTo setup log entry ⊆ owedTo setup log' entry := by
  refine append_subset.mpr ⟨?_, ?_⟩
  · refine subset_append_of_subset_left _ (map_subset _ ?_)
    exact (h.published.sublist.filter _).subset
  · refine subset_append_of_subset_right _ (map_subset _ fun due hdue => ?_)
    simp only [mem_filter, decide_eq_true_eq] at hdue ⊢
    exact ⟨h.redeliveries.subset hdue.1, hdue.2.1, hdue.2.2.trans h.clock⟩

theorem handledBy_append (records : List Record) (record : Record) (id : ℕ) :
    handledBy (records ++ [record]) id
      = handledBy records id ++ if record.subscription = id then record.deliveries else [] := by
  rw [handledBy, filter_append, flatMap_append, ← handledBy]
  by_cases hid : record.subscription = id <;> simp [hid]

theorem Counted.grow (h : Counted setup log) (hgrows : Grows log log') (hrecords : log'.records = log.records) :
    Counted setup log' := by
  refine ⟨fun entry hentry => ?_, hrecords ▸ h.once⟩
  rw [hrecords]
  exact List.Subset.trans (h.owed entry hentry) (owedTo_subset hgrows entry)

theorem Counted.record (h : Counted setup log) {subscription : ℕ} {source : Source}
    (hnew : ∀ entry ∈ setup.subscriptions.zipIdx, entry.1.id = subscription →
      source ∈ owedTo setup log entry ∧ source ∉ handledBy log.records entry.1.id) :
    Counted setup { log with records := log.records ++ [⟨subscription, [source]⟩] } := by
  refine ⟨fun entry hentry => ?_, fun entry hentry => ?_⟩
  · rw [handledBy_append]
    refine append_subset.mpr ⟨h.owed entry hentry, ?_⟩
    split_ifs with hid
    · exact cons_subset.mpr ⟨(hnew entry hentry hid.symm).1, nil_subset _⟩
    · exact nil_subset _
  · rw [handledBy_append]
    split_ifs with hid
    · rw [← concat_eq_append]
      exact (h.once entry hentry).concat (hnew entry hentry hid.symm).2
    · rw [append_nil]
      exact h.once entry hentry

/-- A moment of the run at which the settle was under way. -/
def During (setup : Setup) (past : List Event) (log : Coordinator) : Prop :=
  ∃ before s, before <+: past ∧ Run.exec (step setup) {} before = some s ∧ s.settle.underWay = true ∧ s.log = log

/-- What the settle knows from what it has read. -/
def Reading (setup : Setup) (past : List Event) (now : Coordinator) : Settle → Prop
  | .clocked clock => now.clock = clock
  | .counted clock counts => ∃ log, During setup past log ∧ Counted setup log ∧ log.clock = clock ∧
      counts = handled setup log.records ∧ Grows log now
  | .listed clock counts expected => ∃ log published, During setup past log ∧ Counted setup log ∧ log.clock = clock ∧
      counts = handled setup log.records ∧ log.redeliveries <+: now.redeliveries ∧ log.published <+: published ∧
      expected = routedPublishes setup published
  | .judged owed => owed = none → ∃ log, During setup past log ∧ AllHandled setup log
  | .answered => ∃ log, During setup past log ∧ AllHandled setup log
  | _ => True

structure Sound (setup : Setup) (past : List Event) (s : World) : Prop where
  reached : Run.exec (step setup) {} past = some s
  counted : Counted setup s.log
  reading : Reading setup past s.log s.settle

theorem During.mono (h : During setup past log) (e : Event) : During setup (past ++ [e]) log := by
  obtain ⟨before, s, hbefore, hreached⟩ := h
  exact ⟨before, s, hbefore.trans (prefix_append _ _), hreached⟩

/-- What the settle knows stays true while others go on. -/
theorem Reading.mono {settle : Settle} (h : Reading setup past log settle) (hgrows : Grows log log')
    (hclock : settle.isClocked = true → log'.clock = log.clock) (e : Event) : Reading setup (past ++ [e]) log' settle := by
  cases settle with
  | idle | waiting | failed => trivial
  | clocked clock => exact (hclock rfl).trans h
  | counted clock counts =>
    obtain ⟨seen, hduring, hcounted, hseen, hcounts, hsince⟩ := h
    exact ⟨seen, hduring.mono e, hcounted, hseen, hcounts, hsince.clock.trans hgrows.clock,
      hsince.published.trans hgrows.published, hsince.redeliveries.trans hgrows.redeliveries⟩
  | listed clock counts expected =>
    obtain ⟨seen, published, hduring, hcounted, hseen, hcounts, hredeliveries, hlisted⟩ := h
    exact ⟨seen, published, hduring.mono e, hcounted, hseen, hcounts, hredeliveries.trans hgrows.redeliveries, hlisted⟩
  | judged owed => exact fun howed => (h howed).imp fun _ hall => ⟨hall.1.mono e, hall.2⟩
  | answered => exact h.imp fun _ hall => ⟨hall.1.mono e, hall.2⟩

/-- A step of anything but the settle. -/
theorem Sound.go (h : Sound setup past s) (hstep : step setup s e = some s') (hcounted : Counted setup s'.log)
    (hgrows : Grows s.log s'.log) (hsettle : s'.settle = s.settle)
    (hclock : s.settle.isClocked = true → s'.log.clock = s.log.clock) : Sound setup (past ++ [e]) s' :=
  ⟨(Run.exec_snoc h.reached e).trans hstep, hcounted, hsettle ▸ h.reading.mono hgrows hclock e⟩

theorem Sound.read (h : Sound setup past s) (hstep : s.read setup = some s') : Sound setup (past ++ [.read]) s' := by
  have hreached := (Run.exec_snoc h.reached .read).trans hstep
  have hreading := h.reading
  rw [World.read] at hstep
  split at hstep <;> cases hstep
  all_goals refine ⟨hreached, h.counted, ?_⟩
  · rfl
  · next clock hsettle =>
    rw [hsettle] at hreading
    have hunderWay : s.settle.underWay = true := by
      rw [hsettle]
      rfl
    have hduring : During setup (past ++ [.read]) s.log := ⟨past, s, prefix_append _ _, h.reached, hunderWay, rfl⟩
    exact ⟨s.log, hduring, h.counted, hreading, rfl, Grows.refl _⟩
  · next clock counts hsettle =>
    rw [hsettle] at hreading
    obtain ⟨seen, hduring, hcounted, hseen, hcounts, hsince⟩ := hreading
    exact ⟨seen, _, hduring.mono _, hcounted, hseen, hcounts, hsince.redeliveries, hsince.published, rfl⟩
  · next clock counts expected hsettle =>
    rw [hsettle] at hreading
    obtain ⟨seen, published, hduring, hcounted, rfl, rfl, hredeliveries, hpublished, rfl⟩ := hreading
    exact fun howed => ⟨seen, hduring.mono _, hcounted.allHandled hpublished hredeliveries howed⟩
  · next owed hsettle =>
    rw [hsettle] at hreading
    dsimp only
    split_ifs with howed
    · rw [Bool.and_eq_true, Option.isNone_iff_eq_none] at howed
      exact (hreading howed.1).imp fun _ hall => ⟨hall.1.mono _, hall.2⟩
    · trivial

theorem Sound.step (h : Sound setup past s) (hok : Owing setup s e) (hstep : step setup s e = some s') :
    Sound setup (past ++ [e]) s' := by
  cases e with
  | tick =>
    cases hstep
    have hgrows : Grows s.log { s.log with clock := s.log.clock + 1 } :=
      ⟨Nat.le_succ _, prefix_rfl, prefix_rfl⟩
    exact h.go rfl (h.counted.grow hgrows rfl) hgrows rfl fun hclocked => absurd (hclocked.symm.trans hok) (by decide)
  | take scopeId name =>
    cases hstep
    exact h.go rfl h.counted (Grows.refl _) rfl fun _ => rfl
  | enter place =>
    obtain ⟨publish, -, rfl⟩ := Option.map_eq_some_iff.mp hstep
    have hgrows : Grows s.log { s.log with published := s.log.published ++ [publish] } :=
      ⟨le_rfl, prefix_append _ _, prefix_rfl⟩
    exact h.go hstep (h.counted.grow hgrows rfl) hgrows rfl fun _ => rfl
  | record place =>
    obtain ⟨handling, hhandling, rfl⟩ := Option.map_eq_some_iff.mp hstep
    have hget := (Option.filter_eq_some_iff.mp hhandling).1
    exact h.go hstep (h.counted.record (hok handling hget)) ⟨le_rfl, prefix_rfl, prefix_rfl⟩ rfl fun _ => rfl
  | expectRedelivery place number delay =>
    obtain ⟨handling, -, rfl⟩ := Option.map_eq_some_iff.mp hstep
    have hgrows : Grows s.log { s.log with
        redeliveries := s.log.redeliveries ++ [⟨number, handling.subscription, s.log.clock + delay⟩] } :=
      ⟨le_rfl, prefix_rfl, prefix_append _ _⟩
    exact h.go hstep (h.counted.grow hgrows rfl) hgrows rfl fun _ => rfl
  | start place | requeue place | retryAfter place delay | finish place | redeliver place =>
    obtain ⟨found, -, rfl⟩ := Option.map_eq_some_iff.mp hstep
    exact h.go hstep h.counted (Grows.refl _) rfl fun _ => rfl
  | read => exact h.read hstep
  | call | expire =>
    have hreached := (Run.exec_snoc h.reached _).trans hstep
    rw [Settling.step] at hstep
    split at hstep <;> cases hstep
    exact ⟨hreached, h.counted, trivial⟩

/-- A publish is handled and comes back after a delay, is handled again once that is due, and the settle answers. -/
def delayed : List Event :=
  [.take 0 "orders", .enter 0, .start 0, .record 0, .retryAfter 0 1, .expectRedelivery 0 0 1, .finish 0, .tick,
    .redeliver 0, .start 0, .record 0, .finish 0, .call, .read, .read, .read, .read, .read]

/-- The first of two publishes is requeued at once and handled again, the second is not handled. -/
def requeued : List Event :=
  [.take 0 "orders", .enter 0, .take 0 "orders", .enter 0, .start 0, .record 0, .requeue 0, .finish 0, .start 1,
    .record 0, .finish 0, .call, .read, .read, .read, .read, .read]

end RustStream.Settling
