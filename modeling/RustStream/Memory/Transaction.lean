import RustStream.Memory.Lifecycle

/-!
# Transactions

A transaction holds back what is published in it. A publisher handle has at most one open at a time,
and the owned form is a value of its own, of which any number may be open; both are a buffer that a
commit takes and fans out message by message. Each of these fanouts takes the bus lock for itself and
gives it back, so a commit is as many steps on the broker as its transaction had messages, and other
threads have their turns between them. A shutdown may be one of those turns: the rest of the buffer
is then refused, and the commit answers with that error.

What a subscriber should see of a commit is all of it at one point, or nothing. This is what the
commit gives if the broker is left alone from its first fanout to its last, and no more than that.

## Main definitions

* `Transaction.step`: the steps of the broker and of the transactions on it.
* `AllAtOnce`: the messages of a commit became visible at one point.
* `Transaction.Undisturbed`: the broker is left alone during a commit.

## Main results

* `TookIn.append`: fanouts with nothing between them.
* `commit_atomic_of_undisturbed`: commits are atomic where nothing disturbs them.
-/

namespace RustStream

open Function List

/-! ## Transactions -/

/-- What the operations of a transaction can fail with. -/
inductive TransactionError where
  | transactionBusy
  | noTransaction
  | refused (error : MemoryError)

namespace Transaction

/-- A transaction, by where its buffer is: at a publisher handle, or in a value of its own. -/
inductive Form where
  | handle (n : ℕ)
  | owned (n : ℕ)
  deriving DecidableEq, Repr

/-- A commit under way: what it has fanned out, the message it fans out next, and the rest. -/
structure Commit where
  sent : List DeliveryInner
  next : DeliveryInner
  later : List DeliveryInner
  -- the broker as the first fanout found it
  before : Option MemoryState

/-- What the transaction had buffered. -/
def Commit.buffered (c : Commit) : List DeliveryInner :=
  c.sent ++ c.next :: c.later

/-- A commit that has returned: its buffer and its answer, with the broker as its first fanout found
it and as its last one left it. -/
structure Outcome where
  buffered : List DeliveryInner
  answer : Except TransactionError Unit
  before : MemoryState
  after : MemoryState

/-- The broker, the open transactions, and the commits of `n` threads. -/
structure State (n : ℕ) where
  seeking : Seeking
  buffers : Form → Option (List DeliveryInner)
  commits : Fin n → Option Commit
  outcomes : List Outcome

inductive Event (n : ℕ) where
  | broker (e : BrokerEvent)
  | beginTransaction (form : Form)
  | publish (form : Form) (msg : DeliveryInner)
  | abort (form : Form)
  | commit (form : Form) (t : Fin n)
  -- the next fanout of the commit on thread `t`
  | fanout (t : Fin n)

variable {n : ℕ}

namespace State

/-- A broker with no transaction open. -/
def start (n : ℕ) (seeking : Seeking) : State n :=
  ⟨seeking, fun _ => none, fun _ => none, []⟩

def broker (s : State n) : MemoryState := s.seeking.broker

def setBuffer (s : State n) (form : Form) (buffer : Option (List DeliveryInner)) : State n :=
  { s with buffers := Function.update s.buffers form buffer }

/-- The commit on thread `t` returns. -/
def finish (s : State n) (t : Fin n) (outcome : Outcome) : State n :=
  { s with
    commits := Function.update s.commits t none
    outcomes := s.outcomes ++ [outcome] }

/-- One turn of the loop of a commit: the next message is fanned out, and the first refusal is the
answer. -/
def fanout (s : State n) (t : Fin n) (c : Commit) : State n :=
  let before := c.before.getD s.broker
  match s.broker.fanoutUnsent c.next.name c.next.payload c.next.headers with
  | .error unsent => s.finish t ⟨c.buffered, .error (.refused unsent.error), before, s.broker⟩
  | .ok broker =>
    let s := { s with seeking := { s.seeking with broker := broker } }
    match c.later with
    | [] => s.finish t ⟨c.buffered, .ok (), before, broker⟩
    | next :: later =>
      let c := ⟨c.sent ++ [c.next], next, later, some before⟩
      { s with commits := Function.update s.commits t (some c) }

/-- A commit on thread `t` of what a transaction had buffered. -/
def commit (s : State n) (t : Fin n) : List DeliveryInner → State n
  | [] => { s with outcomes := s.outcomes ++ [⟨[], .ok (), s.broker, s.broker⟩] }
  | next :: later => { s with commits := Function.update s.commits t (some ⟨[], next, later, none⟩) }

end State

/-- The broker takes a step of its own. -/
def stepBroker (s : State n) (e : BrokerEvent) : Option (State n) :=
  (s.seeking.next e).map fun seeking => { s with seeking := seeking }

def step (s : State n) : Event n → Option (State n)
  | .broker e => stepBroker s e
  | .beginTransaction form =>
    match s.buffers form, form with
    | none, _ => some (s.setBuffer form (some []))
    -- busy, and the open one stays as it is
    | some _, .handle _ => some s
    | some _, .owned _ => none
  | .publish form msg =>
    match s.buffers form, form with
    | some buffered, _ => some (s.setBuffer form (some (buffered ++ [msg])))
    | none, .handle _ => stepBroker s (.inner (.publish msg))
    | none, .owned _ => none
  | .abort form =>
    match s.buffers form, form with
    | some _, _ => some (s.setBuffer form none)
    | none, .handle _ => some s
    | none, .owned _ => none
  | .commit form t =>
    match s.commits t, s.buffers form, form with
    | none, some buffered, _ => some ((s.setBuffer form none).commit t buffered)
    | none, none, .handle _ =>
      some { s with
        outcomes := s.outcomes ++ [⟨[], .error .noTransaction, s.broker, s.broker⟩] }
    | _, _, _ => none
  | .fanout t =>
    match s.commits t with
    | some c => if s.seeking.lock ≠ .free then none else some (s.fanout t c)
    | none => none

end Transaction

/-! ## Atomicity -/

namespace MemoryState

/-- Stamps the messages one after the other. -/
def stampAll (state : MemoryState) : List DeliveryInner → List MemoryDelivery × MemoryState
  | [] => ([], state)
  | shared :: messages =>
    let (delivery, state) := state.stamp shared
    let (deliveries, state) := state.stampAll messages
    (delivery :: deliveries, state)

/-- What queue `i` receives of a delivery: a copy for each time it is registered for it, and nothing
if nobody reads it. -/
def copies (state : MemoryState) (i : ℕ) (delivery : MemoryDelivery) : List MemoryDelivery :=
  match state.bus with
  | .live registry =>
    if state.isOpen i then
      List.replicate ((registry.recipients state.isOpen delivery.shared.name).count i) delivery
    else []
  | .shutDown _ => []

end MemoryState

/-- All the messages became visible at one point: each log they are recorded in took them one after
the other and nothing else, and so did each queue they reach. -/
structure AllAtOnce (before : MemoryState) (messages : List DeliveryInner) (after : MemoryState) :
    Prop where
  log_eq : after.log = (before.stampAll messages).2.log
  queues_eq : ∀ i, after.queues i
    = before.queues i ++ (before.stampAll messages).1.flatMap (before.copies i)

namespace Transaction

/-- All or nothing: the commit answers with success and all of it became visible at one point, or it
answers with an error and the broker is as it was. -/
def Outcome.Atomic (o : Outcome) : Prop :=
  (o.answer = .ok () ∧ AllAtOnce o.before o.buffered o.after) ∨
    (∃ error, o.answer = .error error) ∧ o.after = o.before

/-- The commit has fanned out some of its messages and not yet all. -/
def Commit.underWay (c : Commit) : Bool := c.before.isSome

/-- The steps that go to the broker. What is published in an open transaction does not. -/
def Event.touches (s : State n) : Event n → Bool
  | .broker _ => true
  | .publish form _ => (s.buffers form).isNone
  | .fanout _ => true
  | .beginTransaction _ => false
  | .abort _ => false
  | .commit _ _ => false

/-- The fanout is one of the commit on thread `t`. -/
def Event.isFanout (t : Fin n) : Event n → Bool
  | .fanout u => u = t
  | _ => false

/-- From the first fanout of a commit to its last, no other thread takes a step on the broker. -/
def Undisturbed (s : State n) (e : Event n) : Prop :=
  ∀ t, (s.commits t).any Commit.underWay = true → e.isFanout t = true ∨ e.touches s = false

instance (s : State n) (e : Event n) : Decidable (Undisturbed s e) :=
  inferInstanceAs (Decidable (∀ _ : Fin n, _ → _))

end Transaction

/-! ## Fanouts with nothing between them -/

section Fanouts

variable {before middle after : MemoryState} {messages messages' : List DeliveryInner}

namespace MemoryState

variable (state : MemoryState)

theorem stampAll_cons (shared : DeliveryInner) (messages : List DeliveryInner) :
    state.stampAll (shared :: messages)
      = ((state.stamp shared).1 :: ((state.stamp shared).2.stampAll messages).1,
        ((state.stamp shared).2.stampAll messages).2) :=
  rfl

/-- A stamp reads and writes nothing but the log. -/
theorem stampAll_congr {state state' : MemoryState} (hlog : state.log = state'.log)
    (hrecording : state.recording = state'.recording) (messages : List DeliveryInner) :
    (state.stampAll messages).1 = (state'.stampAll messages).1 ∧
      (state.stampAll messages).2.log = (state'.stampAll messages).2.log := by
  induction messages generalizing state state' with
  | nil => exact ⟨rfl, hlog⟩
  | cons shared messages ih =>
    have hstamp : (state.stamp shared).1 = (state'.stamp shared).1 ∧
        (state.stamp shared).2.log = (state'.stamp shared).2.log ∧
        (state.stamp shared).2.recording = (state'.stamp shared).2.recording := by
      unfold stamp
      rw [hrecording, hlog]
      split_ifs
      · exact ⟨rfl, rfl, rfl⟩
      · exact ⟨rfl, hlog, hrecording⟩
    obtain ⟨hdelivery, hlog', hrecording'⟩ := hstamp
    obtain ⟨hdeliveries, hlogs⟩ := ih hlog' hrecording'
    exact ⟨congrArg₂ List.cons hdelivery hdeliveries, hlogs⟩

theorem recording_stampAll (messages : List DeliveryInner) :
    (state.stampAll messages).2.recording = state.recording := by
  induction messages generalizing state with
  | nil => rfl
  | cons shared messages ih =>
    refine (ih (state.stamp shared).2).trans ?_
    unfold stamp
    split_ifs <;> rfl

theorem stampAll_append (messages messages' : List DeliveryInner) :
    state.stampAll (messages ++ messages')
      = ((state.stampAll messages).1 ++ ((state.stampAll messages).2.stampAll messages').1,
        ((state.stampAll messages).2.stampAll messages').2) := by
  induction messages generalizing state with
  | nil => rfl
  | cons shared messages ih =>
    rw [cons_append, stampAll_cons, stampAll_cons, ih, cons_append]

end MemoryState

/-- The broker took the messages in and is otherwise the same. -/
structure TookIn (before : MemoryState) (messages : List DeliveryInner) (after : MemoryState) :
    Prop extends AllAtOnce before messages after where
  bus_eq : after.bus = before.bus
  isOpen_eq : after.isOpen = before.isOpen
  recording_eq : after.recording = before.recording

theorem TookIn.copies_eq (h : TookIn before messages after) : after.copies = before.copies := by
  funext i delivery
  unfold MemoryState.copies
  rw [h.bus_eq, h.isOpen_eq]

/-- What is fanned out right after what was fanned out before became visible with it. -/
theorem TookIn.append (h : TookIn before messages middle) (h' : TookIn middle messages' after) :
    TookIn before (messages ++ messages') after := by
  have hrecording := h.recording_eq.trans (before.recording_stampAll messages).symm
  obtain ⟨hdeliveries, hlogs⟩ := MemoryState.stampAll_congr h.log_eq hrecording messages'
  refine ⟨⟨?_, fun i => ?_⟩, h'.bus_eq.trans h.bus_eq, h'.isOpen_eq.trans h.isOpen_eq,
    h'.recording_eq.trans h.recording_eq⟩
  · rw [h'.log_eq, hlogs, MemoryState.stampAll_append]
  · rw [h'.queues_eq, h.queues_eq, h.copies_eq, hdeliveries, MemoryState.stampAll_append,
      flatMap_append, append_assoc]

/-- One fanout. -/
theorem TookIn.of_fanout {shared : DeliveryInner}
    (h : before.fanoutUnsent shared.name shared.payload shared.headers = .ok after) :
    TookIn before [shared] after := by
  rcases hbus : before.bus with registry | routing
  · obtain ⟨hbus_eq, hopen_eq, hrecording_eq, hlog_eq⟩ := fanoutUnsent_frame h
    rw [fanoutUnsent_eq before hbus shared] at h
    obtain ⟨hqueues, hopen, hshared, -⟩ := before.stamp_frame shared
    refine ⟨⟨hlog_eq, fun i => ?_⟩, hbus_eq, hopen_eq, hrecording_eq⟩
    rw [← Except.ok.inj h, MemoryState.queues_sendTo_count, hqueues, hopen]
    change _ = _ ++ [(before.stamp shared).1].flatMap (before.copies i)
    rw [flatMap_singleton, MemoryState.copies, hbus, hshared]
  · rw [MemoryState.fanoutUnsent, hbus] at h
    cases h

end Fanouts

/-! ## What a step does -/

namespace Transaction

/-- A broker that took nothing in. -/
theorem tookIn_nil (broker : MemoryState) : TookIn broker [] broker :=
  ⟨⟨rfl, fun i => (append_nil (broker.queues i)).symm⟩, rfl, rfl, rfl⟩

variable {s s' : State n} {e : Event n}

/-- A step, by what it does to the commits. -/
inductive Steps (s : State n) (e : Event n) (s' : State n) : Prop
  -- the broker's own, and a publish outside a transaction
  | broker (htouches : e.touches s = true) (hother : ∀ t, e.isFanout t = false)
      (hcommits : s'.commits = s.commits) (houtcomes : s'.outcomes = s.outcomes)
  -- on the buffers alone, with a commit that answers at once if there is one
  | buffer (outcomes : List Outcome) (hatomic : ∀ o ∈ outcomes, o.Atomic)
      (hseeking : s'.seeking = s.seeking) (hcommits : s'.commits = s.commits)
      (houtcomes : s'.outcomes = s.outcomes ++ outcomes)
  | begun (t : Fin n) (next : DeliveryInner) (later : List DeliveryInner)
      (hseeking : s'.seeking = s.seeking) (houtcomes : s'.outcomes = s.outcomes)
      (hcommits : s'.commits = Function.update s.commits t (some ⟨[], next, later, none⟩))
  | fanned (t : Fin n) (c : Commit) (he : e = .fanout t) (hc : s.commits t = some c)
      (hs' : s' = s.fanout t c)

theorem steps_of_stepBroker {b : BrokerEvent} (htouches : e.touches s = true)
    (hother : ∀ t, e.isFanout t = false) (h : stepBroker s b = some s') : Steps s e s' := by
  obtain ⟨seeking, -, rfl⟩ := Option.map_eq_some_iff.mp h
  exact .broker htouches hother rfl rfl

/-- A step that changes no more than the buffers. -/
theorem steps_of_buffers (hseeking : s'.seeking = s.seeking) (hcommits : s'.commits = s.commits)
    (houtcomes : s'.outcomes = s.outcomes) : Steps s e s' := by
  refine .buffer [] (by simp) hseeking hcommits ?_
  rw [houtcomes, append_nil]

theorem atomic_of_unchanged {answer : Except TransactionError Unit} (broker : MemoryState) :
    Outcome.Atomic ⟨[], answer, broker, broker⟩ := by
  rcases answer with error | ⟨⟩
  · exact Or.inr ⟨⟨error, rfl⟩, rfl⟩
  · exact Or.inl ⟨rfl, (tookIn_nil broker).toAllAtOnce⟩

theorem steps_of_step (h : step s e = some s') : Steps s e s' := by
  rcases e with b | form | ⟨form, msg⟩ | form | ⟨form, t⟩ | t
  · exact steps_of_stepBroker rfl (fun _ => rfl) h
  · unfold step at h
    dsimp only at h
    split at h <;> cases h <;> exact steps_of_buffers rfl rfl rfl
  · unfold step at h
    dsimp only at h
    split at h
    · cases h
      exact steps_of_buffers rfl rfl rfl
    · rename_i hnone
      refine steps_of_stepBroker ?_ (fun _ => rfl) h
      rw [Event.touches, hnone]
      rfl
    · cases h
  · unfold step at h
    dsimp only at h
    split at h <;> cases h <;> exact steps_of_buffers rfl rfl rfl
  · unfold step at h
    dsimp only at h
    split at h
    · rename_i buffered _ _
      cases h
      rcases buffered with _ | ⟨next, later⟩
      · refine .buffer _ (fun o ho => ?_) rfl rfl rfl
        rw [mem_singleton.mp ho]
        exact atomic_of_unchanged _
      · exact .begun t next later rfl rfl rfl
    · cases h
      refine .buffer _ (fun o ho => ?_) rfl rfl rfl
      rw [mem_singleton.mp ho]
      exact atomic_of_unchanged _
    · cases h
  · unfold step at h
    dsimp only at h
    split at h
    · rename_i c hc
      split_ifs at h
      cases h
      exact .fanned t c rfl hc rfl
    · cases h

/-! ## Commits that nothing disturbs -/

/-- What a commit has done so far: nothing, or what it has sent became visible at one point and
nothing has happened since. -/
def Commit.Follows (broker : MemoryState) (c : Commit) : Prop :=
  (c.before = none ∧ c.sent = []) ∨
    ∃ before, c.before = some before ∧ broker.bus.isLive = true ∧ TookIn before c.sent broker

variable {c : Commit}

theorem Commit.Follows.tookIn {broker : MemoryState} (h : c.Follows broker) :
    TookIn (c.before.getD broker) c.sent broker := by
  rcases h with ⟨hbefore, hsent⟩ | ⟨before, hbefore, -, htook⟩
  · rw [hbefore, hsent]
    exact tookIn_nil broker
  · rw [hbefore]
    exact htook

/-- A commit that has sent nothing minds no step of the broker. -/
theorem Commit.Follows.of_not_underWay {broker broker' : MemoryState}
    (h : c.Follows broker) (hidle : c.underWay = false) : c.Follows broker' := by
  rcases h with hbegun | ⟨before, hbefore, -⟩
  · exact Or.inl hbegun
  · rw [underWay, hbefore] at hidle
    cases hidle

/-- Every commit is atomic so far. -/
structure Sound (s : State n) : Prop where
  follows : ∀ t c, s.commits t = some c → c.Follows s.broker
  atomic : ∀ o ∈ s.outcomes, o.Atomic

theorem sound_start (seeking : Seeking) : Sound (State.start n seeking) where
  follows := fun _ _ h => by cases h
  atomic := fun _ h => by cases h

/-- A commit that is disturbed has sent nothing. -/
theorem Undisturbed.not_underWay (h : Undisturbed s e) (htouches : e.touches s = true) {t : Fin n}
    (hother : e.isFanout t = false) (hc : s.commits t = some c) : c.underWay = false := by
  refine Bool.eq_false_iff.mpr fun hunder => ?_
  rcases h t (by rw [hc]; exact hunder) with hfanout | hquiet
  · rw [hother] at hfanout
    cases hfanout
  · rw [htouches] at hquiet
    cases hquiet

/-- One fanout of a commit, with nothing between it and the one before. -/
theorem Sound.fanout (h : Sound s) {t : Fin n} (hok : Undisturbed s (.fanout t))
    (hc : s.commits t = some c) : Sound (s.fanout t c) := by
  have hfollows := h.follows t c hc
  -- the other commits have sent nothing, whatever the broker becomes
  have hrest : ∀ broker u d, u ≠ t → s.commits u = some d → d.Follows broker := by
    intro broker u d hu hd
    have hother : (Event.fanout t).isFanout u = false := decide_eq_false (Ne.symm hu)
    exact (h.follows u d hd).of_not_underWay (hok.not_underWay rfl hother hd)
  have hatomic : ∀ o : Outcome, o.Atomic → ∀ o' ∈ s.outcomes ++ [o], o'.Atomic := by
    intro o ho o' ho'
    rcases mem_append.mp ho' with hold | hnew
    · exact h.atomic o' hold
    · rwa [mem_singleton.mp hnew]
  have hfinish : ∀ broker u d, update s.commits t none u = some d → d.Follows broker := by
    intro broker u d hd
    rcases eq_or_ne u t with rfl | hu
    · rw [update_self] at hd
      cases hd
    · rw [update_of_ne hu] at hd
      exact hrest broker u d hu hd
  unfold State.fanout
  dsimp only
  rcases hfan : s.broker.fanoutUnsent c.next.name c.next.payload c.next.headers with
    unsent | broker
  · -- refused: the bus is shut down, so this is the first fanout
    refine ⟨hfinish s.broker, hatomic _ (Or.inr ⟨⟨_, rfl⟩, ?_⟩)⟩
    rcases hfollows with ⟨hbefore, -⟩ | ⟨before, -, hlive, -⟩
    · change s.broker = c.before.getD s.broker
      rw [hbefore, Option.getD_none]
    · obtain ⟨after, hafter⟩ := exists_fanout_of_live hlive c.next
      rw [hfan] at hafter
      cases hafter
  · have htook := hfollows.tookIn.append (TookIn.of_fanout hfan)
    rcases hlater : c.later with _ | ⟨next, later⟩
    · refine ⟨hfinish broker, hatomic _ (Or.inl ⟨rfl, ?_⟩)⟩
      change AllAtOnce _ c.buffered broker
      rw [Commit.buffered, hlater]
      exact htook.toAllAtOnce
    · refine ⟨fun u d hd => ?_, h.atomic⟩
      rcases eq_or_ne u t with rfl | hu
      · have hd' := Option.some.inj ((update_self u _ _).symm.trans hd)
        subst hd'
        refine Or.inr ⟨_, rfl, ?_, htook⟩
        change broker.bus.isLive = true
        rw [(TookIn.of_fanout hfan).bus_eq]
        exact isLive_of_fanout hfan
      · exact hrest broker u d hu ((update_of_ne hu _ _).symm.trans hd)

theorem Sound.step (h : Sound s) (hok : Undisturbed s e) (hstep : step s e = some s') :
    Sound s' := by
  rcases steps_of_step hstep with ⟨htouches, hother, hcommits, houtcomes⟩ |
    ⟨outcomes, hatomic, hseeking, hcommits, houtcomes⟩ |
    ⟨t, next, later, hseeking, houtcomes, hcommits⟩ | ⟨t, c, rfl, hc, rfl⟩
  · -- a step of the broker comes before the first fanout of every commit
    refine ⟨fun t c hc => ?_, ?_⟩
    · rw [hcommits] at hc
      exact (h.follows t c hc).of_not_underWay (hok.not_underWay htouches (hother t) hc)
    · rw [houtcomes]
      exact h.atomic
  · refine ⟨fun t c hc => ?_, fun o ho => ?_⟩
    · rw [hcommits] at hc
      rw [State.broker, hseeking]
      exact h.follows t c hc
    · rw [houtcomes] at ho
      rcases mem_append.mp ho with hold | hnew
      · exact h.atomic o hold
      · exact hatomic o hnew
  · refine ⟨fun u c hc => ?_, ?_⟩
    · rw [hcommits] at hc
      rw [State.broker, hseeking]
      rcases eq_or_ne u t with rfl | hu
      · rw [update_self] at hc
        rw [← Option.some.inj hc]
        exact Or.inl ⟨rfl, rfl⟩
      · rw [update_of_ne hu] at hc
        exact h.follows u c hc
    · rw [houtcomes]
      exact h.atomic
  · exact h.fanout hok hc

end Transaction

/-- **Commits are atomic where nothing disturbs them.** In every run from a broker with no
transaction open in which, from the first fanout of a commit to its last, no other thread takes a step
on the broker, every commit that returned is atomic: with success, and all its messages became visible
at one point, one after the other in every log and every queue they reach; or with an error, and the
broker is as it was. -/
theorem commit_atomic_of_undisturbed (n : ℕ) (seeking : Seeking)
    (events : List (Transaction.Event n)) (s : Transaction.State n)
    (hall : Run.AllSteps Transaction.step Transaction.Undisturbed (.start n seeking) events)
    (hexec : Run.exec Transaction.step (.start n seeking) events = some s) :
    ∀ o ∈ s.outcomes, o.Atomic := by
  have hsound := @Run.exec_invariant _ _ Transaction.step Transaction.Undisturbed
    (fun _ s => Transaction.Sound s) _ _ _ [] (fun _ _ _ _ h hok hstep => h.step hok hstep)
    (Transaction.sound_start seeking) hall hexec
  exact hsound.atomic

namespace Transaction

/-- A message to `orders`. -/
def order (k : UInt8) : DeliveryInner := ⟨"orders", [k], HeaderMap.new⟩

/-- A new broker on one name, one thread that commits. -/
def oneName : State 1 :=
  .start 1 (.start (newBroker .everyMatch .unbounded) fun _ => "orders")

/-- One subscription, and a transaction of two messages of which the first is fanned out. -/
def halfWay (form : Form) : List (Event 1) :=
  [.broker (.subscribe 0 "orders"), .beginTransaction form, .publish form (order 1),
    .publish form (order 2), .commit form (.last 0), .fanout (.last 0)]

/-- What queue 0 and the log of `orders` hold, by their payloads. -/
def contents (broker : MemoryState) : List Bytes × Option (List Bytes) :=
  ((broker.queues 0).map fun delivery => delivery.shared.payload,
    (broker.log.name "orders").map fun log => log.entries.map DeliveryInner.payload)

/-- Another transaction is opened during the commit, and another publish comes after it. -/
theorem commit_atomic_of_undisturbed_two_messages :
    ∃ s o, Run.exec step oneName (halfWay (.owned 0) ++ [.beginTransaction (.owned 1), .fanout 0,
        .broker (.inner (.publish (order 9)))]) = some s ∧
      o ∈ s.outcomes ∧ o.buffered = [order 1, order 2] ∧
      contents s.broker = ([[1], [2], [9]], some [[1], [2], [9]]) ∧ o.Atomic := by
  have hall : Run.AllSteps step Undisturbed oneName (halfWay (.owned 0) ++
      [.beginTransaction (.owned 1), .fanout 0, .broker (.inner (.publish (order 9)))]) := by
    decide +kernel
  have hrun : ∃ s o, Run.exec step oneName (halfWay (.owned 0) ++ [.beginTransaction (.owned 1),
        .fanout 0, .broker (.inner (.publish (order 9)))]) = some s ∧
      o ∈ s.outcomes ∧ o.buffered = [order 1, order 2] ∧
      contents s.broker = ([[1], [2], [9]], some [[1], [2], [9]]) :=
    ⟨_, _, rfl, List.mem_singleton_self _, rfl, by decide +kernel⟩
  obtain ⟨s, o, hexec, ho, hbuffered, hcontents⟩ := hrun
  exact ⟨s, o, hexec, ho, hbuffered, hcontents,
    commit_atomic_of_undisturbed 1 _ _ s hall hexec o ho⟩

/-- How the answer of a commit reads. -/
def Outcome.isOk (o : Outcome) : Bool :=
  match o.answer with
  | .ok () => true
  | .error _ => false

/-- An outcome whose queue shows something else than all of the commit or nothing. -/
theorem Outcome.not_atomic {o : Outcome}
    (hall : (contents o.after).1 ≠ (contents o.before).1 ++ o.buffered.map DeliveryInner.payload)
    (hnone : (contents o.after).1 ≠ (contents o.before).1)
    (hreaches : (((o.before.stampAll o.buffered).1.flatMap (o.before.copies 0)).map
      fun delivery => delivery.shared.payload) = o.buffered.map DeliveryInner.payload) :
    ¬o.Atomic := by
  rintro (⟨-, hvisible⟩ | ⟨-, hsame⟩)
  · refine hall ?_
    rw [contents, hvisible.queues_eq 0, map_append, hreaches]
    rfl
  · exact hnone (by rw [hsame])

/-- Another publisher's message lands between the two of a commit that succeeds, in the queue and in
the log; and a commit that a shutdown overtakes answers with an error after its first message was
delivered and recorded. -/
theorem commit_disturbed :
    (∃ s o, Run.exec step oneName
        (halfWay (.handle 0) ++ [.broker (.inner (.publish (order 9))), .fanout 0]) = some s ∧
      o ∈ s.outcomes ∧ o.buffered = [order 1, order 2] ∧ o.isOk = true ∧
      contents s.broker = ([[1], [9], [2]], some [[1], [9], [2]]) ∧ ¬o.Atomic) ∧
    ∃ s o, Run.exec step oneName (halfWay (.owned 0) ++ [.broker .shutdown, .fanout 0]) = some s ∧
      o ∈ s.outcomes ∧ o.buffered = [order 1, order 2] ∧ o.isOk = false ∧
      contents s.broker = ([[1]], some [[1]]) ∧ ¬o.Atomic := by
  constructor
  · refine ⟨_, _, rfl, List.mem_singleton_self _, rfl, rfl, ?_, Outcome.not_atomic ?_ ?_ ?_⟩ <;>
      decide +kernel
  · refine ⟨_, _, rfl, List.mem_singleton_self _, rfl, rfl, ?_, Outcome.not_atomic ?_ ?_ ?_⟩ <;>
      decide +kernel

end Transaction

end RustStream
