import RustStream.Memory.Lifecycle

/-!
# Request and reply

A request takes the next number off the broker's counter and registers an inbox under a name made of
it. It publishes its message with that name in the `reply-to` header, waits for the first message in
the inbox, and unregisters: the registration goes first, what was recorded under the name after it.
The inbox is used once, so from then on nothing should be left of it.

Two things are left all the same. A request whose future is dropped while it waits takes no further
step, and there is nothing else to unregister for it. And a reply that comes once the request is over
finds no one, but a broker that records keeps it, under a name nobody will ask about again. Where
neither happens the broker stays clean: whatever it holds under an inbox name is held for a request
in progress.

## Main definitions

* `Requests.step`: the steps of the broker and of the requests on it.
* `Requests.Tidy`: no request is dropped, and no reply comes late.
* `MemoryState.holds`: the broker has a registration or a log under a name.

## Main results

* `Requests.Kept.step`: what is held under an inbox name is held for a request.
* `inboxes_leave_nothing`: with no request in progress nothing is held.
-/

namespace RustStream

open Function

/-! ## Inboxes -/

/-- The name of the inbox of request `id`. -/
def inboxName (id : UInt64) : String :=
  "_inbox." ++ String.ofList (Nat.toDigits 10 id.toNat)

/-- The header that says where a reply goes. -/
def replyToHeader : Bytes := ascii "reply-to"

/-- What a request can fail with: no reply in time, naming the subject and the time waited, or a bus
that is shut down. -/
inductive RequestError where
  | timeout (subject : String) (timeout : ℕ)
  | shutDown

namespace MemoryState

/-- The first half of unregistering: the registration goes, if the bus is live. -/
def unregister (state : MemoryState) (name : String) : MemoryState :=
  match state.bus with
  | .live registry =>
    { state with bus := .live { registry with names := Function.update registry.names name none } }
  | .shutDown _ => state

/-- The second half: what was recorded under the name goes with it. -/
def forget (state : MemoryState) (name : String) : MemoryState :=
  if state.recording then { state with log := state.log.forget name } else state

/-- Someone is registered under the name. -/
def registers (state : MemoryState) (name : String) : Bool :=
  match state.bus with
  | .live registry => (registry.names name).isSome
  | .shutDown _ => false

/-- Something is recorded under the name. -/
def records (state : MemoryState) (name : String) : Bool :=
  (state.log.name name).isSome

def holds (state : MemoryState) (name : String) : Bool :=
  state.registers name || state.records name

end MemoryState

namespace Requests

/-! ## Requests -/

/-- Where a request stands. -/
inductive Stage where
  -- it has its number and its channel
  | minted
  -- the inbox is registered, the message not yet published
  | registered
  | waiting
  -- the answer is there, the inbox still registered
  | leaving (answer : Except RequestError MemoryDelivery)
  -- the registration is gone, what was recorded is not
  | forgetting (answer : Except RequestError MemoryDelivery)

structure Request where
  id : UInt64
  -- the number of its channel
  tx : ℕ
  msg : DeliveryInner
  wait : ℕ
  stage : Stage

def Request.inbox (r : Request) : String := inboxName r.id

/-- The message with the inbox in its headers. -/
def Request.outgoing (r : Request) : DeliveryInner :=
  { r.msg with headers := HeaderMap.insert r.msg.headers replyToHeader (ascii r.inbox) }

/-- The broker, its request counter, and the requests of `n` tasks. -/
structure State (n : ℕ) where
  seeking : Seeking
  inboxSeq : UInt64
  requests : Fin n → Option Request
  -- the numbers given out so far, and the answers
  minted : List UInt64
  answers : List (Except RequestError MemoryDelivery)

inductive Event (n : ℕ) where
  | broker (e : BrokerEvent)
  -- the first poll of a request on task `t`: it takes its number and makes its channel
  | request (t : Fin n) (msg : DeliveryInner) (wait tx : ℕ)
  | register (t : Fin n)
  | fanout (t : Fin n)
  -- the wait: a reply, or none in time
  | reply (t : Fin n)
  | timeout (t : Fin n)
  | unregister (t : Fin n)
  | forget (t : Fin n)
  -- the future of the request on task `t` is dropped, which it can be only where it waits
  | drop (t : Fin n)

variable {n : ℕ}

namespace State

/-- A broker on which nothing was requested yet. -/
def start (n : ℕ) (seeking : Seeking) : State n :=
  ⟨seeking, 0, fun _ => none, [], []⟩

def broker (s : State n) : MemoryState := s.seeking.broker

def setBroker (s : State n) (broker : MemoryState) : State n :=
  { s with seeking := { s.seeking with broker := broker } }

def setRequest (s : State n) (t : Fin n) (r : Option Request) : State n :=
  { s with requests := Function.update s.requests t r }

/-- The request moves on. -/
def goOn (s : State n) (t : Fin n) (r : Request) (stage : Stage) : State n :=
  s.setRequest t (some { r with stage := stage })

/-- The request is over, and its channel with it. -/
def finish (s : State n) (t : Fin n) (r : Request) : State n :=
  (s.setBroker (s.broker.dropSubscriber r.tx)).setRequest t none

/-- The request returns. -/
def answer (s : State n) (t : Fin n) (r : Request) (answer : Except RequestError MemoryDelivery) :
    State n :=
  { s.finish t r with answers := s.answers ++ [answer] }

end State

/-- One step of the request on task `t`. -/
def advance (s : State n) (t : Fin n) (r : Request) : Event n → Option (State n)
  | .register _ =>
    match r.stage with
    | .minted =>
      if s.seeking.lock ≠ .free then none
      else
        match s.broker.registerShared r.inbox r.tx with
        | .ok broker => some ((s.setBroker broker).goOn t r .registered)
        | .error _ => some (s.answer t r (.error .shutDown))
    | _ => none
  | .fanout _ =>
    match r.stage with
    | .registered =>
      if s.seeking.lock ≠ .free then none
      else
        match s.broker.fanoutUnsent r.outgoing.name r.outgoing.payload r.outgoing.headers with
        | .ok broker => some ((s.setBroker broker).goOn t r .waiting)
        | .error _ => some (s.goOn t r (.leaving (.error .shutDown)))
    | _ => none
  | .reply _ =>
    match r.stage, s.broker.queues r.tx with
    | .waiting, reply :: rest =>
      let broker := { s.broker with queues := Function.update s.broker.queues r.tx rest }
      some ((s.setBroker broker).goOn t r (.leaving (.ok reply)))
    | _, _ => none
  | .timeout _ =>
    match r.stage, s.broker.queues r.tx with
    | .waiting, [] => some (s.goOn t r (.leaving (.error (.timeout r.msg.name r.wait))))
    | _, _ => none
  | .unregister _ =>
    match r.stage with
    | .leaving answer =>
      if s.seeking.lock ≠ .free then none
      else some ((s.setBroker (s.broker.unregister r.inbox)).goOn t r (.forgetting answer))
    | _ => none
  | .forget _ =>
    match r.stage with
    | .forgetting answer => some ((s.setBroker (s.broker.forget r.inbox)).answer t r answer)
    | _ => none
  | .drop _ =>
    match r.stage with
    | .waiting => some (s.finish t r)
    | _ => none
  | _ => none

/-- The task an event is of. -/
def Event.task : Event n → Option (Fin n)
  | .broker _ => none
  | .request t _ _ _ => some t
  | .register t => some t
  | .fanout t => some t
  | .reply t => some t
  | .timeout t => some t
  | .unregister t => some t
  | .forget t => some t
  | .drop t => some t

def step (s : State n) : Event n → Option (State n)
  | .broker e => (s.seeking.next e).map fun seeking => { s with seeking := seeking }
  | .request t msg wait tx =>
    match s.requests t with
    | none =>
      let broker := { s.broker with
        isOpen := Function.update s.broker.isOpen tx true
        queues := Function.update s.broker.queues tx [] }
      some { (s.setBroker broker).setRequest t (some ⟨s.inboxSeq, tx, msg, wait, .minted⟩) with
        inboxSeq := s.inboxSeq + 1
        minted := s.minted ++ [s.inboxSeq] }
    | some _ => none
  | e =>
    match e.task with
    | some t =>
      match s.requests t with
      | some r => advance s t r e
      | none => none
    | none => none

/-! ## Runs that stay clean -/

/-- The name of some inbox, minted or not. -/
def IsInbox (name : String) : Prop := ∃ id, name = inboxName id

/-- The inbox may be registered. -/
def Stage.listens : Stage → Bool
  | .registered => true
  | .waiting => true
  | .leaving _ => true
  | _ => false

/-- The inbox was registered and the request is not over. -/
def Stage.isOpen : Stage → Bool
  | .forgetting _ => true
  | stage => stage.listens

/-- Some request at one of these stages has the inbox. -/
def HeldAt (stages : Stage → Bool) (s : State n) (name : String) : Prop :=
  ∃ t r, s.requests t = some r ∧ r.inbox = name ∧ stages r.stage = true

/-- A message under this name is not a late reply: the name is no inbox, or nothing is recorded, or
the request whose inbox it is has registered it and is not over. -/
def InTime (s : State n) (name : String) : Prop :=
  IsInbox name → s.broker.recording = false ∨ s.broker.bus.isLive = false ∨
    HeldAt Stage.isOpen s name

/-- No request is dropped while it waits, no reply comes late, and nobody but a request subscribes by
the name of an inbox. -/
def Tidy (s : State n) : Event n → Prop
  | .broker (.inner (.publish shared)) => InTime s shared.name
  | .broker (.subscribe _ text) => ¬IsInbox text
  | .fanout t => ∀ r, s.requests t = some r → InTime s r.msg.name
  | .drop _ => False
  | _ => True

/-- What the broker holds under an inbox name it holds for a request in progress: a registration for
one that listens, a log for one that has not yet forgotten it. -/
structure Kept (s : State n) : Prop where
  registers : ∀ name, IsInbox name → s.broker.registers name = true → HeldAt Stage.listens s name
  records : ∀ name, IsInbox name → s.broker.records name = true →
    s.broker.recording = true ∧ HeldAt Stage.isOpen s name

end Requests

/-! ## What the broker's operations leave under a name -/

namespace MemoryState

variable {state state' : MemoryState} {name other : String}

theorem registers_congr (h : state'.bus = state.bus) (name : String) :
    state'.registers name = state.registers name := by
  rw [registers, h, registers]

theorem records_congr (h : state'.log = state.log) (name : String) :
    state'.records name = state.records name := by
  rw [records, h, records]

theorem registers_registerShared {tx : ℕ} (h : state.registerShared other tx = .ok state')
    (hne : name ≠ other) : state'.registers name = state.registers name := by
  unfold registerShared at h
  rcases hbus : state.bus with registry | routing
  · rw [hbus] at h
    rw [← Except.ok.inj h, registers, registers, hbus]
    exact congrArg Option.isSome (update_of_ne hne _ _)
  · rw [hbus] at h
    cases h

theorem registerShared_frame {tx : ℕ} (h : state.registerShared other tx = .ok state') :
    state'.log = state.log ∧ state'.recording = state.recording := by
  unfold registerShared at h
  split at h <;> cases h
  exact ⟨rfl, rfl⟩

/-- A subscription by name registers under that name, one by pattern under none. -/
theorem registers_openAs {tx : ℕ} (h : state.openAs tx other = .ok state') (hne : name ≠ other) :
    state'.registers name = state.registers name := by
  unfold openAs at h
  split_ifs at h with hwild
  · unfold subscribePattern at h
    rcases hparse : Pattern.parse other with reason | pattern
    · rw [hparse] at h
      cases h
    · rw [hparse] at h
      dsimp only at h
      unfold registerPattern at h
      rcases hbus : state.bus with registry | routing
      · rw [hbus] at h
        rw [← Except.ok.inj h, registers, registers, hbus]
      · rw [hbus] at h
        cases h
  · rw [subscribe, if_neg hwild] at h
    exact registers_registerShared h hne

theorem registers_unregister_self (state : MemoryState) (name : String) :
    (state.unregister name).registers name = false := by
  unfold unregister
  rcases hbus : state.bus with registry | routing
  · simp [registers]
  · rw [registers, hbus]

theorem registers_unregister_of_ne (state : MemoryState) (hne : name ≠ other) :
    (state.unregister other).registers name = state.registers name := by
  unfold unregister
  rcases hbus : state.bus with registry | routing
  · rw [registers, registers, hbus]
    exact congrArg Option.isSome (update_of_ne hne _ _)
  · rfl

theorem unregister_frame (state : MemoryState) (name : String) :
    (state.unregister name).log = state.log ∧
      (state.unregister name).recording = state.recording := by
  unfold unregister
  split <;> exact ⟨rfl, rfl⟩

/-- A log that is kept under a name after a publish was kept before, or is that of the message on a
live broker that records. -/
theorem records_of_fanout {shared : DeliveryInner}
    (h : state.fanoutUnsent shared.name shared.payload shared.headers = .ok state')
    (hrecords : state'.records name = true) : state.records name = true ∨
      name = shared.name ∧ state.recording = true ∧ state.bus.isLive = true := by
  rw [records, (fanoutUnsent_frame h).2.2.2, stamp] at hrecords
  split_ifs at hrecords with hrecording
  · rcases eq_or_ne name shared.name with hname | hne
    · exact Or.inr ⟨hname, hrecording, isLive_of_fanout h⟩
    · have hkept := state.log.name_append_of_ne hne
      exact Or.inl ((congrArg Option.isSome hkept).symm.trans hrecords)
  · exact Or.inl hrecords

end MemoryState

section Effects

variable {e : BrokerEvent} {broker broker' : MemoryState} {name : String}

theorem BrokerEvent.Effect.recording_eq (h : e.Effect broker broker') :
    broker'.recording = broker.recording := by
  rcases e with (shared | ⟨i, m⟩) | ⟨i, text⟩ | i | _ | _
  · rcases h with rfl | hfan
    · rfl
    · exact (fanoutUnsent_frame hfan).2.2.1
  · obtain ⟨queues, rfl⟩ := h
    rfl
  · rcases h with rfl | hopened
    · rfl
    · obtain ⟨bus, rfl⟩ := MemoryState.exists_openAs_eq hopened
      rfl
  · rw [show broker' = _ from h]
    rfl
  · rw [show broker' = _ from h, MemoryState.shutdown]
    split <;> rfl
  · rw [show broker' = _ from h, MemoryState.connect]
    split <;> rfl

/-- Only a subscription by the name registers under it. -/
theorem BrokerEvent.Effect.registers (h : e.Effect broker broker')
    (hname : broker'.registers name = true) :
    broker.registers name = true ∨ ∃ i, e = .subscribe i name := by
  rcases e with (shared | ⟨i, m⟩) | ⟨i, text⟩ | i | _ | _
  · rcases h with rfl | hfan
    · exact Or.inl hname
    · exact Or.inl ((MemoryState.registers_congr (fanoutUnsent_frame hfan).1 name).symm.trans hname)
  · obtain ⟨queues, rfl⟩ := h
    exact Or.inl hname
  · rcases h with rfl | hopened
    · exact Or.inl hname
    · rcases eq_or_ne name text with rfl | hne
      · exact Or.inr ⟨i, rfl⟩
      · exact Or.inl ((MemoryState.registers_openAs hopened hne).symm.trans hname)
  · rw [show broker' = _ from h] at hname
    exact Or.inl hname
  · -- a shutdown drops every registration
    rw [show broker' = _ from h, MemoryState.shutdown] at hname
    split at hname
    · cases hname
    · exact Or.inl hname
  · rw [show broker' = _ from h, MemoryState.connect] at hname
    split at hname
    · exact Or.inl hname
    · cases hname

/-- Only a publish under the name is recorded under it, on a live broker that records. -/
theorem BrokerEvent.Effect.records (h : e.Effect broker broker')
    (hname : broker'.records name = true) :
    broker.records name = true ∨ ∃ shared, e = .inner (.publish shared) ∧ name = shared.name ∧
      broker.recording = true ∧ broker.bus.isLive = true := by
  rcases e with (shared | ⟨i, m⟩) | ⟨i, text⟩ | i | _ | _
  · rcases h with rfl | hfan
    · exact Or.inl hname
    · rcases MemoryState.records_of_fanout hfan hname with hold | hnew
      · exact Or.inl hold
      · exact Or.inr ⟨shared, rfl, hnew⟩
  · obtain ⟨queues, rfl⟩ := h
    exact Or.inl hname
  · rcases h with rfl | hopened
    · exact Or.inl hname
    · obtain ⟨bus, rfl⟩ := MemoryState.exists_openAs_eq hopened
      exact Or.inl hname
  · rw [show broker' = _ from h] at hname
    exact Or.inl hname
  · rw [show broker' = _ from h, MemoryState.shutdown] at hname
    split at hname <;> exact Or.inl hname
  · rw [show broker' = _ from h, MemoryState.connect] at hname
    split at hname <;> exact Or.inl hname

end Effects

/-! ## What a step keeps -/

namespace Requests

variable {s s' : State n} {t : Fin n} {r : Request} {e : Event n} {name : String}

/-- A recorded message that is no late reply is one to a request in progress. -/
theorem InTime.held (h : InTime s name) (hinbox : IsInbox name)
    (hrecording : s.broker.recording = true) (hlive : s.broker.bus.isLive = true) :
    HeldAt Stage.isOpen s name := by
  rcases h hinbox with hoff | hdead | hheld
  · exact absurd hrecording (Bool.eq_false_iff.mp hoff)
  · exact absurd hlive (Bool.eq_false_iff.mp hdead)
  · exact hheld

theorem Kept.stepBroker (h : Kept s) {b : BrokerEvent} (hok : Tidy s (.broker b))
    {seeking : Seeking} (hnext : s.seeking.next b = some seeking) :
    Kept { s with seeking := seeking } := by
  have heffect : b.Effect s.broker seeking.broker := effect_of_next hnext
  refine ⟨fun name hinbox hname => ?_, fun name hinbox hname => ?_⟩
  · rcases heffect.registers hname with hold | ⟨i, rfl⟩
    · exact h.registers name hinbox hold
    · exact absurd hinbox hok
  · rcases heffect.records hname with hold | ⟨shared, rfl, rfl, hrecording, hlive⟩
    · exact ⟨heffect.recording_eq.trans (h.records name hinbox hold).1,
        (h.records name hinbox hold).2⟩
    · have hheld : HeldAt Stage.isOpen s shared.name := InTime.held hok hinbox hrecording hlive
      exact ⟨heffect.recording_eq.trans hrecording, hheld⟩

variable {stages : Stage → Bool}

variable {r' : Option Request}

/-- A request that is held stays held unless it is the one that moves, and moves out of reach. -/
theorem HeldAt.update (h : HeldAt stages s name) (hrequests : s'.requests = update s.requests t r')
    (hkeep : ∀ r, s.requests t = some r → r.inbox = name → stages r.stage = true →
      ∃ r₁, r' = some r₁ ∧ r₁.inbox = name ∧ stages r₁.stage = true) : HeldAt stages s' name := by
  obtain ⟨u, r, hr, hname, hstage⟩ := h
  rcases eq_or_ne u t with rfl | hu
  · obtain ⟨r₁, hr', hname₁, hstage₁⟩ := hkeep r hr hname hstage
    refine ⟨u, r₁, ?_, hname₁, hstage₁⟩
    rw [hrequests, update_self, hr']
  · refine ⟨u, r, ?_, hname, hstage⟩
    rw [hrequests, update_of_ne hu, hr]

/-- The request moves and stays at one of these stages if it was at one. -/
def Stays (stages : Stage → Bool) (r : Request) (r' : Option Request) : Prop :=
  stages r.stage = true → ∃ r₁, r' = some r₁ ∧ r₁.inbox = r.inbox ∧ stages r₁.stage = true

/-- A step of one request: what is held under an inbox name after it is held for a request, or was
held before and the request that moves has not let go of it. -/
theorem Kept.move (h : Kept s) (hr : s.requests t = some r)
    (hrequests : s'.requests = update s.requests t r')
    (hrecording : s'.broker.recording = s.broker.recording)
    (hregisters : ∀ name, IsInbox name → s'.broker.registers name = true →
      HeldAt Stage.listens s' name ∨
        s.broker.registers name = true ∧ (r.inbox = name → Stays Stage.listens r r'))
    (hrecords : ∀ name, IsInbox name → s'.broker.records name = true →
      s.broker.recording = true ∧ HeldAt Stage.isOpen s' name ∨
        s.broker.records name = true ∧ (r.inbox = name → Stays Stage.isOpen r r')) : Kept s' := by
  have hheld : ∀ stages name, HeldAt stages s name → (r.inbox = name → Stays stages r r') →
      HeldAt stages s' name := by
    intro stages name hheld hstays
    refine hheld.update hrequests fun r₀ hr₀ hname hstage => ?_
    cases hr.symm.trans hr₀
    obtain ⟨r₁, hr', hinbox, hstage₁⟩ := hstays hname hstage
    exact ⟨r₁, hr', hinbox.trans hname, hstage₁⟩
  refine ⟨fun name hinbox hname => ?_, fun name hinbox hname => ?_⟩
  · rcases hregisters name hinbox hname with hnew | ⟨hold, hstays⟩
    · exact hnew
    · exact hheld _ _ (h.registers name hinbox hold) hstays
  · rw [hrecording]
    rcases hrecords name hinbox hname with hnew | ⟨hold, hstays⟩
    · exact hnew
    · exact ⟨(h.records name hinbox hold).1, hheld _ _ (h.records name hinbox hold).2 hstays⟩

/-- A step of one request that leaves registrations and logs alone. -/
theorem Kept.move_of_frame (h : Kept s) (hr : s.requests t = some r)
    (hrequests : s'.requests = update s.requests t r')
    (hbus : s'.broker.bus = s.broker.bus) (hlog : s'.broker.log = s.broker.log)
    (hrecording : s'.broker.recording = s.broker.recording)
    (hlistens : Stays Stage.listens r r') (hopen : Stays Stage.isOpen r r') : Kept s' := by
  refine h.move hr hrequests hrecording (fun name _ hname => Or.inr ⟨?_, fun _ => hlistens⟩)
    (fun name _ hname => Or.inr ⟨?_, fun _ => hopen⟩)
  · exact (MemoryState.registers_congr hbus name).symm.trans hname
  · exact (MemoryState.records_congr hlog name).symm.trans hname

theorem stays_of_not (h : stages r.stage = false) : Stays stages r r' :=
  fun hstage => absurd hstage (Bool.eq_false_iff.mp h)

theorem stays_goOn {stage : Stage} (h : stages stage = true) :
    Stays stages r (some { r with stage := stage }) :=
  fun _ => ⟨_, rfl, rfl, h⟩

theorem heldAt_goOn {stage : Stage} (h : stages stage = true)
    (broker : MemoryState) : HeldAt stages ((s.setBroker broker).goOn t r stage) r.inbox :=
  ⟨t, _, update_self t _ _, rfl, h⟩

section

variable (h : Kept s)
include h

section

variable (hr : s.requests t = some r)
include hr

theorem Kept.register (hstage : r.stage = .minted)
    {broker : MemoryState} (hregister : s.broker.registerShared r.inbox r.tx = .ok broker) :
    Kept ((s.setBroker broker).goOn t r .registered) := by
  obtain ⟨hlog, hrecording⟩ := MemoryState.registerShared_frame hregister
  refine h.move hr rfl hrecording (fun name _ hname => ?_) (fun name _ hname => Or.inr ⟨?_, ?_⟩)
  · rcases eq_or_ne name r.inbox with rfl | hne
    · exact Or.inl (heldAt_goOn rfl broker)
    · refine Or.inr ⟨?_, fun heq => absurd heq.symm hne⟩
      exact (MemoryState.registers_registerShared hregister hne).symm.trans hname
  · exact (MemoryState.records_congr hlog name).symm.trans hname
  · exact fun _ => stays_of_not (by rw [hstage]; rfl)

theorem Kept.fanout (htime : InTime s r.msg.name)
    {broker : MemoryState} (hfan : s.broker.fanoutUnsent r.outgoing.name r.outgoing.payload
      r.outgoing.headers = .ok broker) : Kept ((s.setBroker broker).goOn t r .waiting) := by
  obtain ⟨hbus, -, hrecording, -⟩ := fanoutUnsent_frame hfan
  refine h.move hr rfl hrecording (fun name _ hname => Or.inr ⟨?_, fun _ => stays_goOn rfl⟩)
    (fun name hinbox hname => ?_)
  · exact (MemoryState.registers_congr hbus name).symm.trans hname
  · rcases MemoryState.records_of_fanout hfan hname with hold | ⟨rfl, hrec, hlive⟩
    · exact Or.inr ⟨hold, fun _ => stays_goOn rfl⟩
    · refine Or.inl ⟨hrec, ?_⟩
      refine (htime.held hinbox hrec hlive).update rfl fun r₀ hr₀ hname _ => ?_
      cases hr.symm.trans hr₀
      exact ⟨_, rfl, hname, rfl⟩

theorem Kept.unregister (answer : Except RequestError MemoryDelivery) :
    Kept ((s.setBroker (s.broker.unregister r.inbox)).goOn t r (.forgetting answer)) := by
  obtain ⟨hlog, hrecording⟩ := s.broker.unregister_frame r.inbox
  refine h.move hr rfl hrecording (fun name _ hname => ?_)
    (fun name _ hname => Or.inr ⟨?_, fun _ => stays_goOn rfl⟩)
  · rcases eq_or_ne name r.inbox with rfl | hne
    · exact absurd hname (Bool.eq_false_iff.mp (s.broker.registers_unregister_self r.inbox))
    · refine Or.inr ⟨?_, fun heq => absurd heq.symm hne⟩
      exact (s.broker.registers_unregister_of_ne hne).symm.trans hname
  · exact (MemoryState.records_congr hlog name).symm.trans hname

theorem Kept.forget
    {answer : Except RequestError MemoryDelivery} (hstage : r.stage = .forgetting answer) :
    Kept ((s.setBroker (s.broker.forget r.inbox)).answer t r answer) := by
  have hframe : (s.broker.forget r.inbox).bus = s.broker.bus ∧
      (s.broker.forget r.inbox).recording = s.broker.recording := by
    unfold MemoryState.forget
    split_ifs <;> exact ⟨rfl, rfl⟩
  refine h.move hr rfl hframe.2 (fun name _ hname => Or.inr ⟨?_, fun _ => ?_⟩)
    (fun name hinbox hname => ?_)
  · exact (MemoryState.registers_congr hframe.1 name).symm.trans hname
  · exact stays_of_not (by rw [hstage]; rfl)
  · change (s.broker.forget r.inbox).records name = true at hname
    rcases eq_or_ne name r.inbox with rfl | hne
    · -- forgotten, or never recorded
      unfold MemoryState.forget at hname
      split_ifs at hname with hrecording
      · rw [MemoryState.records, LogState.name_forget_self] at hname
        cases hname
      · exact absurd (h.records _ hinbox hname).1 hrecording
    · refine Or.inr ⟨?_, fun heq => absurd heq.symm hne⟩
      unfold MemoryState.forget at hname
      split_ifs at hname with hrecording
      · exact (congrArg Option.isSome (s.broker.log.name_forget_of_ne hne)).symm.trans hname
      · exact hname

/-- One step of a request. -/
theorem Kept.advance (hok : Tidy s e)
    (htask : e.task = some t) (hadvance : advance s t r e = some s') : Kept s' := by
  rcases e with b | _ | u | u | u | u | u | u | u
  · cases hadvance
  · cases hadvance
  · rw [Requests.advance] at hadvance
    split at hadvance
    · rename_i hstage
      split_ifs at hadvance
      rcases hregister : s.broker.registerShared r.inbox r.tx with error | broker
      · rw [hregister] at hadvance
        cases hadvance
        exact h.move_of_frame hr rfl rfl rfl rfl (stays_of_not (by rw [hstage]; rfl))
          (stays_of_not (by rw [hstage]; rfl))
      · rw [hregister] at hadvance
        cases hadvance
        exact h.register hr hstage hregister
    · cases hadvance
  · rw [Requests.advance] at hadvance
    split at hadvance
    · split_ifs at hadvance
      cases htask
      rcases hfan : s.broker.fanoutUnsent r.outgoing.name r.outgoing.payload
          r.outgoing.headers with unsent | broker
      · rw [hfan] at hadvance
        cases hadvance
        exact h.move_of_frame hr rfl rfl rfl rfl (stays_goOn rfl) (stays_goOn rfl)
      · rw [hfan] at hadvance
        cases hadvance
        exact h.fanout hr (hok r hr) hfan
    · cases hadvance
  · rw [Requests.advance] at hadvance
    split at hadvance
    · cases hadvance
      exact h.move_of_frame hr rfl rfl rfl rfl (stays_goOn rfl) (stays_goOn rfl)
    · cases hadvance
  · rw [Requests.advance] at hadvance
    split at hadvance
    · cases hadvance
      exact h.move_of_frame hr rfl rfl rfl rfl (stays_goOn rfl) (stays_goOn rfl)
    · cases hadvance
  · rw [Requests.advance] at hadvance
    split at hadvance
    · split_ifs at hadvance
      cases hadvance
      exact h.unregister hr _
    · cases hadvance
  · rw [Requests.advance] at hadvance
    split at hadvance
    · rename_i hstage
      cases hadvance
      exact h.forget hr hstage
    · cases hadvance
  · exact absurd hok id

end

theorem Kept.step (hok : Tidy s e) (hstep : step s e = some s') : Kept s' := by
  have hown : ∀ e : Event n, Tidy s e → (match e.task with
      | some t =>
        match s.requests t with
        | some r => Requests.advance s t r e
        | none => none
      | none => none) = some s' → Kept s' := by
    intro e hok hadvance
    split at hadvance
    · rename_i t htask
      split at hadvance
      · rename_i r hr
        exact h.advance hr hok htask hadvance
      · cases hadvance
    · cases hadvance
  rcases e with b | ⟨t, msg, wait, tx⟩ | t | t | t | t | t | t | t
  · obtain ⟨seeking, hnext, rfl⟩ := Option.map_eq_some_iff.mp hstep
    exact h.stepBroker hok hnext
  · rw [Requests.step] at hstep
    split at hstep
    · rename_i hnone
      cases hstep
      have hfree : ∀ r, s.requests t ≠ some r := fun r hr => by
        rw [hnone] at hr
        cases hr
      refine ⟨fun name hinbox hname => ?_, fun name hinbox hname => ?_⟩
      · exact (h.registers name hinbox hname).update rfl fun r hr => absurd hr (hfree r)
      · obtain ⟨hrecording, hheld⟩ := h.records name hinbox hname
        exact ⟨hrecording, hheld.update rfl fun r hr => absurd hr (hfree r)⟩
    · cases hstep
  all_goals exact hown _ hok hstep

end

end Requests

/-- **Inboxes leave nothing behind, where nothing is dropped or late.** In every run from a broker that
holds nothing under the name of an inbox, in which no request is dropped while it waits, no reply is
recorded after its request is over, and nobody else subscribes by such a name: whenever no request is
in progress, neither the registry nor the log holds anything under an inbox name given out so far. -/
theorem inboxes_leave_nothing (n : ℕ) (seeking : Seeking)
    (hclean : ∀ id, seeking.broker.holds (inboxName id) = false)
    (events : List (Requests.Event n)) (s : Requests.State n)
    (hall : Run.AllSteps Requests.step Requests.Tidy (.start n seeking) events)
    (hexec : Run.exec Requests.step (.start n seeking) events = some s)
    (hover : ∀ t, s.requests t = none) :
    ∀ id ∈ s.minted, s.broker.holds (inboxName id) = false := by
  have hnothing : ∀ id, seeking.broker.registers (inboxName id) = false ∧
      seeking.broker.records (inboxName id) = false :=
    fun id => Bool.or_eq_false_iff.mp (hclean id)
  have hstart : Requests.Kept (.start n seeking) := by
    refine ⟨?_, ?_⟩ <;> rintro name ⟨id, rfl⟩ hname
    · exact absurd hname (Bool.eq_false_iff.mp (hnothing id).1)
    · exact absurd hname (Bool.eq_false_iff.mp (hnothing id).2)
  have hkept := @Run.exec_invariant _ _ Requests.step Requests.Tidy
    (fun _ s => Requests.Kept s) _ _ _ [] (fun _ _ _ _ h hok hstep => h.step hok hstep)
    hstart hall hexec
  have hnobody : ∀ stages name, ¬Requests.HeldAt stages s name := by
    rintro stages name ⟨t, r, hr, -⟩
    rw [hover t] at hr
    cases hr
  intro id _
  refine Bool.or_eq_false_iff.mpr ⟨?_, ?_⟩
  · exact Bool.eq_false_iff.mpr fun h => hnobody _ _ (hkept.registers _ ⟨id, rfl⟩ h)
  · exact Bool.eq_false_iff.mpr fun h => hnobody _ _ (hkept.records _ ⟨id, rfl⟩ h).2

namespace Requests

/-- A request for a quote, and a broker that records. -/
def quote : DeliveryInner := ⟨"quotes", [], HeaderMap.new⟩

def recorder : Seeking := .start (newBroker .everyMatch .unbounded) fun _ => "quotes"

/-- A request up to where it waits. -/
def asks : List (Event 1) := [.request 0 quote 5 7, .register 0, .fanout 0]

/-- A reply to the inbox of the first request. -/
def answered : Event 1 := .broker (.inner (.publish ⟨inboxName 0, [1], HeaderMap.new⟩))

theorem not_isInbox_quotes : ¬IsInbox "quotes" := by
  rintro ⟨id, hid⟩
  have hhead := congrArg (fun name : String => name.toList.head?) hid
  rw [inboxName, String.toList_append] at hhead
  exact absurd hhead (by simp)

/-- A request that is answered and ends, and another message on its subject after that. -/
theorem inboxes_leave_nothing_answered :
    ∃ s, Run.exec step (.start 1 recorder) (asks ++ [answered, .reply 0, .unregister 0, .forget 0,
        .broker (.inner (.publish quote))]) = some s ∧
      0 ∈ s.minted ∧ s.answers.length = 1 ∧ s.broker.holds (inboxName 0) = false := by
  have hall : Run.AllSteps step Tidy (.start 1 recorder) (asks ++ [answered, .reply 0,
      .unregister 0, .forget 0, .broker (.inner (.publish quote))]) := by
    have hquotes : ∀ s : State 1, InTime s "quotes" := fun _ h => absurd h not_isInbox_quotes
    refine ⟨trivial, fun s₁ h₁ => ⟨trivial, fun s₂ h₂ => ⟨?_, fun s₃ h₃ => ⟨?_, fun _ _ =>
      ⟨trivial, fun _ _ => ⟨trivial, fun _ _ => ⟨trivial, fun _ _ => ⟨hquotes _, fun _ _ =>
        trivial⟩⟩⟩⟩⟩⟩⟩⟩
    · obtain rfl := Option.some.inj h₁
      obtain rfl := Option.some.inj h₂
      intro r hr
      obtain rfl := Option.some.inj hr
      exact hquotes _
    · -- the reply comes while the request waits
      obtain rfl := Option.some.inj h₁
      obtain rfl := Option.some.inj h₂
      obtain rfl := Option.some.inj h₃
      exact fun _ => Or.inr (Or.inr ⟨0, _, rfl, rfl, rfl⟩)
  have hrun : ∃ s, Run.exec step (.start 1 recorder) (asks ++ [answered, .reply 0, .unregister 0,
        .forget 0, .broker (.inner (.publish quote))]) = some s ∧
      0 ∈ s.minted ∧ s.answers.length = 1 ∧ s.requests 0 = none :=
    ⟨_, rfl, List.mem_singleton_self _, rfl, rfl⟩
  obtain ⟨s, hexec, hminted, hanswers, hnone⟩ := hrun
  have hover : ∀ t, s.requests t = none := by
    intro t
    rw [Subsingleton.elim t 0]
    exact hnone
  have hclean : ∀ id, recorder.broker.holds (inboxName id) = false := fun _ => rfl
  exact ⟨s, hexec, hminted, hanswers,
    inboxes_leave_nothing 1 recorder hclean _ s hall hexec hover 0 hminted⟩

/-- A dropped request leaves its registration and the reply that was recorded for it; and a reply
that comes after the request timed out stays in the log. -/
theorem inboxes_left_behind :
    (∃ s, Run.exec step (.start 1 recorder) (asks ++ [answered, .drop 0]) = some s ∧
      s.requests 0 = none ∧ 0 ∈ s.minted ∧ s.broker.registers (inboxName 0) = true ∧
      s.broker.records (inboxName 0) = true) ∧
    ∃ s, Run.exec step (.start 1 recorder)
        (asks ++ [.timeout 0, .unregister 0, .forget 0, answered]) = some s ∧
      s.requests 0 = none ∧ 0 ∈ s.minted ∧ s.broker.registers (inboxName 0) = false ∧
      s.broker.records (inboxName 0) = true := by
  constructor
  · exact ⟨_, rfl, rfl, List.mem_singleton_self _, by decide +kernel, by decide +kernel⟩
  · exact ⟨_, rfl, rfl, List.mem_singleton_self _, by decide +kernel, by decide +kernel⟩

end Requests

end RustStream
