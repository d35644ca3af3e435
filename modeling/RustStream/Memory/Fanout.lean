import RustStream.Memory.Log
import RustStream.Memory.Pattern

/-!
# The fanout of a publish

A publish is handed to the subscriptions of its exact name and to the patterns that match it, under
the broker's routing rule: all of them, or the most specific ones only. The broker keeps the names
in a map and the patterns in groups by their text, and picks among the groups by index. A recording
broker stamps the message with its place in the log first, under the same lock.

## Main definitions

* `MemoryState`: the broker, with its registrations, its logs and the queues of its subscriptions.
* `MemoryState.openAll`, `MemoryState.fanoutUnsent`: registration and fanout.
* `MemoryState.shutdown`, `MemoryState.connect`: the end of a bus, and its revival.
* `Registry.recipients`: the queues a publish is sent to.

## Main results

* `fanoutUnsent_eq`: a publish is sent to its recipients and to no one else.
* `MemoryState.queues_sendTo`: each of them receives it once.
-/

namespace RustStream

open List

/-! ## The broker -/

/-- How the broker picks the subscriptions a publish reaches when patterns match. -/
inductive Routing where
  | everyMatch
  | mostSpecific
  deriving DecidableEq, Repr

/-- What the broker's operations here can fail with. -/
inductive MemoryError where
  | shutDown
  | positionEvicted (requested oldest : ℕ)
  | invalidPattern (pattern : String) (reason : PatternError)
  | wildcardName (name : String)

/-- The subscriptions of one pattern, by the numbers of their queues. -/
structure PatternGroup where
  text : String
  pattern : Pattern
  senders : List ℕ

/-- Whether any subscription of the group still reads. -/
def PatternGroup.isLive (isOpen : ℕ → Bool) (group : PatternGroup) : Bool :=
  group.senders.any isOpen

/-- The registrations of a live bus. -/
structure Registry where
  names : String → Option (List ℕ)
  patterns : List PatternGroup
  routing : Routing

/-- The registry of a bus nobody has subscribed to yet. -/
def Registry.new (routing : Routing) : Registry := ⟨fun _ => none, [], routing⟩

inductive Bus where
  | live (registry : Registry)
  | shutDown (routing : Routing)

/-- The broker: its bus, its log, and the queue of each subscription. -/
structure MemoryState where
  bus : Bus
  log : LogState
  -- whether the log is worth locking
  recording : Bool
  -- the subscriptions whose receiver is still there
  isOpen : ℕ → Bool
  queues : ℕ → List MemoryDelivery

/-- A recording broker nobody has subscribed to yet. -/
def newBroker (routing : Routing) (budget : Budget) : MemoryState where
  bus := .live (Registry.new routing)
  log := .recording budget fun _ => none
  recording := true
  isOpen := fun _ => true
  queues := fun _ => []

/-! ## Registration -/

/-- Joins the group of the same text, or opens one at the end. -/
def joinGroup (text : String) (pattern : Pattern) (tx : ℕ) :
    List PatternGroup → List PatternGroup
  | [] => [⟨text, pattern, [tx]⟩]
  | group :: groups =>
    if group.text = text then { group with senders := group.senders ++ [tx] } :: groups
    else group :: joinGroup text pattern tx groups

namespace MemoryState

/-- Registers a subscriber of a name. -/
def registerShared (state : MemoryState) (name : String) (tx : ℕ) :
    Except MemoryError MemoryState :=
  match state.bus with
  | .live registry =>
    let senders := (registry.names name).getD [] ++ [tx]
    .ok { state with
      bus := .live { registry with names := Function.update registry.names name (some senders) } }
  | .shutDown _ => .error .shutDown

/-- Registers a subscriber of a pattern. -/
def registerPattern (state : MemoryState) (text : String) (pattern : Pattern) (tx : ℕ) :
    Except MemoryError MemoryState :=
  match state.bus with
  | .live registry =>
    .ok { state with
      bus := .live { registry with patterns := joinGroup text pattern tx registry.patterns } }
  | .shutDown _ => .error .shutDown

/-- Opens a subscription by name, which refuses a wildcard. -/
def subscribe (state : MemoryState) (name : String) (tx : ℕ) : Except MemoryError MemoryState :=
  if hasWildcard name then .error (.wildcardName name) else state.registerShared name tx

/-- Opens a pattern subscription. -/
def subscribePattern (state : MemoryState) (text : String) (tx : ℕ) :
    Except MemoryError MemoryState :=
  match Pattern.parse text with
  | .ok pattern => state.registerPattern text pattern tx
  | .error reason => .error (.invalidPattern text reason)

/-- Opens a subscription as an app writes it: a text with a wildcard token is a pattern. -/
def openAs (state : MemoryState) (tx : ℕ) (text : String) : Except MemoryError MemoryState :=
  if hasWildcard text then state.subscribePattern text tx else state.subscribe text tx

/-- Opens the subscriptions one after the other. -/
def openAll (state : MemoryState) : List (ℕ × String) → Except MemoryError MemoryState
  | [] => .ok state
  | (tx, text) :: registrations =>
    match state.openAs tx text with
    | .ok state' => state'.openAll registrations
    | .error e => .error e

/-- Shuts the bus down, which drops its registrations and keeps the logs. -/
def shutdown (state : MemoryState) : MemoryState :=
  match state.bus with
  | .live registry => { state with bus := .shutDown registry.routing }
  | .shutDown _ => state

/-- Connects: a bus that was shut down is revived with no registrations. -/
def connect (state : MemoryState) : MemoryState :=
  match state.bus with
  | .live _ => state
  | .shutDown routing => { state with bus := .live (Registry.new routing) }

/-- Drops a subscription with what is queued at it. Its registration stays. -/
def dropSubscriber (state : MemoryState) (tx : ℕ) : MemoryState :=
  { state with
    isOpen := Function.update state.isOpen tx false
    queues := Function.update state.queues tx [] }

/-- To open a subscription changes the registrations alone. -/
theorem exists_openAs_eq {state state' : MemoryState} {tx : ℕ} {text : String}
    (h : state.openAs tx text = .ok state') : ∃ bus, state' = { state with bus := bus } := by
  unfold openAs at h
  split_ifs at h with hwild
  · unfold subscribePattern at h
    split at h
    · unfold registerPattern at h
      split at h <;> cases h
      exact ⟨_, rfl⟩
    · cases h
  · rw [subscribe, if_neg hwild, registerShared] at h
    split at h <;> cases h
    exact ⟨_, rfl⟩

end MemoryState

/-! ## Fanout -/

/-- Which pattern groups a publish reaches. -/
inductive PatternReach where
  | nobody
  -- every matching group, the first of which sits at this index
  | everyFrom (first : ℕ)
  -- the group at this index alone
  | only (index : ℕ)
  deriving DecidableEq, Repr

/-- Which groups a publish to `name` reaches, given whether an exact name took it. A group whose
subscriptions have all gone takes nothing and shadows nothing. -/
def Routing.reach (routing : Routing) (isOpen : ℕ → Bool) (groups : List PatternGroup)
    (name : String) (exact : Bool) : PatternReach :=
  match routing with
  | .everyMatch =>
    match groups.findIdx? fun group => group.pattern.matchesName name with
    | some first => .everyFrom first
    | none => .nobody
  | .mostSpecific =>
    if exact then .nobody
    else
      match Select.maxBy Pattern.specificity (fun p => p.1.pattern)
          (groups.zipIdx.filter fun p => p.1.pattern.matchesName name && p.1.isLive isOpen) with
      | some (_, index) => .only index
      | none => .nobody

/-- A publish the broker refused, with what it would have carried. -/
structure Unsent where
  error : MemoryError
  payload : Bytes
  headers : Headers .alloc

namespace MemoryState

/-- Appends the message to the log, where the broker records, and makes the delivery of it. -/
def stamp (state : MemoryState) (shared : DeliveryInner) : MemoryDelivery × MemoryState :=
  if state.recording then
    let (seq, log) := state.log.append shared
    (⟨shared, seq, .min⟩, { state with log := log })
  else (⟨shared, 0, .min⟩, state)

/-- Sends a delivery to one queue; a queue nobody reads takes nothing. -/
def send (state : MemoryState) (delivery : MemoryDelivery) (tx : ℕ) : MemoryState :=
  if state.isOpen tx then
    { state with queues := Function.update state.queues tx (state.queues tx ++ [delivery]) }
  else state

/-- Enqueues a delivery to the senders of a name or of a pattern. -/
def sendTo (state : MemoryState) (senders : List ℕ) (delivery : MemoryDelivery) : MemoryState :=
  senders.foldl (fun state tx => state.send delivery tx) state

/-- The fanout of a broker with pattern subscriptions. -/
def fanoutWithPatterns (state : MemoryState) (registry : Registry) (shared : DeliveryInner) :
    MemoryState :=
  let registered := registry.names shared.name
  let exactLive := registered.any fun senders => senders.any state.isOpen
  let reach := registry.routing.reach state.isOpen registry.patterns shared.name exactLive
  if registered = none ∧ state.recording = false ∧ reach = .nobody then state
  else
    let (delivery, state) := state.stamp shared
    let state := state.sendTo (registered.getD []) delivery
    match reach with
    | .nobody => state
    | .everyFrom first =>
      ((registry.patterns.drop first).filter fun group =>
        group.pattern.matchesName shared.name).foldl
          (fun state group => state.sendTo group.senders delivery) state
    | .only index =>
      match registry.patterns[index]? with
      | some group => state.sendTo group.senders delivery
      | none => state

/-- Hands a publish to the subscriptions it reaches. A broker without patterns looks up the name
alone, and builds no delivery where nobody reads it and nothing is recorded. -/
def fanoutUnsent (state : MemoryState) (name : String) (payload : Bytes)
    (headers : Headers .alloc) : Except Unsent MemoryState :=
  match state.bus with
  | .shutDown _ => .error ⟨.shutDown, payload, headers⟩
  | .live registry =>
    if registry.patterns = [] then
      match registry.names name with
      | some senders =>
        let (delivery, state) := state.stamp ⟨name, payload, headers⟩
        .ok (state.sendTo senders delivery)
      | none =>
        if state.recording then .ok (state.stamp ⟨name, payload, headers⟩).2 else .ok state
    else .ok (state.fanoutWithPatterns registry ⟨name, payload, headers⟩)

end MemoryState

/-! ## What the fanout sends -/

namespace MemoryState

variable {senders : List ℕ}

variable (state : MemoryState)

/-- Sending touches nothing but the queues. -/
theorem exists_sendTo_eq (senders : List ℕ) (delivery : MemoryDelivery) :
    ∃ queues, state.sendTo senders delivery = { state with queues := queues } := by
  induction senders generalizing state with
  | nil => exact ⟨state.queues, rfl⟩
  | cons tx senders ih =>
    obtain ⟨queues, hqueues⟩ := ih (state.send delivery tx)
    refine ⟨queues, hqueues.trans ?_⟩
    unfold send
    split_ifs <;> rfl

theorem isOpen_send (delivery : MemoryDelivery) (tx : ℕ) :
    (state.send delivery tx).isOpen = state.isOpen := by
  unfold send
  split_ifs <;> rfl

/-- A queue that is read receives the delivery once for each time it is sent to. -/
theorem queues_sendTo_count (senders : List ℕ) (delivery : MemoryDelivery) (i : ℕ) :
    (state.sendTo senders delivery).queues i = state.queues i ++
        if state.isOpen i = true then List.replicate (senders.count i) delivery else [] := by
  induction senders generalizing state with
  | nil => simp [sendTo]
  | cons tx senders ih =>
    change ((state.send delivery tx).sendTo senders delivery).queues i = _
    rw [ih, isOpen_send]
    by_cases hi : tx = i
    · subst hi
      rw [count_cons_self, send]
      by_cases hopen : state.isOpen tx = true
      · simp only [if_pos hopen, Function.update_self, replicate_succ, append_assoc,
          singleton_append]
      · simp only [if_neg hopen]
    · have hqueue : (state.send delivery tx).queues i = state.queues i := by
        unfold send
        split_ifs
        · exact Function.update_of_ne (Ne.symm hi) _ _
        · rfl
      rw [hqueue, count_cons_of_ne hi]

/-- Each of the senders that still reads receives the delivery once. -/
theorem queues_sendTo (delivery : MemoryDelivery) (hnodup : senders.Nodup) (i : ℕ) :
    (state.sendTo senders delivery).queues i
      = state.queues i ++ if i ∈ senders ∧ state.isOpen i = true then [delivery] else [] := by
  rw [queues_sendTo_count, hnodup.count]
  by_cases hi : i ∈ senders
  · simp only [hi, if_true, true_and, replicate_one]
  · simp only [hi, false_and, if_false, replicate_zero, ite_self]

theorem foldl_sendTo (groups : List PatternGroup) (state : MemoryState)
    (delivery : MemoryDelivery) :
    groups.foldl (fun state group => state.sendTo group.senders delivery) state
      = state.sendTo (groups.flatMap PatternGroup.senders) delivery := by
  induction groups generalizing state with
  | nil => rfl
  | cons group groups ih =>
    rw [foldl_cons, ih, flatMap_cons, sendTo, sendTo, sendTo, foldl_append]

theorem stamp_frame (shared : DeliveryInner) :
    (state.stamp shared).2.queues = state.queues ∧ (state.stamp shared).2.isOpen = state.isOpen ∧
      (state.stamp shared).1.shared = shared ∧ (state.stamp shared).1.deliveries = .min := by
  unfold stamp
  split_ifs <;> exact ⟨rfl, rfl, rfl, rfl⟩

end MemoryState

namespace Registry

/-- The groups behind what the rule reached. -/
def chosen (registry : Registry) (name : String) : PatternReach → List PatternGroup
  | .nobody => []
  | .everyFrom first =>
    (registry.patterns.drop first).filter fun group => group.pattern.matchesName name
  | .only index => (registry.patterns[index]?).toList

/-- What the rule reaches for a publish to `name`. -/
def reached (registry : Registry) (isOpen : ℕ → Bool) (name : String) : PatternReach :=
  registry.routing.reach isOpen registry.patterns name
    ((registry.names name).any fun senders => senders.any isOpen)

/-- The queues a publish to `name` is sent to, in the order they are sent to. -/
def recipients (registry : Registry) (isOpen : ℕ → Bool) (name : String) : List ℕ :=
  (registry.names name).getD [] ++
    (registry.chosen name (registry.reached isOpen name)).flatMap PatternGroup.senders

theorem reached_of_no_patterns {registry : Registry} (h : registry.patterns = [])
    (isOpen : ℕ → Bool) (name : String) : registry.reached isOpen name = .nobody := by
  unfold reached Routing.reach
  rw [h]
  cases registry.routing with
  | everyMatch => rfl
  | mostSpecific =>
    dsimp only
    split_ifs <;> rfl

end Registry

theorem fanoutWithPatterns_eq (state : MemoryState) (registry : Registry) (shared : DeliveryInner) :
    state.fanoutWithPatterns registry shared = (state.stamp shared).2.sendTo
      (registry.recipients state.isOpen shared.name) (state.stamp shared).1 := by
  unfold MemoryState.fanoutWithPatterns Registry.recipients
  dsimp only
  rw [← Registry.reached]
  split_ifs with hskip
  · -- nobody to send to and nothing to record
    obtain ⟨hnames, hrecording, hreached⟩ := hskip
    rw [hnames, hreached, MemoryState.stamp, hrecording]
    rfl
  · cases hreached : registry.reached state.isOpen shared.name with
    | nobody => simp [Registry.chosen]
    | everyFrom first =>
      dsimp only
      rw [MemoryState.foldl_sendTo, MemoryState.sendTo, MemoryState.sendTo, ← foldl_append]
      rfl
    | only index =>
      dsimp only [Registry.chosen]
      cases registry.patterns[index]? with
      | none => simp
      | some group =>
        simp only [Option.toList_some, flatMap_cons, flatMap_nil, append_nil]
        rw [MemoryState.sendTo, MemoryState.sendTo, ← foldl_append]
        rfl

/-- A publish to a live bus is sent to its recipients and to no one else. -/
theorem fanoutUnsent_eq (state : MemoryState) {registry : Registry}
    (hbus : state.bus = .live registry) (shared : DeliveryInner) :
    state.fanoutUnsent shared.name shared.payload shared.headers
      = .ok ((state.stamp shared).2.sendTo (registry.recipients state.isOpen shared.name)
        (state.stamp shared).1) := by
  rw [MemoryState.fanoutUnsent, hbus]
  dsimp only
  by_cases hpatterns : registry.patterns = []
  · have hreached := registry.reached_of_no_patterns hpatterns state.isOpen shared.name
    have hrecipients : registry.recipients state.isOpen shared.name
        = (registry.names shared.name).getD [] := by
      rw [Registry.recipients, hreached]
      simp [Registry.chosen]
    rw [if_pos hpatterns, hrecipients]
    cases hnames : registry.names shared.name with
    | some senders => rfl
    | none =>
      dsimp only
      split_ifs with hrecording
      · rfl
      · rw [MemoryState.stamp, if_neg hrecording]
        rfl
  · rw [if_neg hpatterns, ← fanoutWithPatterns_eq]

/-- Beside the queues, a publish changes the log alone. -/
theorem fanoutUnsent_frame {state state' : MemoryState} {shared : DeliveryInner}
    (h : state.fanoutUnsent shared.name shared.payload shared.headers = .ok state') :
    state'.bus = state.bus ∧ state'.isOpen = state.isOpen ∧
      state'.recording = state.recording ∧ state'.log = (state.stamp shared).2.log := by
  rcases hbus : state.bus with registry | routing
  · rw [fanoutUnsent_eq state hbus shared] at h
    obtain ⟨queues, hsent⟩ := (state.stamp shared).2.exists_sendTo_eq
      (registry.recipients state.isOpen shared.name) (state.stamp shared).1
    rw [hsent] at h
    rw [← Except.ok.inj h, ← hbus]
    refine ⟨?_, (state.stamp_frame shared).2.1, ?_, rfl⟩ <;>
    · unfold MemoryState.stamp
      split_ifs <;> rfl
  · rw [MemoryState.fanoutUnsent, hbus] at h
    cases h

end RustStream
