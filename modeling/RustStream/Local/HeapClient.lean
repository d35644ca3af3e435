import RustStream.Local.Client
import RustStream.Local.Threads

/-!
# A client of the heap bus

A call of a client, with no other thread in between, is a run of its sections. Between the calls the
bus is at rest: no lock is held, no subscription is about to be closed, every message that was settled
has released its place.

## Main definitions

* `Heap.State.perform`: a call and its answer.
* `Heap.State.view`: what a client knows of the bus.
* `Heap.Quiet`: the bus between the calls of a client.

## Main results

* `Heap.perform_follows`: the calls do to the view what `Client.View.perform` says.
-/

namespace RustStream.Heap

open Function List Client Lockstep

/-! ## The calls -/

def LocalMemoryError.kind : LocalMemoryError → ErrorKind
  | .shutDown => .shutDown
  | .full _ _ => .full

namespace State

/-- The sections of a publish: the subscriptions of the name are asked for room up to the first that
has none; if all have room they receive their copies. -/
def publishSections (cap : ℕ) (s : State) (name : String) (delivery : LocalDelivery .alloc) :
    List Event :=
  let reading := s.reading name
  let roomy := reading.takeWhile fun i => (s.cells i).cell.hasRoom cap
  .publish name delivery ::
    if s.live = false then []
    else if roomy.length < reading.length then List.replicate (roomy.length + 1) .check
    else
      List.replicate reading.length .check ++ (List.replicate reading.length .enqueue ++ [.finish])

/-- What a publish is answered. -/
def fanoutAnswer (cap : ℕ) (s : State) (name : String) : Except LocalMemoryError Unit :=
  if s.live = false then .error .shutDown
  else if (s.reading name).any fun i => !(s.cells i).cell.hasRoom cap then .error (.full name cap)
  else .ok ()

/-- What the requeue of a message is answered. -/
def requeueAnswer (cap : ℕ) (s : State) (i : ℕ) (copy : Copy) : Reply :=
  match (s.cells i).cell.requeue cap copy.requeue with
  | some (answer, _) => .result (answer.mapError LocalMemoryError.kind)
  | none => .panicked

/-- The sections of a call run one after the other. -/
def call (cap : ℕ) (s : State) (sections : List Event) (reply : Reply) : Option (Reply × State) :=
  (Run.exec (step cap) s sections).map (reply, ·)

/-- A call and its answer, where a client can make it. -/
def perform (cap : ℕ) (s : State) : Operation → Option (Reply × State)
  | .connect => s.call cap [.connect] .done
  | .subscribe name _ =>
    s.call cap [.subscribe name] (.result (if s.live then .ok () else .error .shutDown))
  | .publish name payload pairs =>
    match headersOf .alloc pairs with
    | .error _ => none
    | .ok headers =>
      s.call cap (s.publishSections cap name (deliveryOf payload headers))
        (.result ((s.fanoutAnswer cap name).mapError LocalMemoryError.kind))
  | .poll i => s.call cap [.pollNext i] (.polled (shown (s.cells i).cell.pollNext.1))
  | .ack i k => s.call cap [.settle i k, .release i] (.result (.ok ()))
  | .nack i k false => s.call cap [.settle i k, .release i] (.result (.ok ()))
  | .nack i k true =>
    match (s.cells i).hands[k]? with
    | none => none
    | some copy => s.call cap [.requeue i k, .release i] (s.requeueAnswer cap i copy)
  | .drop i k => s.call cap [.requeue i k, .release i] .done
  | .leave i => s.call cap [.unlist i, .unsubscribe i] .done
  | .shutDown =>
    s.call cap (.shutDown :: s.subscriptions.map .close) (.closed s.subscriptions.length)

end State

/-! ## The view -/

def Subscription.reader (sub : Subscription Copy) : Reader :=
  ⟨sub.name, sub.queue.map seenCopy, sub.inHand, sub.standing = .shutDown⟩

/-- What a client knows of the bus. -/
def State.view (s : State) : View where
  live := s.live
  opened := s.opened
  readers := fun i => if s.subscriber i then some (s.cells i).cell.reader else none
  hands := fun i => (s.cells i).hands.map seenCopy

/-- Whether the bus refuses what comes back to a subscription whose subscriber left: the subscription
remembers whether a shutdown closed it before. -/
def State.refuses (s : State) (i : ℕ) : Bool :=
  (s.cells i).cell.standing = .shutDown

/-- The bus between the calls of a client. -/
structure Quiet (s : State) : Prop where
  unlocked : s.publishing = none
  none_leaving : ∀ i, s.leaving i = false
  none_closing : ∀ i, s.closing i = false
  none_settling : ∀ i, (s.cells i).settling = 0
  listed_iff : ∀ i, i ∈ s.subscriptions ↔
    s.subscriber i = true ∧ (s.cells i).cell.standing = .opened
  subscribed_lt : ∀ i, s.subscriber i = true → i < s.opened
  subscribed : ∀ i, s.subscriber i = true → (s.cells i).cell.standing ≠ .unsubscribed
  unsubscribed : ∀ i, i < s.opened → s.subscriber i = false →
    (s.cells i).cell.standing ≠ .opened
  unopened : ∀ i, s.opened ≤ i → (s.cells i).hands = []

section

variable {cap i k : ℕ} {s s' : State} {o : Opened} {copy : Copy}

theorem quiet_new : Quiet State.new where
  unlocked := rfl
  none_leaving _ := rfl
  none_closing _ := rfl
  none_settling _ := rfl
  listed_iff i := by simp [State.new]
  subscribed_lt i h := by cases h
  subscribed i h := by cases h
  unsubscribed i h := absurd h (Nat.not_lt_zero i)
  unopened _ _ := rfl

/-! ## One subscription changes -/

/-- What the bus between the calls of a client says of one subscription. -/
structure QuietAt (s : State) (j : ℕ) : Prop where
  leaving : s.leaving j = false
  closing : s.closing j = false
  settling : (s.cells j).settling = 0
  listed_iff : j ∈ s.subscriptions ↔ s.subscriber j = true ∧ (s.cells j).cell.standing = .opened
  subscribed_lt : s.subscriber j = true → j < s.opened
  subscribed : s.subscriber j = true → (s.cells j).cell.standing ≠ .unsubscribed
  unsubscribed : j < s.opened → s.subscriber j = false → (s.cells j).cell.standing ≠ .opened
  unopened : s.opened ≤ j → (s.cells j).hands = []

theorem Quiet.at (h : Quiet s) (j : ℕ) : QuietAt s j :=
  ⟨h.none_leaving j, h.none_closing j, h.none_settling j, h.listed_iff j, h.subscribed_lt j,
    h.subscribed j, h.unsubscribed j, h.unopened j⟩

theorem quiet_of_at (hunlocked : s.publishing = none) (h : ∀ j, QuietAt s j) : Quiet s :=
  ⟨hunlocked, fun j => (h j).leaving, fun j => (h j).closing, fun j => (h j).settling,
    fun j => (h j).listed_iff, fun j => (h j).subscribed_lt, fun j => (h j).subscribed,
    fun j => (h j).unsubscribed, fun j => (h j).unopened⟩

/-- A subscription that nothing happened to. -/
theorem QuietAt.congr {j : ℕ} (h : QuietAt s j) (hleaving : s'.leaving j = s.leaving j)
    (hclosing : s'.closing j = s.closing j) (hlisted : j ∈ s'.subscriptions ↔ j ∈ s.subscriptions)
    (hsubscriber : s'.subscriber j = s.subscriber j) (hopened : j < s'.opened ↔ j < s.opened)
    (hcell : (s'.cells j).cell.standing = (s.cells j).cell.standing ∧
      (s'.cells j).settling = (s.cells j).settling ∧ (s'.cells j).hands = (s.cells j).hands) :
    QuietAt s' j := by
  obtain ⟨hstanding, hsettling, hhands⟩ := hcell
  refine ⟨hleaving.trans h.leaving, hclosing.trans h.closing, hsettling.trans h.settling, ?_, ?_, ?_,
    ?_, ?_⟩
  · rw [hlisted, hsubscriber, hstanding]
    exact h.listed_iff
  · rw [hsubscriber, hopened]
    exact h.subscribed_lt
  · rw [hsubscriber, hstanding]
    exact h.subscribed
  · rw [hsubscriber, hstanding, hopened]
    exact h.unsubscribed
  · rw [hhands, ← Nat.not_lt, hopened, Nat.not_lt]
    exact h.unopened

theorem cells_put_of_ne (s : State) (o : Opened) {j : ℕ} (hj : j ≠ i) :
    (s.put i o).cells j = s.cells j :=
  update_of_ne hj _ _

theorem Quiet.put (h : Quiet s) (hstanding : o.cell.standing = (s.cells i).cell.standing)
    (hsettling : o.settling = 0) (hhands : s.opened ≤ i → o.hands = []) : Quiet (s.put i o) := by
  refine quiet_of_at h.unlocked fun j => ?_
  by_cases hj : j = i
  · subst hj
    have hcell : (s.put j o).cells j = o := update_self _ _ _
    refine ⟨h.none_leaving j, h.none_closing j, ?_, ?_, h.subscribed_lt j, ?_, ?_, ?_⟩
    all_goals rw [hcell]
    · exact hsettling
    · rw [hstanding]
      exact h.listed_iff j
    · rw [hstanding]
      exact h.subscribed j
    · rw [hstanding]
      exact h.unsubscribed j
    · exact hhands
  · refine (h.at j).congr rfl rfl Iff.rfl rfl Iff.rfl ?_
    rw [cells_put_of_ne s o hj]
    exact ⟨rfl, rfl, rfl⟩

theorem view_put (s : State) (i : ℕ) (o : Opened) :
    (s.put i o).view = { s.view with
      readers := update s.view.readers i
        (if s.subscriber i then some o.cell.reader else none)
      hands := update s.view.hands i (o.hands.map seenCopy) } := by
  ext1
  · rfl
  · rfl
  · exact funext (apply_update (fun j (o : Opened) => if s.subscriber j then some o.cell.reader else none) s.cells i o)
  · exact funext (apply_update (fun _ o => o.hands.map seenCopy) s.cells i o)

/-- A message leaves and its subscription changes with it. -/
theorem view_put_letGo {f : Reader → Reader}
    (hreader : s.subscriber i = true → o.cell.reader = f (s.cells i).cell.reader)
    (hhands : o.hands = (s.cells i).hands.eraseIdx k) :
    (s.put i o).view = (s.view.letGo i k).change i f := by
  have hmap : o.hands.map seenCopy = (s.view.hands i).eraseIdx k := by
    rw [hhands, State.view, eraseIdx_map]
  rw [view_put, hmap]
  unfold View.letGo View.change
  dsimp only [State.view]
  split_ifs with hi
  · rw [hreader hi, Option.map_some]
  · rfl

/-- The end of a message's drop. -/
theorem exec_release (h : Sound cap s) (hquiet : Quiet s) {e : Event} (hstep : step cap s e = some (s.put i o))
    (hone : o.settling = (s.cells i).settling + 1) :
    Run.exec (step cap) s [e, .release i] = some (s.put i
      { o with cell := { o.cell with inHand := o.cell.inHand - 1 }, settling := 0 }) := by
  have hcell : (s.put i o).cells i = o := update_self _ _ _
  have hsettling : o.settling = 1 := by rw [hone, hquiet.none_settling]
  have hne : o.settling ≠ 0 := by omega
  have hcounted := (step_sound h hstep).counted i
  rw [hcell, Opened.Counted] at hcounted
  have hsettle : o.cell.settle = some { o.cell with inHand := o.cell.inHand - 1 } := if_neg (by omega)
  rw [Run.exec, hstep]
  dsimp only
  rw [Run.exec, step, hcell, if_neg hne, hsettle, hsettling]
  dsimp only
  unfold State.put
  rw [update_idem]
  rfl

/-! ## Messages -/

/-- A call that ran to its end, with what it does to the view. -/
theorem together_of_exec {es : List Event} {v : View} (h : Sound cap s)
    (hexec : Run.exec (step cap) s es = some s') (hview : s'.view = v) (hquiet : Quiet s')
    (reply : Reply) :
    Together (fun s v => s.view = v ∧ Sound cap s ∧ Quiet s) True (s.call cap es reply)
      (some (reply, v)) := by
  rw [State.call, hexec]
  exact .taken ⟨hview, h.exec hexec, hquiet⟩ (iff_of_true rfl trivial)

theorem exec_settle (h : Sound cap s) (hcopy : (s.cells i).hands[k]? = some copy)
    (hquiet : Quiet s) : ∃ s', Run.exec (step cap) s [.settle i k, .release i] = some s' ∧
      s'.view = s.view.settled i k ∧ Quiet s' := by
  have hstep : step cap s (.settle i k) = some (s.put i { s.cells i with
      hands := (s.cells i).hands.eraseIdx k, settling := (s.cells i).settling + 1
      settled := (s.cells i).settled ++ [copy.publish] }) := by
    rw [step, Opened.settle, hcopy]
    rfl
  refine ⟨_, exec_release h hquiet hstep rfl, ?_, ?_⟩
  · exact view_put_letGo (fun _ => rfl) rfl
  · refine hquiet.put rfl rfl fun hle => ?_
    rw [hquiet.unopened i hle] at hcopy
    cases hcopy

theorem exec_requeue (h : Sound cap s) (hcopy : (s.cells i).hands[k]? = some copy)
    (hquiet : Quiet s) : ∃ s', Run.exec (step cap) s [.requeue i k, .release i] = some s' ∧
      s'.view = s.view.requeued i k (seenCopy copy) ∧ Quiet s' := by
  have henqueue := enqueue_hands hcopy (h.kept i) copy.requeue
  have hunopened : s.opened ≤ i → (s.cells i).hands.eraseIdx k = [] := by
    intro hle
    rw [hquiet.unopened i hle] at hcopy
    cases hcopy
  have hstep : ∀ {o}, (s.cells i).requeue cap copy k = some o →
      step cap s (.requeue i k) = some (s.put i o) := by
    intro o ho
    rw [step, hcopy]
    dsimp only
    rw [ho]
  by_cases hopen : (s.cells i).cell.standing = .opened
  · have hrequeue : (s.cells i).requeue cap copy k = some { s.cells i with
        cell := { (s.cells i).cell with queue := (s.cells i).cell.queue ++ [copy.requeue] }
        hands := (s.cells i).hands.eraseIdx k, settling := (s.cells i).settling + 1 } := by
      unfold Opened.requeue Subscription.requeue
      rw [hopen, henqueue, if_pos rfl]
      rfl
    refine ⟨_, exec_release h hquiet (hstep hrequeue) rfl, ?_, hquiet.put rfl rfl hunopened⟩
    refine view_put_letGo (fun _ => ?_) rfl
    unfold Subscription.reader Reader.giveBack Reader.release
    rw [hopen, map_append]
    rfl
  · -- a subscription that is not open lets go of the copy, whatever it answers
    have hrequeue : (s.cells i).requeue cap copy k = some { s.cells i with
        hands := (s.cells i).hands.eraseIdx k, settling := (s.cells i).settling + 1
        released := (s.cells i).released ++ [copy.publish] } := by
      unfold Opened.requeue
      rw [if_neg hopen]
      unfold Subscription.requeue
      cases hstanding : (s.cells i).cell.standing with
      | opened => exact absurd hstanding hopen
      | unsubscribed => rfl
      | shutDown => rfl
    refine ⟨_, exec_release h hquiet (hstep hrequeue) rfl, ?_, hquiet.put rfl rfl hunopened⟩
    refine view_put_letGo (fun hi => ?_) rfl
    have hclosed : (s.cells i).cell.standing = .shutDown := by
      have hthere := hquiet.subscribed i hi
      cases hstanding : (s.cells i).cell.standing with
      | opened => exact absurd hstanding hopen
      | unsubscribed => exact absurd hstanding hthere
      | shutDown => rfl
    unfold Subscription.reader Reader.giveBack Reader.release
    rw [hclosed]
    rfl

/-- What a requeue is answered depends on the standing alone. -/
theorem requeueAnswer_eq (h : Sound cap s) (hcopy : (s.cells i).hands[k]? = some copy) :
    s.requeueAnswer cap i copy = .result (s.view.requeueAnswer s.refuses i) := by
  have helim : (s.view.readers i).elim (s.refuses i) Reader.closed
      = decide ((s.cells i).cell.standing = .shutDown) := by
    dsimp only [State.view]
    split_ifs <;> rfl
  unfold State.requeueAnswer View.requeueAnswer Subscription.requeue
  rw [helim, enqueue_hands hcopy (h.kept i)]
  cases (s.cells i).cell.standing with
  | opened => rfl
  | unsubscribed => rfl
  | shutDown => rfl

theorem exec_poll (cap : ℕ) (hquiet : Quiet s) (hi : s.subscriber i = true) :
    ∃ s', Run.exec (step cap) s [.pollNext i] = some s' ∧ Quiet s' ∧
      s.view.perform cap s.refuses (.poll i)
        = some (.polled (shown (s.cells i).cell.pollNext.1), s'.view) := by
  have hreader : s.view.readers i = some (s.cells i).cell.reader := if_pos hi
  have hlt := hquiet.subscribed_lt i hi
  have hexec : ∀ {next}, (s.cells i).cell.pollNext.map Poll.delivered id = next →
      Run.exec (step cap) s [.pollNext i] = some (s.put i ((s.cells i).handOut next)) := by
    rintro next rfl
    rw [Run.exec, step, if_pos hi]
    rfl
  rw [View.perform, hreader]
  cases hqueue : (s.cells i).cell.queue with
  | cons copy queue =>
    have hnext : (s.cells i).cell.pollNext = (.ready (some copy), { (s.cells i).cell with
        queue := queue, inHand := (s.cells i).cell.inHand + 1 }) := by
      rw [Subscription.pollNext, hqueue]
    rw [hnext] at hexec
    refine ⟨_, hexec rfl, hquiet.put rfl (hquiet.none_settling i) fun hle => ?_, ?_⟩
    · omega
    · rw [view_put, hnext, if_pos hi]
      unfold Subscription.reader
      rw [hqueue]
      dsimp only [map_cons, Opened.handOut, Prod.map, Poll.delivered, State.view]
      rw [map_append]
      rfl
  | nil =>
    have hnext : (s.cells i).cell.pollNext
        = (if (s.cells i).cell.standing = .shutDown then .ready none else .pending,
          (s.cells i).cell) := by
      rw [Subscription.pollNext, hqueue]
      dsimp only
      split_ifs <;> rfl
    have hsame : s.put i ((s.cells i).handOut (none, (s.cells i).cell)) = s := by
      unfold State.put Opened.handOut
      rw [update_eq_self]
    have hnone : (s.cells i).cell.pollNext.map Poll.delivered id = (none, (s.cells i).cell) := by
      rw [hnext]
      dsimp only [Prod.map]
      split_ifs <;> rfl
    have hrun := hexec hnone
    rw [hsame] at hrun
    refine ⟨s, hrun, hquiet, ?_⟩
    unfold Subscription.reader
    rw [hnext, hqueue]
    dsimp only [map_nil]
    by_cases hclosed : (s.cells i).cell.standing = .shutDown
    · rw [if_pos hclosed, if_pos (decide_eq_true hclosed)]
      rfl
    · rw [if_neg hclosed, if_neg (by simpa using hclosed)]
      rfl

/-! ## Subscribers -/

theorem exec_subscribe (hquiet : Quiet s) (hlive : s.live = true)
    (name : String) :
    ∃ s', Run.exec (step cap) s [.subscribe name] = some s' ∧ Quiet s' ∧
      s'.view = { s.view with
        opened := s.opened + 1
        readers := update s.view.readers s.opened (some ⟨name, [], 0, false⟩) } := by
  have hexec : Run.exec (step cap) s [.subscribe name] = some { s.put s.opened (.new name) with
      subscriptions := s.subscriptions ++ [s.opened]
      subscriber := update s.subscriber s.opened true
      opened := s.opened + 1 } := by
    rw [Run.exec, step, hquiet.unlocked, if_neg (by simp), if_pos hlive]
    rfl
  refine ⟨_, hexec, quiet_of_at hquiet.unlocked fun j => ?_, ?_⟩
  · by_cases hj : j = s.opened
    · subst hj
      constructor
      · exact hquiet.none_leaving _
      · exact hquiet.none_closing _
      all_goals simp [State.put, Opened.new, Subscription.new]
    · have hlt : j < s.opened + 1 ↔ j < s.opened := by omega
      refine (hquiet.at j).congr rfl rfl ?_ ?_ hlt ?_
      · simp [hj]
      · exact update_of_ne hj _ _
      · simp [State.put, hj]
  · ext1
    · rfl
    · rfl
    · funext j
      by_cases hj : j = s.opened
      · subst hj
        simp only [State.view, State.put, update_self]
        rfl
      · simp only [State.view, State.put, update_of_ne hj]
    · funext j
      by_cases hj : j = s.opened
      · subst hj
        simp only [State.view, State.put, update_self, hquiet.unopened s.opened le_rfl]
        rfl
      · simp only [State.view, State.put, update_of_ne hj]

theorem exec_leave (cap : ℕ) (hquiet : Quiet s) (hi : s.subscriber i = true) :
    ∃ s', Run.exec (step cap) s [.unlist i, .unsubscribe i] = some s' ∧ Quiet s' ∧
      s'.view = { s.view with readers := update s.view.readers i none } := by
  have hfirst : step cap s (.unlist i) = some { s with
      subscriptions := s.subscriptions.filter (· ≠ i)
      subscriber := update s.subscriber i false
      leaving := update s.leaving i true } := by
    rw [step, hquiet.unlocked, hi, if_neg (by simp)]
  have hexec : Run.exec (step cap) s [.unlist i, .unsubscribe i]
      = some { s.put i (s.cells i).unsubscribe with
        subscriptions := s.subscriptions.filter (· ≠ i)
        subscriber := update s.subscriber i false
        leaving := update (update s.leaving i true) i false } := by
    rw [Run.exec, hfirst]
    dsimp only
    rw [Run.exec, step, if_pos (update_self _ _ _)]
    rfl
  refine ⟨_, hexec, quiet_of_at hquiet.unlocked fun j => ?_, ?_⟩
  · by_cases hj : j = i
    · subst hj
      have hnot : (s.cells j).unsubscribe.cell.standing ≠ .opened := by
        unfold Opened.unsubscribe Subscription.unsubscribe
        dsimp only
        split_ifs with hopen
        · simp
        · exact hopen
      have hlt := hquiet.subscribed_lt j hi
      constructor
      · exact update_self _ _ _
      · exact hquiet.none_closing j
      · simpa [State.put, Opened.unsubscribe] using hquiet.none_settling j
      · simp
      · simp
      · simp
      · simpa [State.put] using fun _ => hnot
      · exact fun hle => absurd hle (Nat.not_le.mpr hlt)
    · refine (hquiet.at j).congr ?_ rfl ?_ ?_ Iff.rfl ?_
      · simp [hj]
      · simp [hj]
      · exact update_of_ne hj _ _
      · simp [State.put, hj]
  · ext1
    · rfl
    · rfl
    · funext j
      by_cases hj : j = i
      · subst hj
        simp [State.view]
      · simp only [State.view, State.put, update_of_ne hj]
    · funext j
      by_cases hj : j = i
      · subst hj
        simp only [State.view, State.put, update_self]
        rfl
      · simp only [State.view, State.put, update_of_ne hj]

/-! ## Shutdown -/

/-- A subscription on the list is one a client knows to be open. -/
theorem mem_openReaders_iff (hquiet : Quiet s) : i ∈ s.view.openReaders ↔ i ∈ s.subscriptions := by
  rw [View.openReaders, mem_filter, mem_range, hquiet.listed_iff]
  constructor
  · rintro ⟨-, hopen⟩
    by_cases hi : s.subscriber i = true
    · refine ⟨hi, ?_⟩
      have hthere := hquiet.subscribed i hi
      simp only [State.view, hi, if_true, Option.any_some, Subscription.reader, Bool.not_eq_true',
        decide_eq_false_iff_not] at hopen
      cases hstanding : (s.cells i).cell.standing with
      | opened => rfl
      | unsubscribed => exact absurd hstanding hthere
      | shutDown => exact absurd hstanding hopen
    · simp [State.view, hi] at hopen
  · rintro ⟨hi, hstanding⟩
    refine ⟨hquiet.subscribed_lt i hi, ?_⟩
    simp [State.view, hi, Subscription.reader, hstanding]

theorem length_openReaders (h : Sound cap s) (hquiet : Quiet s) :
    s.view.openReaders.length = s.subscriptions.length := by
  have hnodup : s.view.openReaders.Nodup := nodup_range.filter _
  apply List.Perm.length_eq
  rw [perm_ext_iff_of_nodup hnodup h.listed_nodup]
  exact fun i => mem_openReaders_iff hquiet

theorem exec_closes {l : List ℕ} (hnodup : l.Nodup) (hclosing : ∀ j ∈ l, s.closing j = true) :
    Run.exec (step cap) s (l.map .close) = some { s with
      cells := fun j =>
        if j ∈ l then { s.cells j with cell := (s.cells j).cell.shutDown } else s.cells j
      closing := fun j => if j ∈ l then false else s.closing j } := by
  induction l generalizing s with
  | nil => simp [Run.exec]
  | cons i l ih =>
    obtain ⟨hi, hnodup⟩ := nodup_cons.mp hnodup
    have hne : ∀ j ∈ l, j ≠ i := fun j hj hji => hi (hji ▸ hj)
    rw [map_cons, Run.exec, step, if_pos (hclosing i mem_cons_self)]
    dsimp only
    rw [ih hnodup fun j hj => ?_]
    · congr 2
      · funext j
        by_cases hj : j = i
        · subst hj
          simp [State.put, hi]
        · simp [State.put, hj]
      · funext j
        by_cases hj : j = i
        · subst hj
          simp
        · simp [hj]
    · simp only [update_of_ne (hne j hj)]
      exact hclosing j (mem_cons_of_mem i hj)

theorem exec_shutDown (h : Sound cap s) (hquiet : Quiet s) :
    ∃ s', Run.exec (step cap) s (.shutDown :: s.subscriptions.map .close) = some s' ∧ Quiet s' ∧
      s'.view = { s.view with
        live := false, readers := fun i => (s.view.readers i).map Reader.close } := by
  have hfirst : step cap s .shutDown = some { s with
      live := false, subscriptions := []
      closing := fun i => s.closing i || s.subscriptions.contains i } := by
    rw [step, hquiet.unlocked, if_neg (by simp)]
  have hexec : Run.exec (step cap) s (.shutDown :: s.subscriptions.map .close) = some { s with
      live := false, subscriptions := []
      cells := fun j =>
        if j ∈ s.subscriptions then { s.cells j with cell := (s.cells j).cell.shutDown }
        else s.cells j
      closing := fun j =>
        if j ∈ s.subscriptions then false
        else s.closing j || s.subscriptions.contains j } := by
    rw [Run.exec, hfirst]
    dsimp only
    rw [exec_closes h.listed_nodup fun j hj => ?_]
    simp [hj]
  have hlisted := hquiet.listed_iff
  refine ⟨_, hexec, quiet_of_at hquiet.unlocked fun j => ?_, ?_⟩
  · have hsettling := hquiet.none_settling j
    have hhands := hquiet.unopened j
    by_cases hj : j ∈ s.subscriptions
    · refine ⟨hquiet.none_leaving j, ?_, ?_, ?_, hquiet.subscribed_lt j, ?_, ?_, ?_⟩
      all_goals simp [hj, Subscription.shutDown, hsettling]
      exact hhands
    · have hnot := fun hi => mt (fun hopen => (hlisted j).mpr ⟨hi, hopen⟩) hj
      refine ⟨hquiet.none_leaving j, ?_, ?_, ?_, hquiet.subscribed_lt j, ?_, ?_, ?_⟩
      all_goals simp only [hj, if_false]
      · simp [hj, hquiet.none_closing j]
      · exact hsettling
      · simpa using hnot
      · exact hquiet.subscribed j
      · exact hquiet.unsubscribed j
      · exact hhands
  · ext1
    · rfl
    · rfl
    · funext j
      by_cases hi : s.subscriber j = true
      · simp only [State.view, hi, if_true, Option.map_some, Option.some.injEq]
        split_ifs with hj
        · rfl
        · have hclosed : (s.cells j).cell.standing = .shutDown := by
            have hthere := hquiet.subscribed j hi
            cases hstanding : (s.cells j).cell.standing with
            | opened => exact absurd ((hlisted j).mpr ⟨hi, hstanding⟩) hj
            | unsubscribed => exact absurd hstanding hthere
            | shutDown => rfl
          unfold Subscription.reader Reader.close
          rw [hclosed]
          rfl
      · simp [State.view, hi]
    · funext j
      dsimp only [State.view]
      split_ifs <;> rfl

/-! ## Publishes -/

theorem mem_reading_iff (hquiet : Quiet s) {name : String} :
    i ∈ s.reading name ↔ (s.view.readers i).any (fun reader => reader.reads name) = true := by
  rw [State.reading, mem_filter, ← mem_openReaders_iff hquiet, View.openReaders,
    mem_filter, mem_range]
  by_cases hi : s.subscriber i = true
  · have hlt := hquiet.subscribed_lt i hi
    simp [State.view, hi, Subscription.reader, Reader.reads, hlt]
  · simp [State.view, hi]

theorem full_eq (hquiet : Quiet s) (name : String) : s.view.full cap name
      = (s.reading name).any fun i => !(s.cells i).cell.hasRoom cap := by
  rw [Bool.eq_iff_iff, View.full, any_eq_true, any_eq_true]
  refine exists_congr fun i => ?_
  rw [mem_reading_iff hquiet, mem_range]
  by_cases hi : s.subscriber i = true
  · have hlt := hquiet.subscribed_lt i hi
    simp [State.view, hi, Subscription.reader, Reader.hasRoom, Subscription.hasRoom, hlt]
  · simp [State.view, hi]

/-- The subscriptions that have room are asked one after the other. -/
theorem exec_checks {p : Publishing} {roomy rest : List ℕ} (hp : s.publishing = some p)
    (hunchecked : p.unchecked = roomy ++ rest)
    (hroom : ∀ j ∈ roomy, (s.cells j).cell.hasRoom cap = true) :
    Run.exec (step cap) s (List.replicate roomy.length .check) = some { s with
      publishing := some { p with unchecked := rest, pending := p.pending ++ roomy } } := by
  induction roomy generalizing s p with
  | nil =>
    rw [nil_append] at hunchecked
    rw [length_nil, replicate_zero, Run.exec, append_nil, ← hunchecked]
    cases s
    cases hp
    rfl
  | cons i roomy ih =>
    have hfirst : step cap s .check = some { s with publishing := some { p with
        unchecked := roomy ++ rest, pending := p.pending ++ [i] } } := by
      rw [step, hp]
      dsimp only
      rw [hunchecked, cons_append]
      dsimp only
      rw [if_pos (hroom i mem_cons_self)]
    rw [length_cons, replicate_succ, Run.exec, hfirst]
    refine (ih (p := { p with unchecked := roomy ++ rest, pending := p.pending ++ [i] }) rfl rfl
      ?_).trans ?_
    · exact fun j hj => hroom j (mem_cons_of_mem i hj)
    · dsimp only
      rw [append_assoc]
      rfl

/-- A subscription that received the copy of a publish. -/
def Opened.received (o : Opened) (p : Publishing) : Opened :=
  { o with
    cell := { o.cell with queue := o.cell.queue ++ [⟨p.number, p.delivery⟩] }
    accepted := o.accepted ++ [p.number] }

theorem exec_enqueues {p : Publishing} {l : List ℕ} (hp : s.publishing = some p)
    (hunchecked : p.unchecked = []) (hpending : p.pending = l) (hnodup : l.Nodup)
    (hroom : ∀ j ∈ l, (s.cells j).cell.hasRoom cap = true) :
    Run.exec (step cap) s (List.replicate l.length .enqueue) = some { s with
      cells := fun j => if j ∈ l then (s.cells j).received p else s.cells j
      publishing := some { p with pending := [] } } := by
  induction l generalizing s p with
  | nil =>
    cases s
    cases hp
    cases p
    cases hpending
    simp [Run.exec]
  | cons i l ih =>
    obtain ⟨hi, hnodup⟩ := nodup_cons.mp hnodup
    have hne : ∀ j ∈ l, j ≠ i := fun j hj hji => hi (hji ▸ hj)
    have hqueue : (s.cells i).cell.queue.length < cap := by
      have := hroom i mem_cons_self
      simp only [Subscription.hasRoom, decide_eq_true_eq] at this
      omega
    have hfirst : step cap s .enqueue = some { s.put i ((s.cells i).received p) with
        publishing := some { p with pending := l } } := by
      rw [step, hp]
      dsimp only
      rw [hunchecked, hpending]
      dsimp only
      rw [Subscription.enqueue, if_pos hqueue]
      rfl
    rw [length_cons, replicate_succ, Run.exec, hfirst]
    refine (ih (p := { p with pending := l }) rfl hunchecked rfl hnodup fun j hj => ?_).trans ?_
    rotate_left
    · dsimp only
      congr 2
      funext j
      by_cases hj : j = i
      · subst hj
        simp [State.put, hi]
      · simp only [State.put, update_of_ne hj, mem_cons, hj, false_or]
        rfl
    · simp only [State.put, update_of_ne (hne j hj)]
      exact hroom j (mem_cons_of_mem i hj)

/-- The bus after a publish that is refused, as a client knows it the bus before. -/
def State.refuse (s : State) (name : String) : State := { s with
  publishing := none, published := s.published + 1
  finished := s.finished ++ [⟨s.published, name, s.reading name, false⟩] }

theorem Quiet.refuse (hquiet : Quiet s) (name : String) : Quiet (s.refuse name) :=
  ⟨rfl, hquiet.none_leaving, hquiet.none_closing, hquiet.none_settling, hquiet.listed_iff,
    hquiet.subscribed_lt, hquiet.subscribed, hquiet.unsubscribed, hquiet.unopened⟩

/-- The first section of a publish on a live bus. -/
theorem step_publish (hquiet : Quiet s) (hlive : s.live = true) (name : String)
    (delivery : LocalDelivery .alloc) :
    step cap s (.publish name delivery) = some { s with
      publishing := some ⟨s.published, name, delivery, s.reading name, s.reading name, []⟩
      published := s.published + 1 } := by
  rw [step, hquiet.unlocked, if_neg (by simp)]
  dsimp only
  rw [if_pos hlive]

theorem exec_publish_shutDown (cap : ℕ) (hquiet : Quiet s) (hlive : s.live = false)
    (name : String) (delivery : LocalDelivery .alloc) :
    ∃ s', Run.exec (step cap) s (s.publishSections cap name delivery) = some s' ∧ Quiet s' ∧
      s'.view = s.view := by
  have hsections : s.publishSections cap name delivery = [.publish name delivery] := by
    unfold State.publishSections
    dsimp only
    rw [if_pos hlive]
  refine ⟨s.refuse name, ?_, hquiet.refuse name, rfl⟩
  rw [hsections, Run.exec, step, hquiet.unlocked, if_neg (by simp)]
  dsimp only
  rw [if_neg (by simp [hlive])]
  rfl

theorem exec_publish_full (hquiet : Quiet s) (hlive : s.live = true) {name : String}
    {roomy rest : List ℕ} {j : ℕ} (hreading : s.reading name = roomy ++ j :: rest)
    (hroom : ∀ j ∈ roomy, (s.cells j).cell.hasRoom cap = true)
    (hj : (s.cells j).cell.hasRoom cap = false) (delivery : LocalDelivery .alloc) :
    ∃ s', Run.exec (step cap) s (.publish name delivery ::
      List.replicate (roomy.length + 1) .check) = some s' ∧ Quiet s' ∧ s'.view = s.view := by
  let p : Publishing := ⟨s.published, name, delivery, s.reading name, s.reading name, []⟩
  let asking : State := { s with publishing := some p, published := s.published + 1 }
  refine ⟨s.refuse name, ?_, hquiet.refuse name, rfl⟩
  have hchecks := exec_checks (s := asking) (p := p) rfl hreading hroom
  rw [Run.exec, step_publish hquiet hlive, replicate_succ']
  change Run.exec (step cap) asking _ = _
  rw [Run.exec_append hchecks, Run.exec, step]
  dsimp only
  rw [if_neg (by simp [asking, hj])]
  rfl

theorem exec_publish_taken (h : Sound cap s) (hquiet : Quiet s) (hlive : s.live = true)
    {name : String} (hroom : ∀ j ∈ s.reading name, (s.cells j).cell.hasRoom cap = true)
    (delivery : LocalDelivery .alloc) :
    ∃ s', Run.exec (step cap) s (.publish name delivery ::
      (List.replicate (s.reading name).length .check ++
        (List.replicate (s.reading name).length .enqueue ++ [.finish]))) = some s' ∧ Quiet s' ∧
      s'.view = { s.view with
        readers := fun i => (s.view.readers i).map (Reader.receive name (seen delivery)) } := by
  have hnodup : (s.reading name).Nodup := h.listed_nodup.filter _
  let p : Publishing := ⟨s.published, name, delivery, s.reading name, s.reading name, []⟩
  let s' : State := { s with
    cells := fun j => if j ∈ s.reading name then (s.cells j).received p else s.cells j }
  refine ⟨{ s' with
    publishing := none, published := s.published + 1
    finished := s.finished ++ [⟨s.published, name, s.reading name, true⟩] }, ?_, ?_, ?_⟩
  · let asking : State := { s with publishing := some p, published := s.published + 1 }
    let p' : Publishing := { p with unchecked := [], pending := s.reading name }
    have hchecks := exec_checks (s := asking) (p := p) rfl (append_nil _).symm hroom
    have henqueues := exec_enqueues (s := { asking with publishing := some p' }) (p := p') rfl rfl
      rfl hnodup hroom
    rw [Run.exec, step_publish hquiet hlive]
    change Run.exec (step cap) asking _ = _
    rw [Run.exec_append hchecks]
    change Run.exec (step cap) { asking with publishing := some p' }
      (List.replicate p'.pending.length .enqueue ++ [.finish]) = _
    rw [Run.exec_append henqueues]
    rfl
  · -- a copy changes neither the standing of a subscription nor its messages in hand
    refine quiet_of_at rfl fun j => (hquiet.at j).congr rfl rfl Iff.rfl rfl Iff.rfl ?_
    dsimp only [s']
    split_ifs <;> exact ⟨rfl, rfl, rfl⟩
  · ext1
    · rfl
    · rfl
    · funext j
      by_cases hj : s.subscriber j = true
      · have hmem : j ∈ s.reading name ↔ _ := mem_reading_iff hquiet
        simp only [State.view, hj, if_true, Option.any_some] at hmem
        simp only [State.view, s', hj, if_true, Option.map_some, Reader.receive, ← hmem]
        split_ifs
        · unfold Opened.received Subscription.reader
          rw [map_append]
          rfl
        · rfl
      · simp [State.view, s', hj]
    · funext j
      dsimp only [State.view, s']
      split_ifs <;> rfl

theorem publish_follows (h : Sound cap s) (hquiet : Quiet s) (name : String) (payload : Bytes)
    (pairs : List (Bytes × Bytes)) : Together (fun s v => s.view = v ∧ Sound cap s ∧ Quiet s) True
      (s.perform cap (.publish name payload pairs))
      (s.view.perform cap s.refuses (.publish name payload pairs)) := by
  obtain ⟨headers, hheaders⟩ := headersOf_alloc pairs
  have hroomy : ∀ j ∈ (s.reading name).takeWhile fun i => (s.cells i).cell.hasRoom cap,
      (s.cells j).cell.hasRoom cap = true :=
    all_eq_true.mp all_takeWhile
  have hreading : (s.reading name).takeWhile (fun i => (s.cells i).cell.hasRoom cap)
      ++ (s.reading name).dropWhile (fun i => (s.cells i).cell.hasRoom cap) = s.reading name :=
    takeWhile_append_dropWhile
  have hhead := head?_dropWhile_not (fun i => (s.cells i).cell.hasRoom cap) (s.reading name)
  rw [State.perform, hheaders, View.perform, full_eq hquiet, ← seen_deliveryOf hheaders]
  dsimp only
  by_cases hlive : s.live = true
  · have hlive' : s.view.live ≠ false := by simpa [State.view] using hlive
    rw [if_neg hlive']
    cases hdrop : (s.reading name).dropWhile fun i => (s.cells i).cell.hasRoom cap with
    | nil =>
      rw [hdrop, append_nil] at hreading
      rw [hreading] at hroomy
      have hany : (s.reading name).any (fun i => !(s.cells i).cell.hasRoom cap) = false := by
        simpa using hroomy
      have hsections : s.publishSections cap name (deliveryOf payload headers)
          = .publish name (deliveryOf payload headers) ::
            (List.replicate (s.reading name).length .check ++
              (List.replicate (s.reading name).length .enqueue ++ [.finish])) := by
        unfold State.publishSections
        dsimp only
        rw [hreading, if_neg (by simp [hlive]), if_neg (lt_irrefl _)]
      obtain ⟨s', hexec, hquiet', hview⟩ := exec_publish_taken h hquiet hlive hroomy
        (deliveryOf payload headers)
      rw [State.fanoutAnswer, hany, if_neg (by simp [hlive]), if_neg (by simp), if_neg (by simp),
        hsections]
      exact together_of_exec h hexec hview hquiet' _
    | cons j rest =>
      rw [hdrop] at hreading hhead
      have hj : (s.cells j).cell.hasRoom cap = false := hhead
      have hmem : j ∈ s.reading name := by
        rw [← hreading]
        exact mem_append_right _ mem_cons_self
      have hany : (s.reading name).any (fun i => !(s.cells i).cell.hasRoom cap) = true :=
        any_eq_true.mpr ⟨j, hmem, by simpa using hj⟩
      have hlt : ((s.reading name).takeWhile fun i => (s.cells i).cell.hasRoom cap).length
          < (s.reading name).length := by
        have hlength := congrArg List.length hreading
        rw [length_append, length_cons] at hlength
        omega
      have hsections : s.publishSections cap name (deliveryOf payload headers)
          = .publish name (deliveryOf payload headers) :: List.replicate
            (((s.reading name).takeWhile fun i => (s.cells i).cell.hasRoom cap).length + 1)
            .check := by
        unfold State.publishSections
        dsimp only
        rw [if_neg (by simp [hlive]), if_pos hlt]
      obtain ⟨s', hexec, hquiet', hview⟩ := exec_publish_full hquiet hlive hreading.symm hroomy hj
        (deliveryOf payload headers)
      rw [State.fanoutAnswer, hany, if_neg (by simp [hlive]), if_pos rfl, if_pos rfl, hsections]
      exact together_of_exec h hexec hview hquiet' _
  · have hdown : s.live = false := by simpa using hlive
    obtain ⟨s', hexec, hquiet', hview⟩ := exec_publish_shutDown cap hquiet hdown name
      (deliveryOf payload headers)
    have hdown' : s.view.live = false := hdown
    rw [if_pos hdown', State.fanoutAnswer, if_pos hdown]
    exact together_of_exec h hexec hview hquiet' _

/-- **A client of the heap bus.** Every call does to the view what it is to do, and leaves the bus at
rest. -/
theorem perform_follows (h : Sound cap s) (hquiet : Quiet s) (op : Operation) :
    Together (fun s v => s.view = v ∧ Sound cap s ∧ Quiet s) True (s.perform cap op)
      (s.view.perform cap s.refuses op) := by
  have hhands : ∀ i k, (s.view.hands i)[k]? = (s.cells i).hands[k]?.map seenCopy :=
    fun i k => getElem?_map ..
  have hgone : ∀ i, s.subscriber i = false → s.view.readers i = none := by
    intro i hi
    simp [State.view, hi]
  have hsettle : ∀ i k, Together (fun s v => s.view = v ∧ Sound cap s ∧ Quiet s) True
      (s.call cap [.settle i k, .release i] (.result (.ok ())))
      ((s.view.hands i)[k]?.map fun _ => (.result (.ok ()), s.view.settled i k)) := by
    intro i k
    rw [hhands]
    cases hcopy : (s.cells i).hands[k]? with
    | none =>
      rw [State.call, Run.exec, step, Opened.settle, hcopy]
      exact .stuck trivial
    | some copy =>
      obtain ⟨s', hexec, hview, hquiet'⟩ := exec_settle h hcopy hquiet
      exact together_of_exec h hexec hview hquiet' _
  cases op with
  | connect =>
    have hexec : Run.exec (step cap) s [.connect] = some { s with live := true } := by
      rw [Run.exec, step, hquiet.unlocked, if_neg (by simp)]
      rfl
    refine together_of_exec h hexec rfl ?_ .done
    exact ⟨hquiet.unlocked, hquiet.none_leaving, hquiet.none_closing, hquiet.none_settling,
      hquiet.listed_iff, hquiet.subscribed_lt, hquiet.subscribed, hquiet.unsubscribed,
      hquiet.unopened⟩
  | subscribe name literal =>
    rw [State.perform, View.perform]
    by_cases hlive : s.live = true
    · obtain ⟨s', hexec, hquiet', hview⟩ := exec_subscribe hquiet hlive name
      rw [if_pos hlive, if_pos (show s.view.live = true from hlive)]
      exact together_of_exec h hexec hview hquiet' _
    · have hexec : Run.exec (step cap) s [.subscribe name] = some s := by
        rw [Run.exec, step, hquiet.unlocked, if_neg (by simp), if_neg hlive]
        rfl
      rw [if_neg hlive, if_neg (show ¬s.view.live = true from hlive)]
      exact together_of_exec h hexec rfl hquiet _
  | publish name payload pairs => exact publish_follows h hquiet name payload pairs
  | poll i =>
    by_cases hi : s.subscriber i = true
    · obtain ⟨s', hexec, hquiet', hview⟩ := exec_poll cap hquiet hi
      rw [hview, State.perform]
      exact together_of_exec h hexec rfl hquiet' _
    · rw [State.perform, View.perform, hgone i (by simpa using hi), State.call, Run.exec, step,
        if_neg hi]
      exact .stuck trivial
  | ack i k => exact hsettle i k
  | nack i k requeue =>
    cases requeue with
    | false => exact hsettle i k
    | true =>
      rw [State.perform, View.perform, hhands]
      cases hcopy : (s.cells i).hands[k]? with
      | none => exact .stuck trivial
      | some copy =>
        obtain ⟨s', hexec, hview, hquiet'⟩ := exec_requeue h hcopy hquiet
        dsimp only [Option.map_some]
        rw [requeueAnswer_eq h hcopy]
        exact together_of_exec h hexec hview hquiet' _
  | drop i k =>
    rw [State.perform, View.perform, hhands]
    cases hcopy : (s.cells i).hands[k]? with
    | none =>
      rw [State.call, Run.exec, step, hcopy]
      exact .stuck trivial
    | some copy =>
      obtain ⟨s', hexec, hview, hquiet'⟩ := exec_requeue h hcopy hquiet
      exact together_of_exec h hexec hview hquiet' _
  | leave i =>
    rw [State.perform, View.perform]
    by_cases hi : s.subscriber i = true
    · have hreader : (s.view.readers i).isSome = true := by
        simp [State.view, hi]
      obtain ⟨s', hexec, hquiet', hview⟩ := exec_leave cap hquiet hi
      rw [if_pos hreader]
      exact together_of_exec h hexec hview hquiet' _
    · rw [hgone i (by simpa using hi), State.call, Run.exec, step,
        if_pos (Or.inr (by simpa using hi))]
      exact .stuck trivial
  | shutDown =>
    obtain ⟨s', hexec, hquiet', hview⟩ := exec_shutDown h hquiet
    rw [State.perform, View.perform, length_openReaders h hquiet]
    exact together_of_exec h hexec hview hquiet' _

end

end RustStream.Heap
