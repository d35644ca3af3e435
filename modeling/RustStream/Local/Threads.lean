import RustStream.Local.Heap

/-!
# Threads on the heap bus

Whatever the threads do, in whatever order their sections run, a subscription never holds more
distinct deliveries than its capacity. What makes it so is that only a publish adds a delivery, that
publishes exclude each other, and that a delivery given back was in hand and is counted there still:
the room check may count a delivery twice and refuse a publish early, but never misses one.

## Main definitions

* `Heap.Opened.account`: the account of a subscription's copies.
* `Heap.Evolves`: what the sections of a subscription do.
* `Heap.Sound`: the invariant of a run.

## Main results

* `Heap.step_sound`, `Heap.run_sound`: every section keeps it, so every run does.
-/

namespace RustStream.Heap

open Function List Places

/-- Where the copies of a subscription are. -/
def Opened.account (o : Opened) (reserved : ℕ) : Account ℕ where
  waiting := o.cell.queue.map Numbered.publish
  inHand := o.hands.map Numbered.publish
  done := o.settled
  released := o.released
  accepted := o.accepted
  idle := o.settling
  reserved := reserved

/-- Whether the publish under way has found room in the subscription and not used it yet. -/
def Publishing.reserved (p : Publishing) (i : ℕ) : ℕ :=
  if i ∈ p.pending then 1 else 0

def State.reserved (s : State) (i : ℕ) : ℕ :=
  s.publishing.elim 0 fun p => p.reserved i

/-! ## The sections of a subscription -/

/-- The count a subscription keeps is that of the messages it handed out. -/
def Opened.Counted (o : Opened) : Prop :=
  o.cell.inHand = o.hands.length + o.settling

/-- What a section of a subscription does: at most one move, and no publish is accepted. -/
structure Evolves (cap : ℕ) (o o' : Opened) : Prop where
  name_eq : o'.cell.name = o.cell.name
  accepted_eq : o'.accepted = o.accepted
  move : ∀ reserved, o'.account reserved = o.account reserved ∨
    Account.Move cap (o.account reserved) (o'.account reserved)
  counted : o.Counted → o'.Counted

section Sections

variable {cap i k reserved : ℕ} {o o' : Opened} {copy : Copy}

theorem perm_eraseIdx {α : Type*} {l : List α} {k : ℕ} {x : α} (h : l[k]? = some x) :
    l.Perm (x :: l.eraseIdx k) := by
  obtain ⟨hk, rfl⟩ := List.getElem?_eq_some_iff.mp h
  exact (getElem_cons_eraseIdx_perm hk).symm

theorem perm_hands (h : o.hands[k]? = some copy) : (o.account reserved).inHand.Perm
      (copy.publish :: (o.hands.eraseIdx k).map Numbered.publish) :=
  (perm_eraseIdx h).map Numbered.publish

theorem length_eraseIdx_hands (h : o.hands[k]? = some copy) :
    o.hands.length = (o.hands.eraseIdx k).length + 1 :=
  (perm_eraseIdx h).length_eq

/-- Both ways to read a subscription hand out the head of the queue, if there is one. -/
theorem evolves_handOut {next : Option Copy × Subscription Copy}
    (h : next = (none, o.cell) ∨ ∃ copy queue, o.cell.queue = copy :: queue ∧
      next = (some copy, { o.cell with queue := queue, inHand := o.cell.inHand + 1 })) :
    Evolves cap o (o.handOut next) := by
  rcases h with rfl | ⟨copy, queue, hqueue, rfl⟩
  · exact ⟨rfl, rfl, fun _ => Or.inl rfl, fun hcounted => hcounted⟩
  · refine ⟨rfl, rfl, fun reserved => Or.inr ?_, fun hcounted => ?_⟩
    · have hwaiting : (o.account reserved).waiting
          = copy.publish :: queue.map Numbered.publish := by
        change o.cell.queue.map Numbered.publish = _
        rw [hqueue, map_cons]
      have hhands : (o.hands ++ [copy]).map Numbered.publish
          = (o.account reserved).inHand ++ [copy.publish] := by
        rw [map_append]
        rfl
      dsimp only [Opened.handOut, Opened.account]
      rw [hhands]
      exact .take _ _ hwaiting
    · unfold Opened.Counted at hcounted ⊢
      simp only [Opened.handOut, length_append, length_singleton]
      omega

theorem evolves_pollNext (o : Opened) :
    Evolves cap o (o.handOut (o.cell.pollNext.map Poll.delivered id)) := by
  apply evolves_handOut
  unfold Subscription.pollNext
  cases hqueue : o.cell.queue with
  | nil =>
    left
    dsimp only
    split_ifs <;> rfl
  | cons copy queue => exact Or.inr ⟨copy, queue, rfl, rfl⟩

theorem evolves_tryNext (o : Opened) : Evolves cap o (o.handOut o.cell.tryNext) := by
  apply evolves_handOut
  unfold Subscription.tryNext
  cases hqueue : o.cell.queue with
  | nil => exact Or.inl rfl
  | cons copy queue => exact Or.inr ⟨copy, queue, rfl, rfl⟩

theorem evolves_settle (h : o.settle k = some o') : Evolves cap o o' := by
  obtain ⟨copy, hcopy, rfl⟩ := Option.map_eq_some_iff.mp h
  refine ⟨rfl, rfl, fun reserved => Or.inr (.settle _ _ (perm_hands hcopy)), fun hcounted => ?_⟩
  have hlength := length_eraseIdx_hands hcopy
  unfold Opened.Counted at hcounted ⊢
  dsimp only
  omega

theorem evolves_unsubscribe (o : Opened) : Evolves cap o o.unsubscribe :=
  ⟨rfl, rfl, fun _ => Or.inr .drain, fun hcounted => hcounted⟩

theorem evolves_shutDown (o : Opened) :
    Evolves cap o { o with cell := o.cell.shutDown } :=
  ⟨rfl, rfl, fun _ => Or.inl rfl, fun hcounted => hcounted⟩

/-- A message in hand finds its place in the queue. -/
theorem enqueue_hands (h : o.hands[k]? = some copy) (hkept : (o.account reserved).Kept cap)
    (delivery : Copy) :
    o.cell.enqueue cap delivery = some { o.cell with queue := o.cell.queue ++ [delivery] } := by
  have hroom := hkept.room_to_give_back (perm_hands h)
  rw [Opened.account, length_map] at hroom
  exact if_pos hroom

/-- A requeue goes through, and to an open subscription it is not lost. -/
theorem exists_requeue (h : o.hands[k]? = some copy) (hkept : (o.account reserved).Kept cap) :
    ∃ o', o.requeue cap copy k = some o' ∧ Evolves cap o o' ∧
      (o.cell.standing = .opened → o'.cell.queue = o.cell.queue ++ [copy.requeue]) := by
  have hlength := length_eraseIdx_hands h
  unfold Opened.requeue Subscription.requeue
  cases hstanding : o.cell.standing with
  | opened =>
    rw [enqueue_hands h hkept]
    refine ⟨_, rfl, ⟨rfl, rfl, fun reserved => Or.inr ?_, fun hcounted => ?_⟩, fun _ => rfl⟩
    · have hqueue : (o.cell.queue ++ [copy.requeue]).map Numbered.publish
          = (o.account reserved).waiting ++ [copy.publish] := by
        rw [map_append]
        rfl
      dsimp only [Opened.account]
      rw [if_pos rfl, hqueue]
      exact .giveBack _ _ (perm_hands h)
    · unfold Opened.Counted at hcounted ⊢
      dsimp only
      omega
  | unsubscribed | shutDown =>
    refine ⟨_, rfl, ⟨rfl, rfl, fun reserved => Or.inr ?_, fun hcounted => ?_⟩, fun h => by cases h⟩
    · exact .lose _ _ (perm_hands h)
    · unfold Opened.Counted at hcounted ⊢
      dsimp only
      omega

/-- A message that is settled has a place to release. -/
theorem exists_release (hcounted : o.Counted) (hsettling : o.settling ≠ 0) :
    ∃ cell, o.cell.settle = some cell ∧
      Evolves cap o { o with cell := cell, settling := o.settling - 1 } := by
  unfold Opened.Counted at hcounted
  refine ⟨_, if_neg (by omega), rfl, rfl, fun _ => Or.inr .leave, fun _ => ?_⟩
  unfold Opened.Counted
  dsimp only
  omega

end Sections

/-! ## The invariant -/

/-- The publish under way: it is for the subscriptions that read its name now, some of which have
received their copy, but none before all were asked. -/
structure Publishing.Underway (p : Publishing) (s : State) : Prop where
  number_lt : p.number < s.published
  unfinished : ∀ f ∈ s.finished, f.number ≠ p.number
  targets_eq : p.targets = s.reading p.name
  given : ∃ given, p.targets = given ++ (p.pending ++ p.unchecked) ∧
    (p.unchecked = [] ∨ given = []) ∧
    ∀ i, p.number ∈ (s.cells i).accepted ↔ i ∈ given

/-- A publish that ended was accepted by all the subscriptions it was for, once each, or by none. -/
structure AllOrNone (s : State) (f : Finished) : Prop where
  number_lt : f.number < s.published
  target_lt : ∀ i ∈ f.targets, i < s.opened
  accepted_iff : ∀ i, f.number ∈ (s.cells i).accepted ↔ f.taken = true ∧ i ∈ f.targets

structure Sound (cap : ℕ) (s : State) : Prop where
  no_fault : s.fault = false
  kept : ∀ i, ((s.cells i).account (s.reserved i)).Kept cap
  counted : ∀ i, (s.cells i).Counted
  accepted_lt : ∀ i, ∀ n ∈ (s.cells i).accepted, n < s.published
  listed_lt : ∀ i ∈ s.subscriptions, i < s.opened
  listed_nodup : s.subscriptions.Nodup
  underway : ∀ p, s.publishing = some p → p.Underway s
  finished : ∀ f ∈ s.finished, AllOrNone s f

section Invariant

variable {cap i : ℕ} {s s' : State} {o' : Opened} {p : Publishing}

theorem sound_new (cap : ℕ) : Sound cap State.new where
  no_fault := rfl
  kept _ := Account.kept_empty cap
  counted _ := rfl
  accepted_lt _ _ h := absurd h not_mem_nil
  listed_lt _ h := absurd h not_mem_nil
  listed_nodup := nodup_nil
  underway _ h := by cases h
  finished _ h := absurd h not_mem_nil

theorem accepted_put (s : State) (i j : ℕ) (h : o'.accepted = (s.cells i).accepted) :
    ((s.put i o').cells j).accepted = (s.cells j).accepted := by
  unfold State.put
  by_cases hj : j = i
  · subst hj
    simp only [update_self, h]
  · simp only [update_of_ne hj]

theorem reading_put (s : State) (i : ℕ) (h : o'.cell.name = (s.cells i).cell.name)
    (name : String) : (s.put i o').reading name = s.reading name := by
  unfold State.reading
  refine filter_congr fun j _ => ?_
  unfold State.put
  by_cases hj : j = i
  · subst hj
    simp only [update_self, h]
  · simp only [update_of_ne hj]

/-- The sections of a subscription keep the invariant. -/
theorem Sound.put (h : Sound cap s) (hevolves : Evolves cap (s.cells i) o') :
    Sound cap (s.put i o') where
  no_fault := h.no_fault
  kept j := by
    have hkept := h.kept j
    unfold State.put
    by_cases hj : j = i
    · subst hj
      simp only [update_self]
      rcases hevolves.move (s.reserved j) with heq | hmove
      · exact heq ▸ hkept
      · exact hkept.move hmove
    · simp only [update_of_ne hj]
      exact hkept
  counted j := by
    unfold State.put
    by_cases hj : j = i
    · subst hj
      simp only [update_self]
      exact hevolves.counted (h.counted j)
    · simp only [update_of_ne hj]
      exact h.counted j
  accepted_lt j n hn := by
    rw [accepted_put s i j hevolves.accepted_eq] at hn
    exact h.accepted_lt j n hn
  listed_lt := h.listed_lt
  listed_nodup := h.listed_nodup
  underway p hp := by
    obtain ⟨hnumber, hunfinished, htargets, given, hsplit, hnone, haccepted⟩ := h.underway p hp
    refine ⟨hnumber, hunfinished, ?_, given, hsplit, hnone, fun j => ?_⟩
    · rw [reading_put s i hevolves.name_eq]
      exact htargets
    · rw [accepted_put s i j hevolves.accepted_eq]
      exact haccepted j
  finished f hf := by
    obtain ⟨hnumber, htarget, haccepted⟩ := h.finished f hf
    refine ⟨hnumber, htarget, fun j => ?_⟩
    rw [accepted_put s i j hevolves.accepted_eq]
    exact haccepted j

/-- Who is there and who is on its way out matters to no account. -/
theorem Sound.frame (h : Sound cap s) (live : Bool) (subscriber leaving closing : ℕ → Bool) :
    Sound cap { s with
      live := live, subscriber := subscriber, leaving := leaving, closing := closing } where
  no_fault := h.no_fault
  kept := h.kept
  counted := h.counted
  accepted_lt := h.accepted_lt
  listed_lt := h.listed_lt
  listed_nodup := h.listed_nodup
  underway p hp :=
    have hunderway := h.underway p hp
    ⟨hunderway.number_lt, hunderway.unfinished, hunderway.targets_eq, hunderway.given⟩
  finished f hf :=
    have hfinished := h.finished f hf
    ⟨hfinished.number_lt, hfinished.target_lt, hfinished.accepted_iff⟩

/-- Subscriptions leave the bus's list only while no publish is under way. -/
theorem Sound.relist (h : Sound cap s) (hfree : s.publishing = none) {listed : List ℕ}
    (hlisted : listed.Sublist s.subscriptions) :
    Sound cap { s with subscriptions := listed } where
  no_fault := h.no_fault
  kept := h.kept
  counted := h.counted
  accepted_lt := h.accepted_lt
  listed_lt i hi := h.listed_lt i (hlisted.subset hi)
  listed_nodup := h.listed_nodup.sublist hlisted
  underway p hp := by
    rw [hfree] at hp
    cases hp
  finished f hf :=
    have hfinished := h.finished f hf
    ⟨hfinished.number_lt, hfinished.target_lt, hfinished.accepted_iff⟩

theorem reserved_of_free (hfree : s.publishing = none) (i : ℕ) : s.reserved i = 0 := by
  rw [State.reserved, hfree]
  rfl

theorem reserved_of_publishing (hp : s.publishing = some p) (i : ℕ) :
    s.reserved i = p.reserved i := by
  rw [State.reserved, hp]
  rfl

section

variable (h : Sound cap s)
include h

theorem Sound.subscribe (hfree : s.publishing = none) (name : String) :
    Sound cap { s.put s.opened (.new name) with
      subscriptions := s.subscriptions ++ [s.opened]
      subscriber := update s.subscriber s.opened true
      opened := s.opened + 1 } where
  no_fault := h.no_fault
  kept i := by
    change Account.Kept cap
      ((update s.cells s.opened (.new name) i).account (s.reserved i))
    by_cases hi : i = s.opened
    · subst hi
      rw [update_self, reserved_of_free hfree]
      exact Account.kept_empty cap
    · rw [update_of_ne hi]
      exact h.kept i
  counted i := by
    by_cases hi : i = s.opened
    · subst hi
      simp only [State.put, update_self]
      rfl
    · simp only [State.put, update_of_ne hi]
      exact h.counted i
  accepted_lt i n hn := by
    by_cases hi : i = s.opened
    · subst hi
      simp only [State.put, update_self] at hn
      exact absurd hn not_mem_nil
    · simp only [State.put, update_of_ne hi] at hn
      exact h.accepted_lt i n hn
  listed_lt i hi := by
    rcases mem_append.mp hi with hi | hi
    · exact Nat.lt_succ_of_lt (h.listed_lt i hi)
    · rw [mem_singleton.mp hi]
      exact Nat.lt_succ_self s.opened
  listed_nodup := by
    refine nodup_append.mpr ⟨h.listed_nodup, nodup_singleton _, ?_⟩
    intro i hi j hj heq
    rw [mem_singleton.mp hj] at heq
    exact absurd (h.listed_lt i hi) (heq ▸ lt_irrefl s.opened)
  underway p hp := by
    rw [show s.publishing = some p from hp] at hfree
    cases hfree
  finished f hf := by
    obtain ⟨hnumber, htarget, haccepted⟩ := h.finished f hf
    refine ⟨hnumber, fun i hi => Nat.lt_succ_of_lt (htarget i hi), fun i => ?_⟩
    by_cases hi : i = s.opened
    · -- nobody published to a subscription that was not there
      subst hi
      simp only [State.put, update_self]
      refine ⟨fun hn => absurd hn not_mem_nil, fun hn => ?_⟩
      exact absurd (htarget s.opened hn.2) (lt_irrefl s.opened)
    · simp only [State.put, update_of_ne hi]
      exact haccepted i

/-- A number not given out yet was accepted nowhere. -/
theorem Sound.not_accepted (i : ℕ) : s.published ∉ (s.cells i).accepted :=
  fun hmem => lt_irrefl _ (h.accepted_lt i s.published hmem)

/-- A publish begins, with nobody asked yet. -/
theorem Sound.publish (hfree : s.publishing = none) (name : String)
    (delivery : LocalDelivery .alloc) :
    Sound cap { s with
      publishing := some ⟨s.published, name, delivery, s.reading name, s.reading name, []⟩
      published := s.published + 1 } where
  no_fault := h.no_fault
  kept i := by
    have hkept := h.kept i
    rw [reserved_of_free hfree] at hkept
    exact hkept
  counted := h.counted
  accepted_lt i n hn := Nat.lt_succ_of_lt (h.accepted_lt i n hn)
  listed_lt := h.listed_lt
  listed_nodup := h.listed_nodup
  underway p hp := by
    cases hp
    refine ⟨Nat.lt_succ_self _, fun f hf => (h.finished f hf).number_lt.ne, rfl, [], rfl,
      Or.inr rfl, fun i => ?_⟩
    exact ⟨fun hmem => absurd hmem (h.not_accepted i), fun hmem => absurd hmem not_mem_nil⟩
  finished f hf :=
    have hfinished := h.finished f hf
    ⟨Nat.lt_succ_of_lt hfinished.number_lt, hfinished.target_lt, hfinished.accepted_iff⟩

/-- A publish ends. -/
theorem Sound.finish (hp : s.publishing = some p) {taken : Bool}
    (haccepted : ∀ i, p.number ∈ (s.cells i).accepted ↔ taken = true ∧ i ∈ p.targets) :
    Sound cap (s.finish p taken) where
  no_fault := h.no_fault
  kept i := (h.kept i).move .unreserve
  counted := h.counted
  accepted_lt := h.accepted_lt
  listed_lt := h.listed_lt
  listed_nodup := h.listed_nodup
  underway _ hp := by cases hp
  finished f hf := by
    obtain ⟨hnumber, -, htargets, -⟩ := h.underway p hp
    rcases mem_append.mp hf with hf | hf
    · obtain ⟨hnumber, htarget, haccepted⟩ := h.finished f hf
      exact ⟨hnumber, htarget, haccepted⟩
    · rw [mem_singleton.mp hf]
      refine ⟨hnumber, fun i hi => ?_, haccepted⟩
      dsimp only at hi
      rw [htargets] at hi
      exact h.listed_lt i (mem_of_mem_filter hi)

/-- A bus that is down takes a publish nowhere: it ends as it begins. -/
theorem Sound.refuse (hfree : s.publishing = none) (name : String)
    (delivery : LocalDelivery .alloc) :
    Sound cap { s.finish ⟨s.published, name, delivery, s.reading name, s.reading name, []⟩ false
      with published := s.published + 1 } := by
  refine (h.publish hfree name delivery).finish rfl fun i => ?_
  exact ⟨fun hmem => absurd hmem (h.not_accepted i), fun htaken => by cases htaken.1⟩

theorem Sound.targets_nodup (hp : s.publishing = some p) : p.targets.Nodup := by
  rw [(h.underway p hp).targets_eq]
  exact h.listed_nodup.filter _

/-- A subscription has room for the publish, and keeps it. -/
theorem Sound.check (hp : s.publishing = some p) {unchecked : List ℕ}
    (hunchecked : p.unchecked = i :: unchecked)
    (hroom : (s.cells i).cell.hasRoom cap = true) :
    Sound cap { s with
      publishing := some { p with unchecked := unchecked, pending := p.pending ++ [i] } } := by
  obtain ⟨hnumber, hunfinished, htargets, given, hsplit, hnone, haccepted⟩ := h.underway p hp
  rw [hunchecked] at hsplit hnone
  have hnodup := h.targets_nodup hp
  rw [hsplit] at hnodup
  have hnew : i ∉ p.pending := by
    have hrest := (nodup_append.mp hnodup).2.1
    exact fun hi => (nodup_append.mp hrest).2.2 i hi i mem_cons_self rfl
  refine ⟨h.no_fault, fun j => ?_, h.counted, h.accepted_lt, h.listed_lt, h.listed_nodup, ?_, ?_⟩
  · have hkept := h.kept j
    rw [reserved_of_publishing hp] at hkept
    rw [reserved_of_publishing (p := { p with
      unchecked := unchecked, pending := p.pending ++ [i] }) rfl]
    by_cases hj : j = i
    · subst hj
      have hbefore : p.reserved j = 0 := if_neg hnew
      have hafter : Publishing.reserved { p with
          unchecked := unchecked, pending := p.pending ++ [j] } j = 1 :=
        if_pos (mem_append_right _ (mem_singleton_self j))
      rw [hbefore] at hkept
      rw [hafter]
      refine hkept.move (.reserve rfl ?_)
      have hcounted := h.counted j
      simp only [Subscription.hasRoom, decide_eq_true_eq] at hroom
      simp only [Opened.account, Account.held, length_map]
      unfold Opened.Counted at hcounted
      omega
    · have hsame : Publishing.reserved { p with
          unchecked := unchecked, pending := p.pending ++ [i] } j = p.reserved j := by
        simp only [Publishing.reserved, mem_append, mem_singleton, hj, or_false]
      rw [hsame]
      exact hkept
  · intro p' hp'
    cases hp'
    refine ⟨hnumber, hunfinished, htargets, given, ?_, Or.inr ?_, haccepted⟩
    · rw [hsplit, append_assoc, singleton_append]
    · exact hnone.resolve_left (cons_ne_nil _ _)
  · intro f hf
    obtain ⟨hnumber, htarget, haccepted⟩ := h.finished f hf
    exact ⟨hnumber, htarget, haccepted⟩

/-- A subscription that kept room for the publish receives its copy. -/
theorem Sound.enqueue (hp : s.publishing = some p) {pending : List ℕ}
    (hunchecked : p.unchecked = []) (hpending : p.pending = i :: pending) :
    ∃ cell, (s.cells i).cell.enqueue cap ⟨p.number, p.delivery⟩ = some cell ∧
      Sound cap { s.put i { s.cells i with
          cell := cell, accepted := (s.cells i).accepted ++ [p.number] } with
        publishing := some { p with pending := pending } } := by
  obtain ⟨hnumber, hunfinished, htargets, given, hsplit, -, haccepted⟩ := h.underway p hp
  rw [hunchecked, hpending, append_nil] at hsplit
  have hnodup := h.targets_nodup hp
  rw [hsplit] at hnodup
  have hfresh : i ∉ given := fun hi =>
    (nodup_append.mp hnodup).2.2 i hi i mem_cons_self rfl
  have hlater : i ∉ pending := (nodup_cons.mp (nodup_append.mp hnodup).2.1).1
  have hreserved : s.reserved i = 1 := by
    rw [reserved_of_publishing hp]
    exact if_pos (hpending ▸ mem_cons_self)
  have hkept := h.kept i
  rw [hreserved] at hkept
  have hroom := hkept.room_to_fill rfl
  rw [Opened.account, length_map] at hroom
  have hreading : ∀ name, (s.put i { s.cells i with
      cell := { (s.cells i).cell with
        queue := (s.cells i).cell.queue ++ [⟨p.number, p.delivery⟩] }
      accepted := (s.cells i).accepted ++ [p.number] }).reading name = s.reading name :=
    reading_put s i rfl
  refine ⟨_, if_pos hroom, h.no_fault, fun j => ?_, fun j => ?_, fun j n hn => ?_, h.listed_lt,
    h.listed_nodup, fun p' hp' => ?_, fun f hf => ?_⟩
  · rw [reserved_of_publishing (p := { p with pending := pending }) rfl]
    by_cases hj : j = i
    · subst hj
      have hafter : Publishing.reserved { p with pending := pending } j = 0 := if_neg hlater
      rw [hafter]
      simp only [State.put, update_self]
      have hmove := hkept.move (.fill p.number rfl (fun hn => hfresh ((haccepted j).mp hn)))
      have hqueue : ((s.cells j).cell.queue ++ [(⟨p.number, p.delivery⟩ : Copy)]).map Numbered.publish
          = ((s.cells j).account 1).waiting ++ [p.number] := by
        rw [map_append]
        rfl
      dsimp only [Opened.account]
      rw [hqueue]
      exact hmove
    · have hsame : Publishing.reserved { p with pending := pending } j = p.reserved j := by
        simp only [Publishing.reserved, hpending, mem_cons, hj, false_or]
      rw [hsame, ← reserved_of_publishing hp]
      simp only [State.put, update_of_ne hj]
      exact h.kept j
  · by_cases hj : j = i
    · subst hj
      simp only [State.put, update_self]
      exact h.counted j
    · simp only [State.put, update_of_ne hj]
      exact h.counted j
  · by_cases hj : j = i
    · subst hj
      simp only [State.put, update_self] at hn
      rcases mem_append.mp hn with hn | hn
      · exact h.accepted_lt j n hn
      · rw [mem_singleton.mp hn]
        exact hnumber
    · simp only [State.put, update_of_ne hj] at hn
      exact h.accepted_lt j n hn
  · cases hp'
    refine ⟨hnumber, hunfinished, htargets.trans (hreading p.name).symm, given ++ [i], ?_,
      Or.inl hunchecked, fun j => ?_⟩
    · rw [hsplit, hunchecked, append_nil, append_assoc, singleton_append]
    · by_cases hj : j = i
      · subst hj
        simp only [State.put, update_self]
        exact iff_of_true (mem_append_right _ (mem_singleton_self _))
          (mem_append_right _ (mem_singleton_self _))
      · simp only [State.put, update_of_ne hj, mem_append, mem_singleton, hj,
          or_false]
        exact haccepted j
  · obtain ⟨hfnumber, htarget, hfaccepted⟩ := h.finished f hf
    refine ⟨hfnumber, htarget, fun j => ?_⟩
    by_cases hj : j = i
    · subst hj
      simp only [State.put, update_self, mem_append, mem_singleton,
        hunfinished f hf, or_false]
      exact hfaccepted j
    · simp only [State.put, update_of_ne hj]
      exact hfaccepted j

/-- Every section keeps the invariant. -/
theorem step_sound {e : Event} (hstep : step cap s e = some s') : Sound cap s' := by
  cases e with
  | connect =>
    rw [step] at hstep
    split_ifs at hstep
    cases hstep
    exact h.frame true _ _ _
  | subscribe name =>
    rw [step] at hstep
    split_ifs at hstep with hbusy hlive
    · cases hstep
      exact h.subscribe (Option.not_isSome_iff_eq_none.mp hbusy) name
    · cases hstep
      exact h
  | unlist i =>
    rw [step] at hstep
    split_ifs at hstep with hbusy
    cases hstep
    have hfree := Option.not_isSome_iff_eq_none.mp (not_or.mp hbusy).1
    exact (h.relist hfree filter_sublist).frame _ _ _ _
  | unsubscribe i =>
    rw [step] at hstep
    split_ifs at hstep
    cases hstep
    exact (h.put (evolves_unsubscribe _)).frame _ _ _ _
  | shutDown =>
    rw [step] at hstep
    split_ifs at hstep with hbusy
    cases hstep
    have hfree := Option.not_isSome_iff_eq_none.mp hbusy
    exact (h.relist hfree (nil_sublist _)).frame _ _ _ _
  | close i =>
    rw [step] at hstep
    split_ifs at hstep
    cases hstep
    exact (h.put (evolves_shutDown _)).frame _ _ _ _
  | publish name delivery =>
    rw [step] at hstep
    dsimp only at hstep
    split_ifs at hstep with hbusy hlive
    · cases hstep
      exact h.publish (Option.not_isSome_iff_eq_none.mp hbusy) name delivery
    · cases hstep
      exact h.refuse (Option.not_isSome_iff_eq_none.mp hbusy) name delivery
  | check =>
    rw [step] at hstep
    cases hp : s.publishing with
    | none =>
      rw [hp] at hstep
      cases hstep
    | some p =>
      rw [hp] at hstep
      dsimp only at hstep
      cases hunchecked : p.unchecked with
      | nil =>
        rw [hunchecked] at hstep
        cases hstep
      | cons i unchecked =>
        rw [hunchecked] at hstep
        dsimp only at hstep
        split_ifs at hstep with hroom
        · cases hstep
          exact h.check hp hunchecked hroom
        · -- nobody received a copy before all were asked
          cases hstep
          obtain ⟨-, -, -, given, -, hnone, haccepted⟩ := h.underway p hp
          rw [hunchecked] at hnone
          have hgiven := hnone.resolve_left (cons_ne_nil _ _)
          refine h.finish hp fun j => ?_
          rw [haccepted j, hgiven]
          simp
  | enqueue =>
    rw [step] at hstep
    cases hp : s.publishing with
    | none =>
      rw [hp] at hstep
      cases hstep
    | some p =>
      rw [hp] at hstep
      dsimp only at hstep
      split at hstep
      · rename_i i pending hunchecked hpending
        obtain ⟨cell, hcell, hsound⟩ := h.enqueue hp hunchecked hpending
        rw [hcell] at hstep
        cases hstep
        exact hsound
      · cases hstep
  | finish =>
    rw [step] at hstep
    cases hp : s.publishing with
    | none =>
      rw [hp] at hstep
      cases hstep
    | some p =>
      rw [hp] at hstep
      dsimp only at hstep
      split_ifs at hstep with hdone
      cases hstep
      obtain ⟨-, -, -, given, hsplit, -, haccepted⟩ := h.underway p hp
      rw [hdone.1, hdone.2, append_nil, append_nil] at hsplit
      refine h.finish hp fun j => ?_
      rw [haccepted j, hsplit]
      simp
  | pollNext i =>
    rw [step] at hstep
    split_ifs at hstep
    cases hstep
    exact h.put (evolves_pollNext _)
  | tryNext i =>
    rw [step] at hstep
    split_ifs at hstep
    cases hstep
    exact h.put (evolves_tryNext _)
  | settle i k =>
    rw [step] at hstep
    obtain ⟨o', ho', rfl⟩ := Option.map_eq_some_iff.mp hstep
    exact h.put (evolves_settle ho')
  | requeue i k =>
    rw [step] at hstep
    cases hcopy : (s.cells i).hands[k]? with
    | none =>
      rw [hcopy] at hstep
      cases hstep
    | some copy =>
      obtain ⟨o', ho', hevolves, -⟩ := exists_requeue hcopy (h.kept i)
      rw [hcopy] at hstep
      dsimp only at hstep
      rw [ho'] at hstep
      cases hstep
      exact h.put hevolves
  | release i =>
    rw [step] at hstep
    split_ifs at hstep with hsettling
    obtain ⟨cell, hcell, hevolves⟩ := exists_release (h.counted i) hsettling
    rw [hcell] at hstep
    rw [← Option.some.inj hstep]
    exact h.put hevolves

theorem Sound.exec {es : List Event} (hexec : Run.exec (step cap) s es = some s') : Sound cap s' :=
  Run.exec_always (fun _ _ _ h hstep => step_sound h hstep) h hexec

end

end Invariant

end RustStream.Heap
