import RustStream.Dispatch.Settle

/-!
# What a settlement comes to

Whatever the outcome, the declaration, the transport and the copy path, a settlement comes to one of
two things: one settle call of the broker's own, or the original dropped and one copy sent in its
place. `Disposition` is that choice, `disposition` says which one a delivery gets, and
`settleBy_realises` is the refinement: the functions of the source, followed through their early
returns, do what the disposition says and nothing else.

## What a disposition promises

A broker call is made once, and no copy, record or reservation is left behind. A copy is sent only
behind a drop that was accepted: then exactly one leaves, it is bound for the target and carries the
count advanced. Where the drop failed the delivery stays with the broker, no copy leaves, and the
record or reservation taken for it is given back.

## Main definitions

* `Disposition`, `disposition`: the choice.
* `Realises`: what a disposition promises about the world.
* `Carries`: what a copy that left is.

## Main results

* `settleBy_realises`, `settleReacting_realises`: the settlement realises its disposition.
-/

namespace RustStream

variable {b : Build} {Options : Type}

/-! ## Dispositions -/

/-- The original is gone: the drop was accepted, or the transport has nothing to drop. -/
def Dropped (answer : Answer) : Prop :=
  answer = .ok () ∨ answer = .error .unsupported

/-- What a settlement comes to. -/
inductive Disposition (Options : Type) (b : Build) where
  | broker (call : SettleCall)
  | copy (path : CopyPath Options b) (target : Target) (delay : Option Duration)

/-- Whether a copy can be made at all: a delayed one needs room in the runner, a kept one needs its
count to fit the headers. -/
def CopyPath.HasRoom (delivery : Delivery) (host : Host b Options) (msg : Message b)
    (delay : Option Duration) : CopyPath Options b → Prop
  | .published _ => ¬((nonzero delay).isSome ∧ delivery.coordinator = none ∧ host.reserve = false)
  | .kept _ => CountFits msg.headers

instance CopyPath.decidableHasRoom : {b : Build} → (delivery : Delivery) →
    (host : Host b Options) → (msg : Message b) → (delay : Option Duration) →
    (path : CopyPath Options b) → Decidable (path.HasRoom delivery host msg delay)
  | _, _, _, _, _, .published _ => inferInstanceAs (Decidable ¬(_ ∧ _ ∧ _))
  | _, _, _, msg, _, .kept _ => inferInstanceAs (Decidable (CountFits msg.headers))

/-- A copy where it can be made, the broker's requeue where it cannot. -/
def copyOrRequeue (delivery : Delivery) (host : Host b Options) (msg : Message b)
    (path : CopyPath Options b) (target : Target) (delay : Option Duration) :
    Disposition Options b :=
  if path.HasRoom delivery host msg delay then .copy path target delay else .broker (.nack true)

/-- The next stop of a delivery whose copies the runtime sends. -/
def nextStop (delivery : Delivery) (host : Host b Options) (msg : Message b)
    (path : CopyPath Options b) (delay : Option Duration) : Disposition Options b :=
  match redeliveryOf msg delivery.declaration with
  | .subscription => copyOrRequeue delivery host msg path .subscription delay
  | .deadLetter destination _ =>
    copyOrRequeue delivery host msg path (.deadLetter destination) none
  | .reject => .broker (.nack false)

/-- What the settlement of a delivery comes to. -/
def disposition (outcome : HandlerResult) (delivery : Delivery)
    (host : Host b Options) (msg : Message b) : Disposition Options b :=
  match outcome, copyPath host with
  | .ack, _ => .broker .ack
  | .nack false, _ => .broker (.nack false)
  | .nack true, none => .broker (.nack true)
  | .nack true, some path =>
    if delivery.declaration.declaresNothing then .broker (.nack true)
    else if redeliveryOf msg delivery.declaration = .subscription ∧ msg.redeliveryCount.isSome then
      .broker (.nack true)
    else nextStop delivery host msg path none
  | .nackAfter delay, none =>
    if msg.supportsNackAfter then .broker (.nackAfter delay) else .broker (.nack true)
  | .nackAfter delay, some path =>
    if msg.supportsNackAfter then
      -- the transport holds the delivery back itself, unless its attempts are spent
      if delivery.declaration.maxAttempts.isSome ∧
          redeliveryOf msg delivery.declaration ≠ .subscription then
        nextStop delivery host msg path (some delay)
      else .broker (.nackAfter delay)
    else nextStop delivery host msg path (some delay)

/-! ## What a disposition promises -/

/-- The transforms of a kept copy leave its retry count alone. -/
def CopyPath.KeepsCount : CopyPath Options b → Prop
  | .published _ => True
  | .kept path => ∀ msg copy,
    (path.prepare msg copy).headers.get retryCountHeader = copy.headers.get retryCountHeader

/-- Every copy of the delivery along the path is accepted: the publisher takes it, and where it is
kept a record is free and its bytes fit. -/
def CopyPath.Accepts (msg : Message b) (held : List Held) (target : Target) :
    CopyPath Options b → Prop
  | .published route => ∀ delivered copy, route.publishCopy delivered copy = .ok ()
  | .kept path => (∀ copy, path.publishCopy copy = .ok ()) ∧ .free ∈ held ∧
    payloadFits b msg.payload = true ∧
    ∀ destination, target = .deadLetter destination → destinationFits b destination = true

/-- What a copy that left is: bound for its target, counted one further than the delivery it was
made from, waiting no longer than it was told to, and not failed where every copy is accepted. -/
structure Carries (path : CopyPath Options b) (target : Target) (delay : Option Duration)
    (msg : Message b) (held : List Held) (departure : Departure b Options) : Prop where
  target_eq : departure.target = target
  count_eq : path.KeepsCount →
    currentRetryCount departure.copy.headers = currentRetryCount msg.headers + 1
  timed : ∀ wait timer, departure.fate = .scheduled wait timer → nonzero delay = some wait
  addressed : ∀ destination, target = .deadLetter destination →
    departure.copy.destination = destination ∨ ∃ cause, departure.fate = .failed cause
  accepted : path.Accepts msg held target → ∀ cause, departure.fate ≠ .failed cause

/-- Nothing left, and every record and reservation is where it was. -/
structure NoCopy (w w' : World b Options) : Prop where
  departures_eq : w'.departures = w.departures
  held_eq : w'.store.held = w.store.held
  reserved_eq : w'.reserved = w.reserved

/-- What a disposition promises about the answer and the world of a settlement. -/
def Realises (msg : Message b) (w : World b Options) :
    Disposition Options b → Answer × World b Options → Prop
  | .broker call, (answer, w') =>
    answer = msg.answer call ∧ w'.calls = w.calls ++ [(call, answer)] ∧ NoCopy w w'
  | .copy path target delay, (answer, w') =>
    w'.calls = w.calls ++ [(.nack false, msg.answer (.nack false))] ∧
    ((Dropped (msg.answer (.nack false)) ∧ answer = .ok () ∧
        w'.reserved = w.reserved ∧
        ∃ departure, w'.departures = w.departures ++ [departure] ∧
          Carries path target delay msg w.store.held departure) ∨
      (¬Dropped (msg.answer (.nack false)) ∧ answer = msg.answer (.nack false) ∧ NoCopy w w'))

/-! ## Frames -/

/-- Two worlds that agree on the calls, the copies, the records and the reservations. -/
structure Quiet (w w' : World b Options) : Prop extends NoCopy w w' where
  calls_eq : w'.calls = w.calls

variable (w : World b Options)

theorem NoCopy.refl : NoCopy w w :=
  ⟨rfl, rfl, rfl⟩

theorem NoCopy.trans {w w' w'' : World b Options} (h : NoCopy w w') (h' : NoCopy w' w'') :
    NoCopy w w'' :=
  ⟨h'.departures_eq.trans h.departures_eq, h'.held_eq.trans h.held_eq,
    h'.reserved_eq.trans h.reserved_eq⟩

theorem Quiet.refl : Quiet w w :=
  ⟨NoCopy.refl w, rfl⟩

theorem Quiet.trans {w w' w'' : World b Options} (h : Quiet w w') (h' : Quiet w' w'') :
    Quiet w w'' :=
  ⟨h.toNoCopy.trans h'.toNoCopy, h'.calls_eq.trans h.calls_eq⟩

theorem quiet_warn (warning : Warning) : Quiet w (w.warn warning) :=
  ⟨⟨rfl, rfl, rfl⟩, rfl⟩

theorem quiet_ite_warn (p : Prop) [Decidable p] (warning : Warning) :
    Quiet w (if p then w.warn warning else w) := by
  by_cases h : p
  · rw [if_pos h]
    exact quiet_warn w warning
  · rw [if_neg h]
    exact Quiet.refl w

theorem quiet_report (index : ℕ) (sent : Sent) : Quiet w (w.report index sent) := by
  unfold World.report
  split_ifs
  · exact ⟨⟨rfl, rfl, rfl⟩, rfl⟩
  · exact Quiet.refl w

theorem quiet_follow (destination : String) (aftermath : Aftermath) :
    Quiet w (w.follow destination aftermath) := by
  cases aftermath with
  | follow work => exact ⟨⟨rfl, rfl, rfl⟩, rfl⟩
  | report index sent => exact quiet_report w index sent
  | lost cause => exact quiet_warn w _

variable {msg : Message b}

/-- A quiet start changes nothing a disposition promises. -/
theorem Realises.of_quiet {w w' : World b Options}
    {d : Disposition Options b} {r : Answer × World b Options} (hquiet : Quiet w w')
    (h : Realises msg w' d r) : Realises msg w d r := by
  obtain ⟨hnone, hcalls⟩ := hquiet
  cases d with
  | broker call =>
    obtain ⟨hanswer, hcall, hno⟩ := h
    exact ⟨hanswer, by rw [hcall, hcalls], hnone.trans hno⟩
  | copy path target delay =>
    obtain ⟨hcall, hcopy⟩ := h
    refine ⟨by rw [hcall, hcalls], ?_⟩
    rcases hcopy with ⟨hdrop, hanswer, hreserved, departure, hdep, hcarries⟩ | ⟨hdrop, hanswer, hno⟩
    · refine Or.inl ⟨hdrop, hanswer, hreserved.trans hnone.reserved_eq, departure, ?_, ?_⟩
      · rw [hdep, hnone.departures_eq]
      · rwa [hnone.held_eq] at hcarries
    · exact Or.inr ⟨hdrop, hanswer, hnone.trans hno⟩

/-- Work after the settlement that is quiet changes nothing either. -/
theorem Realises.then_quiet {w w' w'' : World b Options} {answer : Answer}
    {d : Disposition Options b} (h : Realises msg w d (answer, w')) (hquiet : Quiet w' w'') :
    Realises msg w d (answer, w'') := by
  obtain ⟨hnone, hcalls⟩ := hquiet
  cases d with
  | broker call =>
    obtain ⟨hanswer, hcall, hno⟩ := h
    exact ⟨hanswer, by rw [hcalls, hcall], hno.trans hnone⟩
  | copy path target delay =>
    obtain ⟨hcall, hcopy⟩ := h
    refine ⟨by rw [hcalls, hcall], ?_⟩
    rcases hcopy with ⟨hdrop, hanswer, hreserved, departure, hdep, hcarries⟩ | ⟨hdrop, hanswer, hno⟩
    · refine Or.inl ⟨hdrop, hanswer, hnone.reserved_eq.trans hreserved, departure, ?_, hcarries⟩
      rw [hnone.departures_eq, hdep]
    · exact Or.inr ⟨hdrop, hanswer, hno.trans hnone⟩

theorem settle_realises (msg : Message b) (w : World b Options) (call : SettleCall) :
    Realises msg w (.broker call) (w.settle msg call) :=
  ⟨rfl, rfl, ⟨rfl, rfl, rfl⟩⟩

/-! ## Copies -/

theorem dropOriginal_of_dropped (h : Dropped (msg.answer (.nack false))) :
    dropOriginal msg w = (.ok (), (w.settle msg (.nack false)).2) := by
  rcases h with h | h <;> simp [dropOriginal, World.settle, h]

theorem dropOriginal_of_not_dropped (h : ¬Dropped (msg.answer (.nack false))) :
    ∃ err, msg.answer (.nack false) = .error err ∧
      dropOriginal msg w = (.error err, (w.settle msg (.nack false)).2) := by
  cases hanswer : msg.answer (.nack false) with
  | ok u => exact absurd (Or.inl hanswer) h
  | error err =>
    refine ⟨err, rfl, ?_⟩
    have hne : err ≠ .unsupported := by
      rintro rfl
      exact h (Or.inr hanswer)
    cases err with
    | unsupported => exact absurd rfl hne
    | broker error => simp [dropOriginal, World.settle, hanswer]
    | timeout => simp [dropOriginal, World.settle, hanswer]

theorem quiet_afterPublish (target : Target) (copy : Copy b Options)
    (sent : Sent) (reaction : Option (Reaction b)) :
    Quiet (w.depart ⟨target, copy, .ofSent sent⟩) (w.afterPublish target copy sent reaction) :=
  quiet_follow _ _ _

theorem ofSent_ne_scheduled (sent : Sent) (wait : Duration) (timer : Timer) :
    Fate.ofSent sent ≠ .scheduled wait timer := by
  cases sent <;> simp [Fate.ofSent]

theorem ofSent_ne_failed {sent : Sent} (h : sent = .ok ()) (cause : PublishError) :
    Fate.ofSent sent ≠ .failed cause := by
  subst h
  simp [Fate.ofSent]

/-- On the heap the count is always written. -/
theorem counted_alloc (headers : Headers .alloc) : counted headers = some
      (HeaderMap.insert headers retryCountHeader (countText (currentRetryCount headers + 1))) := by
  rw [counted_eq]
  rfl

/-- A copy behind an accepted drop. -/
theorem realises_of_dropped {path : CopyPath Options b} {target : Target}
    {delay : Option Duration} {w w' : World b Options}
    {d : Departure b Options} (hdrop : Dropped (msg.answer (.nack false)))
    (hcalls : w'.calls = w.calls ++ [(.nack false, msg.answer (.nack false))])
    (hreserved : w'.reserved = w.reserved) (hdep : w'.departures = w.departures ++ [d])
    (hcarries : Carries path target delay msg w.store.held d) :
    Realises msg w (.copy path target delay) (.ok (), w') :=
  ⟨hcalls, Or.inl ⟨hdrop, rfl, hreserved, d, hdep, hcarries⟩⟩

/-- No copy behind a drop that failed. -/
theorem realises_of_not_dropped {path : CopyPath Options b} {target : Target}
    {delay : Option Duration} {w w' : World b Options} {err : AckError}
    (hdrop : ¬Dropped (msg.answer (.nack false))) (hanswer : msg.answer (.nack false) = .error err)
    (hcalls : w'.calls = w.calls ++ [(.nack false, msg.answer (.nack false))])
    (hno : NoCopy w w') : Realises msg w (.copy path target delay) (.error err, w') :=
  ⟨hcalls, Or.inr ⟨hdrop, hanswer.symm, hno⟩⟩

/-! ### Through the retry publisher -/

theorem noCopy_hold_settle_letGo (msg : Message b) (call : SettleCall)
    (reserved : Bool) : NoCopy w (((w.hold reserved).settle msg call).2.letGo reserved) := by
  cases reserved with
  | false => exact ⟨rfl, rfl, rfl⟩
  | true => exact ⟨rfl, rfl, rfl⟩

theorem calls_hold_settle (msg : Message b) (call : SettleCall) (reserved : Bool) :
    ((w.hold reserved).settle msg call).2.calls = w.calls ++ [(call, msg.answer call)] := by
  cases reserved <;> rfl

theorem calls_letGo (reserved : Bool) : (w.letGo reserved).calls = w.calls := by
  cases reserved <;> rfl

theorem departures_hold_settle (msg : Message b) (call : SettleCall)
    (reserved : Bool) : ((w.hold reserved).settle msg call).2.departures = w.departures := by
  cases reserved <;> rfl

section Published

variable {target : Target} {copy : Copy .alloc Options} {delay : Option Duration} {reserved : Bool}
  {route : RetryRoute Options} {delivery : Delivery} {msg : Message .alloc}

/-- Once the original is dropped the copy leaves, now or with its timer, and holds no reservation
of the settlement any more. -/
theorem republish_departs (w : World .alloc Options) (hreserved : reserved = true → delay.isSome) :
    ∃ fate, (republish target copy delay reserved route delivery msg w).calls = w.calls ∧
      (republish target copy delay reserved route delivery msg w).departures
        = w.departures ++ [⟨target, copy, fate⟩] ∧
      (republish target copy delay reserved route delivery msg w).reserved
        = (w.letGo reserved).reserved ∧
      (∀ wait timer, fate = .scheduled wait timer → delay = some wait) ∧
      ((∀ delivered copy, route.publishCopy delivered copy = .ok ()) →
        ∀ cause, fate ≠ .failed cause) := by
  cases delay with
  | none =>
    have hquiet := quiet_afterPublish w.takeReaction.2 target copy
      (route.publishCopy msg.headers copy) w.takeReaction.1
    have hr : reserved = false := by
      cases reserved with
      | false => rfl
      | true => exact absurd (hreserved rfl) (by simp)
    subst hr
    refine ⟨.ofSent (route.publishCopy msg.headers copy), hquiet.calls_eq, hquiet.departures_eq,
      hquiet.reserved_eq, ?_, ?_⟩
    · intro wait timer h
      exact absurd h (ofSent_ne_scheduled _ _ _)
    · intro haccept cause
      exact ofSent_ne_failed (haccept _ _) cause
  | some wait =>
    refine ⟨.scheduled wait (timerOf delivery), ?_, ?_, ?_, ?_, ?_⟩
    · cases reserved <;> rfl
    · cases reserved <;> rfl
    · cases reserved <;> rfl
    · rintro wait' timer ⟨⟩
      rfl
    · rintro - cause ⟨⟩

theorem publishCopy_realises (destination : Option String) (host : Host .alloc Options)
    (w : World .alloc Options) (hdest : ∀ d, target = .deadLetter d → destination = some d) :
    Realises msg w (copyOrRequeue delivery host msg (.published route) target delay)
      (publishCopy target destination delay route delivery host msg w) := by
  have hroom : (CopyPath.published route).HasRoom delivery host msg delay ↔
      ¬(((nonzero delay).isSome && !harnessSchedules delivery) && !host.reserve) = true := by
    simp [CopyPath.HasRoom, harnessSchedules, and_assoc]
  unfold copyOrRequeue publishCopy
  generalize hres : ((nonzero delay).isSome && !harnessSchedules delivery) = reserved at hroom
  by_cases hfull : (reserved && !host.reserve) = true
  · -- no room in the runner: the delivery is requeued
    rw [if_neg (fun h => hroom.mp h hfull)]
    simp only [hres, hfull, if_true]
    exact (settle_realises msg _ _).of_quiet (quiet_warn w _)
  rw [if_pos (hroom.mpr hfull)]
  simp only [hres, hfull, Bool.false_eq_true, if_false]
  have hcalls := calls_hold_settle w msg (.nack false) reserved
  have hno := noCopy_hold_settle_letGo w msg (.nack false) reserved
  by_cases hdrop : Dropped (msg.answer (.nack false))
  · have hdelay : reserved = true → (nonzero delay).isSome := by
      rintro rfl
      exact (Bool.and_eq_true_iff.mp hres).1
    rw [dropOriginal_of_dropped _ hdrop]
    simp only
    generalize hcopy : (⟨destination.getD route.subscription, msg.payload,
      HeaderMap.insert msg.headers retryCountHeader
        (countText (currentRetryCount msg.headers + 1)), none⟩ : Copy .alloc Options) = copy
    obtain ⟨fate, hc, hd, hr, htimed, haccept⟩ :=
      republish_departs ((w.hold reserved).settle msg (.nack false)).2 hdelay
    refine realises_of_dropped hdrop (hc.trans hcalls) (hr.trans hno.reserved_eq)
      (d := ⟨target, copy, fate⟩) ?_ ?_
    · rw [hd, departures_hold_settle]
    · subst hcopy
      refine ⟨rfl, fun _ => currentRetryCount_counted (counted_alloc msg.headers), htimed, ?_, haccept⟩
      intro d htarget
      left
      simp [hdest d htarget]
  · obtain ⟨err, hanswer, heq⟩ := dropOriginal_of_not_dropped (w.hold reserved) hdrop
    rw [heq]
    exact realises_of_not_dropped hdrop hanswer ((calls_letGo _ _).trans hcalls) hno

end Published

/-! ### Through the host's store -/

section Kept

variable {target : Target} {delay : Option Duration} {path : CopyPublisher b Options}
  {msg : Message b} {headers : Headers b}

theorem currentRetryCount_prepared (hkeeps : (CopyPath.kept path).KeepsCount) (copy : Copy b Options) :
    currentRetryCount (path.prepared msg copy).headers = currentRetryCount copy.headers :=
  currentRetryCount_congr (hkeeps msg copy)

/-- A copy that never got a record: with nowhere to wait it is a failed publish, and a copy that
does not wait is sent from a buffer of its own. -/
theorem spillCopy_realises (w : World b Options) (hcounted : counted msg.headers = some headers)
    (hfull : .free ∉ w.store.held) : Realises msg w (.copy (.kept path) target delay)
      (spillCopy target (nonzero delay) path headers msg w) := by
  have hcount := currentRetryCount_counted hcounted
  have hrefuses : ¬(CopyPath.kept path).Accepts msg w.store.held target :=
    fun haccept => hfull haccept.2.1
  unfold spillCopy
  by_cases hdrop : Dropped (msg.answer (.nack false))
  · have hleaves := quiet_afterPublish (w.settle msg (.nack false)).2.takeReaction.2 target
    rw [dropOriginal_of_dropped _ hdrop]
    by_cases hwait : (target.destination.isNone && (nonzero delay).isSome) = true
    · rw [if_pos hwait]
      have hquiet := hleaves ⟨path.address, msg.payload, headers, none⟩
        (.error (.noFreeRecord w.store.records.length)) w.reaction
      refine realises_of_dropped hdrop hquiet.calls_eq hquiet.reserved_eq hquiet.departures_eq ?_
      refine ⟨rfl, fun _ => hcount, ?_, ?_, fun haccept => absurd haccept hrefuses⟩
      · rintro wait timer ⟨⟩
      · exact fun _ _ => Or.inr ⟨_, rfl⟩
    · rw [if_neg hwait]
      have hquiet := hleaves (spill path msg.payload headers target.destination msg).copy
        ((spill path msg.payload headers target.destination msg).send path) w.reaction
      refine realises_of_dropped hdrop hquiet.calls_eq hquiet.reserved_eq hquiet.departures_eq ?_
      refine ⟨rfl, fun hkeeps => (currentRetryCount_prepared hkeeps _).trans hcount, ?_, ?_,
        fun haccept => absurd haccept hrefuses⟩
      · intro wait timer h
        exact absurd h (ofSent_ne_scheduled _ _ _)
      · rintro destination rfl
        exact Or.inl rfl
  · obtain ⟨err, hanswer, heq⟩ := dropOriginal_of_not_dropped w hdrop
    rw [heq, ite_self]
    exact realises_of_not_dropped hdrop hanswer rfl ⟨rfl, rfl, rfl⟩

/-- A filled record lets its copy go: armed where it waits, sent where it does not. -/
theorem leaveRecord_departs (path : CopyPublisher b Options) (delay : Option Duration) {index : ℕ}
    {record : Record b Options} (w : World b Options) (hrecord : w.store.records[index]? = some record)
    (hdelay : ∀ d, target = .deadLetter d → delay = none) :
    ∃ copy fate, (leaveRecord target delay path index w).calls = w.calls ∧
      (leaveRecord target delay path index w).departures = w.departures ++ [⟨target, copy, fate⟩] ∧
      (leaveRecord target delay path index w).reserved = w.reserved ∧
      copy.headers = record.headers ∧
      (∀ wait timer, fate = .scheduled wait timer → delay = some wait) ∧
      (∀ d, target = .deadLetter d → copy.destination = d ∨ ∃ cause, fate = .failed cause) ∧
      ((∀ copy, path.publishCopy copy = .ok ()) → record.oversize = false →
        (∀ d, target = .deadLetter d → destinationFits b d = true) →
        ∀ cause, fate ≠ .failed cause) := by
  cases delay with
  | some wait =>
    have htarget : target = .subscription := by
      cases target with
      | subscription => rfl
      | deadLetter d => exact absurd (hdelay d rfl) (by simp)
    subst htarget
    refine ⟨record.copy path.address, .scheduled wait (.record index), ?_, ?_, ?_, rfl, ?_, ?_, ?_⟩
    · simp [leaveRecord, World.takeReaction, hrecord, World.depart]
    · simp [leaveRecord, World.takeReaction, hrecord, World.depart]
    · simp [leaveRecord, World.takeReaction, hrecord, World.depart]
    · rintro wait' timer ⟨⟩
      rfl
    · rintro d ⟨⟩
    · rintro - - - cause ⟨⟩
  | none =>
    -- the bound record is the one the store sends
    have hbound : (w.store.record index fun r => r.bind target.destination w.reaction).records[index]?
        = some (record.bind target.destination w.reaction) := by
      rw [CopyStore.getElem?_record, hrecord]
      rfl
    generalize hcopy : (record.bind target.destination w.reaction).copy
      (if (record.bind target.destination w.reaction).toDestination then
        (record.bind target.destination w.reaction).destination else path.address) = copy
    generalize hsent : (if (record.bind target.destination w.reaction).oversize then
      Except.error PublishError.bufferFull else path.publishCopy copy) = sent
    have hleave : ∃ store, leaveRecord target none path index w
        = ({ w.takeReaction.2 with store := store } : World b Options).afterPublish target copy sent
            w.reaction := by
      refine ⟨(w.store.record index fun r => r.bind target.destination w.reaction).record index
        Record.sent, ?_⟩
      simp only [leaveRecord, World.takeReaction, CopyStore.sendNow, CopyStore.send, hbound,
        Option.map_some, hcopy, hsent]
    obtain ⟨store, hleave⟩ := hleave
    rw [hleave]
    have hquiet := quiet_afterPublish ({ w.takeReaction.2 with store := store } : World b Options)
      target copy sent w.reaction
    refine ⟨copy, .ofSent sent, hquiet.calls_eq, hquiet.departures_eq, hquiet.reserved_eq, ?_, ?_, ?_, ?_⟩
    · subst hcopy
      cases target <;> rfl
    · intro wait timer h
      exact absurd h (ofSent_ne_scheduled _ _ _)
    · rintro d rfl
      by_cases hfits : destinationFits b d = true
      · left
        subst hcopy
        simp [Record.bind, Target.destination, Record.copy, hfits]
      · right
        refine ⟨.bufferFull, ?_⟩
        subst hsent
        simp [Record.bind, Target.destination, hfits, Fate.ofSent]
    · intro hpublish hsize hfits cause
      refine ofSent_ne_failed ?_ cause
      subst hsent
      have hnot : (record.bind target.destination w.reaction).oversize = false := by
        cases target with
        | subscription => simpa [Record.bind, Target.destination] using hsize
        | deadLetter d => simp [Record.bind, Target.destination, hsize, hfits d rfl]
      rw [hnot]
      exact hpublish copy

theorem keepCopy_realises (delivery : Delivery) (host : Host b Options) (w : World b Options)
    (hdelay : ∀ d, target = .deadLetter d → delay = none) :
    Realises msg w (copyOrRequeue delivery host msg (.kept path) target delay)
      (keepCopy target delay path msg w) := by
  unfold copyOrRequeue keepCopy
  cases hcounted : counted msg.headers with
  | none =>
    have hroom : ¬(CopyPath.kept path).HasRoom delivery host msg delay :=
      (counted_eq_none_iff msg.headers).mp hcounted
    rw [if_neg hroom]
    exact settle_realises msg w _
  | some headers =>
    have hroom : (CopyPath.kept path).HasRoom delivery host msg delay :=
      (counted_isSome_iff msg.headers).mp (by rw [hcounted]; rfl)
    rw [if_pos hroom]
    cases htake : w.store.takeRecord with
    | none =>
      refine spillCopy_realises w hcounted ?_
      rw [← CopyStore.takeRecord_isSome_iff, htake]
      simp
    | some taken =>
      obtain ⟨index, store⟩ := taken
      simp only
      generalize hw : ({ w with
        store := (store.fill index msg.payload headers).prepare path index target.destination msg } :
        World b Options) = filled
      by_cases hdrop : Dropped (msg.answer (.nack false))
      · rw [dropOriginal_of_dropped _ hdrop]
        obtain ⟨r, hr⟩ :=
          CopyStore.getElem?_prepared htake path msg headers target.destination
        have hrecord : (filled.settle msg (.nack false)).2.store.records[index]?
            = some ((Record.fill r msg.payload headers).prepare path msg
                (target.destination.getD path.address)) := by
          subst hw
          exact hr
        obtain ⟨copy, fate, hc, hd, hres, hheaders, htimed, haddressed, haccept⟩ :=
          leaveRecord_departs path (nonzero delay) _ hrecord
            (fun d h => by rw [hdelay d h]; rfl)
        subst hw
        refine realises_of_dropped hdrop hc hres hd ⟨rfl, ?_, htimed, haddressed, ?_⟩
        · intro hkeeps
          rw [hheaders]
          exact (currentRetryCount_prepared hkeeps _).trans (currentRetryCount_counted hcounted)
        · rintro ⟨hpublish, -, hpayload, hfits⟩ cause
          refine haccept hpublish ?_ hfits cause
          simp [Record.prepare, Record.fill, hpayload]
      · -- the drop failed: the record is freed, and the records are where they were
        obtain ⟨err, hanswer, heq⟩ := dropOriginal_of_not_dropped filled hdrop
        rw [heq]
        subst hw
        refine realises_of_not_dropped hdrop hanswer rfl ⟨rfl, ?_, rfl⟩
        exact CopyStore.held_free_of_takeRecord htake path msg headers target.destination

end Kept

/-! ## The refinement -/

variable {delivery : Delivery} {host : Host b Options} {msg : Message b}

theorem sendCopy_realises (path : CopyPath Options b) (target : Target) (delay : Option Duration)
    (w : World b Options) (hdelay : ∀ d, target = .deadLetter d → delay = none) :
    Realises msg w (copyOrRequeue delivery host msg path target delay)
      (sendCopy target delay path delivery host msg w) := by
  cases path with
  | published route =>
    refine publishCopy_realises _ host w ?_
    rintro d rfl
    rfl
  | kept path => exact keepCopy_realises delivery host w hdelay

theorem deadLetter_realises (path : CopyPath Options b) (destination : String) (atCap : Bool)
    (w : World b Options) :
    Realises msg w (copyOrRequeue delivery host msg path (.deadLetter destination) none)
      (deadLetter destination atCap path delivery host msg w) :=
  (sendCopy_realises path _ none _ fun _ _ => rfl).of_quiet (quiet_ite_warn w _ _)

theorem rejectSpent_realises : Realises msg w (.broker (.nack false)) (rejectSpent msg w) :=
  (settle_realises msg _ _).of_quiet (quiet_warn w _)

theorem requeueNow_realises :
    Realises msg w (.broker (.nack true)) (requeueNow delivery host msg w) :=
  (settle_realises msg _ _).of_quiet (quiet_ite_warn w _ _)

theorem nackAfterNatively_realises (delay : Duration) (w : World b Options) :
    Realises msg w (.broker (.nackAfter delay)) (nackAfterNatively delay delivery msg w) := by
  unfold nackAfterNatively World.settle
  cases hanswer : msg.answer (.nackAfter delay) with
  | error err => exact ⟨hanswer.symm, rfl, ⟨rfl, rfl, rfl⟩⟩
  | ok u =>
    simp only
    split_ifs
    · exact ⟨hanswer.symm, rfl, ⟨rfl, rfl, rfl⟩⟩
    · exact ⟨hanswer.symm, rfl, ⟨rfl, rfl, rfl⟩⟩

theorem settleRetry_realises : Realises msg w (disposition (.nack true) delivery host msg)
      (settleRetry delivery host msg w) := by
  unfold settleRetry disposition
  cases hpath : copyPath host with
  | none =>
    simp only [ite_self]
    exact settle_realises msg w _
  | some path =>
    by_cases hnothing : delivery.declaration.declaresNothing = true
    · simp only [hnothing, if_true]
      exact settle_realises msg w _
    simp only [hnothing, Bool.false_eq_true, if_false, nextStop]
    cases hnext : redeliveryOf msg delivery.declaration with
    | subscription =>
      by_cases hcounts : msg.redeliveryCount.isSome = true
      · simp only [hcounts, and_self, if_true]
        exact settle_realises msg w _
      · simp only [hcounts, and_false, Bool.false_eq_true, if_false]
        exact sendCopy_realises path _ none w fun _ _ => rfl
    | deadLetter destination atCap =>
      simp only [reduceCtorEq, false_and, if_false]
      exact deadLetter_realises path destination atCap w
    | reject =>
      simp only [reduceCtorEq, false_and, if_false]
      exact rejectSpent_realises w

theorem settleNackAfter_realises (delay : Duration) (w : World b Options) :
    Realises msg w (disposition (.nackAfter delay) delivery host msg)
      (settleNackAfter delay delivery host msg w) := by
  unfold settleNackAfter disposition
  cases hpath : copyPath host with
  | none =>
    by_cases hnative : msg.supportsNackAfter = true
    · simp only [hnative, if_true]
      cases delivery.declaration.maxAttempts <;> exact nackAfterNatively_realises delay w
    · simp only [hnative, Bool.false_eq_true, if_false]
      exact requeueNow_realises w
  | some path =>
    by_cases hnative : msg.supportsNackAfter = true
    · simp only [hnative, if_true]
      cases hcap : delivery.declaration.maxAttempts with
      | none =>
        simp only [Option.isSome_none, Bool.false_eq_true, false_and, if_false]
        exact nackAfterNatively_realises delay w
      | some cap =>
        simp only [Option.isSome_some, true_and, nextStop]
        cases hnext : redeliveryOf msg delivery.declaration with
        | subscription =>
          simp only [ne_eq, not_true_eq_false, if_false]
          exact nackAfterNatively_realises delay w
        | deadLetter destination atCap =>
          simp only [ne_eq, reduceCtorEq, not_false_eq_true, if_true]
          exact deadLetter_realises path destination true w
        | reject =>
          simp only [ne_eq, reduceCtorEq, not_false_eq_true, if_true]
          exact rejectSpent_realises w
    · simp only [hnative, Bool.false_eq_true, if_false, nextStop]
      cases hnext : redeliveryOf msg delivery.declaration with
      | subscription =>
        refine sendCopy_realises path _ _ w ?_
        rintro d ⟨⟩
      | deadLetter destination atCap => exact deadLetter_realises path destination atCap w
      | reject => exact rejectSpent_realises w

/-- **The refinement.** The settlement of the source realises the disposition of the delivery. -/
theorem settleBy_realises (outcome : HandlerResult) (delivery : Delivery) (host : Host b Options)
    (msg : Message b) (w : World b Options) : Realises msg w (disposition outcome delivery host msg)
      (settleBy outcome delivery host msg w) := by
  match outcome with
  | .ack => exact settle_realises msg w _
  | .nack false => exact settle_realises msg w _
  | .nack true => exact settleRetry_realises w
  | .nackAfter delay => exact settleNackAfter_realises delay w

theorem quiet_settleUnpublished : Quiet w (settleUnpublished host w) := by
  have htaken : Quiet w { w with reaction := none } := ⟨⟨rfl, rfl, rfl⟩, rfl⟩
  unfold settleUnpublished
  split
  next => exact Quiet.refl w
  next => exact ⟨⟨rfl, rfl, rfl⟩, rfl⟩
  next index _ =>
    split_ifs
    · exact htaken.trans (quiet_report _ index (.ok ()))
    · exact htaken

/-- What surrounds the settlement, the warnings and the work handed on, changes nothing the
disposition promises. -/
theorem settleReacting_realises (outcome : HandlerResult) (delivery : Delivery)
    (host : Host b Options) (msg : Message b) (w : World b Options) :
    ∃ answer, Realises msg w (disposition outcome delivery host msg)
      (answer, settleReacting outcome delivery host msg w) := by
  unfold settleReacting
  have hquiet := quiet_ite_warn w ((w.reaction.isSome && (copyPath host).isNone) = true)
    .continuationNeverRuns
  generalize hw : (if (w.reaction.isSome && (copyPath host).isNone) = true then
    w.warn .continuationNeverRuns else w) = w₀ at hquiet
  have h := (settleBy_realises outcome delivery host msg w₀).of_quiet hquiet
  cases hsettle : settleBy outcome delivery host msg w₀ with
  | mk answer w' =>
    rw [hsettle] at h
    refine ⟨answer, ?_⟩
    simp only [hsettle]
    cases answer with
    | ok u => exact h.then_quiet (quiet_settleUnpublished w')
    | error err =>
      exact (h.then_quiet (quiet_warn w' _)).then_quiet (quiet_settleUnpublished _)

end RustStream
