import RustStream.AsyncApi.Channels

/-!
# Where channels live

A channel says which servers it exists on, and says so once: the registration that creates it puts its own server in.
A later registration of the same channel on another server is not listed, and which of the two is first is the order
the handlers were registered in. The same holds of the other things only the first can say: the address of a channel
nobody subscribes to, its parameters, and each of its bindings.

So a document lists every registration's server on its channels, and is the same for every order of the handlers,
exactly when the handlers that share a channel agree on what the first of them says of it. That they agree on the
servers is all the listing needs.

## Main definitions

* `AsyncApi.Listed`: the channels of a handler's operations list its server, or none at all.
* `AsyncApi.SameEntries`: two maps of channels hold the same.
* `AsyncApi.Agreed`: the handlers that share a channel agree on it.

## Main results

* `AsyncApi.channels_placed_iff`: the channels are placed right exactly when the handlers agree.
-/

namespace RustStream.AsyncApi

open List

/-- The channels a handler's `receive`, `send` and reply refer to. -/
def HandlerMetadata.channels (handler : HandlerMetadata) : List String :=
  handler.answer.toList.map (·.channel) ++ handler.name :: handler.sent.map (·.channel)

/-- Every channel of a handler whose server is known lists that server, or lists none, which stands for all. -/
def Listed (app : App) (spec : Spec) : Prop :=
  ∀ handler ∈ app.handlers, ∀ server, resolveServer handler.server spec.servers = some server →
    ∀ name ∈ handler.channels, ∃ channel, spec.channels.lookup name = some channel
      ∧ (Reference.server server ∈ channel.servers ∨ channel.servers = [])

/-- Two channels with the same address and servers, and with the same messages, parameters and bindings. -/
structure Channel.Same (channel channel' : Channel) : Prop where
  address : channel.address = channel'.address
  servers : channel.servers = channel'.servers
  messages : ∀ key, channel.messages.lookup key = channel'.messages.lookup key
  parameters : ∀ key, channel.parameters.lookup key = channel'.parameters.lookup key
  bindings : ∀ key, channel.bindings.lookup key = channel'.bindings.lookup key

def SameEntries (channels channels' : List (String × Channel)) : Prop :=
  ∀ name, Option.Rel Channel.Same (channels.lookup name) (channels'.lookup name)

/-! ## What a handler says of a channel -/

/-- What the first of a handler's registrations that says something of the channel `name` says. -/
def HandlerMetadata.tells {β : Type} (servers : List (String × Server)) (name : String) (f : Touch → Option β)
    (handler : HandlerMetadata) : Option β :=
  (handler.touches (onServers servers handler)).findSome? (Touch.tells name f)

/-- The handlers that share the channel `name` agree on what only the first of them can say: its server, its
parameters, its address unless the channel is subscribed to, and each binding that several of them have. -/
structure Agreed (servers : List (String × Server)) (handlers : List HandlerMetadata) (name : String) : Prop where
  server : ∀ handler ∈ handlers, ∀ handler' ∈ handlers, name ∈ handler.channels → name ∈ handler'.channels →
    resolveServer handler.server servers = resolveServer handler'.server servers
  parameters : First.Agree
    (HandlerMetadata.tells servers name fun touch => some fun key => touch.parameters.lookup key) handlers
  address : (∃ handler ∈ handlers, handler.name = name)
    ∨ First.Agree (HandlerMetadata.tells servers name fun touch => some touch.address) handlers
  bindings : ∀ key, First.Agree (HandlerMetadata.tells servers name fun touch => touch.bindings.lookup key) handlers

section Handlers

variable {servers : List (String × Server)} {handlers : List HandlerMetadata} {name : String}

theorem onServers_eq_iff {handler handler' : HandlerMetadata} :
    onServers servers handler = onServers servers handler'
      ↔ resolveServer handler.server servers = resolveServer handler'.server servers := by
  rw [onServers, onServers]
  cases resolveServer handler.server servers <;> cases resolveServer handler'.server servers <;> simp

theorem map_channel_touches (handler : HandlerMetadata) (on : List Reference) :
    (handler.touches on).map Touch.channel = handler.channels := by
  rw [HandlerMetadata.touches, HandlerMetadata.channels, map_append, map_cons, map_map, map_map]
  rfl

theorem servers_of_mem_touches {handler : HandlerMetadata} {on : List Reference} {touch : Touch}
    (h : touch ∈ handler.touches on) : touch.servers = on := by
  rcases mem_append.mp h with hanswer | hrest
  · obtain ⟨outgoing, -, rfl⟩ := mem_map.mp hanswer
    rfl
  · rcases mem_cons.mp hrest with rfl | hsent
    · rfl
    · obtain ⟨outgoing, -, rfl⟩ := mem_map.mp hsent
      rfl

theorem received_of_mem_touches {handler : HandlerMetadata} {on : List Reference} {touch : Touch}
    (h : touch ∈ handler.touches on) (hreceived : touch.received = true) : touch.channel = handler.name := by
  rcases mem_append.mp h with hanswer | hrest
  · obtain ⟨outgoing, -, rfl⟩ := mem_map.mp hanswer
    cases hreceived
  · rcases mem_cons.mp hrest with rfl | hsent
    · rfl
    · obtain ⟨outgoing, -, rfl⟩ := mem_map.mp hsent
      cases hreceived

/-- A handler puts its server on each of its channels. -/
theorem tells_servers (handler : HandlerMetadata) :
    HandlerMetadata.tells servers name (fun touch => some touch.servers) handler
      = if name ∈ handler.channels then some (onServers servers handler) else none := by
  rw [HandlerMetadata.tells]
  cases htells : (handler.touches (onServers servers handler)).findSome? (Touch.tells name fun touch => some touch.servers)
    with
  | none =>
    rw [findSome?_eq_none_iff] at htells
    rw [if_neg]
    intro hmem
    rw [← map_channel_touches handler (onServers servers handler)] at hmem
    obtain ⟨touch, htouch, hchannel⟩ := mem_map.mp hmem
    have := htells touch htouch
    rw [Touch.tells, if_pos hchannel] at this
    cases this
  | some on =>
    obtain ⟨touch, htouch, hsome⟩ := exists_of_findSome?_eq_some htells
    rw [Touch.tells] at hsome
    split_ifs at hsome with hchannel
    have hmem : name ∈ handler.channels := by
      rw [← map_channel_touches handler (onServers servers handler)]
      exact mem_map.mpr ⟨touch, htouch, hchannel⟩
    rw [if_pos hmem]
    rw [← Option.some.inj hsome, servers_of_mem_touches htouch]

theorem agree_servers_iff :
    First.Agree (HandlerMetadata.tells servers name fun touch => some touch.servers) handlers
      ↔ ∀ handler ∈ handlers, ∀ handler' ∈ handlers, name ∈ handler.channels → name ∈ handler'.channels →
        resolveServer handler.server servers = resolveServer handler'.server servers := by
  refine forall_congr' fun handler => imp_congr_right fun _ => forall_congr' fun handler' => imp_congr_right fun _ => ?_
  rw [tells_servers, tells_servers, ← onServers_eq_iff]
  split_ifs with hmem hmem' hmem' <;> simp [hmem, hmem']

/-- The touches of handlers, one after the other. -/
def allTouches (servers : List (String × Server)) (handlers : List HandlerMetadata) : List Touch :=
  handlers.flatMap fun handler => handler.touches (onServers servers handler)

theorem findSome?_allTouches {β : Type} (f : Touch → Option β) (handlers : List HandlerMetadata) :
    (allTouches servers handlers).findSome? (Touch.tells name f)
      = handlers.findSome? (HandlerMetadata.tells servers name f) :=
  First.findSome?_flatMap _ _ handlers

theorem exists_received_iff :
    (∃ touch ∈ allTouches servers handlers, touch.channel = name ∧ touch.received = true)
      ↔ ∃ handler ∈ handlers, handler.name = name := by
  constructor
  · rintro ⟨touch, htouch, hchannel, hreceived⟩
    obtain ⟨handler, hhandler, hmem⟩ := mem_flatMap.mp htouch
    exact ⟨handler, hhandler, (received_of_mem_touches hmem hreceived).symm.trans hchannel⟩
  · rintro ⟨handler, hhandler, hname⟩
    refine ⟨handler.touch (onServers servers handler), mem_flatMap.mpr ⟨handler, hhandler, ?_⟩, hname, rfl⟩
    exact mem_append_right _ mem_cons_self

/-! ## Two orders -/

/-- Two entries hold the same when they do field by field. -/
theorem rel_same_iff {entry entry' : Option Channel} : Option.Rel Channel.Same entry entry' ↔
      entry.map Channel.servers = entry'.map Channel.servers
        ∧ (entry.map fun channel key => channel.parameters.lookup key)
          = (entry'.map fun channel key => channel.parameters.lookup key)
        ∧ entry.map Channel.address = entry'.map Channel.address
        ∧ (∀ key, (entry.bind fun channel => channel.bindings.lookup key)
          = entry'.bind fun channel => channel.bindings.lookup key)
        ∧ ∀ key, (entry.bind fun channel => channel.messages.lookup key)
          = entry'.bind fun channel => channel.messages.lookup key := by
  constructor
  · intro h
    cases h with
    | none => exact ⟨rfl, rfl, rfl, fun _ => rfl, fun _ => rfl⟩
    | some h =>
      refine ⟨congrArg some h.servers, congrArg some (funext h.parameters), congrArg some h.address, ?_, ?_⟩
      · exact h.bindings
      · exact h.messages
  · rintro ⟨hservers, hparameters, haddress, hbindings, hmessages⟩
    cases entry with
    | none =>
      cases entry' with
      | none => exact .none
      | some channel' => cases hservers
    | some channel =>
      cases entry' with
      | none => cases hservers
      | some channel' =>
        exact .some ⟨Option.some.inj haddress, Option.some.inj hservers, hmessages,
          congrFun (Option.some.inj hparameters), hbindings⟩

theorem parametersMap_applyAll (touches : List Touch) (name : String) :
    (((Touch.applyAll touches).lookup name).map fun channel key => channel.parameters.lookup key)
      = touches.findSome? (Touch.tells name fun touch => some fun key => touch.parameters.lookup key) :=
  map_lookup_applyAll (fun touch channel => by rw [parameters_change]) touches name

/-- **The order of the handlers does not show in a channel exactly when those that share it agree.** -/
theorem same_for_every_order_iff : (∀ handlers', handlers.Perm handlers' → Option.Rel Channel.Same
        ((Touch.applyAll (allTouches servers handlers')).lookup name)
        ((Touch.applyAll (allTouches servers handlers)).lookup name))
      ↔ Agreed servers handlers name := by
  simp only [rel_same_iff, servers_applyAll, parametersMap_applyAll, bindings_applyAll, address_applyAll,
    messages_applyAll, findSome?_allTouches, exists_received_iff]
  constructor
  · intro h
    refine ⟨agree_servers_iff.mp (First.perm_iff.mp fun handlers' hperm => (h handlers' hperm).1),
      First.perm_iff.mp fun handlers' hperm => (h handlers' hperm).2.1, ?_,
      fun key => First.perm_iff.mp fun handlers' hperm => (h handlers' hperm).2.2.2.1 key⟩
    by_cases hsubscribed : ∃ handler ∈ handlers, handler.name = name
    · exact Or.inl hsubscribed
    · refine Or.inr (First.perm_iff.mp fun handlers' hperm => ?_)
      have haddress := (h handlers' hperm).2.2.1
      have hunsubscribed' : ¬ ∃ handler ∈ handlers', handler.name = name := by
        rintro ⟨handler, hmem, hname⟩
        exact hsubscribed ⟨handler, hperm.symm.subset hmem, hname⟩
      rwa [if_neg hsubscribed, if_neg hunsubscribed'] at haddress
  · intro h handlers' hperm
    refine ⟨First.perm_iff.mpr (agree_servers_iff.mpr h.server) handlers' hperm,
      First.perm_iff.mpr h.parameters handlers' hperm, ?_,
      fun key => First.perm_iff.mpr (h.bindings key) handlers' hperm, fun key => ?_⟩
    · have hsame : (∃ handler ∈ handlers', handler.name = name) ↔ ∃ handler ∈ handlers, handler.name = name :=
        exists_congr fun handler => and_congr_left fun _ => hperm.symm.mem_iff
      by_cases hsubscribed : ∃ handler ∈ handlers, handler.name = name
      · rw [if_pos hsubscribed, if_pos (hsame.mpr hsubscribed)]
      · rw [if_neg hsubscribed, if_neg fun hsubscribed' => hsubscribed (hsame.mp hsubscribed')]
        exact First.perm_iff.mpr (h.address.resolve_left hsubscribed) handlers' hperm
    · have htouches : (allTouches servers handlers').Perm (allTouches servers handlers) :=
        (hperm.flatMap_right _).symm
      exact if_congr (exists_congr fun touch => and_congr_left fun _ => htouches.mem_iff) rfl rfl

end Handlers

/-! ## The document -/

section Document

variable (alphanumeric : Char → Bool)

theorem channels_buildSpec (app : App) :
    (buildSpec alphanumeric app).channels = Touch.applyAll (allTouches (buildServers app).1 app.handlers) :=
  channels_fill alphanumeric (buildServers app).1 app.handlers

theorem listed_of_agreed {app : App} (h : ∀ name, Agreed (buildServers app).1 app.handlers name) :
    Listed app (buildSpec alphanumeric app) := by
  intro handler hhandler server hserver name hname
  have htells : HandlerMetadata.tells (buildServers app).1 name (fun touch => some touch.servers) handler
      = some [Reference.server server] := by
    rw [tells_servers, if_pos hname, onServers, show resolveServer handler.server (buildServers app).1 = some server
      from hserver]
    rfl
  have hfirst := First.findSome?_eq_of_agree (agree_servers_iff.mpr (h name).server) hhandler htells
  rw [← findSome?_allTouches, ← servers_applyAll, ← channels_buildSpec alphanumeric] at hfirst
  obtain ⟨channel, hchannel, hservers⟩ := Option.map_eq_some_iff.mp hfirst
  exact ⟨channel, hchannel, Or.inl (hservers ▸ mem_singleton_self _)⟩

/-- **When channels list the servers of their registrations**, in every order of them alike. -/
theorem channels_placed_iff (app : App) :
    (Listed app (buildSpec alphanumeric app) ∧ ∀ handlers, app.handlers.Perm handlers →
        SameEntries (buildSpec alphanumeric { app with handlers := handlers }).channels
          (buildSpec alphanumeric app).channels)
      ↔ ∀ name, Agreed (buildServers app).1 app.handlers name := by
  have horders : (∀ handlers, app.handlers.Perm handlers →
      SameEntries (buildSpec alphanumeric { app with handlers := handlers }).channels
        (buildSpec alphanumeric app).channels) ↔ ∀ name, Agreed (buildServers app).1 app.handlers name := by
    simp only [← same_for_every_order_iff, channels_buildSpec, SameEntries]
    exact ⟨fun h name handlers hperm => h handlers hperm name, fun h handlers hperm name => h name handlers hperm⟩
  rw [horders]
  exact ⟨fun h => h.2, fun h => ⟨listed_of_agreed alphanumeric h, h⟩⟩

/-- Two servers, and a subscription to one channel on each of them. -/
def sharedChannel (nodup : ["east", "west"].Nodup) : App where
  info := { title := "orders", version := "1.0.0" }
  servers := [("east", { protocol := "nats" }), ("west", { protocol := "nats" })]
  servers_nodup := nodup
  handlers := [{ name := "orders", inputType := "Order", server := some "east" },
    { name := "orders", inputType := "Order", server := some "west" }]

/-- The channel lists the server of the first, and not that of the second. -/
theorem second_server_unlisted :
    ¬ Listed (sharedChannel (by decide)) (buildSpec Char.isAlphanum (sharedChannel (by decide))) := by
  intro hlisted
  obtain ⟨channel, hchannel, hservers⟩ := hlisted _ (List.mem_cons_of_mem _ List.mem_cons_self) "west" (by decide)
    "orders" List.mem_cons_self
  have heast : ((buildSpec Char.isAlphanum (sharedChannel (by decide))).channels.lookup "orders").map Channel.servers
      = some [.server "east"] := by
    decide
  rw [hchannel, Option.map_some, Option.some.injEq] at heast
  rw [heast] at hservers
  exact absurd hservers (by decide)

end Document

end RustStream.AsyncApi
