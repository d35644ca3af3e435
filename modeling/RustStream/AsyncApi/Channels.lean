import RustStream.AsyncApi.Ids
import RustStream.Lib.First

/-!
# The channels of a document

A channel is created by the registration that reaches it first and completed by the later ones. To the map of channels
a registration is the same thing on the receiving side and on the sending side, a `Touch`: what the channel is if it is
new, whether a subscription's address is written over the one it has, the bindings that fill in and the messages that
are added. The channels of a document are the touches of its handlers, one after the other.

So what a channel ends as is said field by field. Its servers and its parameters are those of the first touch. Its
address is its name once a subscription has touched it, and that of the first touch else. Each of its bindings is that
of the first touch that has it, and its messages are those of all.

## Main definitions

* `AsyncApi.Touch`: what one registration does to the channels.
* `AsyncApi.HandlerMetadata.touches`: the touches of a handler.

## Main results

* `AsyncApi.channels_fill`: the channels of a document.
* `AsyncApi.servers_applyAll`, `AsyncApi.address_applyAll`,
  `AsyncApi.bindings_applyAll`, `AsyncApi.messages_applyAll`: what a channel ends as.
-/

namespace RustStream.AsyncApi

open List

/-- What one registration does to the channels. -/
structure Touch where
  channel : String
  /-- What it would be created with. -/
  address : Option String
  parameters : List (String × Parameter)
  servers : List Reference
  /-- Whether it is a subscription, which reads a real address. -/
  received : Bool
  bindings : Bindings
  /-- The messages it carries. -/
  names : List String

namespace Touch

/-- The channel as it is created. -/
def fresh (touch : Touch) : Channel where
  address := touch.address
  messages := []
  parameters := touch.parameters
  servers := touch.servers
  bindings := []

def change (touch : Touch) (channel : Channel) : Channel :=
  (if touch.received then { channel with address := some touch.channel } else channel).join touch.bindings touch.names

def apply (channels : List (String × Channel)) (touch : Touch) : List (String × Channel) :=
  Assoc.update touch.channel touch.fresh touch.change channels

/-- The channels after touches, one after the other. -/
def applyAll (touches : List Touch) : List (String × Channel) :=
  touches.foldl apply []

end Touch

def OutgoingMessageMetadata.touch (outgoing : OutgoingMessageMetadata) (on : List Reference) : Touch where
  channel := outgoing.channel
  address := (outgoing.freshChannel on).address
  parameters := (outgoing.freshChannel on).parameters
  servers := on
  received := false
  bindings := outgoing.bindings.channel
  names := [outgoing.contribution.name]

namespace HandlerMetadata

def touch (handler : HandlerMetadata) (on : List Reference) : Touch where
  channel := handler.name
  address := some handler.name
  parameters := []
  servers := on
  received := true
  bindings := handler.bindings.channel
  names := handler.received.map MessageContribution.name

/-- The message a handler answers with. -/
def answer (handler : HandlerMetadata) : Option OutgoingMessageMetadata :=
  handler.outgoing.find? fun outgoing => outgoing.kind = .answer

/-- The touches of a handler, in their order: its answer, its subscription, what it sends. -/
def touches (handler : HandlerMetadata) (on : List Reference) : List Touch :=
  handler.answer.toList.map (·.touch on) ++ handler.touch on :: handler.sent.map (·.touch on)

end HandlerMetadata

/-! ## The channels are the touches of the handlers -/

section Fill

variable (alphanumeric : Char → Bool)

theorem channels_addReceive (handler : HandlerMetadata) (reply : Option OperationReply) (on : List Reference)
    (tags : List Tag) (maps : Maps) :
    (addReceive alphanumeric handler reply on tags maps).channels = Touch.apply maps.channels (handler.touch on) :=
  rfl

theorem channels_addReply (handler : HandlerMetadata) (on : List Reference) (maps : Maps) :
    (addReply handler on maps).1.channels
      = (handler.answer.toList.map (·.touch on)).foldl Touch.apply maps.channels := by
  rw [addReply, HandlerMetadata.answer]
  cases handler.outgoing.find? fun outgoing => outgoing.kind = .answer with
  | none => rfl
  | some outgoing => rfl

theorem channels_sends (handler : HandlerMetadata) (on : List Reference) (tags : List Tag)
    (outgoing : List OutgoingMessageMetadata) (maps : Maps) :
    (outgoing.foldl (addSend alphanumeric handler on tags) maps).channels
      = ((outgoing.filter fun outgoing => outgoing.kind ≠ .answer).map (·.touch on)).foldl Touch.apply
        maps.channels := by
  induction outgoing generalizing maps with
  | nil => rfl
  | cons first rest ih =>
    rw [foldl_cons, ih]
    by_cases hkind : first.kind = .answer
    · rw [addSend, if_pos hkind, filter_cons_of_neg (by simp [hkind])]
    · rw [addSend, if_neg hkind, filter_cons_of_pos (by simp [hkind])]
      rfl

theorem channels_addHandler (servers : List (String × Server)) (maps : Maps) (handler : HandlerMetadata) :
    (addHandler alphanumeric servers maps handler).channels
      = (handler.touches (onServers servers handler)).foldl Touch.apply maps.channels := by
  rw [addHandler, channels_sends, channels_addReceive, channels_addReply, HandlerMetadata.touches, foldl_append]
  rfl

/-- **The channels of a document** are the touches of its handlers. -/
theorem channels_fill (servers : List (String × Server)) (handlers : List HandlerMetadata) :
    (fill alphanumeric servers handlers).channels
      = Touch.applyAll (handlers.flatMap fun handler => handler.touches (onServers servers handler)) := by
  have hfold (maps : Maps) : (handlers.foldl (addHandler alphanumeric servers) maps).channels
      = (handlers.flatMap fun handler => handler.touches (onServers servers handler)).foldl Touch.apply
        maps.channels := by
    induction handlers generalizing maps with
    | nil => rfl
    | cons handler handlers ih =>
      rw [foldl_cons, ih, channels_addHandler, flatMap_cons, foldl_append]
  exact hfold {}

end Fill

/-! ## What a channel ends as -/

section Fields

variable {touches : List Touch} {name : String}

theorem applyAll_concat (touches : List Touch) (touch : Touch) :
    Touch.applyAll (touches ++ [touch]) = Touch.apply (Touch.applyAll touches) touch := by
  rw [Touch.applyAll, foldl_append]
  rfl

theorem lookup_concat_self (touches : List Touch) (touch : Touch) :
    (Touch.applyAll (touches ++ [touch])).lookup touch.channel
      = some (touch.change (((Touch.applyAll touches).lookup touch.channel).getD touch.fresh)) := by
  rw [applyAll_concat]
  exact Assoc.lookup_update_self _ _ _ _

theorem lookup_concat_of_ne {touch : Touch} (h : name ≠ touch.channel) (touches : List Touch) :
    (Touch.applyAll (touches ++ [touch])).lookup name = (Touch.applyAll touches).lookup name := by
  rw [applyAll_concat]
  exact Assoc.lookup_update_of_ne h _ _ _

/-- What a touch says of the channel of a name. -/
def Touch.tells {β : Type} (name : String) (f : Touch → Option β) (touch : Touch) : Option β :=
  if touch.channel = name then f touch else none

/-- What no touch changes is that of the first. -/
theorem map_lookup_applyAll {β : Type} {field : Channel → β} (hfield : ∀ touch channel,
    field (Touch.change touch channel) = field channel) (touches : List Touch) (name : String) :
    ((Touch.applyAll touches).lookup name).map field
      = touches.findSome? (Touch.tells name fun touch => some (field touch.fresh)) := by
  induction touches using List.reverseRecOn with
  | nil => rfl
  | append_singleton touches touch ih =>
    rw [findSome?_append, ← ih, findSome?_singleton, Touch.tells]
    by_cases hname : touch.channel = name
    · subst hname
      rw [lookup_concat_self, if_pos rfl, Option.map_some, hfield]
      cases (Touch.applyAll touches).lookup touch.channel <;> rfl
    · rw [lookup_concat_of_ne (Ne.symm hname), if_neg hname, Option.or_none]

variable (touch : Touch)

variable (channel : Channel)

theorem servers_change : (touch.change channel).servers = channel.servers := by
  rw [Touch.change]
  split_ifs <;> rfl

theorem parameters_change : (touch.change channel).parameters = channel.parameters := by
  rw [Touch.change]
  split_ifs <;> rfl

theorem address_change :
    (touch.change channel).address = if touch.received then some touch.channel else channel.address := by
  rw [Touch.change]
  split_ifs <;> rfl

theorem bindings_change :
    (touch.change channel).bindings = Assoc.fill channel.bindings touch.bindings := by
  rw [Touch.change]
  split_ifs <;> rfl

theorem messages_change : (touch.change channel).messages
      = touch.names.foldl (fun messages name => Assoc.set name (.componentMessage name) messages) channel.messages := by
  rw [Touch.change]
  split_ifs <;> rfl

theorem servers_applyAll (touches : List Touch) (name : String) :
    ((Touch.applyAll touches).lookup name).map Channel.servers
      = touches.findSome? (Touch.tells name fun touch => some touch.servers) :=
  map_lookup_applyAll servers_change touches name

theorem lookup_applyAll_eq_none_iff :
    (Touch.applyAll touches).lookup name = none ↔ ∀ touch ∈ touches, touch.channel ≠ name := by
  have hservers := servers_applyAll touches name
  rw [← Option.map_eq_none_iff (f := Channel.servers), hservers, findSome?_eq_none_iff]
  refine forall_congr' fun touch => imp_congr_right fun _ => ?_
  rw [Touch.tells]
  split_ifs with h <;> simp [h]

/-- A binding is that of the first touch that has it. -/
theorem bindings_applyAll (touches : List Touch) (name key : String) :
    (((Touch.applyAll touches).lookup name).bind fun channel => channel.bindings.lookup key)
      = touches.findSome? (Touch.tells name fun touch => touch.bindings.lookup key) := by
  induction touches using List.reverseRecOn with
  | nil => rfl
  | append_singleton touches touch ih =>
    rw [findSome?_append, ← ih, findSome?_singleton, Touch.tells]
    by_cases hname : touch.channel = name
    · subst hname
      rw [lookup_concat_self, if_pos rfl, Option.bind_some, bindings_change, Assoc.lookup_fill]
      cases (Touch.applyAll touches).lookup touch.channel <;> rfl
    · rw [lookup_concat_of_ne (Ne.symm hname), if_neg hname, Option.or_none]

/-- Once a subscription has touched a channel its address is its name. -/
theorem address_applyAll (touches : List Touch) (name : String) :
    ((Touch.applyAll touches).lookup name).map Channel.address
      = if ∃ touch ∈ touches, touch.channel = name ∧ touch.received = true then some (some name)
        else touches.findSome? (Touch.tells name fun touch => some touch.address) := by
  induction touches using List.reverseRecOn with
  | nil => simp [Touch.applyAll]
  | append_singleton touches touch ih =>
    rw [findSome?_append, findSome?_singleton]
    simp only [mem_append, mem_singleton, or_and_right, exists_or, exists_eq_left]
    by_cases hname : touch.channel = name
    · subst hname
      rw [lookup_concat_self, Option.map_some, address_change]
      by_cases hreceived : touch.received = true
      · rw [if_pos hreceived, if_pos (Or.inr ⟨rfl, hreceived⟩)]
      · rw [if_neg hreceived]
        simp only [hreceived, and_false, or_false, Bool.false_eq_true]
        rw [Touch.tells, if_pos rfl]
        -- not a subscription: a channel that is there keeps its address, a new one takes the touch's
        cases hlookup : (Touch.applyAll touches).lookup touch.channel with
        | none =>
          have hnone : ¬ ∃ other ∈ touches, other.channel = touch.channel ∧ other.received = true := by
            rintro ⟨other, hother, hchannel, -⟩
            exact lookup_applyAll_eq_none_iff.mp hlookup other hother hchannel
          rw [hlookup, Option.map_none] at ih
          rw [if_neg hnone] at ih ⊢
          rw [← ih]
          rfl
        | some channel =>
          rw [hlookup, Option.map_some] at ih
          rw [Option.getD_some, ih]
          split_ifs with hsubscribed
          · rfl
          · rw [if_neg hsubscribed] at ih
            rw [← ih]
            rfl
    · rw [lookup_concat_of_ne (Ne.symm hname), ih, Touch.tells, if_neg hname, Option.or_none]
      simp only [hname, false_and, or_false]

theorem lookup_addNames (names : List String) (messages : List (String × Reference)) (key : String) :
    (names.foldl (fun messages name => Assoc.set name (Reference.componentMessage name) messages) messages).lookup key
      = if key ∈ names then some (.componentMessage key) else messages.lookup key := by
  induction names generalizing messages with
  | nil => rfl
  | cons name names ih =>
    rw [foldl_cons, ih]
    by_cases hrest : key ∈ names
    · rw [if_pos hrest, if_pos (mem_cons_of_mem _ hrest)]
    · rw [if_neg hrest]
      by_cases hname : key = name
      · rw [hname, Assoc.lookup_set_self, if_pos mem_cons_self]
      · rw [Assoc.lookup_set_of_ne hname, if_neg (not_mem_cons_of_ne_of_not_mem hname hrest)]

/-- The messages of a channel are those of all its touches, each with the component of its name. -/
theorem messages_applyAll (touches : List Touch) (name key : String) :
    (((Touch.applyAll touches).lookup name).bind fun channel => channel.messages.lookup key)
      = if ∃ touch ∈ touches, touch.channel = name ∧ key ∈ touch.names then some (.componentMessage key) else none := by
  induction touches using List.reverseRecOn with
  | nil => simp [Touch.applyAll]
  | append_singleton touches touch ih =>
    simp only [mem_append, mem_singleton, or_and_right, exists_or, exists_eq_left]
    by_cases hname : touch.channel = name
    · subst hname
      rw [lookup_concat_self, Option.bind_some, messages_change, lookup_addNames]
      by_cases hkey : key ∈ touch.names
      · rw [if_pos hkey, if_pos (Or.inr ⟨rfl, hkey⟩)]
      · rw [if_neg hkey]
        simp only [hkey, and_false, or_false]
        rw [← ih]
        cases (Touch.applyAll touches).lookup touch.channel <;> rfl
    · rw [lookup_concat_of_ne (Ne.symm hname), ih]
      simp only [hname, false_and, or_false]

end Fields

end RustStream.AsyncApi
