import RustStream.AsyncApi.Build

/-!
# No operation is overwritten

Every operation goes into one map, receive and send operations alike, under an id in which all that is not a letter or
a digit has become an underscore. So two names may give one id, and one name's id may be another's with its number.
What the generator relies on is the search behind it: an id is looked for until it is free, and since there is one
more candidate than there are operations it is found. Writing under it then adds an operation and touches no other.

The step of the loop is `Adds`: with distinct ids before, the ids are distinct after, and the operations are those
there were and the new ones behind them.

## Main results

* `AsyncApi.freeId_not_mem`: the search ends on a free id.
* `AsyncApi.one_operation_each`: the document has the operations its handlers declare, under distinct ids.
-/

namespace RustStream.AsyncApi

open List

/-- **The search ends on a free id.** -/
theorem freeId_not_mem (base : String) (operations : List (String × Operation)) :
    freeId base operations ∉ operations.map Prod.fst := by
  rw [freeId]
  split_ifs with hbase
  · exact Fresh.search_not_mem (Fresh.numbered_injective base) (le_of_eq (length_map Prod.fst)) 2
  · exact hbase

/-- A map of operations that has taken more of them in. -/
def Adds (before after : List (String × Operation)) (added : List Operation) : Prop :=
  (before.map Prod.fst).Nodup →
    (after.map Prod.fst).Nodup ∧ after.map Prod.snd = before.map Prod.snd ++ added

namespace Adds

variable {before middle after : List (String × Operation)} {added added' : List Operation}

theorem refl (operations : List (String × Operation)) : Adds operations operations [] :=
  fun hnodup => ⟨hnodup, (append_nil _).symm⟩

theorem trans (h : Adds before middle added) (h' : Adds middle after added') : Adds before after (added ++ added') := by
  intro hnodup
  obtain ⟨hmiddle, hvalues⟩ := h hnodup
  obtain ⟨hafter, hvalues'⟩ := h' hmiddle
  exact ⟨hafter, by rw [hvalues', hvalues, append_assoc]⟩

theorem set {id : String} (hfree : id ∉ before.map Prod.fst) (operation : Operation) :
    Adds before (Assoc.set id operation before) [operation] := by
  intro hnodup
  rw [Assoc.set_of_lookup_eq_none (Assoc.lookup_eq_none_iff.mpr hfree), map_append, map_append]
  refine ⟨?_, rfl⟩
  rw [nodup_append]
  refine ⟨hnodup, nodup_singleton id, ?_⟩
  intro other hother id' hid' heq
  rw [heq, mem_singleton.mp hid'] at hother
  exact hfree hother

/-- A loop each round of which adds what it declares adds what they all declare. -/
theorem foldl {ι : Type} {step : Maps → ι → Maps} {declared : ι → List Operation}
    (hstep : ∀ maps item, Adds maps.operations (step maps item).operations (declared item)) (items : List ι)
    (maps : Maps) : Adds maps.operations (items.foldl step maps).operations (items.flatMap declared) := by
  induction items generalizing maps with
  | nil => exact refl maps.operations
  | cons item items ih =>
    rw [foldl_cons, flatMap_cons]
    exact (hstep maps item).trans (ih (step maps item))

end Adds

/-! ## What the handlers declare -/

/-- Where an operation points to reach the outgoing message. -/
def OutgoingMessageMetadata.refs (outgoing : OutgoingMessageMetadata) : OutgoingRefs :=
  ⟨outgoing.channel, outgoing.contribution.name⟩

/-- The reply of a handler: its first answer. -/
def HandlerMetadata.reply (handler : HandlerMetadata) : Option OperationReply :=
  (handler.outgoing.find? fun outgoing => outgoing.kind = .answer).map fun outgoing =>
    ⟨outgoing.replyAddressLocation, outgoing.refs.channelRef, [outgoing.refs.messageRef]⟩

/-- The messages a handler declares that are no answers. -/
def HandlerMetadata.sent (handler : HandlerMetadata) : List OutgoingMessageMetadata :=
  handler.outgoing.filter fun outgoing => outgoing.kind ≠ .answer

/-- The operations a handler declares: its `receive`, and a `send` for each message that is no answer. -/
def declaredOperations (servers : List (String × Server)) (handler : HandlerMetadata) : List Operation :=
  handler.receiveOperation handler.reply (protocolTags servers handler)
    :: handler.sent.map fun outgoing => outgoing.sendOperation outgoing.refs (protocolTags servers handler)

/-! ## The loop -/

section Loop

variable (alphanumeric : Char → Bool)

variable (handler : HandlerMetadata)

variable (on : List Reference)

theorem addReply_snd (maps : Maps) : (addReply handler on maps).2 = handler.reply := by
  rw [addReply, HandlerMetadata.reply]
  cases handler.outgoing.find? fun outgoing => outgoing.kind = .answer with
  | none => rfl
  | some outgoing => rfl

theorem operations_addReply (maps : Maps) :
    (addReply handler on maps).1.operations = maps.operations := by
  rw [addReply]
  cases handler.outgoing.find? fun outgoing => outgoing.kind = .answer with
  | none => rfl
  | some outgoing => rfl

theorem adds_addReceive (reply : Option OperationReply) (on : List Reference)
    (tags : List Tag) (maps : Maps) :
    Adds maps.operations (addReceive alphanumeric handler reply on tags maps).operations
      [handler.receiveOperation reply tags] :=
  Adds.set (freeId_not_mem _ maps.operations) _

theorem adds_addSend (tags : List Tag) (maps : Maps) (outgoing : OutgoingMessageMetadata) :
    Adds maps.operations (addSend alphanumeric handler on tags maps outgoing).operations
      (if outgoing.kind = .answer then [] else [outgoing.sendOperation outgoing.refs tags]) := by
  rw [addSend]
  split_ifs with hkind
  · exact Adds.refl maps.operations
  · exact Adds.set (freeId_not_mem _ maps.operations) _

theorem flatMap_sent (tags : List Tag) : (handler.outgoing.flatMap fun outgoing =>
        if outgoing.kind = .answer then [] else [outgoing.sendOperation outgoing.refs tags])
      = handler.sent.map fun outgoing => outgoing.sendOperation outgoing.refs tags := by
  rw [HandlerMetadata.sent]
  induction handler.outgoing with
  | nil => rfl
  | cons outgoing rest ih =>
    rw [flatMap_cons, ih]
    by_cases hkind : outgoing.kind = .answer
    · rw [if_pos hkind, filter_cons_of_neg (by simp [hkind])]
      rfl
    · rw [if_neg hkind, filter_cons_of_pos (by simp [hkind])]
      rfl

/-- One round of the loop adds what the handler declares. -/
theorem adds_addHandler (servers : List (String × Server)) (maps : Maps) (handler : HandlerMetadata) :
    Adds maps.operations (addHandler alphanumeric servers maps handler).operations
      (declaredOperations servers handler) := by
  have hreceive := adds_addReceive alphanumeric handler handler.reply (onServers servers handler)
    (protocolTags servers handler) (addReply handler (onServers servers handler) maps).1
  rw [operations_addReply] at hreceive
  have hsends := Adds.foldl (adds_addSend alphanumeric handler (onServers servers handler) (protocolTags servers handler))
    handler.outgoing (addReceive alphanumeric handler handler.reply (onServers servers handler)
      (protocolTags servers handler) (addReply handler (onServers servers handler) maps).1)
  rw [flatMap_sent] at hsends
  rw [addHandler, addReply_snd]
  exact hreceive.trans hsends

theorem operations_fill (servers : List (String × Server)) (handlers : List HandlerMetadata) :
    ((fill alphanumeric servers handlers).operations.map Prod.fst).Nodup
      ∧ (fill alphanumeric servers handlers).operations.map Prod.snd
        = handlers.flatMap (declaredOperations servers) :=
  Adds.foldl (adds_addHandler alphanumeric servers) handlers {} nodup_nil

end Loop

end RustStream.AsyncApi
