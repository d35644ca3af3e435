import RustStream.Lib.Pointer

/-!
# The document

The objects of an AsyncAPI 3.1 document and the JSON they serialize to. Maps are association lists: the order of their
keys is not part of a document.

A reference is text in the document. Here it is what that text was formatted from, a channel, a message of a channel, a
message component, a server or a security scheme, and `Reference.target` formats it: the names stand in it as they are,
with nothing escaped. So the model can say what a reference was meant to name, and `Pointer.parse` what it does name.

## Main definitions

* `AsyncApi.Reference`: what the generator writes references to.
* `AsyncApi.Spec`, `AsyncApi.Spec.toJson`: the document and its JSON.

## Main results

* `AsyncApi.Spec.refs_toJson`: the references of the JSON are those the generator wrote and those of the values it was
  given.
-/

namespace RustStream.AsyncApi

/-! ## References -/

/-- What a reference of the document was written for. -/
inductive Reference where
  | channel (name : String)
  | channelMessage (channel message : String)
  | componentMessage (name : String)
  | server (name : String)
  | securityScheme (key : String)
  deriving DecidableEq

namespace Reference

/-- Where the document keeps what the reference was written for. -/
def path : Reference → List String
  | .channel name => ["channels", name]
  | .channelMessage owner message => ["channels", owner, "messages", message]
  | .componentMessage name => ["components", "messages", name]
  | .server name => ["servers", name]
  | .securityScheme key => ["components", "securitySchemes", key]

/-- The text of the reference. -/
def target (reference : Reference) : String :=
  Pointer.reference reference.path

def toJson (reference : Reference) : Json :=
  .obj [("$ref", .str reference.target)]

end Reference

/-! ## Fields

A field that is absent is left out, and so is one that is empty. -/

def optional (key : String) : Option Json → List (String × Json)
  | some value => [(key, value)]
  | none => []

def optionalText (key : String) (text : Option String) : List (String × Json) :=
  optional key (text.map .str)

/-- An object with one field for each entry of a map. -/
def mapJson {V : Type} (render : V → Json) (map : List (String × V)) : Json :=
  .obj (map.map fun entry => (entry.1, render entry.2))

def unlessEmpty {V : Type} (key : String) (values : List V) (json : Json) : List (String × Json) :=
  if values.isEmpty then [] else [(key, json)]

def unlessEmptyMap {V : Type} (key : String) (render : V → Json) (map : List (String × V)) : List (String × Json) :=
  unlessEmpty key map (mapJson render map)

def unlessEmptyList {V : Type} (key : String) (render : V → Json) (values : List V) : List (String × Json) :=
  unlessEmpty key values (.arr (values.map render))

/-! ## What a service and its brokers say of themselves -/

structure Contact where
  name : Option String := none
  url : Option String := none
  email : Option String := none

namespace Contact

def isEmpty (contact : Contact) : Bool :=
  contact.name.isNone && contact.url.isNone && contact.email.isNone

def toJson (contact : Contact) : Json :=
  .obj (optionalText "name" contact.name ++ optionalText "url" contact.url ++ optionalText "email" contact.email)

end Contact

structure License where
  name : String
  url : Option String := none

def License.toJson (license : License) : Json :=
  .obj (("name", .str license.name) :: optionalText "url" license.url)

structure ExternalDocs where
  url : String
  description : Option String := none

def ExternalDocs.toJson (docs : ExternalDocs) : Json :=
  .obj (("url", .str docs.url) :: optionalText "description" docs.description)

structure Tag where
  name : String
  description : Option String := none
  externalDocs : Option ExternalDocs := none

def Tag.toJson (tag : Tag) : Json :=
  .obj (("name", .str tag.name) :: optionalText "description" tag.description
    ++ optional "externalDocs" (tag.externalDocs.map ExternalDocs.toJson))

structure Info where
  title : String
  version : String
  description : Option String
  termsOfService : Option String
  contact : Option Contact
  license : Option License
  tags : List Tag
  externalDocs : Option ExternalDocs

def Info.toJson (info : Info) : Json :=
  .obj ([("title", .str info.title), ("version", .str info.version)]
    ++ optionalText "description" info.description
    ++ optionalText "termsOfService" info.termsOfService
    ++ optional "contact" (info.contact.map Contact.toJson)
    ++ optional "license" (info.license.map License.toJson)
    ++ unlessEmptyList "tags" Tag.toJson info.tags
    ++ optional "externalDocs" (info.externalDocs.map ExternalDocs.toJson))

/-- What a broker says in its own protocol's vocabulary: for each protocol the fields of an object. -/
abbrev Bindings := List (String × List (String × Json))

def bindingsJson (bindings : Bindings) : List (String × Json) :=
  unlessEmptyMap "bindings" Json.obj bindings

/-! ## The parts of the document -/

structure Server where
  host : Option String
  protocol : String
  protocolVersion : Option String
  description : Option String
  security : List Reference
  bindings : Bindings

def Server.toJson (server : Server) : Json :=
  .obj (optionalText "host" server.host
    ++ [("protocol", .str server.protocol)]
    ++ optionalText "protocolVersion" server.protocolVersion
    ++ optionalText "description" server.description
    ++ unlessEmptyList "security" Reference.toJson server.security
    ++ bindingsJson server.bindings)

/-- One placeholder of a templated address. -/
structure Parameter where
  description : Option String := none

def Parameter.toJson (parameter : Parameter) : Json :=
  .obj (optionalText "description" parameter.description)

structure Channel where
  /-- None where the address is decided for each delivery. -/
  address : Option String
  messages : List (String × Reference)
  parameters : List (String × Parameter)
  servers : List Reference
  bindings : Bindings

def Channel.toJson (channel : Channel) : Json :=
  .obj ([("address", (channel.address.map Json.str).getD .null), ("messages", mapJson Reference.toJson channel.messages)]
    ++ unlessEmptyMap "parameters" Parameter.toJson channel.parameters
    ++ unlessEmptyList "servers" Reference.toJson channel.servers
    ++ bindingsJson channel.bindings)

inductive Action where
  | receive
  | send
  deriving DecidableEq

def Action.text : Action → String
  | receive => "receive"
  | send => "send"

structure OperationReply where
  /-- Where a client finds the address, if the reply names it for each delivery. -/
  address : Option String
  channel : Reference
  messages : List Reference

def OperationReply.toJson (reply : OperationReply) : Json :=
  .obj (optional "address" (reply.address.map fun location => .obj [("location", .str location)])
    ++ [("channel", reply.channel.toJson), ("messages", .arr (reply.messages.map Reference.toJson))])

structure RetryExtension where
  maxAttempts : Option ℕ
  deadLetter : Option String
  retryDestination : Option String

def RetryExtension.toJson (retry : RetryExtension) : Json :=
  .obj (optional "maxAttempts" (retry.maxAttempts.map fun attempts => .num (toString attempts))
    ++ optionalText "deadLetter" retry.deadLetter
    ++ optionalText "retryDestination" retry.retryDestination)

structure Operation where
  action : Action
  channel : Reference
  messages : List Reference
  description : Option String
  reply : Option OperationReply
  tags : List Tag
  retry : Option RetryExtension
  bindings : Bindings

def Operation.toJson (operation : Operation) : Json :=
  .obj ([("action", .str operation.action.text), ("channel", operation.channel.toJson),
      ("messages", .arr (operation.messages.map Reference.toJson))]
    ++ optionalText "description" operation.description
    ++ optional "reply" (operation.reply.map OperationReply.toJson)
    ++ unlessEmptyList "tags" Tag.toJson operation.tags
    ++ optional "x-ruststream-retry" (operation.retry.map RetryExtension.toJson)
    ++ bindingsJson operation.bindings)

structure MessageObject where
  name : String
  title : Option String := none
  description : Option String := none
  contentType : Option String := none
  payload : Option Json := none
  headers : Option Json := none
  /-- Whether the missing payload schema is by design. Not part of the document. -/
  schemaless : Bool := false
  bindings : Bindings := []

def MessageObject.toJson (message : MessageObject) : Json :=
  .obj ([("name", .str message.name)]
    ++ optionalText "title" message.title
    ++ optionalText "description" message.description
    ++ optionalText "contentType" message.contentType
    ++ optional "payload" message.payload
    ++ optional "headers" message.headers
    ++ bindingsJson message.bindings)

structure Components where
  messages : List (String × MessageObject)
  securitySchemes : List (String × Json)

def Components.toJson (components : Components) : Json :=
  .obj (unlessEmptyMap "messages" MessageObject.toJson components.messages
    ++ unlessEmptyMap "securitySchemes" id components.securitySchemes)

/-- An AsyncAPI 3.1 document. -/
structure Spec where
  id : Option String
  info : Info
  servers : List (String × Server)
  defaultContentType : Option String
  channels : List (String × Channel)
  operations : List (String × Operation)
  components : Components

def Spec.toJson (spec : Spec) : Json :=
  .obj ([("asyncapi", .str "3.1.0")]
    ++ optionalText "id" spec.id
    ++ [("info", spec.info.toJson)]
    ++ unlessEmptyMap "servers" Server.toJson spec.servers
    ++ optionalText "defaultContentType" spec.defaultContentType
    ++ unlessEmptyMap "channels" Channel.toJson spec.channels
    ++ unlessEmptyMap "operations" Operation.toJson spec.operations
    ++ [("components", spec.components.toJson)])

/-! ## The references of the JSON -/

section Refs

open List Json

variable {V : Type} {key : String}

theorem fieldRefs_optional (hkey : key ≠ "$ref") (value : Option Json) :
    fieldRefs (optional key value) = (value.map refs).getD [] := by
  cases value with
  | none => rfl
  | some value => rw [optional, fieldRefs_cons, refText_of_ne hkey, nil_append]; exact append_nil _

theorem fieldRefs_optionalText (hkey : key ≠ "$ref") (text : Option String) :
    fieldRefs (optionalText key text) = [] := by
  rw [optionalText, fieldRefs_optional hkey]
  cases text <;> rfl

theorem fieldRefs_unlessEmpty (hkey : key ≠ "$ref") {values : List V} {json : Json}
    (hempty : values = [] → json.refs = []) : fieldRefs (unlessEmpty key values json) = json.refs := by
  rw [unlessEmpty]
  split_ifs with h
  · exact (hempty (List.isEmpty_iff.mp h)).symm
  · rw [fieldRefs_cons, refText_of_ne hkey, nil_append]
    exact append_nil _

variable {render : V → Json}

theorem refs_mapJson {map : List (String × V)} (hrender : ∀ entry ∈ map, (render entry.2).isObj = true) :
    (mapJson render map).refs = map.flatMap fun entry => (render entry.2).refs := by
  rw [mapJson, refs_obj, fieldRefs, flatMap_map]
  refine flatMap_congr fun entry hentry => ?_
  rw [refText_of_isObj (hrender entry hentry), nil_append]

theorem fieldRefs_unlessEmptyMap (hkey : key ≠ "$ref") {map : List (String × V)}
    (hrender : ∀ entry ∈ map, (render entry.2).isObj = true) :
    fieldRefs (unlessEmptyMap key render map) = map.flatMap fun entry => (render entry.2).refs := by
  rw [unlessEmptyMap, fieldRefs_unlessEmpty hkey, refs_mapJson hrender]
  rintro rfl
  rfl

theorem fieldRefs_unlessEmptyList (hkey : key ≠ "$ref") (render : V → Json) (values : List V) :
    fieldRefs (unlessEmptyList key render values) = values.flatMap fun value => (render value).refs := by
  rw [unlessEmptyList, fieldRefs_unlessEmpty hkey, refs_arr, flatMap_map]
  rintro rfl
  rfl

/-- The references in what brokers say. -/
def bindingRefs (bindings : Bindings) : List String :=
  bindings.flatMap fun entry => fieldRefs entry.2

theorem fieldRefs_bindingsJson (bindings : Bindings) : fieldRefs (bindingsJson bindings) = bindingRefs bindings := by
  rw [bindingsJson, fieldRefs_unlessEmptyMap (by decide) fun _ _ => rfl]
  exact flatMap_congr fun entry _ => refs_obj entry.2

theorem refs_reference (reference : Reference) : reference.toJson.refs = [reference.target] :=
  rfl

theorem refs_references (references : List Reference) :
    (references.flatMap fun reference => reference.toJson.refs) = references.map Reference.target :=
  map_eq_flatMap.symm

theorem refs_arr_references (references : List Reference) :
    (arr (references.map Reference.toJson)).refs = references.map Reference.target := by
  rw [refs_arr, flatMap_map, refs_references]

theorem Contact.refs_toJson (contact : Contact) : contact.toJson.refs = [] := by
  simp (disch := decide) only [Contact.toJson, refs_obj, fieldRefs_append, fieldRefs_optionalText, append_nil]

theorem License.refs_toJson (license : License) : license.toJson.refs = [] := by
  simp (disch := decide) only [License.toJson, refs_obj, fieldRefs_cons, refText_of_ne, refs_str, fieldRefs_optionalText,
    append_nil]

theorem ExternalDocs.refs_toJson (docs : ExternalDocs) : docs.toJson.refs = [] := by
  simp (disch := decide) only [ExternalDocs.toJson, refs_obj, fieldRefs_cons, refText_of_ne, refs_str,
    fieldRefs_optionalText, append_nil]

theorem getD_refs_map (hrender : ∀ value, (render value).refs = []) (value : Option V) :
    ((value.map render).map refs).getD [] = [] := by
  cases value with
  | none => rfl
  | some value => exact hrender value

theorem Tag.refs_toJson (tag : Tag) : tag.toJson.refs = [] := by
  simp (disch := decide) only [Tag.toJson, refs_obj, fieldRefs_append, fieldRefs_cons, refText_of_ne, refs_str,
    fieldRefs_optionalText, fieldRefs_optional, getD_refs_map ExternalDocs.refs_toJson, append_nil]

theorem flatMap_refs_tags (tags : List Tag) : (tags.flatMap fun tag => tag.toJson.refs) = [] :=
  flatMap_eq_nil_iff.mpr fun tag _ => tag.refs_toJson

theorem Info.refs_toJson (info : Info) : info.toJson.refs = [] := by
  simp (disch := decide) only [Info.toJson, refs_obj, fieldRefs_append, fieldRefs_cons, refText_of_ne, refs_str,
    fieldRefs_optionalText, fieldRefs_optional, fieldRefs_unlessEmptyList, flatMap_refs_tags,
    getD_refs_map Contact.refs_toJson, getD_refs_map License.refs_toJson, getD_refs_map ExternalDocs.refs_toJson,
    append_nil]
  rfl

theorem Server.refs_toJson (server : Server) :
    server.toJson.refs = server.security.map Reference.target ++ bindingRefs server.bindings := by
  simp (disch := decide) only [Server.toJson, refs_obj, fieldRefs_append, fieldRefs_cons, refText_of_ne, refs_str,
    fieldRefs_optionalText, fieldRefs_unlessEmptyList, refs_references, fieldRefs_bindingsJson, append_nil,
    nil_append]
  rfl

theorem Parameter.refs_toJson (parameter : Parameter) : parameter.toJson.refs = [] := by
  simp (disch := decide) only [Parameter.toJson, refs_obj, fieldRefs_optionalText]

/-- The references of a channel. -/
def Channel.references (channel : Channel) : List Reference :=
  channel.messages.map Prod.snd ++ channel.servers

theorem Channel.refs_toJson (channel : Channel) :
    channel.toJson.refs = channel.references.map Reference.target ++ bindingRefs channel.bindings := by
  have haddress : ((channel.address.map Json.str).getD .null).refs = [] := by
    cases channel.address <;> rfl
  have hmessages : (mapJson Reference.toJson channel.messages).refs
      = (channel.messages.map Prod.snd).map Reference.target := by
    rw [refs_mapJson fun _ _ => rfl, ← refs_references, flatMap_map]
  have hparameters : fieldRefs (unlessEmptyMap "parameters" Parameter.toJson channel.parameters) = [] := by
    rw [fieldRefs_unlessEmptyMap (by decide) fun _ _ => rfl]
    exact flatMap_eq_nil_iff.mpr fun entry _ => entry.2.refs_toJson
  simp (disch := decide) only [Channel.toJson, Channel.references, refs_obj, fieldRefs_append, fieldRefs_cons,
    refText_of_ne, haddress, hmessages, hparameters, fieldRefs_unlessEmptyList, refs_references,
    fieldRefs_bindingsJson, append_nil, nil_append, map_append]
  simp only [fieldRefs, flatMap_nil, append_nil]

/-- The references of a reply. -/
def OperationReply.references (reply : OperationReply) : List Reference :=
  reply.channel :: reply.messages

theorem OperationReply.refs_toJson (reply : OperationReply) :
    reply.toJson.refs = reply.references.map Reference.target := by
  have haddress : fieldRefs (optional "address"
      (reply.address.map fun location => .obj [("location", .str location)])) = [] := by
    cases reply.address <;> rfl
  simp (disch := decide) only [OperationReply.toJson, OperationReply.references, refs_obj, fieldRefs_append,
    fieldRefs_cons, refText_of_ne, haddress, refs_reference, refs_arr_references, nil_append, map_cons]
  simp only [fieldRefs, flatMap_nil, append_nil, cons_append, nil_append]

theorem RetryExtension.refs_toJson (retry : RetryExtension) : retry.toJson.refs = [] := by
  have hattempts : fieldRefs (optional "maxAttempts"
      (retry.maxAttempts.map fun attempts => .num (toString attempts))) = [] := by
    cases retry.maxAttempts <;> rfl
  simp (disch := decide) only [RetryExtension.toJson, refs_obj, fieldRefs_append, hattempts, fieldRefs_optionalText,
    append_nil]

/-- The references of an operation. -/
def Operation.references (operation : Operation) : List Reference :=
  operation.channel :: operation.messages ++ (operation.reply.map OperationReply.references).getD []

theorem Operation.refs_toJson (operation : Operation) :
    operation.toJson.refs = operation.references.map Reference.target ++ bindingRefs operation.bindings := by
  have hreply : ((operation.reply.map OperationReply.toJson).map refs).getD []
      = ((operation.reply.map OperationReply.references).getD []).map Reference.target := by
    cases operation.reply with
    | none => rfl
    | some reply => exact reply.refs_toJson
  simp (disch := decide) only [Operation.toJson, Operation.references, refs_obj, fieldRefs_append, fieldRefs_cons,
    refText_of_ne, refs_str, refs_reference, refs_arr_references, fieldRefs_optionalText,
    fieldRefs_optional, hreply, fieldRefs_unlessEmptyList, flatMap_refs_tags,
    getD_refs_map RetryExtension.refs_toJson, fieldRefs_bindingsJson, nil_append, append_nil,
    map_append, map_cons]
  simp only [fieldRefs, flatMap_nil, append_nil, cons_append, nil_append, append_assoc]

/-- The references in what a message component was given. -/
def MessageObject.givenRefs (message : MessageObject) : List String :=
  (message.payload.map refs).getD [] ++ (message.headers.map refs).getD [] ++ bindingRefs message.bindings

theorem MessageObject.refs_toJson (message : MessageObject) : message.toJson.refs = message.givenRefs := by
  simp (disch := decide) only [MessageObject.toJson, MessageObject.givenRefs, refs_obj, fieldRefs_append,
    fieldRefs_cons, refText_of_ne, refs_str, fieldRefs_optionalText, fieldRefs_optional, fieldRefs_bindingsJson,
    nil_append, append_nil]
  simp only [fieldRefs, flatMap_nil, nil_append]

/-- The references the generator wrote. -/
def Spec.references (spec : Spec) : List Reference :=
  spec.servers.flatMap (fun entry => entry.2.security) ++ spec.channels.flatMap (fun entry => entry.2.references)
    ++ spec.operations.flatMap fun entry => entry.2.references

/-- The values the document was given, schemas, bindings and security schemes, hold no references, and the security
schemes are objects. -/
structure Spec.Closed (spec : Spec) : Prop where
  servers : ∀ entry ∈ spec.servers, bindingRefs entry.2.bindings = []
  channels : ∀ entry ∈ spec.channels, bindingRefs entry.2.bindings = []
  operations : ∀ entry ∈ spec.operations, bindingRefs entry.2.bindings = []
  messages : ∀ entry ∈ spec.components.messages, entry.2.givenRefs = []
  schemes : ∀ entry ∈ spec.components.securitySchemes, entry.2.isObj = true ∧ entry.2.refs = []

theorem flatMap_refs_of_closed {W : Type} {map : List (String × W)} {render : W → Json}
    {references : W → List Reference} {given : W → List String}
    (hrefs : ∀ value, (render value).refs = (references value).map Reference.target ++ given value)
    (hgiven : ∀ entry ∈ map, given entry.2 = []) : (map.flatMap fun entry => (render entry.2).refs)
      = (map.flatMap fun entry => references entry.2).map Reference.target := by
  rw [map_flatMap]
  refine flatMap_congr fun entry hentry => ?_
  rw [hrefs, hgiven entry hentry, append_nil]

theorem Components.refs_toJson {components : Components} (hmessages : ∀ entry ∈ components.messages, entry.2.givenRefs = [])
    (hschemes : ∀ entry ∈ components.securitySchemes, entry.2.isObj = true ∧ entry.2.refs = []) :
    components.toJson.refs = [] := by
  rw [Components.toJson, refs_obj, fieldRefs_append, fieldRefs_unlessEmptyMap (by decide) fun _ _ => rfl,
    fieldRefs_unlessEmptyMap (by decide) fun entry hentry => (hschemes entry hentry).1, append_eq_nil_iff]
  constructor
  · refine flatMap_eq_nil_iff.mpr fun entry hentry => ?_
    rw [MessageObject.refs_toJson, hmessages entry hentry]
  · exact flatMap_eq_nil_iff.mpr fun entry hentry => (hschemes entry hentry).2

/-- **The references of the document** are those the generator wrote, if it was given none. -/
theorem Spec.refs_toJson {spec : Spec} (h : spec.Closed) : spec.toJson.refs = spec.references.map Reference.target := by
  have hservers := flatMap_refs_of_closed Server.refs_toJson h.servers
  have hchannels := flatMap_refs_of_closed Channel.refs_toJson h.channels
  have hoperations := flatMap_refs_of_closed Operation.refs_toJson h.operations
  have hcomponents := Components.refs_toJson h.messages h.schemes
  rw [Spec.references, map_append, map_append, ← hservers, ← hchannels, ← hoperations]
  rw [Spec.toJson, refs_obj]
  simp only [fieldRefs_append, fieldRefs_cons]
  rw [fieldRefs_unlessEmptyMap (by decide) fun _ _ => rfl, fieldRefs_unlessEmptyMap (by decide) fun _ _ => rfl,
    fieldRefs_unlessEmptyMap (by decide) fun _ _ => rfl]
  simp (disch := decide) only [refText_of_ne, refs_str, fieldRefs_optionalText, Info.refs_toJson, hcomponents,
    nil_append, append_nil]
  simp only [fieldRefs, flatMap_nil, append_nil, nil_append]

end Refs

end RustStream.AsyncApi
