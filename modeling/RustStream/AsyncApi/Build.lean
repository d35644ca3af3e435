import RustStream.AsyncApi.Spec
import RustStream.Lib.Fresh

/-!
# Building the document

`buildSpec` goes through a service's handlers once and fills three maps: the channels, the operations and the message
components. A handler that answers puts its reply's channel and message in first, then comes its own `receive`
operation, then a `send` operation for each message it declares that is not an answer. A channel is created by whichever
registration reaches it first and completed by the later ones; an operation's id is its name made safe, with a number
behind it where the id is taken.

Schemas are here as they parse, `none` where there is none or its text is no JSON, and `alphanumeric` stands for the
characters that count as letters or digits.

## Main definitions

* `AsyncApi.App`: what a service says about itself, with its servers under distinct names.
* `AsyncApi.buildServers`, `AsyncApi.resolveServer`: the servers, their security schemes, and the server of a handler.
* `AsyncApi.addOutgoing`, `AsyncApi.addReceive`, `AsyncApi.addHandler`: what one registration adds.
* `AsyncApi.buildSpec`: the document.
-/

namespace RustStream.AsyncApi

/-! ## What a service declares -/

/-- What a broker says about a channel, about the operations on it and about their messages. -/
structure LevelBindings where
  channel : Bindings := []
  operation : Bindings := []
  message : Bindings := []

/-- The header a message set reads and the value that names one model. -/
structure HeaderDiscriminator where
  header : String
  value : String

inductive OutgoingKind where
  | slotEntry
  | answer
  | deadLetter
  | retryCopy
  deriving DecidableEq

structure OutgoingMessageMetadata where
  channel : String
  messageType : String
  messageName : Option String := none
  messageDescription : Option String := none
  payloadSchema : Option Json := none
  headersSchema : Option Json := none
  parameters : List String := []
  serialized : Bool := false
  kind : OutgoingKind := .slotEntry
  contentType : Option String := none
  replyAddressLocation : Option String := none
  discriminator : Option HeaderDiscriminator := none
  bindings : LevelBindings := {}

structure IncomingMessageMetadata where
  messageType : String
  messageName : Option String := none
  messageDescription : Option String := none
  payloadSchema : Option Json := none
  headersSchema : Option Json := none
  deserialized : Bool := false
  contentType : Option String := none
  discriminator : Option HeaderDiscriminator := none

structure RetryDeclaration where
  maxAttempts : Option ℕ := none
  deadLetter : Option String := none

def RetryDeclaration.declaresNothing (retry : RetryDeclaration) : Bool :=
  retry.maxAttempts.isNone && retry.deadLetter.isNone

structure HandlerMetadata where
  name : String
  inputType : String
  description : Option String := none
  payloadSchema : Option Json := none
  headersSchema : Option Json := none
  messageName : Option String := none
  messageDescription : Option String := none
  outgoing : List OutgoingMessageMetadata := []
  incoming : List IncomingMessageMetadata := []
  deserialized : Bool := false
  server : Option String := none
  contentType : Option String := none
  retry : RetryDeclaration := {}
  bindings : LevelBindings := {}

inductive ApiKeyLocation where
  | user
  | password

def ApiKeyLocation.asApi : ApiKeyLocation → String
  | user => "user"
  | password => "password"

inductive HttpApiKeyLocation where
  | query
  | header
  | cookie

def HttpApiKeyLocation.asApi : HttpApiKeyLocation → String
  | query => "query"
  | header => "header"
  | cookie => "cookie"

inductive SecuritySchemeKind where
  | userPassword
  | apiKey (location : ApiKeyLocation)
  | x509
  | plain
  | scramSha256
  | scramSha512
  | gssapi
  | http (scheme : String)
  | httpApiKey (name : String) (location : HttpApiKeyLocation)
  | openIdConnect (url : String)
  | oauth2 (flows : Json)
  | custom (object : Json)

def SecuritySchemeKind.object : SecuritySchemeKind → Json
  | userPassword => .obj [("type", .str "userPassword")]
  | apiKey location => .obj [("type", .str "apiKey"), ("in", .str location.asApi)]
  | x509 => .obj [("type", .str "X509")]
  | plain => .obj [("type", .str "plain")]
  | scramSha256 => .obj [("type", .str "scramSha256")]
  | scramSha512 => .obj [("type", .str "scramSha512")]
  | gssapi => .obj [("type", .str "gssapi")]
  | http scheme => .obj [("type", .str "http"), ("scheme", .str scheme)]
  | httpApiKey name location => .obj [("type", .str "httpApiKey"), ("name", .str name), ("in", .str location.asApi)]
  | openIdConnect url => .obj [("type", .str "openIdConnect"), ("openIdConnectUrl", .str url)]
  | oauth2 flows => .obj [("type", .str "oauth2"), ("flows", flows)]
  | custom object => object

structure SecurityScheme where
  kind : SecuritySchemeKind
  description : Option String := none

/-- The scheme as the document shows it. -/
def SecurityScheme.documentObject (scheme : SecurityScheme) : Json :=
  match scheme.description, scheme.kind.object with
  | some description, .obj fields => .obj (Assoc.set "description" (.str description) fields)
  | _, object => object

structure ServerSpec where
  host : Option String := none
  protocol : String
  protocolVersion : Option String := none
  description : Option String := none
  security : List SecurityScheme := []
  bindings : Bindings := []

structure AppInfo where
  title : String
  version : String
  description : Option String := none
  id : Option String := none
  termsOfService : Option String := none
  contact : Contact := {}
  license : Option License := none
  tags : List Tag := []
  externalDocs : Option ExternalDocs := none

/-- What a service says about itself. -/
structure App where
  info : AppInfo
  servers : List (String × ServerSpec)
  servers_nodup : (servers.map Prod.fst).Nodup
  handlers : List HandlerMetadata

/-! ## Servers -/

/-- The component a server's scheme goes to. -/
def schemeKey (name : String) (index : ℕ) : String :=
  if index = 0 then name else name ++ "-" ++ toString index

/-- The keys and the objects of a server's schemes. -/
def schemeEntries (name : String) (security : List SecurityScheme) : List (String × Json) :=
  security.mapIdx fun index scheme => (schemeKey name index, scheme.documentObject)

/-- The server as the document shows it. -/
def buildServer (name : String) (spec : ServerSpec) : Server where
  host := spec.host
  protocol := spec.protocol
  protocolVersion := spec.protocolVersion
  description := spec.description
  security := (schemeEntries name spec.security).map fun entry => .securityScheme entry.1
  bindings := spec.bindings

/-- The schemes of all the servers, each written under its key. -/
def buildSchemes (servers : List (String × ServerSpec)) : List (String × Json) :=
  Assoc.setAll (servers.flatMap fun server => schemeEntries server.1 server.2.security) []

def buildServers (app : App) : List (String × Server) × List (String × Json) :=
  (app.servers.map fun server => (server.1, buildServer server.1 server.2), buildSchemes app.servers)

/-- The server a registration's channels live on: the one its label names, or the only one there is. -/
def resolveServer (label : Option String) (servers : List (String × Server)) : Option String :=
  match label.filter fun label => (servers.lookup label).isSome with
  | some label => some label
  | none => if servers.length = 1 then (servers.map Prod.fst).head? else none

/-! ## Messages -/

/-- What stands behind the last `::`. -/
def lastSegment : List Char → Option (List Char)
  | [] => none
  | c :: rest =>
    match lastSegment rest with
    | some segment => some segment
    | none => if c = ':' ∧ rest.head? = some ':' then some rest.tail else none

def messageName (typeName : String) : String :=
  String.ofList ((lastSegment typeName.toList).getD typeName.toList)

/-- The headers schema with the header a message set reads as a required constant. -/
def withHeaderConst (headers : Option Json) (rule : HeaderDiscriminator) : Json :=
  let schema := Json.objectOr [("type", .str "object")] headers
  let properties := Json.objectOr [] (schema.lookup "properties")
  let schema := Assoc.set "properties"
    (.obj (Assoc.set rule.header (.obj [("const", .str rule.value)]) properties)) schema
  let required := Json.itemsOf (schema.lookup "required")
  let required := if required.any fun name => name.isText rule.header then required
    else required ++ [.str rule.header]
  .obj (Assoc.set "required" (.arr required) schema)

/-- The headers schema, with the rule of the message set where there is one. -/
def withDiscriminator (headers : Option Json) : Option HeaderDiscriminator → Option Json
  | some rule => some (withHeaderConst headers rule)
  | none => headers

/-- What one side says about a message component. -/
structure MessageContribution where
  name : String
  title : Option String
  description : Option String
  contentType : Option String
  payload : Option Json
  headers : Option Json
  schemaless : Bool
  bindings : Bindings

/-- A component with what one more side says: what is missing is filled in, what is there stays. -/
def MessageObject.merge (entry : MessageObject) (contribution : MessageContribution) : MessageObject where
  name := entry.name
  title := if entry.title.isNone && contribution.title.any (· ≠ entry.name) then contribution.title else entry.title
  description := entry.description.or contribution.description
  contentType := entry.contentType.or contribution.contentType
  payload := entry.payload.or contribution.payload
  headers := entry.headers.or contribution.headers
  schemaless := entry.schemaless || contribution.schemaless
  bindings := Assoc.fill entry.bindings contribution.bindings

def mergeMessage (messages : List (String × MessageObject)) (contribution : MessageContribution) :
    List (String × MessageObject) :=
  Assoc.update contribution.name { name := contribution.name } (fun entry => entry.merge contribution) messages

/-- The text a schema has under a key. -/
def schemaText (schema : Option Json) (key : String) : Option String :=
  match schema with
  | some (.obj fields) =>
    match fields.lookup key with
    | some (.str text) => some text
    | _ => none
  | _ => none

/-- What one received message is described by. -/
structure Received where
  messageType : String
  payloadSchema : Option Json
  headersSchema : Option Json
  messageName : Option String
  messageDescription : Option String
  contentType : Option String
  deserialized : Bool
  discriminator : Option HeaderDiscriminator

namespace Received

def ofHandler (handler : HandlerMetadata) : Received where
  messageType := handler.inputType
  payloadSchema := handler.payloadSchema
  headersSchema := handler.headersSchema
  messageName := handler.messageName
  messageDescription := handler.messageDescription
  contentType := handler.contentType
  deserialized := handler.deserialized
  discriminator := none

def ofModel (model : IncomingMessageMetadata) : Received where
  messageType := model.messageType
  payloadSchema := model.payloadSchema
  headersSchema := model.headersSchema
  messageName := model.messageName
  messageDescription := model.messageDescription
  contentType := model.contentType
  deserialized := model.deserialized
  discriminator := model.discriminator

def contribution (received : Received) (handler : HandlerMetadata) : MessageContribution where
  name := (received.messageName.or (schemaText received.payloadSchema "title")).getD
    (AsyncApi.messageName received.messageType)
  title := schemaText received.payloadSchema "title"
  description := (received.messageDescription.or (schemaText received.payloadSchema "description")).or
    handler.description
  contentType := received.contentType
  payload := received.payloadSchema
  headers := withDiscriminator received.headersSchema received.discriminator
  schemaless := received.deserialized
  bindings := handler.bindings.message

end Received

namespace HandlerMetadata

/-- What the handler receives: its own input, or each model of its message set. -/
def received (handler : HandlerMetadata) : List MessageContribution :=
  if handler.incoming.isEmpty then [(Received.ofHandler handler).contribution handler]
  else handler.incoming.map fun model => (Received.ofModel model).contribution handler

def retryExtension (handler : HandlerMetadata) : Option RetryExtension :=
  let retryDestination := (handler.outgoing.find? fun outgoing => outgoing.kind = .retryCopy).map (·.channel)
  if handler.retry.declaresNothing && retryDestination.isNone then none
  else some ⟨handler.retry.maxAttempts, handler.retry.deadLetter, retryDestination⟩

end HandlerMetadata

def OutgoingMessageMetadata.contribution (outgoing : OutgoingMessageMetadata) : MessageContribution where
  name := (outgoing.messageName.or (schemaText outgoing.payloadSchema "title")).getD
    (AsyncApi.messageName outgoing.messageType)
  title := schemaText outgoing.payloadSchema "title"
  description := outgoing.messageDescription.or (schemaText outgoing.payloadSchema "description")
  contentType := outgoing.contentType
  payload := outgoing.payloadSchema
  headers := withDiscriminator outgoing.headersSchema outgoing.discriminator
  schemaless := outgoing.serialized
  bindings := outgoing.bindings.message

/-! ## Operation ids -/

section Ids

variable (alphanumeric : Char → Bool)

def sanitizeId (name : String) : String :=
  String.ofList (name.toList.map fun c => if alphanumeric c then c else '_')

/-- The base, or the first free one of it with a number from 2 on behind it. -/
def freeId (base : String) (operations : List (String × Operation)) : String :=
  if base ∈ operations.map Prod.fst then
    Fresh.search (Fresh.numbered base) (operations.map Prod.fst) operations.length 2
  else base

def receiveOperationId (operations : List (String × Operation)) (name : String) : String :=
  freeId ("receive_" ++ sanitizeId alphanumeric name) operations

def sendOperationId (operations : List (String × Operation)) (name channel : String) : String :=
  freeId ("send_" ++ sanitizeId alphanumeric name ++ "_" ++ sanitizeId alphanumeric channel) operations

end Ids

/-! ## Registrations -/

/-- The maps the handlers fill. -/
structure Maps where
  channels : List (String × Channel) := []
  operations : List (String × Operation) := []
  messages : List (String × MessageObject) := []

/-- A channel with what one more registration says of it: bindings it lacks, and messages. -/
def Channel.join (channel : Channel) (bindings : Bindings) (names : List String) : Channel :=
  { channel with
    bindings := Assoc.fill channel.bindings bindings
    messages := names.foldl (fun messages name => Assoc.set name (.componentMessage name) messages) channel.messages }

/-- Where an operation points to reach an outgoing message. -/
structure OutgoingRefs where
  channel : String
  message : String

namespace OutgoingRefs

def channelRef (refs : OutgoingRefs) : Reference :=
  .channel refs.channel

def messageRef (refs : OutgoingRefs) : Reference :=
  .channelMessage refs.channel refs.message

end OutgoingRefs

/-- The channel an outgoing message creates. -/
def OutgoingMessageMetadata.freshChannel (outgoing : OutgoingMessageMetadata) (onServers : List Reference) :
    Channel where
  -- a destination named for each delivery has no address to report
  address := if outgoing.replyAddressLocation.isNone then some outgoing.channel else none
  messages := []
  parameters := outgoing.parameters.foldl (fun parameters segment => Assoc.set segment {} parameters) []
  servers := onServers
  bindings := []

def addOutgoing (outgoing : OutgoingMessageMetadata) (onServers : List Reference) (maps : Maps) : Maps × OutgoingRefs :=
  let contribution := outgoing.contribution
  ({ maps with
      channels := Assoc.update outgoing.channel (outgoing.freshChannel onServers)
        (fun channel => channel.join outgoing.bindings.channel [contribution.name]) maps.channels
      messages := mergeMessage maps.messages contribution },
    ⟨outgoing.channel, contribution.name⟩)

/-- The channel a subscription creates. -/
def HandlerMetadata.freshChannel (handler : HandlerMetadata) (onServers : List Reference) : Channel where
  address := some handler.name
  messages := []
  parameters := []
  servers := onServers
  bindings := []

/-- The `receive` operation of a handler. -/
def HandlerMetadata.receiveOperation (handler : HandlerMetadata) (reply : Option OperationReply) (tags : List Tag) :
    Operation where
  action := .receive
  channel := .channel handler.name
  messages := handler.received.map fun contribution => .channelMessage handler.name contribution.name
  description := handler.description
  reply := reply
  tags := tags
  retry := handler.retryExtension
  bindings := handler.bindings.operation

/-- The `send` operation of an outgoing message. -/
def OutgoingMessageMetadata.sendOperation (outgoing : OutgoingMessageMetadata) (refs : OutgoingRefs) (tags : List Tag) :
    Operation where
  action := .send
  channel := refs.channelRef
  messages := [refs.messageRef]
  description := none
  reply := none
  tags := tags
  retry := none
  bindings := outgoing.bindings.operation

section Handlers

variable (alphanumeric : Char → Bool)

def addReceive (handler : HandlerMetadata) (reply : Option OperationReply) (onServers : List Reference)
    (tags : List Tag) (maps : Maps) : Maps where
  channels := Assoc.update handler.name (handler.freshChannel onServers)
    (fun channel =>
      -- a subscription reads a real address, whatever a publish that came first said of its destination
      { channel with address := some handler.name }.join handler.bindings.channel (handler.received.map MessageContribution.name))
    maps.channels
  operations := Assoc.set (receiveOperationId alphanumeric maps.operations handler.name)
    (handler.receiveOperation reply tags) maps.operations
  messages := handler.received.foldl mergeMessage maps.messages

/-- The reply of a handler's first answer, with its channel and its message in the maps. -/
def addReply (handler : HandlerMetadata) (onServers : List Reference) (maps : Maps) : Maps × Option OperationReply :=
  match handler.outgoing.find? fun outgoing => outgoing.kind = .answer with
  | some outgoing =>
    let added := addOutgoing outgoing onServers maps
    (added.1, some ⟨outgoing.replyAddressLocation, added.2.channelRef, [added.2.messageRef]⟩)
  | none => (maps, none)

/-- An outgoing message with its `send` operation; an answer has none. -/
def addSend (handler : HandlerMetadata) (onServers : List Reference) (tags : List Tag) (maps : Maps)
    (outgoing : OutgoingMessageMetadata) : Maps :=
  if outgoing.kind = .answer then maps
  else
    let added := addOutgoing outgoing onServers maps
    { added.1 with
      operations := Assoc.set (sendOperationId alphanumeric added.1.operations handler.name added.2.channel)
        (outgoing.sendOperation added.2 tags) added.1.operations }

/-- The servers the channels of a handler are created on. -/
def onServers (servers : List (String × Server)) (handler : HandlerMetadata) : List Reference :=
  ((resolveServer handler.server servers).map Reference.server).toList

/-- The tags of a handler's operations: the protocol of its server. -/
def protocolTags (servers : List (String × Server)) (handler : HandlerMetadata) : List Tag :=
  (((resolveServer handler.server servers).bind fun name => servers.lookup name).map
    fun server => { name := server.protocol }).toList

/-- What one handler adds to the maps. -/
def addHandler (servers : List (String × Server)) (maps : Maps) (handler : HandlerMetadata) : Maps :=
  let on := onServers servers handler
  let tags := protocolTags servers handler
  let replied := addReply handler on maps
  let maps := addReceive alphanumeric handler replied.2 on tags replied.1
  handler.outgoing.foldl (addSend alphanumeric handler on tags) maps

/-- The media type every message names, if there is one. -/
def agreedContentType : Option String → List MessageObject → Option String
  | agreed, [] => agreed
  | agreed, message :: messages =>
    match message.contentType, agreed with
    | none, _ => none
    | some contentType, none => agreedContentType (some contentType) messages
    | some contentType, some existing =>
      if existing = contentType then agreedContentType (some existing) messages else none

def AppInfo.toInfo (info : AppInfo) : Info where
  title := info.title
  version := info.version
  description := info.description
  termsOfService := info.termsOfService
  contact := if info.contact.isEmpty then none else some info.contact
  license := info.license
  tags := info.tags
  externalDocs := info.externalDocs

/-- The maps of a list of handlers. -/
def fill (servers : List (String × Server)) (handlers : List HandlerMetadata) : Maps :=
  handlers.foldl (addHandler alphanumeric servers) {}

/-- The document of a service. -/
def buildSpec (app : App) : Spec :=
  let servers := buildServers app
  let maps := fill alphanumeric servers.1 app.handlers
  { id := app.info.id
    info := app.info.toInfo
    servers := servers.1
    defaultContentType := agreedContentType none (maps.messages.map Prod.snd)
    channels := maps.channels
    operations := maps.operations
    components := ⟨maps.messages, servers.2⟩ }

end Handlers

end RustStream.AsyncApi
